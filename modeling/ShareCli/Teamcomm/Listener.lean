import Mathlib.Algebra.Order.Ring.Nat
import ShareCli.Foundation.Machine
import ShareCli.Foundation.Text
import ShareCli.Foundation.Watch

/-!
# The listener of the teamcomm daemon (`listener.rs`)

`run` accepts connections in a loop and starts a task for each: in each turn the two shutdown channels are polled
before a connection is accepted. The second part models what the tasks of the connections keep in memory.
-/

namespace ShareCli.Teamcomm

open Foundation

/-- The connections from `accepted` up to `arrived` are pending. -/
structure AcceptLoop where
  shutdown : Watch Bool := { value := false }
  signal : Watch Bool := { value := false }
  arrived : Nat := 0
  accepted : Nat := 0
  calls : Nat := 0
  running : Bool := true

namespace AcceptLoop

/-- The arms are polled in order. An arm is taken when its channel has changed and also when the channel has no
sender any more. `fails` says which calls of `accept` return an error. -/
def select (s : AcceptLoop) (fails : Nat → Bool) : AcceptLoop :=
  match s.shutdown.changed with
  | (some _, shutdown) => { s with shutdown, running := !shutdown.value }
  | (none, _) =>
    match s.signal.changed with
    | (some _, signal) => { s with signal, running := !signal.value }
    | (none, _) =>
      if s.accepted < s.arrived then
        { s with accepted := if fails s.calls then s.accepted else s.accepted + 1, calls := s.calls + 1 }
      else s

def turn (s : AcceptLoop) (fails : Nat → Bool) : AcceptLoop := if s.running then s.select fails else s

def deliver (s : AcceptLoop) (shutdown signal : List (WatchOp Bool)) (connections : Nat) : AcceptLoop :=
  { s with
    shutdown := shutdown.foldl Watch.apply s.shutdown
    signal := signal.foldl Watch.apply s.signal
    arrived := s.arrived + connections }

end AcceptLoop

/-- What `install_signal_handlers` does with its sender, which it drops when it returns. -/
def installSignalHandlers (sigint sigterm received : Bool) : List (WatchOp Bool) :=
  if !sigint then [.drop]
  else if !sigterm then [.drop]
  else if received then [.send true, .drop]
  else []

/-- What is sent before each turn. -/
structure Channels where
  shutdown : Nat → List (WatchOp Bool)
  signal : Nat → List (WatchOp Bool)

/-- `connections` come before each turn. -/
def acceptRun (c : Channels) (connections : Nat → Nat) (fails : Nat → Bool) : Nat → AcceptLoop
  | 0 => ({} : AcceptLoop).deliver (c.shutdown 0) (c.signal 0) (connections 0)
  | n + 1 =>
    ((acceptRun c connections fails n).turn fails).deliver (c.shutdown (n + 1)) (c.signal (n + 1))
      (connections (n + 1))

def maxLineBytes : Nat := 1024 * 1024

inductive ParsedLine where
  | malformed
  | notification
  | request
deriving DecidableEq

/-- The `String` that `read_line` appends to; `clear` keeps its memory. -/
structure LineBuffer where
  bytes : List UInt8 := []
  capacity : Nat := 0
deriving DecidableEq

def growCapacity (capacity required : Nat) : Nat :=
  if required ≤ capacity then capacity else max 8 (max (2 * capacity) required)

def LineBuffer.push (line : LineBuffer) (chunk : List UInt8) : LineBuffer :=
  { bytes := line.bytes ++ chunk, capacity := growCapacity line.capacity (line.bytes.length + chunk.length) }

def LineBuffer.clear (line : LineBuffer) : LineBuffer := { line with bytes := [] }

def bufReaderBytes : Nat := 8 * 1024

/-- What `read_line` takes out of the reader at once: up to a newline, or all there is. -/
def isChunk (chunk : List UInt8) : Bool :=
  chunk ≠ [] && chunk.length ≤ bufReaderBytes && chunk.dropLast.all (· ≠ 10)

inductive ConnPhase where
  | reading
  | answering
deriving DecidableEq

/-- The task of one connection. -/
structure ConnTask where
  line : LineBuffer := {}
  phase : ConnPhase := .reading
deriving DecidableEq

variable (parse : List Char → ParsedLine)

/-- What `handle_connection` does with the bytes of a line; it returns if they are no text. -/
def handleLine (bytes : List UInt8) : Option ConnPhase :=
  match Text.decodeUtf8 bytes with
  | none => none
  | some text =>
    let trimmed := Text.trim text
    if trimmed = [] then some .reading
    else if (Text.encodeUtf8 trimmed).length > maxLineBytes then some .answering
    else
      match parse trimmed with
      | .malformed => some .answering
      | .notification => some .reading
      | .request => some .answering

def endLine (line : LineBuffer) : Option ConnTask :=
  match handleLine parse line.bytes with
  | none => none
  | some .reading => some { line := line.clear }
  | some .answering => some { line, phase := .answering }

/-- A handle stays in the list when its task has returned. -/
structure Connections where
  running : Bool := true
  inflight : List (Option ConnTask) := []

inductive ConnEvent where
  | accept
  | read (index : Nat) (chunk : List UInt8)
  | eof (index : Nat)
  | close (index : Nat)
  | answered (index : Nat) (ok : Bool)
  | shutdown
deriving DecidableEq

namespace Connections

def task (s : Connections) (index : Nat) : Option ConnTask := (s.inflight[index]?).join

def setTask (s : Connections) (index : Nat) (task : Option ConnTask) : Connections :=
  { s with inflight := s.inflight.set index task }

def taskStep (parse : List Char → ParsedLine) (task : ConnTask) : ConnEvent → Option (Option ConnTask)
  | .read _ chunk =>
    if task.phase = .reading && isChunk chunk then
      if chunk.getLast? = some 10 then some (endLine parse (task.line.push chunk))
      else some (some { task with line := task.line.push chunk })
    else none
  | .eof _ =>
    if task.phase = .reading then
      if task.line.bytes = [] then some none else some (endLine parse task.line)
    else none
  | .close _ => if task.phase = .reading then some none else none
  | .answered _ ok =>
    if task.phase = .answering then some (if ok then some { line := task.line.clear } else none) else none
  | .accept | .shutdown => none

def step (parse : List Char → ParsedLine) (s : Connections) (event : ConnEvent) : Option Connections :=
  match event with
  | .accept => if s.running then some { s with inflight := s.inflight ++ [some {}] } else none
  | .shutdown => if s.running then some { running := false } else none
  | .read index _ | .eof index | .close index | .answered index _ =>
    (s.task index).bind fun task => (taskStep parse task event).map (s.setTask index)

end Connections

def connectionTasks : Machine Connections ConnEvent where
  init := {}
  step := Connections.step parse

structure Sizes where
  handle : Nat
  task : Nat
  handle_pos : 0 < handle

namespace Connections

def retained (s : Connections) (sizes : Sizes) : Nat :=
  (s.inflight.map fun task =>
    sizes.handle + (task.map fun task => sizes.task + task.line.capacity).getD 0).sum

def openCount (s : Connections) : Nat := s.inflight.countP Option.isSome

end Connections

end ShareCli.Teamcomm
