import ShareCli.Foundation.Path
import ShareCli.Ipc.CoalesceCache
import ShareCli.Ipc.Queue

/-!
# Slots of a lane (`SlotQueue::with_slot` in `crates/sharecli-ipc/src/queue.rs`)

A lane has the slot files `<lane>.slot<i>.lock` and the waiting directory `<lane>.waiting` under the queue
root. `with_slot` publishes a ticket in the waiting directory, polls until it is its turn and a slot file
can be locked, removes its ticket, and runs the caller's closure under the lock. A guard removes the
ticket on every other way out. Removing an existing file does not fail; every other file operation can.
-/

namespace ShareCli.Ipc

open Foundation

/-- All handles here share one root. -/
structure SlotQueue where
  maxConcurrent : Nat
  timeout : Nat
  poll : Nat
deriving DecidableEq

def SlotQueue.withOptions (maxConcurrent timeout poll : Nat) : SlotQueue :=
  { maxConcurrent := max maxConcurrent 1, timeout, poll }

variable (root : FilePath)

def slotPath (lane : String) (slot : Nat) : FilePath :=
  FilePath.resolve root (lane.toList ++ ".slot".toList ++ Nat.toDigits 10 slot ++ ".lock".toList)

def waitingDir (lane : String) : FilePath :=
  FilePath.resolve root (lane.toList ++ ".waiting".toList)

def tmpName (ticket : String) : String := String.ofList ('.' :: (ticket.toList ++ ".tmp".toList))

/-- The arguments of a call. -/
structure SlotCall where
  queue : SlotQueue
  lane : String
  priority : QueuePriority
deriving DecidableEq

structure Queued where
  call : SlotCall
  ticket : String
  enqueuedAt : Nat
  deadline : Nat
deriving DecidableEq

inductive SlotOutcome where
  | ok
  | closureFailed
  | timedOut
  | ioFailed
deriving DecidableEq

/-- Where a call is. -/
inductive SlotPc where
  | idle
  /-- In `enqueue_waiter`, with the temporary file written. -/
  | publishing (call : SlotCall) (ticket : String)
  | polling (q : Queued)
  | checkTurn (q : Queued)
  /-- In the loop over the slots, before slot `i`. -/
  | trySlot (q : Queued) (i : Nat)
  /-- Slot `i` is locked; the turn is checked again. -/
  | recheck (q : Queued) (i : Nat)
  /-- Asleep until `till`; then slot `next`, or the head of the polling loop. -/
  | sleeping (q : Queued) (till : Nat) (next : Option Nat)
  | starting (q : Queued) (i : Nat)
  | running (q : Queued) (i : Nat)
  | returning (q : Queued) (i : Nat) (outcome : SlotOutcome)
  /-- The result is decided and the guard is dropped next; `cleaned` after `guard.release()`. -/
  | exiting (q : Queued) (cleaned : Bool) (outcome : SlotOutcome)
  | done (q : Queued) (outcome : SlotOutcome)
  | notEnqueued (call : SlotCall) (ticket : String)
  | killed (call : SlotCall) (ticket : String)
deriving DecidableEq

/-- `ok` is false when a file operation fails. -/
inductive SlotEvent where
  | call (call : SlotCall) (ok : Bool)
  | publish (ok : Bool)
  | checkDeadline
  | checkTurn (ok : Bool)
  /-- `open` and `try_lock_exclusive` of the next slot file. -/
  | lockSlot (ok : Bool)
  | noSlot
  | recheck (ok : Bool)
  | wake
  /-- The ticket is removed, the guard released, and the closure called. -/
  | start
  | finish (ok : Bool)
  | unlock
  | dropGuard
  | kill
deriving DecidableEq

/-- The file of a waiting call. -/
structure WaitingFile where
  dir : FilePath
  name : String
  owner : Caller
deriving DecidableEq

/-- The queue's directory. -/
structure QueueRoot where
  now : Nat
  files : List WaitingFile
  locks : Flock.Table FilePath Caller
  nextSeq : Nat → Nat

variable (files : List WaitingFile)

def removeFile (dir : FilePath) (name : String) : List WaitingFile :=
  files.filter fun f => ¬ (f.dir = dir ∧ f.name = name)

def writeFile (f : WaitingFile) : List WaitingFile :=
  f :: removeFile files f.dir f.name

def publishTicket (dir : FilePath) (ticket : String) (owner : Caller) :
    List WaitingFile :=
  writeFile (removeFile files dir (tmpName ticket)) ⟨dir, ticket, owner⟩

def QueueRoot.isMyTurn (root : FilePath) (r : QueueRoot) (q : Queued) : Bool :=
  let dir := waitingDir root q.call.lane
  let entries := (r.files.filter fun f => f.dir = dir).map fun f => ⟨f.name, true⟩
  Ipc.isMyTurn (some entries) (Duration.asSecs r.now) q.call.priority q.ticket (r.now - q.enqueuedAt)

def SlotPc.holds : SlotPc → Option FilePath
  | .recheck q i | .starting q i | .running q i | .returning q i _ =>
    some (slotPath root q.call.lane i)
  | _ => none

def SlotPc.call? : SlotPc → Option SlotCall
  | .idle => none
  | .publishing call _ | .notEnqueued call _ | .killed call _ => some call
  | .polling q | .checkTurn q | .trySlot q _ | .recheck q _ | .sleeping q _ _ | .starting q _
  | .running q _ | .returning q _ _ | .exiting q _ _ | .done q _ => some q.call

def SlotPc.ticket : SlotPc → String
  | .idle => ""
  | .publishing _ ticket | .notEnqueued _ ticket | .killed _ ticket => ticket
  | .polling q | .checkTurn q | .trySlot q _ | .recheck q _ | .sleeping q _ _ | .starting q _
  | .running q _ | .returning q _ _ | .exiting q _ _ | .done q _ => q.ticket

def slotStep (pid : Nat) (r : QueueRoot) (c : Caller) :
    SlotPc → SlotEvent → Option (QueueRoot × SlotPc)
  | .idle, .call call ok =>
    let ticket := ticketName call.priority (Duration.asSecs r.now) pid (r.nextSeq pid)
    if ok then
      some ({ r with files := writeFile r.files ⟨waitingDir root call.lane, tmpName ticket, c⟩
                     nextSeq := Function.update r.nextSeq pid (r.nextSeq pid + 1) },
        .publishing call ticket)
    else some (r, .notEnqueued call ticket)
  | .publishing call ticket, .publish true =>
    some ({ r with files := publishTicket r.files (waitingDir root call.lane) ticket c },
      .polling ⟨call, ticket, r.now, r.now + call.queue.timeout⟩)
  | .publishing call ticket, .publish false => some (r, .notEnqueued call ticket)
  | .polling q, .checkDeadline =>
    if q.deadline ≤ r.now then some (r, .exiting q false .timedOut) else some (r, .checkTurn q)
  | .checkTurn q, .checkTurn true =>
    if r.isMyTurn root q then some (r, .trySlot q 0)
    else some (r, .sleeping q (r.now + q.call.queue.poll) none)
  | .checkTurn q, .checkTurn false => some (r, .exiting q false .ioFailed)
  | .trySlot q i, .lockSlot ok =>
    if i < q.call.queue.maxConcurrent then
      if ok then
        match Flock.tryLock r.locks (slotPath root q.call.lane i) c with
        | some locks => some ({ r with locks }, .recheck q i)
        | none => some (r, .trySlot q (i + 1))
      else some (r, .exiting q false .ioFailed)
    else none
  | .trySlot q i, .noSlot =>
    if i < q.call.queue.maxConcurrent then none
    else some (r, .sleeping q (r.now + q.call.queue.poll) none)
  | .recheck q i, .recheck true =>
    if r.isMyTurn root q then some (r, .starting q i)
    else
      -- `continue` of the inner loop: the next slot is tried after the sleep
      some ({ r with locks := Flock.unlock r.locks (slotPath root q.call.lane i) c },
        .sleeping q (r.now + q.call.queue.poll) (some (i + 1)))
  | .recheck q i, .recheck false =>
    some ({ r with locks := Flock.unlock r.locks (slotPath root q.call.lane i) c },
      .exiting q false .ioFailed)
  | .sleeping q till next, .wake =>
    if r.now < till then none
    else match next with
      | some i => some (r, .trySlot q i)
      | none => some (r, .polling q)
  | .starting q i, .start =>
    some ({ r with files := removeFile r.files (waitingDir root q.call.lane) q.ticket }, .running q i)
  | .running q i, .finish ok => some (r, .returning q i (if ok then .ok else .closureFailed))
  | .returning q i outcome, .unlock =>
    some ({ r with locks := Flock.unlock r.locks (slotPath root q.call.lane i) c }, .exiting q true outcome)
  | .exiting q cleaned outcome, .dropGuard =>
    some ({ r with files :=
        if cleaned then r.files else removeFile r.files (waitingDir root q.call.lane) q.ticket },
      .done q outcome)
  | .idle, .kill | .done _ _, .kill | .notEnqueued _ _, .kill | .killed _ _, .kill => none
  | pc, .kill =>
    match pc.call?, pc.holds root with
    | some call, some file =>
      some ({ r with locks := Flock.unlock r.locks file c }, .killed call pc.ticket)
    | some call, none => some (r, .killed call pc.ticket)
    | none, _ => none
  | _, _ => none

/-- The directory and every call. -/
structure QueueState where
  root : QueueRoot
  pc : Caller → SlotPc

inductive QueueLabel where
  | tick (d : Nat)
  | caller (c : Caller) (event : SlotEvent)
deriving DecidableEq

def queueMachine (process : Caller → Nat) : Machine QueueState QueueLabel where
  init :=
    { root := { now := 0, files := [], locks := fun _ => none, nextSeq := fun _ => 0 }
      pc := fun _ => .idle }
  step s
    | .tick d => some { s with root := { s.root with now := s.root.now + d } }
    | .caller c event =>
      (slotStep root (process c) s.root c (s.pc c) event).map fun (r, pc) =>
        { root := r, pc := Function.update s.pc c pc }

end ShareCli.Ipc
