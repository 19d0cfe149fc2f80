import Mathlib.Algebra.Order.Ring.Nat
import ShareCli.Foundation.Decimal
import ShareCli.Foundation.Machine
import ShareCli.Foundation.Text
import Mathlib.Data.List.AList

/-!
# Starting and stopping the teamcomm daemon (`pid.rs`, `start_foreground` and `cmd_stop` of `main.rs`)

A daemon records its pid in a file before it binds its socket, and removes the file when it has stopped.
`lifecycle` interleaves the steps of any number of daemons and of stop commands. A process may exit at any step,
and its pid may be given to another process. A daemon may be told to shut down at any time.
-/

namespace ShareCli.Teamcomm

open Foundation

inductive PidFileError where
  | readFailed
  | nonNumeric
  | alreadyRunning (existing : UInt32)
  | writeFailed
deriving DecidableEq

def PidFileError.text (path : String) : PidFileError → String
  | .readFailed => "failed to read pid file " ++ path
  | .nonNumeric => "non-numeric pid in " ++ path
  | .alreadyRunning existing =>
    "pid file " ++ path ++ " already exists and pid " ++ toString existing.toNat ++ " is running"
  | .writeFailed => "failed to write pid file " ++ path

def pidText (pid : UInt32) : List Char := Nat.toDigits 10 pid.toNat

def readPidFile : Option (List Char) → Except PidFileError (Option UInt32)
  | none => .ok none
  | some contents =>
    match Text.trim contents with
    | [] => .ok none
    | trimmed =>
      match Decimal.parseUnsigned (2 ^ 32) trimmed with
      | some pid => .ok (some (UInt32.ofNat pid))
      | none => .error .nonNumeric

/-- In `write_pid_file` up to `writing`, then in the listener. -/
inductive StartPc where
  | reading
  | probing (existing : UInt32)
  | removing
  | writing
  | claimed
  | serving
  | draining
  | leaving
  | stopped
  | failed (error : PidFileError)
deriving DecidableEq

/-- `tries` counts the probes after the signal. -/
inductive StopPc where
  | reading
  | probing (pid : UInt32)
  | signalling (pid : UInt32)
  | waiting (pid : UInt32) (tries : Nat)
  | removing
  | done
deriving DecidableEq

/-- A process that is no daemon has no place in `start_foreground`. -/
structure Host where
  pidFile : Option (List Char)
  socket : Option UInt32 := none
  procs : AList fun _ : UInt32 => Option StartPc
  stops : List StopPc := []

/-- A `kill` that cannot be run, or may not signal the process, counts as a dead one. -/
def Host.isPidRunning (s : Host) (works : Bool) (pid : UInt32) : Bool := works && decide (pid ∈ s.procs)

inductive StartAction where
  | read (ok : Bool)
  | probe (works : Bool)
  | remove (ok : Bool)
  | write
  /-- The file could not be opened, or only so many characters were written. -/
  | writeFails (written : Option Nat)
  | bind
  | bindFails (removed : Bool)
  | shutdown
  | removeSocket (ok : Bool)
  | removePid (ok : Bool)
deriving DecidableEq

def startAction (s : Host) (pid : UInt32) : StartPc → StartAction → Option (Host × StartPc)
  | .reading, .read false => some (s, .failed .readFailed)
  | .reading, .read true =>
    match readPidFile s.pidFile with
    | .ok none => some (s, .writing)
    | .ok (some existing) => some (s, .probing existing)
    | .error error => some (s, .failed error)
  | .probing existing, .probe works =>
    if s.isPidRunning works existing then some (s, .failed (.alreadyRunning existing))
    else some (s, .removing)
  | .removing, .remove ok => some (if ok then { s with pidFile := none } else s, .writing)
  | .writing, .write => some ({ s with pidFile := some (pidText pid) }, .claimed)
  | .writing, .writeFails written =>
    match written with
    | none => some (s, .failed .writeFailed)
    | some n => some ({ s with pidFile := some ((pidText pid).take n) }, .failed .writeFailed)
  -- An old socket file is removed and a new one bound, whoever has the old one.
  | .claimed, .bind => some ({ s with socket := some pid }, .serving)
  | .claimed, .bindFails removed => some (if removed then { s with socket := none } else s, .leaving)
  | .serving, .shutdown => some (s, .draining)
  | .draining, .removeSocket ok => some (if ok then { s with socket := none } else s, .leaving)
  | .leaving, .removePid ok => some (if ok then { s with pidFile := none } else s, .stopped)
  | _, _ => none

inductive StopAction where
  | read (ok : Bool)
  | probe (works : Bool)
  | kill (works : Bool)
  | remove (ok : Bool)
deriving DecidableEq

def stopTries : Nat := 30

/-- After the last probe the file is removed although the daemon is running. -/
def stopAction (s : Host) : StopPc → StopAction → Option (Host × StopPc)
  | .reading, .read false => some (s, .done)
  | .reading, .read true =>
    match readPidFile s.pidFile with
    | .ok (some pid) => some (s, .probing pid)
    | .ok none => some (s, .done)
    | .error _ => some (s, .done)
  | .probing pid, .probe works =>
    if s.isPidRunning works pid then some (s, .signalling pid) else some (s, .removing)
  | .signalling pid, .kill works =>
    if works && decide (pid ∈ s.procs) then some (s, .waiting pid 0) else some (s, .done)
  | .waiting pid tries, .probe works =>
    if s.isPidRunning works pid ∧ tries + 1 < stopTries then some (s, .waiting pid (tries + 1))
    else some (s, .removing)
  | .removing, .remove ok => some (if ok then { s with pidFile := none } else s, .done)
  | _, _ => none

inductive ProcEvent where
  | spawn (pid : UInt32) (daemon : Bool)
  | start (pid : UInt32) (action : StartAction)
  | exit (pid : UInt32)
  | callStop
  | stop (index : Nat) (action : StopAction)
  | exitStop (index : Nat)
deriving DecidableEq

def Host.step (s : Host) : ProcEvent → Option Host
  | .spawn pid daemon =>
    if pid ∈ s.procs then none
    else some { s with procs := s.procs.insert pid (if daemon then some .reading else none) }
  | .start pid action =>
    match s.procs.lookup pid with
    | some (some pc) =>
      (startAction s pid pc action).map fun (s', pc') => { s' with procs := s.procs.insert pid (some pc') }
    | _ => none
  | .exit pid => if pid ∈ s.procs then some { s with procs := s.procs.erase pid } else none
  | .callStop => some { s with stops := s.stops ++ [.reading] }
  | .stop index action =>
    match s.stops[index]? with
    | some pc => (stopAction s pc action).map fun (s', pc') => { s' with stops := s.stops.set index pc' }
    | none => none
  | .exitStop index => some { s with stops := s.stops.set index .done }

def lifecycle (pidFile : Option (List Char)) (others : List UInt32) : Machine Host ProcEvent where
  init := { pidFile, procs := others.foldr (fun pid procs => procs.insert pid none) ∅ }
  step := Host.step

end ShareCli.Teamcomm
