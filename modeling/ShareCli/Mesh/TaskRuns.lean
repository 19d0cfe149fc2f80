import ShareCli.Mesh.TaskQueue

/-!
# Runs of the task queue

In `meshMachine` any number of workers have an operation in progress, their system calls interleave, calls
may fail and a worker may crash. In `sequentialMachine` one operation after the other runs to its end.
`Uuid::new_v4` is taken to return a name that no earlier call returned.
-/

namespace ShareCli.Mesh

open Foundation

/-- The operations of the queue. -/
inductive TaskOp where
  | enqueue (taskId : String) (now : UInt64) (payload : Value) (priority : UInt8)
  | claim (owner : Option String)
  | ack (taskId : String)
  | nack (taskId : String)
  | reclaimOwner (owner : String)
  | listPending
  | status

inductive TaskAnswer where
  | taskId (taskId : String)
  | claimed (envelope : Option TaskEnvelope)
  | done
  | reclaimed (count : Nat)
  | pending (envelopes : List TaskEnvelope)
  | status (status : MaildirStatus)

abbrev TaskResult := Except TaskError TaskAnswer

variable {β : Type}

def TaskOp.program (queue : MaildirQueue) (format : EnvelopeFormat β) : TaskOp → FsProgram β TaskResult
  | .enqueue taskId now payload priority =>
    (queue.enqueue format taskId now payload priority).bind fun r => .done (r.map .taskId)
  | .claim owner => (queue.claim format owner).bind fun r => .done (r.map .claimed)
  | .ack taskId => (queue.ack taskId).bind fun r => .done (r.map fun _ => .done)
  | .nack taskId => (queue.nack taskId).bind fun r => .done (r.map fun _ => .done)
  | .reclaimOwner owner => (queue.reclaimOwner format owner).bind fun r => .done (r.map .reclaimed)
  | .listPending => (queue.listPending format).bind fun r => .done (r.map .pending)
  | .status => (queue.status format).bind fun r => .done (r.map .status)

def TaskOp.issues : TaskOp → Option String
  | .enqueue taskId _ _ _ => some taskId
  | _ => none

def TaskOp.isFresh (op : TaskOp) (issued : List String) : Bool :=
  op.issues.all fun taskId => FilePath.isPlain taskId.toList && !issued.contains taskId

/-- An operation under way. -/
structure Running (β : Type) where
  op : TaskOp
  program : FsProgram β TaskResult

/-- The files, the workers and the history. -/
structure MeshState (β : Type) where
  fs : FileSystem β
  workers : AList fun _ : Nat => Running β
  issued : List String
  enqueued : List String
  acked : List String

/-- A worker starts, goes on or crashes. -/
inductive MeshLabel where
  | start (worker : Nat) (op : TaskOp)
  | call (worker : Nat) (choice : Choice)
  | crash (worker : Nat)

def enqueuedBy {γ : Type} (op : TaskOp) (request : FsCall β γ) (answer : Except IoError γ) : List String :=
  match op, request, answer with
  | .enqueue taskId _ _ _, .rename _ _, .ok _ => [taskId]
  | _, _, _ => []

def ackedBy {γ : Type} (op : TaskOp) (request : FsCall β γ) (answer : Except IoError γ) : List String :=
  match op, request, answer with
  | .ack taskId, .remove _, .ok _ => [taskId]
  | _, _, _ => []

variable [FileContents β]

def MeshState.call (s : MeshState β) (worker : Nat) (choice : Choice) : Option (MeshState β) :=
  match s.workers.lookup worker with
  | none => none
  | some running =>
    match running.program with
    | .done _ => some { s with workers := s.workers.erase worker }
    | .call request next =>
      (request.respond s.fs choice).map fun r =>
        { s with
          fs := r.2
          workers := s.workers.insert worker { running with program := next r.1 }
          enqueued := enqueuedBy running.op request r.1 ++ s.enqueued
          acked := ackedBy running.op request r.1 ++ s.acked }

def meshMachine (queue : MaildirQueue) (format : EnvelopeFormat β) : Machine (MeshState β) MeshLabel where
  init := { fs := queue.openIn .empty, workers := ∅, issued := [], enqueued := [], acked := [] }
  step
    | s, .start worker op =>
      if s.workers.lookup worker = none ∧ op.isFresh s.issued then
        some
          { s with
            workers := s.workers.insert worker ⟨op, op.program queue format⟩
            issued := op.issues.toList ++ s.issued }
      else none
    | s, .call worker choice => s.call worker choice
    | s, .crash worker =>
      match s.workers.lookup worker with
      | none => none
      | some _ => some { s with workers := s.workers.erase worker }

structure SequentialState (β : Type) where
  fs : FileSystem β
  trace : List (TaskOp × TaskResult)

def SequentialState.issued (s : SequentialState β) : List String := s.trace.filterMap fun e => e.1.issues

/-- A label is an operation and the listings of the directories it reads, in any order. -/
def sequentialMachine (queue : MaildirQueue) (format : EnvelopeFormat β) :
    Machine (SequentialState β) (TaskOp × List (List DirEntry)) where
  init := { fs := queue.openIn .empty, trace := [] }
  step s label :=
    if label.1.isFresh s.issued then
      match (label.1.program queue format).exec s.fs label.2 with
      | some (result, fs, []) => some { fs, trace := (label.1, result) :: s.trace }
      | _ => none
    else none

end ShareCli.Mesh
