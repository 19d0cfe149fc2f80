import ShareCli.Ipc.CoalesceCache

/-!
# In-flight request coalescing (`SpeculativeCoalescer` in `crates/sharecli-core/src/speculation.rs`)

The first caller of a key becomes the leader of a group and spawns a task. The task sleeps for the window,
takes the group out of the pending map, runs the leader's executor and sends the result to every waiter of
the group. The map is guarded by a mutex. `coalesce` can be cancelled where it awaits its receiver, but not
between the registration of a leader and the spawn of its task.

No step reads `group` (the leader of each caller), `asked` (its key), `sent` (what was sent to it) and `execLog`.
-/

namespace ShareCli.Core

open Foundation Ipc Function

/-- Its message and the messages of its causes, outermost first. -/
structure AnyhowError where
  message : String
  causes : List String
deriving DecidableEq

abbrev ExecResult := Except AnyhowError CachedResult

/-- An error is made anew from its own message. -/
def cloneResult : ExecResult → ExecResult
  | .ok v => .ok v
  | .error e => .error ⟨e.message, []⟩

/-- Where a call of `coalesce` is. -/
inductive CoalesceCallPc where
  | idle
  | waiting
  | returned (result : ExecResult)
  | cancelled

/-- Where the task of a leader is. -/
inductive CoalesceTaskPc where
  | absent
  /-- The group is registered, the task not yet spawned. -/
  | unspawned (key : String)
  | sleeping (key : String) (till : Nat)
  | drained (waiters : List Caller)
  | executing (waiters : List Caller)
  /-- In the loop over `waiters`, with `rest` still to be answered. -/
  | broadcasting (waiters : List Caller) (result : ExecResult) (rest : List Caller)
  | finished (waiters : List Caller) (result : ExecResult)

/-- The pending map, and each caller's call and task. -/
structure CoalescerState where
  now : Nat
  pending : String → Option (List Caller)
  calls : Caller → CoalesceCallPc
  tasks : Caller → CoalesceTaskPc
  group : Caller → Option Caller
  asked : Caller → Option String
  sent : Caller → List ExecResult
  execLog : List Caller

/-- A caller `c` or the task of a leader `l` takes a step, or time passes. -/
inductive CoalescerLabel where
  | tick (d : Nat)
  | register (c : Caller) (key : CommandKey)
  | spawn (l : Caller)
  | drain (l : Caller)
  | exec (l : Caller)
  | execDone (l : Caller) (result : ExecResult)
  | send (l : Caller)
  | finish (l : Caller)
  | receive (c : Caller)
  | cancel (c : Caller)

def CoalescerState.register (s : CoalescerState) (c : Caller) (key : String) : CoalescerState :=
  match s.pending key with
  | some waiters =>
    { s with pending := update s.pending key (some (waiters ++ [c]))
             calls := update s.calls c .waiting
             group := update s.group c waiters.head?
             asked := update s.asked c (some key) }
  | none =>
    { s with pending := update s.pending key (some [c])
             calls := update s.calls c .waiting
             tasks := update s.tasks c (.unspawned key)
             group := update s.group c (some c)
             asked := update s.asked c (some key) }

def CoalescerState.setTask (s : CoalescerState) (l : Caller) (pc : CoalesceTaskPc) :
    CoalescerState :=
  { s with tasks := update s.tasks l pc }

/-- No task is aborted and no executor panics. -/
def coalescerMachine (window : Nat) : Machine CoalescerState CoalescerLabel where
  init :=
    { now := 0, pending := fun _ => none, calls := fun _ => .idle, tasks := fun _ => .absent
      group := fun _ => none, asked := fun _ => none, sent := fun _ => [], execLog := [] }
  step s
    | .tick d => some { s with now := s.now + d }
    | .register c key =>
      match s.calls c with
      | .idle => some (s.register c key.hex)
      | _ => none
    | .spawn l =>
      match s.tasks l with
      | .unspawned key => some (s.setTask l (.sleeping key (s.now + window)))
      | _ => none
    | .drain l =>
      match s.tasks l with
      | .sleeping key till =>
        if s.now < till then none
        else some { s.setTask l (.drained ((s.pending key).getD [])) with
          pending := update s.pending key none }
      | _ => none
    | .exec l =>
      match s.tasks l with
      | .drained waiters =>
        some { s.setTask l (.executing waiters) with execLog := l :: s.execLog }
      | _ => none
    | .execDone l result =>
      match s.tasks l with
      | .executing waiters => some (s.setTask l (.broadcasting waiters result waiters))
      | _ => none
    | .send l =>
      match s.tasks l with
      | .broadcasting waiters result (c :: rest) =>
        -- sending to a dropped receiver fails, and the failure is ignored
        some { s.setTask l (.broadcasting waiters result rest) with
          sent := update s.sent c (s.sent c ++ [cloneResult result]) }
      | _ => none
    | .finish l =>
      match s.tasks l with
      | .broadcasting waiters result [] => some (s.setTask l (.finished waiters result))
      | _ => none
    | .receive c =>
      match s.calls c, s.sent c with
      | .waiting, result :: _ =>
        some { s with calls := update s.calls c (.returned result) }
      | _, _ => none
    | .cancel c =>
      match s.calls c, s.tasks c with
      | .waiting, .unspawned _ => none
      | .waiting, _ => some { s with calls := update s.calls c .cancelled }
      | _, _ => none

def CoalesceTaskPc.key? : CoalesceTaskPc → Option String
  | .unspawned key | .sleeping key _ => some key
  | _ => none

def CoalesceTaskPc.members (pending : String → Option (List Caller)) : CoalesceTaskPc → List Caller
  | .absent => []
  | .unspawned key | .sleeping key _ => (pending key).getD []
  | .drained waiters | .executing waiters | .broadcasting waiters _ _ | .finished waiters _ => waiters

def CoalesceTaskPc.unanswered (pending : String → Option (List Caller)) : CoalesceTaskPc → List Caller
  | .broadcasting _ _ rest => rest
  | .finished _ _ => []
  | pc => pc.members pending

def CoalescerState.members (s : CoalescerState) (l : Caller) : List Caller := (s.tasks l).members s.pending

def CoalescerState.unanswered (s : CoalescerState) (l : Caller) : List Caller :=
  (s.tasks l).unanswered s.pending

def CoalesceTaskPc.result? : CoalesceTaskPc → Option ExecResult
  | .broadcasting _ result _ | .finished _ result => some result
  | _ => none

/-- Two results with the same value, or errors with the same message. -/
def SameOutcome : ExecResult → ExecResult → Prop
  | .ok v, .ok w => v = w
  | .error e, .error e' => e.message = e'.message
  | _, _ => False

end ShareCli.Core
