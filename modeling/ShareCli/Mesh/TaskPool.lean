import Mathlib.Data.Set.Card
import ShareCli.Mesh.TaskRuns

/-!
# What the task queue is for

The pool has two parameters: what is read back when an envelope has been written (a floating-point number
can come back as a neighbour), and how the number of attempts goes up.
-/

namespace ShareCli.Mesh

open Foundation List Function

def newTask (taskId : String) (now : UInt64) (payload : Value) (priority : UInt8) : TaskEnvelope :=
  { id := taskId, payload, priority := min priority 9, createdAt := now, attempts := 0, owner := none }

/-- The tasks that wait and those in flight. -/
structure TaskPool where
  pending : String → Option TaskEnvelope
  inFlight : String → Option TaskEnvelope

namespace TaskPool

def empty : TaskPool := ⟨fun _ => none, fun _ => none⟩

def add (pool : TaskPool) (taskId : String) (task : TaskEnvelope) : TaskPool :=
  { pool with pending := update pool.pending taskId (some task) }

def take (pool : TaskPool) (taskId : String) (task : TaskEnvelope) : TaskPool :=
  { pending := update pool.pending taskId none
    inFlight := update pool.inFlight taskId (some task) }

def putBack (pool : TaskPool) (taskId : String) : TaskPool :=
  { pending := update pool.pending taskId (pool.inFlight taskId)
    inFlight := update pool.inFlight taskId none }

def remove (pool : TaskPool) (taskId : String) : TaskPool :=
  { pool with inFlight := update pool.inFlight taskId none }

def isOwned (pool : TaskPool) (owner taskId : String) : Bool :=
  (pool.inFlight taskId).any fun task => task.owner = some owner

def reclaim (pool : TaskPool) (owner : String) : TaskPool :=
  { pending := fun taskId =>
      if pool.isOwned owner taskId then pool.inFlight taskId else pool.pending taskId
    inFlight := fun taskId => if pool.isOwned owner taskId then none else pool.inFlight taskId }

structure Lists (envelopes : List TaskEnvelope) (tasks : String → Option TaskEnvelope) : Prop where
  nodup : (envelopes.map TaskEnvelope.id).Nodup
  mem_iff : ∀ taskId task, tasks taskId = some task ↔ task ∈ envelopes ∧ task.id = taskId

inductive Step (reread : TaskEnvelope → TaskEnvelope) (bump : Nat → Nat) (pool : TaskPool) :
    TaskOp → TaskResult → TaskPool → Prop where
  | enqueue {taskId : String} {now : UInt64} {payload : Value} {priority : UInt8}
      (hpending : pool.pending taskId = none) (hinFlight : pool.inFlight taskId = none) :
      Step reread bump pool (.enqueue taskId now payload priority) (.ok (.taskId taskId))
        (pool.add taskId (reread (newTask taskId now payload priority)))
  | claimNothing {owner : Option String} (hnone : ∀ taskId, pool.pending taskId = none) :
      Step reread bump pool (.claim owner) (.ok (.claimed none)) pool
  | claim {owner : Option String} {task : TaskEnvelope} {attempts : UInt32}
      (hpending : pool.pending task.id = some task)
      (hminimal : ∀ taskId other, pool.pending taskId = some other → task.before other)
      (hattempts : attempts.toNat = bump task.attempts.toNat) :
      Step reread bump pool (.claim owner)
        (.ok (.claimed (some { task with attempts, owner := owner.or task.owner })))
        (pool.take task.id (reread { task with attempts, owner := owner.or task.owner }))
  | ack {taskId : String} {task : TaskEnvelope} (hinFlight : pool.inFlight taskId = some task) :
      Step reread bump pool (.ack taskId) (.ok .done) (pool.remove taskId)
  | ackUnknown {taskId : String} (hinFlight : pool.inFlight taskId = none) :
      Step reread bump pool (.ack taskId) (.ok .done) pool
  | nack {taskId : String} {task : TaskEnvelope} (hinFlight : pool.inFlight taskId = some task) :
      Step reread bump pool (.nack taskId) (.ok .done) (pool.putBack taskId)
  | nackUnknown {taskId : String} (hinFlight : pool.inFlight taskId = none) :
      Step reread bump pool (.nack taskId) (.ok .done) pool
  | reclaim {owner : String} {count : Nat}
      (hcount : Set.encard {taskId | pool.isOwned owner taskId = true} = count) :
      Step reread bump pool (.reclaimOwner owner) (.ok (.reclaimed count)) (pool.reclaim owner)
  | listPending {ready inFlight : List TaskEnvelope} (hready : Lists ready pool.pending)
      (hinFlight : Lists inFlight pool.inFlight) :
      Step reread bump pool .listPending (.ok (.pending (ready ++ inFlight))) pool
  | status {status : MaildirStatus}
      (hready : Set.encard {taskId | (pool.pending taskId).isSome = true} = status.ready)
      (hinFlight : Set.encard {taskId | (pool.inFlight taskId).isSome = true} = status.inFlight)
      (hpending : status.pending = status.ready + status.inFlight) :
      Step reread bump pool .status (.ok (.status status)) pool

/-- The operations and results, the latest first, that lead to a pool. -/
inductive Trace (reread : TaskEnvelope → TaskEnvelope) (bump : Nat → Nat) :
    List (TaskOp × TaskResult) → TaskPool → Prop where
  | nil : Trace reread bump [] empty
  | cons {trace : List (TaskOp × TaskResult)} {pool pool' : TaskPool} {op : TaskOp}
      {result : TaskResult} (htrace : Trace reread bump trace pool)
      (hstep : pool.Step reread bump op result pool') :
      Trace reread bump ((op, result) :: trace) pool'

variable {reread : TaskEnvelope → TaskEnvelope} {bump : Nat → Nat} {pool pool' : TaskPool}

theorem encard_of_nodup {p : String → Prop} {ts : List String} (hn : ts.Nodup)
    (hm : ∀ t, p t ↔ t ∈ ts) :
    Set.encard {t | p t} = ts.length := by
  have hs : {t | p t} = (ts.toFinset : Set String) := by
    ext t
    simp [hm]
  rw [hs, Set.encard_coe_eq_coe_finsetCard, toFinset_card_of_nodup hn]

theorem Lists.encard {envs : List TaskEnvelope} {t : String → Option TaskEnvelope}
    (h : Lists envs t) :
    Set.encard {tid | (t tid).isSome = true} = envs.length := by
  have hc := encard_of_nodup (p := fun tid => (t tid).isSome = true) h.nodup (by
    intro tid
    rw [Option.isSome_iff_exists, mem_map]
    exact exists_congr (h.mem_iff tid))
  rwa [length_map] at hc

theorem foldl_putBack {owner : String} {ts : List String} (hn : ts.Nodup)
    (hm : ∀ t, t ∈ ts ↔ pool.isOwned owner t = true) :
    ts.foldl putBack pool = pool.reclaim owner := by
  have hf : ∀ (ts : List String) (pool : TaskPool), ts.Nodup →
      ts.foldl putBack pool =
        { pending := fun t =>
            if t ∈ ts then pool.inFlight t else pool.pending t
          inFlight := fun t => if t ∈ ts then none else pool.inFlight t } := by
    intro ts
    induction ts with
    | nil => simp
    | cons head tail ih =>
      intro pool hn
      obtain ⟨hh, ht⟩ := nodup_cons.mp hn
      rw [foldl_cons, ih _ ht, putBack]
      congr 1
      · funext t
        by_cases heq : t = head
        · subst heq
          simp [hh]
        · simp [heq]
      · funext t
        by_cases heq : t = head
        · subst heq
          simp
        · simp [heq]
  rw [hf ts pool hn, reclaim]
  simp only [hm]

theorem isOwned_iff (pool : TaskPool) (owner t : String) :
    pool.isOwned owner t = true ↔
      ∃ task, pool.inFlight t = some task ∧ task.owner = some owner := by
  simp [isOwned, Option.any_eq_true]

theorem isOwned_putBack_of_ne {owner t o : String} (hne : o ≠ t) :
    (pool.putBack t).isOwned owner o = pool.isOwned owner o := by
  simp [isOwned, putBack, hne]

def Knows (pool : TaskPool) (taskId : String) : Prop :=
  pool.pending taskId ≠ none ∨ pool.inFlight taskId ≠ none

theorem Step.knows {op : TaskOp} {r : TaskResult} {t : String}
    (hstep : pool.Step reread bump op r pool') (hk : pool'.Knows t) :
    op.issues = some t ∨ pool.Knows t := by
  cases hstep with
  | @enqueue ni _ _ _ _ _ =>
    by_cases heq : t = ni
    · exact .inl (heq ▸ rfl)
    · simp only [Knows, add, update_of_ne heq] at hk
      exact .inr hk
  | @claim _ task _ hp _ _ =>
    refine .inr ?_
    by_cases heq : t = task.id
    · exact .inl (by simp [heq, hp])
    · simp only [Knows, take, update_of_ne heq] at hk
      exact hk
  | @ack ai task hif =>
    refine .inr ?_
    by_cases heq : t = ai
    · exact .inr (by simp [heq, hif])
    · simp only [Knows, remove, update_of_ne heq] at hk
      exact hk
  | @nack nc task hif =>
    refine .inr ?_
    by_cases heq : t = nc
    · exact .inr (by simp [heq, hif])
    · simp only [Knows, putBack, update_of_ne heq] at hk
      exact hk
  | @reclaim owner _ _ =>
    refine .inr ?_
    simp only [Knows, TaskPool.reclaim] at hk
    by_cases ho : pool.isOwned owner t = true
    · obtain ⟨task, ht, -⟩ := (pool.isOwned_iff owner t).mp ho
      exact .inr (by simp [ht])
    · simp only [if_neg ho] at hk
      exact hk
  | claimNothing => exact .inr hk
  | ackUnknown => exact .inr hk
  | nackUnknown => exact .inr hk
  | listPending => exact .inr hk
  | status => exact .inr hk

end TaskPool

end ShareCli.Mesh
