import Mathlib.Algebra.Order.Ring.Int
import ShareCli.Foundation.SharedFile
import ShareCli.Foundation.StableSort
import ShareCli.Foundation.Time

/-!
# The file-backed priority queue (`PriorityTaskQueue` in `src/coordination.rs`)

The items are one JSON array in a file, which every operation reads and sorts anew. What the queue is for is said
by `StableTaskQueue`: it has its own order of the priorities and makes its own items.
-/

namespace ShareCli.Coordination

open Foundation StableQueue Option

/-- From the least urgent to the most urgent. -/
inductive QueuePriority where
  | low
  | normal
  | high
  | critical
deriving DecidableEq

/-- `dequeued` is only seen in an answer of `dequeue`. -/
inductive TaskStatus where
  | pending
  | dequeued
deriving DecidableEq

/-- One element of the array in the file. -/
structure TaskQueueItem where
  id : String
  command : String
  priority : QueuePriority
  createdAt : DateTime
  status : TaskStatus
deriving DecidableEq

def priorityRank : QueuePriority → Nat
  | .critical => 0
  | .high => 1
  | .normal => 2
  | .low => 3

def TaskQueueItem.rank (item : TaskQueueItem) : Nat := priorityRank item.priority

def sortByPriority (items : List TaskQueueItem) : List TaskQueueItem := sortByKey TaskQueueItem.rank items

def timestampNanos (now : DateTime) : Int := if -2 ^ 63 ≤ now.nanos ∧ now.nanos < 2 ^ 63 then now.nanos else 0

/-- The item that `enqueue` makes; the clock is read twice. -/
def newItem (command : String) (priority : QueuePriority) (now createdAt : DateTime) : TaskQueueItem :=
  { id := "task-" ++ toString (timestampNanos now), command, priority, createdAt, status := .pending }

def TaskQueueItem.markDequeued (item : TaskQueueItem) : TaskQueueItem := { item with status := .dequeued }

/-- The calls; `enqueue` comes with the two instants at which it reads the clock. -/
inductive QueueOp where
  | enqueue (command : String) (priority : QueuePriority) (now createdAt : DateTime)
  | dequeue
  | peek
  | len
  | clear
  | listAll

/-- What the calls return. -/
inductive QueueAnswer where
  | item (item : TaskQueueItem)
  | front (item : Option TaskQueueItem)
  | len (n : Nat)
  | cleared
  | items (items : List TaskQueueItem)
deriving DecidableEq

namespace PriorityTaskQueue

variable (format : FileFormat (List TaskQueueItem)) (file : Option (List UInt8))

def readItems : Option (List TaskQueueItem) := file.elim (some []) fun raw => format.decode (some raw)

def writeItems (items : List TaskQueueItem) : Option (List UInt8) := some (format.encode items)

def enqueue (command : String) (priority : QueuePriority) (now createdAt : DateTime) :
    Option (TaskQueueItem × Option (List UInt8)) :=
  (readItems format file).map fun items =>
    let item := newItem command priority now createdAt
    (item, writeItems format (sortByPriority (items ++ [item])))

def dequeue : Option (Option TaskQueueItem × Option (List UInt8)) :=
  (readItems format file).map fun items =>
    match sortByPriority items with
    | [] => (none, file)
    | item :: items => (some item.markDequeued, writeItems format items)

def peek : Option (Option TaskQueueItem) :=
  (readItems format file).map fun items => (sortByPriority items).head?

def len : Option Nat := (readItems format file).map List.length

def clear : Option (List UInt8) := writeItems format []

def listAll : Option (List TaskQueueItem) := (readItems format file).map sortByPriority

/-- One call: its answer, or nothing if the file cannot be parsed, and the file after it. -/
def perform : QueueOp → Option (QueueAnswer × Option (List UInt8))
  | .enqueue command priority now createdAt =>
    (enqueue format file command priority now createdAt).map fun (item, file) => (.item item, file)
  | .dequeue => (dequeue format file).map fun (item, file) => (.front item, file)
  | .peek => (peek format file).map fun item => (.front item, file)
  | .len => (len format file).map fun n => (.len n, file)
  | .clear => some (.cleared, clear format)
  | .listAll => (listAll format file).map fun items => (.items items, file)

def run : Option (List UInt8) → List QueueOp → Option (List QueueAnswer)
  | _, [] => some []
  | file, op :: ops =>
    (perform format file op).bind fun (answer, file) => (run file ops).map (answer :: ·)

end PriorityTaskQueue

/-- The order low < normal < high < critical. -/
def QueuePriority.level : QueuePriority → Fin 4
  | .low => 0
  | .normal => 1
  | .high => 2
  | .critical => 3

instance : LinearOrder QueuePriority :=
  LinearOrder.lift' QueuePriority.level (by intro p p'; cases p <;> cases p' <;> decide)

/-- The higher priority comes first. -/
def TaskQueueItem.urgency (item : TaskQueueItem) : QueuePriorityᵒᵈ := OrderDual.toDual item.priority

namespace StableTaskQueue

open TaskQueueItem

/-- One call on the list of all items in the order in which they were enqueued. -/
def perform (q : List TaskQueueItem) : QueueOp → QueueAnswer × List TaskQueueItem
  | .enqueue command priority now createdAt =>
    let item : TaskQueueItem :=
      { id := "task-" ++ toString (timestampNanos now), command, priority, createdAt, status := .pending }
    (.item item, q ++ [item])
  | .dequeue => (.front ((front urgency q).map ({ · with status := .dequeued })), removeFront urgency q)
  | .peek => (.front (front urgency q), q)
  | .len => (.len q.length, q)
  | .clear => (.cleared, [])
  | .listAll => (.items (order urgency q.length q), q)

def run : List TaskQueueItem → List QueueOp → List QueueAnswer
  | _, [] => []
  | q, op :: ops => (perform q op).1 :: run (perform q op).2 ops

end StableTaskQueue

section Refinement

open PriorityTaskQueue TaskQueueItem

variable {format : FileFormat (List TaskQueueItem)} {file : Option (List UInt8)} {q : List TaskQueueItem}

/-- The file holds the items of the queue in some order that the sort takes to the order of the queue. -/
def Holds (format : FileFormat (List TaskQueueItem)) (file : Option (List UInt8)) (q : List TaskQueueItem) :
    Prop :=
  ∃ items, readItems format file = some items ∧ sortByPriority items = sortByPriority q

/-- The ranks of the code are the priorities from the highest to the lowest. -/
theorem rank_le_rank_iff (item item' : TaskQueueItem) : item.rank ≤ item'.rank ↔ urgency item ≤ urgency item' := by
  unfold rank urgency
  rw [OrderDual.toDual_le_toDual]
  cases item.priority <;> cases item'.priority <;> decide

theorem sortByPriority_eq (items : List TaskQueueItem) : sortByPriority items = sortByKey urgency items :=
  sortByKey_congr rank_le_rank_iff

theorem sortByPriority_perm (items : List TaskQueueItem) : (sortByPriority items).Perm items := sortByKey_perm

theorem holds_writeItems {items : List TaskQueueItem} (h : sortByPriority items = sortByPriority q) :
    Holds format (writeItems format items) q := ⟨items, format.decode_encode items, h⟩

theorem front_eq_head? : front urgency q = (sortByPriority q).head? := by
  have hp := sortByPriority_perm q
  cases hs : sortByPriority q with
  | nil =>
    obtain rfl := (hs ▸ hp).symm.eq_nil
    rfl
  | cons item items => exact (front_of_sortByKey (sortByPriority_eq q ▸ hs)).1

theorem perform_refines (h : Holds format file q) (op : QueueOp) :
    ∃ file', perform format file op = some ((StableTaskQueue.perform q op).1, file') ∧
      Holds format file' (StableTaskQueue.perform q op).2 := by
  obtain ⟨items, hr, hs⟩ := h
  have hp : items.Perm q := (sortByPriority_perm items).symm.trans (hs ▸ sortByPriority_perm q)
  cases op with
  | enqueue command priority now createdAt =>
    simp only [perform, enqueue, hr, map_some]
    refine ⟨_, rfl, holds_writeItems ?_⟩
    exact sortByKey_sortByKey.trans (sortByKey_append_congr hs)
  | dequeue =>
    simp only [perform, dequeue, hr, map_some, hs]
    cases hq : sortByPriority q with
    | nil =>
      obtain rfl := (hq ▸ sortByPriority_perm q).symm.eq_nil
      exact ⟨_, rfl, items, hr, hs⟩
    | cons item items =>
      obtain ⟨hf, hrm⟩ := front_of_sortByKey (sortByPriority_eq q ▸ hq)
      refine ⟨writeItems format items, ?_, holds_writeItems ?_⟩
      · rw [StableTaskQueue.perform, hf]
        rfl
      · rw [← hrm, sortByPriority_eq, sortByPriority_eq]
        exact sortByKey_sortByKey
  | peek =>
    simp only [perform, peek, hr, map_some, hs]
    rw [← front_eq_head?]
    exact ⟨_, rfl, items, hr, hs⟩
  | len =>
    simp only [perform, len, hr, map_some, hp.length_eq]
    exact ⟨_, rfl, items, hr, hs⟩
  | clear => exact ⟨_, rfl, holds_writeItems rfl⟩
  | listAll =>
    simp only [perform, listAll, hr, map_some, hs]
    rw [sortByPriority_eq, ← order_eq_sortByKey]
    exact ⟨_, rfl, items, hr, hs⟩

/-- **Refinement.** The queue answers like a stable priority queue of the items in the file at the start. -/
theorem priority_queue_refines (format : FileFormat (List TaskQueueItem)) (start : Option (List TaskQueueItem))
    (ops : List QueueOp) :
    run format (start.map format.encode) ops = some (StableTaskQueue.run (start.getD []) ops) := by
  have h : Holds format (start.map format.encode) (start.getD []) := by
    cases start with
    | none => exact ⟨[], rfl, rfl⟩
    | some items => exact holds_writeItems rfl
  generalize start.map format.encode = file at h
  generalize start.getD [] = q at h
  induction ops generalizing file q with
  | nil => rfl
  | cons op ops ih =>
    obtain ⟨file', hop, h'⟩ := perform_refines h op
    simp only [run, hop, bind_some, ih _ _ h', map_some, StableTaskQueue.run]

end Refinement

end ShareCli.Coordination
