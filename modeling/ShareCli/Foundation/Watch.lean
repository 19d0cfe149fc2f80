import Mathlib.Data.List.Basic

/-!
# Watch channels

A watch channel holds the last value that was sent. A receiver remembers which version it has seen: `changed` is
ready once there is another one, and for ever, with an error, once the senders are gone.
-/

namespace ShareCli.Foundation

open List

/-- A value, its version and the one seen. -/
structure Watch (α : Type*) where
  value : α
  version : Nat := 0
  seen : Nat := 0
  closed : Bool := false

inductive WatchOp (α : Type*) where
  | send (value : α)
  | drop
deriving DecidableEq

inductive WatchChange where
  | changed
  | senderGone
deriving DecidableEq

namespace Watch

variable {α : Type*}

def apply (w : Watch α) : WatchOp α → Watch α
  | .send value => if w.closed then w else { w with value, version := w.version + 1 }
  | .drop => { w with closed := true }

def changed (w : Watch α) : Option WatchChange × Watch α :=
  if w.seen ≠ w.version then (some .changed, { w with seen := w.version })
  else if w.closed then (some .senderGone, w)
  else (none, w)

def ready (w : Watch α) : Bool := decide (w.seen ≠ w.version) || w.closed

variable {w : Watch α} {ops : List (WatchOp α)}

theorem changed_of_not_ready (h : w.ready = false) : w.changed = (none, w) := by
  simp only [ready, Bool.or_eq_false_iff, decide_eq_false_iff_not, not_not] at h
  simp [changed, h.1, h.2]

theorem changed_of_ready (h : w.ready = true) :
    ∃ change, w.changed = (some change, { w with seen := w.version }) := by
  unfold changed
  by_cases hs : w.seen = w.version
  · have hc : w.closed = true := by simpa [ready, hs] using h
    have hsm : { w with seen := w.version } = w := by
      cases w
      simpa using hs.symm
    rw [if_neg (not_not.mpr hs), if_pos hc, hsm]
    exact ⟨.senderGone, rfl⟩
  · exact ⟨.changed, if_pos hs⟩

theorem eq_of_changed {w' : Watch α} (h : w.changed = (some .changed, w')) :
    w' = { w with seen := w.version } := by
  unfold changed at h
  split at h
  · exact (Prod.mk.inj h).2.symm
  · split at h
    · cases h
    · cases h

theorem ready_of_closed (h : w.closed = true) : w.ready = true := by simp [ready, h]

theorem closed_foldl (h : w.closed = true) (ops : List (WatchOp α)) : (ops.foldl apply w).closed = true := by
  induction ops generalizing w with
  | nil => exact h
  | cons op ops ih =>
    refine ih ?_
    cases op with
    | send v => simp [apply, h]
    | drop => rfl

theorem closed_foldl_of_drop (h : .drop ∈ ops) : (ops.foldl apply w).closed = true := by
  induction ops generalizing w with
  | nil => cases h
  | cons op ops ih =>
    rcases mem_cons.mp h with rfl | hrest
    · exact closed_foldl rfl ops
    · exact ih hrest

/-- A sender is left, and the receiver has seen no version that there was not. -/
structure Live (w : Watch α) : Prop where
  kept : w.closed = false
  seen_le : w.seen ≤ w.version

theorem Live.ready_iff (h : w.Live) : w.ready = true ↔ w.seen < w.version := by
  have hle := h.seen_le
  simp only [ready, h.kept, Bool.or_false, decide_eq_true_eq]
  omega

theorem Live.see (h : w.Live) :
    Live { w with seen := w.version } ∧ ({ w with seen := w.version } : Watch α).ready = false := by
  refine ⟨⟨h.kept, Nat.le_refl _⟩, ?_⟩
  simp [ready, h.kept]

theorem Live.send (h : w.Live) (v : α) :
    (w.apply (.send v)).Live ∧ (w.apply (.send v)).ready = true ∧ (w.apply (.send v)).value = v := by
  have ha : w.apply (.send v) = { w with value := v, version := w.version + 1 } := by simp [apply, h.kept]
  have hl : (w.apply (.send v)).Live := by
    rw [ha]
    exact ⟨h.kept, Nat.le_succ_of_le h.seen_le⟩
  refine ⟨hl, ?_, ?_⟩
  · rw [hl.ready_iff, ha]
    exact Nat.lt_succ_of_le h.seen_le
  · rw [ha]

theorem Live.foldl (h : w.Live) (ho : .drop ∉ ops) :
    (ops.foldl apply w).Live ∧ ((ops.foldl apply w).ready = true ↔ w.ready = true ∨ ops ≠ []) := by
  induction ops generalizing w with
  | nil => exact ⟨h, by simp⟩
  | cons op ops ih =>
    cases op with
    | drop => exact absurd mem_cons_self ho
    | send v =>
      obtain ⟨hl, hr, -⟩ := h.send v
      obtain ⟨hl', hi⟩ := ih hl fun hd => ho (mem_cons_of_mem _ hd)
      refine ⟨hl', ?_⟩
      rw [foldl_cons, hi]
      exact ⟨fun _ => .inr (cons_ne_nil _ _), fun _ => .inl hr⟩

theorem value_foldl {P : α → Prop} (h : P w.value) (ho : ∀ v, .send v ∈ ops → P v) :
    P (ops.foldl apply w).value := by
  induction ops generalizing w with
  | nil => exact h
  | cons op ops ih =>
    refine ih ?_ fun v hv => ho v (mem_cons_of_mem op hv)
    cases op with
    | send v =>
      by_cases hc : w.closed = true
      · simpa [apply, hc] using h
      · simpa [apply, hc] using ho v mem_cons_self
    | drop => exact h

end Watch

end ShareCli.Foundation
