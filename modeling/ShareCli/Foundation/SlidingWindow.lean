import Mathlib.Algebra.Order.Group.Defs
import Mathlib.Algebra.Group.Basic
import Mathlib.Data.List.Basic

/-!
# Sliding windows

Events are paced when each came while fewer than `limit` of the events before it were younger than the window.
-/

namespace ShareCli.Foundation

open List

variable {α : Type*} [AddCommGroup α] [LinearOrder α] [IsOrderedAddMonoid α] {limit : Nat} {window : α}

def recent (window now : α) (times : List α) : List α := times.filter fun t => now - window < t

omit [IsOrderedAddMonoid α] in
theorem recent_append (now : α) (times ts' : List α) :
    recent window now (times ++ ts') = recent window now times ++ recent window now ts' :=
  filter_append times ts'

theorem recent_recent {now last : α} (h : now ≤ last) (times : List α) :
    recent window last (recent window now times) = recent window last times := by
  unfold recent
  rw [filter_filter]
  refine filter_congr ?_
  intro t _
  have hle : now - window ≤ last - window := sub_le_sub_right h window
  by_cases ht : last - window < t
  · simp [ht, hle.trans_lt ht]
  · simp [ht]

inductive Paced (limit : Nat) (window : α) : List α → Prop where
  | nil : Paced limit window []
  | snoc {times : List α} {t : α} (h : Paced limit window times) (hle : ∀ u ∈ times, u ≤ t)
      (hfew : (recent window t times).length < limit) : Paced limit window (times ++ [t])

variable {times : List α}

omit [IsOrderedAddMonoid α] in
/-- Events that are pairwise less than a window apart are at most `limit`. -/
theorem Paced.length_filter_le (h : Paced limit window times) {p : α → Bool}
    (hp : ∀ u t, p u = true → p t = true → t - window < u) : (times.filter p).length ≤ limit := by
  induction h with
  | nil => exact Nat.zero_le limit
  | @snoc times t _ _ hf ih =>
    rw [filter_append, length_append]
    by_cases ht : p t = true
    · -- The earlier events of the window still counted when the last one came.
      have hs : (times.filter p).length ≤ (recent window t times).length := by
        refine (monotone_filter_right times ?_).length_le
        intro u hu
        exact decide_eq_true (hp u t hu ht)
      have ho : ([t].filter p).length = 1 := by simp [ht]
      omega
    · have hn : ([t].filter p).length = 0 := by simp [ht]
      omega

theorem Paced.length_interval_le (h : Paced limit window times) (start : α) :
    (times.filter fun t => start ≤ t ∧ t < start + window).length ≤ limit := by
  refine h.length_filter_le ?_
  intro u t hu ht
  have hu : start ≤ u ∧ u < start + window := of_decide_eq_true hu
  have ht : start ≤ t ∧ t < start + window := of_decide_eq_true ht
  exact (sub_lt_iff_lt_add.mpr ht.2).trans_le hu.1

theorem Paced.length_interval_le_right (h : Paced limit window times) (start : α) :
    (times.filter fun t => start < t ∧ t ≤ start + window).length ≤ limit := by
  refine h.length_filter_le ?_
  intro u t hu ht
  have hu : start < u ∧ u ≤ start + window := of_decide_eq_true hu
  have ht : start < t ∧ t ≤ start + window := of_decide_eq_true ht
  exact (sub_le_iff_le_add.mpr ht.2).trans_lt hu.1

end ShareCli.Foundation
