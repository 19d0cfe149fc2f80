import Mathlib.Data.List.Pairwise
import Mathlib.Data.List.Sort

/-!
# Stable sorting

A sorted list is determined by the elements that it has for each key, in their order (`eq_of_filter_eq`).
-/

namespace ShareCli.Foundation

open List

variable {α κ : Type*} [LinearOrder κ] {key : α → κ} {l s s' : List α}

def sortByKey (key : α → κ) (l : List α) : List α := l.insertionSort fun a b => key a ≤ key b

theorem sortByKey_perm : (sortByKey key l).Perm l := perm_insertionSort _ l

@[simp] theorem mem_sortByKey {a : α} : a ∈ sortByKey key l ↔ a ∈ l := sortByKey_perm.mem_iff

theorem pairwise_sortByKey : (sortByKey key l).Pairwise fun a b => key a ≤ key b := by
  have : Std.Total fun a b : α => key a ≤ key b := ⟨fun a b => le_total (key a) (key b)⟩
  have : IsTrans α fun a b => key a ≤ key b := ⟨fun _ _ _ => le_trans⟩
  exact pairwise_insertionSort _ l

def sortBy (cmp : α → α → Ordering) (l : List α) : List α := l.insertionSort fun a b => cmp a b ≠ .gt

theorem sortBy_perm {cmp : α → α → Ordering} : (sortBy cmp l).Perm l := perm_insertionSort _ l

theorem pairwise_sortBy {cmp : α → α → Ordering} (h : ∀ a b, cmp a b ≠ .gt ↔ key a ≤ key b) :
    (sortBy cmp l).Pairwise fun a b => key a ≤ key b := by
  simp only [sortBy, h]
  exact pairwise_sortByKey

theorem rel_or_rel_of_pairwise {R : α → α → Prop} (h : s.Pairwise R) {a b : α} (ha : a ∈ s) (hb : b ∈ s)
    (hne : a ≠ b) : R a b ∨ R b a := by
  have hs : s.Pairwise fun a b => R a b ∨ R b a := h.imp fun hr => .inl hr
  have : Std.Symm fun a b => R a b ∨ R b a := ⟨fun _ _ hr => hr.symm⟩
  exact hs.forall ha hb hne

theorem filter_sortByKey (k : κ) : (sortByKey key l).filter (key · = k) = l.filter (key · = k) := by
  have : Std.Total fun a b : α => key a ≤ key b := ⟨fun a b => le_total (key a) (key b)⟩
  have : IsTrans α fun a b => key a ≤ key b := ⟨fun _ _ _ => le_trans⟩
  have hk : (l.filter (key · = k)).Pairwise fun a b => key a ≤ key b := by
    refine pairwise_of_forall_mem_list fun a ha b hb => ?_
    rw [mem_filter, decide_eq_true_eq] at ha hb
    exact (ha.2.trans hb.2.symm).le
  have hs := (sublist_insertionSort hk filter_sublist).filter (key · = k)
  rw [filter_filter] at hs
  simp only [Bool.and_self] at hs
  exact (hs.eq_of_length (sortByKey_perm.filter _).length_eq.symm).symm

theorem mem_iff_of_filter_eq (h : ∀ k, s.filter (key · = k) = s'.filter (key · = k)) (a : α) :
    a ∈ s ↔ a ∈ s' := by
  have ha := congrArg (a ∈ ·) (h (key a))
  simpa [mem_filter] using ha

theorem eq_of_filter_eq (hs : s.Pairwise fun a b => key a ≤ key b)
    (hs' : s'.Pairwise fun a b => key a ≤ key b)
    (h : ∀ k, s.filter (key · = k) = s'.filter (key · = k)) : s = s' := by
  induction s generalizing s' with
  | nil =>
    refine (eq_nil_iff_forall_not_mem.mpr fun a ha => ?_).symm
    exact not_mem_nil ((mem_iff_of_filter_eq h a).mpr ha)
  | cons a s ih =>
    cases s' with
    | nil => exact absurd ((mem_iff_of_filter_eq h a).mp (by simp)) not_mem_nil
    | cons b s' =>
      obtain ⟨ha, hat⟩ := pairwise_cons.mp hs
      obtain ⟨hb, hbt⟩ := pairwise_cons.mp hs'
      -- each of the two first elements is in the other list, so that they have the same key
      have hk : key a = key b := by
        rcases mem_cons.mp ((mem_iff_of_filter_eq h b).mpr (by simp)) with rfl | hbs
        · rfl
        · rcases mem_cons.mp ((mem_iff_of_filter_eq h a).mp (by simp)) with rfl | has
          · rfl
          · exact le_antisymm (ha b hbs) (hb a has)
      have hc := h (key a)
      rw [filter_cons_of_pos (by simp), filter_cons_of_pos (by simp [hk])] at hc
      rw [(cons.inj hc).1] at h ⊢
      refine congrArg (b :: ·) (ih hat hbt fun k => ?_)
      have hc := h k
      simp only [filter_cons] at hc
      split at hc
      · exact (cons.inj hc).2
      · exact hc

/-- Of the elements of one key, a front of a sorted list has as many as there is room for behind the smaller ones. -/
theorem filter_take (hs : s.Pairwise fun a b => key a ≤ key b) (n : Nat) (k : κ) :
    (s.take n).filter (key · = k) = (s.filter (key · = k)).take (n - (s.filter (key · < k)).length) := by
  induction s generalizing n with
  | nil => simp
  | cons a s ih =>
    obtain ⟨ha, hs⟩ := pairwise_cons.mp hs
    cases n with
    | zero => simp
    | succ n =>
      rw [take_succ_cons]
      rcases lt_trichotomy (key a) k with hlt | rfl | hgt
      · simp [hlt, hlt.ne, ih hs]
      · have hnone : s.filter (key · < key a) = [] :=
          filter_eq_nil_iff.mpr fun b hb => by simpa using ha b hb
        simp [ih hs, hnone]
      · have hnone : s.filter (key · = k) = [] := by
          refine filter_eq_nil_iff.mpr fun b hb => ?_
          simpa using (hgt.trans_le (ha b hb)).ne'
        simp [hgt.ne', hgt.not_gt, ih hs, hnone]

theorem take_eq_take_iff_filter (hs : s.Pairwise fun a b => key a ≤ key b)
    (hs' : s'.Pairwise fun a b => key a ≤ key b) (n : Nat) : s.take n = s'.take n ↔
      ∀ k, (s.filter (key · = k)).take (n - (s.filter (key · < k)).length) =
        (s'.filter (key · = k)).take (n - (s'.filter (key · < k)).length) := by
  simp only [← filter_take hs, ← filter_take hs']
  exact ⟨fun h k => by rw [h], eq_of_filter_eq hs.take hs'.take⟩

theorem sortByKey_eq (hs : s.Pairwise fun a b => key a ≤ key b)
    (h : ∀ k, s.filter (key · = k) = l.filter (key · = k)) : sortByKey key l = s :=
  eq_of_filter_eq pairwise_sortByKey hs fun k => (filter_sortByKey k).trans (h k).symm

theorem sortByKey_congr {κ' : Type*} [LinearOrder κ'] {key' : α → κ'}
    (h : ∀ a b, key a ≤ key b ↔ key' a ≤ key' b) : sortByKey key l = sortByKey key' l := by
  simp only [sortByKey, h]

theorem sortByKey_sortByKey : sortByKey key (sortByKey key l) = sortByKey key l :=
  sortByKey_eq pairwise_sortByKey fun _ => rfl

theorem sortByKey_append_congr {m : List α} (h : sortByKey key l = sortByKey key s) :
    sortByKey key (l ++ m) = sortByKey key (s ++ m) := by
  refine sortByKey_eq pairwise_sortByKey fun k => ?_
  rw [filter_sortByKey, filter_append, filter_append, ← filter_sortByKey k (l := s), ← h,
    filter_sortByKey]

/-! ## Stable priority queues

A queue is the list of its elements as they came in.
-/

namespace StableQueue

variable (key)

def isBest (q : List α) (a : α) : Bool := q.all fun b => key a ≤ key b

/-- The earliest element of the best key. -/
def front (q : List α) : Option α := q.find? (isBest key q)

def removeFront (q : List α) : List α := q.eraseP (isBest key q)

def order : Nat → List α → List α
  | 0, _ => []
  | n + 1, q => (front key q).elim [] fun a => a :: order n (removeFront key q)

variable {key} {q : List α} {a : α}

theorem front_of_sortByKey (h : sortByKey key q = a :: s) :
    front key q = some a ∧ sortByKey key (removeFront key q) = s := by
  have hs : (a :: s).Pairwise fun b c => key b ≤ key c := h ▸ pairwise_sortByKey
  have hm : ∀ b ∈ q, key a ≤ key b := by
    intro b hb
    rcases mem_cons.mp (h ▸ mem_sortByKey.mpr hb) with rfl | hb
    · exact le_rfl
    · exact rel_of_pairwise_cons hs hb
  have hf : ∀ k, (a :: s).filter (key · = k) = q.filter (key · = k) := fun k => h ▸ filter_sortByKey k
  -- `a` is the first element of its key
  have hk := hf (key a)
  rw [filter_cons_of_pos (by simp)] at hk
  obtain ⟨l₁, l₂, rfl, h₁, -, h₂⟩ := filter_eq_cons_iff.mp hk.symm
  have hb : isBest key (l₁ ++ a :: l₂) a = true := all_eq_true.mpr fun b hb => decide_eq_true (hm b hb)
  have hn : ∀ b ∈ l₁, ¬ isBest key (l₁ ++ a :: l₂) b = true := by
    intro b hb₁ hb
    have hle : key b ≤ key a := by simpa using all_eq_true.mp hb a (by simp)
    exact h₁ b hb₁ (by simpa using le_antisymm hle (hm b (by simp [hb₁])))
  constructor
  · rw [front, find?_append, find?_eq_none.mpr hn]
    simp [hb]
  · rw [removeFront, eraseP_append_right _ hn, eraseP_cons_of_pos hb]
    refine sortByKey_eq (pairwise_cons.mp hs).2 fun k => ?_
    have hc := hf k
    simp only [filter_append, filter_cons] at hc ⊢
    by_cases hak : key a = k
    · subst hak
      rw [filter_eq_nil_iff.mpr h₁] at hc ⊢
      simpa using hc
    · simpa [hak] using hc

theorem order_eq_sortByKey : order key q.length q = sortByKey key q := by
  have hp : (sortByKey key q).Perm q := sortByKey_perm
  generalize hs : sortByKey key q = s at hp
  induction s generalizing q with
  | nil =>
    obtain rfl := hp.symm.eq_nil
    rfl
  | cons a s ih =>
    obtain ⟨hf, hr⟩ := front_of_sortByKey hs
    have hp' : s.Perm (removeFront key q) := hr ▸ sortByKey_perm
    rw [← hp.length_eq, length_cons, order, hf, Option.elim_some, hp'.length_eq, ih hr hp']

end StableQueue

end ShareCli.Foundation
