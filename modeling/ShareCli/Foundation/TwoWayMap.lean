import Mathlib.Data.List.AList

/-!
# Two maps that are inverse to each other

Each pair that one has the other has the other way round.
-/

namespace ShareCli.Foundation

open Option

variable {α β : Type*} [DecidableEq α] {map : AList fun _ : α => β}

theorem lookup_insert_eq_some_iff {key k : α} {value v : β} : (map.insert key value).lookup k = some v ↔
      k = key ∧ v = value ∨ k ≠ key ∧ map.lookup k = some v := by
  by_cases hk : k = key
  · subst hk
    simp [eq_comm]
  · simp [AList.lookup_insert_ne hk, hk]

theorem lookup_erase_eq_some_iff {key k : α} {v : β} :
    (map.erase key).lookup k = some v ↔ k ≠ key ∧ map.lookup k = some v := by
  by_cases hk : k = key
  · subst hk
    simp
  · simp [AList.lookup_erase_ne hk, hk]

variable [DecidableEq β]

def Inverse (forward : AList fun _ : α => β) (backward : AList fun _ : β => α) : Prop :=
  ∀ key value, forward.lookup key = some value ↔ backward.lookup value = some key

namespace Inverse

variable {forward : AList fun _ : α => β} {backward : AList fun _ : β => α} {key : α} {value : β}

theorem insert (h : Inverse forward backward) (hky : forward.lookup key = none)
    (hvl : backward.lookup value = none) :
    Inverse (forward.insert key value) (backward.insert value key) := by
  intro k v
  rw [lookup_insert_eq_some_iff, lookup_insert_eq_some_iff, h k v]
  constructor
  · rintro (⟨rfl, rfl⟩ | ⟨hk, hv⟩)
    · exact .inl ⟨rfl, rfl⟩
    · refine .inr ⟨?_, hv⟩
      rintro rfl
      simp [hvl] at hv
  · rintro (⟨rfl, rfl⟩ | ⟨hv, hk⟩)
    · exact .inl ⟨rfl, rfl⟩
    · refine .inr ⟨?_, hk⟩
      rintro rfl
      rw [← h] at hk
      simp [hky] at hk

theorem erase (h : Inverse forward backward) (hp : forward.lookup key = some value) :
    Inverse (forward.erase key) (backward.erase value) := by
  intro k v
  rw [lookup_erase_eq_some_iff, lookup_erase_eq_some_iff, h k v]
  refine and_congr_left fun hk => not_congr ?_
  constructor
  · rintro rfl
    have hv := (h _ _).mpr hk
    exact some_inj.mp (hv.symm.trans hp)
  · rintro rfl
    have hky := (h _ _).mp hp
    exact some_inj.mp (hk.symm.trans hky)

theorem move (h : Inverse forward backward) (hp : forward.lookup key = some value) {v' : β}
    (hvl : backward.lookup v' = none ∨ v' = value) :
    Inverse (forward.insert key v') ((backward.erase value).insert v' key) := by
  have hb := (h _ _).mp hp
  intro k v
  rw [lookup_insert_eq_some_iff, lookup_insert_eq_some_iff, lookup_erase_eq_some_iff, h k v]
  constructor
  · rintro (⟨rfl, rfl⟩ | ⟨hk, hv⟩)
    · exact .inl ⟨rfl, rfl⟩
    · have hne : v ≠ value := by
        rintro rfl
        exact hk (some_inj.mp (hv.symm.trans hb))
      refine .inr ⟨?_, hne, hv⟩
      rintro rfl
      rcases hvl with hn | rfl
      · simp [hn] at hv
      · exact hne rfl
  · rintro (⟨rfl, rfl⟩ | ⟨hv, hne, hk⟩)
    · exact .inl ⟨rfl, rfl⟩
    · refine .inr ⟨?_, hk⟩
      rintro rfl
      have hv' := (h _ _).mpr hk
      exact hne (some_inj.mp (hv'.symm.trans hp))

end Inverse

end ShareCli.Foundation
