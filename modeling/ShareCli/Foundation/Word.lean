import Mathlib.Algebra.Order.Ring.Nat
import Mathlib.Algebra.Order.BigOperators.Group.List
import Mathlib.Data.List.AList

/-! # Checked arithmetic on 64-bit words -/

namespace ShareCli.Foundation

namespace Word

def checkedAdd (a b : UInt64) : Option UInt64 :=
  if a.toNat + b.toNat < 2 ^ 64 then some (a + b) else none

theorem checkedAdd_eq_some_iff {a b c : UInt64} : checkedAdd a b = some c ↔ a.toNat + b.toNat = c.toNat := by
  unfold checkedAdd
  have hs : (a + b).toNat = (a.toNat + b.toNat) % 2 ^ 64 := UInt64.toNat_add a b
  have hc := c.toNat_lt
  split
  · rename_i hlt
    rw [Nat.mod_eq_of_lt hlt] at hs
    rw [Option.some_inj, ← UInt64.toNat_inj, hs]
  · rename_i hge
    constructor
    · intro h
      cases h
    · intro h
      omega

theorem checkedAdd_eq_none_iff {a b : UInt64} : checkedAdd a b = none ↔ 2 ^ 64 ≤ a.toNat + b.toNat := by
  unfold checkedAdd
  split <;> simp <;> omega

def saturatingAdd (a b : UInt64) : UInt64 := (checkedAdd a b).getD (UInt64.ofNat (2 ^ 64 - 1))

theorem toNat_saturatingAdd (a b : UInt64) :
    (saturatingAdd a b).toNat = min (a.toNat + b.toNat) (2 ^ 64 - 1) := by
  unfold saturatingAdd
  have hm : (UInt64.ofNat (2 ^ 64 - 1)).toNat = 2 ^ 64 - 1 := UInt64.toNat_ofNat_of_lt' (by decide)
  cases ha : checkedAdd a b with
  | none =>
    have ho := checkedAdd_eq_none_iff.mp ha
    show (UInt64.ofNat (2 ^ 64 - 1)).toNat = _
    omega
  | some c =>
    have hs := checkedAdd_eq_some_iff.mp ha
    have hc := c.toNat_lt
    show c.toNat = _
    omega

def toNatSum (words : List UInt64) : Nat := (words.map UInt64.toNat).sum

def checkedSumFrom (start : UInt64) (words : List UInt64) : Option UInt64 := words.foldlM checkedAdd start

theorem checkedSumFrom_eq_some_iff {start total : UInt64} {ws : List UInt64} :
    checkedSumFrom start ws = some total ↔ start.toNat + toNatSum ws = total.toNat := by
  induction ws generalizing start with
  | nil => simp [checkedSumFrom, toNatSum, UInt64.toNat_inj]
  | cons w ws ih =>
    unfold checkedSumFrom at ih ⊢
    have hs : toNatSum (w :: ws) = w.toNat + toNatSum ws := by simp [toNatSum]
    have ht := total.toNat_lt
    rw [List.foldlM_cons, Option.bind_eq_bind, Option.bind_eq_some_iff, hs]
    constructor
    · rintro ⟨next, hnext, hrest⟩
      have := checkedAdd_eq_some_iff.mp hnext
      have := ih.mp hrest
      omega
    · intro h
      have hf : start.toNat + w.toNat < 2 ^ 64 := by omega
      have ha : (start + w).toNat = start.toNat + w.toNat := by
        rw [UInt64.toNat_add, Nat.mod_eq_of_lt hf]
      refine ⟨start + w, checkedAdd_eq_some_iff.mpr ha.symm, ih.mpr ?_⟩
      omega

end Word

end ShareCli.Foundation
