import Mathlib.Data.List.Basic
import Mathlib.Logic.Function.Basic
import Mathlib.Logic.Relation

/-!
# Machines: executable labelled transition systems

The label of a step carries every choice the environment makes, so that a step is a function of the state and
the label, and an interleaving is a list of labels.
-/

namespace ShareCli.Foundation

open Option List

/-- A start and what each label does. -/
structure Machine (σ ℓ : Type*) where
  init : σ
  /-- `none` when the label is not enabled in the state. -/
  step : σ → ℓ → Option σ

namespace Machine

variable {σ ℓ : Type*} (M : Machine σ ℓ)

def run (s : σ) : List ℓ → Option σ
  | [] => some s
  | l :: ls => (M.step s l).bind fun s' => run s' ls

inductive ReachableWhen (C : σ → ℓ → Prop) : σ → Prop where
  | init : ReachableWhen C M.init
  | step {s s' : σ} {l : ℓ} (hr : ReachableWhen C s) (hc : C s l) (hs : M.step s l = some s') :
      ReachableWhen C s'

abbrev Reachable : σ → Prop := M.ReachableWhen fun _ _ => True

variable {M} {C : σ → ℓ → Prop} {s t : σ} {ls : List ℓ}

/-- **Invariant rule.** -/
@[elab_as_elim]
theorem invariantWhen {I : σ → Prop} (hi : I M.init)
    (hstep : ∀ s l s', I s → C s l → M.step s l = some s' → I s') (h : M.ReachableWhen C s) : I s := by
  induction h with
  | init => exact hi
  | step _ hc hs ih => exact hstep _ _ _ ih hc hs

@[elab_as_elim]
theorem invariant {I : σ → Prop} (hin : I M.init) (hstep : ∀ s l s', I s → M.step s l = some s' → I s')
    (h : M.Reachable s) : I s :=
  invariantWhen hin (fun s l s' hi _ hs => hstep s l s' hi hs) h

theorem ReachableWhen.of_run (hs : M.ReachableWhen C s) (hls : ∀ l ∈ ls, ∀ s, C s l) (h : M.run s ls = some t) :
    M.ReachableWhen C t := by
  induction ls generalizing s with
  | nil =>
    obtain rfl : s = t := by simpa [run] using h
    exact hs
  | cons l ls ih =>
    obtain ⟨s', hs', hr⟩ := bind_eq_some_iff.mp h
    have hnext : M.ReachableWhen C s' := hs.step (hls l mem_cons_self s) hs'
    exact ih hnext (fun l' hl' => hls l' (mem_cons_of_mem l hl')) hr

theorem Reachable.of_run (hs : M.Reachable s) (h : M.run s ls = some t) : M.Reachable t :=
  ReachableWhen.of_run hs (fun _ _ _ => trivial) h

theorem reachable_of_run (h : M.run M.init ls = some t) : M.Reachable t := Reachable.of_run .init h

def restrict (M : Machine σ ℓ) (C : σ → ℓ → Prop) [∀ s l, Decidable (C s l)] : Machine σ ℓ where
  init := M.init
  step s l := if C s l then M.step s l else none

theorem reachableWhen_of_restrict [∀ s l, Decidable (C s l)] (h : (M.restrict C).Reachable s) :
    M.ReachableWhen C s := by
  refine invariant (M := M.restrict C) (I := M.ReachableWhen C) .init ?_ h
  intro s l s' hs hstep
  simp only [restrict, ite_none_right_eq_some] at hstep
  exact hs.step hstep.1 hstep.2

section Evaluations

variable {p q : σ → Prop} [DecidablePred p] [∀ s l, Decidable (C s l)]

omit [∀ s l, Decidable (C s l)] in
theorem exists_run (h : (M.run s ls).any fun t => p t) : ∃ t, M.run s ls = some t ∧ p t := by
  obtain ⟨t, hr, hp⟩ := (any_eq_true _ _).mp h
  exact ⟨t, hr, of_decide_eq_true hp⟩

theorem exists_reachable (ls : List ℓ) (h : ((M.restrict C).run M.init ls).any fun s => p s) :
    ∃ s, M.ReachableWhen C s ∧ p s := by
  obtain ⟨s, hr, hp⟩ := exists_run h
  exact ⟨s, reachableWhen_of_restrict (reachable_of_run hr), hp⟩

theorem exists_reachable_and (ls : List ℓ) (h : ((M.restrict C).run M.init ls).any fun s => p s)
    (hq : ∀ s, M.ReachableWhen C s → p s → q s) : ∃ s, M.ReachableWhen C s ∧ p s ∧ q s := by
  obtain ⟨s, hs, hp⟩ := exists_reachable ls h
  exact ⟨s, hs, hp, hq s hs hp⟩

end Evaluations

def Next (M : Machine σ ℓ) (C : ℓ → Prop) (s s' : σ) : Prop := ∃ l, C l ∧ M.step s l = some s'

end Machine

theorem getElem?_set_cases {α : Type*} {l : List α} {i j : Nat} {a b : α} (h : (l.set i a)[j]? = some b) :
    (i = j ∧ a = b) ∨ (i ≠ j ∧ l[j]? = some b) := by
  by_cases hij : i = j
  · subst hij
    have hlt : i < l.length := by
      have hs := (List.getElem?_eq_some_iff.mp h).1
      rwa [length_set] at hs
    rw [getElem?_set_self hlt] at h
    exact .inl ⟨rfl, some_inj.mp h⟩
  · rw [getElem?_set_ne hij] at h
    exact .inr ⟨hij, h⟩

end ShareCli.Foundation
