import Mathlib.Logic.Function.Basic

/-!
# Exclusive advisory locks

A lock table maps every file to the owner of its exclusive lock. It names `a` as the owner of `f` exactly when
`a`'s control state says that it holds `f` (`Agrees`).
-/

namespace ShareCli.Foundation.Flock

open Function

variable {φ α κ : Type*}

abbrev Table (φ α : Type*) := φ → Option α

def tryLock [DecidableEq φ] (t : Table φ α) (f : φ) (a : α) : Option (Table φ α) :=
  match t f with
  | none => some (Function.update t f (some a))
  | some _ => none

/-- Unlocking (explicitly, or by closing the file): a lock of somebody else stays. -/
def unlock [DecidableEq φ] [DecidableEq α] (t : Table φ α) (f : φ) (a : α) : Table φ α :=
  if t f = some a then Function.update t f none else t

def releaseAll (t : Table φ α) (dead : α → Bool) : Table φ α := fun f => (t f).filter fun a => !dead a

/-- `holds` reads the file off a control state. -/
def Agrees (t : Table φ α) (holds : κ → Option φ) (pc : α → κ) : Prop :=
  ∀ f a, t f = some a ↔ holds (pc a) = some f

variable {t t' : Table φ α} {holds : κ → Option φ} {pc : α → κ} {f : φ} {a b : α} {k : κ}

theorem Agrees.unique (h : Agrees t holds pc) (ha : holds (pc a) = some f)
    (hb : holds (pc b) = some f) : a = b := by
  have h1 := (h f a).mpr ha
  have h2 := (h f b).mpr hb
  exact Option.some.inj (h1.symm.trans h2)

theorem Agrees.move [DecidableEq α] (h : Agrees t holds pc) (hk : holds k = holds (pc a)) :
    Agrees t holds (update pc a k) := by
  intro f b
  by_cases hb : b = a
  · subst hb
    simp [hk, h f b]
  · simp [update_of_ne hb, h f b]

theorem tryLock_eq_some [DecidableEq φ] : tryLock t f a = some t' ↔
    t f = none ∧ t' = update t f (some a) := by
  unfold tryLock
  split <;> rename_i heq
  · simp [heq, eq_comm]
  · simp [heq]

theorem Agrees.lock [DecidableEq φ] [DecidableEq α] (h : Agrees t holds pc) (hl : tryLock t f a = some t')
    (hn : holds (pc a) = none) (hk : holds k = some f) :
    Agrees t' holds (update pc a k) := by
  obtain ⟨hf, rfl⟩ := tryLock_eq_some.mp hl
  intro g b
  by_cases hb : b = a
  · subst hb
    by_cases hg : g = f
    · subst hg; simp [hk]
    · have : t g ≠ some b := fun hc => by
        have := (h g b).mp hc
        simp [hn] at this
      simp [update_of_ne hg, hk, this, Ne.symm hg]
  · have hba : a ≠ b := Ne.symm hb
    by_cases hg : g = f
    · subst hg
      have : ¬ holds (pc b) = some g := fun hc => by
        have := (h g b).mpr hc
        simp [hf] at this
      simp [update_of_ne hb, this, hba]
    · simp [update_of_ne hb, update_of_ne hg, h g b]

theorem Agrees.unlock [DecidableEq φ] [DecidableEq α] (h : Agrees t holds pc) (hh : holds (pc a) = some f)
    (hk : holds k = none) : Agrees (unlock t f a) holds (update pc a k) := by
  have ho : t f = some a := (h f a).mpr hh
  intro g b
  simp only [Flock.unlock, ho, if_true]
  by_cases hb : b = a
  · subst hb
    by_cases hg : g = f
    · subst hg; simp [hk]
    · have : t g ≠ some b := fun hc => hg (Option.some.inj (((h g b).mp hc).symm.trans hh))
      simp [update_of_ne hg, hk, this]
  · by_cases hg : g = f
    · subst hg
      have : ¬ holds (pc b) = some g := fun hc => hb (h.unique hc hh)
      simp [update_of_ne hb, this]
    · simp [update_of_ne hb, update_of_ne hg, h g b]

theorem Agrees.releaseAll (h : Agrees t holds pc) (dead : α → Bool) (hk : holds k = none) :
    Agrees (releaseAll t dead) holds fun b => if dead b then k else pc b := by
  intro g b
  have ho : Flock.releaseAll t dead g = some b ↔ t g = some b ∧ dead b = false := by
    simp [Flock.releaseAll, Option.filter_eq_some_iff]
  rw [ho, h g b]
  by_cases hb : dead b <;> simp [hb, hk]

end ShareCli.Foundation.Flock
