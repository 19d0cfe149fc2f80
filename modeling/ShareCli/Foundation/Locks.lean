import Mathlib.Data.Set.Finite.Lattice
import Mathlib.Data.Set.Finite.List
import Mathlib.Order.Bounds.Basic
import ShareCli.Foundation.Machine

/-!
# Threads that take locks

Locks are given back in the reverse order, and a call that returns early gives back all that it holds. A call
that panics poisons the locks that it holds; whoever takes a poisoned lock returns with an error.

If every call takes its locks in the order of a rank, threads never wait for each other
(`Discipline.Holds.not_deadlock`). If it takes a certain lock, the gate, before all others, then at most
one thread holds any locks (`Discipline.Holds.alone`).
-/

namespace ShareCli.Foundation

open List Option

inductive LockInstr (κ ω : Type*) where
  | lock (k : κ)
  | unlock (k : κ)
  | work (w : ω)
deriving DecidableEq

/-- A thread that is in no call has no program. The lock that it took last is the first in `held`. -/
structure LockThread (κ ω : Type*) where
  program : List (LockInstr κ ω) := []
  held : List κ := []

/-- The locks, the data and the threads. -/
structure LockState (κ ω δ : Type*) where
  data : δ
  threads : List (LockThread κ ω)
  poisoned : List κ := []

/-- Work may end the call with an error, or else it may say what is to be done after the rest of the call. -/
structure LockSystem (κ ω δ γ : Type*) where
  program : γ → List (LockInstr κ ω)
  perform : ω → δ → Option (List (LockInstr κ ω)) × δ

inductive LockEvent (γ : Type*) where
  | call (index : Nat) (c : γ)
  | proceed (index : Nat)
  | fail (index : Nat) (panics : Bool)

variable {κ ω δ γ : Type*}

def LockThread.wants (t : LockThread κ ω) : Option κ :=
  match t.program with
  | .lock k :: _ => some k
  | _ => none

def LockThread.unwound (t : LockThread κ ω) : LockThread κ ω := { t with program := t.held.map .unlock }

namespace LockState

def setThread (s : LockState κ ω δ) (index : Nat) (t : LockThread κ ω) : LockState κ ω δ :=
  { s with threads := s.threads.set index t }

/-- Each of some threads waits for a lock that one of them holds. -/
def Deadlock (s : LockState κ ω δ) (among : Set Nat) : Prop :=
  among.Nonempty ∧ ∀ i ∈ among, ∃ t k j u, s.threads[i]? = some t ∧ t.wants = some k ∧
    j ∈ among ∧ s.threads[j]? = some u ∧ k ∈ u.held

variable [DecidableEq κ]

def isHeld (s : LockState κ ω δ) (k : κ) : Bool := s.threads.any fun t => t.held.contains k

def proceed (sys : LockSystem κ ω δ γ) (s : LockState κ ω δ) (index : Nat) (t : LockThread κ ω) :
    Option (LockState κ ω δ) :=
  match t.program with
  | [] => none
  | .lock k :: rest =>
    if s.isHeld k then none
    else if s.poisoned.contains k then some (s.setThread index t.unwound)
    else some (s.setThread index { program := rest, held := k :: t.held })
  | .unlock k :: rest => some (s.setThread index { program := rest, held := t.held.erase k })
  | .work w :: rest =>
    match sys.perform w s.data with
    | (some later, data) => some ({ s with data }.setThread index { t with program := rest ++ later })
    | (none, data) => some ({ s with data }.setThread index t.unwound)

def step (sys : LockSystem κ ω δ γ) (s : LockState κ ω δ) : LockEvent γ → Option (LockState κ ω δ)
  | .call index c =>
    (s.threads[index]?).bind fun t =>
      if t.program.isEmpty then some (s.setThread index { t with program := sys.program c }) else none
  | .proceed index => (s.threads[index]?).bind fun t => s.proceed sys index t
  | .fail index panics =>
    (s.threads[index]?).bind fun t =>
      match t.program with
      | .work _ :: _ =>
        let poisoned := if panics then t.held ++ s.poisoned else s.poisoned
        some ({ s with poisoned }.setThread index t.unwound)
      | _ => none

end LockState

def lockMachine [DecidableEq κ] (sys : LockSystem κ ω δ γ) (data : δ) (count : Nat) :
    Machine (LockState κ ω δ) (LockEvent γ) where
  init := { data, threads := List.replicate count {} }
  step := LockState.step sys

/-- An order of the locks, with a gate that comes before all others. -/
structure Discipline (κ : Type*) where
  rank : κ → Nat
  gate : κ
  gate_lt : ∀ k, k ≠ gate → rank gate < rank k

namespace Discipline

variable (D : Discipline κ)

/-- A lock comes after all that are held, and the gate is held for all others. -/
def MayLock (held : List κ) (k : κ) : Prop := (∀ k' ∈ held, D.rank k' < D.rank k) ∧ (k = D.gate ∨ D.gate ∈ held)

/-- The program keeps to the discipline, does only work that is `safe` with the locks it holds, and gives all locks
back. -/
def Proper (safe : List κ → ω → Prop) : List κ → List (LockInstr κ ω) → Prop
  | held, [] => held = []
  | held, .lock k :: rest => D.MayLock held k ∧ Proper safe (k :: held) rest
  | held, .unlock k :: rest => ∃ outer, held = k :: outer ∧ Proper safe outer rest
  | held, .work w :: rest => safe held w ∧ Proper safe held rest

variable {D} {safe : List κ → ω → Prop} {held : List κ} {program later : List (LockInstr κ ω)}

theorem Proper.append (h : D.Proper safe held program) (hl : D.Proper safe [] later) :
    D.Proper safe held (program ++ later) := by
  induction program generalizing held with
  | nil =>
    obtain rfl : held = [] := h
    exact hl
  | cons i rest ih =>
    cases i with
    | lock k => exact ⟨h.1, ih h.2⟩
    | unlock k =>
      obtain ⟨o, rfl, hrest⟩ := h
      exact ⟨o, rfl, ih hrest⟩
    | work w => exact ⟨h.1, ih h.2⟩

theorem proper_unwound (held : List κ) : D.Proper safe held (held.map .unlock) := by
  induction held with
  | nil => rfl
  | cons k held ih => exact ⟨held, rfl, ih⟩

variable (D safe)

structure Orderly (t : LockThread κ ω) : Prop where
  proper : D.Proper safe t.held t.program
  sorted : t.held.Pairwise fun k k' => D.rank k' < D.rank k
  gated : t.held ≠ [] → D.gate ∈ t.held

structure Governs (sys : LockSystem κ ω δ γ) : Prop where
  program : ∀ c, D.Proper safe [] (sys.program c)
  later : ∀ w data later data', sys.perform w data = (some later, data') → D.Proper safe [] later

variable {D safe} {t : LockThread κ ω}

namespace Orderly

theorem idle : D.Orderly safe ({} : LockThread κ ω) := ⟨rfl, .nil, fun h => absurd rfl h⟩

theorem unwound (h : D.Orderly safe t) : D.Orderly safe t.unwound :=
  ⟨proper_unwound t.held, h.sorted, h.gated⟩

variable {k : κ} {rest : List (LockInstr κ ω)}

theorem locked (h : D.Orderly safe t) (hp : t.program = .lock k :: rest) :
    D.Orderly safe { program := rest, held := k :: t.held } := by
  have hpr := h.proper
  rw [hp] at hpr
  obtain ⟨⟨hr, hg⟩, hrest⟩ := hpr
  refine ⟨hrest, pairwise_cons.mpr ⟨hr, h.sorted⟩, fun _ => ?_⟩
  rcases hg with rfl | hg
  · exact mem_cons_self
  · exact mem_cons_of_mem k hg

/-- The gate has the lowest rank and stands last: it is given back last. -/
theorem unlocked [DecidableEq κ] (h : D.Orderly safe t) (hp : t.program = .unlock k :: rest) :
    D.Orderly safe { program := rest, held := t.held.erase k } := by
  have hpr := h.proper
  have hs := h.sorted
  have hg := h.gated
  rw [hp] at hpr
  obtain ⟨o, ho, hrest⟩ := hpr
  rw [ho] at hs hg ⊢
  rw [erase_cons_head]
  obtain ⟨hh, ht⟩ := pairwise_cons.mp hs
  refine ⟨hrest, ht, fun hne => ?_⟩
  rcases mem_cons.mp (hg (cons_ne_nil _ _)) with heq | hga
  · obtain ⟨k', hk'⟩ := exists_mem_of_ne_nil o hne
    have hlt := hh k' hk'
    by_cases hsm : k' = D.gate
    · exact hsm ▸ hk'
    · have hgt := D.gate_lt k' hsm
      rw [heq] at hgt
      omega
  · exact hga

theorem worked {w : ω} (h : D.Orderly safe t) (hp : t.program = .work w :: rest)
    (hl : D.Proper safe [] later) :
    D.Orderly safe { t with program := rest ++ later } := by
  have hpr := h.proper
  rw [hp] at hpr
  exact ⟨hpr.2.append hl, h.sorted, h.gated⟩

theorem program_ne_nil (h : D.Orderly safe t) (hk : k ∈ t.held) : t.program ≠ [] := by
  intro hn
  have hpr := h.proper
  rw [hn] at hpr
  have hh : t.held = [] := hpr
  rw [hh] at hk
  exact absurd hk not_mem_nil

theorem rank_lt_wants (h : D.Orderly safe t) {k' : κ} (hk : k ∈ t.held) (hw : t.wants = some k') :
    D.rank k < D.rank k' := by
  have hpr := h.proper
  unfold LockThread.wants at hw
  split at hw
  · rename_i first rest hp
    cases hw
    rw [hp] at hpr
    exact hpr.1.1 k hk
  · cases hw

end Orderly

structure Holds (D : Discipline κ) (safe : List κ → ω → Prop) (s : LockState κ ω δ) : Prop where
  orderly : ∀ t ∈ s.threads, D.Orderly safe t
  exclusive : ∀ (i j : Nat) (t u : LockThread κ ω), i ≠ j → s.threads[i]? = some t → s.threads[j]? = some u →
    ∀ k ∈ t.held, k ∉ u.held

variable {s s' : LockState κ ω δ}

/-- One thread moves on; whatever it holds now it held before, or nobody did. -/
theorem Holds.setThread (h : D.Holds safe s) {index : Nat} {t' : LockThread κ ω}
    (hg : s.threads[index]? = some t) (ho : D.Orderly safe t')
    (hh : ∀ k ∈ t'.held, k ∈ t.held ∨ ∀ u ∈ s.threads, k ∉ u.held) (d : δ) (p : List κ) :
    D.Holds safe { data := d, poisoned := p, threads := s.threads.set index t' } := by
  refine ⟨fun u hu => ?_, ?_⟩
  · rcases mem_or_eq_of_mem_set hu with hu | rfl
    · exact h.orderly u hu
    · exact ho
  · -- The thread that has moved against any other.
    have hot : ∀ j u, j ≠ index → s.threads[j]? = some u → ∀ k ∈ t'.held, k ∉ u.held := by
      intro j u hj hu k hk
      rcases hh k hk with hk | hf
      · exact h.exclusive index j t u (Ne.symm hj) hg hu k hk
      · exact hf u (mem_of_getElem? hu)
    intro i j u v hij hi hj k hk hk'
    rcases getElem?_set_cases hi with ⟨rfl, rfl⟩ | ⟨hin, hi⟩
    · rcases getElem?_set_cases hj with ⟨heq, -⟩ | ⟨-, hj⟩
      · exact hij heq
      · exact hot j v (Ne.symm hij) hj k hk hk'
    · rcases getElem?_set_cases hj with ⟨rfl, rfl⟩ | ⟨-, hj⟩
      · exact hot i u hij hi k hk' hk
      · exact h.exclusive i j u v hij hi hj k hk hk'

/-- **The gate.** At most one thread holds locks. -/
theorem Holds.alone (h : D.Holds safe s) {i j : Nat} {u : LockThread κ ω} (hij : i ≠ j)
    (hi : s.threads[i]? = some t) (hj : s.threads[j]? = some u) (ht : t.held ≠ []) : u.held = [] := by
  by_contra hu
  have hg := (h.orderly t (mem_of_getElem? hi)).gated ht
  have hg' := (h.orderly u (mem_of_getElem? hj)).gated hu
  exact h.exclusive i j t u hij hi hj D.gate hg hg'

/-- **No deadlock.** The holder of a lock that is waited for would wait for one of higher rank, and so on. -/
theorem Holds.not_deadlock (h : D.Holds safe s) (am : Set Nat) : ¬ s.Deadlock am := by
  rintro ⟨⟨first, hf⟩, hw⟩
  have hc : ∀ n, ∃ i ∈ am, ∃ t k, s.threads[i]? = some t ∧ t.wants = some k ∧ n ≤ D.rank k := by
    intro n
    induction n with
    | zero =>
      obtain ⟨t, k, -, -, hg, hwn, -⟩ := hw first hf
      exact ⟨first, hf, t, k, hg, hwn, Nat.zero_le _⟩
    | succ n ih =>
      obtain ⟨i, hi, t, k, hg, hwn, hr⟩ := ih
      obtain ⟨t', k', j, u, hg', hwn', hj, hu, hk⟩ := hw i hi
      obtain rfl : t = t' := some_inj.mp (hg ▸ hg')
      obtain rfl : k = k' := some_inj.mp (hwn ▸ hwn')
      obtain ⟨u', k'', -, -, hu', hwn'', -⟩ := hw j hj
      obtain rfl : u = u' := some_inj.mp (hu ▸ hu')
      have hlt := (h.orderly u (mem_of_getElem? hu)).rank_lt_wants hk hwn''
      exact ⟨j, hj, u, k'', hu, hwn'', by omega⟩
  obtain ⟨bound, hb⟩ := (finite_toSet ((s.threads.filterMap LockThread.wants).map D.rank)).bddAbove
  obtain ⟨i, -, t, k, hg, hwn, hr⟩ := hc (bound + 1)
  have hm : k ∈ s.threads.filterMap LockThread.wants :=
    mem_filterMap.mpr ⟨t, mem_of_getElem? hg, hwn⟩
  have hle : D.rank k ≤ bound := hb (mem_map_of_mem hm)
  omega

section Steps

variable [DecidableEq κ] {sys : LockSystem κ ω δ γ}

theorem isHeld_iff {k : κ} : s.isHeld k = true ↔ ∃ t ∈ s.threads, k ∈ t.held := by
  simp [LockState.isHeld]

theorem Holds.proceed (h : D.Holds safe s) (hs : D.Governs safe sys) {index : Nat}
    (hg : s.threads[index]? = some t) (hstep : s.proceed sys index t = some s') : D.Holds safe s' := by
  have ho := h.orderly t (mem_of_getElem? hg)
  unfold LockState.proceed at hstep
  split at hstep
  · cases hstep
  · rename_i k rest hp
    split at hstep
    · cases hstep
    · rename_i hf
      split at hstep
      · cases hstep
        exact h.setThread hg ho.unwound (fun k hk => .inl hk) _ _
      · cases hstep
        refine h.setThread hg (ho.locked hp) (fun k' hk' => ?_) _ _
        rcases mem_cons.mp hk' with rfl | hk'
        · exact .inr fun u hu hh => hf (isHeld_iff.mpr ⟨u, hu, hh⟩)
        · exact .inl hk'
  · rename_i k rest hp
    cases hstep
    exact h.setThread hg (ho.unlocked hp) (fun k' hk' => .inl (mem_of_mem_erase hk')) _ _
  · rename_i w rest hp
    split at hstep
    · rename_i later d hpr
      cases hstep
      exact h.setThread hg (ho.worked hp (hs.later _ _ _ _ hpr)) (fun k hk => .inl hk) _ _
    · cases hstep
      exact h.setThread hg ho.unwound (fun k hk => .inl hk) _ _

theorem Holds.step (h : D.Holds safe s) (hsy : D.Governs safe sys) {ev : LockEvent γ}
    (hstep : s.step sys ev = some s') : D.Holds safe s' := by
  cases ev with
  | proceed index =>
    obtain ⟨t, hg, hstep⟩ := bind_eq_some_iff.mp hstep
    exact h.proceed hsy hg hstep
  | call index c =>
    obtain ⟨t, hg, hstep⟩ := bind_eq_some_iff.mp hstep
    split_ifs at hstep with hi
    cases hstep
    have ho := h.orderly t (mem_of_getElem? hg)
    have hh : t.held = [] := by
      have hpr := ho.proper
      rw [isEmpty_iff.mp hi] at hpr
      exact hpr
    have hs : D.Orderly safe { t with program := sys.program c } := by
      refine ⟨?_, ho.sorted, ho.gated⟩
      rw [hh]
      exact hsy.program c
    exact h.setThread hg hs (fun k hk => .inl hk) _ _
  | fail index p =>
    obtain ⟨t, hg, hstep⟩ := bind_eq_some_iff.mp hstep
    split at hstep
    · cases hstep
      exact h.setThread hg (h.orderly t (mem_of_getElem? hg)).unwound (fun k hk => .inl hk) _ _
    · cases hstep

theorem holds_of_reachable (hsy : D.Governs safe sys) {d : δ} {n : Nat}
    (h : (lockMachine sys d n).Reachable s) : D.Holds safe s := by
  refine Machine.invariant (M := lockMachine sys d n) ?_ ?_ h
  · refine ⟨fun t ht => ?_, fun i j t u _ hi _ k hk => ?_⟩
    · rw [eq_of_mem_replicate ht]
      exact Orderly.idle
    · rw [eq_of_mem_replicate (mem_of_getElem? hi)] at hk
      exact absurd hk not_mem_nil
  · intro s ev s' hs hstep
    exact hs.step hsy hstep

theorem exists_proceed {index : Nat} (hg : s.threads[index]? = some t) (hc : t.program ≠ [])
    (hf : ∀ k, t.wants = some k → s.isHeld k = false) :
    ∃ s', s.step sys (.proceed index) = some s' := by
  have hstep : s.step sys (.proceed index) = s.proceed sys index t := by
    simp only [LockState.step, hg, bind_some]
  rw [hstep]
  unfold LockState.proceed
  split
  · rename_i hn
    exact absurd hn hc
  · rename_i k rest hp
    have hw : t.wants = some k := by
      simp only [LockThread.wants, hp]
    rw [if_neg (by rw [hf k hw]; exact Bool.false_ne_true)]
    split_ifs <;> exact ⟨_, rfl⟩
  · exact ⟨_, rfl⟩
  · split
    · exact ⟨_, rfl⟩
    · exact ⟨_, rfl⟩

theorem Holds.progress (h : D.Holds safe s) (sys : LockSystem κ ω δ γ)
    (hc : ∃ t ∈ s.threads, t.program ≠ []) : ∃ index s', s.step sys (.proceed index) = some s' := by
  by_contra hs
  refine h.not_deadlock {index | ∃ t, s.threads[index]? = some t ∧ t.program ≠ []} ⟨?_, ?_⟩
  · obtain ⟨t, ht, hp⟩ := hc
    obtain ⟨index, hg⟩ := getElem?_of_mem ht
    exact ⟨index, t, hg, hp⟩
  · rintro index ⟨t, hg, hp⟩
    by_contra hf
    refine hs ⟨index, exists_proceed hg hp fun k hw => ?_⟩
    by_contra hh
    obtain ⟨u, hu, hk⟩ := isHeld_iff.mp (by simpa using hh)
    obtain ⟨j, hj⟩ := getElem?_of_mem hu
    have hb : u.program ≠ [] := (h.orderly u hu).program_ne_nil hk
    exact hf ⟨t, k, j, u, hg, hw, ⟨u, hj, hb⟩, hj, hk⟩

end Steps

end Discipline

end ShareCli.Foundation
