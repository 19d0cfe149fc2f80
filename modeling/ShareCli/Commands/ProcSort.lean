import Mathlib.Data.Prod.Lex
import Mathlib.Data.String.Basic
import Mathlib.Order.Nat
import ShareCli.Fleet.ProcScan
import ShareCli.Foundation.StableSort

/-!
# Sorting of processes (`src/commands/proc/scan.rs`, `sort.rs`, `platform.rs`)

A sample that is missing is replaced by a value, which takes part in the comparisons. CPU percentages are of any
linear order with a least element, which is zero.
-/

namespace ShareCli.Commands

open Foundation Fleet Option

inductive ProcSort where
  | pid
  | rss
  | fd
  | state
  | cpu
  | age
  | name

/-- What is known of a process. -/
structure AgentResourceSample where
  memRssBytes : UInt64
  fdCount : Option UInt64
deriving DecidableEq

structure DetectedAgentWatch where
  agent : DetectedAgent
  resource : AgentResourceSample
deriving DecidableEq

structure RowView (ρ : Type) where
  pid : ρ → UInt32
  rss : ρ → UInt64
  fd : ρ → UInt64
  comm : ρ → String

/-- The readings of CPU and age are made by the comparisons. -/
structure SampleTable (F : Type) where
  stateByPid : UInt32 → Option Char
  cpu : UInt32 → Option F
  age : UInt32 → Option UInt64

variable {F ρ κ : Type} [LinearOrder F] [OrderBot F] [LinearOrder κ]

def charMax : Char := Char.ofNat 0x10ffff

def ageMax : UInt64 := 0xffffffffffffffff

namespace SampleTable

def stateSortLetter (t : SampleTable F) (pid : UInt32) : Char := (t.stateByPid pid).getD charMax

def samplePidCpuPercent (t : SampleTable F) (pid : UInt32) : F := (t.cpu pid).getD ⊥

def samplePidAgeSecs (t : SampleTable F) (pid : UInt32) : UInt64 := (t.age pid).getD ageMax

end SampleTable

/-- `x.cmp(y).then_with(|| p.cmp(q))` -/
def thenPid (x y : κ) (p q : UInt32) : Ordering := (compare x y).then (compare p.toNat q.toNat)

def ascending (pid : ρ → UInt32) (key : ρ → κ) (a b : ρ) : Ordering := thenPid (key a) (key b) (pid a) (pid b)

def descending (pid : ρ → UInt32) (key : ρ → κ) (a b : ρ) : Ordering := thenPid (key b) (key a) (pid a) (pid b)

def ProcSort.cmp (v : RowView ρ) (t : SampleTable F) : ProcSort → ρ → ρ → Ordering
  | pid, a, b => compare (v.pid a).toNat (v.pid b).toNat
  | rss, a, b => descending v.pid (fun r => (v.rss r).toNat) a b
  | fd, a, b => descending v.pid (fun r => (v.fd r).toNat) a b
  | state, a, b => ascending v.pid (fun r => t.stateSortLetter (v.pid r)) a b
  | cpu, a, b => descending v.pid (fun r => t.samplePidCpuPercent (v.pid r)) a b
  | age, a, b => descending v.pid (fun r => (t.samplePidAgeSecs (v.pid r)).toNat) a b
  | name, a, b => ascending v.pid v.comm a b

def watchedView : RowView DetectedAgentWatch where
  pid row := row.agent.pid
  rss row := row.resource.memRssBytes
  fd row := row.resource.fdCount.getD 0
  comm row := row.agent.comm

def forestView (rssByPid fdByPid : UInt32 → Option UInt64) : RowView AgentTreeNode where
  pid node := node.pid
  rss node := (rssByPid node.pid).getD 0
  fd node := (fdByPid node.pid).getD 0
  comm node := node.comm

def sortWatchedAgents (watched : List DetectedAgentWatch) (sort : ProcSort) (t : SampleTable F) :
    List DetectedAgentWatch := sortBy (sort.cmp watchedView t) watched

def sortAgentForests (forests : List AgentTreeNode) (sort : ProcSort)
    (rssByPid fdByPid : UInt32 → Option UInt64) (t : SampleTable F) : List AgentTreeNode :=
  sortBy (sort.cmp (forestView rssByPid fdByPid) t) forests

/-- What is missing comes last, and equal values are in the order of their PIDs. -/
def Precedes (lt : κ → κ → Prop) (pid : ρ → UInt32) (value : ρ → Option κ) (a b : ρ) : Prop :=
  match value a, value b with
  | some x, some y => lt x y ∨ x = y ∧ (pid a).toNat ≤ (pid b).toNat
  | some _, none => True
  | none, some _ => False
  | none, none => (pid a).toNat ≤ (pid b).toNat

/-- The order that is documented for `ProcSort`. -/
def ProcSort.Documented (v : RowView ρ) (t : SampleTable F) : ProcSort → ρ → ρ → Prop
  | pid, a, b => (v.pid a).toNat ≤ (v.pid b).toNat
  | rss, a, b => Precedes (· > ·) v.pid (fun r => some (v.rss r).toNat) a b
  | fd, a, b => Precedes (· > ·) v.pid (fun r => some (v.fd r).toNat) a b
  | state, a, b => Precedes (· < ·) v.pid (fun r => t.stateByPid (v.pid r)) a b
  | cpu, a, b => Precedes (· > ·) v.pid (fun r => t.cpu (v.pid r)) a b
  | age, a, b => Precedes (· > ·) v.pid (fun r => (t.age (v.pid r)).map UInt64.toNat) a b
  | name, a, b => Precedes (· < ·) v.pid (fun r => some (v.comm r)) a b

/-- Wherever a row has the value that stands for a missing one, it has a lower PID than every row without a
value. -/
def ProcSort.SentinelsLast (v : RowView ρ) (t : SampleTable F) (rows : List ρ) : ProcSort → Prop
  | state => ∀ m ∈ rows, ∀ r ∈ rows, t.stateByPid (v.pid m) = none → t.stateByPid (v.pid r) = some charMax →
      (v.pid r).toNat < (v.pid m).toNat
  | cpu => ∀ m ∈ rows, ∀ r ∈ rows, t.cpu (v.pid m) = none → t.cpu (v.pid r) = some ⊥ →
      (v.pid r).toNat < (v.pid m).toNat
  | age => ∀ m ∈ rows, ∀ r ∈ rows, t.age (v.pid m) = none → ∀ x, t.age (v.pid r) = some x →
      x = ageMax ∧ (v.pid r).toNat < (v.pid m).toNat
  | _ => True

theorem thenPid_ne_gt {x y : κ} {p q : UInt32} :
    thenPid x y p q ≠ .gt ↔ toLex (x, p.toNat) ≤ toLex (y, q.toNat) := by
  rw [thenPid, Prod.Lex.toLex_le_toLex, ne_eq, Ordering.then_eq_gt, compare_gt_iff_gt, compare_gt_iff_gt,
    compare_eq_iff_eq]
  rcases lt_trichotomy x y with h | rfl | h
  · simp [h, h.not_gt, h.ne]
  · simp
  · simp [h, h.not_gt, h.ne']

section

variable (pid : ρ → UInt32) (l : List ρ)

theorem pairwise_ascending (key : ρ → κ) :
    (sortBy (ascending pid key) l).Pairwise (Precedes (· < ·) pid fun r => some (key r)) := by
  have hs : (sortBy (ascending pid key) l).Pairwise _ := pairwise_sortBy fun _ _ => thenPid_ne_gt
  simp only [Prod.Lex.toLex_le_toLex] at hs
  exact hs

theorem pairwise_descending (key : ρ → κ) :
    (sortBy (descending pid key) l).Pairwise (Precedes (· > ·) pid fun r => some (key r)) :=
  pairwise_ascending (κ := κᵒᵈ) pid l key

variable (value : ρ → Option κ) (hv : ∀ {a b}, pid a = pid b → value a = none → value b = none) (e : κ)

include hv

theorem ascending_precedes_iff :
    (sortBy (ascending pid fun r => (value r).getD e) l).Pairwise (Precedes (· < ·) pid value) ↔
      ∀ m ∈ l, ∀ r ∈ l, value m = none → ∀ x, value r = some x →
        x < e ∨ x = e ∧ (pid r).toNat < (pid m).toNat := by
  have hp : (sortBy (ascending pid fun r => (value r).getD e) l).Perm l := sortBy_perm
  have hs : (sortBy (ascending pid fun r => (value r).getD e) l).Pairwise _ :=
    pairwise_sortBy fun _ _ => thenPid_ne_gt
  simp only [Prod.Lex.toLex_le_toLex] at hs
  constructor
  · intro hd m hm r hr hmn x hx
    have hne : pid r ≠ pid m := fun h => by simp [hv h.symm hmn] at hx
    -- one of the rows is before the other in the sorted list, and it is not the one without a value
    rcases rel_or_rel_of_pairwise (hd.and hs) (hp.mem_iff.mpr hm) (hp.mem_iff.mpr hr) fun h => hne (h ▸ rfl) with
      ⟨hdm, -⟩ | ⟨-, hle⟩
    · simp [Precedes, hmn, hx] at hdm
    · simp only [hx, hmn, getD_some, getD_none] at hle
      exact hle.imp_right fun h => ⟨h.1, lt_of_le_of_ne h.2 fun h => hne (UInt32.toNat_inj.mp h)⟩
  · intro hc
    refine hs.imp_of_mem fun {a b} ha hb hle => ?_
    cases hva : value a with
    | some x => cases hvb : value b <;> simp_all [Precedes]
    | none =>
      cases hvb : value b with
      | some y =>
        have hl := hc a (hp.mem_iff.mp ha) b (hp.mem_iff.mp hb) hva y hvb
        simp only [hva, hvb, getD_none, getD_some] at hle
        exfalso
        rcases hl with hl | ⟨rfl, hl⟩ <;> rcases hle with hle | ⟨h, hle⟩
        · exact lt_asymm hl hle
        · exact hl.ne h.symm
        · exact lt_irrefl _ hle
        · omega
      | none => simpa [Precedes, hva, hvb] using hle

theorem descending_precedes_iff :
    (sortBy (descending pid fun r => (value r).getD e) l).Pairwise (Precedes (· > ·) pid value) ↔
      ∀ m ∈ l, ∀ r ∈ l, value m = none → ∀ x, value r = some x →
        x > e ∨ x = e ∧ (pid r).toNat < (pid m).toNat :=
  ascending_precedes_iff (κ := κᵒᵈ) pid l value hv e

end

variable (v : RowView ρ) (t : SampleTable F)

theorem le_charMax (c : Char) : c ≤ charMax := by
  rw [Char.le_def, UInt32.le_iff_toNat_le]
  rcases c.valid with h | ⟨-, h⟩
  · exact (show c.val.toNat ≤ 0x10ffff by omega)
  · exact Nat.le_of_lt_succ h

theorem lt_or_eq_iff {e : κ} (he : ∀ x, x ≤ e) {o : Option κ} {P : Prop} :
    (∀ x, o = some x → x < e ∨ x = e ∧ P) ↔ (o = some e → P) := by
  refine ⟨fun h ho => ?_, fun h x hx => (he x).lt_or_eq.imp_right fun hxe => ⟨hxe, h (hxe ▸ hx)⟩⟩
  rcases h e ho with hlt | ⟨-, hP⟩
  · exact absurd hlt (lt_irrefl e)
  · exact hP

theorem eq_ageMax_iff {x : UInt64} {P : Prop} :
    (x.toNat > ageMax.toNat ∨ x.toNat = ageMax.toNat ∧ P) ↔ x = ageMax ∧ P := by
  have hx : ¬ x.toNat > ageMax.toNat := Nat.not_lt.mpr (Nat.le_of_lt_succ x.toNat_lt)
  rw [UInt64.toNat_inj]
  exact or_iff_right hx

theorem sortBy_documented_iff (sort : ProcSort) (l : List ρ) :
    (sortBy (sort.cmp v t) l).Pairwise (sort.Documented v t) ↔ sort.SentinelsLast v t l := by
  cases sort with
  | pid =>
    refine iff_of_true (pairwise_sortBy fun a b => ?_) trivial
    rw [ProcSort.cmp, ne_eq, compare_gt_iff_gt, not_lt]
  | rss => exact iff_of_true (pairwise_descending v.pid l _) trivial
  | fd => exact iff_of_true (pairwise_descending v.pid l _) trivial
  | name => exact iff_of_true (pairwise_ascending v.pid l _) trivial
  | state =>
    have h := ascending_precedes_iff v.pid l (fun r => t.stateByPid (v.pid r)) (fun h hn => h ▸ hn) charMax
    simp only [lt_or_eq_iff le_charMax] at h
    exact h
  | cpu =>
    have h := descending_precedes_iff v.pid l (fun r => t.cpu (v.pid r)) (fun h hn => h ▸ hn) ⊥
    refine h.trans (forall₄_congr fun m _ r _ => forall_congr' fun _ => ?_)
    exact lt_or_eq_iff (κ := Fᵒᵈ) fun x => bot_le (α := F)
  | age =>
    have h := descending_precedes_iff v.pid l (fun r => (t.age (v.pid r)).map UInt64.toNat)
      (fun h hn => by simpa [h] using hn) ageMax.toNat
    simp only [getD_map, map_eq_none_iff, map_eq_some_iff, forall_exists_index, and_imp,
      forall_apply_eq_imp_iff₂, eq_ageMax_iff] at h
    exact h

/-- **Documented order.** It holds if and only if no row with the value that stands for a missing one is behind a
row without a value. -/
theorem proc_sort_documented_iff (t : SampleTable F) (sort : ProcSort) (watched : List DetectedAgentWatch)
    (forests : List AgentTreeNode) (rssByPid fdByPid : UInt32 → Option UInt64) :
    let rows := sortWatchedAgents watched sort t
    let roots := sortAgentForests forests sort rssByPid fdByPid t
    let view := forestView rssByPid fdByPid
    (rows.Perm watched ∧
      (rows.Pairwise (sort.Documented watchedView t) ↔ sort.SentinelsLast watchedView t watched)) ∧
    roots.Perm forests ∧ (roots.Pairwise (sort.Documented view t) ↔ sort.SentinelsLast view t forests) := by
  exact ⟨⟨sortBy_perm, sortBy_documented_iff _ _ _ _⟩, sortBy_perm, sortBy_documented_iff _ _ _ _⟩

def watch (pid : UInt32) : DetectedAgentWatch := ⟨⟨pid, "codex", "codex"⟩, ⟨0, none⟩⟩

def oneGone : SampleTable Nat where
  stateByPid _ := none
  cpu _ := none
  age pid := if pid = 1 then none else some 5

theorem missing_age_sorted_first : sortWatchedAgents [watch 2, watch 1] .age oneGone = [watch 1, watch 2] ∧
      oneGone.age 1 = none ∧ oneGone.age 2 = some 5 ∧
      ¬ (sortWatchedAgents [watch 2, watch 1] .age oneGone).Pairwise
        (ProcSort.age.Documented watchedView oneGone) := by
  have hs : sortWatchedAgents [watch 2, watch 1] .age oneGone = [watch 1, watch 2] := by decide
  refine ⟨hs, rfl, rfl, fun h => ?_⟩
  rw [hs] at h
  exact (List.pairwise_cons.mp h).1 (watch 2) (by simp)

section Sampling

variable (pid : ρ → UInt32) (sample : Nat → UInt32 → κ)

/-- The comparison with the number `k` takes a sample of the left row and then one of the right row. -/
def answerAt (k : Nat) (a b : ρ) : Ordering :=
  thenPid (sample (2 * k + 1) (pid b)) (sample (2 * k) (pid a)) (pid a) (pid b)

/-- The first `n` comparisons of a sort, which are of these pairs of rows, agree with one value for each process. -/
def Consistent (pairs : Nat → ρ × ρ) (n : Nat) : Prop :=
  ∃ value : UInt32 → κ, ∀ k < n,
    answerAt pid sample k (pairs k).1 (pairs k).2 = descending pid (fun r => value (pid r)) (pairs k).1 (pairs k).2

/-- Whatever a sort compares, but no process with itself. -/
def ConsistentSorts : Prop :=
  ∀ (pairs : Nat → ρ × ρ) (n : Nat), (∀ k, pid (pairs k).1 ≠ pid (pairs k).2) → Consistent pid sample pairs n

/-- Whenever the two rows are compared, and whichever is the left one, they come out in the same order. -/
def Alike (a b : ρ) : Prop :=
  ∀ k k', answerAt pid sample k a b = answerAt pid sample k' a b ∧
    answerAt pid sample k a b = (answerAt pid sample k' b a).swap

variable {pid sample}

theorem swap_thenPid (x y : κ) (p q : UInt32) : (thenPid x y p q).swap = thenPid y x q p := by
  rw [thenPid, thenPid, Ordering.swap_then, ← Std.OrientedCmp.eq_swap, ← Std.OrientedCmp.eq_swap]

theorem thenPid_eq_lt {x y : κ} {p q : UInt32} :
    thenPid x y p q = .lt ↔ x < y ∨ x = y ∧ p.toNat < q.toNat := by
  rw [thenPid, Ordering.then_eq_lt, compare_lt_iff_lt, compare_lt_iff_lt, compare_eq_iff_eq]

/-- With the lower one of its first two readings for each process. -/
theorem lt_of_answers {a b : ρ} (hab : answerAt pid sample 0 a b = .lt) (hba : answerAt pid sample 0 b a = .gt) :
    descending pid (fun r => min (sample 0 (pid r)) (sample 1 (pid r))) a b = .lt := by
  have hba' : thenPid (sample 0 (pid b)) (sample 1 (pid a)) (pid a) (pid b) = .lt := by
    rw [← swap_thenPid]
    exact congrArg Ordering.swap hba
  rw [descending, thenPid_eq_lt]
  rw [answerAt, thenPid_eq_lt] at hab
  rw [thenPid_eq_lt] at hba'
  by_cases hpid : (pid a).toNat < (pid b).toNat
  · have hle : min (sample 0 (pid b)) (sample 1 (pid b)) ≤ min (sample 0 (pid a)) (sample 1 (pid a)) :=
      le_min (min_le_of_right_le (hab.elim le_of_lt fun h => h.1.le))
        (min_le_of_left_le (hba'.elim le_of_lt fun h => h.1.le))
    exact hle.lt_or_eq.imp_right fun h => ⟨h, hpid⟩
  · refine .inl (lt_min (min_lt_of_right_lt ?_) (min_lt_of_left_lt ?_))
    · exact hab.resolve_right fun h => hpid h.2
    · exact hba'.resolve_right fun h => hpid h.2

theorem Alike.answerAt_eq {a b : ρ} (h : Alike pid sample a b) (hne : pid a ≠ pid b) (k : Nat) :
    answerAt pid sample k a b =
      descending pid (fun r => min (sample 0 (pid r)) (sample 1 (pid r))) a b := by
  rw [(h k 0).1]
  have hswap := (h 0 0).2
  cases hab : answerAt pid sample 0 a b with
  | lt =>
    rw [hab, ← Ordering.swap_inj, Ordering.swap_swap] at hswap
    exact (lt_of_answers hab hswap.symm).symm
  | gt =>
    rw [hab, ← Ordering.swap_inj, Ordering.swap_swap] at hswap
    have hlt := lt_of_answers hswap.symm hab
    rw [descending, ← swap_thenPid]
    exact (congrArg Ordering.swap hlt).symm
  | eq =>
    rw [answerAt, thenPid, Ordering.then_eq_eq, compare_eq_iff_eq, compare_eq_iff_eq] at hab
    exact absurd (UInt32.toNat_inj.mp hab.2) hne

/-- A sort that compares the two rows again and again, and the other way round in the end. -/
theorem ConsistentSorts.answerAt_eq_swap (h : ConsistentSorts pid sample) {a b : ρ} (hne : pid a ≠ pid b)
    {i j : Nat} (hij : i < j) : answerAt pid sample i a b = (answerAt pid sample j b a).swap := by
  obtain ⟨value, hvalue⟩ := h (fun k => if k = j then (b, a) else (a, b)) (j + 1) (by
    intro k
    split
    · exact hne.symm
    · exact hne)
  have hi := hvalue i (Nat.lt_succ_of_lt hij)
  have hj := hvalue j (Nat.lt_succ_self j)
  simp only [if_neg hij.ne] at hi
  simp only [if_true] at hj
  rw [hi, hj, descending, descending, swap_thenPid]

theorem consistentSorts_iff_alike :
    ConsistentSorts pid sample ↔ ∀ a b, pid a ≠ pid b → Alike pid sample a b := by
  constructor
  · intro h a b hne k k'
    have hsame (i j : Nat) : answerAt pid sample i a b = answerAt pid sample j a b := by
      rw [h.answerAt_eq_swap hne (Nat.lt_succ_of_le (Nat.le_max_left i j)),
        h.answerAt_eq_swap hne (Nat.lt_succ_of_le (Nat.le_max_right i j))]
    refine ⟨hsame k k', ?_⟩
    rw [h.answerAt_eq_swap hne.symm (Nat.lt_succ_self k'), Ordering.swap_swap]
    exact hsame k (k' + 1)
  · intro h pairs n hpairs
    exact ⟨fun p => min (sample 0 p) (sample 1 p), fun k _ => (h _ _ (hpairs k)).answerAt_eq (hpairs k) k⟩

end Sampling

/-- **Consistent sampling** in whatever sort, exactly if the readings of two processes always compare alike. -/
theorem sampled_sorts_consistent_iff (v : RowView ρ) (tables : Nat → SampleTable F) :
    let cpu n := (tables n).samplePidCpuPercent
    let age n pid := ((tables n).samplePidAgeSecs pid).toNat
    (ConsistentSorts v.pid cpu ↔ ∀ a b, v.pid a ≠ v.pid b → Alike v.pid cpu a b) ∧
    (ConsistentSorts v.pid age ↔ ∀ a b, v.pid a ≠ v.pid b → Alike v.pid age a b) :=
  ⟨consistentSorts_iff_alike, consistentSorts_iff_alike⟩

/-- The process 1 uses more CPU time with every reading; the others are gone. -/
def rising (n : Nat) : SampleTable Nat where
  stateByPid _ := none
  cpu pid := if pid = 1 then some (n + 1) else none
  age _ := none

theorem sampled_sorts_consistent_rising :
    ConsistentSorts watchedView.pid fun n => (rising n).samplePidCpuPercent := by
  refine (sampled_sorts_consistent_iff watchedView rising).1.mpr ?_
  intro a b hne k k'
  have hlt (k : Nat) : compare 0 (2 * k + 1) = .lt := compare_lt_iff_lt.mpr (by omega)
  have hgt (k : Nat) : compare (2 * k + 1 + 1) 0 = .gt := compare_gt_iff_gt.mpr (by omega)
  by_cases ha : watchedView.pid a = 1
  · have hb : watchedView.pid b ≠ 1 := fun hb => hne (ha.trans hb.symm)
    simp [answerAt, thenPid, SampleTable.samplePidCpuPercent, rising, ha, hb, hlt, hgt]
  · by_cases hb : watchedView.pid b = 1
    · simp [answerAt, thenPid, SampleTable.samplePidCpuPercent, rising, ha, hb, hlt, hgt]
    · simp only [answerAt, SampleTable.samplePidCpuPercent, rising, if_neg ha, if_neg hb, swap_thenPid, and_self]

/-- The process 1 uses more CPU time from the second comparison on. -/
def busyLater (n : Nat) : SampleTable Nat where
  stateByPid _ := none
  cpu pid := some (if pid = 1 then if n < 2 then 1 else 9 else if pid = 2 then 2 else 0)
  age _ := none

/-- The beginning of a sort of more than 20 rows whose first run ends with its second row. -/
theorem resampled_comparisons_disagree :
    ¬ Consistent watchedView.pid (fun n => (busyLater n).samplePidCpuPercent)
      (fun k => if k = 1 then (watch 3, watch 2) else (watch 2, watch 1)) 3 := by
  rintro ⟨value, h⟩
  have hf : Ordering.lt = _ := h 0 (by decide)
  have hl : Ordering.gt = _ := h 2 (by decide)
  exact absurd (hf.trans hl.symm) (by decide)

end ShareCli.Commands
