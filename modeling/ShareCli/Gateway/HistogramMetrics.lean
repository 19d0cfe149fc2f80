import ShareCli.Foundation.StableSort

/-!
# Histograms (`histogram_metrics.rs`)

Numbers are compared by a key, as `0.0` and `-0.0` are different and neither is above the other. There is no
NaN among them.
-/

namespace ShareCli.Gateway

open Foundation List

/-- The bounds in increasing order, a count for each of them, and all values recorded. -/
structure Histogram (V : Type*) where
  boundaries : List V
  counts : List Nat
  observations : List V := []

namespace Histogram

variable {V κ : Type*} [LinearOrder κ] (key : V → κ)

def withBuckets (boundaries : List V) : Histogram V where
  boundaries := sortByKey key boundaries
  counts := replicate boundaries.length 0

def record (h : Histogram V) (value : V) : Histogram V :=
  { h with
    observations := h.observations ++ [value]
    counts := h.boundaries.zipWith (fun b c => if key value ≤ key b then c + 1 else c) h.counts }

def snapshot (h : Histogram V) : List (V × Nat) := h.boundaries.zip h.counts

def count (h : Histogram V) : Nat := h.observations.length

/-- The rank is half of the number of observations, rounded up. The source computes it as an `f64`, which is exact
for fewer than `2 ^ 53` observations. -/
def p50 (zero : V) (h : Histogram V) : V :=
  if h.observations = [] then zero
  else
    let sorted := sortByKey key h.observations
    let rank := (sorted.length + 1) / 2
    (sorted[min (rank - 1) (sorted.length - 1)]? : Option V).getD zero

def recordAll (boundaries values : List V) : Histogram V := values.foldl (record key) (withBuckets key boundaries)

variable {key} {boundaries values : List V}

theorem foldl_record {h : Histogram V}
    (hc : h.counts = h.boundaries.map fun b => h.observations.countP (key · ≤ key b)) :
    values.foldl (record key) h = { h with
      observations := h.observations ++ values
      counts := h.boundaries.map fun b => (h.observations ++ values).countP (key · ≤ key b) } := by
  induction values generalizing h with
  | nil =>
    rw [append_nil, ← hc]
    rfl
  | cons v values ih =>
    have hr : (record key h v).counts =
        h.boundaries.map fun b => (h.observations ++ [v]).countP (key · ≤ key b) := by
      rw [record, hc]
      simp only [zipWith_map_right, zipWith_self, countP_append, countP_singleton]
      refine map_congr_left fun b _ => ?_
      by_cases hb : key v ≤ key b
      · simp [hb]
      · simp [hb]
    rw [foldl_cons, ih hr]
    simp [record]

theorem recordAll_eq : recordAll key boundaries values =
    { boundaries := sortByKey key boundaries
      counts := (sortByKey key boundaries).map fun b => values.countP (key · ≤ key b)
      observations := values } := by
  rw [recordAll, foldl_record]
  · rfl
  · simp [withBuckets, map_const', sortByKey_perm.length_eq]

theorem length_le_countP {l l' : List V} {p : V → Bool} (hl : l'.Sublist l) (hp : ∀ a ∈ l', p a) :
    l'.length ≤ l.countP p := by
  rw [← countP_eq_length.mpr hp]
  exact hl.countP_le

theorem countP_of_sorted {l : List V} (hs : l.Pairwise fun a b => key a ≤ key b) {i : Nat} {v : V}
    (hv : l[i]? = some v) :
    i + 1 ≤ l.countP (key · ≤ key v) ∧ l.length - i ≤ l.countP (key v ≤ key ·) := by
  obtain ⟨hi, rfl⟩ := List.getElem?_eq_some_iff.mp hv
  have hp : ∀ j k (hj : j < l.length) (hk : k < l.length), j ≤ k → key l[j] ≤ key l[k] := by
    intro j k hj hk hle
    rcases Nat.lt_or_eq_of_le hle with hlt | rfl
    · exact pairwise_iff_getElem.mp hs j k hj hk hlt
    · exact le_rfl
  constructor
  · have hle : (l.take (i + 1)).length ≤ l.countP (key · ≤ key l[i]) := by
      refine length_le_countP (take_sublist ..) fun a ha => ?_
      obtain ⟨j, hj, rfl⟩ := mem_iff_getElem.mp ha
      rw [length_take] at hj
      rw [getElem_take, decide_eq_true_eq]
      exact hp j i (by omega) hi (by omega)
    rw [length_take] at hle
    omega
  · have hle : (l.drop i).length ≤ l.countP (key l[i] ≤ key ·) := by
      refine length_le_countP (drop_sublist ..) fun a ha => ?_
      obtain ⟨j, hj, rfl⟩ := mem_iff_getElem.mp ha
      rw [length_drop] at hj
      rw [getElem_drop, decide_eq_true_eq]
      exact hp i (i + j) hi (by omega) (by omega)
    rwa [length_drop] at hle

theorem p50_spec (key : V → κ) (zero : V) {h : Histogram V} (hne : h.observations ≠ []) :
    h.p50 key zero ∈ h.observations ∧
      h.count ≤ 2 * h.observations.countP (key · ≤ key (h.p50 key zero)) ∧
      h.count ≤ 2 * h.observations.countP (key (h.p50 key zero) ≤ key ·) := by
  have hp : (sortByKey key h.observations).Perm h.observations := sortByKey_perm
  have hl := hp.length_eq
  have hpos := length_pos_iff.mpr hne
  generalize hi : min ((h.observations.length + 1) / 2 - 1) (h.observations.length - 1) = i
  obtain ⟨v, hv⟩ : ∃ v, (sortByKey key h.observations)[i]? = some v :=
    ⟨_, getElem?_eq_getElem (by omega)⟩
  have hv' : h.p50 key zero = v := by
    rw [p50, if_neg hne]
    simp only [hl, hi, hv, Option.getD_some]
  obtain ⟨hle, hge⟩ := countP_of_sorted pairwise_sortByKey hv
  rw [hp.countP_eq] at hle hge
  rw [hv', count]
  exact ⟨hp.mem_iff.mp (mem_of_getElem? hv), by omega, by omega⟩

/-- **Histograms.** The bounds are listed in increasing order, each with the number of the observations that are not
above it; the estimate of the median is one of the observations, if there are any. -/
theorem snapshot_spec (boundaries values : List V) (zero : V) :
    let h := recordAll key boundaries values
    h.snapshot = (sortByKey key boundaries).map (fun b => (b, values.countP (key · ≤ key b))) ∧
      (h.snapshot.Pairwise fun a b => key a.1 ≤ key b.1 ∧ a.2 ≤ b.2) ∧ (∀ a ∈ h.snapshot, a.2 ≤ h.count) ∧
      (values ≠ [] → h.p50 key zero ∈ values ∧
        values.length ≤ 2 * values.countP (key · ≤ key (h.p50 key zero)) ∧
        values.length ≤ 2 * values.countP (key (h.p50 key zero) ≤ key ·)) := by
  have hs : (recordAll key boundaries values).snapshot =
      (sortByKey key boundaries).map (fun b => (b, values.countP (key · ≤ key b))) := by
    rw [recordAll_eq, snapshot]
    simpa using zip_map' (f := id) (g := fun b => values.countP (key · ≤ key b)) (l := sortByKey key boundaries)
  have hc : (recordAll key boundaries values).observations = values := by rw [recordAll_eq]
  refine ⟨hs, ?_, ?_, fun hne => ?_⟩
  · rw [hs, pairwise_map]
    refine pairwise_sortByKey.imp fun {a b} hab => ⟨hab, ?_⟩
    refine countP_mono_left fun v _ hv => ?_
    rw [decide_eq_true_eq] at hv ⊢
    exact hv.trans hab
  · rw [hs, count, hc]
    intro x hx
    obtain ⟨b, -, rfl⟩ := mem_map.mp hx
    exact countP_le_length
  · have ho : (recordAll key boundaries values).observations ≠ [] := by rwa [hc]
    have hp := p50_spec key zero ho
    rwa [count, hc] at hp

/-- Of no observations the estimate is zero. -/
theorem p50_not_recorded : (recordAll id [] ([] : List Int)).p50 id 0 ∉ ([] : List Int) := by decide

end Histogram

end ShareCli.Gateway
