import ShareCli.Teamcomm.Listener
import Mathlib.Data.Nat.Count

/-!
# When pending connections are accepted

A turn of the accept loop calls `accept` only if there is nothing to see on the two shutdown channels. A
channel whose senders are gone always has something to see, namely an error.
-/

namespace ShareCli.Teamcomm

open Foundation AcceptLoop Watch List

/-- Neither of the first two arms of `select!` is taken. -/
def AcceptLoop.Quiet (s : AcceptLoop) : Prop := s.shutdown.ready = false ∧ s.signal.ready = false

namespace Channels

def NeverTrue (c : Channels) : Prop := ∀ n, .send true ∉ c.shutdown n ∧ .send true ∉ c.signal n

/-- No sender has been dropped, nothing has just been sent on the external channel, and since the last value on the
signal channel there was a turn with nothing on the external one. -/
structure Quiet (c : Channels) (n : Nat) : Prop where
  kept : ∀ i ≤ n, .drop ∉ c.shutdown i ∧ .drop ∉ c.signal i
  shutdown : c.shutdown n = []
  signal : ∀ j ≤ n, c.signal j ≠ [] → ∃ i, j ≤ i ∧ i < n ∧ c.shutdown i = []

def EveryAccepted (c : Channels) : Prop :=
  ∀ (counts : Nat → Nat) (f : Nat → Bool), (∀ k, ∃ j ≥ k, f j = false) →
    ∀ n k, k < (acceptRun c counts f n).arrived → ∃ m ≥ n, k < (acceptRun c counts f m).accepted

end Channels

namespace AcceptLoop

variable {s : AcceptLoop} (f : Nat → Bool)

structure Alive (s : AcceptLoop) : Prop where
  running : s.running = true
  shutdown : s.shutdown.value = false
  signal : s.signal.value = false

theorem select_of_quiet (h : s.Quiet) : s.select f =
      if s.accepted < s.arrived then
        { s with accepted := if f s.calls then s.accepted else s.accepted + 1, calls := s.calls + 1 }
      else s := by
  simp only [select, changed_of_not_ready h.1, changed_of_not_ready h.2]

theorem select_of_not_quiet (h : ¬ s.Quiet) :
    (∃ seen, s.shutdown.ready = true ∧ seen = { s.shutdown with seen := s.shutdown.version } ∧
        s.select f = { s with shutdown := seen, running := !seen.value }) ∨
      ∃ seen, s.shutdown.ready = false ∧ s.signal.ready = true ∧
        seen = { s.signal with seen := s.signal.version } ∧
        s.select f = { s with signal := seen, running := !seen.value } := by
  cases hs : s.shutdown.ready with
  | true =>
    obtain ⟨change, hc⟩ := changed_of_ready hs
    exact .inl ⟨_, rfl, rfl, by simp only [select, hc]⟩
  | false =>
    have hsg : s.signal.ready = true := by
      by_contra hn
      exact h ⟨hs, Bool.not_eq_true _ ▸ hn⟩
    obtain ⟨change, hc⟩ := changed_of_ready hsg
    exact .inr ⟨_, rfl, hsg, rfl, by
      simp only [select, changed_of_not_ready hs, hc]⟩

theorem Alive.turn_eq (h : s.Alive) : s.turn f = s.select f := if_pos h.running

theorem Alive.turn (h : s.Alive) : (s.turn f).Alive := by
  rw [h.turn_eq f]
  by_cases hq : s.Quiet
  · rw [select_of_quiet f hq]
    split
    · exact ⟨h.running, h.shutdown, h.signal⟩
    · exact h
  · rcases select_of_not_quiet f hq with
      ⟨shutdown, -, rfl, heq⟩ | ⟨signal, -, -, rfl, heq⟩
    · rw [heq]
      exact ⟨by simp [h.shutdown], h.shutdown, h.signal⟩
    · rw [heq]
      exact ⟨by simp [h.signal], h.shutdown, h.signal⟩

theorem Alive.deliver (h : s.Alive) {sends signals : List (WatchOp Bool)}
    (hs : .send true ∉ sends) (hsg : .send true ∉ signals) (k : Nat) :
    (s.deliver sends signals k).Alive := by
  have hf : ∀ {ops : List (WatchOp Bool)}, .send true ∉ ops → ∀ v, WatchOp.send v ∈ ops → v = false := by
    intro ops ho v hv
    cases v with
    | false => rfl
    | true => exact absurd hv ho
  exact ⟨h.running, value_foldl (P := (· = false)) h.shutdown (hf hs),
    value_foldl (P := (· = false)) h.signal (hf hsg)⟩

theorem turn_closed :
    (s.turn f).shutdown.closed = s.shutdown.closed ∧ (s.turn f).signal.closed = s.signal.closed := by
  unfold turn
  split
  · by_cases hq : s.Quiet
    · rw [select_of_quiet f hq]
      split <;> exact ⟨rfl, rfl⟩
    · rcases select_of_not_quiet f hq with ⟨_, -, rfl, heq⟩ | ⟨_, -, -, rfl, heq⟩ <;>
        rw [heq] <;> exact ⟨rfl, rfl⟩
  · exact ⟨rfl, rfl⟩

theorem turn_live (h : s.Alive) (hs : s.shutdown.Live) (hsg : s.signal.Live) :
    (s.turn f).shutdown.Live ∧ (s.turn f).signal.Live ∧ (s.turn f).shutdown.ready = false ∧
      ((s.turn f).signal.ready = true ↔ s.shutdown.ready = true ∧ s.signal.ready = true) := by
  rw [h.turn_eq f]
  by_cases hq : s.Quiet
  · have hsm : (s.select f).shutdown = s.shutdown ∧ (s.select f).signal = s.signal := by
      rw [select_of_quiet f hq]
      split <;> exact ⟨rfl, rfl⟩
    rw [hsm.1, hsm.2]
    exact ⟨hs, hsg, hq.1, by simp [hq.2]⟩
  · rcases select_of_not_quiet f hq with ⟨_, hr, rfl, heq⟩ | ⟨_, hw, -, rfl, heq⟩
    · rw [heq]
      exact ⟨hs.see.1, hsg, hs.see.2, by simp [hr]⟩
    · rw [heq]
      exact ⟨hs, hsg.see.1, hw, by simp [hw, hsg.see.2]⟩

theorem turn_of_not_quiet (h : s.Alive) (hq : ¬ s.Quiet) :
    (s.turn f).arrived = s.arrived ∧ (s.turn f).accepted = s.accepted := by
  rw [h.turn_eq f]
  rcases select_of_not_quiet f hq with ⟨_, -, -, heq⟩ | ⟨_, -, -, -, heq⟩ <;>
    exact ⟨by rw [heq], by rw [heq]⟩

theorem turn_bounds (hle : s.accepted ≤ s.arrived) :
    (s.turn f).arrived = s.arrived ∧ s.accepted ≤ (s.turn f).accepted ∧
      s.calls ≤ (s.turn f).calls ∧ (s.turn f).accepted ≤ s.arrived := by
  unfold turn
  split
  · by_cases hq : s.Quiet
    · rw [select_of_quiet f hq]
      split
      · dsimp only
        split <;> omega
      · omega
    · rcases select_of_not_quiet f hq with ⟨_, -, -, heq⟩ | ⟨_, -, -, -, heq⟩ <;>
        rw [heq] <;> exact ⟨rfl, le_rfl, le_rfl, hle⟩
  · omega

theorem turn_count (h : s.accepted = Nat.count (fun i => f i = false) s.calls) :
    (s.turn f).accepted = Nat.count (fun i => f i = false) (s.turn f).calls := by
  unfold turn
  split
  · by_cases hq : s.Quiet
    · rw [select_of_quiet f hq]
      split
      · rw [Nat.count_succ, ← h]
        cases f s.calls <;> simp
      · exact h
    · rcases select_of_not_quiet f hq with ⟨_, -, -, heq⟩ | ⟨_, -, -, -, heq⟩ <;>
        rw [heq] <;> exact h
  · exact h

theorem turn_calls (h : s.Alive) (hq : s.Quiet) (hp : s.accepted < s.arrived) :
    (s.turn f).calls = s.calls + 1 := by
  rw [h.turn_eq f, select_of_quiet f hq, if_pos hp]

end AcceptLoop

section Runs

variable {c : Channels} (counts : Nat → Nat) (f : Nat → Bool)

theorem alive_acceptRun (h : c.NeverTrue) (n : Nat) : (acceptRun c counts f n).Alive := by
  induction n with
  | zero => exact Alive.deliver ⟨rfl, rfl, rfl⟩ (h 0).1 (h 0).2 _
  | succ n ih => exact (ih.turn f).deliver (h (n + 1)).1 (h (n + 1)).2 _

structure Tracks (c : Channels) (n : Nat) (s : AcceptLoop) : Prop where
  shutdown : s.shutdown.Live
  signal : s.signal.Live
  shutdown_ready : s.shutdown.ready = true ↔ c.shutdown n ≠ []
  signal_ready : s.signal.ready = true ↔ ∃ j ≤ n, c.signal j ≠ [] ∧ ∀ i, j ≤ i → i < n → c.shutdown i ≠ []

variable {n : Nat}

theorem tracks_acceptRun (ht : c.NeverTrue) (hk : ∀ i ≤ n, .drop ∉ c.shutdown i ∧ .drop ∉ c.signal i) :
    Tracks c n (acceptRun c counts f n) := by
  induction n with
  | zero =>
    have hn : ({ value := false } : Watch Bool).Live := ⟨rfl, le_rfl⟩
    obtain ⟨hs, hsr⟩ := hn.foldl (hk 0 le_rfl).1
    obtain ⟨hsg, hg⟩ := hn.foldl (hk 0 le_rfl).2
    refine ⟨hs, hsg, hsr.trans (by simp [ready]), hg.trans ?_⟩
    simp [ready]
  | succ n ih =>
    have hb := ih fun i hi => hk i (Nat.le_succ_of_le hi)
    obtain ⟨hs, hsg, hsn, hl⟩ := turn_live f (alive_acceptRun counts f ht n) hb.shutdown hb.signal
    obtain ⟨hs', hsr⟩ := hs.foldl (hk (n + 1) le_rfl).1
    obtain ⟨hsg', hg⟩ := hsg.foldl (hk (n + 1) le_rfl).2
    refine ⟨hs', hsg', hsr.trans (by simp [hsn]), hg.trans ?_⟩
    rw [hl, hb.shutdown_ready, hb.signal_ready]
    constructor
    · rintro (⟨hls, j, hj, hst, hbs⟩ | hst)
      · refine ⟨j, Nat.le_succ_of_le hj, hst, fun i hji hi => ?_⟩
        rcases Nat.lt_succ_iff_lt_or_eq.mp hi with hi | rfl
        · exact hbs i hji hi
        · exact hls
      · exact ⟨n + 1, le_rfl, hst, fun i hi hlt => by omega⟩
    · rintro ⟨j, hj, hst, hbs⟩
      rcases Nat.le_succ_iff.mp hj with hj | rfl
      · exact .inl ⟨hbs n hj (Nat.lt_succ_self n), j, hj, hst,
          fun i hji hi => hbs i hji (Nat.lt_succ_of_lt hi)⟩
      · exact .inr hst

theorem closed_acceptRun {i : Nat} (h : i ≤ n) :
    (.drop ∈ c.shutdown i → (acceptRun c counts f n).shutdown.closed = true) ∧
      (.drop ∈ c.signal i → (acceptRun c counts f n).signal.closed = true) := by
  induction n, h using Nat.le_induction with
  | base => cases i <;> exact ⟨closed_foldl_of_drop, closed_foldl_of_drop⟩
  | succ n _ ih =>
    obtain ⟨hs, hsg⟩ := turn_closed (s := acceptRun c counts f n) f
    exact ⟨fun hd => closed_foldl (hs.trans (ih.1 hd)) _,
      fun hd => closed_foldl (hsg.trans (ih.2 hd)) _⟩

theorem quiet_acceptRun_iff (ht : c.NeverTrue) (n : Nat) : (acceptRun c counts f n).Quiet ↔ c.Quiet n := by
  constructor
  · intro hq
    have hk : ∀ i ≤ n, .drop ∉ c.shutdown i ∧ .drop ∉ c.signal i := by
      intro i hi
      obtain ⟨hs, hsg⟩ := closed_acceptRun (c := c) counts f hi
      refine ⟨fun hd => ?_, fun hd => ?_⟩
      · exact absurd hq.1 (by simp [ready_of_closed (hs hd)])
      · exact absurd hq.2 (by simp [ready_of_closed (hsg hd)])
    have htr := tracks_acceptRun counts f ht hk
    refine ⟨hk, ?_, fun j hj hst => ?_⟩
    · by_contra hst
      simpa [hq.1] using htr.shutdown_ready.mpr hst
    · by_contra hbs
      push Not at hbs
      simpa [hq.2] using htr.signal_ready.mpr ⟨j, hj, hst, hbs⟩
  · intro hq
    have htr := tracks_acceptRun counts f ht hq.kept
    refine ⟨?_, ?_⟩
    · rw [← Bool.not_eq_true, htr.shutdown_ready]
      exact not_not.mpr hq.shutdown
    · rw [← Bool.not_eq_true, htr.signal_ready]
      rintro ⟨j, hj, hst, hbs⟩
      obtain ⟨i, hji, hi, hn⟩ := hq.signal j hj hst
      exact hbs i hji hi hn

theorem accepted_le_arrived (n : Nat) : (acceptRun c counts f n).accepted ≤ (acceptRun c counts f n).arrived := by
  induction n with
  | zero => exact Nat.zero_le _
  | succ n ih =>
    obtain ⟨ha, -, -, hle⟩ := turn_bounds f ih
    show ((acceptRun c counts f n).turn f).accepted ≤ ((acceptRun c counts f n).turn f).arrived + counts (n + 1)
    omega

theorem acceptRun_mono {m : Nat} (h : n ≤ m) :
    (acceptRun c counts f n).arrived ≤ (acceptRun c counts f m).arrived ∧
      (acceptRun c counts f n).accepted ≤ (acceptRun c counts f m).accepted ∧
      (acceptRun c counts f n).calls ≤ (acceptRun c counts f m).calls := by
  induction m, h using Nat.le_induction with
  | base => exact ⟨le_rfl, le_rfl, le_rfl⟩
  | succ m _ ih =>
    obtain ⟨ha, hac, hc, -⟩ := turn_bounds f (accepted_le_arrived (c := c) counts f m)
    refine ⟨ih.1.trans ?_, ih.2.1.trans hac, ih.2.2.trans hc⟩
    show _ ≤ ((acceptRun c counts f m).turn f).arrived + counts (m + 1)
    omega

theorem accepted_eq_count (n : Nat) : (acceptRun c counts f n).accepted =
      Nat.count (fun i => f i = false) (acceptRun c counts f n).calls := by
  induction n with
  | zero => exact (Nat.count_zero _).symm
  | succ n ih => exact turn_count f ih

variable {f}

/-- If some calls succeed after any number of them, any number of calls succeed. -/
theorem exists_lt_count (h : ∀ k, ∃ j ≥ k, f j = false) (k : Nat) :
    ∃ j, k ≤ Nat.count (fun i => f i = false) j := by
  induction k with
  | zero => exact ⟨0, Nat.zero_le _⟩
  | succ k ih =>
    obtain ⟨j, hj⟩ := ih
    obtain ⟨i, hi, hok⟩ := h j
    have hm : Nat.count (fun i => f i = false) j ≤ Nat.count (fun i => f i = false) i :=
      Nat.count_monotone _ hi
    refine ⟨i + 1, ?_⟩
    rw [Nat.count_succ, if_pos hok]
    omega

variable {counts}

/-- As long as a connection stays pending, every quiet turn is a further call of `accept`. -/
theorem exists_calls (ht : c.NeverTrue) (hqt : ∀ n, ∃ m ≥ n, c.Quiet m)
    (hp : ∀ m ≥ n, (acceptRun c counts f m).accepted < (acceptRun c counts f m).arrived)
    (j : Nat) :
    ∃ m ≥ n, j ≤ (acceptRun c counts f m).calls := by
  induction j with
  | zero => exact ⟨n, le_rfl, Nat.zero_le _⟩
  | succ j ih =>
    obtain ⟨m, hm, hj⟩ := ih
    obtain ⟨q, hq, hqt⟩ := hqt m
    have hc := turn_calls f (alive_acceptRun counts f ht q)
      ((quiet_acceptRun_iff counts f ht q).mpr hqt) (hp q (hm.trans hq))
    have hmn := (acceptRun_mono (c := c) counts f hq).2.2
    refine ⟨q + 1, by omega, ?_⟩
    show j + 1 ≤ ((acceptRun c counts f q).turn f).calls
    omega

end Runs

theorem starved {c : Channels} (ht : c.NeverTrue) {n : Nat} (hn : ∀ m ≥ n, ¬ c.Quiet m) :
    ¬ c.EveryAccepted := by
  intro ha
  -- One connection comes before each turn, so that one is always pending.
  have hp : ∀ m, (acceptRun c (fun _ => 1) (fun _ => false) m).accepted <
      (acceptRun c (fun _ => 1) (fun _ => false) m).arrived := by
    intro m
    cases m with
    | zero => exact Nat.one_pos
    | succ m =>
      have hb := turn_bounds (fun _ => false) (accepted_le_arrived (c := c) (fun _ => 1) (fun _ => false) m)
      show ((acceptRun c (fun _ => 1) (fun _ => false) m).turn _).accepted <
        ((acceptRun c (fun _ => 1) (fun _ => false) m).turn _).arrived + 1
      omega
  have hsm : ∀ m ≥ n, (acceptRun c (fun _ => 1) (fun _ => false) m).accepted =
      (acceptRun c (fun _ => 1) (fun _ => false) n).accepted := by
    intro m hm
    induction m, hm using Nat.le_induction with
    | base => rfl
    | succ m hm ih =>
      have htr := turn_of_not_quiet (fun _ => false) (alive_acceptRun _ _ ht m)
        (mt (quiet_acceptRun_iff (fun _ => 1) (fun _ => false) ht m).mp (hn m hm))
      exact htr.2.trans ih
  obtain ⟨m, hm, hac⟩ := ha (fun _ => 1) (fun _ => false) (fun k => ⟨k, le_rfl, rfl⟩) n _ (hp n)
  rw [hsm m hm] at hac
  exact lt_irrefl _ hac

theorem quiet_of_settled {c : Channels} (hk : ∀ n, .drop ∉ c.shutdown n ∧ .drop ∉ c.signal n) {n : Nat}
    (hs : ∀ m > n, c.shutdown m = [] ∧ c.signal m = []) {m : Nat} (hm : n + 2 ≤ m) : c.Quiet m := by
  refine ⟨fun i _ => hk i, (hs m (by omega)).1, fun j _ hst => ⟨n + 1, ?_, by omega, ?_⟩⟩
  · by_contra hl
    exact hst (hs j (by omega)).2
  · exact (hs (n + 1) (by omega)).1

/-- If nobody sends `true`, every pending connection is accepted exactly if there are quiet turns without end. -/
theorem accepted_iff_quiet (c : Channels) (htrue : c.NeverTrue) :
    c.EveryAccepted ↔ ∀ n, ∃ m ≥ n, c.Quiet m := by
  constructor
  · intro hal n
    by_contra hn
    push Not at hn
    exact starved htrue hn hal
  · intro hq counts f hf n k hk
    by_contra hw
    push Not at hw
    have hp : ∀ m ≥ n, (acceptRun c counts f m).accepted < (acceptRun c counts f m).arrived := by
      intro m hm
      have ha := (acceptRun_mono (c := c) counts f hm).1
      have hac := hw m hm
      omega
    obtain ⟨j, hj⟩ := exists_lt_count hf (k + 1)
    obtain ⟨m, hm, hc⟩ := exists_calls htrue hq hp j
    have hcn := accepted_eq_count (c := c) counts f m
    have hmn : Nat.count (fun i => f i = false) j ≤ _ := Nat.count_monotone _ hc
    have hac := hw m hm
    omega

def falseOnce : Channels where
  shutdown := fun n => if n = 0 then [.send false] else []
  signal := fun _ => installSignalHandlers true true false

theorem neverTrue_falseOnce : falseOnce.NeverTrue := by
  intro n
  refine ⟨?_, not_mem_nil⟩
  rcases n with - | n
  · decide
  · exact not_mem_nil

theorem accepted_after_false : falseOnce.EveryAccepted := by
  refine (accepted_iff_quiet falseOnce neverTrue_falseOnce).mpr fun n => ⟨n + 2, by omega, ?_⟩
  refine quiet_of_settled (fun m => ⟨?_, not_mem_nil⟩) (n := 0) ?_ (by omega)
  · rcases m with - | m
    · decide
    · exact not_mem_nil
  · intro m hm
    exact ⟨if_neg (by omega), rfl⟩

/-- The handler of SIGTERM cannot be installed; otherwise nothing happens to the channels. -/
def handlersFailed : Channels where
  shutdown := fun _ => []
  signal := fun n => if n = 0 then installSignalHandlers true false false else []

/-- Without its signal handlers the listener accepts nothing, though nobody asks it to stop. -/
theorem failed_handlers_starve : handlersFailed.NeverTrue ∧ ¬ handlersFailed.EveryAccepted := by
  have ht : handlersFailed.NeverTrue := by
    intro n
    refine ⟨not_mem_nil, ?_⟩
    rcases n with - | n
    · decide
    · exact not_mem_nil
  have hn : ∀ m ≥ 0, ¬ handlersFailed.Quiet m := by
    intro m _ hq
    exact (hq.kept 0 (Nat.zero_le m)).2 (by decide)
  exact ⟨ht, starved ht hn⟩

end ShareCli.Teamcomm
