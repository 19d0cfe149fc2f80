import ShareCli.Foundation.SlidingWindow
import ShareCli.Serve.RateLimit

/-!
# The rate limit over whole histories

The hits that a limiter keeps are the recent ones among all calls it has admitted. `retry_after_secs` is rounded
down, so that it is long enough only for some denials.
-/

namespace ShareCli.Serve

open Foundation Duration List Option

section Call

variable {lim : ServeRateLimit} {now : Int}

inductive Verdicts (lim : ServeRateLimit) (now : Int) : Verdict → ServeRateLimit → Prop where
  | panicked (hmin : now - lim.limiter.window < minInstant) : Verdicts lim now .panicked lim
  | admitted (hmin : minInstant ≤ now - lim.limiter.window)
      (hfew : (recent (lim.limiter.window : Int) now lim.limiter.hits).length < lim.limiter.maxPerWindow) :
      Verdicts lim now .admitted { lim with
        limiter.hits := recent (lim.limiter.window : Int) now lim.limiter.hits ++ [now] }
  | denied (hmin : minInstant ≤ now - lim.limiter.window)
      (hmany : lim.limiter.maxPerWindow ≤ (recent (lim.limiter.window : Int) now lim.limiter.hits).length) :
      Verdicts lim now .denied { lim with
        limiter.hits := recent (lim.limiter.window : Int) now lim.limiter.hits }

theorem tryAcquire_eq (hmin : minInstant ≤ now - lim.limiter.window) : lim.limiter.tryAcquire now =
      let hits := recent (lim.limiter.window : Int) now lim.limiter.hits
      if hits.length < lim.limiter.maxPerWindow then
        some (true, { lim.limiter with hits := hits ++ [now] })
      else some (false, { lim.limiter with hits }) := by
  unfold RateLimiter.tryAcquire checkedCutoff
  rw [if_neg (Int.not_lt.mpr hmin)]
  rfl

theorem verdict_spec (lim : ServeRateLimit) (now : Int) :
    Verdicts lim now (lim.verdict now).1 (lim.verdict now).2 := by
  unfold ServeRateLimit.verdict ServeRateLimit.tryAcquire
  by_cases hmin : now - lim.limiter.window < minInstant
  · have hp : lim.limiter.tryAcquire now = none := by
      rw [RateLimiter.tryAcquire, checkedCutoff, if_pos hmin]
    rw [hp]
    exact .panicked hmin
  · have hmin : minInstant ≤ now - lim.limiter.window := Int.not_lt.mp hmin
    rw [tryAcquire_eq hmin]
    by_cases hf : (recent (lim.limiter.window : Int) now lim.limiter.hits).length
        < lim.limiter.maxPerWindow
    · simp only [hf, if_true, map_some]
      exact .admitted hmin hf
    · simp only [hf, if_false, map_some]
      exact .denied hmin (Nat.not_lt.mp hf)

theorem verdict_eq_admitted_iff (hmin : minInstant ≤ now - lim.limiter.window) :
    (lim.verdict now).1 = .admitted ↔ (recent (lim.limiter.window : Int) now lim.limiter.hits).length
        < lim.limiter.maxPerWindow := by
  have hs := verdict_spec lim now
  generalize lim.verdict now = result at hs
  obtain ⟨v, limit'⟩ := result
  cases hs with
  | panicked hp => exact absurd hp (Int.not_lt.mpr hmin)
  | admitted _ hf => exact ⟨fun _ => hf, fun _ => rfl⟩
  | denied _ hm =>
    constructor
    · intro h
      cases h
    · intro h
      exact absurd h (Nat.not_lt.mpr hm)

end Call

section History

variable {maxPerWindow window : Nat} {run : LimitRun}

theorem admittedTimes_admitted (calls : List Call) (now : Int) :
    admittedTimes (calls ++ [⟨now, .admitted⟩]) = admittedTimes calls ++ [now] := by
  simp [admittedTimes]

theorem admittedTimes_refused (calls : List Call) (now : Int) (v : Verdict) (h : v ≠ .admitted) :
    admittedTimes (calls ++ [⟨now, v⟩]) = admittedTimes calls := by
  simp [admittedTimes, h]

variable {calls : List Call} {now : Int}

theorem le_of_mem_admittedTimes {t : Int} (hle : ∀ c ∈ calls, c.time ≤ now) (h : t ∈ admittedTimes calls) :
    t ≤ now := by
  obtain ⟨c, hc, rfl⟩ := mem_map.mp h
  exact hle c (mem_of_mem_filter hc)

structure Accounted (maxPerWindow window : Nat) (run : LimitRun) : Prop where
  max_eq : run.limit.limiter.maxPerWindow = maxPerWindow
  window_eq : run.limit.limiter.window = window
  kept : ∀ now : Int, (∀ call ∈ run.calls, call.time ≤ now) →
    recent (window : Int) now run.limit.limiter.hits = recent (window : Int) now (admittedTimes run.calls)
  paced : Paced maxPerWindow (window : Int) (admittedTimes run.calls)
  denied : ∀ (before : List Call) (call : Call) (after : List Call), run.calls = before ++ call :: after →
    call.verdict = .denied →
    ((admittedTimes before).filter fun t => call.time - window < t ∧ t ≤ call.time).length = maxPerWindow

theorem append_singleton_cases {b a : List Call} {l c : Call} (h : calls ++ [l] = b ++ c :: a) :
    (∃ a', calls = b ++ c :: a') ∨ (calls = b ∧ l = c) := by
  rcases eq_nil_or_concat a with rfl | ⟨a', x, rfl⟩
  · obtain ⟨rfl, hl⟩ := append_inj' h rfl
    exact .inr ⟨rfl, cons.inj hl |>.1⟩
  · have ha : b ++ c :: (a' ++ [x]) = (b ++ c :: a') ++ [x] := by simp
    rw [concat_eq_append, ha] at h
    exact .inl ⟨a', (append_inj' h rfl).1⟩

theorem call_spec {run' : LimitRun} {v : Verdict} (hc : run.call now = some (v, run')) :
    (∀ c ∈ run.calls, c.time ≤ now) ∧ Verdicts run.limit now v run'.limit ∧
      run'.calls = run.calls ++ [⟨now, v⟩] := by
  obtain ⟨hg, hr⟩ := ite_none_right_eq_some.mp hc
  cases hr
  exact ⟨fun c hm => of_decide_eq_true (all_eq_true.mp hg c hm), verdict_spec run.limit now, rfl⟩

theorem window_eq_recent (hle : ∀ c ∈ calls, c.time ≤ now) :
    ((admittedTimes calls).filter fun t => now - window < t ∧ t ≤ now) =
      recent (window : Int) now (admittedTimes calls) := by
  refine filter_congr ?_
  intro t ht
  simp [le_of_mem_admittedTimes hle ht]

theorem Accounted.length_recent_le (h : Accounted maxPerWindow window run)
    (hle : ∀ c ∈ run.calls, c.time ≤ now) :
    (recent (window : Int) now (admittedTimes run.calls)).length ≤ maxPerWindow := by
  have hf := h.paced.length_interval_le_right (now - window)
  rw [sub_add_cancel, window_eq_recent hle] at hf
  exact hf

theorem Accounted.full (h : Accounted maxPerWindow window run) (hle : ∀ c ∈ run.calls, c.time ≤ now)
    (hm : maxPerWindow ≤ (recent (window : Int) now run.limit.limiter.hits).length) :
    ((admittedTimes run.calls).filter fun t => now - window < t ∧ t ≤ now).length = maxPerWindow := by
  rw [window_eq_recent hle]
  refine Nat.le_antisymm (h.length_recent_le hle) ?_
  rw [← h.kept now hle]
  exact hm

theorem Accounted.step {run' : LimitRun} {v : Verdict} (h : Accounted maxPerWindow window run)
    (hc : run.call now = some (v, run')) :
    Accounted maxPerWindow window run' := by
  obtain ⟨hle, hv, hcl⟩ := call_spec hc
  obtain ⟨lim', calls'⟩ := run'
  subst hcl
  have he : ∀ {later : Int}, (∀ c ∈ run.calls ++ [⟨now, v⟩], c.time ≤ later) →
      (∀ c ∈ run.calls, c.time ≤ later) ∧ now ≤ later := fun hl =>
    ⟨fun c hme => hl c (mem_append_left _ hme),
      hl ⟨now, v⟩ (mem_append_right _ mem_cons_self)⟩
  have hd : (v = .denied → maxPerWindow ≤ (recent (window : Int) now run.limit.limiter.hits).length) →
      ∀ (b : List Call) (c : Call) (a : List Call), run.calls ++ [⟨now, v⟩] = b ++ c :: a →
        c.verdict = .denied →
        ((admittedTimes b).filter fun t => c.time - window < t ∧ t ≤ c.time).length = maxPerWindow := by
    intro hls b c a hs hc
    rcases append_singleton_cases hs with ⟨a', hs⟩ | ⟨rfl, rfl⟩
    · exact h.denied b c a' hs hc
    · exact h.full hle (hls hc)
  cases hv with
  | panicked _ =>
    have htm := admittedTimes_refused run.calls now .panicked (by decide)
    refine ⟨h.max_eq, h.window_eq, ?_, htm ▸ h.paced, hd (by intro h; cases h)⟩
    intro later hl
    rw [htm]
    exact h.kept later (he hl).1
  | admitted _ hf =>
    have htm := admittedTimes_admitted run.calls now
    rw [h.window_eq, h.max_eq, h.kept now hle] at hf
    refine ⟨h.max_eq, h.window_eq, ?_, ?_, hd (by intro h; cases h)⟩
    · intro later hl
      rw [htm, h.window_eq, recent_append, recent_append, recent_recent (he hl).2, h.kept later (he hl).1]
    · rw [htm]
      exact .snoc h.paced (fun t ht => le_of_mem_admittedTimes hle ht) hf
  | denied _ hm =>
    have htm := admittedTimes_refused run.calls now .denied (by decide)
    rw [h.window_eq, h.max_eq] at hm
    refine ⟨h.max_eq, h.window_eq, ?_, htm ▸ h.paced, hd fun _ => hm⟩
    intro later hl
    rw [htm, h.window_eq, recent_recent (he hl).2]
    exact h.kept later (he hl).1

theorem accounted (h : (limitMachine maxPerWindow window).Reachable run) :
    Accounted maxPerWindow window run := by
  refine Machine.invariant (M := limitMachine maxPerWindow window) ?_ ?_ h
  · exact ⟨rfl, rfl, fun _ _ => rfl, .nil, fun b c a h => by simp [limitMachine] at h⟩
  · intro run now run' hr hstep
    obtain ⟨⟨v, run''⟩, hc, rfl⟩ := map_eq_some_iff.mp hstep
    exact hr.step hc

/-- Every interval of the length of the window has at most as many admitted calls as the limit says, and a call is
denied only when as many were admitted in the window that ends with it. -/
theorem sliding_window (h : (limitMachine maxPerWindow window).Reachable run) : (∀ start : Int,
      ((admittedTimes run.calls).filter fun t => start ≤ t ∧ t < start + window).length ≤ maxPerWindow ∧
      ((admittedTimes run.calls).filter fun t => start < t ∧ t ≤ start + window).length ≤ maxPerWindow) ∧
    ∀ (before : List Call) (call : Call) (after : List Call), run.calls = before ++ call :: after →
      call.verdict = .denied →
      ((admittedTimes before).filter fun t => call.time - window < t ∧ t ≤ call.time).length
        = maxPerWindow := by
  have hr := accounted h
  refine ⟨?_, hr.denied⟩
  intro start
  exact ⟨hr.paced.length_interval_le start, hr.paced.length_interval_le_right start⟩

theorem sliding_window_one_denied : ∃ run, (limitMachine 1 10).Reachable run ∧
      run.calls = [⟨0, .admitted⟩, ⟨9, .denied⟩, ⟨10, .admitted⟩] ∧
      ((admittedTimes [⟨0, .admitted⟩]).filter fun t => (9 : Int) - (10 : Nat) < t ∧ t ≤ 9).length = 1 :=
  Machine.exists_reachable_and [0, 9, 10] (by decide +kernel)
    fun _ hr hcl => (sliding_window hr).2 [⟨0, .admitted⟩] ⟨9, .denied⟩ _ hcl rfl

end History

section Retry

variable {maxPerWindow window : Nat} {run : LimitRun} {denied later : Int}

/-- The limiter just after it has denied a call: it has pruned its hits, and is full. -/
structure Saturated (maxPerWindow window : Nat) (run : LimitRun) (denied : Int) : Prop where
  max_eq : run.limit.limiter.maxPerWindow = maxPerWindow
  window_eq : run.limit.limiter.window = window
  calls_le : ∀ call ∈ run.calls, call.time ≤ denied
  hits_eq : run.limit.limiter.hits = recent (window : Int) denied (admittedTimes run.calls)
  hits_le : ∀ t ∈ run.limit.limiter.hits, t ≤ denied
  full : run.limit.limiter.hits.length = maxPerWindow
  hmin : minInstant ≤ denied - window

theorem exists_call_of_last (h : (limitMachine maxPerWindow window).Reachable run) {l : Call}
    (hl : run.calls.getLast? = some l) :
    ∃ run₀, (limitMachine maxPerWindow window).Reachable run₀ ∧
      run₀.call l.time = some (l.verdict, run) := by
  cases h with
  | init => simp [limitMachine] at hl
  | @step run₀ _ now hr _ hs =>
    obtain ⟨⟨v, run'⟩, hc, rfl⟩ := map_eq_some_iff.mp hs
    have hcl := (call_spec hc).2.2
    rw [hcl, getLast?_concat] at hl
    cases hl
    exact ⟨run₀, hr, hc⟩

theorem saturated_of_denied (h : (limitMachine maxPerWindow window).Reachable run)
    (hl : run.calls.getLast? = some ⟨denied, .denied⟩) : Saturated maxPerWindow window run denied := by
  obtain ⟨run₀, hr, hc⟩ := exists_call_of_last h hl
  have hrn₀ := accounted hr
  obtain ⟨hle, hv, hcl⟩ := call_spec hc
  have htm : admittedTimes run.calls = admittedTimes run₀.calls := by
    rw [hcl]
    exact admittedTimes_refused _ _ .denied (by decide)
  have hs : ∀ lim, Verdicts run₀.limit denied .denied lim →
      lim.limiter.hits = recent (window : Int) denied (admittedTimes run.calls) ∧
      maxPerWindow ≤ lim.limiter.hits.length ∧ minInstant ≤ denied - window := by
    intro lim hv
    cases hv with
    | denied hmin hm =>
      rw [htm, ← hrn₀.kept denied hle, ← hrn₀.window_eq, ← hrn₀.max_eq]
      exact ⟨rfl, hm, hmin⟩
  obtain ⟨hh, hm, hmin⟩ := hs run.limit hv
  have hcs : ∀ c ∈ run.calls, c.time ≤ denied := by
    rw [hcl]
    intro c hme
    rcases mem_append.mp hme with hme | hme
    · exact hle c hme
    · rw [mem_singleton.mp hme]
  have hhl : ∀ t ∈ run.limit.limiter.hits, t ≤ denied := by
    intro t ht
    rw [hh] at ht
    exact le_of_mem_admittedTimes hcs (mem_of_mem_filter ht)
  have hrn := accounted h
  have hf : run.limit.limiter.hits.length ≤ maxPerWindow := hh ▸ hrn.length_recent_le hcs
  exact ⟨hrn.max_eq, hrn.window_eq, hcs, hh, hhl, Nat.le_antisymm hf hm, hmin⟩

theorem Saturated.admits_iff (h : Saturated maxPerWindow window run denied) {old t : Int}
    (ho : run.limit.limiter.hits.min? = some old) (hle : denied ≤ t) :
    (∃ run', run.call t = some (.admitted, run')) ↔ old + window ≤ t := by
  obtain ⟨hm, hl⟩ := min?_eq_some_iff.mp ho
  have hg : (run.calls.all fun c => c.time ≤ t) = true :=
    all_eq_true.mpr fun c hc => decide_eq_true ((h.calls_le c hc).trans hle)
  have hc : run.call t = some ((run.limit.verdict t).1,
      { limit := (run.limit.verdict t).2, calls := run.calls ++ [⟨t, (run.limit.verdict t).1⟩] }) := by
    rw [LimitRun.call, if_pos hg]
  have hmin : minInstant ≤ t - run.limit.limiter.window := by
    have := h.hmin
    rw [h.window_eq]
    omega
  have hv : (run.limit.verdict t).1 = .admitted ↔ old + window ≤ t := by
    rw [verdict_eq_admitted_iff hmin, h.max_eq, h.window_eq, ← h.full, recent,
      length_filter_lt_length_iff_exists]
    constructor
    · rintro ⟨hit, hh, hold⟩
      have := hl hit hh
      simp only [decide_eq_true_eq] at hold
      omega
    · intro hold
      exact ⟨old, hm, by simp only [decide_eq_true_eq]; omega⟩
  rw [hc, ← hv]
  constructor
  · rintro ⟨run', hr'⟩
    exact congrArg Prod.fst (some_inj.mp hr')
  · intro ha
    rw [ha]
    exact ⟨_, rfl⟩

/-- The time that is left for the oldest hit, in whole seconds but at least one. -/
theorem Saturated.retryAfterSecs_eq (h : Saturated maxPerWindow window run denied) {old : Int}
    (ho : run.limit.limiter.hits.min? = some old) (hle : denied ≤ later) :
    ∃ s, run.limit.retryAfterSecs later = some s ∧ 1 ≤ s ∧
      (later < old + window → s = max (asSecs (old + window - later).toNat) 1) := by
  obtain ⟨hm, hl⟩ := min?_eq_some_iff.mp ho
  have hmin : ¬ later - run.limit.limiter.window < minInstant := by
    have := h.hmin
    rw [h.window_eq]
    omega
  have hf : ¬ run.limit.limiter.hits.length < run.limit.limiter.maxPerWindow := by
    rw [h.max_eq, h.full]
    exact Nat.lt_irrefl maxPerWindow
  unfold ServeRateLimit.retryAfterSecs RateLimiter.retryAfterSecs checkedCutoff
  rw [if_neg hf, if_neg hmin, h.window_eq]
  by_cases hfr : later < old + window
  · -- No hit has expired, so that the oldest one is found.
    have hk : run.limit.limiter.hits.filter (fun t => later - window < t) = run.limit.limiter.hits := by
      refine filter_eq_self.mpr ?_
      intro t ht
      have := hl t ht
      simp only [decide_eq_true_eq]
      omega
    have hlf : window - (later - old).toNat = (old + window - later).toNat := by
      have := h.hits_le old hm
      omega
    simp only [hk, ho, hlf, map_some]
    exact ⟨_, rfl, Nat.le_max_right _ _, fun _ => rfl⟩
  · cases hfn : (run.limit.limiter.hits.filter fun t => later - window < t).min? with
    | none | some t =>
      simp only [hfn, map_some]
      exact ⟨_, rfl, Nat.le_max_right _ _, fun h => absurd h hfr⟩

def RetrySuffices (run : LimitRun) (later : Int) : Prop :=
  ∃ secs, run.limit.retryAfterSecs later = some secs ∧
    ∀ t : Int, later + fromSecs secs ≤ t → ∃ run', run.call t = some (.admitted, run')

/-- Exactly if the oldest admitted call of the window expires within a second or after a whole number of seconds. -/
theorem retry_suffices_iff (hpos : 0 < maxPerWindow) (h : (limitMachine maxPerWindow window).Reachable run)
    (hlast : run.calls.getLast? = some ⟨denied, .denied⟩) (hle : denied ≤ later) :
    RetrySuffices run later ↔ ∀ oldest ∈ (recent (window : Int) denied (admittedTimes run.calls)).min?,
        oldest + window - later ≤ Duration.fromSecs 1 ∨
          (oldest + window - later) % Duration.fromSecs 1 = 0 := by
  have hst := saturated_of_denied h hlast
  rw [← hst.hits_eq]
  cases ho : run.limit.limiter.hits.min? with
  | none =>
    have hf := hst.full
    rw [min?_eq_none_iff.mp ho] at hf
    exact absurd hf (Nat.ne_of_lt hpos)
  | some oldest =>
    obtain ⟨s, hr, hs, hlf⟩ := hst.retryAfterSecs_eq ho hle
    have hsf : RetrySuffices run later ↔ oldest + window ≤ later + fromSecs s := by
      constructor
      · rintro ⟨s', hr', ha⟩
        obtain rfl := some_inj.mp (hr.symm.trans hr')
        exact (hst.admits_iff ho (by omega)).mp (ha _ (Int.le_refl _))
      · intro he
        refine ⟨s, hr, ?_⟩
        intro t ht
        exact (hst.admits_iff ho (by omega)).mpr (he.trans ht)
    rw [hsf]
    simp only [mem_def, some_inj, forall_eq', fromSecs, asSecs] at hlf ⊢
    by_cases hfr : later < oldest + window
    · have := hlf hfr
      omega
    · omega

theorem retry_suffices_whole_seconds : ∃ run, (limitMachine 1 (Duration.fromSecs 60)).Reachable run ∧
      run.calls.getLast? = some ⟨Duration.fromSecs 10, .denied⟩ ∧
      RetrySuffices run (Duration.fromSecs 10) := by
  obtain ⟨run, hr, hcl⟩ : ∃ run, (limitMachine 1 (fromSecs 60)).Reachable run ∧
      run.calls = [⟨0, .admitted⟩, ⟨fromSecs 10, .denied⟩] :=
    Machine.exists_reachable [0, fromSecs 10] (by decide +kernel)
  have hl : run.calls.getLast? = some ⟨fromSecs 10, .denied⟩ := by rw [hcl]; rfl
  refine ⟨run, hr, hl, (retry_suffices_iff (by decide) hr hl (Int.le_refl _)).mpr ?_⟩
  rw [hcl]
  decide +kernel

/-- The call at 0 is admitted and the one half a second later is denied with 59 seconds to wait. -/
theorem rounded_down_denied : ∃ run, (limitMachine 1 (Duration.fromSecs 60)).Reachable run ∧
      run.calls.getLast? = some ⟨Duration.fromMillis 500, .denied⟩ ∧
      ¬ RetrySuffices run (Duration.fromMillis 500) := by
  obtain ⟨run, hrn, hl, hr, hd⟩ : ∃ run, (limitMachine 1 (fromSecs 60)).Reachable run ∧
      run.calls.getLast? = some ⟨fromMillis 500, .denied⟩ ∧
      run.limit.retryAfterSecs (fromMillis 500) = some 59 ∧
      (run.call (fromMillis 500 + fromSecs 59)).map Prod.fst = some .denied :=
    Machine.exists_reachable [0, fromMillis 500] (by decide +kernel)
  refine ⟨run, hrn, hl, ?_⟩
  rintro ⟨s, hs, ha⟩
  obtain rfl := some_inj.mp (hr.symm.trans hs)
  obtain ⟨run', hc⟩ := ha _ (Int.le_refl _)
  rw [hc] at hd
  cases hd

end Retry

end ShareCli.Serve
