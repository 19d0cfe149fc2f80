import ShareCli.Session.Discovery

/-!
# What a scan finds and records

A recipe is the harness, the argument a session id comes after, and the session id.
-/

namespace ShareCli.Session

open Foundation SessionStore List

/-- The process of the surface was started by the recipe. -/
def Runs (surface : SurfaceRecord) (recipe : ResumeRecipe) : Prop :=
  ∃ process, surface.process = some process ∧ process.argv = recipe.argv

def resumingHarness (harness : String) : String :=
  if harness = "cursor" then "cursor-agent" else harness

structure RecipeShape (harness id : String) (session : AgentSession) : Prop where
  harness_eq : session.harness = resumingHarness harness
  sessionId_eq : session.sessionId = id
  executable : ∀ surface, Runs surface session.resume → surfaceHarness surface = some session.harness
  argument : ∃ name, session.resume.argv = [session.harness, name, id] ∧
    sessionArguments session.harness = some [name] ∧ session.harness ≠ name

def IsExecutable (name : String) : Prop :=
  FilePath.fileName name.toList = some name.toList ∧ name.toList.map Char.toLower = name.toList ∧
    name ∈ knownHarnesses
deriving Decidable

theorem surfaceHarness_of_runs {s : SurfaceRecord} {recipe : ResumeRecipe} {exe : String}
    {rs : List String} (hr : Runs s recipe) (ha : recipe.argv = exe :: rs)
    (he : IsExecutable exe) : surfaceHarness s = some exe := by
  obtain ⟨probe, hp, hs⟩ := hr
  obtain ⟨hn, hl, hk⟩ := he
  have hh : probe.argv.head? = some exe := by
    rw [hs, ha]
    rfl
  simp only [surfaceHarness, hp, Option.bind_some, hh, hn, hl, String.ofList_toList]
  rw [if_pos hk]

variable {harness id : String}

theorem recipeShape_withRecipe {asked name : String} (cwd : String) (ha : harness = resumingHarness asked)
    (he : IsExecutable harness) (har : sessionArguments harness = some [name]) (hne : harness ≠ name) :
    RecipeShape asked id (.withRecipe harness id cwd fun id => [harness, name, id]) where
  harness_eq := ha
  sessionId_eq := rfl
  executable _ hr := surfaceHarness_of_runs hr rfl he
  argument := ⟨name, rfl, har, hne⟩

theorem exists_harnessSession (hk : harness ∈ knownHarnesses) (id cwd : String) :
    ∃ s, harnessSession harness id cwd = some s ∧ RecipeShape harness id s := by
  simp only [knownHarnesses, mem_cons, not_mem_nil, or_false] at hk
  rcases hk with rfl | rfl | rfl | rfl | rfl | rfl
  · exact ⟨.forge id cwd, rfl, recipeShape_withRecipe cwd rfl (by decide) rfl (by decide)⟩
  · exact ⟨.codex id cwd, rfl, recipeShape_withRecipe cwd rfl (by decide) rfl (by decide)⟩
  · exact ⟨.opencode id cwd, rfl, recipeShape_withRecipe cwd rfl (by decide) rfl (by decide)⟩
  · exact ⟨.kilo id cwd, rfl, recipeShape_withRecipe cwd rfl (by decide) rfl (by decide)⟩
  · exact ⟨.cursor id cwd, rfl, recipeShape_withRecipe cwd rfl (by decide) rfl (by decide)⟩
  · exact ⟨.cursor id cwd, rfl, recipeShape_withRecipe cwd rfl (by decide) rfl (by decide)⟩

theorem resolve_of_argv {cwd : String} {argv : List String} {s : AgentSession}
    (ha : sessionIdFromArgv harness argv = some id) (hs : harnessSession harness id cwd = some s) :
    (resolve harness cwd argv none none).session = some { s with confidence := .exact } := by
  simp only [resolve, Option.filter_none, ha, recipe, hs]

theorem RecipeShape.sessionIdFromArgv {s : AgentSession} (h : RecipeShape harness id s) (hid : id ≠ "") :
    sessionIdFromArgv s.harness s.resume.argv = some id := by
  obtain ⟨n, ha, har, hne⟩ := h.argument
  simp [Session.sessionIdFromArgv, har, ha, argumentAfter, hne, hid]

theorem resumingHarness_mem (hk : harness ∈ knownHarnesses) : resumingHarness harness ∈ knownHarnesses := by
  unfold resumingHarness
  split
  · decide
  · exact hk

theorem resumingHarness_idem (harness : String) :
    resumingHarness (resumingHarness harness) = resumingHarness harness := by
  by_cases h : harness = "cursor" <;> simp [resumingHarness, h]

/-- A process that runs the recipe of a session is found to be the harness that the recipe starts, with the id of
the session. -/
theorem resume_recipe_round_trip (harness id cwd : String) (surface : SurfaceRecord)
    (hknown : harness ∈ knownHarnesses) (hid : id ≠ "") :
    ∃ session, harnessSession harness id cwd = some session ∧
      session.harness = resumingHarness harness ∧ session.sessionId = id ∧
      (Runs surface session.resume → surfaceHarness surface = some (resumingHarness harness) ∧
          ∃ found, (resolve (resumingHarness harness) (surfaceProcessCwd surface)
              (surfaceProcessArgv surface) none none).session = some found ∧
            found.harness = resumingHarness harness ∧ found.sessionId = id) := by
  obtain ⟨session, hs, hsh⟩ := exists_harnessSession hknown id cwd
  refine ⟨session, hs, hsh.harness_eq, hsh.sessionId_eq, fun hr => ?_⟩
  have he := hsh.executable surface hr
  rw [hsh.harness_eq] at he
  refine ⟨he, ?_⟩
  -- The harness of the process has a recipe of its own, which the resolution returns.
  obtain ⟨agent, ha, hsh'⟩ := exists_harnessSession (resumingHarness_mem hknown) id (surfaceProcessCwd surface)
  have har : surfaceProcessArgv surface = session.resume.argv := by
    obtain ⟨probe, hp, hsm⟩ := hr
    simp [surfaceProcessArgv, hp, hsm]
  have hf : sessionIdFromArgv (resumingHarness harness) (surfaceProcessArgv surface) = some id := by
    rw [har, ← hsh.harness_eq]
    exact hsh.sessionIdFromArgv hid
  refine ⟨_, resolve_of_argv hf ha, ?_, hsh'.sessionId_eq⟩
  rw [← resumingHarness_idem harness]
  exact hsh'.harness_eq

def pane (id : String) (argv : List String) : SurfaceRecord where
  id := id
  terminal := "ghostty"
  title := none
  cwd := "/work"
  process := some { pid := some 42, tty := none, cwd := "/work", argv, startedAt := none }

theorem resume_recipe_round_trip_flag :
    surfaceHarness (pane "pane-1" ["forge", "--conversation-id", "--conversation-id"]) = some "forge" ∧
      ∃ found, (resolve "forge" "/work" ["forge", "--conversation-id", "--conversation-id"]
          none none).session = some found ∧
        found.harness = "forge" ∧ found.sessionId = "--conversation-id" := by
  obtain ⟨session, hs, -, -, hf⟩ :=
    resume_recipe_round_trip "forge" "--conversation-id" "/work"
      (pane "pane-1" ["forge", "--conversation-id", "--conversation-id"]) (by decide) (by decide)
  cases hs
  exact hf ⟨_, rfl, rfl⟩

/-- The recipe of `cursor` starts `cursor-agent`, and this is what is found. -/
theorem cursor_recipe_found_as_cursor_agent : "cursor" ∈ knownHarnesses ∧
      ∃ session, harnessSession "cursor" "chat-1" "/work" = some session ∧
        Runs (pane "pane-1" session.resume.argv) session.resume ∧
        surfaceHarness (pane "pane-1" session.resume.argv) = some "cursor-agent" ∧
        surfaceHarness (pane "pane-1" session.resume.argv) ≠ some "cursor" := by
  have hf : surfaceHarness (pane "pane-1" (AgentSession.cursor "chat-1" "/work").resume.argv) =
      some "cursor-agent" := by decide
  refine ⟨by decide, .cursor "chat-1" "/work", rfl, ⟨_, rfl, rfl⟩, hf, ?_⟩
  rw [hf]
  decide

section Scan

variable (a : SurfaceAdapter) (state : SessionStateProvider)

/-- The state provider does not fail, if it is asked. -/
def stateAnswers (n : Nat) (surface : SurfaceRecord) : Bool :=
  match surfaceHarness surface with
  | none => true
  | some harness => (state.sessionId n surface harness).isOk

def capabilitiesKnown (n : Nat) (surface : SurfaceRecord) : Bool := (a.capabilities n surface).isOk

def resolvingSurfaces (n : Nat) (surfaces : List SurfaceRecord) : List SurfaceRecord :=
  ((surfaces.zipIdx n).filter fun e =>
    capabilitiesKnown a e.2 e.1 && stateAnswers state e.2 e.1).map Prod.fst

def reportedCount (n : Nat) (surfaces : List SurfaceRecord) : Nat :=
  (surfaces.zipIdx n).countP fun e => capabilitiesKnown a e.2 e.1

def SessionStore.HasRoom (store : SessionStore) (n : Nat) : Prop := n = 0 ∨ store.lastSeq + n < 2 ^ 63
deriving Decidable

/-- The report accounts for every surface, and exactly those that can be resolved were appended. -/
def IsolatesFailures (surfaces : List SurfaceRecord) (store : SessionStore)
    (outcome : Except AnyhowError DiscoveryReport × SessionStore) : Prop :=
  ∃ report, outcome.1 = .ok report ∧ report.scanned = report.recorded + report.failures.length ∧
    outcome.2.observations.map SessionObservation.surface =
      store.observations.map SessionObservation.surface ++ resolvingSurfaces a state 0 surfaces

inductive RoundEnd (n : Nat) (surface : SurfaceRecord) (report : DiscoveryReport)
    (store : SessionStore) : Except AnyhowError (DiscoveryReport × SessionStore) → Prop where
  | noted (hunknown : capabilitiesKnown a n surface = false) (failure : DiscoveryFailure) :
      RoundEnd n surface report store
        (.ok ({ report with failures := report.failures ++ [failure] }, store))
  | recorded (hknown : capabilitiesKnown a n surface = true)
      (hanswer : stateAnswers state n surface = true) (hroom : store.lastSeq + 1 < 2 ^ 63)
      (result : DiscoveryResult) (store' : SessionStore) (hseq : store'.lastSeq = store.lastSeq + 1)
      (hrows : store'.observations.map SessionObservation.surface =
        store.observations.map SessionObservation.surface ++ [surface]) :
      RoundEnd n surface report store
        (.ok ({ report with recorded := report.recorded + 1, results := report.results ++ [result] }, store'))
  | givenUp (hknown : capabilitiesKnown a n surface = true)
      (hwhy : stateAnswers state n surface = false ∨ ¬ store.lastSeq + 1 < 2 ^ 63)
      (e : AnyhowError) : RoundEnd n surface report store (.error e)

variable {a state} {n : Nat} {surfaces : List SurfaceRecord}

theorem stateAnswers_iff {s : SurfaceRecord} :
    stateAnswers state n s = true ↔ ∃ r, resolveSurface state n s = .ok r := by
  unfold stateAnswers resolveSurface
  cases surfaceHarness s with
  | none => simp
  | some harness =>
    cases hs : state.sessionId n s harness <;>
      simp [hs, Except.isOk, Except.toBool]

variable (a state) in
theorem scanSurface_end (o : String) (n : Nat) (s : SurfaceRecord)
    (report : DiscoveryReport) (st : SessionStore) :
    RoundEnd a state n s report st
      (scanSurface a state o n s report st) := by
  unfold scanSurface
  cases hc : a.capabilities n s with
  | error e => exact .noted (by simp [capabilitiesKnown, hc, Except.isOk, Except.toBool]) _
  | ok caps =>
    have hk : capabilitiesKnown a n s = true := by
      simp [capabilitiesKnown, hc, Except.isOk, Except.toBool]
    cases hrs : resolveSurface state n s with
    | error e =>
      refine .givenUp hk (.inl ?_) e
      rw [Bool.eq_false_iff, ne_eq, stateAnswers_iff]
      rintro ⟨r, hr⟩
      simp [hrs] at hr
    | ok rs =>
      have ha := stateAnswers_iff.mpr ⟨rs, hrs⟩
      by_cases hrm : st.lastSeq + 1 < 2 ^ 63
      · have hn : ¬ 2 ^ 63 ≤ st.lastSeq + 1 := Int.not_le.mpr hrm
        simp only [appendObservation, if_neg hn]
        exact .recorded hk ha hrm _ _ rfl (by simp)
      · simp only [appendObservation, if_pos (Int.not_lt.mp hrm)]
        exact .givenUp hk (.inr hrm) _

theorem resolvingSurfaces_cons (n : Nat) (s : SurfaceRecord) (surfaces : List SurfaceRecord) :
    resolvingSurfaces a state n (s :: surfaces) =
      (if capabilitiesKnown a n s && stateAnswers state n s then [s]
        else []) ++ resolvingSurfaces a state (n + 1) surfaces := by
  unfold resolvingSurfaces
  rw [zipIdx_cons, filter_cons]
  split <;> simp

theorem reportedCount_cons (n : Nat) (s : SurfaceRecord) (surfaces : List SurfaceRecord) :
    reportedCount a n (s :: surfaces) = reportedCount a (n + 1) surfaces +
        if capabilitiesKnown a n s then 1 else 0 := by
  unfold reportedCount
  rw [zipIdx_cons, countP_cons]

theorem scanSurfaces_ok {o : String} {report report' : DiscoveryReport} {st : SessionStore}
    (h : (scanSurfaces a state o n surfaces report st).1 = .ok report') :
    report'.scanned = report.scanned ∧ report'.recorded + report'.failures.length =
        report.recorded + report.failures.length + surfaces.length ∧
      (scanSurfaces a state o n surfaces report st).2.observations.map SessionObservation.surface =
        st.observations.map SessionObservation.surface ++ resolvingSurfaces a state n surfaces := by
  induction surfaces generalizing n report st with
  | nil =>
    obtain rfl : report = report' := by simpa [scanSurfaces] using h
    simp [scanSurfaces, resolvingSurfaces]
  | cons s surfaces ih =>
    have he := scanSurface_end a state o n s report st
    rw [resolvingSurfaces_cons]
    unfold scanSurfaces at h ⊢
    generalize scanSurface a state o n s report st = outcome at he h ⊢
    cases he with
    | noted hu failure =>
      obtain ⟨hs, hc, hr⟩ := ih h
      refine ⟨hs, ?_, ?_⟩
      · simp only [length_append, length_cons, length_nil] at hc ⊢
        omega
      · simpa [hu] using hr
    | recorded hk ha hrm r st' hsq hr' =>
      obtain ⟨hs, hc, hr⟩ := ih h
      refine ⟨hs, ?_, ?_⟩
      · simp only [length_cons] at hc ⊢
        omega
      · rw [hr', append_assoc] at hr
        simpa [hk, ha] using hr
    | givenUp hk hw e => cases h

theorem scanSurfaces_isOk_iff (o : String) (report : DiscoveryReport) {st : SessionStore} :
    (∃ report', (scanSurfaces a state o n surfaces report st).1 = .ok report') ↔
      (∀ e ∈ surfaces.zipIdx n, capabilitiesKnown a e.2 e.1 = true → stateAnswers state e.2 e.1 = true) ∧
      st.HasRoom (reportedCount a n surfaces) := by
  induction surfaces generalizing n report st with
  | nil => simp [scanSurfaces, HasRoom, reportedCount]
  | cons s surfaces ih =>
    have he := scanSurface_end a state o n s report st
    rw [reportedCount_cons, zipIdx_cons, forall_mem_cons]
    unfold scanSurfaces
    generalize scanSurface a state o n s report st = outcome at he ⊢
    cases he with
    | noted hu failure =>
      rw [ih]
      simp [hu]
    | recorded hk ha hrm r st' hsq hr =>
      rw [ih]
      have hm : st'.HasRoom (reportedCount a (n + 1) surfaces) ↔
          st.HasRoom (reportedCount a (n + 1) surfaces + 1) := by
        unfold HasRoom
        rw [hsq]
        omega
      simp [hk, ha, hm]
    | givenUp hk hw e =>
      simp only [hk, if_true, reduceCtorEq, exists_false, false_iff, not_and]
      intro hal hf
      rcases hw with hs | hrm
      · simp [hal.1 trivial] at hs
      · unfold HasRoom at hf
        omega

/-- Failures are isolated exactly if the state provider does not fail on a surface whose capabilities are known. -/
theorem scan_isolates_failures (adapter : SurfaceAdapter) (state : SessionStateProvider)
    (surfaces : List SurfaceRecord) (store : SessionStore) (observedAt : String)
    (hobserved : Text.trim observedAt.toList ≠ []) (hdiscover : adapter.discover = .ok surfaces) :
    IsolatesFailures adapter state surfaces store (scanAndRecord adapter state store observedAt) ↔
      (∀ e ∈ surfaces.zipIdx, capabilitiesKnown adapter e.2 e.1 = true → stateAnswers state e.2 e.1 = true) ∧
      store.HasRoom (reportedCount adapter 0 surfaces) := by
  simp only [scanAndRecord, if_neg hobserved, hdiscover]
  rw [← scanSurfaces_isOk_iff observedAt]
  constructor
  · rintro ⟨report, hr, -⟩
    exact ⟨report, hr⟩
  · rintro ⟨report, hr⟩
    obtain ⟨hs, hc, hrw⟩ := scanSurfaces_ok hr
    refine ⟨report, hr, ?_, hrw⟩
    rw [hs, hc]
    simp

end Scan

def twoPanes : List SurfaceRecord := [pane "pane-1" ["codex"], pane "pane-2" ["codex"]]

def twoPanesAdapter (failing : Nat) : SurfaceAdapter where
  discover := .ok twoPanes
  capabilities n _ :=
    if n < failing then .error (.msg "pane is gone")
    else .ok { read := true, write := true, resize := true, layout := false, durablePty := false }

theorem scan_isolates_adapter_failure : Text.trim "2026-07-31T00:00:00Z".toList ≠ [] ∧
      IsolatesFailures (twoPanesAdapter 1) noStateProvider twoPanes .openMemory
        (scanAndRecord (twoPanesAdapter 1) noStateProvider .openMemory "2026-07-31T00:00:00Z") :=
  ⟨by decide, (scan_isolates_failures _ _ _ _ _ (by decide) rfl).mpr (by decide)⟩

def brokenState : SessionStateProvider where
  sessionId n _ _ := if n = 0 then .error (.msg "invalid JSON") else .ok none

/-- A state provider that fails on the first pane ends the scan. -/
theorem state_failure_ends_scan :
    resolvingSurfaces (twoPanesAdapter 0) brokenState 0 twoPanes = [pane "pane-2" ["codex"]] ∧
      (scanAndRecord (twoPanesAdapter 0) brokenState .openMemory "2026-07-31T00:00:00Z").1 =
        .error { contexts := ["read session state for surface pane-1"], cause := "invalid JSON" } ∧
      (scanAndRecord (twoPanesAdapter 0) brokenState .openMemory "2026-07-31T00:00:00Z").2.observations = [] ∧
      ¬ IsolatesFailures (twoPanesAdapter 0) brokenState twoPanes .openMemory
        (scanAndRecord (twoPanesAdapter 0) brokenState .openMemory "2026-07-31T00:00:00Z") := by
  have he : (scanAndRecord (twoPanesAdapter 0) brokenState .openMemory "2026-07-31T00:00:00Z").1 =
      .error { contexts := ["read session state for surface pane-1"], cause := "invalid JSON" } := by
    decide
  refine ⟨by decide, he, by decide, ?_⟩
  rintro ⟨report, hr, -⟩
  rw [he] at hr
  cases hr

end ShareCli.Session
