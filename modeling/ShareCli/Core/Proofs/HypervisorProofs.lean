import ShareCli.Core.Hypervisor
import ShareCli.Core.Proofs.SpeculationProofs
import ShareCli.Ipc.CacheKey

/-!
# What the callers of a hypervisor get

One invariant follows every result from the process that printed it, through the cache and the background tasks,
to the calls that return it. Two facts are read off it. Commands with a mutating flag are not coalesced; and if
what a command prints depends on its arguments, its directory and its environment only, a call returns what its
own command prints.
-/

namespace ShareCli.Core

open Foundation Ipc CoalesceCache Function Option

def SpeculationCandidate.request (cand : SpeculationCandidate) : SpawnRequest := ⟨cand.argv, cand.cwd, cand.env⟩

/-- Who asks for what, which keys are computed for a request, and what its command may print. -/
structure Behavior where
  asks : Caller → SpawnRequest → Prop
  key : SpawnRequest → CommandKey → Prop
  prints : SpawnRequest → CachedResult → Prop

namespace Behavior

variable (B : Behavior)

/-- A command with the key has printed the result. -/
def Explains (key : CommandKey) (result : CachedResult) : Prop :=
  ∃ c req, B.asks c req ∧ B.key req key ∧ B.prints req result

def Answers (req : SpawnRequest) (result : CachedResult) : Prop :=
  B.prints req result ∨ ∃ key, B.key req key ∧ B.Explains key result

/-- The request may be looked up under the key. -/
def Coalesced (h : Hypervisor) (req : SpawnRequest) (key : CommandKey) : Prop :=
  (∃ c, B.asks c req) ∧ B.key req key ∧ hasNocacheArg req.argv h.nocacheArgs = false

def Tracked (h : Hypervisor) (cand : SpeculationCandidate) : Prop := B.Coalesced h cand.request cand.key

def RunAllowed (c : Caller) : RunPc → RunEvent → Prop
  | .idle, .call req => B.asks c req
  | .lookup req, .lookup key _ => B.key req key
  | .slot req, .slot output | .locked req _ _, .exited output =>
    ∀ r, spawnProcessSync req output = some r → B.prints req r
  | _, _ => True

def TaskAllowed : TaskPc → TaskEvent → Prop
  | .executing cand _, .executed output => ∀ r, speculateExecute cand output = some r → B.prints cand.request r
  | _, _ => True

def Allowed (s : HypervisorState) : HypervisorLabel → Prop
  | .tick _ => True
  | .run c event => B.RunAllowed c (s.runs c) event
  | .task h event => B.TaskAllowed (s.tasks h) event

def EntriesSound (entries : Entries) : Prop := ∀ key e, entries key = some e → B.Explains key e.result

def LockSound (key : CommandKey) : LockPc → Prop
  | .acquiring k _ | .recheck k | .debouncing k _ | .missed k | .running k => k = key
  | .storing k cached => k = key ∧ B.Explains key cached
  | .returning _ (.value cached _) | .done (.value cached _) => B.Explains key cached
  | .idle | .returning _ .failed | .done .failed => True

def RunSound (h : Hypervisor) (c : Caller) : RunPc → Prop
  | .idle | .done (.error _) => True
  | .gate req _ _ _ | .capture req _ | .slot req => B.asks c req
  | .lookup req => B.asks c req ∧ hasNocacheArg req.argv h.nocacheArgs = false
  | .mount req key => B.asks c req ∧ B.Coalesced h req key
  | .locked req key pc => (B.asks c req ∧ B.Coalesced h req key) ∧ B.LockSound key pc
  | .recording req key outcome =>
    (B.asks c req ∧ B.Coalesced h req key) ∧ ∃ r, B.Explains key r ∧ outcome = .ofResult r true
  | .done (.ok outcome) =>
    ∃ req r, B.asks c req ∧ B.Answers req r ∧ outcome = .ofResult r outcome.fromCache

def TaskSound (h : Hypervisor) : TaskPc → Prop
  | .sleeping _ | .draining => True
  | .next candidates => ∀ cand ∈ candidates, B.Tracked h cand
  | .executing candidate rest => B.Tracked h candidate ∧ ∀ cand ∈ rest, B.Tracked h cand
  | .storing candidate cached rest => B.Explains candidate.key cached ∧ ∀ cand ∈ rest, B.Tracked h cand

end Behavior

def TracksOnly (P : SpeculationCandidate → Prop) (t : SpeculationTracker) : Prop :=
  ∀ k cand, t.requests.lookup k = some cand → P cand

section Tracker

variable {P : SpeculationCandidate → Prop} {t : SpeculationTracker} {now : Nat}

theorem TracksOnly.recordHit (h : TracksOnly P t) {key : CommandKey} {req : SpawnRequest}
    (hp : P ⟨key, req.argv, req.cwd, req.env⟩) : TracksOnly P (t.recordHit now key req.argv req.cwd req.env) := by
  intro k cand hl
  rw [SpeculationTracker.lookup_requests_recordHit] at hl
  split_ifs at hl
  · cases hr : t.requests.lookup k with
    | none =>
      rw [hr] at hl
      cases hl
      exact hp
    | some cand' =>
      rw [hr] at hl
      cases hl
      exact h k _ hr
  · exact h k cand hl

theorem TracksOnly.drainCandidates (h : TracksOnly P t) :
    TracksOnly P (t.drainCandidates now).1 ∧ ∀ cand ∈ (t.drainCandidates now).2, P cand := by
  obtain ⟨-, hr, -⟩ := SpeculationTracker.foldl_drainKey SpeculationTracker.nodup_scored t []
  constructor
  · intro k cand hl
    rw [SpeculationTracker.drainCandidates, hr k] at hl
    split_ifs at hl
    exact h k cand hl
  · intro cand hm
    rw [SpeculationTracker.drainCandidates_snd] at hm
    obtain ⟨k, -, hl⟩ := List.mem_filterMap.mp hm
    exact h k cand hl

end Tracker

section Steps

variable {B : Behavior} {cache : CoalesceCache} {root root' : CacheRoot} {tracker tracker' : SpeculationTracker}
  {entries : Entries} {now : Nat} {key : CommandKey} {r : CachedResult} {h : Hypervisor} {c : Caller}

theorem explains_of_lookup (he : B.EntriesSound entries) (hl : cache.lookup entries now key = some r) :
    B.Explains key r := by
  unfold CoalesceCache.lookup at hl
  split_ifs at hl
  obtain ⟨e, hk, rfl⟩ := map_eq_some_iff.mp hl
  exact he key e hk

theorem entriesSound_store (he : B.EntriesSound entries) (hr : B.Explains key r) (o : StoreOutcome) :
    B.EntriesSound (cache.store o entries now key r) := by
  unfold CoalesceCache.store
  split
  · intro k e hk
    unfold CoalesceCache.evictStale at hk
    split_ifs at hk
    by_cases hkk : k = key
    · subst hkk
      obtain rfl : _ = e := by simpa using hk
      exact hr
    · exact he k e (by simpa [hkk] using hk)
  · exact he

theorem lockStep_sound {pc pc' : LockPc} {ev : LockEvent} (hs : LockStep cache root c pc ev root' pc')
    (he : B.EntriesSound root.entries) (hpc : B.LockSound key pc) (hcall : ∀ k, ev = .call k → k = key)
    (hfin : ∀ r, ev = .finish (some r) → B.Explains key r) :
    B.EntriesSound root'.entries ∧ B.LockSound key pc' := by
  cases hs with
  | call => exact ⟨he, hcall _ rfl⟩
  | hit hl | debounceHit _ hl =>
    have hk : _ = key := hpc
    subst hk
    exact ⟨he, explains_of_lookup he hl⟩
  | closureNonzero => exact ⟨he, hfin _ rfl⟩
  | closureOk => exact ⟨he, hpc, hfin _ rfl⟩
  | store =>
    obtain ⟨rfl, hr⟩ := hpc
    refine ⟨entriesSound_store he hr _, ?_⟩
    split
    · exact hr
    · trivial
  | @release _ o => cases o <;> exact ⟨he, hpc⟩
  | acquired | blocked | miss | debounce | debounceMiss | start => exact ⟨he, hpc⟩
  | timedOut | recheckFailed | debounceFailed | closureFailed | killHolding | killWaiting => exact ⟨he, trivial⟩

theorem lockEvent_spec {req : SpawnRequest} {ev : RunEvent} {le : LockEvent} (h : ev.lockEvent req = some le) :
    (∀ k, le ≠ .call k) ∧
      ∀ r, le = .finish (some r) → ∃ output, ev = .exited output ∧ spawnProcessSync req output = some r := by
  cases ev with
  | exited u =>
    cases h
    exact ⟨by simp, fun r hr => ⟨u, rfl, LockEvent.finish.inj hr⟩⟩
  | poll | recheck | spawn | store | release | kill =>
    cases h
    exact ⟨by simp, by simp⟩
  | _ => cases h

theorem runSound_afterLock {req : SpawnRequest} {pc : LockPc} (hreq : B.asks c req ∧ B.Coalesced h req key)
    (hpc : B.LockSound key pc) : B.RunSound h c (afterLock req key pc) := by
  unfold afterLock
  split
  · split_ifs
    · exact ⟨hreq, _, hpc, rfl⟩
    · exact ⟨req, _, hreq.1, .inr ⟨key, hreq.2.2.1, hpc⟩, rfl⟩
  · trivial
  · exact ⟨hreq, hpc⟩

theorem runStep_sound {pc pc' : RunPc} {ev : RunEvent}
    (hs : runStep h root tracker c pc ev = some (root', tracker', pc'))
    (ha : B.RunAllowed c pc ev) (he : B.EntriesSound root.entries) (ht : TracksOnly (B.Tracked h) tracker)
    (hpc : B.RunSound h c pc) :
    B.EntriesSound root'.entries ∧ TracksOnly (B.Tracked h) tracker' ∧ B.RunSound h c pc' := by
  unfold runStep at hs
  split at hs
  case h_1 => cases hs; exact ⟨he, ht, ha⟩
  case h_2 req q attempts till d =>
    split_ifs at hs
    cases hs
    refine ⟨he, ht, ?_⟩
    unfold afterGate
    split
    · exact hpc
    · exact hpc
    · split
      · trivial
      · exact hpc
  case h_3 req q =>
    cases hs
    refine ⟨he, ht, ?_⟩
    unfold afterCapture
    split_ifs with hq hn
    · exact hpc
    · exact hpc
    · exact ⟨hpc, by simpa using hn⟩
  case h_4 => cases hs; exact ⟨he, ht, trivial⟩
  case h_5 req u =>
    split at hs <;> cases hs
    · rename_i hr
      exact ⟨he, ht, req, _, hpc, .inl (ha _ hr), rfl⟩
    · exact ⟨he, ht, trivial⟩
  case h_6 req key =>
    obtain ⟨hreq, hn⟩ := hpc
    have hc : B.Coalesced h req key := ⟨⟨c, hreq⟩, ha, hn⟩
    split at hs <;> cases hs
    · rename_i hl
      exact ⟨he, ht, ⟨hreq, hc⟩, _, explains_of_lookup he hl, rfl⟩
    · exact ⟨he, ht, hreq, hc⟩
  case h_7 => cases hs; exact ⟨he, ht, trivial⟩
  case h_8 req key =>
    obtain ⟨⟨root₁, pc₁⟩, hlc, heq⟩ := map_eq_some_iff.mp hs
    cases heq
    obtain ⟨hen, hpc₁⟩ := lockStep_sound (LockStep.of_eq hlc) he trivial
      (fun k hk => (LockEvent.call.inj hk).symm) (by simp)
    exact ⟨hen, ht, runSound_afterLock hpc hpc₁⟩
  case h_9 req key pc =>
    obtain ⟨hreq, hpc⟩ := hpc
    obtain ⟨lockEvent, hev, hm⟩ := bind_eq_some_iff.mp hs
    obtain ⟨⟨root₁, pc₁⟩, hlc, heq⟩ := map_eq_some_iff.mp hm
    cases heq
    obtain ⟨hcall, hfin⟩ := lockEvent_spec hev
    have hx : ∀ r, lockEvent = .finish (some r) → B.Explains key r := by
      intro r hr
      obtain ⟨u, rfl, hsp⟩ := hfin r hr
      exact ⟨c, req, hreq.1, hreq.2.2.1, ha r hsp⟩
    obtain ⟨hen, hpc₁⟩ := lockStep_sound (LockStep.of_eq hlc) he hpc (fun k hk => absurd hk (hcall k)) hx
    exact ⟨hen, ht, runSound_afterLock hreq hpc₁⟩
  case h_10 req key o =>
    obtain ⟨⟨hreq, hc⟩, r, hr, rfl⟩ := hpc
    cases hs
    exact ⟨he, ht.recordHit hc, req, r, hreq, .inr ⟨key, hc.2.1, hr⟩, rfl⟩
  case h_11 => cases hs
  case h_12 => cases hs
  case h_13 => cases hs; exact ⟨he, ht, trivial⟩
  case h_14 => cases hs

theorem speculationStep_sound {pc pc' : TaskPc} {ev : TaskEvent}
    (hs : speculationStep cache root tracker pc ev = some (root', tracker', pc')) (ha : B.TaskAllowed pc ev)
    (he : B.EntriesSound root.entries) (ht : TracksOnly (B.Tracked h) tracker) (hpc : B.TaskSound h pc) :
    B.EntriesSound root'.entries ∧ TracksOnly (B.Tracked h) tracker' ∧ B.TaskSound h pc' := by
  unfold speculationStep at hs
  split at hs
  case h_1 till d =>
    split_ifs at hs
    split at hs <;> cases hs <;> exact ⟨he, ht, trivial⟩
  case h_2 =>
    cases hs
    exact ⟨he, ht.drainCandidates⟩
  case h_3 => cases hs; exact ⟨he, ht, trivial⟩
  case h_4 cand rs ok =>
    obtain ⟨hcd, hrs⟩ := List.forall_mem_cons.mp hpc
    split at hs <;> cases hs
    · exact ⟨he, ht, hcd, hrs⟩
    · exact ⟨he, ht, hrs⟩
  case h_5 cand rs u =>
    obtain ⟨⟨⟨c, hc⟩, hk, -⟩, hrs⟩ := hpc
    split at hs <;> cases hs
    · rename_i r hx
      exact ⟨he, ht, ⟨c, cand.request, hc, hk, ha r hx⟩, hrs⟩
    · exact ⟨he, ht, hrs⟩
  case h_6 cand cached rs o =>
    cases hs
    exact ⟨entriesSound_store he hpc.1 _, ht, hpc.2⟩
  case h_7 => cases hs

end Steps

section Runs

variable {hypervisors : Host → Hypervisor} {host : Caller → Host} {B : Behavior} {s s' : HypervisorState}

structure Sound (hypervisors : Host → Hypervisor) (host : Caller → Host) (B : Behavior) (s : HypervisorState) :
    Prop where
  entries : B.EntriesSound s.root.entries
  runs : ∀ c, B.RunSound (hypervisors (host c)) c (s.runs c)
  trackers : ∀ h, TracksOnly (B.Tracked (hypervisors h)) (s.trackers h)
  tasks : ∀ h, B.TaskSound (hypervisors h) (s.tasks h)

theorem sound_init : Sound hypervisors host B (hypervisorMachine hypervisors host).init where
  entries := by simp [hypervisorMachine, CacheRoot.empty, Behavior.EntriesSound]
  runs _ := trivial
  trackers _ := by simp [hypervisorMachine, TracksOnly, SpeculationTracker.new]
  tasks _ := trivial

theorem Sound.step {l : HypervisorLabel} (hi : Sound hypervisors host B s) (ha : B.Allowed s l)
    (h : (hypervisorMachine hypervisors host).step s l = some s') : Sound hypervisors host B s' := by
  cases l with
  | tick d =>
    cases h
    exact ⟨hi.entries, hi.runs, hi.trackers, hi.tasks⟩
  | run c ev =>
    obtain ⟨⟨root, tracker, pc⟩, hstep, rfl⟩ := map_eq_some_iff.mp h
    obtain ⟨he, ht, hpc⟩ := runStep_sound hstep ha hi.entries (hi.trackers (host c)) (hi.runs c)
    refine ⟨he, ?_, ?_, hi.tasks⟩
    · exact (forall_update_iff s.runs fun c' pc => B.RunSound (hypervisors (host c')) c' pc).mpr
        ⟨hpc, fun c' _ => hi.runs c'⟩
    · exact (forall_update_iff s.trackers fun h' tracker => TracksOnly (B.Tracked (hypervisors h')) tracker).mpr
        ⟨ht, fun h' _ => hi.trackers h'⟩
  | task h' ev =>
    obtain ⟨⟨root, tracker, pc⟩, hstep, rfl⟩ := map_eq_some_iff.mp h
    obtain ⟨he, ht, hpc⟩ := speculationStep_sound hstep ha hi.entries (hi.trackers h') (hi.tasks h')
    refine ⟨he, hi.runs, ?_, ?_⟩
    · exact (forall_update_iff s.trackers fun h' tracker => TracksOnly (B.Tracked (hypervisors h')) tracker).mpr
        ⟨ht, fun h' _ => hi.trackers h'⟩
    · exact (forall_update_iff s.tasks fun h' pc => B.TaskSound (hypervisors h') pc).mpr
        ⟨hpc, fun h' _ => hi.tasks h'⟩

def unconstrained : Behavior := ⟨fun _ _ => True, fun _ _ => True, fun _ _ => True⟩

theorem unconstrained_allowed (s : HypervisorState) (l : HypervisorLabel) : unconstrained.Allowed s l := by
  unfold Behavior.Allowed Behavior.RunAllowed Behavior.TaskAllowed
  split
  · trivial
  · split <;> simp [unconstrained]
  · split <;> simp [unconstrained]

/-- **Mutating commands bypass the cache.** A call that takes the lock of its key, and a command that a background
task pre-executes, have no mutating flag. -/
theorem mutating_commands_bypass (hypervisors : Host → Hypervisor) (host : Caller → Host) {s : HypervisorState}
    (h : (hypervisorMachine hypervisors host).Reachable s) :
    (∀ c req key pc, s.runs c = .locked req key pc →
      hasNocacheArg req.argv (hypervisors (host c)).nocacheArgs = false) ∧
    ∀ host candidate rest, s.tasks host = .executing candidate rest →
      hasNocacheArg candidate.argv (hypervisors host).nocacheArgs = false := by
  have hi : Sound hypervisors host unconstrained s :=
    Machine.invariant sound_init (fun _ l _ hi hs => hi.step (unconstrained_allowed _ l) hs) h
  constructor
  · intro c req key pc hc
    have hr := hi.runs c
    rw [hc] at hr
    exact hr.1.2.2.2
  · intro h' cand rs hc
    have ht := hi.tasks h'
    rw [hc] at ht
    exact ht.1.2.2

theorem mutating_commands_bypass_lint :
    ∃ s, (hypervisorMachine (fun _ => defaultHypervisor) fun _ => 0).Reachable s ∧
      ∃ candidate rest, s.tasks 0 = .executing candidate rest ∧
        hasNocacheArg candidate.argv defaultNocacheArgs = false := by
  have hr := @Machine.reachable_of_run _ _ (hypervisorMachine (fun _ => defaultHypervisor) fun _ => 0) _
    ((replaySchedule 0).take 30) rfl
  exact ⟨_, hr, _, _, rfl, (mutating_commands_bypass _ _ hr).2 0 _ _ rfl⟩

/-! ### Transparency -/

def SpawnRequest.keyed (req : SpawnRequest) : KeyedCommand := ⟨req.argv, req.cwd, req.env⟩

variable (request : Caller → SpawnRequest) (keyOf : SpawnRequest → CommandKey)
  (prints : SpawnRequest → CachedResult)

def deterministic : Behavior :=
  ⟨fun c req => req = request c, fun req key => key = keyOf req, fun req r => r = prints req⟩

/-- The steps in which call `c` is made with `request c`, and a command that ends has printed what it prints, in its
own directory or in a mountpoint over it. -/
def Faithful (s : HypervisorState) : HypervisorLabel → Prop
  | .run c (.call req) => req = request c
  | .run c (.lookup key _) => key = keyOf (request c)
  | .run c (.slot output) | .run c (.exited output) =>
    ∀ r, spawnProcessSync (request c) output = some r → r = prints (request c)
  | .task h event => (deterministic request keyOf prints).TaskAllowed (s.tasks h) event
  | _ => True

variable {request keyOf prints}

theorem allowed_of_faithful {l : HypervisorLabel}
    (hi : Sound hypervisors host (deterministic request keyOf prints) s) (hf : Faithful request keyOf prints s l) :
    (deterministic request keyOf prints).Allowed s l := by
  cases l with
  | tick d => trivial
  | task h ev => exact hf
  | run c ev =>
    have hr := hi.runs c
    show Behavior.RunAllowed _ c (s.runs c) ev
    generalize s.runs c = pc at hr
    unfold Behavior.RunAllowed
    split
    · exact hf
    · obtain ⟨rfl, -⟩ := hr
      exact hf
    · obtain rfl := hr
      exact hf
    · obtain ⟨⟨rfl, -⟩, -⟩ := hr
      exact hf
    · trivial

theorem returned_prints
    (hsame : ∀ c c', keyOf (request c) = keyOf (request c') → prints (request c) = prints (request c'))
    (h : (hypervisorMachine hypervisors host).ReachableWhen (Faithful request keyOf prints) s) {c : Caller}
    {outcome : SpawnOutcome} (hd : s.runs c = .done (.ok outcome)) :
    outcome = .ofResult (prints (request c)) outcome.fromCache := by
  have hi : Sound hypervisors host (deterministic request keyOf prints) s :=
    Machine.invariantWhen sound_init (fun _ _ _ hi hf hs => hi.step (allowed_of_faithful hi hf) hs) h
  have hr := hi.runs c
  rw [hd] at hr
  obtain ⟨req, r, rfl, hr, ho⟩ := hr
  rw [ho]
  congr 1
  rcases hr with hr | ⟨key, hk, c', req', rfl, hk', hr⟩
  · exact hr
  · exact hr.trans (hsame c' c (hk'.symm.trans hk))

/-- **Coalescing is transparent.** If what a command prints depends on its arguments, its directory and its
environment only, and not on an intercept mount over the directory, every call that returns a result returns what
its own command prints, whichever process of whichever call or background task has printed it. -/
theorem coalescing_transparent (hypervisors : Host → Hypervisor) (host : Caller → Host)
    (request : Caller → SpawnRequest) {sha256 : List UInt8 → List UInt8} (hsha : Function.Injective sha256)
    (git : String → GitOutputs) (prints : SpawnRequest → CachedResult)
    (hrequest : ∀ c, (request c).keyed.NulFree ∧ (request c).keyed.Unambiguous)
    (hprints : ∀ c c', (request c).argv = (request c').argv → (request c).cwd = (request c').cwd →
      effectiveEnv (request c).env = effectiveEnv (request c').env → prints (request c) = prints (request c'))
    {s : HypervisorState} (h : (hypervisorMachine hypervisors host).ReachableWhen
      (Faithful request (fun req => commandKey sha256 git req.keyed) prints) s)
    (c : Caller) (outcome : SpawnOutcome) (hdone : s.runs c = .done (.ok outcome)) :
    outcome = .ofResult (prints (request c)) outcome.fromCache := by
  refine returned_prints ?_ h hdone
  intro c c' hk
  obtain ⟨hn, hu⟩ := hrequest c
  obtain ⟨hn', hu'⟩ := hrequest c'
  have ht := (key_eq_iff hsha (hasherInput_time git _) (hasherInput_time git _)).mp hk
  obtain ⟨ha, hcw, hev⟩ := timeText_inj hn hn' hu hu' ht
  exact hprints c c' ha hcw (effectiveEnv_eq_of_sortedEnv_eq hev)

def lint : SpawnRequest := ⟨["lint"], "/", []⟩

def lintKey : CommandKey := commandKey id (fun _ => ⟨none, none⟩) lint.keyed

/-- Call 0 runs the command, and call 1 finds its result. -/
def sharedRun : List HypervisorLabel :=
  ([.call lint, .gate .allow, .capture true, .lookup lintKey true, .mount, .poll, .recheck true, .spawn,
      .exited (some ⟨some 0, [7], []⟩), .store .complete, .release] : List RunEvent).map (.run 0) ++
    ([.call lint, .gate .allow, .capture true, .lookup lintKey true, .record] : List RunEvent).map (.run 1)

def RunPc.returns (outcome : SpawnOutcome) : RunPc → Bool
  | .done (.ok o) => o = outcome
  | _ => false

theorem coalescing_transparent_lint :
    let M := hypervisorMachine (fun _ => defaultHypervisor) fun _ => 0
    ∃ s outcome, M.run M.init sharedRun = some s ∧ s.runs 1 = .done (.ok outcome) ∧
      outcome = .ofResult ⟨0, [7], []⟩ outcome.fromCache := by
  intro M
  obtain ⟨s, hrun, hp⟩ : ∃ s, M.run M.init sharedRun = some s ∧ (s.runs 1).returns ⟨0, [7], [], true⟩ :=
    Machine.exists_run (by decide +kernel)
  have hls : ∀ l ∈ sharedRun, ∀ s, Faithful (fun _ => lint)
      (fun req => commandKey id (fun _ => ⟨none, none⟩) req.keyed) (fun _ => ⟨0, [7], []⟩) s l := by
    simp [sharedRun, Faithful, spawnProcessSync, captureOutput, lint, lintKey]
  have hq : lint.keyed.NulFree ∧ lint.keyed.Unambiguous :=
    ⟨⟨by decide, by decide, by decide⟩, ⟨by decide, by decide, by decide⟩⟩
  unfold RunPc.returns at hp
  split at hp
  · rename_i o hd
    exact ⟨s, o, hrun, hd, coalescing_transparent _ _ _ Function.injective_id _ _ (fun _ => hq)
      (fun _ _ _ _ _ => rfl) (.of_run .init hls hrun) 1 o hd⟩
  · cases hp

end Runs

end ShareCli.Core
