import ShareCli.Core.Speculation
import ShareCli.Ipc.Proofs.CoalesceCacheProofs

/-!
# The hypervisor (`crates/sharecli-core/src/hypervisor.rs`)

`Hypervisor::run` passes the thermal gate, sends commands with a mutating flag to the slot queue, and
otherwise looks the command up in the coalesce cache, first without and then with the lock of its key.
`hypervisorMachine` interleaves any number of hypervisors on one cache root. A `run` call stores a result only
when its exit code is 0; the background task stores whatever its command returned.
-/

namespace ShareCli.Core

open Foundation Ipc Function

/-- A command to run. -/
structure SpawnRequest where
  argv : List String
  cwd : String
  env : List (String × String)
deriving DecidableEq

/-- How a command ended. -/
structure SpawnOutcome where
  exitCode : Int
  stdout : List UInt8
  stderr : List UInt8
  fromCache : Bool
deriving DecidableEq

def SpawnOutcome.ofResult (result : CachedResult) (fromCache : Bool) : SpawnOutcome :=
  ⟨result.exitCode, result.stdout, result.stderr, fromCache⟩

inductive RunError where
  | throttled
  | resourceWatch
  | lookup
  | queue
  | coalesce
  | killed
deriving DecidableEq

def hasNocacheArg (argv nocacheArgs : List String) : Bool :=
  argv.any fun arg => nocacheArgs.any fun flag => arg == flag

def defaultNocacheArgs : List String :=
  ["--fix", "--unsafe-fixes", "--force", "--write", "--in-place", "-w", "-i"]

def thermalMaxRetries : Nat := 5

def thermalRetrySleep : Nat := Duration.fromSecs 2

/-- The configuration of a hypervisor. -/
structure Hypervisor where
  cache : CoalesceCache
  nocacheArgs : List String

/-- Where a run is. -/
inductive RunPc where
  | idle
  /-- In `thermal_gate_check` after `attempt` refusals, asleep until `till`; `queued` when it is the
  check at the head of `run_queued`. -/
  | gate (req : SpawnRequest) (queued : Bool) (attempt till : Nat)
  | capture (req : SpawnRequest) (queued : Bool)
  | slot (req : SpawnRequest)
  | lookup (req : SpawnRequest)
  | mount (req : SpawnRequest) (key : CommandKey)
  | locked (req : SpawnRequest) (key : CommandKey) (pc : LockPc)
  | recording (req : SpawnRequest) (key : CommandKey) (outcome : SpawnOutcome)
  | done (result : Except RunError SpawnOutcome)

inductive RunEvent where
  | call (req : SpawnRequest)
  | gate (decision : ThermalDecision)
  | capture (ok : Bool)
  | slot (output : Option Output)
  /-- The lookup before the lock. `key` is the digest `command_key_with_mode` computes: of the
  arguments and, depending on the mode, the directory, the environment and the state of git. -/
  | lookup (key : CommandKey) (ok : Bool)
  | mount
  | poll
  | recheck (ok : Bool)
  | spawn
  | exited (output : Option Output)
  | store (outcome : CoalesceCache.StoreOutcome)
  | release
  | record
  | kill
deriving DecidableEq

variable (req : SpawnRequest)

def spawnProcessSync (output : Option Output) : Option CachedResult :=
  captureOutput req.argv output

def RunEvent.lockEvent : RunEvent → Option LockEvent
  | .poll => some .poll
  | .recheck ok => some (.lookup ok)
  | .spawn => some .start
  | .exited output => some (.finish (spawnProcessSync req output))
  | .store outcome => some (.store outcome)
  | .release => some .release
  | .kill => some .kill
  | _ => none

def afterGate (now : Nat) (req : SpawnRequest) (queued : Bool) (attempt : Nat) : ThermalDecision → RunPc
  | .allow | .warn => .capture req queued
  | .refuse =>
    if thermalMaxRetries ≤ attempt + 1 then .done (.error .throttled)
    else .gate req queued (attempt + 1) (now + thermalRetrySleep)

def afterCapture (h : Hypervisor) (now : Nat) (req : SpawnRequest) (queued : Bool) : RunPc :=
  if queued then .slot req
  else if hasNocacheArg req.argv h.nocacheArgs then .gate req true 0 now
  else .lookup req

def afterLock (key : CommandKey) : LockPc → RunPc
  | .done (.value cached kind) =>
    if kind.sharedFromCache then .recording req key (.ofResult cached true)
    else .done (.ok (.ofResult cached false))
  | .done .failed => .done (.error .coalesce)
  | pc => .locked req key pc

def runStep (h : Hypervisor) (root : CacheRoot) (tracker : SpeculationTracker) (c : Caller) :
    RunPc → RunEvent → Option (CacheRoot × SpeculationTracker × RunPc)
  | .idle, .call req => some (root, tracker, .gate req false 0 root.now)
  | .gate req queued attempt till, .gate decision =>
    if root.now < till then none
    else some (root, tracker, afterGate root.now req queued attempt decision)
  | .capture req queued, .capture true =>
    some (root, tracker, afterCapture h root.now req queued)
  | .capture _ _, .capture false => some (root, tracker, .done (.error .resourceWatch))
  | .slot req, .slot output =>
    match spawnProcessSync req output with
    | some result => some (root, tracker, .done (.ok (.ofResult result false)))
    | none => some (root, tracker, .done (.error .queue))
  | .lookup req, .lookup key true =>
    match h.cache.lookup root.entries root.now key with
    | some cached => some (root, tracker, .recording req key (.ofResult cached true))
    | none => some (root, tracker, .mount req key)
  | .lookup _, .lookup _ false => some (root, tracker, .done (.error .lookup))
  | .mount req key, .mount =>
    (withLockStep h.cache root c .idle (.call key)).map fun (root', pc) =>
      (root', tracker, afterLock req key pc)
  | .locked req key pc, event =>
    (event.lockEvent req).bind fun lockEvent =>
      (withLockStep h.cache root c pc lockEvent).map fun (root', pc') =>
        (root', tracker, afterLock req key pc')
  | .recording req key outcome, .record =>
    some (root, tracker.recordHit root.now key req.argv req.cwd req.env, .done (.ok outcome))
  | .idle, .kill | .done _, .kill => none
  | _, .kill => some (root, tracker, .done (.error .killed))
  | _, _ => none

abbrev Host := Nat

/-- The cache, the tracker and every run. -/
structure HypervisorState where
  root : CacheRoot
  trackers : Host → SpeculationTracker
  tasks : Host → TaskPc
  runs : Caller → RunPc

inductive HypervisorLabel where
  | tick (d : Nat)
  | run (c : Caller) (event : RunEvent)
  | task (host : Host) (event : TaskEvent)
deriving DecidableEq

/-- Call `c` is made on the hypervisor `hypervisors (host c)`. -/
def hypervisorMachine (hypervisors : Host → Hypervisor) (host : Caller → Host) :
    Machine HypervisorState HypervisorLabel where
  init :=
    { root := CacheRoot.empty, trackers := fun _ => .new, runs := fun _ => .idle
      tasks := fun _ => .sleeping speculationInterval }
  step s
    | .tick d => some { s with root := { s.root with now := s.root.now + d } }
    | .run c event =>
      (runStep (hypervisors (host c)) s.root (s.trackers (host c)) c (s.runs c) event).map
        fun (root, tracker, pc) =>
          { s with root, trackers := update s.trackers (host c) tracker
                   runs := update s.runs c pc }
    | .task h event =>
      (speculationStep (hypervisors h).cache s.root (s.trackers h) (s.tasks h) event).map
        fun (root, tracker, pc) =>
          { s with root, trackers := update s.trackers h tracker
                   tasks := update s.tasks h pc }

open CoalesceCache Option

def AllSucceeded (entries : Entries) : Prop := ∀ key e, entries key = some e → e.result.exitCode = 0

variable {cache : CoalesceCache} {entries : Entries} {now : Nat} {key : CommandKey}
  {c : CachedResult}

theorem AllSucceeded.lookup (h : AllSucceeded entries)
    (hl : cache.lookup entries now key = some c) : c.exitCode = 0 := by
  unfold CoalesceCache.lookup at hl
  split_ifs at hl
  obtain ⟨e, he, rfl⟩ := map_eq_some_iff.mp hl
  exact h key e he

theorem AllSucceeded.evictStale (h : AllSucceeded entries) (vs : CommandKey → Bool) :
    AllSucceeded (cache.evictStale vs entries now) := by
  intro key e he
  unfold CoalesceCache.evictStale at he
  split_ifs at he
  exact h key e he

theorem AllSucceeded.store (h : AllSucceeded entries) (hc : c.exitCode = 0)
    (o : StoreOutcome) : AllSucceeded (cache.store o entries now key c) := by
  unfold CoalesceCache.store
  split
  · refine AllSucceeded.evictStale ?_ _
    intro k e he
    by_cases hk : k = key
    · subst hk
      obtain rfl : _ = e := by simpa using he
      exact hc
    · exact h k e (by simpa [hk] using he)
  · exact h

/-- A result to be stored, or one returned from the cache, has exit code 0. -/
def LockPcSucceeded : LockPc → Prop
  | .storing _ c => c.exitCode = 0
  | .returning _ (.value c kind) | .done (.value c kind) =>
    kind.sharedFromCache = true → c.exitCode = 0
  | _ => True

variable {r r' : CacheRoot} {t t' : SpeculationTracker}

theorem lockStep_succeeded {c : Caller} {pc pc' : LockPc} {ev : LockEvent}
    (h : LockStep cache r c pc ev r' pc') (he : AllSucceeded r.entries) (hpc : LockPcSucceeded pc) :
    AllSucceeded r'.entries ∧ LockPcSucceeded pc' := by
  cases h with
  | hit hl | debounceHit _ hl => exact ⟨he, fun _ => he.lookup hl⟩
  | closureNonzero => exact ⟨he, fun hs => by simp [CoalesceHitKind.sharedFromCache] at hs⟩
  | closureOk hz => exact ⟨he, hz⟩
  | store =>
    refine ⟨he.store hpc _, ?_⟩
    split
    · intro _; exact hpc
    · trivial
  | @release _ o => cases o <;> exact ⟨he, hpc⟩
  | _ => exact ⟨he, trivial⟩

def RunPcSucceeded : RunPc → Prop
  | .locked _ _ pc => LockPcSucceeded pc
  | .recording _ _ outcome | .done (.ok outcome) =>
    outcome.fromCache = true → outcome.exitCode = 0
  | _ => True

theorem afterLock_succeeded {pc : LockPc} (req : SpawnRequest) (key : CommandKey)
    (h : LockPcSucceeded pc) : RunPcSucceeded (afterLock req key pc) := by
  unfold afterLock
  split
  · rename_i c k
    split_ifs with hs
    · intro _
      exact h hs
    · intro hf
      simp [SpawnOutcome.ofResult] at hf
  · trivial
  · exact h

theorem runStep_succeeded {h : Hypervisor} {c : Caller} {pc pc' : RunPc} {ev : RunEvent}
    (hs : runStep h r t c pc ev = some (r', t', pc')) (he : AllSucceeded r.entries)
    (hpc : RunPcSucceeded pc) :
    AllSucceeded r'.entries ∧ RunPcSucceeded pc' := by
  unfold runStep at hs
  split at hs
  case h_1 => simp at hs; obtain ⟨rfl, -, rfl⟩ := hs; exact ⟨he, trivial⟩
  case h_2 req q attempts till d =>
    split_ifs at hs
    obtain ⟨rfl, -, rfl⟩ := hs
    refine ⟨he, ?_⟩
    unfold afterGate
    split
    · trivial
    · trivial
    · split <;> trivial
  case h_3 req q =>
    obtain ⟨rfl, -, rfl⟩ := hs
    refine ⟨he, ?_⟩
    unfold afterCapture
    split
    · trivial
    · split <;> trivial
  case h_4 => simp at hs; obtain ⟨rfl, -, rfl⟩ := hs; exact ⟨he, trivial⟩
  case h_5 req output =>
    split at hs <;> simp at hs <;> obtain ⟨rfl, -, rfl⟩ := hs
    · exact ⟨he, fun hf => by simp [SpawnOutcome.ofResult] at hf⟩
    · exact ⟨he, trivial⟩
  case h_6 req key =>
    split at hs <;> simp at hs <;> obtain ⟨rfl, -, rfl⟩ := hs
    · rename_i hl
      exact ⟨he, fun _ => he.lookup hl⟩
    · exact ⟨he, trivial⟩
  case h_7 => simp at hs; obtain ⟨rfl, -, rfl⟩ := hs; exact ⟨he, trivial⟩
  case h_8 req key =>
    obtain ⟨⟨r₁, pc₁⟩, hlc, heq⟩ := map_eq_some_iff.mp hs
    obtain ⟨rfl, -, rfl⟩ := heq
    obtain ⟨hen, hpc₁⟩ := lockStep_succeeded (LockStep.of_eq hlc) he trivial
    exact ⟨hen, afterLock_succeeded req key hpc₁⟩
  case h_9 req key pc =>
    obtain ⟨lockEvent, -, hm⟩ := bind_eq_some_iff.mp hs
    obtain ⟨⟨r₁, pc₁⟩, hlc, heq⟩ := map_eq_some_iff.mp hm
    obtain ⟨rfl, -, rfl⟩ := heq
    obtain ⟨hen, hpc₁⟩ := lockStep_succeeded (LockStep.of_eq hlc) he hpc
    exact ⟨hen, afterLock_succeeded req key hpc₁⟩
  case h_10 => simp at hs; obtain ⟨rfl, -, rfl⟩ := hs; exact ⟨he, hpc⟩
  case h_11 => simp at hs
  case h_12 => simp at hs
  case h_13 => simp at hs; obtain ⟨rfl, -, rfl⟩ := hs; exact ⟨he, trivial⟩
  case h_14 => simp at hs

/-- The steps in which no pre-executed command ends with a code other than 0. -/
def SpeculationExitsZero : HypervisorLabel → Prop
  | .task _ (.executed (some output)) => output.code = some 0
  | _ => True

instance : DecidablePred SpeculationExitsZero
  | .task _ (.executed (some output)) => inferInstanceAs (Decidable (output.code = some 0))
  | .task _ (.executed none) | .task _ (.wake _) | .task _ .drain | .task _ .finish
  | .task _ (.lookup _) | .task _ (.store _) | .tick _ | .run _ _ => isTrue trivial

def TaskPcSucceeded : TaskPc → Prop
  | .storing _ c _ => c.exitCode = 0
  | _ => True

theorem speculationStep_succeeded {host : Host} {pc pc' : TaskPc} {ev : TaskEvent}
    (hs : speculationStep cache r t pc ev = some (r', t', pc'))
    (hc : SpeculationExitsZero (.task host ev)) (he : AllSucceeded r.entries)
    (hpc : TaskPcSucceeded pc) : AllSucceeded r'.entries ∧ TaskPcSucceeded pc' := by
  unfold speculationStep at hs
  split at hs
  case h_1 till d =>
    split_ifs at hs
    split at hs <;> simp at hs <;> obtain ⟨rfl, -, rfl⟩ := hs <;> exact ⟨he, trivial⟩
  case h_2 => simp at hs; obtain ⟨rfl, -, rfl⟩ := hs; exact ⟨he, trivial⟩
  case h_3 => simp at hs; obtain ⟨rfl, -, rfl⟩ := hs; exact ⟨he, trivial⟩
  case h_4 => split at hs <;> simp at hs <;> obtain ⟨rfl, -, rfl⟩ := hs <;> exact ⟨he, trivial⟩
  case h_5 candidate rs output =>
    split at hs <;> simp at hs <;> obtain ⟨rfl, -, rfl⟩ := hs
    · rename_i c hec
      refine ⟨he, ?_⟩
      -- only a spawned command has a result, and the condition fixes its exit code
      unfold speculateExecute captureOutput at hec
      split at hec
      · simp at hec
      · obtain ⟨o, rfl, rfl⟩ := map_eq_some_iff.mp hec
        have hcd : o.code = some 0 := hc
        simp [TaskPcSucceeded, hcd]
    · exact ⟨he, trivial⟩
  case h_6 => simp at hs; obtain ⟨rfl, -, rfl⟩ := hs; exact ⟨he.store hpc _, trivial⟩
  case h_7 => simp at hs

structure SucceededInv (s : HypervisorState) : Prop where
  entries : AllSucceeded s.root.entries
  runs : ∀ c, RunPcSucceeded (s.runs c)
  tasks : ∀ h, TaskPcSucceeded (s.tasks h)

variable {hypervisors : Host → Hypervisor} {host : Caller → Host}

theorem succeededInv_init : SucceededInv (hypervisorMachine hypervisors host).init where
  entries := by simp [hypervisorMachine, CacheRoot.empty, AllSucceeded]
  runs _ := trivial
  tasks _ := trivial

theorem succeededInv_step {s s' : HypervisorState} {l : HypervisorLabel} (hi : SucceededInv s)
    (hc : SpeculationExitsZero l) (h : (hypervisorMachine hypervisors host).step s l = some s') :
    SucceededInv s' := by
  cases l with
  | tick d =>
    obtain rfl : _ = s' := some.inj h
    exact ⟨hi.entries, hi.runs, hi.tasks⟩
  | run c ev =>
    obtain ⟨⟨r, t, pc⟩, hstep, rfl⟩ := map_eq_some_iff.mp h
    obtain ⟨he, hpc⟩ := runStep_succeeded hstep hi.entries (hi.runs c)
    refine ⟨he, ?_, hi.tasks⟩
    intro c'
    by_cases hcc : c' = c
    · subst hcc; simpa using hpc
    · simpa [hcc] using hi.runs c'
  | task h' ev =>
    obtain ⟨⟨r, t, pc⟩, hstep, rfl⟩ := map_eq_some_iff.mp h
    obtain ⟨he, hpc⟩ := speculationStep_succeeded hstep hc hi.entries (hi.tasks h')
    refine ⟨he, hi.runs, ?_⟩
    intro h''
    by_cases hhh : h'' = h'
    · subst hhh; simpa using hpc
    · simpa [hhh] using hi.tasks h''

/-- **Failed results are not replayed while speculation succeeds.** -/
theorem run_from_cache_succeeded (hypervisors : Host → Hypervisor) (host : Caller → Host)
    {s : HypervisorState}
    (h : (hypervisorMachine hypervisors host).ReachableWhen (fun _ l => SpeculationExitsZero l) s)
    (c : Caller) (outcome : SpawnOutcome) (hdone : s.runs c = .done (.ok outcome))
    (hfrom : outcome.fromCache = true) : outcome.exitCode = 0 := by
  have hi : SucceededInv s := Machine.invariantWhen succeededInv_init
    (fun _ _ _ hi hc hs => succeededInv_step hi hc hs) h
  have hc := hi.runs c
  rw [hdone] at hc
  exact hc hfrom

def defaultHypervisor : Hypervisor := ⟨⟨defaultTtl, 0⟩, defaultNocacheArgs⟩

def storingRun (c : Caller) : List HypervisorLabel :=
  ([.call ⟨["lint"], "/", []⟩, .gate .allow, .capture true, .lookup ⟨"k"⟩ true, .mount, .poll,
    .recheck true, .spawn, .exited (some ⟨some 0, [], []⟩), .store .complete, .release] :
      List RunEvent).map (.run c)

def hittingRun (c : Caller) : List HypervisorLabel :=
  ([.call ⟨["lint"], "/", []⟩, .gate .allow, .capture true, .lookup ⟨"k"⟩ true, .record] :
      List RunEvent).map (.run c)

def speculationCycle (code : Int) : List HypervisorLabel :=
  ([.wake .allow, .drain, .lookup true, .executed (some ⟨some code, [], []⟩), .store .complete] :
      List TaskEvent).map (.task 0)

/-- Three hits make `lint` a candidate; its entry expires; the next cycle pre-executes it. -/
def replaySchedule (code : Int) : List HypervisorLabel :=
  storingRun 0 ++ hittingRun 1 ++ hittingRun 2 ++ hittingRun 3 ++ [.tick (Duration.fromSecs 300)] ++
    speculationCycle code ++ hittingRun 4

theorem run_from_cache_after_speculation :
    ∃ s, ((hypervisorMachine (fun _ => defaultHypervisor) fun _ => 0).restrict
        fun _ l => SpeculationExitsZero l).run
        (hypervisorMachine (fun _ => defaultHypervisor) fun _ => 0).init (replaySchedule 0) = some s ∧
      s.runs 4 = .done (.ok ⟨0, [], [], true⟩) ∧ (⟨0, [], [], true⟩ : SpawnOutcome).exitCode = 0 := by
  refine ⟨_, rfl, rfl, ?_⟩
  have hr := @Machine.reachable_of_run _ _ ((hypervisorMachine (fun _ => defaultHypervisor)
    fun _ => 0).restrict fun _ l => SpeculationExitsZero l) _ (replaySchedule 0) rfl
  exact run_from_cache_succeeded (fun _ => defaultHypervisor) (fun _ => 0)
    (Machine.reachableWhen_of_restrict hr) 4 _ rfl rfl

theorem run_replays_failed_speculation :
    ∃ s, (hypervisorMachine (fun _ => defaultHypervisor) fun _ => 0).Reachable s ∧
      ∃ outcome, s.runs 4 = .done (.ok outcome) ∧ outcome.fromCache = true ∧ outcome.exitCode ≠ 0 :=
  ⟨_, @Machine.reachable_of_run _ _ (hypervisorMachine (fun _ => defaultHypervisor) fun _ => 0) _
    (replaySchedule 1) rfl, ⟨1, [], [], true⟩, rfl, rfl, by decide⟩

end ShareCli.Core
