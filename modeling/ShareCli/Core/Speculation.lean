import Mathlib.Data.List.AList
import Mathlib.Data.List.Sort
import ShareCli.Ipc.CoalesceCache

/-!
# Speculative execution (`crates/sharecli-core/src/speculation.rs`)

A hypervisor counts the cache hits of each command. Its background task takes the most frequent commands out of
the tracker and runs each of them whose cache entry is gone, storing what it returned. The candidates are
sorted by a total order, so that the order of the hash map does not matter.
-/

namespace ShareCli.Core

open Foundation Ipc

/-- `code` is `none` when a signal ended the process. -/
structure Output where
  code : Option Int
  stdout : List UInt8
  stderr : List UInt8
deriving DecidableEq

def captureOutput (argv : List String) (output : Option Output) : Option CachedResult :=
  match argv with
  | [] => none
  | _ :: _ => output.map fun o => ⟨o.code.getD (-1), o.stdout, o.stderr⟩

def speculationThreshold : Nat := 3

def speculationWindow : Nat := Duration.fromSecs 300

def speculationMaxCandidates : Nat := 5

def speculationInterval : Nat := Duration.fromSecs 30

/-- A command that is run ahead. -/
structure SpeculationCandidate where
  key : CommandKey
  argv : List String
  cwd : String
  env : List (String × String)
deriving DecidableEq

/-- The hit count and the time of the last hit of each key, and the request first seen with it. -/
structure SpeculationTracker where
  hits : AList fun _ : String => Nat × Nat
  requests : AList fun _ : String => SpeculationCandidate

namespace SpeculationTracker

def new : SpeculationTracker := { hits := ∅, requests := ∅ }

/-- The window slides: every hit moves its start. The counter is a `u32`, which wraps around in a release build. -/
def recordHit (t : SpeculationTracker) (now : Nat) (key : CommandKey) (argv : List String)
    (cwd : String) (env : List (String × String)) : SpeculationTracker :=
  let count := match t.hits.lookup key.hex with
    | some (count, _) => count
    | none => 0
  { hits := t.hits.insert key.hex ((count + 1) % UInt32.size, now)
    requests :=
      match t.requests.lookup key.hex with
      | some _ => t.requests
      | none => t.requests.insert key.hex ⟨key, argv, cwd, env⟩ }

/-- Higher counts first, then by key. -/
def before (l r : Nat × String) : Prop := r.1 < l.1 ∨ (r.1 = l.1 ∧ l.2 ≤ r.2)
deriving Decidable

def scored (t : SpeculationTracker) (now : Nat) : List (Nat × String) :=
  let frequent := t.hits.entries.filter fun e =>
    speculationThreshold ≤ e.2.1 ∧ now - e.2.2 ≤ speculationWindow
  ((frequent.map fun e => (e.2.1, e.1)).insertionSort before).take speculationMaxCandidates

def drainKey (acc : SpeculationTracker × List SpeculationCandidate) (key : String) :
    SpeculationTracker × List SpeculationCandidate :=
  ({ hits := acc.1.hits.erase key, requests := acc.1.requests.erase key },
    acc.2 ++ (acc.1.requests.lookup key).toList)

def drainCandidates (t : SpeculationTracker) (now : Nat) : SpeculationTracker × List SpeculationCandidate :=
  ((t.scored now).map Prod.snd).foldl drainKey (t, [])

end SpeculationTracker

def speculateExecute (candidate : SpeculationCandidate) (output : Option Output) : Option CachedResult :=
  captureOutput candidate.argv output

inductive ThermalDecision where
  | allow
  | warn
  | refuse
deriving DecidableEq

/-- Where the background task is. -/
inductive TaskPc where
  | sleeping (till : Nat)
  | draining
  /-- At the head of the loop over the drained candidates. -/
  | next (candidates : List SpeculationCandidate)
  | executing (candidate : SpeculationCandidate) (rest : List SpeculationCandidate)
  | storing (candidate : SpeculationCandidate) (cached : CachedResult)
      (rest : List SpeculationCandidate)
deriving DecidableEq

inductive TaskEvent where
  | wake (decision : ThermalDecision)
  | drain
  | finish
  | lookup (ok : Bool)
  | executed (output : Option Output)
  | store (outcome : CoalesceCache.StoreOutcome)
deriving DecidableEq

def speculationStep (cache : CoalesceCache) (root : CacheRoot) (tracker : SpeculationTracker) :
    TaskPc → TaskEvent → Option (CacheRoot × SpeculationTracker × TaskPc)
  | .sleeping till, .wake decision =>
    if root.now < till then none
    else match decision with
      | .allow => some (root, tracker, .draining)
      | .warn | .refuse => some (root, tracker, .sleeping (root.now + speculationInterval))
  | .draining, .drain =>
    let (tracker', candidates) := tracker.drainCandidates root.now
    some (root, tracker', .next candidates)
  | .next [], .finish => some (root, tracker, .sleeping (root.now + speculationInterval))
  | .next (candidate :: rest), .lookup ok =>
    match ok, cache.lookup root.entries root.now candidate.key with
    | true, none => some (root, tracker, .executing candidate rest)
    | _, _ => some (root, tracker, .next rest)
  | .executing candidate rest, .executed output =>
    match speculateExecute candidate output with
    | some cached => some (root, tracker, .storing candidate cached rest)
    | none => some (root, tracker, .next rest)
  | .storing candidate cached rest, .store outcome =>
    some ({ root with entries := cache.store outcome root.entries root.now candidate.key cached },
      tracker, .next rest)
  | _, _ => none

end ShareCli.Core
