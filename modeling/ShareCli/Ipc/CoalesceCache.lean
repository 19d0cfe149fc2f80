import ShareCli.Foundation.Machine
import ShareCli.Foundation.Flock
import ShareCli.Foundation.Time

/-!
# The coalesce cache (`crates/sharecli-ipc/src/lib.rs`)

The cache keeps one `<key>.json` file per command key under its root, and one `<key>.lock` file that
serialises the callers of one key. `withLockStep` is one atomic step of `with_lock_detailed`.
-/

namespace ShareCli.Ipc

open Foundation

/-- The hash of a command. -/
structure CommandKey where
  hex : String
deriving DecidableEq

/-- The output of a command. -/
structure CachedResult where
  exitCode : Int
  stdout : List UInt8
  stderr : List UInt8
deriving DecidableEq

inductive CoalesceHitKind where
  | miss
  | lockRecheck
  | debounceRecheck
deriving DecidableEq

def CoalesceHitKind.sharedFromCache : CoalesceHitKind → Bool
  | .miss => false
  | _ => true

/-- A result and when it was stored. -/
structure Entry where
  result : CachedResult
  mtime : Nat
deriving DecidableEq

abbrev Entries := CommandKey → Option Entry

/-- All handles here share one root. -/
structure CoalesceCache where
  ttl : Nat
  debounce : Nat
deriving DecidableEq

namespace CoalesceCache

def defaultTtl : Nat := Duration.fromSecs 300

/-- A time in the future counts as age zero. -/
def entryAge (entries : Entries) (now : Nat) (key : CommandKey) : Option Nat :=
  (entries key).map fun e => now - e.mtime

variable (cache : CoalesceCache)

def isFresh (entries : Entries) (now : Nat) (key : CommandKey) : Bool :=
  match entryAge entries now key with
  | some age => age < cache.ttl
  | none => false

def lookup (entries : Entries) (now : Nat) (key : CommandKey) : Option CachedResult :=
  if cache.isFresh entries now key then (entries key).map Entry.result else none

/-- `evict_stale`, restricted to the directory entries the sweep gets to. -/
def evictStale (visited : CommandKey → Bool) (entries : Entries)
    (now : Nat) : Entries :=
  fun key => if visited key && !cache.isFresh entries now key then none else entries key

/-- It completes, it fails before the rename, or the sweep after the rename fails when it has visited the keys
`visited`. -/
inductive StoreOutcome where
  | complete
  | notWritten
  | sweepFailed (visited : List CommandKey)
deriving DecidableEq

def StoreOutcome.visited : StoreOutcome → Option (CommandKey → Bool)
  | .complete => some fun _ => true
  | .notWritten => none
  | .sweepFailed keys => some fun key => keys.contains key

def store (outcome : StoreOutcome) (entries : Entries) (now : Nat)
    (key : CommandKey) (result : CachedResult) : Entries :=
  match outcome.visited with
  | some visited => cache.evictStale visited (Function.update entries key (some ⟨result, now⟩)) now
  | none => entries

end CoalesceCache

inductive LockOutcome where
  | value (result : CachedResult) (kind : CoalesceHitKind)
  | failed
deriving DecidableEq

/-- Where a call is. -/
inductive LockPc where
  | idle
  /-- In `acquire_lock_with_deadline`, polling since `started`. -/
  | acquiring (key : CommandKey) (started : Nat)
  | recheck (key : CommandKey)
  /-- Sleeping out the debounce window until `till`, then re-checking again. -/
  | debouncing (key : CommandKey) (till : Nat)
  | missed (key : CommandKey)
  | running (key : CommandKey)
  /-- `f()` succeeded with exit code 0; the result is to be stored. -/
  | storing (key : CommandKey) (cached : CachedResult)
  /-- The return value is decided; the lock file is still open. -/
  | returning (key : CommandKey) (outcome : LockOutcome)
  | done (outcome : LockOutcome)
deriving DecidableEq

def LockPc.holds : LockPc → Option CommandKey
  | .recheck key | .debouncing key _ | .missed key | .running key | .storing key _
  | .returning key _ => some key
  | .idle | .acquiring _ _ | .done _ => none

inductive LockEvent where
  | call (key : CommandKey)
  | poll
  /-- `ok` is false when the file system reports an error. -/
  | lookup (ok : Bool)
  | start
  | finish (result : Option CachedResult)
  | store (outcome : CoalesceCache.StoreOutcome)
  | release
  | kill
deriving DecidableEq

abbrev Caller := Nat

/-- The directory of the cache and its locks. -/
structure CacheRoot where
  now : Nat
  entries : Entries
  locks : Flock.Table CommandKey Caller

def CacheRoot.empty : CacheRoot := { now := 0, entries := fun _ => none, locks := fun _ => none }

def lockDeadline : Nat := Duration.fromSecs 30

def afterMiss (cache : CoalesceCache) (now : Nat) (key : CommandKey) : LockPc :=
  if cache.debounce = 0 then .missed key else .debouncing key (now + cache.debounce)

def afterClosure (key : CommandKey) : Option CachedResult → LockPc
  | none => .returning key .failed
  | some cached =>
    -- a failed run is handed to the caller and never persisted
    if cached.exitCode ≠ 0 then .returning key (.value cached .miss) else .storing key cached

def withLockStep (cache : CoalesceCache) (root : CacheRoot) (c : Caller) :
    LockPc → LockEvent → Option (CacheRoot × LockPc)
  | .idle, .call key => some (root, .acquiring key root.now)
  | .acquiring key started, .poll =>
    match Flock.tryLock root.locks key c with
    | some locks => some ({ root with locks }, .recheck key)
    | none =>
      if lockDeadline ≤ root.now - started then some (root, .done .failed)
      else some (root, .acquiring key started)
  | .recheck key, .lookup true =>
    match cache.lookup root.entries root.now key with
    | some cached => some (root, .returning key (.value cached .lockRecheck))
    | none => some (root, afterMiss cache root.now key)
  | .recheck key, .lookup false => some (root, .returning key .failed)
  | .debouncing key till, .lookup true =>
    if root.now < till then none
    else match cache.lookup root.entries root.now key with
      | some cached => some (root, .returning key (.value cached .debounceRecheck))
      | none => some (root, .missed key)
  | .debouncing key till, .lookup false =>
    if root.now < till then none else some (root, .returning key .failed)
  | .missed key, .start => some (root, .running key)
  | .running key, .finish result => some (root, afterClosure key result)
  | .storing key cached, .store outcome =>
    some ({ root with entries := cache.store outcome root.entries root.now key cached },
      .returning key (if outcome = .complete then .value cached .miss else .failed))
  | .returning key outcome, .release =>
    some ({ root with locks := Flock.unlock root.locks key c }, .done outcome)
  | .idle, .kill | .done _, .kill => none
  | pc, .kill =>
    match pc.holds with
    | some key => some ({ root with locks := Flock.unlock root.locks key c }, .done .failed)
    | none => some (root, .done .failed)
  | _, _ => none

/-- A store of the history. -/
structure StoreRecord where
  key : CommandKey
  result : CachedResult
  time : Nat
deriving DecidableEq

/-- With the history of the stores, newest first. -/
structure CoalesceState where
  root : CacheRoot
  pc : Caller → LockPc
  history : List StoreRecord

def latestStore (history : List StoreRecord) (key : CommandKey) : Option CachedResult :=
  (history.find? fun r => r.key = key).map StoreRecord.result

end ShareCli.Ipc
