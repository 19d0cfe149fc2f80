import Mathlib.Algebra.Order.Ring.Nat
import Mathlib.Data.List.AList
import Mathlib.Data.String.Basic

/-!
# The session ledger (`crates/sharecli-session/src/lib.rs`, `ledger.rs`)

Observations of terminal surfaces are appended to a table whose sequence numbers grow. A recovery plan
selects for each surface the newest observation by its own timestamp, among those with a readable timestamp
inside a window of time, and collects the sessions that can be resumed. Columns with JSON texts hold the data.
-/

namespace ShareCli.Session

/-- How a session is resumed. -/
structure ResumeRecipe where
  harness : String
  sessionId : String
  cwd : String
  argv : List String
deriving DecidableEq

inductive ResolutionConfidence where
  | exact
  | corroborated
  | heuristic
  | unavailable
deriving DecidableEq

inductive SessionState where
  | pending
  | active
  | exited
  | unknown
deriving DecidableEq

/-- A process seen on a surface. -/
structure ProcessEvidence where
  pid : Option UInt32
  tty : Option String
  cwd : String
  argv : List String
  startedAt : Option String
deriving DecidableEq

/-- A surface of a terminal. -/
structure SurfaceRecord where
  id : String
  terminal : String
  title : Option String
  cwd : String
  process : Option ProcessEvidence
deriving DecidableEq

/-- A session of an agent. -/
structure AgentSession where
  id : String
  harness : String
  sessionId : String
  cwd : String
  resume : ResumeRecipe
  confidence : ResolutionConfidence
  state : SessionState
deriving DecidableEq

/-- Whether there is enough evidence for unattended recovery. -/
def AgentSession.autoResumable (session : AgentSession) : Bool :=
  (session.confidence = .exact || session.confidence = .corroborated) &&
    session.resume.sessionId ≠ "" && session.resume.argv ≠ []

structure SurfaceCapabilities where
  read : Bool
  write : Bool
  resize : Bool
  layout : Bool
  durablePty : Bool
deriving DecidableEq

inductive ObservationKind where
  | discovered
  | updated
  | exited
  | recovered
deriving DecidableEq

/-- A row of the ledger. -/
structure SessionObservation where
  seq : Int
  observedAt : String
  surface : SurfaceRecord
  session : Option AgentSession
  capabilities : SurfaceCapabilities
  kind : ObservationKind
deriving DecidableEq

/-- Rows are read in the order of their sequence numbers, which are never reused. -/
structure SessionStore where
  sessions : AList fun _ : String => AgentSession
  observations : List SessionObservation
  lastSeq : Int
  ordered : observations.Pairwise fun o o' => o.seq < o'.seq
  seq_le : ∀ o ∈ observations, o.seq ≤ lastSeq

namespace SessionStore

def openMemory : SessionStore where
  sessions := ∅
  observations := []
  lastSeq := 0
  ordered := List.Pairwise.nil
  seq_le := by simp

variable (store : SessionStore)

/-- An error when there is no greater 64-bit number. -/
def appendObservation (observation : SessionObservation) :
    Option (Int × SessionStore) :=
  if 2 ^ 63 ≤ store.lastSeq + 1 then none
  else some (store.lastSeq + 1,
    { sessions :=
        match observation.session with
        | some session => store.sessions.insert session.id session
        | none => store.sessions
      observations := store.observations ++ [{ observation with seq := store.lastSeq + 1 }]
      lastSeq := store.lastSeq + 1
      ordered := by
        refine List.pairwise_append.mpr ⟨store.ordered, List.pairwise_singleton _ _, ?_⟩
        intro o ho o' ho'
        obtain rfl := List.mem_singleton.mp ho'
        exact Int.lt_add_one_of_le (store.seq_le o ho)
      seq_le := by
        intro o ho
        rcases List.mem_append.mp ho with ho | ho
        · exact Int.le_of_lt (Int.lt_add_one_of_le (store.seq_le o ho))
        · obtain rfl := List.mem_singleton.mp ho
          exact Int.le_refl _ })

def readObservations : Option String → List SessionObservation
  | none => store.observations
  | some surfaceId => store.observations.filter fun o => o.surface.id = surfaceId

/-- `SELECT MAX(seq) .. GROUP BY surface_id` has the row. -/
def lastOfSurface (rows : List SessionObservation) (o : SessionObservation) : Bool :=
  rows.all fun o' => o'.surface.id = o.surface.id → o'.seq ≤ o.seq

def compactObservations : Nat × SessionStore :=
  let kept := store.observations.filter (lastOfSurface store.observations)
  (store.observations.length - kept.length,
    { store with
      observations := kept
      ordered := store.ordered.filter _
      seq_le := fun o ho => store.seq_le o (List.mem_of_mem_filter ho) })

end SessionStore

/-- How a timestamp is read, and the first instant that can be represented. -/
structure Chrono where
  parseFromRfc3339 : String → Option Int
  minUtc : Int

/-- Why there is no plan; `overflow` is a panic of the subtraction of the age. -/
inductive RecoveryError where
  | nonPositiveMaxAge
  | overflow
deriving DecidableEq

def RecoveryError.message : RecoveryError → String
  | .nonPositiveMaxAge => "recovery max age must be positive"
  | .overflow => "DateTime - TimeDelta overflowed"

abbrev Latest := Std.TreeMap String (Int × SessionObservation)

def Chrono.timeInWindow (chrono : Chrono) (now cutoff : Int) (o : SessionObservation) : Option Int :=
  match chrono.parseFromRfc3339 o.observedAt with
  | none => none
  | some observedAt =>
    if now < observedAt then none else if observedAt < cutoff then none else some observedAt

def newer (candidate current : Int × SessionObservation) : Bool :=
  current.1 < candidate.1 || (current.1 = candidate.1 && current.2.seq < candidate.2.seq)

def Chrono.considerObservation (chrono : Chrono) (now cutoff : Int) (latest : Latest)
    (o : SessionObservation) : Latest :=
  match chrono.timeInWindow now cutoff o with
  | none => latest
  | some observedAt =>
    match latest[o.surface.id]? with
    | none => latest.insert o.surface.id (observedAt, o)
    | some current =>
      if newer (observedAt, o) current then latest.insert o.surface.id (observedAt, o) else latest

def SessionObservation.offer (o : SessionObservation) : Option AgentSession :=
  if o.kind = .exited then none
  else match o.session with
    | none => none
    | some session => if session.autoResumable then some session else none

def collectSession (sessions : Std.TreeMap String AgentSession) (o : SessionObservation) :
    Std.TreeMap String AgentSession :=
  match o.offer with
  | none => sessions
  | some session => sessions.insert session.id session

def SessionStore.recoveryPlan (store : SessionStore) (chrono : Chrono) (now maxAge : Int) :
    Except RecoveryError (List AgentSession) :=
  if maxAge ≤ 0 then .error .nonPositiveMaxAge
  else if now - maxAge < chrono.minUtc then .error .overflow
  else
    let latest := (store.readObservations none).foldl (chrono.considerObservation now (now - maxAge)) ∅
    let sessions := (latest.toList.map fun e => e.2.2).foldl collectSession ∅
    .ok (sessions.toList.map Prod.snd)

end ShareCli.Session
