import ShareCli.Foundation.Path
import ShareCli.Foundation.Text
import ShareCli.Session.Ledger

/-!
# Discovery of sessions (`crates/sharecli-session/src/resolver.rs`, `discovery.rs`)

A scan asks an adapter for the terminal surfaces. The process of a surface tells the harness that runs in it, and
the session is resolved from a state file or from the arguments of the process. The adapter and the state
provider may answer differently in each round.
-/

namespace ShareCli.Session

open Foundation

def AgentSession.withRecipe (harness sessionId cwd : String) (build : String → List String) :
    AgentSession where
  id := harness ++ ":" ++ sessionId
  harness := harness
  sessionId := sessionId
  cwd := cwd
  resume := { harness, sessionId, cwd, argv := build sessionId }
  confidence := .exact
  state := .active

def AgentSession.forge (sessionId cwd : String) : AgentSession :=
  .withRecipe "forge" sessionId cwd fun id => ["forge", "--conversation-id", id]

def AgentSession.codex (sessionId cwd : String) : AgentSession :=
  .withRecipe "codex" sessionId cwd fun id => ["codex", "resume", id]

def AgentSession.opencode (sessionId cwd : String) : AgentSession :=
  .withRecipe "opencode" sessionId cwd fun id => ["opencode", "--session", id]

def AgentSession.kilo (sessionId cwd : String) : AgentSession :=
  .withRecipe "kilo" sessionId cwd fun id => ["kilo", "--session", id]

def AgentSession.cursor (sessionId cwd : String) : AgentSession :=
  .withRecipe "cursor-agent" sessionId cwd fun id => ["cursor-agent", "--resume", id]

inductive EvidenceSource where
  | adapter
  | stateFile
  | argv
  | unavailable
deriving DecidableEq

/-- A session with its evidence. -/
structure Resolution where
  session : Option AgentSession
  confidence : ResolutionConfidence
  source : EvidenceSource
deriving DecidableEq

def Resolution.unavailable : Resolution :=
  { session := none, confidence := .unavailable, source := .unavailable }

/-- The session of a harness with its recipe; `cursor` is resumed by `cursor-agent`. -/
def harnessSession (harness id cwd : String) : Option AgentSession :=
  match harness with
  | "forge" => some (.forge id cwd)
  | "codex" => some (.codex id cwd)
  | "opencode" => some (.opencode id cwd)
  | "kilo" => some (.kilo id cwd)
  | "cursor" | "cursor-agent" => some (.cursor id cwd)
  | _ => none

def recipe (harness id cwd : String) (confidence : ResolutionConfidence) (source : EvidenceSource) :
    Resolution :=
  match harnessSession harness id cwd with
  | none => .unavailable
  | some session => { session := some { session with confidence }, confidence, source }

def sessionArguments : String → Option (List String)
  | "forge" => some ["--conversation-id"]
  | "codex" => some ["resume"]
  | "opencode" | "kilo" => some ["--session"]
  | "cursor" | "cursor-agent" => some ["--resume"]
  | _ => none

/-- The argument after the first one that is among `names`, if it is not empty. -/
def argumentAfter (names : List String) : List String → Option String
  | [] => none
  | value :: rest =>
    if value ∈ names then rest.head?.filter (· ≠ "") else argumentAfter names rest

def sessionIdFromArgv (harness : String) (argv : List String) : Option String :=
  (sessionArguments harness).bind fun names => argumentAfter names argv

def argvMentionsId (argv : List String) (id : String) : Bool := argv.contains id

/-- The evidence of an adapter, then that of a state file, then the arguments. -/
def resolve (harness cwd : String) (argv : List String)
    (stateSessionId adapterSessionId : Option String) : Resolution :=
  match adapterSessionId.filter (· ≠ "") with
  | some id => recipe harness id cwd .exact .adapter
  | none =>
    match stateSessionId.filter (· ≠ "") with
    | some id =>
      recipe harness id cwd (if argvMentionsId argv id then .corroborated else .exact) .stateFile
    | none =>
      match sessionIdFromArgv harness argv with
      | some id => recipe harness id cwd .exact .argv
      | none => .unavailable

def knownHarnesses : List String := ["forge", "codex", "opencode", "kilo", "cursor", "cursor-agent"]

variable (surface : SurfaceRecord)

def surfaceHarness : Option String :=
  surface.process.bind fun process =>
    process.argv.head?.bind fun executable =>
      (FilePath.fileName executable.toList).bind fun fileName =>
        let name := String.ofList (fileName.map Char.toLower)
        if name ∈ knownHarnesses then some name else none

def surfaceProcessCwd : String :=
  (surface.process.map ProcessEvidence.cwd).getD surface.cwd

def surfaceProcessArgv : List String :=
  (surface.process.map ProcessEvidence.argv).getD []

/-- The contexts, the latest first, and the cause. -/
structure AnyhowError where
  contexts : List String
  cause : String
deriving DecidableEq

namespace AnyhowError

def msg (cause : String) : AnyhowError := { contexts := [], cause }

def context (e : AnyhowError) (text : String) : AnyhowError := { e with contexts := text :: e.contexts }

def text (e : AnyhowError) : String := e.contexts.headD e.cause

end AnyhowError

/-- What knows the surfaces of a terminal. -/
structure SurfaceAdapter where
  discover : Except AnyhowError (List SurfaceRecord)
  capabilities : Nat → SurfaceRecord → Except AnyhowError SurfaceCapabilities

/-- What knows the sessions of a harness. -/
structure SessionStateProvider where
  sessionId : Nat → SurfaceRecord → String → Except AnyhowError (Option String)

def noStateProvider : SessionStateProvider where
  sessionId _ _ _ := .ok none

structure DiscoveryFailure where
  surfaceId : String
  error : String
deriving DecidableEq

structure DiscoveryResult where
  surfaceId : String
  harness : Option String
  sessionId : Option String
  kind : ObservationKind
  capabilities : SurfaceCapabilities
  session : Option AgentSession
deriving DecidableEq

/-- What was found and what failed. -/
structure DiscoveryReport where
  scanned : Nat
  recorded : Nat
  failures : List DiscoveryFailure
  results : List DiscoveryResult
deriving DecidableEq

section Scan

variable (adapter : SurfaceAdapter) (state : SessionStateProvider)

def resolveSurface (round : Nat) (surface : SurfaceRecord) : Except AnyhowError Resolution :=
  match surfaceHarness surface with
  | none => .ok .unavailable
  | some harness =>
    match state.sessionId round surface harness with
    | .error e => .error (e.context ("read session state for surface " ++ surface.id))
    | .ok stateId =>
      .ok (resolve harness (surfaceProcessCwd surface) (surfaceProcessArgv surface) stateId none)

/-- An error ends the scan. -/
def scanSurface (observedAt : String) (round : Nat) (surface : SurfaceRecord) (report : DiscoveryReport)
    (store : SessionStore) : Except AnyhowError (DiscoveryReport × SessionStore) :=
  match adapter.capabilities round surface with
  | .error e =>
    .ok ({ report with failures := report.failures ++ [{ surfaceId := surface.id, error := e.text }] },
      store)
  | .ok capabilities =>
    match resolveSurface state round surface with
    | .error e => .error e
    | .ok resolution =>
      let kind : ObservationKind :=
        if store.readObservations (some surface.id) = [] then .discovered else .updated
      let session := resolution.session
      match store.appendObservation { seq := 0, observedAt, surface, session, capabilities, kind } with
      | none => .error (.msg "database or disk is full")
      | some (_, store) =>
        .ok ({ report with
            recorded := report.recorded + 1
            results := report.results ++
              [{ surfaceId := surface.id, harness := surfaceHarness surface
                 sessionId := session.map AgentSession.sessionId, kind, capabilities, session }] },
          store)

/-- What an abandoned scan has appended stays in the store. -/
def scanSurfaces (observedAt : String) :
    Nat → List SurfaceRecord → DiscoveryReport → SessionStore →
      Except AnyhowError DiscoveryReport × SessionStore
  | _, [], report, store => (.ok report, store)
  | round, surface :: surfaces, report, store =>
    match scanSurface adapter state observedAt round surface report store with
    | .error e => (.error e, store)
    | .ok (report, store) => scanSurfaces observedAt (round + 1) surfaces report store

def scanAndRecord (store : SessionStore) (observedAt : String) :
    Except AnyhowError DiscoveryReport × SessionStore :=
  if Text.trim observedAt.toList = [] then (.error (.msg "observed_at must not be empty"), store)
  else
    match adapter.discover with
    | .error e => (.error (e.context "discover terminal surfaces"), store)
    | .ok surfaces =>
      scanSurfaces adapter state observedAt 0 surfaces
        { scanned := surfaces.length, recorded := 0, failures := [], results := [] } store

end Scan

end ShareCli.Session
