import ShareCli.Foundation.Machine
import ShareCli.Foundation.Text

/-!
# The environment of spawned processes

`ProcessPool::spawn` (`src/runtime/pool.rs`), `EnvGuard` (`src/runtime/process_info.rs`), the overrides of
the spawn policy (`src/spawn_policy.rs`) and the trace context (`src/otel.rs`).

On a thread of its own a call overrides variables in the environment of the whole process, one after the
other, starts the child, and drops the guards that put back what was there before. Each of these is one step.
-/

namespace ShareCli.Spawn

open Foundation

abbrev Env : Type := List Char → Option (List UInt8)

/-- A value that is not Unicode is as good as none. -/
def Env.var (env : Env) (key : List Char) : Option (List Char) := (env key).bind Text.decodeUtf8

def Env.setVar (env : Env) (key value : List Char) : Env := Function.update env key (some (Text.encodeUtf8 value))

def Env.removeVar (env : Env) (key : List Char) : Env := Function.update env key none

/-- The values to put back. -/
structure EnvGuard where
  key : List Char
  prev : Option (List Char)
deriving DecidableEq

def EnvGuard.drop (guard : EnvGuard) (env : Env) : Env :=
  match guard.prev with
  | some v => env.setVar guard.key v
  | none => env.removeVar guard.key

def isBuildHarness (harness : List Char) : Bool :=
  ["cargo", "rustc", "build", "make", "cmake", "ninja", "bazel"].any fun name => name.toList = harness

structure SpawnPolicyConfig where
  maxConcurrentBuilds : Nat
  useSccache : Bool

structure Platform where
  toStringLossy : List UInt8 → List Char
  /-- Whether one of the directories of a search path has `sccache` in it. -/
  hasSccache : List UInt8 → Bool

/-- Where and how processes start. -/
structure ProcessPool where
  platform : Platform
  spawnPolicy : Option SpawnPolicyConfig

variable (platform : Platform)

def sccacheOnPath (env : Env) : Bool := (env "PATH".toList).any platform.hasSccache

def buildEnvOverrides (config : SpawnPolicyConfig) (env : Env) :
    List (List Char × List Char) :=
  ("CARGO_BUILD_JOBS".toList, Nat.toDigits 10 config.maxConcurrentBuilds) ::
    if config.useSccache && sccacheOnPath platform env then [("RUSTC_WRAPPER".toList, "sccache".toList)] else []

def traceparentSpawnEnv (context : Option (List Char)) (env : Env) :
    Option (List Char × List Char) :=
  if (env "TRACEPARENT".toList).isSome then none
  else
    match ((env "traceparent".toList).map platform.toStringLossy).filter (· ≠ []) with
    | some value => some ("TRACEPARENT".toList, value)
    | none => (context.filter (· ≠ [])).map (Prod.mk "TRACEPARENT".toList)

structure SpawnRequest where
  cmd : List Char
  harness : Option (List Char)
  context : Option (List Char)

namespace ProcessPool

def isBuild (request : SpawnRequest) : Bool := isBuildHarness (request.harness.getD request.cmd)

def policyFor (pool : ProcessPool) (request : SpawnRequest) : Option SpawnPolicyConfig :=
  if isBuild request then pool.spawnPolicy else none

def extraEnv (pool : ProcessPool) (request : SpawnRequest) (env : Env) : List (List Char × List Char) :=
  ((pool.policyFor request).elim [] fun config => buildEnvOverrides pool.platform config env) ++
    (traceparentSpawnEnv pool.platform request.context env).toList

end ProcessPool

inductive SpawnPhase where
  /-- The next override is about to be made; with none left, the child is about to be started. -/
  | saving (todo : List (List Char × List Char))
  /-- The value of a variable has been saved, and the new one is about to be set. -/
  | setting (prev : Option (List Char)) (next : List Char × List Char) (todo : List (List Char × List Char))
  /-- The guards are dropped, the first one first. -/
  | restoring (guards : List EnvGuard)
deriving DecidableEq

/-- A call of `spawn`. -/
structure SpawnCall where
  permit : Bool
  overrides : List (List Char × List Char)
  phase : SpawnPhase
  guards : List EnvGuard := []
  child : Option Env := none

/-- The environment and the calls. -/
structure SpawnState where
  env : Env
  calls : List SpawnCall

inductive SpawnEvent where
  | spawn (request : SpawnRequest)
  | proceed (index : Nat)
  /-- The runtime cannot be built or the child cannot be started. -/
  | fail (index : Nat)

namespace SpawnCall

variable (call : SpawnCall)

def finished : Bool := call.phase = .restoring []

def outside : Bool := call.finished || (call.phase = .saving call.overrides)

def proceed (env : Env) : Option (SpawnCall × Env) :=
  match call.phase with
  | .saving [] => some ({ call with child := some env, phase := .restoring call.guards }, env)
  | .saving (next :: todo) => some ({ call with phase := .setting (env.var next.1) next todo }, env)
  | .setting prev next todo =>
    some ({ call with phase := .saving todo, guards := call.guards ++ [⟨next.1, prev⟩] },
      env.setVar next.1 next.2)
  | .restoring [] => none
  | .restoring (guard :: guards) => some ({ call with phase := .restoring guards }, guard.drop env)

def fail : Option SpawnCall :=
  if call.phase = .saving [] then some { call with phase := .restoring call.guards } else none

end SpawnCall

def SpawnState.permits (s : SpawnState) : Nat := s.calls.countP fun call => call.permit && !call.finished

def SpawnState.step (pool : ProcessPool) (s : SpawnState) : SpawnEvent → Option SpawnState
  | .spawn request =>
    let overrides := pool.extraEnv request s.env
    let call := { permit := (pool.policyFor request).isSome, overrides, phase := .saving overrides }
    -- A build waits for a permit.
    if (pool.policyFor request).all fun config => s.permits < max config.maxConcurrentBuilds 1 then
      some { s with calls := s.calls ++ [call] }
    else none
  | .proceed index =>
    (s.calls[index]?).bind fun call =>
      (call.proceed s.env).map fun (call, env) => { env, calls := s.calls.set index call }
  | .fail index =>
    (s.calls[index]?).bind fun call =>
      call.fail.map fun call => { s with calls := s.calls.set index call }

def spawns (pool : ProcessPool) (initial : Env) : Machine SpawnState SpawnEvent where
  init := { env := initial, calls := [] }
  step := SpawnState.step pool

end ShareCli.Spawn
