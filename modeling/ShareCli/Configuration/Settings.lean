import Mathlib.Data.List.Nodup

/-!
# The configuration (`src/config.rs`)

The sections with their defaults. How `serde` writes and reads them is not modelled here.
-/

namespace ShareCli.Configuration

/-- A `HashMap` with strings as keys. -/
structure StringMap (α : Type) where
  entries : List (String × α)
  distinct : (entries.map Prod.fst).Nodup
deriving DecidableEq

instance {α : Type} : EmptyCollection (StringMap α) := ⟨⟨[], .nil⟩⟩

/-- How tokens of `serve` are checked. -/
structure ServeJwtConfig where
  issuer : String := ""
  audience : String := ""
  jwksPath : Option String := none
  jwks : Option String := none
deriving DecidableEq

/-- Access to the HTTP server. -/
structure ServeConfig where
  bearerToken : Option String := none
  authMode : Option String := none
  jwt : Option ServeJwtConfig := none
  rateLimitMax : Option UInt64 := none
  rateLimitWindowSecs : Option UInt64 := none
deriving DecidableEq

/-- The JavaScript runtimes and their limits. -/
structure RuntimeConfig where
  nodePath : Option String := none
  bunPath : Option String := none
  maxMemoryMb : Option UInt64 := some 4096
  maxProcesses : Option UInt64 := some 100
deriving DecidableEq

/-- The pool of idle processes. -/
structure PoolConfig where
  enabled : Bool := true
  maxPerType : UInt64 := 5
  idleTimeoutSecs : UInt64 := 300
  maxAgeSecs : UInt64 := 3600
  spawnDelayMs : UInt64 := 100
deriving DecidableEq

/-- Intervals and thresholds of the monitor. -/
structure MonitoringConfig where
  healthCheckIntervalSecs : UInt64 := 30
  idleThresholdSecs : UInt64 := 300
  highMemoryThresholdMb : UInt64 := 4096
  idleProcessThreshold : UInt64 := 5
  perProcessWarnMemoryBytes : UInt64 := 1024 * 1024 * 1024
deriving DecidableEq

/-- The ports that are used. -/
structure PortConfig where
  shareweiPort : UInt16 := 3100
deriving DecidableEq

/-- Where projects are looked for and output is written. -/
structure PathsConfig where
  discoveryPath : String := "~/CodeProjects/Phenotype/repos"
  defaultComposeOutput : String := "process-compose.yml"
deriving DecidableEq

/-- The limits of one harness. -/
structure DefaultHarnessConfig where
  enabled : Bool := true
  maxInstances : UInt64 := 10
  memoryLimitMb : UInt64 := 256
deriving DecidableEq

/-- The limits of one project. -/
structure ProjectLimitsConfig where
  memoryLimitMb : UInt64 := 1024
  maxProcesses : UInt64 := 10
deriving DecidableEq

/-- What `spawn` starts by default. -/
structure SpawnConfig where
  defaultHarness : String := "claude"
  pruneIdleSeconds : UInt64 := 300
deriving DecidableEq

/-- How builds are started. -/
structure SpawnPolicyConfig where
  niceLevel : UInt8 := 10
  maxConcurrentBuilds : UInt64 := 2
  useSccache : Bool := false
deriving DecidableEq

/-- How messages are sent to panes. -/
structure CastConfig where
  defaultTransport : String := "wezterm"
  paneMapPath : Option String := none
  handshakeTimeoutMs : UInt64 := 250
  maxRetryAttempts : UInt32 := 3
  retryBackoffMs : UInt64 := 200
deriving DecidableEq

/-- One named health check. -/
structure HealthCheckConfig where
  intervalSecs : UInt64 := 30
  timeoutSecs : UInt64 := 5
  failureThreshold : UInt32 := 3
  endpoints : List String := []
deriving DecidableEq

/-- Who is notified. -/
structure NotifierConfig where
  desktop : Bool := true
  webhooks : List String := []
deriving DecidableEq

def defaultProjects : StringMap String :=
  ⟨[("helios-cli", "~/CodeProjects/Phenotype/repos/helios-cli"),
    ("portage", "~/CodeProjects/Phenotype/repos/portage"),
    ("agentapi", "~/CodeProjects/Phenotype/repos/agentapi-plusplus"),
    ("cliproxy", "~/CodeProjects/Phenotype/repos/cliproxyapi-plusplus"),
    ("colab", "~/CodeProjects/Phenotype/repos/colab")], by decide⟩

def defaultHarnessConfigs : StringMap DefaultHarnessConfig :=
  ⟨[("claude", { enabled := true, maxInstances := 11, memoryLimitMb := 512 }),
    ("forge", { enabled := true, maxInstances := 20, memoryLimitMb := 256 }),
    ("node", { enabled := true, maxInstances := 30, memoryLimitMb := 256 }),
    ("bun", { enabled := true, maxInstances := 10, memoryLimitMb := 384 })], by decide⟩

/-- All sections, with the defaults of a missing file. -/
structure Config where
  projects : StringMap String := defaultProjects
  runtime : RuntimeConfig := {}
  defaults : StringMap DefaultHarnessConfig := defaultHarnessConfigs
  pool : PoolConfig := {}
  monitoring : MonitoringConfig := {}
  port : PortConfig := {}
  paths : PathsConfig := {}
  projectLimits : ProjectLimitsConfig := {}
  spawn : SpawnConfig := {}
  spawnPolicy : SpawnPolicyConfig := {}
  cast : CastConfig := {}
  healthChecks : StringMap HealthCheckConfig := ∅
  notifications : NotifierConfig := {}
  serve : ServeConfig := {}
  agentPatternsPath : Option String := none
deriving DecidableEq

end ShareCli.Configuration
