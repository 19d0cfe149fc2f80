import ShareCli.Configuration.Settings
import ShareCli.Foundation.Text

/-!
# Validation of the configuration

`validate_config` collects every violation, section by section.
-/

namespace ShareCli.Configuration

open Foundation

/-- A violation, at the path of the field that has it. -/
structure ValidationError where
  field : String
  message : String
deriving DecidableEq

def check (violated : Bool) (field message : String) : List ValidationError :=
  if violated then [{ field, message }] else []

def isBlank (s : String) : Bool := (Text.trim s.toList).isEmpty

def validatePool (pool : PoolConfig) : List ValidationError :=
  check (pool.maxPerType == 0) "config.pool.max_per_type" "must be greater than 0" ++
  check (pool.idleTimeoutSecs == 0) "config.pool.idle_timeout_secs" "must be greater than 0" ++
  check (pool.idleTimeoutSecs > 3600) "config.pool.idle_timeout_secs" "must be <= 3600 seconds" ++
  check (pool.maxAgeSecs == 0) "config.pool.max_age_secs" "must be greater than 0" ++
  check (pool.maxAgeSecs > 86400) "config.pool.max_age_secs" "must be <= 86400 seconds (24 h)" ++
  check (pool.spawnDelayMs == 0) "config.pool.spawn_delay_ms" "must be greater than 0"

def validateMonitoring (mon : MonitoringConfig) : List ValidationError :=
  check (mon.healthCheckIntervalSecs == 0) "config.monitoring.health_check_interval_secs"
    "must be greater than 0" ++
  check (mon.healthCheckIntervalSecs > 3600) "config.monitoring.health_check_interval_secs"
    "must be <= 3600 seconds" ++
  check (mon.idleThresholdSecs == 0) "config.monitoring.idle_threshold_secs" "must be greater than 0" ++
  check (mon.highMemoryThresholdMb == 0) "config.monitoring.high_memory_threshold_mb" "must be greater than 0"

def validatePort (port : PortConfig) : List ValidationError :=
  check (port.shareweiPort == 0) "config.port.sharewei_port" "must be greater than 0"

def validatePaths (paths : PathsConfig) : List ValidationError :=
  check (isBlank paths.discoveryPath) "config.paths.discovery_path" "must not be empty" ++
  check (isBlank paths.defaultComposeOutput) "config.paths.default_compose_output" "must not be empty"

def validateProjectLimits (limits : ProjectLimitsConfig) : List ValidationError :=
  check (limits.memoryLimitMb == 0) "config.project_limits.memory_limit_mb" "must be greater than 0" ++
  check (limits.maxProcesses == 0) "config.project_limits.max_processes" "must be greater than 0"

def validateRuntime (runtime : RuntimeConfig) : List ValidationError :=
  check (runtime.maxMemoryMb == some 0) "config.runtime.max_memory_mb" "must be greater than 0" ++
  check (runtime.maxProcesses == some 0) "config.runtime.max_processes" "must be greater than 0"

def validateSpawn (spawn : SpawnConfig) : List ValidationError :=
  check (isBlank spawn.defaultHarness) "config.spawn.default_harness" "must not be empty" ++
  check (spawn.pruneIdleSeconds == 0) "config.spawn.prune_idle_seconds" "must be greater than 0"

def validateSpawnPolicy (policy : SpawnPolicyConfig) : List ValidationError :=
  check (policy.maxConcurrentBuilds == 0) "config.spawn_policy.max_concurrent_builds" "must be greater than 0"

def validateCast (cast : CastConfig) : List ValidationError :=
  check (isBlank cast.defaultTransport) "config.cast.default_transport" "must not be empty" ++
  check (cast.handshakeTimeoutMs == 0) "config.cast.handshake_timeout_ms" "must be greater than 0" ++
  check (cast.retryBackoffMs == 0) "config.cast.retry_backoff_ms" "must be greater than 0"

def validateDefaults (defaults : StringMap DefaultHarnessConfig) : List ValidationError :=
  defaults.entries.flatMap fun entry =>
    check (entry.2.maxInstances == 0) ("config.defaults." ++ entry.1 ++ ".max_instances") "must be greater than 0" ++
    check (entry.2.memoryLimitMb == 0) ("config.defaults." ++ entry.1 ++ ".memory_limit_mb") "must be greater than 0"

def validateConfig (config : Config) : List ValidationError :=
  validatePool config.pool ++ validateMonitoring config.monitoring ++ validatePort config.port ++
    validatePaths config.paths ++ validateProjectLimits config.projectLimits ++
    validateRuntime config.runtime ++ validateSpawn config.spawn ++ validateSpawnPolicy config.spawnPolicy ++
    validateCast config.cast ++ validateDefaults config.defaults

end ShareCli.Configuration
