import ShareCli.Configuration.Settings
import ShareCli.Foundation.Path

/-!
# Loading and saving the configuration

`Config::load` and `Config::save`. TOML is given by its two functions. A write of the file happens as a whole or
not at all.
-/

namespace ShareCli.Configuration

open Foundation FilePath

/-- `SHARECLI_CONFIG_PATH`, the user's configuration directory, and whether a test binary runs. -/
structure ConfigEnv where
  explicit : Option (List Char)
  configDir : Option (List Char)
  testBinary : Bool := false

/-- Every member of a configuration has a default, so that the empty text is one. -/
structure TomlFormat where
  print : Config → Option String
  parse : String → Option Config
  parse_print : ∀ {cfg text}, print cfg = some text → parse text = some cfg
  parse_empty : parse "" = some {}

abbrev Files := FilePath → Option String

inductive FileError where
  | noConfigDir
  | testBinary (path : List Char)
  /-- The texts of these errors come from the libraries. -/
  | toml
  | io
deriving DecidableEq

def FileError.message : FileError → Option String
  | .noConfigDir => some "Could not find config directory"
  | .testBinary path => some ("refusing to write the live config (" ++ String.ofList path ++
      ") from a test binary; set SHARECLI_CONFIG_PATH to an isolated path")
  | .toml | .io => none

def userConfigPath (base : List Char) : List Char :=
  FilePath.joinPath (FilePath.joinPath base "sharecli".toList) "config.toml".toList

def Config.configPath (env : ConfigEnv) : Except FileError (List Char) :=
  match env.explicit.filter (· ≠ []), env.configDir with
  | some explicit, _ => .ok explicit
  | none, some base => .ok (userConfigPath base)
  | none, none => .error .noConfigDir

def Config.guardTestWrite (env : ConfigEnv) (path : List Char) : Except FileError Unit :=
  if env.explicit.isSome then .ok ()
  else if env.testBinary then .error (.testBinary path)
  else .ok ()

section Store

variable (env : ConfigEnv) (toml : TomlFormat)

def Config.load (files : Files) : Except FileError Config :=
  match configPath env with
  | .error e => .error e
  | .ok path =>
    match files (components path) with
    | none => .ok {}
    | some text =>
      match toml.parse text with
      | some cfg => .ok cfg
      | none => .error .toml

def Config.output (cfg : Config) : Except FileError (FilePath × String) :=
  match configPath env with
  | .error e => .error e
  | .ok path =>
    match guardTestWrite env path, toml.print cfg with
    | .error e, _ => .error e
    | .ok _, none => .error .toml
    | .ok _, some text => .ok (components path, text)

/-- `writes` says whether the file system takes the file. -/
def Config.save (writes : Bool) (files : Files) (cfg : Config) : Except FileError Unit × Files :=
  match cfg.output env toml with
  | .error e => (.error e, files)
  | .ok (path, text) =>
    if writes then (.ok (), Function.update files path (some text)) else (.error .io, files)

end Store

open Config Option

section Store

variable {env : ConfigEnv} {toml : TomlFormat} {writes : Bool} {fs a : Files} {cfg : Config}

theorem Config.output_ok {p : FilePath} {t : String} (h : cfg.output env toml = .ok (p, t)) :
    ∃ c, configPath env = .ok c ∧ p = components c ∧ toml.print cfg = some t := by
  unfold output at h
  split at h
  · cases h
  · rename_i c hc
    split at h
    · cases h
    · cases h
    · rename_i t' _ hp
      obtain ⟨rfl, rfl⟩ := Prod.mk.inj (Except.ok.inj h)
      exact ⟨c, hc, rfl, hp⟩

theorem Config.load_output {p : FilePath} {t : String} (h : cfg.output env toml = .ok (p, t)) :
    load env toml (Function.update fs p (some t)) = .ok cfg := by
  obtain ⟨c, hp, rfl, hpr⟩ := output_ok h
  simp [load, hp, toml.parse_print hpr]

theorem Config.save_error {e : FileError} (h : cfg.save env toml writes fs = (.error e, a)) : a = fs := by
  unfold save at h
  split at h
  · exact (Prod.mk.inj h).2.symm
  · split at h
    · cases h
    · exact (Prod.mk.inj h).2.symm

theorem Config.load_save (h : cfg.save env toml writes fs = (.ok (), a)) : load env toml a = .ok cfg := by
  unfold save at h
  split at h
  · cases h
  · rename_i p t ho
    split at h
    · rw [← (Prod.mk.inj h).2]
      exact load_output ho
    · cases h

end Store

/-- A format that has texts for two configurations only. -/
def TomlFormat.knowing (other : Config) : TomlFormat where
  print cfg := if cfg = other then some "other" else if cfg = {} then some "" else none
  parse text := if text = "other" then some other else if text = "" then some {} else none
  parse_print := by
    intro cfg text h
    split at h
    · rename_i heq
      obtain rfl := some.inj h
      rw [if_pos rfl, heq]
    · split at h
      · rename_i heq
        obtain rfl := some.inj h
        rw [heq]
        rfl
      · cases h
  parse_empty := rfl

def userEnv : ConfigEnv := { explicit := none, configDir := some "/home/user/.config".toList }

def smallPool : Config := { pool := { maxPerType := 3 } }

end ShareCli.Configuration
