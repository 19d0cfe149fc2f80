import ShareCli.Configuration.Store
import ShareCli.Configuration.Validator
import ShareCli.Foundation.Decimal
import ShareCli.Foundation.ValueTree

/-!
# `sharecli config get` and `config set` (`config_edit.rs`, `config_cmd.rs`)

A value is printed without its type, and what is typed for it is read by the type of the value it replaces. What
`serde_json` and `str::parse` print and read is given, and so are the tree of a configuration and the configuration
of a tree.
-/

namespace ShareCli.Commands.ConfigEdit

open Foundation ShareCli.Configuration Decimal Option

def assign : List String → Value → Value → Except String Unit × Value :=
  Value.assign fun segment => "'" ++ segment ++ "' is not a table"

/-- `serde_json::to_value` and `serde_json::from_value` at the type `Config`. -/
structure ConfigSerde where
  toValue : Config → Value
  fromValue : Value → Option Config

/-- The texts of `serde_json` and of floating-point numbers. -/
structure Texts where
  toString : Value → String
  fromStr : String → Option Value
  printFloat : List Char → String
  parseFloat : String → Option (List Char)
  finite : List Char → Bool

/-- Why an edited configuration is not taken over. -/
inductive Refusal where
  | path (reason : String)
  | deserialize
  | invalid (errors : List ValidationError)

inductive CommandError where
  | file (error : FileError)
  | invalidKey (key : String)
  | unknownKey (key : String)
  | refused (refusal : Refusal)

def splitKey (key : String) : List String := (key.toList.splitOn '.').map String.ofList

def splitPath (key : String) : Except CommandError (List String) :=
  if (splitKey key).any isBlank then .error (.invalidKey key) else .ok (splitKey key)

def parseBool : String → Option Bool
  | "true" => some true
  | "false" => some false
  | _ => none

def fromI64 (n : Int) : Value := .num (if n < 0 then .negInt n.natAbs else .posInt n.natAbs)

def ConfigSerde.revise (serde : ConfigSerde) (cfg : Config) (edit : Value → Except String Unit × Value) :
    Except Refusal Config :=
  match edit (serde.toValue cfg) with
  | (.error reason, _) => .error (.path reason)
  | (.ok _, root) =>
    match serde.fromValue root with
    | none => .error .deserialize
    | some candidate =>
      match validateConfig candidate with
      | [] => .ok candidate
      | errors => .error (.invalid errors)

namespace Texts

variable (texts : Texts)

def print : Value → String
  | .bool true => "true"
  | .bool false => "false"
  | .num (.posInt n) => String.ofList (formatSigned n)
  | .num (.negInt n) => String.ofList (formatSigned (-n))
  | .num (.float x) => texts.printFloat x
  | value => texts.toString value

def fromF64 (x : List Char) : Value := if texts.finite x then .num (.float x) else .null

def coerce (existing : Option Value) (raw : String) : Value :=
  match existing with
  | some (.bool _) => ((parseBool raw).map Value.bool).getD (.str raw)
  | some (.num _) =>
    match parseSigned (2 ^ 63) raw.toList with
    | some n => fromI64 n
    | none =>
      match parseUnsigned (2 ^ 64) raw.toList with
      | some n => .num (.posInt n)
      | none => ((texts.parseFloat raw).map texts.fromF64).getD (.str raw)
  | some (.str _) => .str raw
  | _ => (texts.fromStr raw).getD (.str raw)

def render : Value → String
  | .str s => s
  | other => texts.print other

section Commands

variable (serde : ConfigSerde) (env : ConfigEnv) (toml : TomlFormat) (writes : Bool)

def get (files : Files) (key : String) : Except CommandError String :=
  match Config.load env toml files, splitPath key with
  | .error e, _ => .error (.file e)
  | .ok _, .error e => .error e
  | .ok cfg, .ok parts =>
    match (serde.toValue cfg).lookup parts with
    | some value => .ok (texts.render value)
    | none => .error (.unknownKey key)

def set (files : Files) (key raw : String) : Except CommandError String × Files :=
  match Config.load env toml files, splitPath key with
  | .error e, _ => (.error (.file e), files)
  | .ok _, .error e => (.error e, files)
  | .ok cfg, .ok parts =>
    let new := texts.coerce ((serde.toValue cfg).lookup parts) raw
    match serde.revise cfg (assign parts new) with
    | .error refusal => (.error (.refused refusal), files)
    | .ok candidate =>
      match candidate.save env toml writes files with
      | (.error e, files) => (.error (.file e), files)
      | (.ok _, files) => (.ok (key ++ " = " ++ texts.render new), files)

end Commands

/-- What is assumed of a value: an integer has 64 bits, and the libraries read back what they print, where
no floating-point number is printed as an integer is. -/
def RoundTrips : Value → Prop
  | .bool _ | .str _ => True
  | .num (.posInt n) => n < 2 ^ 64
  | .num (.negInt n) => 0 < n ∧ n ≤ 2 ^ 63
  | .num (.float x) => texts.finite x = true ∧ texts.parseFloat (texts.printFloat x) = some x ∧
      ('.' ∈ (texts.printFloat x).toList ∨ 'e' ∈ (texts.printFloat x).toList)
  | value => texts.fromStr (texts.toString value) = some value

end Texts

/-- **Edits of a path.** An assignment succeeds exactly if what is there above the path are objects; what is
beside the path is as before. -/
theorem assign_spec (root new : Value) (path : List String) :
    ((assign path new root).1 = .ok () ↔
      ∀ q w, q <+: path → q ≠ path → root.lookup q = some w → w.isObject = true) ∧
    ((assign path new root).1 = .ok () → (assign path new root).2.lookup path = some new ∧
      ∀ q, ¬ q <+: path → ¬ path <+: q → (assign path new root).2.lookup q = root.lookup q) ∧
    ((assign path new root).1 ≠ .ok () → (assign path new root).2 = root) := by
  refine ⟨Value.assign_ok_iff, fun h => ⟨Value.lookup_assign h, ?_⟩, Value.assign_failed⟩
  intro q hq hp
  exact Value.lookup_assign_apart hq hp h

variable {texts : Texts}

theorem coerce_posInt {old : Number} {n : Nat} (h : n < 2 ^ 64) :
    texts.coerce (some (.num old)) (String.ofList (formatSigned n)) = .num (.posInt n) := by
  simp only [Texts.coerce, String.toList_ofList]
  by_cases hs : n < 2 ^ 63
  · have hi : parseSigned (2 ^ 63) (formatSigned n) = some (n : Int) :=
      parseSigned_formatSigned (by omega) (by omega)
    have hn : ¬ (n : Int) < 0 := by omega
    simp only [hi, fromI64, if_neg hn, Int.natAbs_natCast]
  · have hi : parseSigned (2 ^ 63) (Nat.toDigits 10 n) = none := parseSigned_of_le (by omega)
    simp only [formatSigned_natCast, hi, parseUnsigned_toDigits h]

theorem coerce_negInt {old : Number} {n : Nat} (hn : 0 < n) (h : n ≤ 2 ^ 63) :
    texts.coerce (some (.num old)) (String.ofList (formatSigned (-n))) = .num (.negInt n) := by
  have hi : parseSigned (2 ^ 63) (formatSigned (-n)) = some (-(n : Int)) :=
    parseSigned_formatSigned (by omega) (by omega)
  have hlt : -(n : Int) < 0 := by omega
  simp only [Texts.coerce, String.toList_ofList, hi, fromI64, if_pos hlt, Int.natAbs_neg, Int.natAbs_natCast]

theorem coerce_float {old : Number} {x : List Char} (h : texts.RoundTrips (.num (.float x))) :
    texts.coerce (some (.num old)) (texts.printFloat x) = .num (.float x) := by
  obtain ⟨hf, hp, hm⟩ := h
  have hi : parseSigned (2 ^ 63) (texts.printFloat x).toList = none ∧
      parseUnsigned (2 ^ 64) (texts.printFloat x).toList = none := by
    rcases hm with hm | hm
    · exact parse_of_mark hm (by decide) (by decide) (by decide)
    · exact parse_of_mark hm (by decide) (by decide) (by decide)
  simp only [Texts.coerce, hi, hp, Texts.fromF64, if_pos hf, map_some, getD_some]

theorem coerce_print {v : Value} (h : texts.RoundTrips v) : texts.coerce (some v) (texts.render v) = v := by
  cases v with
  | null | arr items | obj entries =>
    have hs : texts.fromStr (texts.toString _) = some _ := h
    exact congrArg (getD · _) hs
  | bool b => cases b <;> rfl
  | str s => rfl
  | num n =>
    cases n with
    | posInt n => exact coerce_posInt h
    | negInt n => exact coerce_negInt h.1 h.2
    | float x => exact coerce_float h

section Commands

variable {serde : ConfigSerde} {env : ConfigEnv} {toml : TomlFormat} {writes : Bool} {files : Files} {cfg : Config}
  {key : String} {path : List String} {v : Value}

theorem revise_same (hs : serde.fromValue (serde.toValue cfg) = some cfg)
    (hl : (serde.toValue cfg).lookup path = some v) {candidate : Config}
    (h : serde.revise cfg (assign path v) = .ok candidate) : candidate = cfg := by
  have ha : assign path v (serde.toValue cfg) = (.ok (), serde.toValue cfg) := Value.assign_lookup hl
  rw [ConfigSerde.revise, ha] at h
  simp only [hs] at h
  split at h
  · exact (Except.ok.inj h).symm
  · cases h

theorem load_set_same (hs : serde.fromValue (serde.toValue cfg) = some cfg)
    (hload : Config.load env toml files = .ok cfg) (hk : splitPath key = .ok path)
    (hl : (serde.toValue cfg).lookup path = some v) {raw : String} (hraw : texts.coerce (some v) raw = v) :
    Config.load env toml (texts.set serde env toml writes files key raw).2 = .ok cfg := by
  simp only [Texts.set, hload, hk, hl, hraw]
  split
  · exact hload
  · rename_i candidate hr
    split
    · rename_i e after hsave
      rw [Config.save_error hsave]
      exact hload
    · rename_i u after hsave
      rw [← revise_same hs hl hr]
      exact Config.load_save hsave

end Commands

/-- **Round trip of a value.** A `config set` of what `config get` prints leaves the configuration as it was. -/
theorem set_of_get {v : Value} (h : texts.RoundTrips v) : texts.coerce (some v) (texts.render v) = v ∧
    ∀ serde env toml writes files cfg key path, serde.fromValue (serde.toValue cfg) = some cfg →
      Config.load env toml files = .ok cfg → splitPath key = .ok path →
      (serde.toValue cfg).lookup path = some v → ∃ raw, texts.get serde env toml files key = .ok raw ∧
        Config.load env toml (texts.set serde env toml writes files key raw).2 = .ok cfg := by
  refine ⟨coerce_print h, ?_⟩
  intro serde env toml writes files cfg key path hs hload hk hl
  refine ⟨texts.render v, ?_, load_set_same hs hload hk hl (coerce_print h)⟩
  simp only [Texts.get, hload, hk, hl]

def integerTexts : Texts := ⟨fun _ => "null", fun _ => none, String.ofList, fun _ => none, fun _ => true⟩

/-- The section `runtime`, of which only the limit of the memory is written. -/
def memorySerde : ConfigSerde where
  toValue cfg := .obj [("runtime", .obj
    [("max_memory_mb", (cfg.runtime.maxMemoryMb.map fun n => .num (.posInt n.toNat)).getD .null)])]
  fromValue root :=
    match root.lookup ["runtime", "max_memory_mb"] with
    | some (.num (.posInt n)) => some { runtime := { maxMemoryMb := some (.ofNat n) } }
    | _ => none

theorem set_of_get_max_memory :
    integerTexts.get memorySerde userEnv (.knowing {}) (fun _ => none) "runtime.max_memory_mb" = .ok "4096" ∧
      (integerTexts.set memorySerde userEnv (.knowing {}) true (fun _ => none) "runtime.max_memory_mb"
        "4096").1.isOk = true ∧
      ∃ raw, integerTexts.get memorySerde userEnv (.knowing {}) (fun _ => none) "runtime.max_memory_mb" = .ok raw ∧
        Config.load userEnv (.knowing {}) (integerTexts.set memorySerde userEnv (.knowing {}) true (fun _ => none)
          "runtime.max_memory_mb" raw).2 = .ok {} := by
  have h : integerTexts.RoundTrips (.num (.posInt 4096)) := show 4096 < 2 ^ 64 by decide
  refine ⟨by rfl, by decide +kernel, ?_⟩
  exact (set_of_get h).2 memorySerde userEnv (.knowing {}) true (fun _ => none) {} "runtime.max_memory_mb"
    ["runtime", "max_memory_mb"] rfl rfl rfl rfl

end ShareCli.Commands.ConfigEdit
