import Mathlib.Algebra.Order.Ring.Nat
import ShareCli.Foundation.Json

/-!
# Deserialising JSON

After the crates `serde` and `serde_json`: a tree becomes a `Value`, where the last of several members with one
name is kept, or a struct. A derived struct deserialiser takes an object, of which it refuses a repeated field,
or an array.
-/

namespace ShareCli.Foundation

def StrUnit.isHighSurrogate (u : Nat) : Bool := 0xd800 ≤ u && u ≤ 0xdbff

def StrUnit.isLowSurrogate (u : Nat) : Bool := 0xdc00 ≤ u && u ≤ 0xdfff

/-- A high surrogate and a low one that follows it at once are one character, and no surrogate stands alone. -/
def StrUnit.decode : List StrUnit → Option (List Char)
  | [] => some []
  | .char c :: s => (decode s).map (c :: ·)
  | .code u :: .code v :: s =>
    if isHighSurrogate u then
      if isLowSurrogate v then
        (decode s).map (Char.ofNat (0x10000 + (u - 0xd800) * 0x400 + (v - 0xdc00)) :: ·)
      else none
    else if isLowSurrogate u then none
    else (decode (.code v :: s)).map (Char.ofNat u :: ·)
  | .code u :: s =>
    if isHighSurrogate u || isLowSurrogate u then none else (decode s).map (Char.ofNat u :: ·)

def StrUnit.decodeString (s : List StrUnit) : Option String := (decode s).map String.ofList

/-- `serde_json::Number`; a floating-point number is kept as its literal. -/
inductive Number where
  | posInt (n : Nat)
  | negInt (n : Nat)
  | float (literal : List Char)
  deriving DecidableEq

def Number.digits? (cs : List Char) : Option Nat :=
  if cs.all Char.isDigit then some (Nat.ofDigitChars 10 cs 0) else none

variable (finite : List Char → Bool)

def Number.ofFloat (literal : List Char) : Option Number :=
  if finite literal then some (.float literal) else none

/-- An integer that fits `u64` or `i64`, and otherwise, as for a negative zero, a floating-point number. -/
def Number.ofLiteral : List Char → Option Number
  | '-' :: ds =>
    match digits? ds with
    | some n => if 1 ≤ n ∧ n ≤ 2 ^ 63 then some (.negInt n) else ofFloat finite ('-' :: ds)
    | none => ofFloat finite ('-' :: ds)
  | ds =>
    match digits? ds with
    | some n => if n < 2 ^ 64 then some (.posInt n) else ofFloat finite ds
    | none => ofFloat finite ds

/-- `serde_json::Value`; the entries of an object have different names. -/
inductive Value where
  | null
  | bool (b : Bool)
  | num (n : Number)
  | str (s : String)
  | arr (items : List Value)
  | obj (entries : List (String × Value))

def lastWins {α : Type} : List (String × α) → List (String × α)
  | [] => []
  | e :: es => if e.1 ∈ es.map Prod.fst then lastWins es else e :: lastWins es

mutual

/-- `depth` is how many more nested containers the deserialiser may enter. -/
def Json.toValue (finite : List Char → Bool) (depth : Nat) : Json → Option Value
  | .null => some .null
  | .bool b => some (.bool b)
  | .num literal => (Number.ofLiteral finite literal).map .num
  | .str s => (StrUnit.decodeString s).map .str
  | .arr items =>
    if depth ≤ 1 then none else (Json.toValues finite (depth - 1) items).map .arr
  | .obj members =>
    if depth ≤ 1 then none
    else (Json.toEntries finite (depth - 1) members).map fun es => .obj (lastWins es)

def Json.toValues (finite : List Char → Bool) (depth : Nat) : List Json → Option (List Value)
  | [] => some []
  | j :: js =>
    (Json.toValue finite depth j).bind fun v => (Json.toValues finite depth js).map (v :: ·)

def Json.toEntries (finite : List Char → Bool) (depth : Nat) :
    List (List StrUnit × Json) → Option (List (String × Value))
  | [] => some []
  | (k, j) :: ms =>
    (StrUnit.decodeString k).bind fun k =>
      (Json.toValue finite depth j).bind fun v =>
        (Json.toEntries finite depth ms).map ((k, v) :: ·)

end

mutual

def Value.nesting : Value → Nat
  | .arr items => Value.nestingItems items + 1
  | .obj entries => Value.nestingEntries entries + 1
  | _ => 0

def Value.nestingItems : List Value → Nat
  | [] => 0
  | v :: vs => max (Value.nesting v) (Value.nestingItems vs)

def Value.nestingEntries : List (String × Value) → Nat
  | [] => 0
  | (_, v) :: es => max (Value.nesting v) (Value.nestingEntries es)

end

def recursionLimit : Nat := 128

def Value.fromStr (text : List Char) : Option Value :=
  (Json.parse text).bind (Json.toValue finite recursionLimit)

def Value.get (v : Value) (name : String) : Option Value :=
  match v with
  | .obj entries => entries.lookup name
  | _ => none

def Value.asU64 : Value → Option UInt64
  | .num (.posInt n) => if n < 2 ^ 64 then some (UInt64.ofNat n) else none
  | _ => none

def Value.asStr : Value → Option String
  | .str s => some s
  | _ => none

def Value.asBool : Value → Option Bool
  | .bool b => some b
  | _ => none

def Value.asArray : Value → Option (List Value)
  | .arr items => some items
  | _ => none

def Value.isObject : Value → Bool
  | .obj _ => true
  | _ => false

/-- What a derived deserialiser reads a struct from. -/
inductive Fields (α : Type) where
  | map (entries : List (String × α))
  | seq (items : List α)

namespace Fields

variable {α β : Type} (names : List String)

/-- No field of the struct is given twice, and an array has no items beyond the fields. -/
def accepts : Fields α → Bool
  | .map entries => ((entries.map Prod.fst).filter (· ∈ names)).Nodup
  | .seq items => items.length ≤ names.length

def get (name : String) : Fields α → Option α
  | .map entries => entries.lookup name
  | .seq items => (items[names.idxOf name]? : Option α)

def required (fs : Fields α) (name : String) (decode : α → Option β) : Option β :=
  (fs.get names name).bind decode

def defaulted (fs : Fields α) (name : String) (default : β) (decode : α → Option β) : Option β :=
  match fs.get names name with
  | some a => decode a
  | none => some default

/-- A field of an `Option` type: it may be missing in an object, but not in an array. -/
def optional (fs : Fields α) (name : String) (decode : α → Option (Option β)) : Option (Option β) :=
  match fs with
  | .map _ => fs.defaulted names name none decode
  | .seq _ => fs.required names name decode

end Fields

structure Source (α : Type) where
  isNull : α → Bool
  string : α → Option String
  unsigned : α → Option Nat
  value : α → Option Value

namespace Source

variable {α β : Type}

def option (src : Source α) (decode : α → Option β) (a : α) : Option (Option β) :=
  if src.isNull a then some none else (decode a).map some

def below (src : Source α) (bound : Nat) (a : α) : Option Nat :=
  (src.unsigned a).bind fun n => if n < bound then some n else none

end Source

def Json.source (depth : Nat) : Source Json where
  isNull
    | .null => true
    | _ => false
  string
    | .str s => StrUnit.decodeString s
    | _ => none
  unsigned
    | .num literal => (Number.digits? literal).bind fun n => if n < 2 ^ 64 then some n else none
    | _ => none
  value := Json.toValue finite depth

def Value.source : Source Value where
  isNull
    | .null => true
    | _ => false
  string
    | .str s => some s
    | _ => none
  unsigned
    | .num (.posInt n) => some n
    | _ => none
  value := some

def Json.decodeNames : List (List StrUnit × Json) → Option (List (String × Json))
  | [] => some []
  | (k, j) :: ms =>
    (StrUnit.decodeString k).bind fun k => (Json.decodeNames ms).map ((k, j) :: ·)

def Json.fields : Json → Option (Fields Json)
  | .obj members => (Json.decodeNames members).map .map
  | .arr items => some (.seq items)
  | _ => none

def Json.repeatsField (names : List String) (j : Json) : Bool :=
  match j.fields with
  | some (.map entries) => !(Fields.map entries).accepts names
  | _ => false

def Value.fields : Value → Option (Fields Value)
  | .obj entries => some (.map entries)
  | .arr items => some (.seq items)
  | _ => none

def fromStr {σ : Type} (finite : List Char → Bool) (decode : {α : Type} → Source α → Fields α → Option σ)
    (text : List Char) : Option σ :=
  (Json.parse text).bind fun j => j.fields.bind (decode (Json.source finite (recursionLimit - 1)))

def fromValue {σ : Type} (decode : {α : Type} → Source α → Fields α → Option σ) (v : Value) : Option σ :=
  v.fields.bind (decode Value.source)

end ShareCli.Foundation
