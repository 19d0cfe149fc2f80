import Mathlib.Data.List.Basic

/-!
# JSON texts

The grammar of JSON, as the `serde_json` crate reads and prints it: a recursive-descent reader from characters to
a syntax tree, which keeps what different readers judge differently: the members of an object in their order with
repeated names, `\u` escapes as code units that may or may not form characters, and numbers as they are written.
-/

namespace ShareCli.Foundation

/-- A character, written directly or by a short escape, or a `\u` escape, which names a UTF-16 code unit. -/
inductive StrUnit where
  | char (c : Char)
  | code (u : Nat)
  deriving DecidableEq

inductive Json where
  | null
  | bool (b : Bool)
  | num (literal : List Char)
  | str (s : List StrUnit)
  | arr (items : List Json)
  | obj (members : List (List StrUnit × Json))

namespace Json

abbrev Reader (α : Type) := List Char → Option (α × List Char)

def Reader.map {α β : Type} (f : α → β) (read : Reader α) : Reader β := fun cs =>
  (read cs).map fun p => (f p.1, p.2)

def isSpace (c : Char) : Bool := c = ' ' || c = '\n' || c = '\t' || c = '\r'

def skip (cs : List Char) : List Char := cs.dropWhile isSpace

def hexVal (c : Char) : Option Nat :=
  if '0' ≤ c ∧ c ≤ '9' then some (c.toNat - '0'.toNat)
  else if 'a' ≤ c ∧ c ≤ 'f' then some (c.toNat - 'a'.toNat + 10)
  else if 'A' ≤ c ∧ c ≤ 'F' then some (c.toNat - 'A'.toNat + 10)
  else none

def unescape : Char → Option Char
  | '"' => some '"'
  | '\\' => some '\\'
  | '/' => some '/'
  | 'b' => some '\x08'
  | 'f' => some '\x0c'
  | 'n' => some '\n'
  | 'r' => some '\r'
  | 't' => some '\t'
  | _ => none

def pushUnit (u : StrUnit) (p : List StrUnit × List Char) : List StrUnit × List Char := (u :: p.1, p.2)

def stringBody : Reader (List StrUnit)
  | [] => none
  | '"' :: r => some ([], r)
  | '\\' :: 'u' :: a :: b :: c :: d :: r =>
    match hexVal a, hexVal b, hexVal c, hexVal d with
    | some a, some b, some c, some d =>
      (stringBody r).map (pushUnit (.code (((a * 16 + b) * 16 + c) * 16 + d)))
    | _, _, _, _ => none
  | '\\' :: e :: r => (unescape e).bind fun c => (stringBody r).map (pushUnit (.char c))
  | c :: r => if c.toNat < 0x20 then none else (stringBody r).map (pushUnit (.char c))

def scanDigits : Reader (List Char) := fun cs =>
  match cs.takeWhile Char.isDigit with
  | [] => none
  | ds => some (ds, cs.dropWhile Char.isDigit)

def scanInt : Reader (List Char)
  | '0' :: c :: r => if c.isDigit then none else some (['0'], c :: r)
  | cs => scanDigits cs

def scanFraction : Reader (List Char)
  | '.' :: r => Reader.map ('.' :: ·) scanDigits r
  | cs => some ([], cs)

def scanSign : List Char → List Char × List Char
  | '+' :: r => (['+'], r)
  | '-' :: r => (['-'], r)
  | cs => ([], cs)

def scanExponent : Reader (List Char)
  | [] => some ([], [])
  | c :: r =>
    if c = 'e' ∨ c = 'E' then
      Reader.map (c :: (scanSign r).1 ++ ·) scanDigits (scanSign r).2
    else some ([], c :: r)

def scanMinus : List Char → List Char × List Char
  | '-' :: r => (['-'], r)
  | cs => ([], cs)

def scanNumber : Reader (List Char) := fun cs =>
  (scanInt (scanMinus cs).2).bind fun int =>
    (scanFraction int.2).bind fun fraction =>
      (scanExponent fraction.2).map fun exponent =>
        ((scanMinus cs).1 ++ int.1 ++ fraction.1 ++ exponent.1, exponent.2)

/-! ### Values -/

/-- What follows the opening character of an array or an object: the closing character, or items. -/
def contents {α : Type} (close : Char) (items : Reader (List α)) : Reader (List α) := fun cs =>
  match skip cs with
  | [] => none
  | c :: r => if c = close then some ([], r) else items (c :: r)

/-- What follows an item `v` of an array or an object: the items after a comma, or the closing
character. -/
def itemsAfter {α : Type} (close : Char) (items : Reader (List α)) (v : α) : Reader (List α) := fun cs =>
  match skip cs with
  | [] => none
  | c :: r =>
    if c = ',' then Reader.map (v :: ·) items r
    else if c = close then some ([v], r)
    else none

def valueWith (elements : Reader (List Json)) (members : Reader (List (List StrUnit × Json))) :
    Reader Json := fun cs =>
  match skip cs with
  | '"' :: r => Reader.map .str stringBody r
  | '[' :: r => Reader.map .arr (contents ']' elements) r
  | '{' :: r => Reader.map .obj (contents '}' members) r
  | 'n' :: 'u' :: 'l' :: 'l' :: r => some (.null, r)
  | 't' :: 'r' :: 'u' :: 'e' :: r => some (.bool true, r)
  | 'f' :: 'a' :: 'l' :: 's' :: 'e' :: r => some (.bool false, r)
  | r => Reader.map .num scanNumber r

def elementsWith (value : Reader Json) (elements : Reader (List Json)) : Reader (List Json) := fun cs =>
  (value cs).bind fun v => itemsAfter ']' elements v.1 v.2

def membersWith (value : Reader Json) (members : Reader (List (List StrUnit × Json))) :
    Reader (List (List StrUnit × Json)) := fun cs =>
  match skip cs with
  | '"' :: r =>
    (stringBody r).bind fun k =>
      match skip k.2 with
      | ':' :: r => (value r).bind fun v => itemsAfter '}' members (k.1, v.1) v.2
      | _ => none
  | _ => none

mutual

def value : Nat → Reader Json
  | 0 => fun _ => none
  | fuel + 1 => valueWith (elements fuel) (members fuel)

def elements : Nat → Reader (List Json)
  | 0 => fun _ => none
  | fuel + 1 => elementsWith (value fuel) (elements fuel)

def members : Nat → Reader (List (List StrUnit × Json))
  | 0 => fun _ => none
  | fuel + 1 => membersWith (value fuel) (members fuel)

end

/-- The fuel is more than any text of this length uses. -/
def parse (cs : List Char) : Option Json :=
  (value (2 * cs.length + 1) cs).bind fun p => if skip p.2 = [] then some p.1 else none

end Json

/-- The control characters with an escape of one letter. -/
def StrUnit.hasShortEscape (c : Char) : Bool := c = '\x08' || c = '\t' || c = '\n' || c = '\x0c' || c = '\r'

def StrUnit.ofChar (c : Char) : StrUnit :=
  if c.toNat < 0x20 ∧ StrUnit.hasShortEscape c = false then .code c.toNat else .char c

def StrUnit.render : StrUnit → List Char
  | .char c =>
    if c = '"' then ['\\', '"']
    else if c = '\\' then ['\\', '\\']
    else if c = '\x08' then ['\\', 'b']
    else if c = '\t' then ['\\', 't']
    else if c = '\n' then ['\\', 'n']
    else if c = '\x0c' then ['\\', 'f']
    else if c = '\r' then ['\\', 'r']
    else [c]
  | .code u =>
    ['\\', 'u', Nat.digitChar (u / 4096 % 16), Nat.digitChar (u / 256 % 16),
      Nat.digitChar (u / 16 % 16), Nat.digitChar (u % 16)]

namespace Json

def renderString (s : List StrUnit) : List Char := '"' :: (s.flatMap StrUnit.render ++ ['"'])

mutual

def render : Json → List Char
  | .null => ['n', 'u', 'l', 'l']
  | .bool true => ['t', 'r', 'u', 'e']
  | .bool false => ['f', 'a', 'l', 's', 'e']
  | .num literal => literal
  | .str s => renderString s
  | .arr items => '[' :: (renderItems items ++ [']'])
  | .obj members => '{' :: (renderMembers members ++ ['}'])

def renderItems : List Json → List Char
  | [] => []
  | [v] => render v
  | v :: vs => render v ++ ',' :: renderItems vs

def renderMembers : List (List StrUnit × Json) → List Char
  | [] => []
  | [(k, v)] => renderString k ++ ':' :: render v
  | (k, v) :: ms => renderString k ++ ':' :: (render v ++ ',' :: renderMembers ms)

end

def string (s : List Char) : Json := .str (s.map StrUnit.ofChar)

def nat (n : Nat) : Json := .num (Nat.toDigits 10 n)

def object (members : List (String × Json)) : Json :=
  .obj (members.map fun m => (m.1.toList.map StrUnit.ofChar, m.2))

end Json

end ShareCli.Foundation
