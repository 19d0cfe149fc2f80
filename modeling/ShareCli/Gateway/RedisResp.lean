import ShareCli.Foundation.Cursor
import ShareCli.Foundation.Decimal
import ShareCli.Foundation.Text

/-!
# Redis RESP2 (`crates/gateway/src/redis_resp.rs`)

A value is encoded as a line that starts with a byte for its type, and a bulk string or an array has its bytes
or its items behind a line with their number. The parser reserves the announced number of items at once. It panics
on a capacity that no vector can have and on a cursor that does not fit a word, and the process is aborted if the
allocator does not have what is asked for.
-/

namespace ShareCli.Gateway

open Foundation

/-- One value of the protocol; `none` stands for the null string and the null array. -/
inductive RespValue where
  | simpleString (s : String)
  | error (s : String)
  | integer (n : Int64)
  | bulkString (bytes : Option (List UInt8))
  | array (items : Option (List RespValue))

/-- An `Err` that is returned, and the two ways in which nothing is returned. -/
inductive RespFailure where
  | error (message : String)
  | panic
  | abort
deriving DecidableEq

namespace Resp

/-- `isize::MAX`, which also bounds the bytes of a vector or a slice. -/
def isizeMax : Nat := 0x7fffffffffffffff

/-- `size_of::<RespValue>()`: a tag and a string or a vector. -/
def respValueSize : Nat := 32

def cr : UInt8 := 13

def lf : UInt8 := 10

def encodeLine (ty : Char) (text : List Char) : List UInt8 := ty.toUInt8 :: (Text.encodeUtf8 text ++ [cr, lf])

mutual

def encode : RespValue → List UInt8
  | .simpleString s => encodeLine '+' s.toList
  | .error s => encodeLine '-' s.toList
  | .integer n => encodeLine ':' (Decimal.formatSigned n.toInt)
  | .bulkString none => encodeLine '$' ['-', '1']
  | .bulkString (some bytes) => encodeLine '$' (Nat.toDigits 10 bytes.length) ++ (bytes ++ [cr, lf])
  | .array none => encodeLine '*' ['-', '1']
  | .array (some items) => encodeLine '*' (Nat.toDigits 10 items.length) ++ encodeItems items

def encodeItems : List RespValue → List UInt8
  | [] => []
  | item :: items => encode item ++ encodeItems items

end

abbrev Read (α : Type) : Type := Except RespFailure (α × Nat)

variable (input : List UInt8)

/-- The text up to the next carriage return, which a line feed has to follow. -/
def readLine (cur : Nat) : Read (List Char) :=
  let bytes := (input.drop cur).takeWhile (· ≠ cr)
  let stop := cur + bytes.length
  if input.length ≤ stop + 1 then .error (.error "missing CRLF")
  else if input[stop + 1]? ≠ some lf then .error (.error "bad CRLF")
  else
    match Text.decodeUtf8 bytes with
    | none => .error (.error ("line not utf-8: " ++ Text.utf8Error bytes))
    | some text => .ok (text, stop + 2)

/-- An `i64` or an `isize`; the message starts the text of the error for anything else. -/
def readNumber (message : String) (input : List UInt8) (cur : Nat) : Read Int :=
  match readLine input cur with
  | .error e => .error e
  | .ok (text, cur) =>
    match Decimal.parseSigned (isizeMax + 1) text with
    | none => .error (.error (message ++ ": " ++ Decimal.parseSignedError (isizeMax + 1) text))
    | some n => .ok (n, cur)

/-- `none` for the null value. -/
def readLength (message : String) (input : List UInt8) (cur : Nat) : Read (Option Nat) :=
  match readNumber message input cur with
  | .error e => .error e
  | .ok (n, cur) =>
    if n = -1 then .ok (none, cur)
    else if n < 0 then .error (.error (message ++ ": " ++ String.ofList (Decimal.formatSigned n)))
    else .ok (some n.toNat, cur)

def readBulk (cur : Nat) : Read RespValue :=
  match readLength "bad bulk len" input cur with
  | .error e => .error e
  | .ok (none, cur) => .ok (.bulkString none, cur)
  | .ok (some n, cur) =>
    if UInt64.size ≤ cur + n + 2 then .error .panic
    else if input.length < cur + n + 2 then .error (.error "bulk truncated")
    else .ok (.bulkString (some ((input.drop cur).take n)), cur + n + 2)

def readItems (one : Nat → Read RespValue) : Nat → Nat → Read (List RespValue)
  | 0, cur => .ok ([], cur)
  | n + 1, cur =>
    match one cur with
    | .error e => .error e
    | .ok (item, cur) =>
      match readItems one n cur with
      | .error e => .error e
      | .ok (items, cur) => .ok (item :: items, cur)

/-- `allocates` says for which numbers of bytes the allocator has a block. -/
def readArray (allocates : Nat → Bool) (one : Nat → Read RespValue) (input : List UInt8) (cur : Nat) :
    Read RespValue :=
  match readLength "bad array len" input cur with
  | .error e => .error e
  | .ok (none, cur) => .ok (.array none, cur)
  | .ok (some n, cur) =>
    if isizeMax < n * respValueSize then .error .panic
    else if ¬ allocates (n * respValueSize) then .error .abort
    else
      match readItems one n cur with
      | .error e => .error e
      | .ok (items, cur) => .ok (.array (some items), cur)

def readText (value : String → RespValue) (input : List UInt8) (cur : Nat) : Read RespValue :=
  match readLine input cur with
  | .error e => .error e
  | .ok (text, cur) => .ok (value (String.ofList text), cur)

def readInteger (cur : Nat) : Read RespValue :=
  match readNumber "bad int" input cur with
  | .error e => .error e
  | .ok (n, cur) => .ok (.integer (Int64.ofInt n), cur)

/-- Each level of nesting takes at least one byte, so fuel for the bytes behind the cursor is enough. -/
def parseOne (allocates : Nat → Bool) (input : List UInt8) : Nat → Nat → Read RespValue
  | 0, _ => .error (.error "unexpected eof")
  | fuel + 1, cur =>
    match input[cur]? with
    | none => .error (.error "unexpected eof")
    | some ty =>
      if ty = '+'.toUInt8 then readText .simpleString input (cur + 1)
      else if ty = '-'.toUInt8 then readText .error input (cur + 1)
      else if ty = ':'.toUInt8 then readInteger input (cur + 1)
      else if ty = '$'.toUInt8 then readBulk input (cur + 1)
      else if ty = '*'.toUInt8 then readArray allocates (parseOne allocates input fuel) input (cur + 1)
      else
        .error (.error ("unsupported RESP type byte `" ++ String.ofList [Char.ofNat ty.toNat] ++ "`"))

/-- `parse` on a machine with this allocator. -/
def parseWith (allocates : Nat → Bool) : Read RespValue := parseOne allocates input input.length 0

def parse : Read RespValue := parseWith input fun _ => true

/-! ## What is allocated

One request for each copy of a part of the input and for each vector of items, up to the first that is not
granted. Copies are granted always. The messages of errors are left out. -/

inductive Request where
  | copy (size : Nat)
  | items (count : Nat)
deriving DecidableEq

def Request.bytes : Request → Nat
  | .copy size => size
  | .items count => count * respValueSize

def Request.count : Request → Option Nat
  | .copy _ => none
  | .items count => some count

def lineRequests (cur : Nat) : List Request :=
  match readLine input cur with
  | .error _ => []
  | .ok (text, _) => [.copy (Text.encodeUtf8 text).length]

def bulkRequests (cur : Nat) : List Request :=
  match readBulk input cur with
  | .ok (.bulkString (some bytes), _) => [.copy bytes.length]
  | _ => []

def itemRequests (one : Nat → Read RespValue) (requests : Nat → List Request) : Nat → Nat → List Request
  | 0, _ => []
  | n + 1, cur =>
    requests cur ++
      match one cur with
      | .error _ => []
      | .ok (_, cur) => itemRequests one requests n cur

/-- Whether a vector for so many items can be had. -/
def Grants (allocates : Nat → Bool) (n : Nat) : Prop :=
  n * respValueSize ≤ isizeMax ∧ allocates (n * respValueSize)
deriving Decidable

def arrayRequests (allocates : Nat → Bool) (one : Nat → Read RespValue) (requests : Nat → List Request)
    (input : List UInt8) (cur : Nat) : List Request :=
  match readLength "bad array len" input cur with
  | .ok (some n, cur) => .items n :: if Grants allocates n then itemRequests one requests n cur else []
  | _ => []

/-- Follows `parseOne`. -/
def requestsOne (allocates : Nat → Bool) (input : List UInt8) : Nat → Nat → List Request
  | 0, _ => []
  | fuel + 1, cur =>
    match input[cur]? with
    | none => []
    | some ty =>
      if ty = '+'.toUInt8 then lineRequests input (cur + 1)
      else if ty = '-'.toUInt8 then lineRequests input (cur + 1)
      else if ty = ':'.toUInt8 then lineRequests input (cur + 1)
      else if ty = '$'.toUInt8 then lineRequests input (cur + 1) ++ bulkRequests input (cur + 1)
      else if ty = '*'.toUInt8 then
        lineRequests input (cur + 1) ++
          arrayRequests allocates (parseOne allocates input fuel) (requestsOne allocates input fuel) input
            (cur + 1)
      else []

def requests (allocates : Nat → Bool) : List Request := requestsOne allocates input input.length 0

end Resp

open Decimal Text List

namespace Resp

mutual

def nested : RespValue → List RespValue
  | .array (some items) => .array (some items) :: nestedItems items
  | v => [v]

def nestedItems : List RespValue → List RespValue
  | [] => []
  | item :: items => nested item ++ nestedItems items

end

def PlainText : RespValue → Bool
  | .simpleString s => !s.toList.contains '\r'
  | .error s => !s.toList.contains '\r'
  | _ => true

def Allocated : RespValue → Bool
  | .bulkString (some bytes) => bytes.length ≤ isizeMax
  | .array (some items) => items.length * respValueSize ≤ isizeMax
  | _ => true

def NoCr (v : RespValue) : Prop := ∀ w ∈ nested v, PlainText w
deriving Decidable

/-- Every value of the type in a running program is like this. -/
def Fits (v : RespValue) : Prop := ∀ w ∈ nested v, Allocated w
deriving Decidable

theorem mem_nested_self (v : RespValue) : v ∈ nested v := by
  cases v with
  | array items => cases items <;> simp [nested]
  | simpleString s => simp [nested]
  | error s => simp [nested]
  | integer n => simp [nested]
  | bulkString bytes => simp [nested]

section Lines

variable {input rest : List UInt8} {cur : Nat} {ty : Char} {text : List Char}

theorem encodeLine_ne_nil : encodeLine ty text ≠ [] := cons_ne_nil _ _

theorem length_encodeLine : (encodeLine ty text).length = (encodeUtf8 text).length + 3 := by
  simp [encodeLine]

theorem type_of_line (h : input.drop cur = encodeLine ty text ++ rest) : input[cur]? = some ty.toUInt8 :=
  getElem?_of_drop h

theorem cr_not_mem_encodeUtf8 (h : '\r' ∉ text) : ∀ b ∈ encodeUtf8 text, b ≠ cr := by
  rintro b hb rfl
  obtain ⟨c, hc, hv⟩ := exists_of_mem_encodeUtf8 hb (by decide)
  have hcr : c = '\r' := Char.toNat_inj.mp hv
  exact h (hcr ▸ hc)

theorem readLine_line (hcr : '\r' ∉ text) (h : input.drop cur = encodeLine ty text ++ rest) :
    readLine input (cur + 1) = .ok (text, cur + (encodeLine ty text).length) := by
  have hl := length_of_drop h encodeLine_ne_nil
  rw [length_encodeLine] at hl ⊢
  have hbd : input.drop (cur + 1) = encodeUtf8 text ++ (cr :: lf :: rest) := by
    rw [← drop_drop, h, encodeLine, cons_append, drop_one, tail_cons, append_assoc]
    rfl
  have hby : (input.drop (cur + 1)).takeWhile (· ≠ cr) = encodeUtf8 text := by
    have ha : ∀ b ∈ encodeUtf8 text, decide (b ≠ cr) = true := fun b hb =>
      decide_eq_true (cr_not_mem_encodeUtf8 hcr b hb)
    rw [hbd, takeWhile_append_of_pos ha, takeWhile_cons_of_neg (by decide), append_nil]
  have hlf : input[cur + 1 + (encodeUtf8 text).length + 1]? = some lf := by
    have hc := drop_behind hbd
    have hrest : input.drop (cur + 1 + (encodeUtf8 text).length + 1) = lf :: rest := by
      rw [← drop_drop, hc, drop_one, tail_cons]
    exact getElem?_of_drop hrest
  rw [readLine, hby]
  rw [if_neg (by omega), hlf, if_neg (by simp), decodeUtf8_encodeUtf8]
  dsimp only
  congr 2
  omega

theorem cr_not_mem_formatSigned (n : Int) : '\r' ∉ formatSigned n := by
  intro hm
  rcases of_mem_formatSigned hm with h | h <;> exact absurd h (by decide)

variable {m : String}

theorem readNumber_line {n : Int} (hl : -(isizeMax + 1 : Int) ≤ n) (hh : n < isizeMax + 1)
    (h : input.drop cur = encodeLine ty (formatSigned n) ++ rest) :
    readNumber m input (cur + 1) = .ok (n, cur + (encodeLine ty (formatSigned n)).length) := by
  rw [readNumber, readLine_line (cr_not_mem_formatSigned n) h]
  dsimp only
  rw [parseSigned_formatSigned hl hh]

theorem readLength_line {n : Nat} (hn : n ≤ isizeMax)
    (h : input.drop cur = encodeLine ty (Nat.toDigits 10 n) ++ rest) :
    readLength m input (cur + 1) = .ok (some n, cur + (encodeLine ty (Nat.toDigits 10 n)).length) := by
  rw [← formatSigned_natCast] at h ⊢
  rw [readLength, readNumber_line (by omega) (by omega) h]
  dsimp only
  rw [if_neg (by omega), if_neg (by omega), Int.toNat_natCast]

theorem readLength_null (h : input.drop cur = encodeLine ty ['-', '1'] ++ rest) :
    readLength m input (cur + 1) = .ok (none, cur + (encodeLine ty ['-', '1']).length) := by
  have ho : ['-', '1'] = formatSigned (-1) := by decide
  rw [ho] at h ⊢
  rw [readLength, readNumber_line (by decide) (by decide) h]
  rfl

end Lines

section Values

variable {input rest : List UInt8} {cur : Nat}

theorem readText_line {ty : Char} {s : String} (v : String → RespValue) (hcr : '\r' ∉ s.toList)
    (h : input.drop cur = encodeLine ty s.toList ++ rest) :
    readText v input (cur + 1) = .ok (v s, cur + (encodeLine ty s.toList).length) := by
  rw [readText, readLine_line hcr h]
  dsimp only
  rw [String.ofList_toList]

theorem readInteger_encode {n : Int64} (h : input.drop cur = encode (.integer n) ++ rest) :
    readInteger input (cur + 1) = .ok (.integer n, cur + (encode (.integer n)).length) := by
  rw [encode] at h ⊢
  rw [readInteger, readNumber_line n.le_toInt n.toInt_lt h]
  dsimp only
  rw [Int64.ofInt_toInt]

theorem readBulk_encode {bytes : Option (List UInt8)} (hslice : input.length ≤ isizeMax)
    (h : input.drop cur = encode (.bulkString bytes) ++ rest) :
    readBulk input (cur + 1) = .ok (.bulkString bytes, cur + (encode (.bulkString bytes)).length) := by
  cases bytes with
  | none =>
    rw [encode] at h ⊢
    rw [readBulk, readLength_null h]
  | some bytes =>
    rw [encode] at h ⊢
    have hl := length_of_drop h (append_ne_nil_of_left_ne_nil encodeLine_ne_nil _)
    have hs : isizeMax + 1 < UInt64.size := by decide
    simp only [length_append, length_cons, length_nil] at hl ⊢
    rw [append_assoc] at h
    have hbd := drop_behind h
    rw [readBulk, readLength_line (by omega) h]
    dsimp only
    rw [if_neg (by omega), if_neg (by omega), hbd, append_assoc, take_left]
    congr 2
    omega

theorem readArray_encode {items : Option (List RespValue)} {one : Nat → Read RespValue}
    (hf : Allocated (.array items)) (h : input.drop cur = encode (.array items) ++ rest)
    (ho : ∀ values ∈ items, ∀ cur, input.drop cur = encodeItems values ++ rest →
      readItems one values.length cur = .ok (values, cur + (encodeItems values).length)) :
    readArray (fun _ => true) one input (cur + 1) = .ok (.array items, cur + (encode (.array items)).length) := by
  cases items with
  | none =>
    rw [encode] at h ⊢
    rw [readArray, readLength_null h]
  | some items =>
    rw [encode] at h ⊢
    have hr : items.length * respValueSize ≤ isizeMax := of_decide_eq_true hf
    have hc : items.length ≤ isizeMax := Nat.le_trans (Nat.le_mul_of_pos_right _ (by decide)) hr
    rw [append_assoc] at h
    rw [readArray, readLength_line hc h]
    dsimp only
    rw [if_neg (by omega), if_neg (by simp), ho items rfl _ (drop_behind h), length_append]
    rw [Nat.add_assoc]

theorem encode_ne_nil (v : RespValue) : encode v ≠ [] := by
  cases v with
  | simpleString s => exact encodeLine_ne_nil
  | error s => exact encodeLine_ne_nil
  | integer n => exact encodeLine_ne_nil
  | bulkString bytes => cases bytes <;> simp [encode, encodeLine]
  | array items => cases items <;> simp [encode, encodeLine]

/-- A level of nesting is behind the line of its array, so the items need less fuel. -/
theorem length_encodeItems_lt (items : List RespValue) :
    (encodeItems items).length < (encode (.array (some items))).length := by
  rw [encode, length_append, length_encodeLine]
  omega

def Readable (w : RespValue) : Prop := PlainText w ∧ Allocated w

theorem cr_not_mem_of_plainText {s : String} (h : (!s.toList.contains '\r') = true) : '\r' ∉ s.toList := by
  simpa using h

mutual

theorem parseOne_encode (hslice : input.length ≤ isizeMax) : ∀ v : RespValue,
    (∀ w ∈ nested v, Readable w) → ∀ (fuel cur : Nat) (rest : List UInt8),
    input.drop cur = encode v ++ rest → (encode v).length ≤ fuel →
      parseOne (fun _ => true) input fuel cur = .ok (v, cur + (encode v).length)
  | v, _, 0, _, _, _, hf =>
    absurd (length_eq_zero_iff.mp (Nat.le_zero.mp hf)) (encode_ne_nil v)
  | .simpleString s, hv, fuel + 1, cur, rest, h, _ => by
    rw [parseOne, type_of_line h]
    exact readText_line .simpleString (cr_not_mem_of_plainText (hv _ (mem_nested_self _)).1) h
  | .error s, hv, fuel + 1, cur, rest, h, _ => by
    rw [parseOne, type_of_line h]
    exact readText_line .error (cr_not_mem_of_plainText (hv _ (mem_nested_self _)).1) h
  | .integer n, _, fuel + 1, cur, rest, h, _ => by
    rw [parseOne, type_of_line h]
    exact readInteger_encode h
  | .bulkString bytes, _, fuel + 1, cur, rest, h, _ => by
    have hty : input[cur]? = some '$'.toUInt8 := by
      cases bytes with
      | none => exact type_of_line h
      | some bytes => exact getElem?_of_drop h
    rw [parseOne, hty]
    exact readBulk_encode hslice h
  | .array none, hv, fuel + 1, cur, rest, h, _ => by
    rw [parseOne, type_of_line h]
    exact readArray_encode (hv _ (mem_nested_self _)).2 h (fun values hv => absurd hv (Option.not_mem_none values))
  | .array (some items), hv, fuel + 1, cur, rest, h, hf => by
    have hty : input[cur]? = some '*'.toUInt8 := getElem?_of_drop h
    have hit : ∀ w ∈ nestedItems items, Readable w := fun w hw => hv w (mem_cons_of_mem _ hw)
    have hl := length_encodeItems_lt items
    rw [parseOne, hty]
    refine readArray_encode (hv _ (mem_nested_self _)).2 h ?_
    intro values hvalues cur h
    obtain rfl := Option.some.inj hvalues
    exact readItems_encode hslice items hit fuel cur rest h (by omega)

theorem readItems_encode (hslice : input.length ≤ isizeMax) : ∀ items : List RespValue,
    (∀ w ∈ nestedItems items, Readable w) → ∀ (fuel cur : Nat) (rest : List UInt8),
    input.drop cur = encodeItems items ++ rest → (encodeItems items).length ≤ fuel →
      readItems (parseOne (fun _ => true) input fuel) items.length cur =
        .ok (items, cur + (encodeItems items).length)
  | [], _, _, _, _, _, _ => rfl
  | item :: items, hv, fuel, cur, rest, h, hf => by
    rw [encodeItems] at h hf ⊢
    rw [length_append] at hf ⊢
    rw [append_assoc] at h
    have hit := parseOne_encode hslice item (fun w hw => hv w (mem_append_left _ hw)) fuel cur _ h (by omega)
    have him := readItems_encode hslice items (fun w hw => hv w (mem_append_right _ hw)) fuel
      (cur + (encode item).length) rest (drop_behind h) (by omega)
    rw [length_cons, readItems, hit]
    dsimp only
    rw [him]
    dsimp only
    rw [Nat.add_assoc]

end

/-- A value is read back from the front of any slice that starts with its encoding. The last two hypotheses hold of
every value and of every slice of a running program. -/
theorem parse_encode (v : RespValue) (s : List UInt8) (hcr : NoCr v) (hfits : Fits v)
    (hslice : (encode v ++ s).length ≤ isizeMax) : parse (encode v ++ s) = .ok (v, (encode v).length) := by
  have hr : ∀ w ∈ nested v, Readable w := fun w hw => ⟨hcr w hw, hfits w hw⟩
  have hf : (encode v).length ≤ (encode v ++ s).length := by
    rw [length_append]
    omega
  have ho := parseOne_encode hslice v hr _ 0 s rfl hf
  rwa [Nat.zero_add] at ho

end Values

theorem parse_encode_nested :
    parse (encode (.array (some [.bulkString (some [cr, lf]), .array none, .array (some [.integer (-7)])]))
        ++ [cr]) =
      .ok (.array (some [.bulkString (some [cr, lf]), .array none, .array (some [.integer (-7)])]), 26) :=
  parse_encode (.array (some [.bulkString (some [cr, lf]), .array none, .array (some [.integer (-7)])])) [cr]
    (by decide) (by decide) (by decide)

end Resp

end ShareCli.Gateway
