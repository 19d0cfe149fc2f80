import Mathlib.Algebra.Order.Ring.Nat
import ShareCli.Gateway.RedisResp

/-!
# What the RESP parser accepts and what it reserves

`Reads` says what lies between the cursors when one value has been read. From it follows what the consumed
bytes are (`Frames`): an encoding up to the form of the numbers and the two bytes behind each bulk body.
-/

namespace ShareCli.Gateway

open Foundation Decimal

namespace Resp

def parseNumber (text : List Char) : Option Int := parseSigned (isizeMax + 1) text

/-- One value and the position behind it; the items of an array are read by `one`. -/
inductive Reads (one : Nat → Read RespValue) (input : List UInt8) (cur : Nat) : RespValue → Nat → Prop where
  | simpleString (hline : Spans input cur (encodeLine '+' text) stop) :
    Reads one input cur (.simpleString (String.ofList text)) stop
  | error (hline : Spans input cur (encodeLine '-' text) stop) :
    Reads one input cur (.error (String.ofList text)) stop
  | integer (hline : Spans input cur (encodeLine ':' text) stop) (hn : parseNumber text = some n) :
    Reads one input cur (.integer (Int64.ofInt n)) stop
  | nullBulk (hline : Spans input cur (encodeLine '$' text) stop) (hn : parseNumber text = some (-1)) :
    Reads one input cur (.bulkString none) stop
  | bulk (hline : Spans input cur (encodeLine '$' text) mid) (hn : parseNumber text = some body.length)
    (hbody : Spans input mid (body ++ tail) stop) (htail : tail.length = 2) :
    Reads one input cur (.bulkString (some body)) stop
  | nullArray (hline : Spans input cur (encodeLine '*' text) stop) (hn : parseNumber text = some (-1)) :
    Reads one input cur (.array none) stop
  | array (hline : Spans input cur (encodeLine '*' text) mid) (hn : parseNumber text = some (n : Nat))
    (hitems : readItems one n mid = .ok (items, stop)) :
    Reads one input cur (.array (some items)) stop

/-- With the texts of the numbers, what these stand for, and the two bytes behind each bulk body. -/
inductive Frames : List RespValue → List UInt8 → List (List Char × Int) → List (List UInt8) → Prop where
  | nil : Frames [] [] [] []
  | append (h : Frames values bytes numbers tails) (h' : Frames values' bytes' numbers' tails') :
    Frames (values ++ values') (bytes ++ bytes') (numbers ++ numbers') (tails ++ tails')
  | simpleString : Frames [.simpleString (String.ofList text)] (encodeLine '+' text) [] []
  | error : Frames [.error (String.ofList text)] (encodeLine '-' text) [] []
  | integer (hn : parseNumber text = some n) :
    Frames [.integer (Int64.ofInt n)] (encodeLine ':' text) [(text, n)] []
  | nullBulk (hn : parseNumber text = some (-1)) : Frames [.bulkString none] (encodeLine '$' text) [(text, -1)] []
  | bulk (hn : parseNumber text = some body.length) (htail : tail.length = 2) :
    Frames [.bulkString (some body)] (encodeLine '$' text ++ (body ++ tail)) [(text, body.length)] [tail]
  | nullArray (hn : parseNumber text = some (-1)) : Frames [.array none] (encodeLine '*' text) [(text, -1)] []
  | array (hn : parseNumber text = some items.length) (hitems : Frames items bytes numbers tails) :
    Frames [.array (some items)] (encodeLine '*' text ++ bytes) ((text, items.length) :: numbers) tails

variable {input : List UInt8} {fuel cur stop : Nat} {text : List Char} {v : RespValue} {ty : Char}
  {allocates : Nat → Bool} {one : Nat → Read RespValue}

theorem readLine_spans (h : readLine input cur = .ok (text, stop)) :
    Spans input cur (Text.encodeUtf8 text ++ [cr, lf]) stop := by
  unfold readLine at h
  generalize hb : (input.drop cur).takeWhile (· ≠ cr) = bytes at h
  dsimp only at h
  split_ifs at h with hs hlf
  have hsp : input.drop cur = bytes ++ (input.drop cur).dropWhile (· ≠ cr) := by
    rw [← hb, List.takeWhile_append_dropWhile]
  have hcr : input[cur + bytes.length]? = some cr := by
    have hlt : cur + bytes.length < input.length := by omega
    have hg := List.getElem?_eq_getElem hlt
    have hrest := drop_of_getElem? hg
    rw [drop_behind hsp] at hrest
    -- what a search stops at is what was searched for
    have hh := List.head?_dropWhile_not (· ≠ cr) (input.drop cur)
    rw [hrest] at hh
    rw [hg, of_not_not (of_decide_eq_false hh)]
  split at h
  · cases h
  · next text' hd =>
    cases h
    rw [Text.encodeUtf8_of_decodeUtf8 hd]
    exact (Spans.of_drop hsp).append ((Spans.one hcr).append (Spans.one (not_not.mp hlf)))

theorem line_spans (hty : input[cur]? = some ty.toUInt8) (h : readLine input (cur + 1) = .ok (text, stop)) :
    Spans input cur (encodeLine ty text) stop := (Spans.one hty).append (readLine_spans h)

theorem readNumber_ok {m : String} {n : Int} (h : readNumber m input cur = .ok (n, stop)) :
    ∃ text, readLine input cur = .ok (text, stop) ∧ parseNumber text = some n := by
  unfold readNumber at h
  split at h
  · cases h
  · next text cur' hl =>
    split at h
    · cases h
    · next n' hn =>
      cases h
      exact ⟨text, hl, hn⟩

theorem readLength_ok {m : String} {len : Option Nat} (h : readLength m input cur = .ok (len, stop)) :
    ∃ text, readLine input cur = .ok (text, stop) ∧ parseNumber text = some (len.elim (-1) Nat.cast) := by
  unfold readLength at h
  split at h
  · cases h
  · next n cur' hnm =>
    obtain ⟨text, hl, hn⟩ := readNumber_ok hnm
    split_ifs at h with hnl hng
    · cases h
      exact ⟨text, hl, hnl ▸ hn⟩
    · cases h
      refine ⟨text, hl, hn.trans (congrArg some ?_)⟩
      exact (Int.toNat_of_nonneg (Int.not_lt.mp hng)).symm

theorem readText_ok {va : String → RespValue} (h : readText va input cur = .ok (v, stop)) :
    ∃ text, readLine input cur = .ok (text, stop) ∧ v = va (String.ofList text) := by
  unfold readText at h
  split at h
  · cases h
  · next text stop' hl =>
    cases h
    exact ⟨text, hl, rfl⟩

theorem readBulk_reads (hty : input[cur]? = some '$'.toUInt8) (h : readBulk input (cur + 1) = .ok (v, stop)) :
    Reads one input cur v stop := by
  unfold readBulk at h
  split at h
  · cases h
  · next mid hln =>
    obtain ⟨text, hl, hn⟩ := readLength_ok hln
    cases h
    exact .nullBulk (line_spans hty hl) hn
  · next n mid hln =>
    obtain ⟨text, hl, hn⟩ := readLength_ok hln
    split_ifs at h with hf hr
    cases h
    have hc : ((input.drop mid).take n).length = n := by
      rw [List.length_take, List.length_drop]
      omega
    have ht : ((input.drop (mid + n)).take 2).length = 2 := by
      rw [List.length_take, List.length_drop]
      omega
    exact .bulk (line_spans hty hl) (by rw [hc]; exact hn)
      ((Spans.take (by omega)).append (Spans.take (by omega))) ht

theorem readArray_reads (hty : input[cur]? = some '*'.toUInt8)
    (h : readArray allocates one input (cur + 1) = .ok (v, stop)) : Reads one input cur v stop := by
  unfold readArray at h
  split at h
  · cases h
  · next mid hln =>
    obtain ⟨text, hl, hn⟩ := readLength_ok hln
    cases h
    exact .nullArray (line_spans hty hl) hn
  · next n mid hln =>
    obtain ⟨text, hl, hn⟩ := readLength_ok hln
    split_ifs at h with hf ha
    split at h
    · cases h
    · next items stop' hi =>
      cases h
      exact .array (line_spans hty hl) hn hi

theorem parseOne_reads (h : parseOne allocates input (fuel + 1) cur = .ok (v, stop)) :
    Reads (parseOne allocates input fuel) input cur v stop := by
  unfold parseOne at h
  split at h
  · cases h
  · next ty hty =>
    split_ifs at h with hs he hi hb ha
    · obtain ⟨text, hl, rfl⟩ := readText_ok h
      exact .simpleString (line_spans (hs ▸ hty) hl)
    · obtain ⟨text, hl, rfl⟩ := readText_ok h
      exact .error (line_spans (he ▸ hty) hl)
    · unfold readInteger at h
      split at h
      · cases h
      · next n stop' hnm =>
        obtain ⟨text, hl, hn⟩ := readNumber_ok hnm
        cases h
        exact .integer (line_spans (hi ▸ hty) hl) hn
    · exact readBulk_reads (hb ▸ hty) h
    · exact readArray_reads (ha ▸ hty) h

theorem readItems_frames (ho : ∀ {cur v stop}, one cur = .ok (v, stop) →
      ∃ bytes numbers tails, Frames [v] bytes numbers tails ∧ Spans input cur bytes stop)
    {n : Nat} {items : List RespValue} (h : readItems one n cur = .ok (items, stop)) :
    items.length = n ∧ ∃ bytes numbers tails, Frames items bytes numbers tails ∧ Spans input cur bytes stop := by
  fun_induction readItems one n cur generalizing items stop with
  | case1 => cases h; exact ⟨rfl, _, _, _, .nil, .nil⟩
  | case2 => cases h
  | case3 => cases h
  | case4 n cur item mid hi items' stop' hit ih =>
    cases h
    obtain ⟨bytes, numbers, tails, hf, hs⟩ := ho hi
    obtain ⟨hln, bytes', numbers', tails', hfr, hsp⟩ := ih hit
    exact ⟨congrArg (· + 1) hln, _, _, _, hf.append hfr, hs.append hsp⟩

theorem parseOne_frames (fuel : Nat) {cur stop : Nat} {v : RespValue}
    (h : parseOne allocates input fuel cur = .ok (v, stop)) :
    ∃ bytes numbers tails, Frames [v] bytes numbers tails ∧ Spans input cur bytes stop := by
  induction fuel generalizing cur v stop with
  | zero => cases h
  | succ fuel ih =>
    cases parseOne_reads h with
    | simpleString hl => exact ⟨_, _, _, .simpleString, hl⟩
    | error hl => exact ⟨_, _, _, .error, hl⟩
    | integer hl hn => exact ⟨_, _, _, .integer hn, hl⟩
    | nullBulk hl hn => exact ⟨_, _, _, .nullBulk hn, hl⟩
    | bulk hl hn hb ht => exact ⟨_, _, _, .bulk hn ht, hl.append hb⟩
    | nullArray hl hn => exact ⟨_, _, _, .nullArray hn, hl⟩
    | array hl hn hi =>
      obtain ⟨rfl, bytes, numbers, tails, hfr, hsp⟩ := readItems_frames ih hi
      exact ⟨_, _, _, .array hn hfr, hl.append hsp⟩

theorem encodeItems_append (items items' : List RespValue) :
    encodeItems (items ++ items') = encodeItems items ++ encodeItems items' := by
  induction items with
  | nil => rfl
  | cons item items ih => rw [List.cons_append, encodeItems, encodeItems, ih, List.append_assoc]

theorem encodeItems_singleton (v : RespValue) : encodeItems [v] = encode v := by
  rw [encodeItems, encodeItems, List.append_nil]

/-- The numbers are written as they are printed. -/
def Canonical (numbers : List (List Char × Int)) : Prop := ∀ number ∈ numbers, number.1 = formatSigned number.2

theorem toInt_ofInt {n : Int} (h : parseNumber text = some n) : (Int64.ofInt n).toInt = n := by
  obtain ⟨hlw, hh⟩ := parseSigned_bounds (by decide) h
  have hl : isizeMax + 1 = 2 ^ 63 := rfl
  rw [hl] at hlw hh
  exact Int64.toInt_ofInt_of_le (by simpa using hlw) (by simpa using hh)

variable {values : List RespValue} {bytes : List UInt8} {numbers : List (List Char × Int)}
  {tails : List (List UInt8)}

theorem Frames.eq_encodeItems_iff (h : Frames values bytes numbers tails) (hnm : Canonical numbers) :
    bytes.length = (encodeItems values).length ∧
      ((∀ tail ∈ tails, tail = [cr, lf]) ↔ bytes = encodeItems values) := by
  induction h with
  | nil => simp [encodeItems]
  | append h h' ih ih' =>
    obtain ⟨hf, hs⟩ := List.forall_mem_append.mp hnm
    obtain ⟨hln, hif⟩ := ih hf
    obtain ⟨hln', hif'⟩ := ih' hs
    rw [encodeItems_append, List.length_append, List.length_append, List.forall_mem_append, hif, hif']
    refine ⟨by omega, ?_, fun heq => List.append_inj heq hln⟩
    rintro ⟨hb, hb'⟩
    rw [hb, hb']
  | simpleString => simp [encodeItems_singleton, encode]
  | error => simp [encodeItems_singleton, encode]
  | integer hn =>
    have ht := hnm _ List.mem_cons_self
    simp [encodeItems_singleton, encode, toInt_ofInt hn, ← ht]
  | nullBulk hn | nullArray hn =>
    have ht := hnm _ List.mem_cons_self
    dsimp only at ht
    have hnl : formatSigned (-1) = ['-', '1'] := by decide
    simp [encodeItems_singleton, encode, ht, hnl]
  | bulk hn htl =>
    have ht := hnm _ List.mem_cons_self
    dsimp only at ht
    rw [formatSigned_natCast] at ht
    simp [encodeItems_singleton, encode, ht, htl]
  | array hn hi ih =>
    obtain ⟨ht, hrest⟩ := List.forall_mem_cons.mp hnm
    dsimp only at ht
    rw [formatSigned_natCast] at ht
    obtain ⟨hln, hif⟩ := ih hrest
    simp [encodeItems_singleton, encode, ht, hln, hif]

/-- If the numbers are as `encode` prints them, the consumed bytes are the encoding exactly if `\r\n` follows each
bulk body. -/
theorem parse_accepted_iff {n : Nat} (h : parse input = .ok (v, n)) :
    n ≤ input.length ∧ (∃ numbers tails, Frames [v] (input.take n) numbers tails) ∧
      ∀ numbers tails, Frames [v] (input.take n) numbers tails → Canonical numbers →
        ((∀ tail ∈ tails, tail = [cr, lf]) ↔ input.take n = encode v) := by
  obtain ⟨bytes, numbers, tails, hfr, hsp⟩ := parseOne_frames _ h
  have hb := hsp.take_eq
  rw [List.drop_zero, Nat.sub_zero] at hb
  refine ⟨hsp.le_length (Nat.zero_le _), ⟨numbers, tails, hb ▸ hfr⟩, ?_⟩
  intro numbers tails hfr hnm
  rw [← encodeItems_singleton]
  exact (hfr.eq_encodeItems_iff hnm).2

theorem parse_accepted_bulk : 7 ≤ 7 ∧ (∃ numbers tails,
      Frames [.bulkString (some [97])] ([36, 49, cr, lf, 97, cr, lf].take 7) numbers tails) ∧
      ∀ numbers tails, Frames [.bulkString (some [97])] ([36, 49, cr, lf, 97, cr, lf].take 7) numbers tails →
        Canonical numbers → ((∀ tail ∈ tails, tail = [cr, lf]) ↔
          [36, 49, cr, lf, 97, cr, lf].take 7 = encode (.bulkString (some [97]))) := by
  have hp : parse [36, 49, cr, lf, 97, cr, lf] = .ok (.bulkString (some [97]), 7) := by rfl
  exact parse_accepted_iff hp

/-- `$1` and `abc`: the body is `a`, and `bc` is consumed for `\r\n`. -/
theorem parse_accepts_any_tail : parse [36, 49, cr, lf, 97, 98, 99] = .ok (.bulkString (some [97]), 7) ∧
    Frames [.bulkString (some [97])] [36, 49, cr, lf, 97, 98, 99] [(['1'], 1)] [[98, 99]] ∧
    Canonical [(['1'], 1)] ∧ [36, 49, cr, lf, 97, 98, 99] ≠ encode (.bulkString (some [97])) := by
  have hb : [36, 49, cr, lf, 97, 98, 99] = encodeLine '$' ['1'] ++ ([97] ++ [98, 99]) := by decide
  refine ⟨by rfl, ?_, ?_, ?_⟩
  · rw [hb]
    exact .bulk (by decide) rfl
  · simp only [Canonical, List.mem_singleton, forall_eq]
    decide
  · rw [encode]
    decide

/-! ## Resources -/

/-- Neither a panic nor an abort. -/
def returned : RespFailure → Bool
  | .error _ => true
  | _ => false

def Returns {α : Type} (read : Read α) : Prop := ∀ e, read = .error e → returned e

def total (reqs : List Request) : Nat := (reqs.map Request.bytes).sum

def counts (reqs : List Request) : List Nat := reqs.filterMap Request.count

/-- The numbers of items that the arrays announce, up to the first that cannot be had. -/
def announced (input : List UInt8) (allocates : Nat → Bool) : List Nat := counts (requests input allocates)

theorem returns_error_iff {α : Type} {e : RespFailure} : Returns (.error e : Read α) ↔ returned e :=
  ⟨fun h => h e rfl, fun h _ he => Except.error.inj he ▸ h⟩

theorem returns_ok {α : Type} (read : α × Nat) : Returns (.ok read : Read α) := nofun

theorem counts_append (reqs reqs' : List Request) : counts (reqs ++ reqs') = counts reqs ++ counts reqs' :=
  List.filterMap_append

theorem counts_lineRequests : counts (lineRequests input cur) = [] := by
  unfold lineRequests
  split <;> rfl

theorem counts_bulkRequests : counts (bulkRequests input cur) = [] := by
  unfold bulkRequests
  split <;> rfl

section Returned

variable {e : RespFailure} {m : String}

theorem readLine_returned (h : readLine input cur = .error e) : returned e := by
  unfold readLine at h
  dsimp only at h
  split_ifs at h
  · cases h
    rfl
  · cases h
    rfl
  · split at h
    · cases h
      rfl
    · cases h

theorem readNumber_returned (h : readNumber m input cur = .error e) : returned e := by
  unfold readNumber at h
  split at h
  · next e' hl =>
    cases h
    exact readLine_returned hl
  · split at h
    · cases h
      rfl
    · cases h

theorem readLength_returned (h : readLength m input cur = .error e) : returned e := by
  unfold readLength at h
  split at h
  · next e' hn =>
    cases h
    exact readNumber_returned hn
  · split_ifs at h
    cases h
    rfl

theorem returns_readText {value : String → RespValue} : Returns (readText value input cur) := by
  intro e h
  unfold readText at h
  split at h
  · next e' hl =>
    cases h
    exact readLine_returned hl
  · cases h

theorem returns_readInteger : Returns (readInteger input cur) := by
  intro e h
  unfold readInteger at h
  split at h
  · next e' hn =>
    cases h
    exact readNumber_returned hn
  · cases h

/-- The position behind a bulk string of any announced length fits a word. -/
theorem returns_readBulk (hslice : input.length < isizeMax) : Returns (readBulk input cur) := by
  intro e h
  unfold readBulk at h
  split at h
  · next e' hn =>
    cases h
    exact readLength_returned hn
  · cases h
  · next n mid hlen =>
    split_ifs at h with hword hrest
    · obtain ⟨text, hl, hn⟩ := readLength_ok hlen
      have hbound := (parseSigned_bounds (by decide) hn).2
      have hlength := length_of_drop (readLine_spans hl).drop (by simp)
      have hmid := (readLine_spans hl).stop
      have hsize : isizeMax + isizeMax + 2 = UInt64.size := rfl
      simp only [Option.elim_some] at hbound
      omega
    · cases h
      rfl

end Returned

section Granted

variable {reqs : Nat → List Request}

theorem returns_readItems_iff (ho : ∀ cur, Returns (one cur) ↔ ∀ count ∈ counts (reqs cur), Grants allocates count)
    (n cur : Nat) :
    Returns (readItems one n cur) ↔ ∀ count ∈ counts (itemRequests one reqs n cur), Grants allocates count := by
  induction n generalizing cur with
  | zero => simp [readItems, itemRequests, counts, returns_ok]
  | succ n ih =>
    rw [readItems, itemRequests, counts_append, List.forall_mem_append, ← ho cur]
    cases hi : one cur with
    | error e => simp [returns_error_iff, counts]
    | ok read =>
      dsimp only
      rw [← ih read.2]
      cases readItems one n read.2 <;> simp [returns_error_iff, returns_ok]

theorem returns_readArray_iff (ho : ∀ cur, Returns (one cur) ↔ ∀ count ∈ counts (reqs cur), Grants allocates count) :
    Returns (readArray allocates one input cur) ↔
      ∀ count ∈ counts (arrayRequests allocates one reqs input cur), Grants allocates count := by
  rw [readArray, arrayRequests]
  cases hlen : readLength "bad array len" input cur with
  | error e => simp [returns_error_iff, counts, readLength_returned hlen]
  | ok read =>
    obtain ⟨len, mid⟩ := read
    cases len with
    | none => simp [counts, returns_ok]
    | some n =>
      have hcons (reqs : List Request) : counts (.items n :: reqs) = n :: counts reqs := rfl
      dsimp only
      rw [hcons, List.forall_mem_cons]
      by_cases hgrants : Grants allocates n
      · rw [if_neg (Nat.not_lt.mpr hgrants.1), if_neg (not_not.mpr hgrants.2), if_pos hgrants,
          and_iff_right hgrants, ← returns_readItems_iff ho]
        cases readItems one n mid <;> simp [returns_error_iff, returns_ok]
      · refine iff_of_false ?_ (fun h => hgrants h.1)
        split_ifs with hcap halloc
        · simp [returns_error_iff, returned]
        · exact absurd ⟨Nat.not_lt.mp hcap, halloc⟩ hgrants
        · simp [returns_error_iff, returned]

theorem returns_parseOne_iff (hslice : input.length < isizeMax) (fuel cur : Nat) :
    Returns (parseOne allocates input fuel cur) ↔
      ∀ count ∈ counts (requestsOne allocates input fuel cur), Grants allocates count := by
  induction fuel generalizing cur with
  | zero => simp [parseOne, requestsOne, counts, returns_error_iff, returned]
  | succ fuel ih =>
    rw [parseOne, requestsOne]
    cases hty : input[cur]? with
    | none => simp [counts, returns_error_iff, returned]
    | some ty =>
      dsimp only
      split_ifs
      · simp [counts_lineRequests, returns_readText]
      · simp [counts_lineRequests, returns_readText]
      · simp [counts_lineRequests, returns_readInteger]
      · simp [counts_append, counts_lineRequests, counts_bulkRequests, returns_readBulk hslice]
      · rw [counts_append, counts_lineRequests, List.nil_append, returns_readArray_iff ih]
      · simp [counts, returns_error_iff, returned]

end Granted

/-! ## The bytes that are asked for -/

/-- The bytes of the copies among the requests. -/
def copied (reqs : List Request) : Nat := (reqs.map fun r => r.count.elim r.bytes fun _ => 0).sum

theorem copied_append (reqs reqs' : List Request) : copied (reqs ++ reqs') = copied reqs + copied reqs' := by
  simp [copied]

theorem total_eq (reqs : List Request) : total reqs = copied reqs + respValueSize * (counts reqs).sum := by
  induction reqs with
  | nil => rfl
  | cons r reqs ih =>
    have htotal : total (r :: reqs) = r.bytes + total reqs := by simp [total]
    rw [htotal, ih]
    cases r with
    | copy size =>
      have hcopied : copied (.copy size :: reqs) = size + copied reqs := by
        simp [copied, Request.count, Request.bytes]
      rw [hcopied, Nat.add_assoc]
      rfl
    | items n =>
      have hcounts : (counts (.items n :: reqs)).sum = n + (counts reqs).sum := List.sum_cons
      have hcopied : copied (.items n :: reqs) = copied reqs := by simp [copied, Request.count]
      rw [hcounts, hcopied, Nat.mul_add, Request.bytes, Nat.mul_comm n]
      omega

/-- Where a reader stops; one that fails may have read the whole input. -/
def reach {α : Type} (input : List UInt8) : Read α → Nat
  | .ok (_, stop) => stop
  | .error _ => input.length

theorem readLine_bounds (hcur : cur ≤ input.length) (h : readLine input cur = .ok (text, stop)) :
    copied (lineRequests input cur) + cur ≤ stop ∧ stop ≤ input.length := by
  have hs := readLine_spans h
  have hstop := hs.stop
  rw [List.length_append] at hstop
  refine ⟨?_, hs.le_length hcur⟩
  rw [lineRequests, h]
  simp only [copied, Request.count, Request.bytes, Option.elim_none, List.map_cons, List.map_nil, List.sum_cons,
    List.sum_nil]
  omega

/-- What is read behind a line is read behind the copy of the line. -/
theorem copied_lineRequests {α : Type} {read : Read α} (hcur : cur ≤ input.length)
    (h : ∀ value stop, read = .ok (value, stop) → ∃ text, readLine input cur = .ok (text, stop)) :
    copied (lineRequests input cur) + cur ≤ reach input read := by
  cases read with
  | ok read =>
    obtain ⟨text, hl⟩ := h read.1 read.2 rfl
    exact (readLine_bounds hcur hl).1
  | error e =>
    cases hl : readLine input cur with
    | ok line =>
      have hb := readLine_bounds hcur hl
      exact hb.1.trans hb.2
    | error e =>
      rw [lineRequests, hl]
      exact (Nat.zero_add cur).trans_le hcur

theorem copied_readBulk (hcur : cur ≤ input.length) :
    copied (lineRequests input cur ++ bulkRequests input cur) + cur ≤ reach input (readBulk input cur) := by
  rw [copied_append, bulkRequests, readBulk]
  cases hlen : readLength "bad bulk len" input cur with
  | error e => exact copied_lineRequests hcur fun _ _ h => by cases h
  | ok read =>
    obtain ⟨len, mid⟩ := read
    obtain ⟨text, hl, -⟩ := readLength_ok hlen
    have hb := readLine_bounds hcur hl
    cases len with
    | none => exact hb.1
    | some n =>
      dsimp only
      split_ifs with hword hrest
      · exact hb.1.trans hb.2
      · exact hb.1.trans hb.2
      · have hbody : copied [.copy ((input.drop mid).take n).length] ≤ n := by
          simp [copied, Request.count, Request.bytes]
        dsimp only [reach]
        omega

section Copied

variable {reqs : Nat → List Request}

theorem copied_readItems (ho : ∀ cur ≤ input.length,
      copied (reqs cur) + cur ≤ reach input (one cur) ∧ reach input (one cur) ≤ input.length)
    (n : Nat) {cur : Nat} (hcur : cur ≤ input.length) :
    copied (itemRequests one reqs n cur) + cur ≤ reach input (readItems one n cur) ∧
      reach input (readItems one n cur) ≤ input.length := by
  induction n generalizing cur with
  | zero => exact ⟨(Nat.zero_add cur).le, hcur⟩
  | succ n ih =>
    have hone := ho cur hcur
    rw [readItems, itemRequests, copied_append]
    cases hi : one cur with
    | error e =>
      rw [hi] at hone
      exact hone
    | ok read =>
      rw [hi] at hone
      have hrest := ih hone.2
      dsimp only [reach] at hone hrest ⊢
      cases hr : readItems one n read.2 with
      | error e =>
        rw [hr] at hrest
        dsimp only [reach] at hrest ⊢
        omega
      | ok rest =>
        rw [hr] at hrest
        dsimp only [reach] at hrest ⊢
        omega

theorem copied_readArray (ho : ∀ cur ≤ input.length,
      copied (reqs cur) + cur ≤ reach input (one cur) ∧ reach input (one cur) ≤ input.length)
    (hcur : cur ≤ input.length) :
    copied (lineRequests input cur ++ arrayRequests allocates one reqs input cur) + cur ≤
      reach input (readArray allocates one input cur) := by
  rw [copied_append, arrayRequests, readArray]
  cases hlen : readLength "bad array len" input cur with
  | error e => exact copied_lineRequests hcur fun _ _ h => by cases h
  | ok read =>
    obtain ⟨len, mid⟩ := read
    obtain ⟨text, hl, -⟩ := readLength_ok hlen
    have hb := readLine_bounds hcur hl
    cases len with
    | none => exact hb.1
    | some n =>
      have hcons (reqs : List Request) : copied (.items n :: reqs) = copied reqs := by
        simp [copied, Request.count]
      dsimp only
      rw [hcons]
      by_cases hgrants : Grants allocates n
      · rw [if_neg (Nat.not_lt.mpr hgrants.1), if_neg (not_not.mpr hgrants.2), if_pos hgrants]
        have hitems := copied_readItems ho n hb.2
        cases hi : readItems one n mid with
        | error e =>
          rw [hi] at hitems
          dsimp only [reach] at hitems ⊢
          omega
        | ok read =>
          rw [hi] at hitems
          dsimp only [reach] at hitems ⊢
          omega
      · rw [if_neg hgrants]
        split_ifs with hcap halloc
        · exact hb.1.trans hb.2
        · exact absurd ⟨Nat.not_lt.mp hcap, halloc⟩ hgrants
        · exact hb.1.trans hb.2

theorem reach_parseOne_le (fuel : Nat) (hcur : cur ≤ input.length) :
    reach input (parseOne allocates input fuel cur) ≤ input.length := by
  cases h : parseOne allocates input fuel cur with
  | error e => exact le_rfl
  | ok read =>
    obtain ⟨bytes, numbers, tails, -, hs⟩ := parseOne_frames fuel h
    exact hs.le_length hcur

/-- The copies are of parts of the input that do not overlap. -/
theorem copied_parseOne (fuel : Nat) {cur : Nat} (hcur : cur ≤ input.length) :
    copied (requestsOne allocates input fuel cur) + cur ≤ reach input (parseOne allocates input fuel cur) := by
  induction fuel generalizing cur with
  | zero => exact (Nat.zero_add cur).trans_le hcur
  | succ fuel ih =>
    rw [parseOne, requestsOne]
    cases hty : input[cur]? with
    | none => exact (Nat.zero_add cur).trans_le hcur
    | some ty =>
      have hnext : cur + 1 ≤ input.length := (List.getElem?_eq_some_iff.mp hty).1
      have htext {value : String → RespValue} : copied (lineRequests input (cur + 1)) + (cur + 1) ≤
          reach input (readText value input (cur + 1)) :=
        copied_lineRequests hnext fun v stop h => (readText_ok h).imp fun text hl => hl.1
      dsimp only
      split_ifs
      · exact (Nat.add_le_add_left (Nat.le_succ cur) _).trans htext
      · exact (Nat.add_le_add_left (Nat.le_succ cur) _).trans htext
      · refine (Nat.add_le_add_left (Nat.le_succ cur) _).trans (copied_lineRequests hnext ?_)
        intro v stop h
        unfold readInteger at h
        split at h
        · cases h
        · next n stop' hn =>
          cases h
          exact (readNumber_ok hn).imp fun text hl => hl.1
      · exact (Nat.add_le_add_left (Nat.le_succ cur) _).trans (copied_readBulk hnext)
      · refine (Nat.add_le_add_left (Nat.le_succ cur) _).trans (copied_readArray ?_ hnext)
        exact fun cur hcur => ⟨ih hcur, reach_parseOne_le fuel hcur⟩
      · exact (Nat.zero_add cur).trans_le hcur

theorem copied_requests_le (input : List UInt8) (allocates : Nat → Bool) :
    copied (requests input allocates) ≤ input.length :=
  (copied_parseOne input.length (Nat.zero_le _)).trans (reach_parseOne_le input.length (Nat.zero_le _))

end Copied

/-- Of the inputs of a class **the parser returns, and it asks for a multiple of their length**, exactly if each
array announces no more items than can be had and the announced numbers are within a multiple of the length. -/
theorem parse_resources_iff (allocates : Nat → Bool) (inputs : Set (List UInt8))
    (hslice : ∀ input ∈ inputs, input.length < isizeMax) :
    ((∀ input ∈ inputs, Returns (parseWith input allocates)) ∧
      ∃ k, ∀ input ∈ inputs, total (requests input allocates) ≤ k * input.length) ↔
    (∀ input ∈ inputs, ∀ count ∈ announced input allocates, Grants allocates count) ∧
      ∃ k, ∀ input ∈ inputs, (announced input allocates).sum ≤ k * input.length := by
  refine and_congr ?_ ⟨?_, ?_⟩
  · exact forall₂_congr fun input hin => returns_parseOne_iff (hslice input hin) _ _
  · rintro ⟨k, hk⟩
    refine ⟨k, fun input hin => ?_⟩
    have htotal := hk input hin
    rw [total_eq] at htotal
    have hsize : respValueSize = 32 := rfl
    rw [hsize] at htotal
    unfold announced
    omega
  · rintro ⟨k, hk⟩
    refine ⟨1 + respValueSize * k, fun input hin => ?_⟩
    calc total (requests input allocates)
        = copied (requests input allocates) + respValueSize * (announced input allocates).sum := total_eq _
      _ ≤ input.length + respValueSize * (k * input.length) :=
        Nat.add_le_add (copied_requests_le input allocates) (Nat.mul_le_mul_left _ (hk input hin))
      _ = (1 + respValueSize * k) * input.length := by rw [Nat.add_mul, Nat.one_mul, Nat.mul_assoc]

/-- `?`, an array without its item and one with it, on a machine with blocks of up to 4096 bytes. -/
theorem parse_resources_small :
    let inputs : Set (List UInt8) := {[63], encodeLine '*' ['1'], encodeLine '*' ['1'] ++ encodeLine ':' ['5']}
    (∀ input ∈ inputs, Returns (parseWith input (· ≤ 4096))) ∧
      ∃ k, ∀ input ∈ inputs, total (requests input (· ≤ 4096)) ≤ k * input.length := by
  intro inputs
  refine (parse_resources_iff _ inputs ?_).mpr ⟨?_, 1, ?_⟩
  · rintro input (rfl | rfl | rfl) <;> decide
  · rintro input (rfl | rfl | rfl) <;> decide +kernel
  · rintro input (rfl | rfl | rfl) <;> decide +kernel

/-- `*9223372036854775807` panics, `*288230376151711743` aborts the process if there is no block of 2^63 bytes, and
`*1000000000` asks for 32 GB with its 13 bytes. -/
theorem parse_reserves_announced :
    parse (encodeLine '*' "9223372036854775807".toList) = .error .panic ∧
    parseWith (encodeLine '*' "288230376151711743".toList) (· ≤ 2 ^ 48) = .error .abort ∧
    total (requests (encodeLine '*' "1000000000".toList) fun _ => true) = 32000000010 := by
  refine ⟨by rfl, by rfl, by decide +kernel⟩

end Resp

end ShareCli.Gateway
