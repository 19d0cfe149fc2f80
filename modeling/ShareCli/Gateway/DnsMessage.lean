import ShareCli.Foundation.Bytes
import ShareCli.Foundation.Cursor
import ShareCli.Foundation.Text

/-!
# DNS questions (`crates/gateway/src/dns_message_parser.rs`)

A name is on the wire as its labels, each behind a byte with its length, and a zero byte; its text has dots
between the labels.
-/

namespace ShareCli.Gateway.Dns

open Foundation Text List

/-- The question of a query. -/
structure Question where
  qname : List Char
  qtype : UInt16
  qclass : UInt16
deriving DecidableEq

inductive DnsError where
  | badLabel (pos : Nat)
deriving DecidableEq

/-- Each label takes a byte at least, so that fuel for the bytes and the end is enough. -/
def readLabels (buf : List UInt8) : Nat → Nat → Except DnsError (List (List Char) × Nat)
  | 0, i => .error (.badLabel i)
  | fuel + 1, i =>
    match buf[i]? with
    | none => .error (.badLabel i)
    | some len =>
      if len = 0 then .ok ([], i + 1)
      else if buf.length < i + 1 + len.toNat then .error (.badLabel (i + 1))
      else
        match Text.decodeUtf8 ((buf.drop (i + 1)).take len.toNat) with
        | none => .error (.badLabel (i + 1))
        | some label =>
          match readLabels buf fuel (i + 1 + len.toNat) with
          | .error e => .error e
          | .ok (labels, i) => .ok (label :: labels, i)

def joinLabels (labels : List (List Char)) : List Char := ['.'].intercalate labels

def parseQuestion (buf : List UInt8) (offset : Nat) : Except DnsError (Question × Nat) :=
  match readLabels buf (buf.length + 1) offset with
  | .error e => .error e
  | .ok (labels, i) =>
    match buf.drop i with
    | a :: b :: c :: d :: _ =>
      .ok ({ qname := joinLabels labels, qtype := ofBeBytes a b, qclass := ofBeBytes c d }, i + 4 - offset)
    | _ => .error (.badLabel i)

def encodeLabel (label : List Char) : List UInt8 :=
  let bytes := Text.encodeUtf8 label
  UInt8.ofNat bytes.length :: bytes

def encodeLabels (labels : List (List Char)) : List UInt8 := labels.flatMap encodeLabel ++ [0]

def encodeQuestion (q : Question) : List UInt8 :=
  encodeLabels (q.qname.splitOn '.') ++ toBeBytes q.qtype ++ toBeBytes q.qclass

/-- A label that a length byte can announce. -/
def Sized (label : List Char) : Prop :=
  1 ≤ (Text.encodeUtf8 label).length ∧ (Text.encodeUtf8 label).length ≤ 255
deriving Decidable

variable {buf : List UInt8} {labels : List (List Char)} {fuel i stop : Nat}

theorem encodeLabels_cons (l : List Char) (labels : List (List Char)) :
    encodeLabels (l :: labels) = encodeLabel l ++ encodeLabels labels := by
  simp [encodeLabels]

theorem toNat_length {l : List Char} (h : Sized l) :
    (UInt8.ofNat (encodeUtf8 l).length).toNat = (encodeUtf8 l).length := by
  have hle := h.2
  rw [UInt8.toNat_ofNat', Nat.mod_eq_of_lt (by omega)]

theorem spans_of_readLabels (h : readLabels buf fuel i = .ok (labels, stop)) :
    Spans buf i (encodeLabels labels) stop ∧ ∀ l ∈ labels, Sized l := by
  fun_induction readLabels buf fuel i generalizing labels with
  | case1 => cases h
  | case2 => cases h
  | case3 fuel i hz =>
    cases h
    exact ⟨Spans.one hz, by simp⟩
  | case4 => cases h
  | case5 => cases h
  | case6 => cases h
  | case7 fuel i len hln hne hr l hl rs stop hrest ih =>
    cases h
    obtain ⟨hs, hsz⟩ := ih hrest
    have hb := encodeUtf8_of_decodeUtf8 hl
    have hc : (encodeUtf8 l).length = len.toNat := by
      rw [hb, length_take, length_drop]
      omega
    have hf : encodeLabel l = [len] ++ (buf.drop (i + 1)).take len.toNat := by
      rw [encodeLabel, hc, UInt8.ofNat_toNat, hb]
      rfl
    have hp : len.toNat ≠ 0 := fun hz => hne (UInt8.toNat_inj.mp hz)
    have hby := len.toNat_lt
    refine ⟨?_, forall_mem_cons.mpr ⟨⟨by omega, by omega⟩, hsz⟩⟩
    rw [encodeLabels_cons, hf]
    exact ((Spans.one hln).append (Spans.take (by omega))).append hs

theorem readLabels_of_spans (hl : ∀ l ∈ labels, Sized l)
    (h : Spans buf i (encodeLabels labels) stop) (hf : labels.length < fuel) :
    readLabels buf fuel i = .ok (labels, stop) := by
  induction labels generalizing fuel i with
  | nil =>
    obtain ⟨fuel, rfl⟩ := Nat.exists_eq_succ_of_ne_zero (by omega : fuel ≠ 0)
    have hz : buf[i]? = some 0 := getElem?_of_drop h.drop
    simp [readLabels, hz, h.stop, encodeLabels]
  | cons l labels ih =>
    obtain ⟨hsz, hrest⟩ := forall_mem_cons.mp hl
    obtain ⟨fuel, rfl⟩ := Nat.exists_eq_succ_of_ne_zero (by omega : fuel ≠ 0)
    rw [encodeLabels_cons] at h
    obtain ⟨hlb, hl⟩ := h.split
    have hln := toNat_length hsz
    have hr := length_of_drop hlb.drop (cons_ne_nil _ _)
    have hb : buf.drop (i + 1) = encodeUtf8 l ++ buf.drop (i + (encodeLabel l).length) := by
      rw [← drop_drop, hlb.drop]
      rfl
    have hc : (encodeLabel l).length = 1 + (encodeUtf8 l).length := Nat.add_comm _ 1
    have hne : UInt8.ofNat (encodeUtf8 l).length ≠ 0 := by
      intro hz
      have hp := hsz.1
      rw [← hln, hz] at hp
      exact absurd hp (by decide)
    rw [hc, ← Nat.add_assoc] at hl hr hb
    rw [readLabels, getElem?_of_drop hlb.drop]
    dsimp only
    rw [if_neg hne, hln, if_neg (by omega), hb, take_left, decodeUtf8_encodeUtf8]
    dsimp only
    rw [ih hrest hl (Nat.lt_of_succ_lt_succ hf)]

theorem length_lt_encodeLabels (labels : List (List Char)) : labels.length < (encodeLabels labels).length := by
  induction labels with
  | nil => exact Nat.one_pos
  | cons l labels ih =>
    rw [encodeLabels_cons, length_append, encodeLabel, length_cons, length_cons]
    omega

/-- What is accepted: labels of 1 to 255 bytes and four bytes behind them. -/
theorem parseQuestion_eq_ok_iff {off n : Nat} {q : Question} :
    parseQuestion buf off = .ok (q, n) ↔ ∃ labels, (∀ l ∈ labels, Sized l) ∧ q.qname = joinLabels labels ∧
      Spans buf off (encodeLabels labels ++ (toBeBytes q.qtype ++ toBeBytes q.qclass)) (off + n) := by
  constructor
  · intro h
    unfold parseQuestion at h
    split at h
    · cases h
    · next labels i hl =>
      split at h
      · next a b c d rs hb =>
        cases h
        obtain ⟨hs, hsz⟩ := spans_of_readLabels hl
        refine ⟨labels, hsz, rfl, ?_⟩
        have hw : Spans buf i [a, b, c, d] (i + 4) := Spans.of_drop hb
        have hle := hs.le
        rw [toBeBytes_ofBeBytes, toBeBytes_ofBeBytes, Nat.add_sub_of_le (by omega)]
        exact hs.append hw
      · cases h
  · rintro ⟨labels, hsz, hn, h⟩
    obtain ⟨hl, hw⟩ := h.split
    have hf := length_of_drop hl.drop (append_ne_nil_of_right_ne_nil _ (cons_ne_nil 0 []))
    have hr := readLabels_of_spans hsz hl
      (Nat.lt_succ_of_lt (Nat.lt_of_lt_of_le (length_lt_encodeLabels labels) (by omega : _ ≤ buf.length)))
    have hd := hw.drop
    have hst := hw.stop
    simp only [toBeBytes, cons_append, nil_append, length_cons, length_nil] at hd hst
    rw [parseQuestion, hr]
    dsimp only
    rw [hd]
    dsimp only
    rw [ofBeBytes_ofNat, ofBeBytes_ofNat, ← hn, ← hst, Nat.add_sub_cancel_left]

/-- Labels without dots are split as they were joined. -/
theorem encodeQuestion_of_joined {q : Question} (hn : q.qname = joinLabels labels) (hne : labels ≠ [])
    (hd : ∀ l ∈ labels, '.' ∉ l) :
    encodeQuestion q = encodeLabels labels ++ (toBeBytes q.qtype ++ toBeBytes q.qclass) := by
  rw [encodeQuestion, hn, joinLabels, splitOn_intercalate '.' hd hne, append_assoc]

/-- A question is read back from its place in a message. -/
theorem parseQuestion_encodeQuestion (labels : List (List Char)) (hne : labels ≠ [])
    (hlabels : ∀ label ∈ labels, Sized label ∧ '.' ∉ label) (qtype qclass : UInt16)
    (before after : List UInt8) :
    parseQuestion (before ++ encodeQuestion ⟨joinLabels labels, qtype, qclass⟩ ++ after) before.length =
      .ok (⟨joinLabels labels, qtype, qclass⟩,
        (encodeQuestion ⟨joinLabels labels, qtype, qclass⟩).length) := by
  refine parseQuestion_eq_ok_iff.mpr ⟨labels, fun label h => (hlabels label h).1, rfl, ?_⟩
  rw [encodeQuestion_of_joined rfl hne fun label h => (hlabels label h).2]
  apply Spans.of_drop
  rw [append_assoc, drop_left]

theorem parseQuestion_encodeQuestion_example :
    parseQuestion ([7] ++ encodeQuestion ⟨"example.com".toList, 1, 1⟩ ++ [9]) 1 =
      .ok (⟨"example.com".toList, 1, 1⟩, 17) :=
  parseQuestion_encodeQuestion ["example".toList, "com".toList] (by decide) (by decide) 1 1 [7] [9]

/-- A label with a dot is encoded as more than one, of which the first is shorter. -/
theorem not_mem_of_encodeLabels_splitOn (hne : labels ≠ []) (hsz : ∀ l ∈ labels, Sized l)
    (h : encodeLabels ((joinLabels labels).splitOn '.') = encodeLabels labels) :
    ∀ l ∈ labels, '.' ∉ l := by
  induction labels with
  | nil => exact absurd rfl hne
  | cons l labels ih =>
    obtain ⟨hl, hlb⟩ := forall_mem_cons.mp hsz
    rw [encodeLabels_cons] at h
    have hd : '.' ∉ l := by
      intro hm
      obtain ⟨f, back, rfl, hf⟩ := eq_append_cons_of_mem hm
      obtain ⟨rs, hrest⟩ : ∃ rs, joinLabels ((f ++ '.' :: back) :: labels) = f ++ '.' :: rs := by
        cases labels <;> simp [joinLabels, intercalate_cons_cons]
      rw [hrest, splitOn_append_cons_self_of_not_mem hf, encodeLabels_cons] at h
      have hby := congrArg UInt8.toNat (cons.inj h).1
      have hln : (encodeUtf8 (f ++ '.' :: back)).length =
          (encodeUtf8 f).length + 1 + (encodeUtf8 back).length := by
        rw [encodeUtf8_append, length_append, Nat.add_assoc, Nat.add_comm 1]
        rfl
      have hs := hl.2
      rw [toNat_length hl, UInt8.toNat_ofNat'] at hby
      omega
    refine forall_mem_cons.mpr ⟨hd, ?_⟩
    cases labels with
    | nil => simp
    | cons next labels =>
      have hj : joinLabels (l :: next :: labels) = l ++ '.' :: joinLabels (next :: labels) := by
        simp [joinLabels, intercalate_cons_cons]
      rw [hj, splitOn_append_cons_self_of_not_mem hd, encodeLabels_cons] at h
      exact ih (cons_ne_nil _ _) hlb (append_cancel_left h)

/-- A question is encoded as it came exactly if there was a label and no label had a dot in it. -/
theorem encodeQuestion_parseQuestion_iff {offset n : Nat} {q : Question}
    (h : parseQuestion buf offset = .ok (q, n)) : ∃ labels,
      Spans buf offset (encodeLabels labels ++ (toBeBytes q.qtype ++ toBeBytes q.qclass)) (offset + n) ∧
      (∀ label ∈ labels, Sized label) ∧ q.qname = joinLabels labels ∧
      (encodeQuestion q = (buf.drop offset).take n ↔ labels ≠ [] ∧ ∀ label ∈ labels, '.' ∉ label) := by
  obtain ⟨labels, hsz, hn, hs⟩ := parseQuestion_eq_ok_iff.mp h
  have hb := hs.take_eq
  rw [Nat.add_sub_cancel_left] at hb
  refine ⟨labels, hs, hsz, hn, ?_⟩
  rw [hb]
  constructor
  · intro heq
    rw [encodeQuestion, append_assoc, hn] at heq
    have hw := append_cancel_right heq
    have hne : labels ≠ [] := by
      rintro rfl
      exact absurd hw (by decide)
    exact ⟨hne, not_mem_of_encodeLabels_splitOn hne hsz hw⟩
  · rintro ⟨hne, hd⟩
    exact encodeQuestion_of_joined hn hne hd

theorem encodeQuestion_parseQuestion_dotted : ∃ labels,
    Spans [3, 97, 46, 98, 0, 0, 1, 0, 1] 0 (encodeLabels labels ++ (toBeBytes 1 ++ toBeBytes 1)) (0 + 9) ∧
    (∀ label ∈ labels, Sized label) ∧ ['a', '.', 'b'] = joinLabels labels ∧
    (encodeQuestion ⟨['a', '.', 'b'], 1, 1⟩ = ([3, 97, 46, 98, 0, 0, 1, 0, 1].drop 0).take 9 ↔
      labels ≠ [] ∧ ∀ label ∈ labels, '.' ∉ label) := by
  have hp : parseQuestion [3, 97, 46, 98, 0, 0, 1, 0, 1] 0 = .ok (⟨['a', '.', 'b'], 1, 1⟩, 9) := by
    decide +kernel
  exact encodeQuestion_parseQuestion_iff hp

/-- Two wires with one question; the root name is not encoded as it came either. -/
theorem parseQuestion_not_faithful :
    parseQuestion [3, 97, 46, 98, 0, 0, 1, 0, 1] 0 = .ok (⟨['a', '.', 'b'], 1, 1⟩, 9) ∧
    parseQuestion [1, 97, 1, 98, 0, 0, 1, 0, 1] 0 = .ok (⟨['a', '.', 'b'], 1, 1⟩, 9) ∧
    encodeQuestion ⟨['a', '.', 'b'], 1, 1⟩ ≠ [3, 97, 46, 98, 0, 0, 1, 0, 1] ∧
    parseQuestion [0, 0, 1, 0, 1] 0 = .ok (⟨[], 1, 1⟩, 5) ∧
    encodeQuestion ⟨[], 1, 1⟩ ≠ [0, 0, 1, 0, 1] := by
  decide +kernel

end ShareCli.Gateway.Dns
