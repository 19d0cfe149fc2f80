import ShareCli.Foundation.Bytes
import ShareCli.Foundation.Text

/-!
# Signed tokens (`crates/gateway/src/jwt_hs256.rs`)

SHA-256 is any function to 32 bytes. The base64 codec for URLs is a bijection between byte strings and the texts
it accepts, and its alphabet has no dot.
-/

namespace ShareCli.Gateway.Jwt

open Foundation Text

/-- The laws of `base64url` without padding. -/
structure UrlCodec where
  encode : List UInt8 → List Char
  decode : List Char → Option (List UInt8)
  decode_encode : ∀ bytes, decode (encode bytes) = some bytes
  encode_of_decode : ∀ text bytes, decode text = some bytes → encode bytes = text
  dot_not_mem : ∀ bytes, '.' ∉ encode bytes

def urlChar (c : Char) : Char := if c = '+' then '-' else if c = '/' then '_' else c

def standardChar (c : Char) : Char := if c = '-' then '+' else if c = '_' then '/' else c

def pad (text : List Char) : List Char := text ++ List.replicate ((4 - text.length % 4) % 4) '='

def urlEncode (bytes : List UInt8) : List Char := ((Base64.encodeBytes bytes).filter (· ≠ '=')).map urlChar

/-- A text is read only if it is what its bytes are written as. -/
def urlDecode (text : List Char) : Option (List UInt8) :=
  (Base64.decodeChars (pad (text.map standardChar))).filter fun bytes => urlEncode bytes = text

theorem standardChar_urlChar {c : Char} (h : c ∈ Base64.alphabet) : standardChar (urlChar c) = c := by
  have hall : Base64.alphabet.all (fun c => standardChar (urlChar c) = c) = true := by decide
  exact of_decide_eq_true (List.all_eq_true.mp hall c h)

theorem urlChar_ne_dot {c : Char} (h : c ∈ Base64.alphabet) : urlChar c ≠ '.' := by
  have hall : Base64.alphabet.all (fun c => urlChar c ≠ '.') = true := by decide
  exact of_decide_eq_true (List.all_eq_true.mp hall c h)

theorem pad_group (w x y z : Char) (text : List Char) :
    pad (w :: x :: y :: z :: text) = w :: x :: y :: z :: pad text := by
  have hl : (w :: x :: y :: z :: text).length % 4 = text.length % 4 := Nat.add_mod_right _ 4
  rw [pad, hl]
  rfl

theorem pad_filter_encodeBytes (bytes : List UInt8) :
    pad ((Base64.encodeBytes bytes).filter (· ≠ '=')) = Base64.encodeBytes bytes := by
  fun_induction Base64.encodeBytes bytes with
  | case1 => rfl
  | case2 a =>
    have ha := a.toNat_lt
    have h₁ := Base64.digit_ne_pad (a.toNat / 4) (by omega)
    have h₂ := Base64.digit_ne_pad (a.toNat % 4 * 16) (by omega)
    simp [pad, h₁, h₂]
  | case3 a b =>
    have ha := a.toNat_lt
    have hb := b.toNat_lt
    have h₁ := Base64.digit_ne_pad (a.toNat / 4) (by omega)
    have h₂ := Base64.digit_ne_pad (a.toNat % 4 * 16 + b.toNat / 16) (by omega)
    have h₃ := Base64.digit_ne_pad (b.toNat % 16 * 4) (by omega)
    simp [pad, h₁, h₂, h₃]
  | case4 a b c rest ih =>
    have ha := a.toNat_lt
    have hb := b.toNat_lt
    have hc := c.toNat_lt
    have h₁ := Base64.digit_ne_pad (a.toNat / 4) (by omega)
    have h₂ := Base64.digit_ne_pad (a.toNat % 4 * 16 + b.toNat / 16) (by omega)
    have h₃ := Base64.digit_ne_pad (b.toNat % 16 * 4 + c.toNat / 64) (by omega)
    have h₄ := Base64.digit_ne_pad (c.toNat % 64) (by omega)
    simp only [List.filter_cons, decide_not, h₁, h₂, h₃, h₄, decide_false, Bool.not_false, if_true, ne_eq]
    rw [pad_group]
    simpa using ih

theorem mem_filter_encodeBytes {c : Char} {bytes : List UInt8}
    (h : c ∈ (Base64.encodeBytes bytes).filter (· ≠ '=')) : c ∈ Base64.alphabet := by
  obtain ⟨hm, hne⟩ := List.mem_filter.mp h
  exact (Base64.mem_encodeBytes hm).resolve_left (of_decide_eq_true hne)

instance : Nonempty UrlCodec := by
  refine ⟨⟨urlEncode, urlDecode, fun bytes => ?_, fun text bytes h => ?_, fun bytes h => ?_⟩⟩
  · have hs : (urlEncode bytes).map standardChar = (Base64.encodeBytes bytes).filter (· ≠ '=') := by
      rw [urlEncode, List.map_map]
      refine (List.map_congr_left fun c hc => ?_).trans (List.map_id _)
      exact standardChar_urlChar (mem_filter_encodeBytes hc)
    rw [urlDecode, hs, pad_filter_encodeBytes, Base64.decodeChars_encodeBytes]
    simp
  · simpa using (Option.filter_eq_some_iff.mp h).2
  · obtain ⟨c, hc, heq⟩ := List.mem_map.mp h
    exact urlChar_ne_dot (mem_filter_encodeBytes hc) heq

section

variable (sha256 : List UInt8 → Vector UInt8 32) (codec : UrlCodec)

def blockLen : Nat := 64

/-- The key with zeros up to the length of a block, a longer one by its hash. -/
def normalized (key : List UInt8) : List UInt8 :=
  let short := if blockLen < key.length then (sha256 key).toList else key
  short ++ List.replicate (blockLen - short.length) 0

def hmacSha256 (key message : List UInt8) : List UInt8 :=
  let inner := (normalized sha256 key).map (· ^^^ 0x36) ++ message
  (sha256 ((normalized sha256 key).map (· ^^^ 0x5c) ++ (sha256 inner).toList)).toList

def signature (signingInput : List Char) (key : List UInt8) : List UInt8 :=
  hmacSha256 sha256 key (Text.encodeUtf8 signingInput)

def encodeHs256 (header payload : List Char) (key : List UInt8) : List Char :=
  let signingInput := codec.encode (Text.encodeUtf8 header) ++ '.' :: codec.encode (Text.encodeUtf8 payload)
  signingInput ++ '.' :: codec.encode (signature sha256 signingInput key)

def readParts (header payload : List Char) : Except String (List Char × List Char) :=
  match codec.decode header, codec.decode payload with
  | none, _ => .error "bad header b64"
  | some _, none => .error "bad payload b64"
  | some header, some payload =>
    match Text.decodeUtf8 header, Text.decodeUtf8 payload with
    | none, _ => .error "header not utf-8"
    | some _, none => .error "payload not utf-8"
    | some header, some payload => .ok (header, payload)

def verifyHs256 (token : List Char) (key : List UInt8) : Except String (List Char × List Char) :=
  match token.splitOn '.' with
  | [header, payload, sig] =>
    match codec.decode sig with
    | none => .error "bad signature b64"
    | some provided =>
      if signature sha256 (header ++ '.' :: payload) key ≠ provided then .error "signature mismatch"
      else readParts codec header payload
  | _ => .error "invalid token shape (expected 3 parts)"

end

variable {sha256 : List UInt8 → Vector UInt8 32} {codec : UrlCodec}

theorem readParts_eq_ok_iff {header payload h p : List Char} : readParts codec header payload = .ok (h, p) ↔
    header = codec.encode (encodeUtf8 h) ∧ payload = codec.encode (encodeUtf8 p) := by
  constructor
  · intro hr
    unfold readParts at hr
    split at hr
    · cases hr
    · cases hr
    · next hb pb hhd hpy =>
      split at hr
      · cases hr
      · cases hr
      · next ht ptext hh hp =>
        cases hr
        rw [encodeUtf8_of_decodeUtf8 hh, encodeUtf8_of_decodeUtf8 hp]
        exact ⟨(codec.encode_of_decode _ _ hhd).symm, (codec.encode_of_decode _ _ hpy).symm⟩
  · rintro ⟨rfl, rfl⟩
    simp only [readParts, codec.decode_encode, decodeUtf8_encodeUtf8]

/-- Exactly the tokens signed with the key are accepted. -/
theorem verifyHs256_eq_ok_iff (token : List Char) (key : List UInt8) (header payload : List Char) :
    verifyHs256 sha256 codec token key = .ok (header, payload) ↔
      token = encodeHs256 sha256 codec header payload key := by
  constructor
  · intro h
    unfold verifyHs256 at h
    split at h
    · next head b sig hp =>
      split at h
      · cases h
      · next p hsg =>
        split_ifs at h with hs
        obtain ⟨rfl, rfl⟩ := readParts_eq_ok_iff.mp h
        have ht : ['.'].intercalate (token.splitOn '.') = token := List.intercalate_splitOn '.'
        rw [hp] at ht
        rw [← ht, ← codec.encode_of_decode _ _ hsg, ← not_not.mp hs]
        simp [encodeHs256, List.intercalate_cons_cons]
    · cases h
  · rintro rfl
    have hp : (encodeHs256 sha256 codec header payload key).splitOn '.' =
        [codec.encode (encodeUtf8 header), codec.encode (encodeUtf8 payload),
          codec.encode (signature sha256 (codec.encode (encodeUtf8 header) ++
            '.' :: codec.encode (encodeUtf8 payload)) key)] := by
      rw [encodeHs256, List.append_assoc, List.cons_append,
        List.splitOn_append_cons_self_of_not_mem (codec.dot_not_mem _),
        List.splitOn_append_cons_self_of_not_mem (codec.dot_not_mem _),
        List.splitOn_eq_singleton (codec.dot_not_mem _)]
    rw [verifyHs256, hp]
    dsimp only
    rw [codec.decode_encode]
    dsimp only
    rw [if_neg (not_not.mpr rfl)]
    exact readParts_eq_ok_iff.mpr ⟨rfl, rfl⟩

end ShareCli.Gateway.Jwt
