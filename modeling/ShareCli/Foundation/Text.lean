import Mathlib.Data.List.Basic

/-!
# Texts and bytes

UTF-8, and `str::trim`, which strips the characters with the Unicode property `White_Space` at both ends.
-/

namespace ShareCli.Foundation.Text

open List

def encodeUtf8 (cs : List Char) : List UInt8 := cs.flatMap String.utf8EncodeChar

def decodeUtf8 (bytes : List UInt8) : Option (List Char) := bytes.toByteArray.utf8Decode?.map Array.toList

def secondByte (b c : UInt8) : Bool :=
  (if b = 0xe0 then 0xa0 else if b = 0xf0 then 0x90 else 0x80) ≤ c &&
    c ≤ (if b = 0xed then 0x9f else if b = 0xf4 then 0x8f else 0xbf)

/-- The bytes of a character of which at least one is missing. -/
def startsChar : List UInt8 → Bool
  | [b] => 0xc2 ≤ b && b ≤ 0xf4
  | [b, c] => 0xe0 ≤ b && b ≤ 0xf4 && secondByte b c
  | [b, c, d] => 0xf0 ≤ b && b ≤ 0xf4 && secondByte b c && 0x80 ≤ d && d ≤ 0xbf
  | _ => false

/-- The text of the error with which `str::from_utf8` refuses the bytes. -/
def utf8Error (bytes : List UInt8) : String :=
  let valid := ((List.range bytes.length).filter fun i => (decodeUtf8 (bytes.take i)).isSome).getLastD 0
  let rest := bytes.drop valid
  if startsChar rest then "incomplete utf-8 byte sequence from index " ++ toString valid
  else
    let invalid := if startsChar (rest.take 3) then 3 else if startsChar (rest.take 2) then 2 else 1
    "invalid utf-8 sequence of " ++ toString invalid ++ " bytes from index " ++ toString valid

def isWhitespace (c : Char) : Bool :=
  (0x09 ≤ c.toNat && c.toNat ≤ 0x0d) || c.toNat = 0x20 || c.toNat = 0x85 || c.toNat = 0xa0 ||
    c.toNat = 0x1680 || (0x2000 ≤ c.toNat && c.toNat ≤ 0x200a) || c.toNat = 0x2028 ||
    c.toNat = 0x2029 || c.toNat = 0x202f || c.toNat = 0x205f || c.toNat = 0x3000

/-- Only the letters of ASCII have a lower case here. -/
def toAsciiLowercase (s : String) : String := String.ofList (s.toList.map Char.toLower)

def trimStart (cs : List Char) : List Char := cs.dropWhile isWhitespace

def trimEnd (cs : List Char) : List Char := (cs.reverse.dropWhile isWhitespace).reverse

def trim (cs : List Char) : List Char := trimEnd (trimStart cs)

theorem decodeUtf8_encodeUtf8 (cs : List Char) : decodeUtf8 (encodeUtf8 cs) = some cs := by
  have h : (encodeUtf8 cs).toByteArray = cs.utf8Encode := rfl
  rw [decodeUtf8, h, utf8Decode?_utf8Encode]
  simp

theorem encodeUtf8_of_decodeUtf8 {bs : List UInt8} {cs : List Char} (h : decodeUtf8 bs = some cs) :
    encodeUtf8 cs = bs := by
  obtain ⟨c, hc, rfl⟩ := Option.map_eq_some_iff.mp h
  have hu8 : c.toList.utf8Encode = bs.toByteArray := by
    obtain ⟨hs, rfl⟩ := Option.eq_some_iff_get_eq.mp hc
    exact ByteArray.utf8Encode_get_utf8Decode?
  have hd := congrArg (fun b : ByteArray => b.data.toList) hu8
  simpa [encodeUtf8, utf8Encode] using hd

theorem encodeUtf8_append (cs ds : List Char) : encodeUtf8 (cs ++ ds) = encodeUtf8 cs ++ encodeUtf8 ds :=
  flatMap_append

variable {cs : List Char}

theorem exists_of_mem_encodeUtf8 {b : UInt8} (h : b ∈ encodeUtf8 cs) (hb : b.toNat < 128) :
    ∃ c ∈ cs, c.toNat = b.toNat := by
  obtain ⟨c, hc, hm⟩ := mem_flatMap.mp h
  refine ⟨c, hc, ?_⟩
  show c.val.toNat = b.toNat
  simp only [String.utf8EncodeChar] at hm
  split at hm
  · obtain rfl := mem_singleton.mp hm
    exact (Nat.mod_eq_of_lt (show c.val.toNat < 256 by omega)).symm
  · -- each byte of a longer encoding has its highest bit set
    have hh : 128 ≤ b.toNat := by
      split at hm
      · simp only [mem_cons, not_mem_nil, or_false] at hm
        rcases hm with rfl | rfl <;> simp only [UInt8.toNat_ofNat'] <;> omega
      · split at hm
        · simp only [mem_cons, not_mem_nil, or_false] at hm
          rcases hm with rfl | rfl | rfl <;> simp only [UInt8.toNat_ofNat'] <;> omega
        · simp only [mem_cons, not_mem_nil, or_false] at hm
          rcases hm with rfl | rfl | rfl | rfl <;> simp only [UInt8.toNat_ofNat'] <;> omega
    omega

theorem encodeUtf8_replicate_nul (n : Nat) : encodeUtf8 (replicate n '\x00') = replicate n 0 := by
  induction n with
  | zero => rfl
  | succ n ih =>
    rw [replicate_succ, replicate_succ, ← ih]
    rfl

theorem dropWhile_eq_self (h : ∀ c ∈ cs.head?, isWhitespace c = false) : cs.dropWhile isWhitespace = cs := by
  cases cs with
  | nil => rfl
  | cons c cs => simp [h c (by simp)]

theorem trim_eq_self (hh : ∀ c ∈ cs.head?, isWhitespace c = false)
    (hl : ∀ c ∈ cs.getLast?, isWhitespace c = false) : trim cs = cs := by
  have hr : ∀ c ∈ cs.reverse.head?, isWhitespace c = false := by
    rw [head?_reverse]
    exact hl
  rw [trim, trimStart, dropWhile_eq_self hh, trimEnd, dropWhile_eq_self hr, reverse_reverse]

theorem head?_dropWhile {c : Char} (h : c ∈ (cs.dropWhile isWhitespace).head?) : isWhitespace c = false := by
  have hh := head?_dropWhile_not isWhitespace cs
  rwa [Option.mem_def.mp h] at hh

theorem trimEnd_isPrefix (cs : List Char) : trimEnd cs <+: cs := by
  rw [trimEnd, ← reverse_suffix, reverse_reverse]
  exact dropWhile_suffix _

theorem head?_trim {c : Char} (h : c ∈ (trim cs).head?) : isWhitespace c = false := by
  obtain ⟨rs, hrest⟩ := trimEnd_isPrefix (trimStart cs)
  have hh : (trimStart cs).head? = some c := by
    rw [← hrest, head?_append, show (trimEnd (trimStart cs)).head? = some c from h]
    rfl
  exact head?_dropWhile hh

theorem getLast?_trim {c : Char} (h : c ∈ (trim cs).getLast?) : isWhitespace c = false := by
  rw [trim, trimEnd, getLast?_reverse] at h
  exact head?_dropWhile h

theorem mem_of_mem_trim {c : Char} (h : c ∈ trim cs) : c ∈ cs :=
  (dropWhile_suffix _).subset ((trimEnd_isPrefix (trimStart cs)).subset h)

end ShareCli.Foundation.Text
