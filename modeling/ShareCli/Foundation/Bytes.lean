import Mathlib.Data.List.Basic

/-!
# Byte strings: base64, words and chunks

The `STANDARD` engine of the `base64` crate (the usual alphabet, with padding), words of two bytes with the high
one first, and the cutting of a byte string into pieces of one size.
-/

namespace ShareCli.Foundation

open List

namespace Base64

def alphabet : List Char := "ABCDEFGHIJKLMNOPQRSTUVWXYZabcdefghijklmnopqrstuvwxyz0123456789+/".toList

def digit (n : Nat) : Char := alphabet.getD n '='

def byte (n : Nat) : UInt8 := UInt8.ofNat n

def value (c : Char) : Option Nat := alphabet.idxOf? c

/-- Three bytes make four characters; one or two bytes at the end are padded. -/
def encodeBytes : List UInt8 → List Char
  | [] => []
  | [a] => [digit (a.toNat / 4), digit (a.toNat % 4 * 16), '=', '=']
  | [a, b] =>
    [digit (a.toNat / 4), digit (a.toNat % 4 * 16 + b.toNat / 16), digit (b.toNat % 16 * 4), '=']
  | a :: b :: c :: rest =>
    digit (a.toNat / 4) :: digit (a.toNat % 4 * 16 + b.toNat / 16) ::
      digit (b.toNat % 16 * 4 + c.toNat / 64) :: digit (c.toNat % 64) :: encodeBytes rest

def encode (bytes : List UInt8) : String := String.ofList (encodeBytes bytes)

/-- The bytes of a last group with padding; the bits left over are zero. -/
def decodeLast (w x y : Char) : Option (List UInt8) :=
  if y = '=' then do
    let w ← value w
    let x ← value x
    if x % 16 = 0 then return [byte (w * 4 + x / 16)] else none
  else do
    let w ← value w
    let x ← value x
    let y ← value y
    if y % 4 = 0 then return [byte (w * 4 + x / 16), byte (x % 16 * 16 + y / 4)] else none

def decodeChars : List Char → Option (List UInt8)
  | [] => some []
  | w :: x :: y :: z :: rest =>
    if z = '=' then
      if rest.isEmpty then decodeLast w x y else none
    else do
      let w ← value w
      let x ← value x
      let y ← value y
      let z ← value z
      let bytes ← decodeChars rest
      return byte (w * 4 + x / 16) :: byte (x % 16 * 16 + y / 4) :: byte (y % 4 * 64 + z) :: bytes
  | _ => none

def decode (text : String) : Option (List UInt8) := decodeChars text.toList

theorem value_digit : ∀ n < 64, value (digit n) = some n := by decide +kernel

theorem digit_ne_pad : ∀ n < 64, digit n ≠ '=' := by decide +kernel

theorem byte_eq {a : UInt8} {n : Nat} (h : n = a.toNat) : byte n = a := by
  subst h
  exact UInt8.ofNat_toNat

theorem decodeChars_encodeBytes (bs : List UInt8) : decodeChars (encodeBytes bs) = some bs := by
  fun_induction encodeBytes bs with
  | case1 => rfl
  | case2 a =>
    have ha := a.toNat_lt
    have h₁ := value_digit (a.toNat / 4) (by omega)
    have h₂ := value_digit (a.toNat % 4 * 16) (by omega)
    have hrest : a.toNat % 4 * 16 % 16 = 0 := Nat.mul_mod_left _ _
    have hby : byte (a.toNat / 4 * 4 + a.toNat % 4 * 16 / 16) = a := byte_eq (by omega)
    simp only [decodeChars, decodeLast, h₁, h₂, hrest, hby, reduceIte, isEmpty_nil,
      Option.bind_eq_bind, Option.bind_some, Option.pure_def]
  | case3 a b =>
    have ha := a.toNat_lt
    have hb := b.toNat_lt
    have h₁ := value_digit (a.toNat / 4) (by omega)
    have h₂ := value_digit (a.toNat % 4 * 16 + b.toNat / 16) (by omega)
    have h₃ := value_digit (b.toNat % 16 * 4) (by omega)
    have hp := digit_ne_pad (b.toNat % 16 * 4) (by omega)
    have hrest : b.toNat % 16 * 4 % 4 = 0 := Nat.mul_mod_left _ _
    have hby₁ : byte (a.toNat / 4 * 4 + (a.toNat % 4 * 16 + b.toNat / 16) / 16) = a := byte_eq (by omega)
    have hby₂ : byte ((a.toNat % 4 * 16 + b.toNat / 16) % 16 * 16 + b.toNat % 16 * 4 / 4) = b :=
      byte_eq (by omega)
    simp only [decodeChars, decodeLast, h₁, h₂, h₃, hp, hrest, hby₁, hby₂, reduceIte, isEmpty_nil,
      Option.bind_eq_bind, Option.bind_some, Option.pure_def]
  | case4 a b c rs ih =>
    have ha := a.toNat_lt
    have hb := b.toNat_lt
    have hc := c.toNat_lt
    have h₁ := value_digit (a.toNat / 4) (by omega)
    have h₂ := value_digit (a.toNat % 4 * 16 + b.toNat / 16) (by omega)
    have h₃ := value_digit (b.toNat % 16 * 4 + c.toNat / 64) (by omega)
    have h₄ := value_digit (c.toNat % 64) (by omega)
    have hp := digit_ne_pad (c.toNat % 64) (by omega)
    have hby₁ : byte (a.toNat / 4 * 4 + (a.toNat % 4 * 16 + b.toNat / 16) / 16) = a := byte_eq (by omega)
    have hby₂ : byte
        ((a.toNat % 4 * 16 + b.toNat / 16) % 16 * 16 + (b.toNat % 16 * 4 + c.toNat / 64) / 4) = b :=
      byte_eq (by omega)
    have hby₃ : byte ((b.toNat % 16 * 4 + c.toNat / 64) % 4 * 64 + c.toNat % 64) = c := byte_eq (by omega)
    simp only [decodeChars, h₁, h₂, h₃, h₄, hp, hby₁, hby₂, hby₃, ih, reduceIte,
      Option.bind_eq_bind, Option.bind_some, Option.pure_def]

theorem digit_eq_pad_or_mem (n : Nat) : digit n = '=' ∨ digit n ∈ alphabet := by
  rw [digit, getD_eq_getElem?_getD]
  cases h : alphabet[n]? with
  | none => exact .inl rfl
  | some c => exact .inr (mem_of_getElem? h)

theorem mem_encodeBytes {c : Char} {bs : List UInt8} (h : c ∈ encodeBytes bs) : c = '=' ∨ c ∈ alphabet := by
  fun_induction encodeBytes bs with
  | case1 => exact absurd h not_mem_nil
  | case2 a | case3 a b =>
    simp only [mem_cons, not_mem_nil, or_false] at h
    rcases h with rfl | rfl | rfl | rfl
    all_goals first | exact digit_eq_pad_or_mem _ | exact .inl rfl
  | case4 a b c rs ih =>
    simp only [mem_cons] at h
    rcases h with rfl | rfl | rfl | rfl | h
    · exact digit_eq_pad_or_mem _
    · exact digit_eq_pad_or_mem _
    · exact digit_eq_pad_or_mem _
    · exact digit_eq_pad_or_mem _
    · exact ih h

@[simp] theorem decode_encode (bs : List UInt8) : decode (encode bs) = some bs := by
  simp [decode, encode, decodeChars_encodeBytes]

end Base64

def toBeBytes (n : UInt16) : List UInt8 := [UInt8.ofNat (n.toNat / 256), UInt8.ofNat n.toNat]

def ofBeBytes (hi lo : UInt8) : UInt16 := UInt16.ofNat (hi.toNat * 256 + lo.toNat)

theorem ofBeBytes_ofNat (n : UInt16) : ofBeBytes (UInt8.ofNat (n.toNat / 256)) (UInt8.ofNat n.toNat) = n := by
  have hn := n.toNat_lt
  rw [← UInt16.toNat_inj, ofBeBytes]
  simp only [UInt16.toNat_ofNat', UInt8.toNat_ofNat']
  omega

theorem toBeBytes_ofBeBytes (hi lo : UInt8) : toBeBytes (ofBeBytes hi lo) = [hi, lo] := by
  have hhi := hi.toNat_lt
  have hlo := lo.toNat_lt
  have hw : (ofBeBytes hi lo).toNat = hi.toNat * 256 + lo.toNat := by
    rw [ofBeBytes, UInt16.toNat_ofNat']
    omega
  have hh : UInt8.ofNat ((ofBeBytes hi lo).toNat / 256) = hi := Base64.byte_eq (by omega)
  have hl : UInt8.ofNat (ofBeBytes hi lo).toNat = lo := by
    rw [← UInt8.toNat_inj, UInt8.toNat_ofNat']
    omega
  rw [toBeBytes, hh, hl]

section Chunks

variable {α : Type*}

def chunksOf (size : Nat) (xs : List α) : List (List α) :=
  (List.range ((xs.length + size - 1) / size)).map fun i => (xs.drop (i * size)).take size

theorem flatten_slices (size : Nat) (xs : List α) (n : Nat) :
    ((range n).map fun i => (xs.drop (i * size)).take size).flatten = xs.take (n * size) := by
  induction n with
  | zero => simp
  | succ n ih =>
    have hl : n.succ * size = n * size + size := Nat.succ_mul n size
    simp [range_succ, ih, hl, take_add]

theorem flatten_chunksOf {size : Nat} (hs : 0 < size) (xs : List α) : (chunksOf size xs).flatten = xs := by
  have hc : xs.length ≤ (xs.length + size - 1) / size * size := by
    have hd := Nat.div_add_mod (xs.length + size - 1) size
    have hm := Nat.mod_lt (xs.length + size - 1) hs
    rw [Nat.mul_comm] at hd
    omega
  rw [chunksOf, flatten_slices, take_of_length_le hc]

theorem length_le_of_mem_chunksOf {size : Nat} {xs chunk : List α} (h : chunk ∈ chunksOf size xs) :
    chunk.length ≤ size := by
  simp only [chunksOf, mem_map] at h
  obtain ⟨i, -, rfl⟩ := h
  exact length_take_le _ _

end Chunks

end ShareCli.Foundation
