import Mathlib.Data.List.Basic

/-!
# Decimal numbers in texts

`Nat.toDigits 10 n` is what `{}` prints for an unsigned number. `parseUnsigned` reads one back the way
`str::parse` does: an optional plus sign, at least one digit, and a value below the bound of the type.
-/

namespace ShareCli.Foundation.Decimal

open List Option

def parseDigits (bound : Nat) (cs : List Char) : Option Nat :=
  if cs ≠ [] ∧ cs.all Char.isDigit ∧ Nat.ofDigitChars 10 cs 0 < bound then
    some (Nat.ofDigitChars 10 cs 0)
  else none

def parseUnsigned (bound : Nat) : List Char → Option Nat
  | '+' :: cs => parseDigits bound cs
  | cs => parseDigits bound cs

/-- `str::parse` for the values from `-limit` to `limit - 1`. -/
def parseSigned (limit : Nat) : List Char → Option Int
  | '-' :: cs => (parseDigits (limit + 1) cs).map fun n : Nat => -(n : Int)
  | '+' :: cs => (parseDigits limit cs).map fun n : Nat => (n : Int)
  | cs => (parseDigits limit cs).map fun n : Nat => (n : Int)

def digitsError (bound : Nat) (overflow : String) (cs : List Char) : String :=
  if bound ≤ Nat.ofDigitChars 10 (cs.takeWhile Char.isDigit) 0 then overflow else "invalid digit found in string"

/-- The text of the error with which `str::parse` refuses what `parseSigned` does not accept. -/
def parseSignedError (limit : Nat) : List Char → String
  | [] => "cannot parse integer from empty string"
  | '-' :: cs => digitsError (limit + 1) "number too small to fit in target type" cs
  | '+' :: cs => digitsError limit "number too large to fit in target type" cs
  | cs => digitsError limit "number too large to fit in target type" cs

def formatSigned (n : Int) : List Char :=
  if n < 0 then '-' :: Nat.toDigits 10 n.natAbs else Nat.toDigits 10 n.natAbs

def pad2 (n : Nat) : List Char := if n < 10 then '0' :: Nat.toDigits 10 n else Nat.toDigits 10 n

variable {bound n : Nat} {c : Char} {cs : List Char}

theorem isDigit_toDigits (n : Nat) : ∀ c ∈ Nat.toDigits 10 n, c.isDigit := fun _ hc =>
  Nat.isDigit_of_mem_toDigits (by decide) (by decide) hc

theorem not_mem_of_digits (hd : ∀ c ∈ cs, c.isDigit) (hc : c.isDigit = false) :
    c ∉ cs := fun h => by simp [hd c h] at hc

theorem isDigit_of_mem_pad2 (h : c ∈ pad2 n) : c.isDigit := by
  unfold pad2 at h
  split at h
  · rcases mem_cons.mp h with rfl | h
    · rfl
    · exact isDigit_toDigits n c h
  · exact isDigit_toDigits n c h

theorem pad2_ne_nil : pad2 n ≠ [] := by
  unfold pad2
  split
  · simp
  · exact Nat.toDigits_ne_nil

theorem ofDigitChars_pad2 : Nat.ofDigitChars 10 (pad2 n) 0 = n := by
  unfold pad2
  split
  · rw [Nat.ofDigitChars_cons]
    simp [Nat.ofDigitChars_ten_toDigits]
  · exact Nat.ofDigitChars_ten_toDigits

theorem parseDigits_of_digits (hne : cs ≠ []) (hd : ∀ c ∈ cs, c.isDigit) (hv : Nat.ofDigitChars 10 cs 0 = n)
    (hlt : n < bound) : parseDigits bound cs = some n := by
  rw [parseDigits, if_pos ⟨hne, all_eq_true.mpr hd, hv ▸ hlt⟩, hv]

theorem parseUnsigned_of_digits (hne : cs ≠ []) (hd : ∀ c ∈ cs, c.isDigit) (hv : Nat.ofDigitChars 10 cs 0 = n)
    (hlt : n < bound) : parseUnsigned bound cs = some n := by
  have hdg : parseDigits bound cs = some n := parseDigits_of_digits hne hd hv hlt
  unfold parseUnsigned
  split
  · rename_i cs'
    have hp := hd '+' (mem_cons_self)
    simp [Char.isDigit] at hp
  · exact hdg

theorem parseUnsigned_toDigits (h : n < bound) : parseUnsigned bound (Nat.toDigits 10 n) = some n :=
  parseUnsigned_of_digits Nat.toDigits_ne_nil (isDigit_toDigits n) Nat.ofDigitChars_ten_toDigits h

theorem parseDigits_toDigits (h : n < bound) : parseDigits bound (Nat.toDigits 10 n) = some n :=
  parseDigits_of_digits Nat.toDigits_ne_nil (isDigit_toDigits n) Nat.ofDigitChars_ten_toDigits h

theorem formatSigned_natCast (n : Nat) : formatSigned n = Nat.toDigits 10 n := by
  rw [formatSigned, if_neg (by omega), Int.natAbs_natCast]

variable {i : Int}

theorem of_mem_formatSigned (h : c ∈ formatSigned i) : c = '-' ∨ c.isDigit := by
  unfold formatSigned at h
  split at h
  · cases h with
    | head => exact .inl rfl
    | tail _ h => exact .inr (isDigit_toDigits _ c h)
  · exact .inr (isDigit_toDigits _ c h)

theorem parseSigned_toDigits {lim : Nat} (n : Nat) : parseSigned lim (Nat.toDigits 10 n) =
    (parseDigits lim (Nat.toDigits 10 n)).map fun n : Nat => (n : Int) := by
  unfold parseSigned
  split
  · rename_i cs hcs
    have hs : '-'.isDigit := isDigit_toDigits _ _ (hcs ▸ mem_cons_self)
    exact absurd hs (by decide)
  · rename_i cs hcs
    have hs : '+'.isDigit := isDigit_toDigits _ _ (hcs ▸ mem_cons_self)
    exact absurd hs (by decide)
  · rfl

theorem parseSigned_formatSigned {lim : Nat} (hl : -(lim : Int) ≤ i) (hh : i < lim) :
    parseSigned lim (formatSigned i) = some i := by
  unfold formatSigned
  split
  · rw [parseSigned, parseDigits_toDigits (by omega), map_some]
    congr 1
    omega
  · rw [parseSigned_toDigits, parseDigits_toDigits (by omega), map_some]
    congr 1
    omega

theorem parseSigned_of_le {lim : Nat} (h : lim ≤ n) : parseSigned lim (Nat.toDigits 10 n) = none := by
  have hd : parseDigits lim (Nat.toDigits 10 n) = none := by
    refine if_neg fun hd => ?_
    rw [Nat.ofDigitChars_ten_toDigits] at hd
    omega
  rw [parseSigned_toDigits, hd, map_none]

theorem parseDigits_of_mark (h : c ∈ cs) (hc : c.isDigit = false) : parseDigits bound cs = none :=
  if_neg fun hd => not_mem_of_digits (all_eq_true.mp hd.2.1) hc h

/-- A character that is neither a digit nor a sign. -/
theorem parse_of_mark {lim : Nat} (h : c ∈ cs) (hc : c.isDigit = false) (hm : c ≠ '-') (hp : c ≠ '+') :
    parseSigned lim cs = none ∧ parseUnsigned bound cs = none := by
  constructor
  · unfold parseSigned
    split
    · rw [parseDigits_of_mark (mem_of_ne_of_mem hm h) hc, map_none]
    · rw [parseDigits_of_mark (mem_of_ne_of_mem hp h) hc, map_none]
    · rw [parseDigits_of_mark h hc, map_none]
  · unfold parseUnsigned
    split
    · exact parseDigits_of_mark (mem_of_ne_of_mem hp h) hc
    · exact parseDigits_of_mark h hc

theorem lt_of_parseDigits (h : parseDigits bound cs = some n) : n < bound := by
  obtain ⟨⟨-, -, hlt⟩, hn⟩ := ite_none_right_eq_some.mp h
  exact some.inj hn ▸ hlt

theorem parseSigned_bounds {lim : Nat} (hl : 0 < lim) (h : parseSigned lim cs = some i) :
    -(lim : Int) ≤ i ∧ i < lim := by
  unfold parseSigned at h
  split at h
  all_goals
    obtain ⟨n, hn, rfl⟩ := map_eq_some_iff.mp h
    have hlt := lt_of_parseDigits hn
    omega

theorem parseUnsigned_pad2 (h : n < bound) : parseUnsigned bound (pad2 n) = some n :=
  parseUnsigned_of_digits pad2_ne_nil (fun _ hc => isDigit_of_mem_pad2 hc) ofDigitChars_pad2 h

theorem not_mem_toDigits (hc : c.isDigit = false) (n : Nat) : c ∉ Nat.toDigits 10 n :=
  not_mem_of_digits (isDigit_toDigits n) hc

end ShareCli.Foundation.Decimal
