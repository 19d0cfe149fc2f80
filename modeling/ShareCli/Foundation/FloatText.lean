import Mathlib.Data.List.Basic

/-!
# Floating-point numbers as texts

Printing with `{}` and reading with `str::parse`: a number is read back as it was printed, with one value for
all that is not a number.
-/

namespace ShareCli.Foundation

/-- The characters of a printed number: it has no exponent. -/
def floatChars : List Char := "-.0123456789NaNinf".toList

structure FloatFormat (F : Type) where
  ofInt : Int → F
  display : F → List Char
  parse : List Char → Option F
  parse_display : ∀ x, parse (display x) = some x
  mem_display : ∀ x, ∀ c ∈ display x, c ∈ floatChars

theorem FloatFormat.not_mem_display {F : Type} (fmt : FloatFormat F) (x : F) {c : Char} (hc : c ∉ floatChars) :
    c ∉ fmt.display x := fun h => hc (fmt.mem_display x c h)

end ShareCli.Foundation
