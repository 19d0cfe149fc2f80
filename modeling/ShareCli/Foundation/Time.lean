import Mathlib.Data.Int.Basic
import Mathlib.Data.Nat.Basic

/-!
# Durations, clock readings and dates

A duration is a number of nanoseconds; the conversions to coarser units round down. A date is a number of
nanoseconds since the epoch between the years -262143 and 262142. Where the library panics, the functions have
no result.
-/

namespace ShareCli.Foundation

namespace Duration

def fromSecs (secs : Nat) : Nat := secs * 1000000000

def fromMillis (millis : Nat) : Nat := millis * 1000000

def asMillis (d : Nat) : Nat := d / 1000000

def asSecs (d : Nat) : Nat := d / 1000000000

theorem asMillis_div_thousand (d : Nat) : asMillis d / 1000 = asSecs d := by
  simp [asMillis, asSecs, Nat.div_div_eq_div_mul]

theorem asSecs_fromSecs (secs : Nat) : asSecs (fromSecs secs) = secs := by
  simp [asSecs, fromSecs]

end Duration

namespace DateTime

def minNanos : Int := -8334601228800 * 1000000000

def maxNanos : Int := 8210266876799 * 1000000000 + 999999999

end DateTime

structure DateTime where
  nanos : Int
  inRange : DateTime.minNanos ≤ nanos ∧ nanos ≤ DateTime.maxNanos
deriving DecidableEq

namespace DateTime

def spanOfSeconds (seconds : Int) : Option Int :=
  if -9223372036854775 ≤ seconds ∧ seconds ≤ 9223372036854775 then some (seconds * 1000000000) else none

def add (time : DateTime) (span : Int) : Option DateTime :=
  if h : minNanos ≤ time.nanos + span ∧ time.nanos + span ≤ maxNanos then some ⟨time.nanos + span, h⟩
  else none

end DateTime

end ShareCli.Foundation
