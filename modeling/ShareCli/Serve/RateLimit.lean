import Mathlib.Algebra.Order.Ring.Nat
import ShareCli.Foundation.Decimal
import ShareCli.Foundation.Machine
import ShareCli.Foundation.Time

/-!
# The rate limit of `sharecli serve` (`rate_limiter.rs`, `serve_rate_limit.rs`)

A limiter forgets the admitted calls that are older than its window. An instant is a number of nanoseconds on the
monotonic clock, whose seconds are a signed 64-bit number.
-/

namespace ShareCli.Serve

open Foundation

def minInstant : Int := -2 ^ 63 * 1000000000

/-- `now - window`; `none` is a panic. -/
def checkedCutoff (now : Int) (window : Nat) : Option Int :=
  if now - window < minInstant then none else some (now - window)

/-- The times of admitted calls. -/
structure RateLimiter where
  maxPerWindow : Nat
  window : Nat
  hits : List Int
deriving DecidableEq

namespace RateLimiter

def new (maxPerWindow window : Nat) : RateLimiter := { maxPerWindow, window, hits := [] }

/-- `none` is a panic, which comes before anything is changed. -/
def tryAcquire (limiter : RateLimiter) (now : Int) : Option (Bool × RateLimiter) :=
  match checkedCutoff now limiter.window with
  | none => none
  | some cutoff =>
    let hits := limiter.hits.filter fun t => cutoff < t
    if hits.length < limiter.maxPerWindow then some (true, { limiter with hits := hits ++ [now] })
    else some (false, { limiter with hits })

/-- `duration_since` of a later instant is zero. -/
def retryAfterSecs (limiter : RateLimiter) (now : Int) : Option Nat :=
  if limiter.hits.length < limiter.maxPerWindow then some 0
  else
    match checkedCutoff now limiter.window with
    | none => none
    | some cutoff =>
      match (limiter.hits.filter fun t => cutoff < t).min? with
      | some t => some (Duration.asSecs (limiter.window - (now - t).toNat))
      | none => some 0

end RateLimiter

structure ServeRateLimit where
  limiter : RateLimiter
  window : Nat
  maxPerWindow : Nat
deriving DecidableEq

namespace ServeRateLimit

def new (maxPerWindow window : Nat) : ServeRateLimit :=
  { limiter := .new maxPerWindow window, window, maxPerWindow }

def tryAcquire (limit : ServeRateLimit) (now : Int) : Option (Bool × ServeRateLimit) :=
  (limit.limiter.tryAcquire now).map fun (admitted, limiter) => (admitted, { limit with limiter })

def retryAfterSecs (limit : ServeRateLimit) (now : Int) : Option Nat :=
  (limit.limiter.retryAfterSecs now).map (max · 1)

end ServeRateLimit

inductive Verdict where
  | admitted
  | denied
  | panicked
deriving DecidableEq

structure Call where
  time : Int
  verdict : Verdict
deriving DecidableEq

def admittedTimes (calls : List Call) : List Int :=
  (calls.filter fun call => call.verdict = .admitted).map Call.time

/-- A limiter and its calls. -/
structure LimitRun where
  limit : ServeRateLimit
  calls : List Call
deriving DecidableEq

/-- A panic leaves the limit as it is, and its lock is taken again although it is poisoned. -/
def ServeRateLimit.verdict (limit : ServeRateLimit) (now : Int) : Verdict × ServeRateLimit :=
  match limit.tryAcquire now with
  | none => (.panicked, limit)
  | some (true, limit) => (.admitted, limit)
  | some (false, limit) => (.denied, limit)

/-- Calls hold the lock of the limit, so that the clock does not go back from one to the next. -/
def LimitRun.call (run : LimitRun) (now : Int) : Option (Verdict × LimitRun) :=
  if run.calls.all fun call => call.time ≤ now then
    let (verdict, limit) := run.limit.verdict now
    some (verdict, { limit, calls := run.calls ++ [⟨now, verdict⟩] })
  else none

def limitMachine (maxPerWindow window : Nat) : Machine LimitRun Int where
  init := { limit := .new maxPerWindow window, calls := [] }
  step run now := (run.call now).map Prod.snd

end ShareCli.Serve
