import ShareCli.Foundation.Monitor

/-!
# The semaphore of the builds (`crates/spawn-core/src/spawn_core.zig`, `crates/spawn-core-sys/src/unix_ffi.rs`)

`held` is not in the source: it counts the permits that have been taken and not given back.
-/

namespace ShareCli.Spawn

open Foundation

/-- The count, its bound and the permits held. -/
structure Semaphore where
  count : Nat
  max : Nat
  held : Nat := 0

structure PthreadError where
  code : Nat
  nonzero : code ≠ 0

def PthreadError.negated (error : PthreadError) : Int := -error.code

inductive SemaphoreCall where
  | acquire
  | tryAcquire
  | release
deriving DecidableEq

inductive SemaphorePoint where
  | acquireTest
  | acquireTake
  | acquireUnlock
  | acquireFailed (error : PthreadError)
  | tryTest
  | tryTake
  | tryUnlock (got : Int)
  | releaseTest
  | releaseAdd
  | releaseSignal
  | releaseUnlock

namespace Semaphore

def take (sem : Semaphore) : Semaphore := { sem with count := sem.count - 1, held := sem.held + 1 }

def giveBack (sem : Semaphore) : Semaphore := { sem with count := sem.count + 1, held := sem.held - 1 }

def act : SemaphorePoint → Semaphore → MonitorAction SemaphorePoint Semaphore Int PthreadError
  | .acquireTest, sem => if sem.count = 0 then .wait .acquireTest .acquireFailed else .step sem .acquireTake
  | .acquireTake, sem => .step sem.take .acquireUnlock
  | .acquireUnlock, _ => .unlock 0
  | .acquireFailed error, _ => .unlock error.negated
  | .tryTest, sem => if 0 < sem.count then .step sem .tryTake else .step sem (.tryUnlock 1)
  | .tryTake, sem => .step sem.take (.tryUnlock 0)
  | .tryUnlock got, _ => .unlock got
  | .releaseTest, sem => if sem.count < sem.max then .step sem .releaseAdd else .step sem .releaseSignal
  | .releaseAdd, sem => .step sem.giveBack .releaseSignal
  | .releaseSignal, _ => .signal .releaseUnlock
  | .releaseUnlock, _ => .unlock 0

def new (max : Nat) : Semaphore := { count := max, max }

end Semaphore

def spcSemaphore : Monitor SemaphoreCall SemaphorePoint Semaphore Int PthreadError where
  start
    | .acquire => .acquireTest
    | .tryAcquire => .tryTest
    | .release => .releaseTest
  act := Semaphore.act
  lockFailed := PthreadError.negated

namespace ZigSemaphore

def threads (max count : Nat) :
    Machine (MonitorState SemaphorePoint Semaphore Int) (MonitorEvent SemaphoreCall PthreadError) :=
  spcSemaphore.machine (Semaphore.new (Nat.max max 1)) count

def tryAcquireResult (rc : Int) : Except Int Bool :=
  if rc = 0 then .ok true else if rc = 1 then .ok false else .error (-rc)

end ZigSemaphore

def SemaphorePoint.isBeforeAdd : SemaphorePoint → Bool
  | .releaseTest | .releaseAdd => true
  | _ => false

def SemaphorePoint.isBeforeTake : SemaphorePoint → Bool
  | .acquireTest | .acquireTake => true
  | _ => false

/-- In `release`, and the permit is not given back yet. -/
def releasing : Place SemaphorePoint → Bool
  | .locking point | .inside point _ => point.isBeforeAdd
  | _ => false

/-- In `acquire`, and waiting for a signal or for the mutex after one. -/
def blocked (place : Place SemaphorePoint) : Bool := place.isAsleep || place.isSignalled

/-- A thread that has been signalled, and has neither taken a permit since nor found that there is none. -/
def notified : Place SemaphorePoint → Bool
  | .signalled _ => true
  | .inside point signalled => signalled && point.isBeforeTake
  | _ => false

def aboutToSignal : Place SemaphorePoint → Bool
  | .inside .releaseSignal _ => true
  | _ => false

/-- Every release follows an acquisition that is not released yet. -/
def Paired (s : MonitorState SemaphorePoint Semaphore Int) : MonitorEvent SemaphoreCall PthreadError → Prop
  | .call _ .release => s.tally releasing < s.data.held
  | _ => True

instance : ∀ s event, Decidable (Paired s event)
  | s, .call _ .release => inferInstanceAs (Decidable (s.tally releasing < s.data.held))
  | _, .call _ .acquire | _, .call _ .tryAcquire => isTrue trivial
  | _, .lock _ | _, .lockError _ _ | _, .proceed _ | _, .signal _ _ | _, .waitError _ _ | _, .wake _ =>
    isTrue trivial

end ShareCli.Spawn
