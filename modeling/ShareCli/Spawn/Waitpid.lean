import Mathlib.Data.BitVec

/-!
# The end of a child (`crates/spawn-core/src/spawn_core.zig`, `crates/spawn-core-sys/src/unix_ffi.rs`)

`spc_waitpid` takes the exit code out of the status word that `waitpid` stores. POSIX puts a signal that has
ended the child into the low seven bits of this word, which are not looked at.
-/

namespace ShareCli.Spawn

structure Waited where
  ret : Int
  status : BitVec 32

def spcWaitpid (waited : Waited) : Int :=
  if waited.ret < 0 then -1 else (waited.status.sshiftRight 8 &&& 0xff#32).toInt

/-- An error is the number of `from_raw_os_error`. -/
def zigWaitpid (waited : Waited) : Except Int Int :=
  let rc := spcWaitpid waited
  if 0 ≤ rc then .ok rc else .error (-rc)

/-- All ones stand for a child that has only been stopped. -/
structure Signal where
  number : BitVec 7
  nonzero : number ≠ 0
  ends : number ≠ 0x7f

inductive ChildEnd where
  | exited (code : BitVec 8)
  | signaled (signal : Signal) (core : Bool)

namespace ChildEnd

def status : ChildEnd → BitVec 32
  | exited code => code.setWidth 32 <<< 8
  | signaled signal core => (BitVec.ofBool core ++ signal.number).setWidth 32

def waited (pid : Nat) (child : ChildEnd) : Waited := ⟨pid, child.status⟩

def isSignaled : ChildEnd → Bool
  | exited _ => false
  | signaled .. => true

end ChildEnd

theorem zigWaitpid_eq_ok (pid : Nat) {child : ChildEnd} {n : Nat}
    (h : (child.status.sshiftRight 8 &&& 0xff#32).toInt = n) : zigWaitpid (child.waited pid) = .ok n := by
  have hr : spcWaitpid (child.waited pid) = n := by
    rw [spcWaitpid, if_neg (by simp [ChildEnd.waited])]
    exact h
  simp [zigWaitpid, hr]

theorem zigWaitpid_exited (pid : Nat) (code : BitVec 8) :
    zigWaitpid ((ChildEnd.exited code).waited pid) = .ok code.toNat := by
  have h : ∀ c : BitVec 8, ((c.setWidth 32 <<< 8).sshiftRight 8 &&& 0xff#32).toInt = c.toNat := by
    decide +kernel
  exact zigWaitpid_eq_ok pid (h code)

theorem zigWaitpid_signaled (pid : Nat) (signal : Signal) (core : Bool) :
    zigWaitpid ((ChildEnd.signaled signal core).waited pid) = .ok 0 := by
  have h : ∀ b : BitVec 8, ((b.setWidth 32).sshiftRight 8 &&& 0xff#32).toInt = (0 : Nat) := by
    decide +kernel
  exact zigWaitpid_eq_ok pid (h _)

/-- **Exit reporting**, for every child that no signal has ended, and for no other one. -/
theorem zig_waitpid_reports_iff (pid : Nat) (child : ChildEnd) :
    (zigWaitpid (child.waited pid) = .ok 0 ↔ child = .exited 0) ↔ child.isSignaled = false := by
  cases child with
  | exited code =>
    have h : code = 0#8 ↔ code.toNat = 0 := BitVec.toNat_eq
    simp [zigWaitpid_exited, ChildEnd.isSignaled, h]
  | signaled signal core => simp [zigWaitpid_signaled, ChildEnd.isSignaled]

/-- A child that is killed by `SIGKILL` is reported like one that has succeeded. -/
theorem killed_child_reported_ok :
    let child := ChildEnd.signaled ⟨9, by decide, by decide⟩ false
    zigWaitpid (child.waited 100) = .ok 0 ∧ child ≠ .exited 0 := by
  exact ⟨zigWaitpid_signaled _ _ _, by simp⟩

end ShareCli.Spawn
