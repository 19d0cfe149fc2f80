import ShareCli.Foundation.TwoWayMap
import ShareCli.Teamcomm.Lifecycle

/-!
# One daemon at a time

A daemon reads the pid file, probes, removes and writes in steps of their own, so that two daemons can find
that there is none.
-/

namespace ShareCli.Teamcomm

open Foundation List Option

theorem readPidFile_pidText (pid : UInt32) : readPidFile (some (pidText pid)) = .ok (some pid) := by
  have hd : ∀ c ∈ pidText pid, Text.isWhitespace c = false := by
    intro c hc
    have hc' : c.isDigit := Decimal.isDigit_toDigits _ c hc
    simp only [Char.isDigit, Bool.and_eq_true, decide_eq_true_eq] at hc'
    obtain ⟨hl, hh⟩ := hc'
    have hn : 48 ≤ c.toNat ∧ c.toNat ≤ 57 := ⟨hl, hh⟩
    simp only [Text.isWhitespace, Bool.or_eq_false_iff, Bool.and_eq_false_iff, decide_eq_false_iff_not]
    omega
  have ht : Text.trim (pidText pid) = pidText pid :=
    Text.trim_eq_self (fun c hc => hd c (mem_of_mem_head? hc))
      (fun c hc => hd c (mem_of_mem_getLast? hc))
  have hp : Decimal.parseUnsigned (2 ^ 32) (pidText pid) = some pid.toNat :=
    Decimal.parseUnsigned_toDigits pid.toNat_lt
  unfold readPidFile
  dsimp only
  rw [ht]
  split
  · rename_i hnl
    exact absurd hnl Nat.toDigits_ne_nil
  · rw [hp]
    simp

/-- The daemon has read the pid file and not yet written it. -/
def StartPc.inWindow : StartPc → Bool
  | .probing _ | .removing | .writing => true
  | _ => false

def StartPc.hasClaimed : StartPc → Bool
  | .claimed | .serving | .draining | .leaving => true
  | _ => false

def Host.At (s : Host) (pid : UInt32) (pc : StartPc) : Prop := s.procs.lookup pid = some (some pc)
deriving Decidable

def Single (s : Host) : Prop := ∀ p q, s.At p .serving → s.At q .serving → p = q

/-- No daemon but the one with this pid is in the part of `write_pid_file` after the read. -/
def Host.windowFree (s : Host) (pid : UInt32) : Bool :=
  s.procs.entries.all fun e => e.1 = pid || !(e.2.any StartPc.inWindow)

/-- The pid file names no daemon that has claimed it, other than the one with this pid. -/
def Host.namesNoOther (s : Host) (pid : Option UInt32) : Bool :=
  s.procs.entries.all fun e =>
    some e.1 = pid || !(e.2.any StartPc.hasClaimed) || decide (readPidFile s.pidFile ≠ .ok (some e.1))

/-- A daemon reads the pid file only while no other one is between its read and its write, its probe tells the truth,
and the pid file is removed only when it names no other daemon. -/
def Orderly (s : Host) : ProcEvent → Prop
  | .start pid (.read _) => s.windowFree pid = true
  | .start _ (.probe works) => works = true
  | .start pid (.removePid _) => s.namesNoOther (some pid) = true
  | .stop _ (.remove _) => s.namesNoOther none = true
  | _ => True

instance (s : Host) : (event : ProcEvent) → Decidable (Orderly s event)
  | .start pid (.read _) => inferInstanceAs (Decidable (s.windowFree pid = true))
  | .start _ (.probe works) => inferInstanceAs (Decidable (works = true))
  | .start pid (.removePid _) => inferInstanceAs (Decidable (s.namesNoOther (some pid) = true))
  | .stop _ (.remove _) => inferInstanceAs (Decidable (s.namesNoOther none = true))
  | .start _ (.remove _) | .start _ .write | .start _ (.writeFails _) | .start _ .bind
  | .start _ (.bindFails _) | .start _ .shutdown | .start _ (.removeSocket _) | .stop _ (.read _)
  | .stop _ (.probe _) | .stop _ (.kill _) | .spawn _ _ | .exit _ | .callStop | .exitStop _ =>
    isTrue trivial

section Orderly

variable {s : Host} {pid p q : UInt32} {pc : StartPc}

theorem Host.mem_entries (h : s.At p pc) : (⟨p, some pc⟩ : Sigma fun _ : UInt32 => Option StartPc) ∈
    s.procs.entries :=
  AList.mem_lookup_iff.mp h

theorem Host.windowFree_spec (h : s.windowFree pid = true) (hq : s.At q pc) (hne : q ≠ pid) :
    pc.inWindow = false := by
  have he := all_eq_true.mp h _ (Host.mem_entries hq)
  simpa [hne] using he

theorem Host.namesNoOther_spec {self : Option UInt32} (h : s.namesNoOther self = true) (hq : s.At q pc)
    (hne : some q ≠ self) (hc : pc.hasClaimed = true) : readPidFile s.pidFile ≠ .ok (some q) := by
  have he := all_eq_true.mp h _ (Host.mem_entries hq)
  simpa [hne, hc] using he

end Orderly

/-- While a daemon is between its read and its write, no other one is, and one that has claimed the file is the one
that it is about to probe. -/
structure Guarded (s : Host) : Prop where
  recorded : ∀ p pc, s.At p pc → pc.hasClaimed = true → readPidFile s.pidFile = .ok (some p)
  alone : ∀ p pc, s.At p pc → pc.inWindow = true → ∀ q pc', s.At q pc' → q ≠ p →
    pc'.inWindow = false ∧ (pc'.hasClaimed = true → pc = .probing q)

theorem Guarded.single {s : Host} (h : Guarded s) : Single s := by
  intro p q hp hq
  have hf := h.recorded p _ hp rfl
  rw [h.recorded q _ hq rfl] at hf
  exact (some_inj.mp (Except.ok.inj hf)).symm

theorem at_insert_iff {s s' : Host} {p q : UInt32} {place : Option StartPc} {pc : StartPc}
    (hp : s'.procs = s.procs.insert p place) :
    s'.At q pc ↔ q = p ∧ place = some pc ∨ q ≠ p ∧ s.At q pc := by
  unfold Host.At
  rw [hp, lookup_insert_eq_some_iff, eq_comm (a := some pc)]

section Moves

variable {s s' : Host} {p : UInt32} {pc pc' : StartPc}

theorem Guarded.move (h : Guarded s) (hp : s.At p pc) (hpr : s'.procs = s.procs.insert p (some pc'))
    (hf : s'.pidFile = s.pidFile ∨ ∀ q pcq, s.At q pcq → q ≠ p → pcq.hasClaimed = false)
    (hc : pc'.hasClaimed = true → readPidFile s'.pidFile = .ok (some p))
    (he : pc'.hasClaimed = true → pc.hasClaimed = true ∨ pc.inWindow = true)
    (hw : pc'.inWindow = true → ∀ q pcq, s.At q pcq → q ≠ p →
      pcq.inWindow = false ∧ (pcq.hasClaimed = true → pc' = .probing q)) : Guarded s' := by
  constructor
  · intro q pcq hq hq_claimed
    rcases (at_insert_iff hpr).mp hq with ⟨rfl, hpl⟩ | ⟨hne, hold⟩
    · cases hpl
      exact hc hq_claimed
    · rcases hf with hs | hn
      · rw [hs]
        exact h.recorded q pcq hold hq_claimed
      · rw [hn q pcq hold hne] at hq_claimed
        cases hq_claimed
  · intro q pcq hq hq_window r pcr hr hrq
    rcases (at_insert_iff hpr).mp hq with ⟨rfl, hpl⟩ | ⟨hne, hold⟩
    · cases hpl
      rcases (at_insert_iff hpr).mp hr with ⟨hs, -⟩ | ⟨-, hr_old⟩
      · exact absurd hs hrq
      · exact hw hq_window r pcr hr_old hrq
    · rcases (at_insert_iff hpr).mp hr with ⟨rfl, hpl⟩ | ⟨-, hr_old⟩
      · -- Another daemon is in the window while this one moves.
        cases hpl
        have hb := h.alone q pcq hold hq_window r pc hp hrq
        constructor
        · by_contra hin
          rw [Bool.not_eq_false] at hin
          rw [(hw hin q pcq hold hne).1] at hq_window
          cases hq_window
        · intro hcl
          rcases he hcl with hc' | hw'
          · exact hb.2 hc'
          · rw [hb.1] at hw'
            cases hw'
      · exact h.alone q pcq hold hq_window r pcr hr_old hrq

theorem Guarded.removed (h : Guarded s) (hp : s'.procs = s.procs)
    (hn : ∀ q pcq, s.At q pcq → pcq.hasClaimed = true → readPidFile s.pidFile ≠ .ok (some q)) :
    Guarded s' := by
  have hat : ∀ q pcq, s'.At q pcq ↔ s.At q pcq := by
    intro q pcq
    unfold Host.At
    rw [hp]
  constructor
  · intro q pcq hq hc
    have hold := (hat q pcq).mp hq
    exact absurd (h.recorded q pcq hold hc) (hn q pcq hold hc)
  · intro q pcq hq hw r pcr hr hne
    exact h.alone q pcq ((hat q pcq).mp hq) hw r pcr ((hat r pcr).mp hr) hne

theorem Guarded.subset (h : Guarded s) (hf : s'.pidFile = s.pidFile)
    (hat : ∀ q pcq, s'.At q pcq → pcq = .reading ∨ s.At q pcq) : Guarded s' := by
  constructor
  · intro q pcq hq hc
    rcases hat q pcq hq with rfl | hold
    · cases hc
    · rw [hf]
      exact h.recorded q pcq hold hc
  · intro q pcq hq hw r pcr hr hne
    rcases hat q pcq hq with rfl | hold
    · cases hw
    · rcases hat r pcr hr with rfl | hr_old
      · exact ⟨rfl, fun hcl => by cases hcl⟩
      · exact h.alone q pcq hold hw r pcr hr_old hne

theorem Guarded.none_claimed (h : Guarded s) (hp : s.At p pc) (hw : pc.inWindow = true)
    (hpc : ∀ q, pc ≠ .probing q) : ∀ q pcq, s.At q pcq → q ≠ p → pcq.hasClaimed = false := by
  intro q pcq hq hne
  by_contra hc
  rw [Bool.not_eq_false] at hc
  exact hpc q ((h.alone p pc hp hw q pcq hq hne).2 hc)

theorem Guarded.proceed (h : Guarded s) (hp : s.At p pc) (hpr : s'.procs = s.procs.insert p (some pc'))
    (hf : s'.pidFile = s.pidFile) (hc : pc'.hasClaimed = true → pc.hasClaimed = true)
    (hw : pc'.inWindow = false) : Guarded s' := by
  refine h.move hp hpr (.inl hf) ?_ (fun hpc => .inl (hc hpc)) ?_
  · intro hpc
    rw [hf]
    exact h.recorded p pc hp (hc hpc)
  · intro hin
    rw [hw] at hin
    cases hin

theorem Guarded.enter {fd : Option UInt32} (h : Guarded s) (hp : s.At p pc)
    (hpr : s'.procs = s.procs.insert p (some pc')) (hf : s'.pidFile = s.pidFile)
    (hr : readPidFile s.pidFile = .ok fd) (hfr : s.windowFree p = true)
    (hc : pc'.hasClaimed = false) (hpb : ∀ q, fd = some q → pc' = .probing q) : Guarded s' := by
  have hn : ¬ pc'.hasClaimed = true := by
    rw [hc]
    exact Bool.false_ne_true
  refine h.move hp hpr (.inl hf) (fun hcl => absurd hcl hn) (fun hcl => absurd hcl hn) ?_
  intro _ q pcq hq hne
  refine ⟨Host.windowFree_spec hfr hq hne, fun hcl => hpb q ?_⟩
  have hrc := h.recorded q pcq hq hcl
  rw [hr] at hrc
  exact Except.ok.inj hrc

inductive Starts (s : Host) (pid : UInt32) : StartPc → StartAction → Option (List Char) → StartPc → Prop where
  | readFails : Starts s pid .reading (.read false) s.pidFile (.failed .readFailed)
  | readError (error : PidFileError) (h : readPidFile s.pidFile = .error error) :
      Starts s pid .reading (.read true) s.pidFile (.failed error)
  | readNone (h : readPidFile s.pidFile = .ok none) : Starts s pid .reading (.read true) s.pidFile .writing
  | readSome (existing : UInt32) (h : readPidFile s.pidFile = .ok (some existing)) :
      Starts s pid .reading (.read true) s.pidFile (.probing existing)
  | running (existing : UInt32) (works : Bool) (h : s.isPidRunning works existing = true) :
      Starts s pid (.probing existing) (.probe works) s.pidFile (.failed (.alreadyRunning existing))
  | dead (existing : UInt32) (works : Bool) (h : s.isPidRunning works existing = false) :
      Starts s pid (.probing existing) (.probe works) s.pidFile .removing
  | removes (ok : Bool) (file : Option (List Char)) : Starts s pid .removing (.remove ok) file .writing
  | writes : Starts s pid .writing .write (some (pidText pid)) .claimed
  | writeFails (written : Option Nat) (file : Option (List Char)) :
      Starts s pid .writing (.writeFails written) file (.failed .writeFailed)
  | binds : Starts s pid .claimed .bind s.pidFile .serving
  | bindFails (removed : Bool) : Starts s pid .claimed (.bindFails removed) s.pidFile .leaving
  | shutsDown : Starts s pid .serving .shutdown s.pidFile .draining
  | removesSocket (ok : Bool) : Starts s pid .draining (.removeSocket ok) s.pidFile .leaving
  | removesPid (ok : Bool) (file : Option (List Char)) : Starts s pid .leaving (.removePid ok) file .stopped

theorem starts_of_startAction {fs : Host} {a : StartAction}
    (h : startAction s p pc a = some (fs, pc')) : Starts s p pc a fs.pidFile pc' := by
  cases pc with
  | reading =>
    cases a with
    | read ok =>
      cases ok with
      | false => cases h; exact .readFails
      | true =>
        delta startAction at h
        cases hr : readPidFile s.pidFile with
        | error error => rw [hr] at h; cases h; exact .readError error hr
        | ok e =>
          cases e with
          | none => rw [hr] at h; cases h; exact .readNone hr
          | some e => rw [hr] at h; cases h; exact .readSome e hr
    | _ => cases h
  | probing e =>
    cases a with
    | probe w =>
      change (if s.isPidRunning w e then some (s, StartPc.failed (.alreadyRunning e))
        else some (s, .removing)) = some (fs, pc') at h
      cases hrn : s.isPidRunning w e with
      | true => rw [hrn] at h; cases h; exact .running e w hrn
      | false => rw [hrn] at h; cases h; exact .dead e w hrn
    | _ => cases h
  | removing =>
    cases a with
    | remove ok => cases h; exact .removes ok _
    | _ => cases h
  | writing =>
    cases a with
    | write => cases h; exact .writes
    | writeFails writer =>
      cases writer with
      | none => cases h; exact .writeFails none _
      | some n => cases h; exact .writeFails (some n) _
    | _ => cases h
  | claimed =>
    cases a with
    | bind => cases h; exact .binds
    | bindFails removed =>
      cases removed with
      | false => cases h; exact .bindFails false
      | true => cases h; exact .bindFails true
    | _ => cases h
  | serving =>
    cases a with
    | shutdown => cases h; exact .shutsDown
    | _ => cases h
  | draining =>
    cases a with
    | removeSocket ok =>
      cases ok with
      | false => cases h; exact .removesSocket false
      | true => cases h; exact .removesSocket true
    | _ => cases h
  | leaving =>
    cases a with
    | removePid ok => cases h; exact .removesPid ok _
    | _ => cases h
  | stopped => cases a <;> cases h
  | failed error => cases a <;> cases h

theorem Guarded.start (h : Guarded s) (hp : s.At p pc) {a : StartAction}
    (hstep : Starts s p pc a s'.pidFile pc') (ho : Orderly s (.start p a))
    (hpr : s'.procs = s.procs.insert p (some pc')) : Guarded s' := by
  generalize hf : s'.pidFile = file at hstep
  cases hstep with
  | readFails | readError error hr => exact h.proceed hp hpr hf nofun rfl
  | readNone hr => exact h.enter hp hpr hf hr ho rfl nofun
  | readSome e hr =>
    refine h.enter hp hpr hf hr ho rfl ?_
    intro q hq
    rw [some_inj.mp hq]
  | running e w hrn => exact h.proceed hp hpr hf nofun rfl
  | dead e w hd =>
    have hw : w = true := ho
    refine h.move hp hpr (.inl hf) nofun nofun ?_
    intro _ q pcq hq hne
    obtain ⟨hou, hpb⟩ := h.alone p _ hp rfl q pcq hq hne
    refine ⟨hou, ?_⟩
    -- A daemon that has claimed the file is alive, and the probe has just said that it is not.
    intro hc
    cases hpb hc
    have hl : e ∈ s.procs := AList.lookup_isSome.mp (by rw [hq]; rfl)
    simp [Host.isPidRunning, hw, hl] at hd
  | removes ok =>
    have hn := h.none_claimed hp rfl nofun
    refine h.move hp hpr (.inr hn) nofun nofun ?_
    intro _ q pcq hq hne
    refine ⟨(h.alone p _ hp rfl q pcq hq hne).1, ?_⟩
    intro hc
    rw [hn q pcq hq hne] at hc
    cases hc
  | writes =>
    refine h.move hp hpr (.inr (h.none_claimed hp rfl nofun)) ?_ (fun _ => .inr rfl) nofun
    intro _
    rw [hf]
    exact readPidFile_pidText p
  | writeFails writer =>
    exact h.move hp hpr (.inr (h.none_claimed hp rfl nofun)) nofun nofun nofun
  | binds | bindFails removed | shutsDown | removesSocket ok =>
    exact h.proceed hp hpr hf (fun _ => rfl) rfl
  | removesPid ok =>
    refine h.move hp hpr (.inr ?_) nofun nofun nofun
    -- The file names this daemon, so that no other one has claimed it.
    intro q pcq hq hne
    by_contra hc
    rw [Bool.not_eq_false] at hc
    have hot : some q ≠ some p := fun heq => hne (some_inj.mp heq)
    exact Host.namesNoOther_spec ho hq hot hc (h.recorded q pcq hq hc)

theorem Guarded.stop (h : Guarded s) {sp sp' : StopPc} {fs : Host} {a : StopAction}
    {i : Nat} (hstep : stopAction s sp a = some (fs, sp'))
    (ho : Orderly s (.stop i a)) (hf : s'.pidFile = fs.pidFile)
    (hp : s'.procs = fs.procs) : Guarded s' := by
  have hqt (hfl : fs = s) : Guarded s' := by
    rw [hfl] at hf hp
    refine h.subset hf fun q pcq hq => .inr ?_
    unfold Host.At at hq ⊢
    rwa [hp] at hq
  unfold stopAction at hstep
  split at hstep
  case h_6 ok =>
    cases hstep
    have hs : s'.procs = s.procs := by
      rw [hp]
      cases ok <;> rfl
    refine h.removed hs ?_
    intro q pcq hq hc
    exact Host.namesNoOther_spec ho hq nofun hc
  case h_7 => cases hstep
  case h_1 =>
    cases hstep
    exact hqt rfl
  all_goals
    split at hstep
    all_goals
      cases hstep
      exact hqt rfl

end Moves

theorem Guarded.step {s s' : Host} {ev : ProcEvent} (h : Guarded s) (ho : Orderly s ev)
    (hstep : s.step ev = some s') : Guarded s' := by
  cases ev with
  | spawn pid daemon =>
    simp only [Host.step, ite_none_left_eq_some, some_inj] at hstep
    obtain ⟨-, rfl⟩ := hstep
    refine h.subset rfl ?_
    intro q pcq hq
    rcases (at_insert_iff rfl).mp hq with ⟨-, hpl⟩ | ⟨-, hold⟩
    · cases daemon with
      | true => exact .inl (some_inj.mp hpl).symm
      | false => cases hpl
    · exact .inr hold
  | start pid a =>
    simp only [Host.step] at hstep
    split at hstep
    · rename_i pc hp
      obtain ⟨⟨fs, pc'⟩, ha, rfl⟩ := map_eq_some_iff.mp hstep
      have hs := starts_of_startAction ha
      exact h.start hp hs ho rfl
    · cases hstep
  | exit pid =>
    simp only [Host.step, ite_none_right_eq_some, some_inj] at hstep
    obtain ⟨-, rfl⟩ := hstep
    refine h.subset rfl ?_
    intro q pcq hq
    exact .inr (lookup_erase_eq_some_iff.mp hq).2
  | callStop =>
    cases hstep
    exact h.subset rfl fun q pcq hq => .inr hq
  | stop i a =>
    simp only [Host.step] at hstep
    split at hstep
    · rename_i pc hpc
      obtain ⟨⟨fs, pc'⟩, ha, rfl⟩ := map_eq_some_iff.mp hstep
      exact h.stop ha ho rfl rfl
    · cases hstep
  | exitStop i =>
    cases hstep
    exact h.subset rfl fun q pcq hq => .inr hq

theorem not_at_init (pf : Option (List Char)) (os : List UInt32) (p : UInt32) (pc : StartPc) :
    ¬ ((lifecycle pf os).init).At p pc := by
  unfold Host.At lifecycle
  induction os with
  | nil => exact nofun
  | cons o os ih =>
    rw [foldr_cons, lookup_insert_eq_some_iff]
    rintro (⟨-, hpl⟩ | ⟨-, hold⟩)
    · cases hpl
    · exact ih hold

/-- **A single daemon**, in orderly runs. -/
theorem orderly_single {pidFile : Option (List Char)} {others : List UInt32} {s : Host}
    (h : (lifecycle pidFile others).ReachableWhen Orderly s) : Single s := by
  refine Guarded.single ?_
  refine Machine.invariantWhen ⟨?_, ?_⟩ ?_ h
  · intro p pc hp
    exact absurd hp (not_at_init pidFile others p pc)
  · intro p pc hp
    exact absurd hp (not_at_init pidFile others p pc)
  · intro s ev s' hs ho hstep
    exact hs.step ho hstep

def starting (pid : UInt32) : List ProcEvent :=
  [.spawn pid true, .start pid (.read true), .start pid .write, .start pid .bind]

theorem second_daemon_refused : ∃ s, (lifecycle none []).ReachableWhen Orderly s ∧
    s.At 1 .serving ∧ s.At 2 (.failed (.alreadyRunning 1)) ∧ Single s := by
  obtain ⟨s, hr, hf, hs⟩ : ∃ s, (lifecycle none []).ReachableWhen Orderly s ∧
      s.At 1 .serving ∧ s.At 2 (.failed (.alreadyRunning 1)) :=
    Machine.exists_reachable
      (starting 1 ++ [.spawn 2 true, .start 2 (.read true), .start 2 (.probe true)]) (by decide +kernel)
  exact ⟨s, hr, hf, hs, orderly_single hr⟩

/-- Two daemons read that there is no pid file before either of them writes it. -/
theorem two_daemons_serve : ∃ s, (lifecycle none []).Reachable s ∧ ¬ Single s := by
  obtain ⟨s, hs, hf, hsc⟩ : ∃ s, (lifecycle none []).Reachable s ∧ s.At 1 .serving ∧ s.At 2 .serving :=
    Machine.exists_reachable [.spawn 1 true, .spawn 2 true, .start 1 (.read true), .start 2 (.read true),
      .start 1 .write, .start 2 .write, .start 1 .bind, .start 2 .bind] (by decide +kernel)
  refine ⟨s, hs, ?_⟩
  intro hsn
  have heq : (1 : UInt32) = 2 := hsn 1 2 hf hsc
  exact absurd heq (by decide)

end ShareCli.Teamcomm
