import ShareCli.Ipc.ServeLock

/-!
# Who holds a `ServeLock`

The lock table and the callers always agree on who holds which file, but the file that is locked need not be the
one the path names. Callers stay on the file of the path as long as nobody unlinks it while another caller is
between opening and unlocking it (`UnlinksAlone`).
-/

namespace ShareCli.Ipc

open Foundation ServePc ServeEvent Function Machine Option

section Exclusion

variable {Caller : Type} [DecidableEq Caller] {crate : Crate} {service : String} {server : Caller → Server}
  {pc pc' : ServePc} {c : Caller} {d d' : PidDir Caller} {a : ServeAction} {s : ServeLocks Caller}

theorem ServePc.file_of_holds {i : Nat} (h : pc.holds = some i) : pc.file = some i := by
  cases pc <;> simp_all [holds, file]

theorem ServePc.holds_of_file (h : pc.file = none) : pc.holds = none := by
  cases pc <;> simp_all [holds, file]

inductive ServeEffect (c : Caller) (d d' : PidDir Caller) (pc pc' : ServePc) (a : ServeAction) : Prop where
  | opens (hpc : pc = .idle) (hpc' : pc' = .opened d.files.openFile) (hd : d' = d.openPidfile)
  | locks {i : Nat} (hpc : pc = .opened i) (hheld : pc'.holds = some i)
      (hlock : Flock.tryLock d.locks i c = some d'.locks) (hpath : d'.files.path = d.files.path)
  | keeps (hholds : pc'.holds = pc.holds) (hfile : pc'.file = pc.file ∨ pc'.file = none)
      (hlocks : d'.locks = d.locks) (hpath : d'.files.path = d.files.path)
  | releases {i : Nat} (hheld : pc.holds = some i) (hfile : pc'.file = none)
      (hlocks : d'.locks = Flock.unlock d.locks i c) (hpath : d'.files.path = d.files.path)
  | unlinks (haction : a = .unlink true) (hpc : pc = .sidecarRemoved) (hpc' : pc' = .idle)
      (hlocks : d'.locks = d.locks)

theorem ServeEffect.of_eq {l : UInt32 → Bool} {message : Server}
    (h : serveAction crate service message c l d pc a = some (d', pc')) :
    ServeEffect c d d' pc pc' a := by
  unfold serveAction at h
  split at h
  case h_1 =>
    obtain ⟨rfl, rfl⟩ := Prod.mk.inj (some.inj h)
    exact .opens rfl rfl rfl
  case h_2 i =>
    split at h
    · obtain ⟨rfl, rfl⟩ := Prod.mk.inj (some.inj h)
      exact .keeps rfl (.inr rfl) rfl rfl
    · rename_i locks hl
      cases crate <;> obtain ⟨rfl, rfl⟩ := Prod.mk.inj (some.inj h) <;> exact .locks rfl rfl hl rfl
  case h_3 i =>
    split at h <;> obtain ⟨rfl, rfl⟩ := Prod.mk.inj (some.inj h)
    · exact .releases rfl rfl rfl rfl
    · exact .keeps rfl (.inl rfl) rfl rfl
  case h_8 i inf ok =>
    obtain ⟨rfl, rfl⟩ := Prod.mk.inj (some.inj h)
    cases ok <;> exact .keeps rfl (.inl rfl) rfl rfl
  case h_10 ok =>
    obtain ⟨rfl, rfl⟩ := Prod.mk.inj (some.inj h)
    cases ok <;> exact .keeps rfl (.inl rfl) rfl rfl
  case h_11 ok =>
    obtain ⟨rfl, rfl⟩ := Prod.mk.inj (some.inj h)
    cases ok
    · exact .keeps rfl (.inl rfl) rfl rfl
    · exact .unlinks rfl rfl rfl rfl
  case h_12 => simp at h
  -- The remaining steps keep the lock, or give it back.
  all_goals
    obtain ⟨rfl, rfl⟩ := Prod.mk.inj (some.inj h)
    first
    | exact .keeps rfl (.inl rfl) rfl rfl
    | exact .releases rfl rfl rfl rfl

theorem ServeEffect.agrees {pc : Caller → ServePc} (he : ServeEffect c d d' (pc c) pc' a)
    (h : Flock.Agrees d.locks holds pc) :
    Flock.Agrees d'.locks holds (update pc c pc') := by
  cases he with
  | opens hpc hpc' hd =>
    rw [hd]
    exact h.move (by rw [hpc, hpc']; rfl)
  | locks hpc hh hl => exact h.lock hl (by rw [hpc]; rfl) hh
  | keeps hhl hf hlc =>
    rw [hlc]
    exact h.move hhl
  | releases hh hf hlc =>
    rw [hlc]
    exact h.unlock hh (holds_of_file hf)
  | unlinks ha hpc hpc' hlc =>
    rw [hlc]
    exact h.move (by rw [hpc, hpc']; rfl)

def OnPath (path : Option Nat) (pc : Caller → ServePc) : Prop := ∀ c i, (pc c).file = some i → path = some i

def UnlinksAlone (s : ServeLocks Caller) (e : ServeEvent Caller) : Prop :=
  e.unlinks → ∀ c, (s.pc c).file = none

theorem ServeEffect.onPath {pc : Caller → ServePc} (he : ServeEffect c d d' (pc c) pc' a)
    (h : OnPath d.files.path pc) (ha : a = .unlink true → ∀ c, (pc c).file = none) :
    OnPath d'.files.path (update pc c pc') := by
  intro b i hb
  by_cases hbc : b = c
  · subst hbc
    rw [update_self] at hb
    cases he with
    | opens hpc hpc' hd =>
      rw [hpc'] at hb
      obtain rfl : d.files.openFile = i := some.inj hb
      rw [hd]
      exact d.files.openCreate_path
    | locks hpc hh hl hp =>
      rw [file_of_holds hh] at hb
      rw [hp]
      exact h b i (by rw [hpc]; exact hb)
    | keeps hhl hf hlc hp =>
      rw [hp]
      rcases hf with hf | hf <;> rw [hf] at hb
      · exact h b i hb
      · simp at hb
    | releases hh hf hlc hp => simp [hf] at hb
    | unlinks hac hpc hpc' hlc => simp [hpc', file, holds] at hb
  · rw [update_of_ne hbc] at hb
    have hp := h b i hb
    cases he with
    | opens hpc hpc' hd =>
      rw [hd]
      show d.files.openCreate.path = some i
      rw [d.files.openCreate_path, Inode.Files.openFile, hp]
      rfl
    | locks hpc hh hl hk => exact hk.trans hp
    | keeps hhl hf hlc hk => exact hk.trans hp
    | releases hh hf hlc hk => exact hk.trans hp
    | unlinks hac =>
      have := ha hac b
      simp [this] at hb

structure ServeInv (s : ServeLocks Caller) : Prop where
  agrees : Flock.Agrees s.locks holds s.pc
  onPath : OnPath s.files.path s.pc

omit [DecidableEq Caller] in
theorem serveInv_init (pidfile : Option (List UInt8)) (l : UInt32 → Bool) :
    ServeInv (serveInit pidfile l : ServeLocks Caller) where
  agrees := by
    intro f a
    simp [serveInit, holds]
  onPath := by
    intro c i h
    simp [serveInit, file, holds] at h

theorem serveInv_step {s' : ServeLocks Caller} {e : ServeEvent Caller} (h : ServeInv s)
    (ha : UnlinksAlone s e) (hstep : serveStep crate service server s e = some s') : ServeInv s' := by
  cases e with
  | call c a =>
    simp only [serveStep, ite_none_right_eq_some] at hstep
    obtain ⟨⟨d', pc'⟩, hac, rfl⟩ := map_eq_some_iff.mp hstep.2
    have he := ServeEffect.of_eq hac
    refine ⟨he.agrees h.agrees, he.onPath h.onPath ?_⟩
    rintro rfl
    exact ha rfl
  | exit pid =>
    simp only [serveStep, ite_none_right_eq_some, some.injEq] at hstep
    obtain ⟨-, rfl⟩ := hstep
    refine ⟨?_, ?_⟩
    · have := h.agrees.releaseAll (fun c => (server c).pid = pid) (k := idle) rfl
      simpa only [decide_eq_true_eq] using this
    · intro c i hc
      simp only at hc
      split at hc
      · simp [file, holds] at hc
      · exact h.onPath c i hc
  | spawn pid =>
    simp only [serveStep, ite_none_left_eq_some, some.injEq] at hstep
    obtain ⟨-, rfl⟩ := hstep
    exact ⟨h.agrees, h.onPath⟩

def SoleHolder (s : ServeLocks Caller) : Prop :=
  ∀ a b i j x y, s.pc a = .holding i x → s.pc b = .holding j y → a = b

omit [DecidableEq Caller] in
theorem ServeInv.soleHolder (h : ServeInv s) : SoleHolder s := by
  intro a b i j x y ha hb
  have hai : (s.pc a).holds = some i := by rw [ha]; rfl
  have hbj : (s.pc b).holds = some j := by rw [hb]; rfl
  have hp : s.files.path = some i := h.onPath a i (file_of_holds hai)
  have hp' : s.files.path = some j := h.onPath b j (file_of_holds hbj)
  obtain rfl : i = j := some.inj (hp.symm.trans hp')
  exact h.agrees.unique hai hbj

/-- **One server**, after every run whose `Drop`s unlink the pidfile only while nobody is between opening and
unlocking it. -/
theorem try_acquire_exclusive (crate : Crate) (service : String) (server : Caller → Server)
    (pidfile : Option (List UInt8)) (live : UInt32 → Bool) {s : ServeLocks Caller}
    (h : (serveMachine crate service server pidfile live).ReachableWhen UnlinksAlone s) :
    SoleHolder s := by
  have hi : ServeInv s := by
    refine invariantWhen (serveInv_init pidfile live) ?_ h
    intro s e s' hs ha hstep
    exact serveInv_step hs ha hstep
  exact hi.soleHolder

theorem run_acquire {now : UInt64} {ok1 : Bool} {i : Nat} {inf : ServeInfo} (hi : s.pc c = .idle)
    (hl : s.live (server c).pid)
    (h : tryAcquire crate service (server c) c s.live now ok1 s.toPidDir = (d', some (i, inf)))
    (pidfile : Option (List UInt8)) (l : UInt32 → Bool) :
    (serveMachine crate service server pidfile l).run s (acquire crate c now ok1) =
      some { toPidDir := d', live := s.live, pc := update s.pc c (.holding i inf) } := by
  cases crate
  · simp only [tryAcquire] at h
    split at h
    · simp at h
    · rename_i locks hlc
      obtain ⟨rfl, rfl, rfl⟩ := h
      simp only [serveMachine, acquire, List.append_nil, List.cons_append, List.nil_append, run,
        serveStep, hl, ↓reduceIte, serveAction, hi, map_some, reduceCtorEq, imp_self, implies_true,
        bind_fun_some, bind_some, update_idem, update_self, hlc]
  · simp only [tryAcquire] at h
    split at h
    · simp at h
    · rename_i locks hlc
      split at h
      · simp at h
      · rename_i ho
        obtain ⟨rfl, rfl, rfl⟩ := h
        simp only [serveMachine, acquire, List.cons_append, List.nil_append, run, serveStep,
          hl, ↓reduceIte, serveAction, hi, map_some, reduceCtorEq, imp_self, implies_true,
          bind_fun_some, bind_some, update_idem, update_self, hlc, ho,
          Bool.false_eq_true]

end Exclusion

def threeServers (c : Fin 3) : Server := { pid := 11 + .ofNat c.val, url := "u" }

instance {n : Nat} (s : ServeLocks (Fin n)) (e : ServeEvent (Fin n)) : Decidable (UnlinksAlone s e) :=
  inferInstanceAs (Decidable (_ → _))

def handOver (crate : Crate) : List (ServeEvent (Fin 3)) :=
  acquire crate 0 1 true ++ drop 0 ++ [.exit 11] ++ acquire crate 1 2 true

theorem try_acquire_exclusive_hand_over :
    ∃ s, (serveMachine .ipc "svc" threeServers none fun _ => true).ReachableWhen UnlinksAlone s ∧
      s.pc 1 = .holding 2 ((threeServers 1).info "svc" 2) ∧ SoleHolder s :=
  exists_reachable_and (handOver .ipc) (by decide +kernel)
    fun _ h _ => try_acquire_exclusive .ipc "svc" threeServers none _ h

/-- The second server opens the pidfile of the first one during its `Drop`, and then locks a file that has no path
any more. -/
def orphanedLock (crate : Crate) : List (ServeEvent (Fin 3)) :=
  acquire crate 0 1 true ++ [.call 1 .openFile] ++ drop 0 ++ [.exit 11] ++
    (acquire crate 1 2 true).tail ++ acquire crate 2 3 true

def TwoHolders (s : ServeLocks (Fin 3)) : Prop :=
  s.pc 1 = .holding 1 ((threeServers 1).info "svc" 2) ∧ s.pc 2 = .holding 2 ((threeServers 2).info "svc" 3) ∧
    s.live (threeServers 1).pid ∧ s.live (threeServers 2).pid
deriving Decidable

theorem try_acquire_two_holders :
    (∃ s, (serveMachine .root "svc" threeServers none fun _ => true).Reachable s ∧ TwoHolders s) ∧
      ∃ s, (serveMachine .ipc "svc" threeServers none fun _ => true).Reachable s ∧ TwoHolders s :=
  ⟨exists_reachable (orphanedLock .root) (by decide +kernel),
    exists_reachable (orphanedLock .ipc) (by decide +kernel)⟩

end ShareCli.Ipc
