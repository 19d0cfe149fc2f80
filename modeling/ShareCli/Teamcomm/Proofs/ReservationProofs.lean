import ShareCli.Teamcomm.Proofs.SessionProofs

/-!
# Reservations

A claim is answered with the reservations that it conflicts with, and it is granted in any case.
-/

namespace ShareCli.Teamcomm

open Foundation List AList

def claiming (sessionId u : String) : List Event :=
  [.arrive "reservation.claim" (.obj [("session_id", .str sessionId), ("path", .str "src/main.rs")]),
    .perform 0 u]

def deregistering (sessionId u : String) : List Event :=
  [.arrive "session.deregister" (.obj [("session_id", .str sessionId)]), .perform 0 u]

def Reservation.Excludes (r o : Reservation) : Prop :=
  r.sessionId ≠ o.sessionId ∧ samePath r.path o.path = true ∧ modeConflicts r.mode o.mode = true
deriving Decidable

def Reservation.Unexpired (r : Reservation) (time : DateTime) : Prop := time.nanos < r.expiresAt.nanos
deriving Decidable

variable {r : Reservation}

theorem Reservation.Unexpired.mono {t before : DateTime} (h : r.Unexpired t)
    (hle : before.nanos ≤ t.nanos) : r.Unexpired before :=
  Int.lt_of_le_of_lt hle h

theorem modeConflicts_comm (mode o : ReservationMode) : modeConflicts mode o = modeConflicts o mode := by
  cases mode <;> cases o <;> rfl

theorem samePath_comm (p o : String) : samePath p o = samePath o p := decide_eq_decide.mpr eq_comm

variable {o r : Reservation}

theorem Reservation.Excludes.symm (h : r.Excludes o) : o.Excludes r := by
  obtain ⟨hs, hp, hm⟩ := h
  refine ⟨hs.symm, ?_, ?_⟩
  · rwa [samePath_comm]
  · rwa [modeConflicts_comm]

variable {guard : AppStateInner}

theorem mem_allReservations : r ∈ guard.allReservations ↔ ∃ id, guard.reservations.lookup id = some r := by
  simp only [AppStateInner.allReservations, mem_map]
  constructor
  · rintro ⟨⟨id, r⟩, he, rfl⟩
    exact ⟨id, mem_lookup_iff.mpr he⟩
  · rintro ⟨id, hr⟩
    exact ⟨⟨id, r⟩, mem_lookup_iff.mp hr, rfl⟩

theorem mem_conflictsWith {now : DateTime} : o ∈ conflictsWith guard r.sessionId r.path r.mode now ↔
      o ∈ guard.allReservations ∧ r.Excludes o ∧ o.Unexpired now := by
  simp only [conflictsWith, mem_filter, Bool.and_eq_true, bne_iff_ne, decide_eq_true_eq,
    Reservation.Excludes, Reservation.Unexpired, samePath_comm o.path r.path]
  tauto

/-- The reservation that a request has been granted and the conflicts in the answer. -/
def grantedBy : Request → Reply → Option (Reservation × List Reservation)
  | .reservationClaim sessionId path mode now expires, .ok (.claimed reservationId conflicts) =>
    some ({ reservationId, sessionId, path, mode, acquiredAt := now, expiresAt := expires }, conflicts)
  | _, _ => none

def Answered.granted (a : Answered) : Option (Reservation × List Reservation) :=
  match a.outcome with
  | .performed req rep => grantedBy req rep
  | _ => none

section Performed

variable {guard g' : AppStateInner} {u : String} {req : Request} {rep : Reply} {r : Reservation}

theorem Performed.granted (h : Performed guard u req rep g')
    {conflicts : List Reservation} (hg : grantedBy req rep = some (r, conflicts)) :
    conflicts = conflictsWith guard r.sessionId r.path r.mode r.acquiredAt ∧
      r.reservationId = mintReservationId u ∧ (guard.sessions.lookup r.sessionId).isSome ∧
      req.readAt = some r.acquiredAt := by
  cases h with
  | claimed hs =>
    cases hg
    exact ⟨rfl, rfl, by rw [hs]; rfl, rfl⟩
  | other hr hc =>
    unfold grantedBy at hg
    split at hg
    · exact absurd rfl (hc _ _)
    · cases hg
  | _ => cases hg

theorem Performed.held (h : Performed guard u req rep g') (hr : r ∈ g'.allReservations) :
    r ∈ guard.allReservations ∨ ∃ conflicts, grantedBy req rep = some (r, conflicts) := by
  obtain ⟨id, hl⟩ := mem_allReservations.mp hr
  cases h with
  | claimed hs =>
    rcases lookup_insert_eq_some_iff.mp hl with ⟨-, rfl⟩ | ⟨-, hold⟩
    · exact .inr ⟨_, rfl⟩
    · exact .inl (mem_allReservations.mpr ⟨id, hold⟩)
  | released =>
    exact .inl (mem_allReservations.mpr ⟨id, (lookup_erase_eq_some_iff.mp hl).2⟩)
  | _ => exact .inl hr

theorem Performed.registered (h : Performed guard u req rep g') {id : String}
    (hid : (guard.sessions.lookup id).isSome) (hr : req ≠ .sessionDeregister id) :
    (g'.sessions.lookup id).isSome := by
  have hi (id' : String) (session : Session) : ((guard.sessions.insert id' session).lookup id).isSome := by
    by_cases hs : id = id'
    · subst hs
      simp
    · rwa [lookup_insert_ne hs]
  cases h with
  | minted hp hn => exact hi _ _
  | refreshed hp hsn => exact hi _ _
  | heartbeat hsn => exact hi _ _
  | deregistered hsn =>
    have hne : id ≠ _ := fun hs => hr (by rw [hs])
    rwa [lookup_erase_ne hne]
  | _ => exact hid

theorem Performed.live (h : Performed guard u req rep g') {id : String}
    (hl : id ∈ g'.liveState) : id ∈ guard.liveState ∨ (g'.sessions.lookup id).isSome := by
  cases h with
  | stateSet hs =>
    rcases (mem_insert _).mp hl with rfl | hold
    · exact .inr (by rw [hs]; rfl)
    · exact .inl hold
  | _ => exact .inl hl

end Performed

theorem granted_of_not_performed {out : Outcome} {m : String} {ps : Value}
    (h : ∀ req rep, out ≠ .performed req rep) :
    ({ method := m, params := ps, outcome := out } : Answered).granted = none := by
  cases out with
  | panicked => rfl
  | refused error => rfl
  | performed req rep => exact absurd rfl (h req rep)

section Runs

variable {start : DateTime} {C : Daemon → Event → Prop} {s : Daemon} {conflicts : List Reservation}

theorem granted_of_mem_log (h : (daemon start).ReachableWhen C s) {a : Answered} (ha : a ∈ s.log)
    {r : Reservation} (hg : a.granted = some (r, conflicts)) :
    ∃ s₀ index w u reply guard, C s₀ (.perform index u) ∧ s₀.waiting[index]? = some w ∧
      u ∈ s.uuids ∧ Performed s₀.guard u w.request reply guard ∧
      grantedBy w.request reply = some (r, conflicts) := by
  obtain ⟨m, params, outcome⟩ := a
  cases outcome with
  | panicked => cases hg
  | refused error => cases hg
  | performed req reply =>
    obtain ⟨newer, older, hl⟩ := append_of_mem ha
    obtain ⟨s₀, index, u, guard, -, hc, hw, -, hu, -, hp⟩ := performed_of_log h newer _ older hl req reply rfl
    exact ⟨s₀, index, _, u, reply, guard, hc, hw, hu, hp, hg⟩

theorem held_before (h : (daemon start).ReachableWhen C s) {w : Waiting} {u : String} {rep : Reply}
    {guard : AppStateInner} (hu : u ∉ s.uuids) (hp : Performed s.guard u w.request rep guard)
    {a : Answered} (ha : a ∈ s.log) {r : Reservation} (hg : a.granted = some (r, conflicts))
    (hr : r ∈ guard.allReservations) : r ∈ s.guard.allReservations := by
  rcases hp.held hr with hold | ⟨c', hn⟩
  · exact hold
  · obtain ⟨s₀, index, w₀, uuid', reply₀, guard₀, -, -, hu', hp₀, hg₀⟩ :=
      granted_of_mem_log h ha hg
    have hid := (hp₀.granted hg₀).2.1
    rw [(hp.granted hn).2.1] at hid
    have heq : u = uuid' := (String.append_right_inj "resv_").mp hid
    exact absurd (heq ▸ hu') hu

theorem held_granted (h : (daemon start).ReachableWhen C s) :
    ∀ r ∈ s.guard.allReservations, ∃ a ∈ s.log, ∃ conflicts, a.granted = some (r, conflicts) := by
  refine daemon_invariant ?_ ?_ ?_ ?_ ?_ h
  · intro r hr
    cases hr
  · intro s t hs _
    exact hs
  · intro s m ps out hs _ r hr
    obtain ⟨a, ha, hg⟩ := hs r hr
    exact ⟨a, mem_cons_of_mem _ ha, hg⟩
  · intro s m ps req hs _
    exact hs
  · intro s i w u rep guard _ hs _ _ _ _ hp r hr
    rcases hp.held hr with hold | hn
    · obtain ⟨a, ha, hg⟩ := hs r hold
      exact ⟨a, mem_cons_of_mem _ ha, hg⟩
    · exact ⟨_, mem_cons_self, hn⟩

end Runs

/-- If the earlier reservation is still held and excludes the later one, the answer to the later claim listed it. -/
def Reported (s : Daemon) (later earlier : Answered) : Prop :=
  ∀ r conflicts r' conflicts', later.granted = some (r, conflicts) →
    earlier.granted = some (r', conflicts') → r' ∈ s.guard.allReservations → r'.Unexpired s.clock →
    r.Excludes r' → r' ∈ conflicts

/-- **Conflicts are reported.** Of two answers the later one listed the earlier reservation, as long as that is held
and has not expired. -/
theorem conflicts_reported {start : DateTime} {s : Daemon}
    (h : (daemon start).ReachableWhen ClockAdvances s) :
    (∀ r ∈ s.guard.allReservations, ∃ a ∈ s.log, ∃ conflicts, a.granted = some (r, conflicts)) ∧
      s.log.Pairwise (Reported s) := by
  refine ⟨held_granted h, ?_⟩
  refine daemon_invariant ?_ ?_ ?_ ?_ ?_ h
  · exact Pairwise.nil
  · intro s t hs ha
    refine hs.imp fun {last e} hrp r conflicts r' c' hr hr' hh hu => ?_
    exact hrp r conflicts r' c' hr hr' hh (hu.mono ha)
  · intro s m ps out hs ho
    refine pairwise_cons.mpr ⟨?_, hs⟩
    intro e _ r conflicts r' c' hr
    rw [granted_of_not_performed ho] at hr
    cases hr
  · intro s m ps req hs _
    exact hs
  · intro s i w u rep guard hrc hs _ hw hud _ hp
    refine pairwise_cons.mpr ⟨?_, ?_⟩
    · -- The new answer: the conflicts were looked up in the table before it, at a time that has passed.
      intro e he r conflicts r' c' hr hr' hh hu hec
      obtain ⟨hcn, -, -, hrd⟩ := hp.granted hr
      have hps := readAt_le_clock (fun _ _ hc => hc) hrc (mem_of_getElem? hw) _ hrd
      have hb := held_before hrc hud hp he hr' hh
      rw [hcn]
      exact mem_conflictsWith.mpr ⟨hb, hec, hu.mono hps⟩
    · refine hs.imp_of_mem fun {last e} _ he hrp => ?_
      intro r conflicts r' c' hr hr' hh hu hec
      have hb := held_before hrc hud hp he hr' hh
      exact hrp r conflicts r' c' hr hr' hb hu hec

theorem second_writer_told : ∃ s, (daemon epoch).ReachableWhen ClockAdvances s ∧
    (∃ a ∈ s.log, ∃ r ∈ (a.granted.map Prod.snd).getD [], r ∈ s.guard.allReservations) ∧
    s.log.Pairwise (Reported s) :=
  Machine.exists_reachable_and
    (registering 1 "a" ++ registering 2 "b" ++ claiming "sess_a" "c" ++ claiming "sess_b" "d")
    (by decide +kernel) fun _ hrc _ => (conflicts_reported hrc).2

/-- No two reservations that exclude each other are held unexpired. -/
def Exclusive (s : Daemon) : Prop :=
  ∀ r ∈ s.guard.allReservations, ∀ o ∈ s.guard.allReservations, r.Unexpired s.clock →
    o.Unexpired s.clock → ¬ r.Excludes o
deriving Decidable

/-- A claim of another session on the path, in a mode that conflicts, and the reservation had not expired when the
claim read the clock. -/
def Request.rivals (req : Request) (r : Reservation) : Bool :=
  match req with
  | .reservationClaim sessionId path mode now _ =>
    r.sessionId != sessionId && samePath path r.path && modeConflicts mode r.mode &&
      now.nanos < r.expiresAt.nanos
  | _ => false

/-- The clock is not set back, and a claim gets the lock only when it rivals no reservation. -/
def ClaimsApart (s : Daemon) : Event → Prop
  | .perform index _ =>
    ∀ w ∈ s.waiting[index]?, ∀ r ∈ s.guard.allReservations, w.request.rivals r = false
  | event => ClockAdvances s event

instance (s : Daemon) : (event : Event) → Decidable (ClaimsApart s event)
  | .perform index _ =>
    inferInstanceAs (Decidable (∀ w ∈ s.waiting[index]?, ∀ r ∈ s.guard.allReservations,
      w.request.rivals r = false))
  | .setClock time => inferInstanceAs (Decidable (ClockAdvances s (.setClock time)))
  | .arrive method params => inferInstanceAs (Decidable (ClockAdvances s (.arrive method params)))

theorem ClaimsApart.clockAdvances (s : Daemon) (ev : Event) (h : ClaimsApart s ev) : ClockAdvances s ev := by
  cases ev with
  | setClock t => exact h
  | arrive m ps => exact h
  | perform i u => trivial

variable {rep : Reply} {conflicts : List Reservation} {s : Daemon} {u : String} {guard : AppStateInner}

variable {req : Request}

theorem granted_request (h : grantedBy req rep = some (r, conflicts)) :
    req = .reservationClaim r.sessionId r.path r.mode r.acquiredAt r.expiresAt := by
  unfold grantedBy at h
  split at h
  · cases h
    rfl
  · cases h

theorem ClaimsApart.conflicts_eq_nil {index : Nat} {w : Waiting} (h : ClaimsApart s (.perform index u))
    (hw : s.waiting[index]? = some w) (hp : Performed s.guard u w.request rep guard)
    (hg : grantedBy w.request rep = some (r, conflicts)) : conflicts = [] := by
  obtain ⟨hcn, -⟩ := hp.granted hg
  rw [hcn, eq_nil_iff_forall_not_mem]
  intro o ho
  obtain ⟨hh, ⟨hs, hpt, hm⟩, hu⟩ := mem_conflictsWith.mp ho
  have hr : w.request.rivals o = true := by
    rw [granted_request hg]
    simp only [Request.rivals, hpt, hm, Bool.and_true, Bool.and_eq_true, bne_iff_ne, decide_eq_true_eq]
    exact ⟨hs.symm, hu⟩
  rw [h w hw o hh] at hr
  cases hr

theorem Exclusive.perform {i : Nat} {w : Waiting} (h : Exclusive s)
    (hp : Performed s.guard u w.request rep guard)
    (hn : ∀ r conflicts, grantedBy w.request rep = some (r, conflicts) → conflicts = [])
    (hps : ∀ t, w.request.readAt = some t → t.nanos ≤ s.clock.nanos) :
    Exclusive (s.after i w u rep guard) := by
  -- The new reservation excludes none that was there.
  have hnw {r o : Reservation} {conflicts : List Reservation}
      (hg : grantedBy w.request rep = some (r, conflicts)) (ho : o ∈ s.guard.allReservations)
      (hu : o.Unexpired s.clock) : ¬ r.Excludes o := by
    intro hec
    obtain ⟨hcn, -, -, hrd⟩ := hp.granted hg
    have ht := hu.mono (hps _ hrd)
    have hm := mem_conflictsWith.mpr ⟨ho, hec, ht⟩
    rw [← hcn, hn r conflicts hg] at hm
    cases hm
  intro r hr o ho hr_unexpired hother_unexpired hec
  rcases hp.held hr with hr | ⟨conflicts, hr⟩
  · rcases hp.held ho with ho | ⟨conflicts, ho⟩
    · exact h r hr o ho hr_unexpired hother_unexpired hec
    · exact hnw ho hr hr_unexpired hec.symm
  · rcases hp.held ho with ho | ⟨c', ho⟩
    · exact hnw hr ho hother_unexpired hec
    · -- Both are the reservation that has been granted.
      rw [hr] at ho
      cases ho
      exact hec.1 rfl

/-- **Exclusion**, as long as no claim is made against a reservation that it conflicts with. -/
theorem claims_apart_exclusive {start : DateTime} {s : Daemon}
    (h : (daemon start).ReachableWhen ClaimsApart s) :
    Exclusive s ∧ ∀ a ∈ s.log, ∀ r conflicts, a.granted = some (r, conflicts) → conflicts = [] := by
  constructor
  · refine daemon_invariant ?_ ?_ ?_ ?_ ?_ h
    · intro r hr
      cases hr
    · intro s t hs had r hr o ho hr_unexpired hother_unexpired
      exact hs r hr o ho (hr_unexpired.mono had) (hother_unexpired.mono had)
    · intro s m ps out hs _
      exact hs
    · intro s m ps req hs _
      exact hs
    · intro s index w u reply guard hrc hs hap hw hu _ hp
      have hps := readAt_le_clock ClaimsApart.clockAdvances hrc (mem_of_getElem? hw)
      exact hs.perform hp (fun _ _ => hap.conflicts_eq_nil hw hp) hps
  · intro a ha r conflicts hg
    obtain ⟨s₀, index, w, u, reply, guard, hap, hw, -, hp, hg⟩ := granted_of_mem_log h ha hg
    exact hap.conflicts_eq_nil hw hp hg

theorem two_writers_granted : ∃ s, (daemon epoch).ReachableWhen ClockAdvances s ∧ ¬ Exclusive s :=
  Machine.exists_reachable
    (registering 1 "a" ++ registering 2 "b" ++ claiming "sess_a" "c" ++ claiming "sess_b" "d")
    (by decide +kernel)

theorem writers_in_turn_exclusive : ∃ s, (daemon epoch).ReachableWhen ClaimsApart s ∧
    s.guard.allReservations.length = 2 ∧ Exclusive s :=
  Machine.exists_reachable_and (registering 1 "a" ++ registering 2 "b" ++ claiming "sess_a" "c" ++
      .setClock ⟨600 * 1000000000, by decide⟩ :: claiming "sess_b" "d")
    (by decide +kernel) fun _ hrc _ => (claims_apart_exclusive hrc).1

structure Owned (s : Daemon) : Prop where
  reservations : ∀ r ∈ s.guard.allReservations, r.Unexpired s.clock →
    (s.guard.sessions.lookup r.sessionId).isSome
  live : ∀ id ∈ s.guard.liveState, (s.guard.sessions.lookup id).isSome
  listed : ∀ path, ∀ r ∈ listedReservations path s.clock s.guard, (s.guard.sessions.lookup r.sessionId).isSome
  reported : ∀ sessionId path mode now, ∀ r ∈ conflictsWith s.guard sessionId path mode now,
    (s.guard.sessions.lookup r.sessionId).isSome

def Request.deregisters : Request → Option String
  | .sessionDeregister sessionId => some sessionId
  | _ => none

/-- A session is deregistered only when it has no reservation, expired or not, and no live state. -/
def LeavesNothing (s : Daemon) : Event → Prop
  | .perform index _ =>
    ∀ w ∈ s.waiting[index]?, ∀ id ∈ w.request.deregisters,
      (∀ r ∈ s.guard.allReservations, r.sessionId ≠ id) ∧ id ∉ s.guard.liveState
  | _ => True

instance (s : Daemon) : (event : Event) → Decidable (LeavesNothing s event)
  | .perform index _ =>
    inferInstanceAs (Decidable (∀ w ∈ s.waiting[index]?, ∀ id ∈ w.request.deregisters,
      (∀ r ∈ s.guard.allReservations, r.sessionId ≠ id) ∧ id ∉ s.guard.liveState))
  | .setClock _ => isTrue trivial
  | .arrive _ _ => isTrue trivial

def NothingLeft (guard : AppStateInner) : Prop :=
  (∀ r ∈ guard.allReservations, (guard.sessions.lookup r.sessionId).isSome) ∧
    ∀ id ∈ guard.liveState, (guard.sessions.lookup id).isSome

theorem NothingLeft.perform {g' : AppStateInner} {u : String}
    {rep : Reply} (h : NothingLeft guard) (hp : Performed guard u req rep g')
    (hl : ∀ id, req = .sessionDeregister id →
      (∀ r ∈ guard.allReservations, r.sessionId ≠ id) ∧ id ∉ guard.liveState) :
    NothingLeft g' := by
  constructor
  · intro r hr
    rcases hp.held hr with hold | ⟨conflicts, hn⟩
    · refine hp.registered (h.1 r hold) ?_
      intro hrq
      exact (hl r.sessionId hrq).1 r hold rfl
    · refine hp.registered (hp.granted hn).2.2.1 ?_
      intro hrq
      rw [hrq] at hn
      cases hn
  · intro id hlv
    rcases hp.live hlv with hold | hrg
    · refine hp.registered (h.2 id hold) ?_
      intro hrq
      exact (hl id hrq).2 hold
    · exact hrg

theorem NothingLeft.owned (h : NothingLeft s.guard) : Owned s := by
  refine ⟨?_, h.2, ?_, ?_⟩
  · intro r hr _
    exact h.1 r hr
  · intro p r hr
    refine h.1 r ?_
    cases p with
    | none => exact (mem_filter.mp hr).1
    | some start => exact (mem_filter.mp (mem_filter.mp hr).1).1
  · intro sid p mode now r hr
    exact h.1 r (mem_filter.mp hr).1

/-- **Cleanup**, as long as sessions leave nothing behind. -/
theorem clean_runs_owned {start : DateTime} {s : Daemon}
    (h : (daemon start).ReachableWhen LeavesNothing s) : Owned s := by
  refine NothingLeft.owned ?_
  refine table_invariant (P := fun guard _ => NothingLeft guard) ⟨?_, ?_⟩ ?_ h
  · intro r hr
    cases hr
  · intro id hid
    cases hid
  · intro s i w u rep guard hs hl hw _ hp
    refine hs.perform hp ?_
    intro id hrq
    exact hl w hw id (by rw [hrq]; rfl)

theorem leaving_early_owned : ∃ s, (daemon epoch).ReachableWhen LeavesNothing s ∧
    s.guard.allReservations.length = 1 ∧ Owned s :=
  Machine.exists_reachable_and
    (registering 1 "a" ++ registering 2 "b" ++ deregistering "sess_a" "c" ++ claiming "sess_b" "d")
    (by decide +kernel) fun _ hrc _ => clean_runs_owned hrc

/-- The reservation of a session that has been deregistered is still listed. -/
theorem deregistered_still_listed : ∃ s, (daemon epoch).ReachableWhen ClockAdvances s ∧
    (∃ r ∈ listedReservations none s.clock s.guard, r.sessionId = "sess_a" ∧
      s.guard.sessions.lookup "sess_a" = none) ∧ ¬ Owned s := by
  refine Machine.exists_reachable_and
    (registering 1 "a" ++ claiming "sess_a" "b" ++ deregistering "sess_a" "c") (by decide +kernel) ?_
  rintro s - ⟨r, hr, hs, hg⟩ ho
  have hrg := ho.listed none r hr
  rw [hs, hg] at hrg
  cases hrg

end ShareCli.Teamcomm
