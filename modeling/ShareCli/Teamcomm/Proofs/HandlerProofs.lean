import ShareCli.Foundation.Result
import ShareCli.Foundation.TwoWayMap
import ShareCli.Teamcomm.Handlers

/-!
# What a request does under the lock, and the invariants of all runs

`Performed` lists what the handlers can do, each with the answer that goes with it (`perform_spec`).
-/

namespace ShareCli.Teamcomm

open Foundation Request List Option

inductive Performed (guard : AppStateInner) (u : String) : Request → Reply → AppStateInner → Prop
  | minted {pid : UInt32} {agentType : AgentType} {workingDir : String} {capabilities : List String}
      {now : DateTime} {session : Session} (hpid : session.pid = pid)
      (hnew : ∀ id, guard.sessionsByPid.lookup pid = some id → guard.sessions.lookup id = none) :
      Performed guard u (.sessionRegister pid agentType workingDir capabilities now)
        (.ok (.registered (mintSessionId u) leaseTtlSec))
        { guard with
          sessions := guard.sessions.insert (mintSessionId u) session
          sessionsByPid := guard.sessionsByPid.insert pid (mintSessionId u) }
  | refreshed {pid : UInt32} {agentType : AgentType} {workingDir : String} {capabilities : List String}
      {now : DateTime} {id : String} {session : Session}
      (hpid : guard.sessionsByPid.lookup pid = some id)
      (hsession : guard.sessions.lookup id = some session) :
      Performed guard u (.sessionRegister pid agentType workingDir capabilities now)
        (.ok (.registered id leaseTtlSec))
        { guard with sessions := guard.sessions.insert id { session with lastHeartbeat := now } }
  | deregistered {id : String} {session : Session} (hsession : guard.sessions.lookup id = some session) :
      Performed guard u (.sessionDeregister id) (.ok .ok)
        { guard with
          sessions := guard.sessions.erase id
          sessionsByPid := guard.sessionsByPid.erase session.pid }
  | heartbeat {id : String} {session : Session} {now : DateTime}
      (hsession : guard.sessions.lookup id = some session) :
      Performed guard u (.sessionHeartbeat id now) (.ok (.heartbeat heartbeatIntervalSec))
        { guard with sessions := guard.sessions.insert id { session with lastHeartbeat := now } }
  | claimed {id path : String} {mode : ReservationMode} {now expires : DateTime} {session : Session}
      (hsession : guard.sessions.lookup id = some session) :
      Performed guard u (.reservationClaim id path mode now expires)
        (.ok (.claimed (mintReservationId u) (conflictsWith guard id path mode now)))
        { guard with
          reservations := guard.reservations.insert (mintReservationId u)
            { reservationId := mintReservationId u, sessionId := id, path, mode, acquiredAt := now,
              expiresAt := expires } }
  | released {reservationId : String} : Performed guard u (.reservationRelease reservationId) (.ok .ok)
        { guard with reservations := guard.reservations.erase reservationId }
  | stateSet {id : String} {focusFile focusBranch worktree : Option String} {status : AgentStatus}
      {live : LiveState} {session : Session} (hsession : guard.sessions.lookup id = some session) :
      Performed guard u (.stateSet id focusFile focusBranch worktree status) (.ok .ok)
        { guard with liveState := guard.liveState.insert id live }
  | other {req : Request} {rep : Reply} {inbox : AList fun _ : String => List InboxMessage}
      (hregister : ∀ id ttl, rep ≠ .ok (.registered id ttl))
      (hclaim : ∀ id conflicts, rep ≠ .ok (.claimed id conflicts)) :
      Performed guard u req rep { guard with inbox := inbox }

variable {req : Request} {guard : AppStateInner} {u : String}

theorem Performed.unchanged {rep : Reply} (hr : ∀ id ttl, rep ≠ .ok (.registered id ttl))
    (hc : ∀ id c, rep ≠ .ok (.claimed id c)) :
    Performed guard u req rep guard := by
  exact .other hr hc

theorem perform_spec (req : Request) (c : DateTime) (u : String) (guard : AppStateInner) :
    Performed guard u req (req.perform c u guard).1
      (req.perform c u guard).2 := by
  cases req with
  | sessionRegister pid ty wdir caps now =>
    simp only [perform, handleSessionRegister, registerSession]
    cases hp : guard.sessionsByPid.lookup pid with
    | none => exact .minted rfl (by simp [hp])
    | some id =>
      dsimp only
      cases hs : guard.sessions.lookup id with
      | none => exact .minted rfl (by simp [hp, hs])
      | some session => exact .refreshed hp hs
  | sessionDeregister id =>
    simp only [perform, handleSessionDeregister]
    cases hs : guard.sessions.lookup id with
    | none => exact .unchanged (by simp) (by simp)
    | some session => exact .deregistered hs
  | sessionHeartbeat id now =>
    simp only [perform, handleSessionHeartbeat]
    cases hs : guard.sessions.lookup id with
    | none => exact .unchanged (by simp) (by simp)
    | some session => exact .heartbeat hs
  | sessionList =>
    exact .unchanged (by simp [perform, handleSessionList]) (by simp [perform, handleSessionList])
  | sessionGet id =>
    simp only [perform, handleSessionGet]
    cases guard.sessions.lookup id with
    | none | some session => exact .unchanged (by simp) (by simp)
  | reservationClaim id p mode now expiry =>
    simp only [perform, handleReservationClaim]
    cases hs : guard.sessions.lookup id with
    | none => exact .unchanged (by simp) (by simp)
    | some session => exact .claimed hs
  | reservationRelease id =>
    simp only [perform, handleReservationRelease]
    cases guard.reservations.lookup id with
    | none => exact .unchanged (by simp) (by simp)
    | some r => exact .released
  | reservationList p =>
    exact .unchanged (by simp [perform, handleReservationList]) (by simp [perform, handleReservationList])
  | inboxPost sender receiver subject b priority =>
    simp only [perform, handleInboxPost]
    cases guard.sessions.lookup sender with
    | none => exact .unchanged (by simp) (by simp)
    | some session => exact .other (by simp) (by simp)
  | inboxList id unread lim =>
    exact .other (by simp [perform, handleInboxList]) (by simp [perform, handleInboxList])
  | inboxRead mid =>
    simp only [perform, handleInboxRead]
    generalize (guard.inbox.entries.findSome? fun e =>
      (readFirst mid e.2).map fun fd => (e.1, fd)) = fd
    cases fd with
    | none => exact .unchanged (by simp) (by simp)
    | some fd => exact .other (by simp) (by simp)
  | stateSet id ff fb w st =>
    simp only [perform, handleStateSet]
    cases hs : guard.sessions.lookup id with
    | none => exact .unchanged (by simp) (by simp)
    | some session => exact .stateSet hs
  | stateGet id =>
    simp only [perform, handleStateGet]
    cases guard.liveState.lookup id with
    | none | some live => exact .unchanged (by simp) (by simp)
  | discoverAgents p br caps =>
    exact .unchanged (by simp [perform, handleDiscoverAgents]) (by simp [perform, handleDiscoverAgents])

variable {c : DateTime}

/-- A request that is answered with an error has changed nothing. -/
theorem perform_error {error : TeamcommError} (h : (req.perform c u guard).1 = .error error) :
    (req.perform c u guard).2 = guard := by
  cases req with
  | sessionGet id =>
    simp only [perform, handleSessionGet]
    cases guard.sessions.lookup id <;> rfl
  | stateGet id =>
    simp only [perform, handleStateGet]
    cases guard.liveState.lookup id <;> rfl
  | sessionHeartbeat | reservationClaim | reservationRelease | inboxPost | inboxRead | stateSet =>
    simp only [perform, handleSessionHeartbeat, handleReservationClaim, handleReservationRelease,
      handleInboxPost, handleInboxRead, handleStateSet] at h ⊢
    -- what is missed is an error, and what is found is answered
    split at h <;> first | rfl | cases h
  -- The other requests have no error under the lock.
  | _ => cases h

section Rule

variable {start : DateTime} {C : Daemon → Event → Prop} {I : Daemon → Prop}

def Daemon.after (s : Daemon) (index : Nat) (w : Waiting) (u : String) (rep : Reply)
    (guard : AppStateInner) : Daemon :=
  { s with
    guard
    waiting := s.waiting.eraseIdx index
    uuids := u :: s.uuids
    log := { method := w.method, params := w.params, outcome := .performed w.request rep } :: s.log }

variable {s : Daemon}

@[elab_as_elim]
theorem daemon_invariant (hi : I { clock := start })
    (hcl : ∀ s t, I s → C s (.setClock t) → I { s with clock := t })
    (ha : ∀ s m ps o, I s → (∀ req rep, o ≠ .performed req rep) →
      I { s with log := { method := m, params := ps, outcome := o } :: s.log })
    (hwt : ∀ s m ps req, I s → dispatch m ps s.clock = .waiting req →
      I { s with waiting := s.waiting ++ [{ method := m, params := ps, request := req }] })
    (hp : ∀ s index w u rep guard, (daemon start).ReachableWhen C s → I s →
      C s (.perform index u) → s.waiting[index]? = some w → u ∉ s.uuids →
      w.request.perform s.clock u s.guard = (rep, guard) →
      Performed s.guard u w.request rep guard → I (s.after index w u rep guard))
    {s : Daemon} (h : (daemon start).ReachableWhen C s) : I s := by
  induction h with
  | init => exact hi
  | @step s s' ev hr hc hstep hs =>
  cases ev with
  | setClock t =>
    obtain rfl := some_inj.mp hstep
    exact hcl s t hs hc
  | arrive m ps =>
    obtain rfl := some_inj.mp hstep
    unfold Daemon.arrive
    cases hpr : dispatch m ps s.clock with
    | refused error | panicked => exact ha s m ps _ hs (by simp)
    | waiting req => exact hwt s m ps req hs hpr
  | perform index u =>
    simp only [daemon, Daemon.step] at hstep
    cases hw : s.waiting[index]? with
    | none => simp [hw] at hstep
    | some w =>
      by_cases hu : u ∈ s.uuids
      · simp [hw, hu] at hstep
      · simp only [hw, if_neg hu, some_inj] at hstep
        subst hstep
        exact hp s index w u _ _ hr hs hc hw hu rfl (perform_spec w.request s.clock u s.guard)

theorem table_invariant {P : AppStateInner → List String → Prop} (hi : P {} [])
    (hp : ∀ s index w u rep guard, P s.guard s.uuids → C s (.perform index u) →
      s.waiting[index]? = some w → u ∉ s.uuids → Performed s.guard u w.request rep guard →
      P guard (u :: s.uuids))
    {s : Daemon} (h : (daemon start).ReachableWhen C s) : P s.guard s.uuids := by
  refine daemon_invariant hi ?_ ?_ ?_ ?_ h
  · intro s t hs _
    exact hs
  · intro s m ps o hs _
    exact hs
  · intro s m ps req hs _
    exact hs
  · intro s index w u rep guard _ hs hc hw hu _
    exact hp s index w u rep guard hs hc hw hu

end Rule

/-- Every session is found under its pid, and every pid names a session that has it. -/
def Indexed (guard : AppStateInner) : Prop :=
  ∀ pid id, guard.sessionsByPid.lookup pid = some id ↔
    ∃ session, guard.sessions.lookup id = some session ∧ session.pid = pid

namespace Indexed

variable {guard : AppStateInner} {id : String} {session : Session}

theorem insert_new (h : Indexed guard) (hid : guard.sessions.lookup id = none)
    (hp : guard.sessionsByPid.lookup session.pid = none) :
    Indexed
      { guard with
        sessions := guard.sessions.insert id session
        sessionsByPid := guard.sessionsByPid.insert session.pid id } := by
  intro pid id'
  simp only [lookup_insert_eq_some_iff, h pid id']
  constructor
  · rintro (⟨rfl, rfl⟩ | ⟨hne, session', hs', rfl⟩)
    · exact ⟨session, .inl ⟨rfl, rfl⟩, rfl⟩
    · refine ⟨session', .inr ⟨?_, hs'⟩, rfl⟩
      rintro rfl
      simp [hid] at hs'
  · rintro ⟨session', ⟨rfl, rfl⟩ | ⟨hne, hs'⟩, rfl⟩
    · exact .inl ⟨rfl, rfl⟩
    · refine .inr ⟨?_, session', hs', rfl⟩
      intro hs
      have hold := (h _ _).mpr ⟨session', hs', rfl⟩
      rw [hs, hp] at hold
      cases hold

theorem insert_same (h : Indexed guard) (hid : guard.sessions.lookup id = some session)
    {session' : Session} (hp : session'.pid = session.pid) :
    Indexed { guard with sessions := guard.sessions.insert id session' } := by
  intro pid id'
  rw [h pid id']
  by_cases hs : id' = id
  · subst hs
    simp [hid, hp]
  · simp [hs]

theorem erase (h : Indexed guard) (hid : guard.sessions.lookup id = some session) : Indexed { guard with
        sessions := guard.sessions.erase id
        sessionsByPid := guard.sessionsByPid.erase session.pid } := by
  have hb := (h _ _).mpr ⟨session, hid, rfl⟩
  intro pid id'
  simp only [lookup_erase_eq_some_iff, h pid id']
  constructor
  · rintro ⟨hne, session', hs', rfl⟩
    refine ⟨session', ⟨?_, hs'⟩, rfl⟩
    rintro rfl
    rw [hid, some_inj] at hs'
    exact hne (congrArg Session.pid hs'.symm)
  · rintro ⟨session', ⟨hne, hs'⟩, rfl⟩
    refine ⟨?_, session', hs', rfl⟩
    intro hs
    have hold := (h _ _).mpr ⟨session', hs', rfl⟩
    rw [hs, hb, some_inj] at hold
    exact hne hold.symm

end Indexed

structure Consistent (guard : AppStateInner) (users : List String) : Prop where
  indexed : Indexed guard
  minted : ∀ id session, guard.sessions.lookup id = some session → ∃ u ∈ users, id = mintSessionId u

section Consistent

variable {guard guard' : AppStateInner} {users : List String} {u : String} {req : Request}
  {rep : Reply}

theorem Consistent.lookup_new (h : Consistent guard users) (hu : u ∉ users) :
    guard.sessions.lookup (mintSessionId u) = none := by
  rw [eq_none_iff_forall_ne_some]
  intro session hs
  obtain ⟨u', hu', hid⟩ := h.minted _ _ hs
  have heq : u = u' := (String.append_right_inj "sess_").mp hid
  exact hu (heq ▸ hu')

theorem Consistent.perform (h : Consistent guard users) (hu : u ∉ users)
    (hp : Performed guard u req rep guard') : Consistent guard' (u :: users) := by
  have hm : ∀ id session, guard.sessions.lookup id = some session → ∃ u' ∈ u :: users, id = mintSessionId u' := by
    intro id session hs
    obtain ⟨u', hu', hid⟩ := h.minted id session hs
    exact ⟨u', mem_cons_of_mem u hu', hid⟩
  -- A session that is written again has its old id.
  have hw {id : String} {session : Session} (session' : Session) (hs : guard.sessions.lookup id = some session) :
      ∀ id' session'', (guard.sessions.insert id session').lookup id' = some session'' →
        ∃ u' ∈ u :: users, id' = mintSessionId u' := by
    intro id' session'' hl
    rcases lookup_insert_eq_some_iff.mp hl with ⟨rfl, rfl⟩ | ⟨-, hold⟩
    · exact hm _ _ hs
    · exact hm _ _ hold
  cases hp with
  | minted hpd hn =>
    subst hpd
    refine ⟨h.indexed.insert_new (h.lookup_new hu) ?_, ?_⟩
    · rw [eq_none_iff_forall_ne_some]
      intro id hold
      obtain ⟨session', hs', -⟩ := (h.indexed _ _).mp hold
      rw [hn id hold] at hs'
      cases hs'
    · intro id session' hl
      rcases lookup_insert_eq_some_iff.mp hl with ⟨rfl, rfl⟩ | ⟨-, hold⟩
      · exact ⟨u, mem_cons_self, rfl⟩
      · exact hm id session' hold
  | refreshed hpd hs => exact ⟨h.indexed.insert_same hs rfl, hw _ hs⟩
  | deregistered hs =>
    refine ⟨h.indexed.erase hs, ?_⟩
    intro id session' hl
    exact hm id session' (lookup_erase_eq_some_iff.mp hl).2
  | heartbeat hs => exact ⟨h.indexed.insert_same hs rfl, hw _ hs⟩
  | claimed hs | released | stateSet hs | other hr hc =>
    exact ⟨h.indexed, hm⟩

end Consistent

variable {start : DateTime} {C : Daemon → Event → Prop} {s : Daemon}

theorem consistent (h : (daemon start).ReachableWhen C s) : Consistent s.guard s.uuids := by
  refine table_invariant (P := Consistent) ⟨?_, ?_⟩ ?_ h
  · intro pid id
    simp [AList.lookup_empty]
  · intro id session hsn
    cases hsn
  · intro s i w u rep guard hs _ _ hu hp
    exact hs.perform hu hp

theorem performed_of_log (h : (daemon start).ReachableWhen C s) :
    ∀ newer a older, s.log = newer ++ a :: older → ∀ req rep, a.outcome = .performed req rep →
      ∃ s₀ index u guard, (daemon start).ReachableWhen C s₀ ∧ C s₀ (.perform index u) ∧
        s₀.waiting[index]? = some ⟨a.method, a.params, req⟩ ∧ u ∉ s₀.uuids ∧ u ∈ s.uuids ∧
        s₀.log = older ∧ Performed s₀.guard u req rep guard := by
  refine daemon_invariant ?_ ?_ ?_ ?_ ?_ h
  · intro newer a older hl
    simp at hl
  · intro s t hs _
    exact hs
  · intro s m ps o hs ho newer a older hl req rep hp
    rcases cons_eq_append_iff.mp hl with ⟨rfl, hn⟩ | ⟨n', rfl, hl'⟩
    · cases hn
      exact absurd hp (ho req rep)
    · exact hs n' a older hl' req rep hp
  · intro s m ps req hs _
    exact hs
  · intro s index w u rep guard hr hs hc hw hu _ hp newer a older hl req'
      reply' ho
    rcases cons_eq_append_iff.mp hl with ⟨rfl, hn⟩ | ⟨n', rfl, hl'⟩
    · cases hn
      cases ho
      exact ⟨s, index, u, guard, hr, hc, hw, hu, mem_cons_self, rfl, hp⟩
    · obtain ⟨s₀, index₀, uuid₀, guard₀, hr₀, hc₀, hw₀, hn₀, hu₀, hl₀, hp₀⟩ :=
        hs n' a older hl' req' reply' ho
      exact ⟨s₀, index₀, uuid₀, guard₀, hr₀, hc₀, hw₀, hn₀, mem_cons_of_mem u hu₀, hl₀, hp₀⟩

/-- A waiting request was prepared at a time, which has passed unless the clock was set back. -/
theorem dispatched_of_waiting (h : (daemon start).ReachableWhen C s) :
    ∀ w ∈ s.waiting, ∃ t, dispatch w.method w.params t = .waiting w.request ∧
      ((∀ s ev, C s ev → ClockAdvances s ev) → t.nanos ≤ s.clock.nanos) := by
  refine daemon_invariant ?_ ?_ ?_ ?_ ?_ h
  · intro w hw
    cases hw
  · intro s c hs hc w hw
    obtain ⟨t, hd, hle⟩ := hs w hw
    refine ⟨t, hd, ?_⟩
    intro hC
    have ha : s.clock.nanos ≤ c.nanos := hC s _ hc
    exact Int.le_trans (hle hC) ha
  · intro s m ps o hs _
    exact hs
  · intro s m ps req hs hd w hw
    rcases mem_append.mp hw with hold | hn
    · exact hs w hold
    · obtain rfl := mem_singleton.mp hn
      exact ⟨s.clock, hd, fun _ => Int.le_refl s.clock.nanos⟩
  · intro s i w u rep guard _ hs _ _ _ _ _ w' hw'
    exact hs w' (mem_of_mem_eraseIdx hw')

/-- The time that a request has read before the lock. -/
def Request.readAt : Request → Option DateTime
  | .sessionRegister _ _ _ _ now => some now
  | .sessionHeartbeat _ now => some now
  | .reservationClaim _ _ _ now _ => some now
  | _ => none

theorem eq_ok_of_waiting {x : Except TeamcommError Request}
    (h : Prepared.ofExcept x = .waiting req) : x = .ok req := by
  cases x with
  | error e => cases h
  | ok req' =>
    cases h
    rfl

theorem dispatch_readAt {m : String} {ps : Value} (h : dispatch m ps c = .waiting req) (t : DateTime)
    (hr : req.readAt = some t) : t = c := by
  unfold dispatch at h
  -- The methods are numbered in the order of `dispatch`.
  split at h
  case h_1 =>
    have hok := eq_ok_of_waiting h
    unfold registerRequest at hok
    split at hok
    · cases hok
    · cases hok
      exact (some_inj.mp hr).symm
  case h_3 =>
    obtain ⟨_, -, rfl⟩ := exists_of_map_ok (eq_ok_of_waiting h)
    exact (some_inj.mp hr).symm
  case h_6 =>
    unfold claimRequest at h
    repeat' split at h
    all_goals cases h
    exact (some_inj.mp hr).symm
  case h_9 =>
    obtain ⟨_, -, hok⟩ := exists_of_bind_ok (eq_ok_of_waiting h)
    obtain ⟨_, -, hok⟩ := exists_of_bind_ok hok
    obtain ⟨_, -, hok⟩ := exists_of_bind_ok hok
    cases hok
    cases hr
  case h_10 =>
    obtain ⟨_, -, hok⟩ := exists_of_bind_ok (eq_ok_of_waiting h)
    cases hok
    cases hr
  case h_12 =>
    obtain ⟨_, -, hok⟩ := exists_of_bind_ok (eq_ok_of_waiting h)
    obtain ⟨_, -, hok⟩ := exists_of_bind_ok hok
    cases hok
    cases hr
  case h_4 | h_8 | h_14 =>
    cases h
    cases hr
  case h_15 => cases h
  all_goals
    obtain ⟨_, -, rfl⟩ := exists_of_map_ok (eq_ok_of_waiting h)
    cases hr

/-- While the clock is not set back, no waiting request has read a time that is still to come. -/
theorem readAt_le_clock (hC : ∀ s ev, C s ev → ClockAdvances s ev)
    (h : (daemon start).ReachableWhen C s) {w : Waiting} (hw : w ∈ s.waiting) (t : DateTime)
    (hr : w.request.readAt = some t) : t.nanos ≤ s.clock.nanos := by
  obtain ⟨a, hd, hle⟩ := dispatched_of_waiting h w hw
  rw [dispatch_readAt hd t hr]
  exact hle hC

end ShareCli.Teamcomm
