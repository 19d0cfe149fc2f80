import Mathlib.Data.UInt
import ShareCli.Teamcomm.Proofs.HandlerProofs

/-!
# Sessions and pids

A registration is answered with the session of the pid, if there is one. The pid of the request is a number of 64
bits, of which the daemon keeps 32.
-/

namespace ShareCli.Teamcomm

open Foundation List AList

def Answered.sessionId (a : Answered) : Option String :=
  match a.outcome with
  | .performed _ (.ok (.registered id _)) => some id
  | _ => none

def Answered.Registers (a : Answered) (pid : UInt64) (id : String) : Prop :=
  a.method = "session.register" ∧ (a.params.get "pid").bind Value.asU64 = some pid ∧ a.sessionId = some id
deriving Decidable

def Answered.Deregisters (a : Answered) (id : String) : Prop :=
  ∃ rep, a.outcome = .performed (.sessionDeregister id) rep

section Performed

variable {g g' : AppStateInner} {u : String} {req : Request} {rep : Reply}

theorem Performed.keeps_pid (h : Performed g u req rep g') (hi : Indexed g)
    {pid : UInt32} {id : String} (hp : g.sessionsByPid.lookup pid = some id)
    (hr : req ≠ .sessionDeregister id) : g'.sessionsByPid.lookup pid = some id := by
  obtain ⟨session, hs, rfl⟩ := (hi pid id).mp hp
  cases h with
  | @minted pid' ty wdir caps now session' hp' hn =>
    have hne : session.pid ≠ pid' := by
      rintro rfl
      rw [hn id hp] at hs
      cases hs
    exact (lookup_insert_ne hne).trans hp
  | @deregistered id' session' hs' =>
    have hne : session.pid ≠ session'.pid := by
      intro hsm
      have hp' := (hi _ _).mpr ⟨session', hs', rfl⟩
      rw [← hsm, hp, Option.some_inj] at hp'
      exact hr (by rw [hp'])
    exact (lookup_erase_ne hne).trans hp
  | _ => exact hp

theorem Performed.registered_pid {pid : UInt32} {ty : AgentType} {wdir : String}
    {caps : List String} {now : DateTime} {id : String} {ttl : Nat}
    (h : Performed g u (.sessionRegister pid ty wdir caps now)
      (.ok (.registered id ttl)) g') : g'.sessionsByPid.lookup pid = some id := by
  cases h with
  | minted hp hn => exact lookup_insert _
  | refreshed hp hs => exact hp
  | other hr hc => exact absurd rfl (hr id ttl)

end Performed

theorem Answered.Registers.outcome {a : Answered} {pid : UInt64} {id : String} (h : a.Registers pid id) :
    ∃ req ttl, a.outcome = .performed req (.ok (.registered id ttl)) := by
  obtain ⟨-, -, hid⟩ := h
  unfold Answered.sessionId at hid
  split at hid
  · rename_i req id' ttl ho
    cases hid
    exact ⟨req, ttl, ho⟩
  · cases hid

theorem register_request {m : String} {ps : Value} {pid : UInt64} {t : DateTime}
    {req : Request} (hm : m = "session.register")
    (hp : (ps.get "pid").bind Value.asU64 = some pid)
    (h : dispatch m ps t = .waiting req) :
    ∃ ty wdir caps now, req = .sessionRegister pid.toUInt32 ty wdir caps now := by
  subst hm
  have hok : registerRequest ps t = .ok req := eq_ok_of_waiting h
  simp only [registerRequest, hp] at hok
  cases hok
  exact ⟨_, _, _, _, rfl⟩

section Runs

variable {start : DateTime} {C : Daemon → Event → Prop} {s : Daemon}

theorem registration_of_log (h : (daemon start).ReachableWhen C s) {newer older : List Answered}
    {a : Answered} (hl : s.log = newer ++ a :: older) {pid : UInt64} {id : String}
    (ha : a.Registers pid id) :
    ∃ s₀ u ty wdir capabilities now ttl g, (daemon start).ReachableWhen C s₀ ∧ u ∉ s₀.uuids ∧ s₀.log = older ∧
      Performed s₀.guard u (.sessionRegister pid.toUInt32 ty wdir capabilities now)
        (.ok (.registered id ttl)) g := by
  obtain ⟨req, ttl, ho⟩ := ha.outcome
  obtain ⟨s₀, index, u, g, hr, -, hw, hu, -, hold, hp⟩ := performed_of_log h newer a older hl req _ ho
  obtain ⟨t, hd, -⟩ := dispatched_of_waiting hr _ (mem_of_getElem? hw)
  obtain ⟨ty, wdir, capabilities, now, rfl⟩ := register_request ha.1 ha.2.1 hd
  exact ⟨s₀, u, ty, wdir, capabilities, now, ttl, g, hr, hu, hold, hp⟩

theorem pid_of_log (h : (daemon start).ReachableWhen C s) :
    ∀ between a older pid id, s.log = between ++ a :: older → a.Registers pid id →
      (∀ b ∈ between, ¬ b.Deregisters id) → s.guard.sessionsByPid.lookup pid.toUInt32 = some id := by
  refine daemon_invariant ?_ ?_ ?_ ?_ ?_ h
  · intro between a older pid id hl
    simp at hl
  · intro s t hs _
    exact hs
  · intro s m ps o hs ho between a older pid id hl ha hbt
    rcases cons_eq_append_iff.mp hl with ⟨rfl, hn⟩ | ⟨between', rfl, hl'⟩
    · cases hn
      obtain ⟨req, ttl, hp⟩ := ha.outcome
      exact absurd hp (ho _ _)
    · exact hs between' a older pid id hl' ha fun b hb => hbt b (mem_cons_of_mem _ hb)
  · intro s m ps req hs _
    exact hs
  · intro s i w u rep g hr hs _ hw _ _ hp between a older pid id hl ha hbt
    rcases cons_eq_append_iff.mp hl with ⟨rfl, hn⟩ | ⟨between', rfl, hl'⟩
    · cases hn
      obtain ⟨req, ttl, ho⟩ := ha.outcome
      obtain ⟨t, hd, -⟩ := dispatched_of_waiting hr w (mem_of_getElem? hw)
      obtain ⟨ty, workingDir, capabilities, now, hrq⟩ := register_request ha.1 ha.2.1 hd
      cases ho
      rw [hrq] at hp
      exact hp.registered_pid
    · have hpd := hs between' a older pid id hl' ha fun b hb => hbt b (mem_cons_of_mem _ hb)
      refine hp.keeps_pid (consistent hr).indexed hpd ?_
      intro hrq
      exact hbt _ mem_cons_self ⟨rep, by rw [hrq]⟩

end Runs

theorem Performed.same_session_iff {g g' : AppStateInner} {users : List String}
    (hg : Consistent g users) {u : String} (hu : u ∉ users) {pid pid' : UInt32}
    {ty : AgentType} {wdir : String} {caps : List String} {now : DateTime}
    {id id' : String} {ttl : Nat}
    (h : Performed g u (.sessionRegister pid' ty wdir caps now)
      (.ok (.registered id' ttl)) g') (hp : g.sessionsByPid.lookup pid = some id) :
    id = id' ↔ pid = pid' := by
  obtain ⟨session, hs, hsm⟩ := (hg.indexed pid id).mp hp
  cases h with
  | minted hp' hn =>
    constructor
    · rintro rfl
      rw [hg.lookup_new hu] at hs
      cases hs
    · rintro rfl
      rw [hn id hp] at hs
      cases hs
  | refreshed hp' hs' =>
    constructor
    · rintro rfl
      obtain ⟨session'', hs'', hsm'⟩ := (hg.indexed _ _).mp hp'
      rw [hs, Option.some_inj] at hs''
      rw [← hsm, ← hsm', hs'']
    · rintro rfl
      exact Option.some_inj.mp (hp.symm.trans hp')
  | other hr hc => exact absurd rfl (hr id' ttl)

/-- **Session identity.** The pids decide whether two registrations get one session exactly if pids that agree in 32
bits are equal. -/
theorem same_session_iff_same_pid {start : DateTime} {s : Daemon} (h : (daemon start).Reachable s)
    {newer between older : List Answered} {first second : Answered}
    (hlog : s.log = newer ++ second :: (between ++ first :: older)) {pid pid' : UInt64} {id id' : String}
    (hfirst : first.Registers pid id) (hsecond : second.Registers pid' id')
    (hbetween : ∀ a ∈ between, ¬ a.Deregisters id ∧ ¬ a.Deregisters id') :
    (id = id' ↔ pid = pid') ↔ (pid.toUInt32 = pid'.toUInt32 → pid = pid') := by
  obtain ⟨s₀, u, agentType, workingDir, capabilities, now, ttl, g, hr, hu, hold,
    hp⟩ := registration_of_log h hlog hsecond
  have hpd := pid_of_log hr between first older pid id hold hfirst fun a ha => (hbetween a ha).1
  have hsm : id = id' ↔ pid.toUInt32 = pid'.toUInt32 := hp.same_session_iff (consistent hr) hu hpd
  rw [hsm]
  constructor
  · exact Iff.mp
  · intro hi
    exact ⟨hi, fun heq => by rw [heq]⟩

def epoch : DateTime := ⟨0, by decide⟩

def registering (pid : Nat) (u : String) : List Event :=
  [.arrive "session.register" (.obj [("pid", .num (.posInt pid))]), .perform 0 u]

def logsTwo (s : Daemon) (pid pid' : UInt64) (id id' : String) : Bool :=
  match s.log with
  | [second, first] => first.Registers pid id ∧ second.Registers pid' id'
  | _ => false

theorem logsTwo_spec {s : Daemon} {pid pid' : UInt64} {id id' : String}
    (h : logsTwo s pid pid' id id' = true) :
    ∃ first second, s.log = [second, first] ∧ first.Registers pid id ∧ second.Registers pid' id' := by
  unfold logsTwo at h
  split at h
  · rename_i second first hl
    exact ⟨first, second, hl, of_decide_eq_true h⟩
  · cases h

theorem two_pids_two_sessions : ∃ s first second, (daemon epoch).Reachable s ∧
    s.log = [second, first] ∧ first.Registers 7 "sess_a" ∧ second.Registers 8 "sess_b" ∧
    (("sess_a" = "sess_b" ↔ (7 : UInt64) = 8) ↔
      ((7 : UInt64).toUInt32 = (8 : UInt64).toUInt32 → (7 : UInt64) = 8)) := by
  obtain ⟨s, hs, hp⟩ : ∃ s, (daemon epoch).Reachable s ∧ logsTwo s 7 8 "sess_a" "sess_b" :=
    Machine.exists_reachable (registering 7 "a" ++ registering 8 "b") (by decide +kernel)
  obtain ⟨first, second, hl, hf, hsc⟩ := logsTwo_spec hp
  have hsp : s.log = [] ++ second :: ([] ++ first :: []) := hl
  have hn : ∀ a ∈ ([] : List Answered), ¬ a.Deregisters "sess_a" ∧ ¬ a.Deregisters "sess_b" := by simp
  exact ⟨s, first, second, hs, hl, hf, hsc, same_session_iff_same_pid hs hsp hf hsc hn⟩

theorem different_pids_share_session : ∃ s first second, (daemon epoch).Reachable s ∧
    s.log = [second, first] ∧ first.Registers 1 "sess_a" ∧ second.Registers (2 ^ 32 + 1) "sess_a" := by
  obtain ⟨s, hs, hp⟩ : ∃ s, (daemon epoch).Reachable s ∧ logsTwo s 1 (2 ^ 32 + 1) "sess_a" "sess_a" :=
    Machine.exists_reachable (registering 1 "a" ++ registering (2 ^ 32 + 1) "b") (by decide +kernel)
  obtain ⟨first, second, hl, hf, hsc⟩ := logsTwo_spec hp
  exact ⟨s, first, second, hs, hl, hf, hsc⟩

/-- **The index of the sessions.** Each session is found under its pid, and each pid names a session that has it. -/
theorem sessions_by_pid_inverse {start : DateTime} {s : Daemon} (h : (daemon start).Reachable s) :
    (∀ id session, s.guard.sessions.lookup id = some session → s.guard.sessionsByPid.lookup session.pid = some id) ∧
      ∀ pid id, s.guard.sessionsByPid.lookup pid = some id →
        ∃ session, s.guard.sessions.lookup id = some session ∧ session.pid = pid := by
  have hi : Indexed s.guard := (consistent h).indexed
  refine ⟨?_, fun pid id => (hi pid id).mp⟩
  intro id session hs
  exact (hi session.pid id).mpr ⟨session, hs, rfl⟩

theorem registered_pid_indexed : ∃ s, (daemon epoch).Reachable s ∧
    s.guard.sessionsByPid.lookup 7 = some "sess_a" ∧
      ∃ session, s.guard.sessions.lookup "sess_a" = some session ∧ session.pid = 7 := by
  obtain ⟨s, hs, hp⟩ : ∃ s, (daemon epoch).Reachable s ∧ s.guard.sessionsByPid.lookup 7 = some "sess_a" :=
    Machine.exists_reachable (registering 7 "a") (by decide +kernel)
  exact ⟨s, hs, hp, (sessions_by_pid_inverse hs).2 7 "sess_a" hp⟩

/-! ### Lifetime -/

/-- The session has been returned by a registration, and no request to deregister it has been performed since. -/
def Live (log : List Answered) (id : String) : Prop :=
  ∃ newer a older, log = newer ++ a :: older ∧ a.sessionId = some id ∧ ∀ b ∈ newer, ¬ b.Deregisters id

theorem live_cons {a : Answered} {log : List Answered} {id : String} :
    Live (a :: log) id ↔ a.sessionId = some id ∨ ¬ a.Deregisters id ∧ Live log id := by
  constructor
  · rintro ⟨newer, b, older, hl, hb, hn⟩
    rcases cons_eq_append_iff.mp hl with ⟨rfl, he⟩ | ⟨newer', rfl, hl'⟩
    · cases he
      exact .inl hb
    · obtain ⟨ha, hn⟩ := forall_mem_cons.mp hn
      exact .inr ⟨ha, newer', b, older, hl', hb, hn⟩
  · rintro (ha | ⟨ha, newer, b, older, rfl, hb, hn⟩)
    · exact ⟨[], a, log, rfl, ha, by simp⟩
    · exact ⟨a :: newer, b, older, rfl, hb, forall_mem_cons.mpr ⟨ha, hn⟩⟩

theorem sessionId_eq_some_iff {a : Answered} {id : String} :
    a.sessionId = some id ↔ ∃ req ttl, a.outcome = .performed req (.ok (.registered id ttl)) := by
  constructor
  · intro h
    unfold Answered.sessionId at h
    split at h
    · rename_i req id' ttl ho
      cases h
      exact ⟨req, ttl, ho⟩
    · cases h
  · rintro ⟨req, ttl, ho⟩
    simp [Answered.sessionId, ho]

theorem perform_deregister {g g' : AppStateInner} {clock : DateTime} {u id : String} {rep : Reply}
    (h : (Request.sessionDeregister id).perform clock u g = (rep, g')) :
    g'.sessions.lookup id = none ∧ ∀ id' ttl, rep ≠ .ok (.registered id' ttl) := by
  simp only [Request.perform, handleSessionDeregister] at h
  cases hs : g.sessions.lookup id with
  | none =>
    rw [hs] at h
    cases h
    exact ⟨hs, by simp⟩
  | some session =>
    rw [hs] at h
    cases h
    exact ⟨lookup_erase _ _, by simp⟩

theorem isSome_lookup_insert {m : AList fun _ : String => Session} {id id' : String} {session : Session} :
    ((m.insert id session).lookup id').isSome ↔ id' = id ∨ (m.lookup id').isSome := by
  by_cases he : id' = id
  · subst he
    simp [lookup_insert]
  · simp [lookup_insert_ne he, he]

/-- A session that is written again was there. -/
theorem isSome_lookup_rewritten {m : AList fun _ : String => Session} {id id' : String} {session session' : Session}
    (hs : m.lookup id = some session) : ((m.insert id session').lookup id').isSome ↔ (m.lookup id').isSome := by
  rw [isSome_lookup_insert, or_iff_right_iff_imp]
  rintro rfl
  simp [hs]

theorem Performed.isSome_lookup {g g' : AppStateInner} {u id : String} {req : Request} {rep : Reply}
    (h : Performed g u req rep g') (hr : req ≠ .sessionDeregister id) :
    (g'.sessions.lookup id).isSome ↔
      (∃ ttl, rep = .ok (.registered id ttl)) ∨ (g.sessions.lookup id).isSome := by
  cases h with
  | minted hp hn => simp [isSome_lookup_insert, @eq_comm _ id]
  | @refreshed pid ty wdir caps now id' session hp hs =>
    rw [isSome_lookup_rewritten hs]
    refine (or_iff_right_of_imp ?_).symm
    rintro ⟨ttl, he⟩
    cases he
    simp [hs]
  | heartbeat hs => simp [isSome_lookup_rewritten hs]
  | @deregistered id' session hs =>
    have hne : id ≠ id' := by
      rintro rfl
      exact hr rfl
    simp [lookup_erase_ne hne]
  | other hn hc => simp [hn]
  | _ => simp

/-- **The clock plays no part.** A session is held as long as no request to deregister it has been performed since
a registration returned it: the time to live in the reply is not enforced. -/
theorem session_held_iff_live {start : DateTime} {s : Daemon} (h : (daemon start).Reachable s) (id : String) :
    (s.guard.sessions.lookup id).isSome ↔ Live s.log id := by
  refine daemon_invariant ?_ ?_ ?_ ?_ ?_ h
  · simp [Live]
  · intro s t hs _
    exact hs
  · intro s m ps o hs ho
    rw [live_cons, sessionId_eq_some_iff]
    simpa [Answered.Deregisters, ho] using hs
  · intro s m ps req hs _
    exact hs
  · intro s i w u rep g hr hs _ hw _ he hp
    show (g.sessions.lookup id).isSome ↔ Live (⟨w.method, w.params, .performed w.request rep⟩ :: s.log) id
    rw [live_cons, sessionId_eq_some_iff]
    by_cases hd : w.request = .sessionDeregister id
    · obtain ⟨hn, hrep⟩ := perform_deregister (hd ▸ he)
      simp [Answered.Deregisters, hd, hn, hrep]
    · rw [hp.isSome_lookup hd, hs]
      simp [Answered.Deregisters, hd]

def nextDay : DateTime := ⟨86400 * 1000000000, by decide⟩

theorem session_held_next_day :
    ∃ s, (daemon epoch).Reachable s ∧ s.clock = nextDay ∧ Live s.log "sess_a" := by
  obtain ⟨s, hs, hp⟩ : ∃ s, (daemon epoch).Reachable s ∧
      decide (s.clock = nextDay ∧ (s.guard.sessions.lookup "sess_a").isSome) :=
    Machine.exists_reachable (registering 7 "a" ++ [.setClock nextDay]) (by decide +kernel)
  obtain ⟨hc, hl⟩ := of_decide_eq_true hp
  exact ⟨s, hs, hc, (session_held_iff_live hs "sess_a").mp hl⟩

end ShareCli.Teamcomm
