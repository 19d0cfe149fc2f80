import ShareCli.Session.EventServer
import ShareCli.Session.Proofs.EventHubProofs

/-!
# Whose subscriptions the hub holds

A task returns without a call of `unsubscribe`, so what it has subscribed stays in the hub.
-/

namespace ShareCli.Session

open Foundation Option AList Function

def OnlyAdds (hub : HubState) (calls : List SurfaceCall) (events : Option HubState) : Prop :=
  ∀ id, ((events.getD hub).subscriptions.lookup id).isSome →
    (hub.subscriptions.lookup id).isSome ∨ hub.madeBy calls = some id

section Dispatch

variable {serde : Serde} {co : SurfaceControl} {hub : HubState}

theorem OnlyAdds.same (cs : List SurfaceCall) : OnlyAdds hub cs (some hub) :=
  fun _ h => .inl h

theorem OnlyAdds.subscribe {req : SurfaceSubscribeRequest} {ack : SurfaceSubscribeAck}
    {hub' : HubState} (hok : hub.subscribe req = .ok (ack, hub')) :
    OnlyAdds hub [.subscribe req] (some hub') := by
  intro id hid
  have hm : hub.madeBy [.subscribe req] = some ack.subscriptionId := by
    simp [HubState.madeBy, hok]
  -- A subscription that was accepted is the one new entry of the hub.
  have hi : ∃ sub, hub'.subscriptions = hub.subscriptions.insert ack.subscriptionId sub := by
    unfold HubState.subscribe at hok
    split at hok
    · cases hok
    split_ifs at hok
    obtain ⟨rfl, rfl⟩ := Prod.mk.inj (Except.ok.inj hok)
    exact ⟨_, rfl⟩
  obtain ⟨sub, hi⟩ := hi
  by_cases heq : id = ack.subscriptionId
  · exact .inr (heq ▸ hm)
  · refine .inl ?_
    rw [getD_some, hi, lookup_insert_ne heq] at hid
    exact hid

theorem OnlyAdds.unsubscribe (sid : Nat) :
    OnlyAdds hub [.unsubscribe sid] (some (hub.unsubscribe sid).2) := by
  intro id hid
  refine .inl ?_
  rw [getD_some] at hid
  by_cases heq : id = sid
  · subst heq
    simp [HubState.unsubscribe] at hid
  · simpa [HubState.unsubscribe, lookup_erase_ne heq] using hid

theorem onlyAdds_decodeParams {β : Type} {ps : Value} {decode : Fields Value → Option β}
    {next : β → MethodOutcome} (hnext : ∀ p, OnlyAdds hub (next p).calls (next p).events) :
    OnlyAdds hub (decodeParams serde ps (some hub) decode next).calls
      (decodeParams serde ps (some hub) decode next).events := by
  unfold decodeParams
  split
  · exact .same _
  · exact hnext _

theorem onlyAdds_dispatchMethod (method : String) (ps : Value) :
    OnlyAdds hub (dispatchSurfaceMethodWithEvents serde co method ps (some hub)).calls
      (dispatchSurfaceMethodWithEvents serde co method ps (some hub)).events := by
  unfold dispatchSurfaceMethodWithEvents
  cases SurfaceMethod.ofName method with
  | none => exact .same _
  | some m =>
    cases m with
    | list => exact .same _
    | ioSend =>
      refine onlyAdds_decodeParams fun p => ?_
      cases p.payload with
      | none => exact .same _
      | some bs =>
        dsimp only
        split <;> exact .same _
    | ioRead | ioResize =>
      refine onlyAdds_decodeParams fun p => ?_
      split <;> exact .same _
    | ioCapabilities => exact onlyAdds_decodeParams fun p => .same _
    | layoutSnapshot =>
      dsimp only
      split <;> exact .same _
    | layoutRestore =>
      refine onlyAdds_decodeParams fun sp => ?_
      cases sp.validate with
      | error e => exact .same _
      | ok _ => exact .same _
    | ioSubscribe =>
      refine onlyAdds_decodeParams fun req => ?_
      cases hs : hub.subscribe req with
      | error e => exact .same _
      | ok acc => exact .subscribe hs
    | ioUnsubscribe => exact onlyAdds_decodeParams fun id => .unsubscribe id

variable (serde co hub) in
theorem onlyAdds_dispatchInternal (l : String) :
    OnlyAdds hub (dispatchSurfaceInternal serde co l (some hub)).calls
      (dispatchSurfaceInternal serde co l (some hub)).events := by
  unfold dispatchSurfaceInternal
  split
  · exact .same _
  split
  · exact .same _
  split
  · exact .same _
  split
  · exact .same _
  · exact onlyAdds_dispatchMethod _ _

theorem onlyAdds_dispatch (l : String) (tok : Option String) :
    OnlyAdds hub (dispatchSurfaceWithTokenAndEvents serde co hub l tok).calls
      (dispatchSurfaceWithTokenAndEvents serde co hub l tok).events := by
  have hd := onlyAdds_dispatchInternal serde co hub l
  unfold dispatchSurfaceWithTokenAndEvents checkToken
  split
  · exact hd
  split
  · exact hd
  split
  · exact .same _
  · exact hd

end Dispatch

theorem isSome_lookup_publish (hub : HubState) (sid : String) (k : SurfaceEventKind)
    (bs : List UInt8) (ts : Option String) (id : Nat) :
    ((hub.publish sid k bs ts).2.subscriptions.lookup id).isSome = (hub.subscriptions.lookup id).isSome := by
  unfold HubState.publish
  generalize hub.chunks sid bs = chunks
  induction chunks generalizing hub with
  | nil => rfl
  | cons chunk chunks ih =>
    rw [List.foldl_cons]
    refine (ih (hub.publishChunk sid k ts chunk)).trans ?_
    simp only [HubState.publishChunk]
    rw [lookup_mapSubscriptions, isSome_map]

theorem isSome_lookup_drain {hub hub' : HubState} {sid method : Nat}
    {evs : List SurfaceEventParams} (hd : hub.drain sid method = .ok (evs, hub'))
    {id : Nat} (hid : (hub'.subscriptions.lookup id).isSome) : (hub.subscriptions.lookup id).isSome := by
  unfold HubState.drain at hd
  split at hd
  · cases hd
  · rename_i sub hl
    obtain ⟨-, rfl⟩ := Prod.mk.inj (Except.ok.inj hd)
    by_cases heq : id = sid
    · rw [heq, hl]
      rfl
    · rwa [lookup_insert_ne heq] at hid

section Turns

variable {serde : Serde} {tok : Option String}

theorem turn_onlyAdds {hub hub' : HubState} {cn cn' : Connection} {ev : TaskEvent} {cre : Option Nat}
    (ht : turn serde tok hub cn ev = some (.goesOn cn' hub' cre)) :
    ∀ id, (hub'.subscriptions.lookup id).isSome → (hub.subscriptions.lookup id).isSome ∨ cre = some id := by
  intro id hid
  cases ev with
  | read r =>
    simp only [turn] at ht
    split at ht
    · cases ht
    · split at ht
      · cases ht
      split at ht
      · cases ht
      split at ht
      · cases ht
      · cases ht
        exact .inl hid
    · cases ht
  | line co =>
    simp only [turn] at ht
    split at ht
    · split at ht
      · cases ht
        exact .inl hid
      split at ht
      · cases ht
      · -- The line is dispatched, and the hub is the one that the dispatch returns.
        obtain ⟨-, rfl, rfl⟩ := Turn.goesOn.inj (some_inj.mp ht)
        exact onlyAdds_dispatch _ _ id hid
    · cases ht
  | written success =>
    simp only [turn] at ht
    split at ht
    · split at ht
      · cases ht
        exact .inl hid
      · cases ht
    · split at ht
      · cases ht
        exact .inl hid
      · cases ht
    · cases ht
  | tick =>
    simp only [turn] at ht
    split at ht
    · cases ht
      exact .inl hid
    · cases ht
  | drain =>
    simp only [turn] at ht
    split at ht
    · cases ht
      exact .inl hid
    · split at ht
      · cases ht
        exact .inl hid
      · rename_i hd
        cases ht
        exact .inl (isSome_lookup_drain hd hid)
    · cases ht
      exact .inl hid
    · cases ht

end Turns

namespace ServerState

/-- Every subscription in the hub was made by a connection that is open. -/
def HoldsOpenOnly (s : ServerState) : Prop :=
  ∀ id, (s.hub.subscriptions.lookup id).isSome → ∃ connection, s.creator id = some connection ∧
    s.isOpen connection = true

/-- If the step ends a task, nothing that its connection has subscribed is left in the hub. -/
def Releases (serde : Serde) (tok : Option String) (s : ServerState) : ServerLabel → Prop
  | .task id event =>
    match s.turnOf serde tok id event with
    | some .returns => s.held id = []
    | _ => True
  | _ => True

instance (serde : Serde) (tok : Option String) (s : ServerState) (l : ServerLabel) :
    Decidable (s.Releases serde tok l) :=
  match l with
  | .task id event =>
    match h : s.turnOf serde tok id event with
    | some .returns => decidable_of_iff (s.held id = []) (by simp [Releases, h])
    | some (.goesOn ..) => isTrue (by simp [Releases, h])
    | none => isTrue (by simp [Releases, h])
  | .accept => isTrue trivial
  | .publish .. => isTrue trivial

theorem held_eq_nil_iff {s : ServerState} {cn : Nat} :
    s.held cn = [] ↔ ∀ id, (s.hub.subscriptions.lookup id).isSome → s.creator id ≠ some cn := by
  unfold held
  rw [List.filter_eq_nil_iff]
  refine forall_congr' fun id => ?_
  rw [lookup_isSome, mem_keys, decide_eq_true_eq]

variable {serde : Serde} {tok : Option String} {s : ServerState}

theorem HoldsOpenOnly.accept (h : s.HoldsOpenOnly) : HoldsOpenOnly
      { s with connections := s.connections.insert s.accepted .new, accepted := s.accepted + 1 } := by
  intro id hid
  obtain ⟨cn, hc, ho⟩ := h id hid
  refine ⟨cn, hc, ?_⟩
  show ((s.connections.insert s.accepted .new).lookup cn).isSome = true
  by_cases heq : cn = s.accepted
  · rw [heq, lookup_insert]
    rfl
  · rw [lookup_insert_ne heq]
    exact ho

theorem HoldsOpenOnly.goesOn (h : s.HoldsOpenOnly) {id : Nat} {cn : Connection}
    {hub : HubState} {cre : Option Nat}
    (ha : ∀ id, (hub.subscriptions.lookup id).isSome →
      (s.hub.subscriptions.lookup id).isSome ∨ cre = some id) :
    (s.after id (.goesOn cn hub cre)).HoldsOpenOnly := by
  have ho' : ∀ c, c = id ∨ s.isOpen c = true → (s.after id (.goesOn cn hub cre)).isOpen c = true := by
    intro c hc
    show ((s.connections.insert id cn).lookup c).isSome = true
    by_cases heq : c = id
    · rw [heq, lookup_insert]
      rfl
    · rw [lookup_insert_ne heq]
      exact hc.resolve_left heq
  intro sid hid
  cases hcr : cre with
  | none =>
    subst hcr
    obtain ⟨c, hc, ho⟩ := h sid ((ha sid hid).resolve_right (by simp))
    exact ⟨c, hc, ho' c (.inr ho)⟩
  | some m =>
    subst hcr
    by_cases heq : sid = m
    · refine ⟨id, ?_, ho' id (.inl rfl)⟩
      show update s.creator m (some id) sid = some id
      rw [heq, update_self]
    · have hold := (ha sid hid).resolve_right fun h => heq (some_inj.mp h).symm
      obtain ⟨c, hc, ho⟩ := h sid hold
      refine ⟨c, ?_, ho' c (.inr ho)⟩
      show update s.creator m (some id) sid = some c
      rw [update_of_ne heq, hc]

theorem HoldsOpenOnly.returns_iff (h : s.HoldsOpenOnly) {id : Nat} :
    (s.after id .returns).HoldsOpenOnly ↔ s.held id = [] := by
  rw [held_eq_nil_iff]
  constructor
  · intro ha sid hid hcr
    obtain ⟨c, hc, ho⟩ := ha sid hid
    obtain rfl : id = c := some_inj.mp (hcr.symm.trans hc)
    have hcl : (s.connections.erase id).lookup id = none := lookup_erase _ _
    simp [isOpen, after, hcl] at ho
  · intro hr sid hid
    obtain ⟨c, hc, ho⟩ := h sid hid
    have hne : c ≠ id := by
      rintro rfl
      exact hr sid hid hc
    refine ⟨c, hc, ?_⟩
    show ((s.connections.erase id).lookup c).isSome = true
    rw [lookup_erase_ne hne]
    exact ho

theorem HoldsOpenOnly.step_iff (h : s.HoldsOpenOnly) {l : ServerLabel} {s' : ServerState}
    (hstep : (serverMachine serde tok).step s l = some s') :
    s'.HoldsOpenOnly ↔ s.Releases serde tok l := by
  cases l with
  | accept =>
    cases hstep
    exact ⟨fun _ => trivial, fun _ => h.accept⟩
  | task id ev =>
    obtain ⟨next, hnext, rfl⟩ := map_eq_some_iff.mp hstep
    cases next with
    | returns =>
      rw [h.returns_iff]
      simp [Releases, hnext]
    | goesOn cn hub cre =>
      obtain ⟨before, -, ht⟩ := bind_eq_some_iff.mp hnext
      refine ⟨fun _ => ?_, fun _ => h.goesOn (turn_onlyAdds ht)⟩
      simp [Releases, hnext]
  | publish sid k bs ts =>
    cases hstep
    refine ⟨fun _ => trivial, fun _ id hid => h id ?_⟩
    rwa [isSome_lookup_publish] at hid

end ServerState

open ServerState

/-- In every run in which each task that returns has released its subscriptions; and a step from such a state keeps
it so only if the task that it ends has released its subscriptions. -/
theorem hub_holds_open_connections_only (serde : Serde) (expectedToken : Option String) (s : ServerState)
    (h : (serverMachine serde expectedToken).ReachableWhen (fun s l => s.Releases serde expectedToken l) s) :
    s.HoldsOpenOnly ∧ ∀ l s', (serverMachine serde expectedToken).step s l = some s' →
      (s'.HoldsOpenOnly ↔ s.Releases serde expectedToken l) := by
  have hh : s.HoldsOpenOnly := by
    refine Machine.invariantWhen ?_ ?_ h
    · intro id hid
      simp [serverMachine, HubState.new] at hid
    · intro s l s' hs hr hstep
      exact (hs.step_iff hstep).mpr hr
  exact ⟨hh, fun l s' hstep => hh.step_iff hstep⟩

def plainSerde : Serde := ⟨fun _ => true, fun _ => "", fun _ => ""⟩

def idleControl : SurfaceControl :=
  { list := .ok (.arr []), send := fun _ _ => .ok (), read := fun _ _ => .ok []
    resize := fun _ _ _ => .ok (), capabilities := fun _ => .ok .null, snapshotLayout := .ok .null
    restoreLayout := fun _ => .ok .null }

def subscribeLine : List UInt8 :=
  Text.encodeUtf8
    "\x7b\"jsonrpc\":\"2.0\",\"id\":1,\"method\":\"surface.io.subscribe\"\x7d\n".toList

def subscribeLabels : List ServerLabel :=
  [.accept, .task 0 (.read (some subscribeLine)), .task 0 (.line idleControl), .task 0 (.written true),
    .task 0 (.line idleControl)]

theorem hub_holds_open_connections_only_subscribed :
    ∃ s, (serverMachine plainSerde none).ReachableWhen (fun s l => s.Releases plainSerde none l) s ∧
      s.isOpen 1 = false ∧ (s.hub.subscriptions.lookup 1).isSome ∧ s.HoldsOpenOnly := by
  obtain ⟨s, hw, hcl, hh⟩ :
      ∃ s, (serverMachine plainSerde none).ReachableWhen (fun s l => s.Releases plainSerde none l) s ∧
        s.isOpen 1 = false ∧ (s.hub.subscriptions.lookup 1).isSome :=
    Machine.exists_reachable (subscribeLabels ++ [.accept, .task 1 (.read (some []))]) (by decide +kernel)
  exact ⟨s, hw, hcl, hh, (hub_holds_open_connections_only plainSerde none s hw).1⟩

/-- The client subscribes and disconnects: its subscription stays in the hub. -/
theorem subscription_outlives_connection :
    ∃ s, (serverMachine plainSerde none).Reachable s ∧ s.isOpen 0 = false ∧ s.creator 1 = some 0 ∧
      (s.hub.subscriptions.lookup 1).isSome ∧ ¬ s.HoldsOpenOnly := by
  obtain ⟨s, hr, hcl, hc, hh⟩ : ∃ s, (serverMachine plainSerde none).Reachable s ∧
      s.isOpen 0 = false ∧ s.creator 1 = some 0 ∧ (s.hub.subscriptions.lookup 1).isSome :=
    Machine.exists_reachable (subscribeLabels ++ [.task 0 (.read (some []))]) (by decide +kernel)
  refine ⟨s, hr, hcl, hc, hh, ?_⟩
  intro hhl
  obtain ⟨cn, hm, ho⟩ := hhl 1 hh
  obtain rfl : 0 = cn := some_inj.mp (hc.symm.trans hm)
  simp [hcl] at ho

end ShareCli.Session
