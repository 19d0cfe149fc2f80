import Mathlib.Data.List.Nodup
import ShareCli.Teamcomm.Proofs.SessionProofs

/-!
# The inbox

The messages to a session are kept in the order of the posts, and a message that has been returned is marked.
-/

namespace ShareCli.Teamcomm

open Foundation AppStateInner Answered List

def Answered.postedTo (a : Answered) (sid : String) : List String :=
  match a.outcome with
  | .performed (.inboxPost _ toSession _ _ _) (.ok (.posted id)) => if toSession = sid then [id] else []
  | _ => []

def Answered.deliveredTo (a : Answered) (sid : String) : List String :=
  match a.outcome with
  | .performed (.inboxList sessionId true _) (.ok (.messages ms)) =>
    if sessionId = sid then ms.map InboxMessage.messageId else []
  | _ => []

theorem deliveredTo_listed (message : String) (ps : Value) (sid s' : String) (unread : Bool)
    (lim : UInt64) (a : List InboxMessage) :
    deliveredTo
        ⟨message, ps, .performed (.inboxList sid unread lim) (.ok (.messages a))⟩ s' =
      if unread = true ∧ sid = s' then a.map InboxMessage.messageId else [] := by
  cases unread with
  | true => simp [deliveredTo]
  | false => rfl

def Answered.returned (a : Answered) : List String :=
  match a.outcome with
  | .performed _ (.ok (.messages ms)) => ms.map InboxMessage.messageId
  | .performed _ (.ok (.message message)) => [message.messageId]
  | _ => []

def posts (log : List Answered) (sid : String) : List String := log.reverse.flatMap fun a => a.postedTo sid

def deliveries (log : List Answered) (sid : String) : List String :=
  log.reverse.flatMap fun a => a.deliveredTo sid

def returnedIds (log : List Answered) : List String := log.flatMap returned

section Log

variable {a : Answered} {log : List Answered} {sid : String}

theorem posts_cons : posts (a :: log) sid = posts log sid ++ a.postedTo sid := by
  simp [posts]

theorem deliveries_cons : deliveries (a :: log) sid = deliveries log sid ++ a.deliveredTo sid := by
  simp [deliveries]

theorem mem_returnedIds_cons {id : String} :
    id ∈ returnedIds (a :: log) ↔ id ∈ a.returned ∨ id ∈ returnedIds log := by
  simp [returnedIds]

end Log

def AppStateInner.messages (guard : AppStateInner) (sid : String) : List InboxMessage :=
  (guard.inbox.lookup sid).getD []

def messageIds (ms : List InboxMessage) : List String := ms.map InboxMessage.messageId

def markRead (ids : List String) (ms : List InboxMessage) : List InboxMessage :=
  ms.map fun m => if m.messageId ∈ ids then { m with read := true } else m

def unreadIds (ms : List InboxMessage) : List String := messageIds (ms.filter fun m => !m.read)

theorem filter_selected {ids sel : List String} (h : sel.Sublist ids) (hi : ids.Nodup) :
    ids.filter (· ∈ sel) = sel := by
  have hs : sel.filter (· ∈ sel) = sel := by simp
  have hsb : sel.Sublist (ids.filter (· ∈ sel)) := by
    rw [← hs]
    simpa using h.filter (· ∈ sel)
  have hp : sel.Perm (ids.filter (· ∈ sel)) := by
    rw [perm_ext_iff_of_nodup (h.nodup hi) (hi.filter _)]
    intro id
    simp only [mem_filter, decide_eq_true_eq]
    exact ⟨fun hid => ⟨h.subset hid, hid⟩, And.right⟩
  exact (hsb.eq_of_length hp.length_eq).symm

theorem filter_not_taken {ids : List String} (hi : ids.Nodup) (n : Nat) :
    ids.filter (· ∉ ids.take n) = ids.drop n := by
  have hd := disjoint_take_drop hi (Nat.le_refl n)
  have ht : (ids.take n).filter (· ∉ ids.take n) = [] := by simp
  have hl : (ids.drop n).filter (· ∉ ids.take n) = ids.drop n := by
    rw [filter_eq_self]
    intro id hid
    simpa using fun hid' => hd hid' hid
  calc ids.filter (· ∉ ids.take n)
      = (ids.take n ++ ids.drop n).filter (· ∉ ids.take n) :=
        (congrArg (filter _) (take_append_drop n ids)).symm
    _ = ids.drop n := by rw [filter_append, ht, hl, nil_append]

section Marking

variable {ids : List String} {ms : List InboxMessage}

theorem messageIds_markRead : messageIds (markRead ids ms) = messageIds ms := by
  simp only [messageIds, markRead, map_map]
  apply map_congr_left
  intro m _
  by_cases hm : m.messageId ∈ ids <;> simp [hm]

theorem messageIds_filter :
    messageIds (ms.filter fun m => m.messageId ∈ ids) = (messageIds ms).filter (· ∈ ids) := by
  rw [messageIds, messageIds, filter_map]
  rfl

theorem mem_markRead {m : InboxMessage} (h : m ∈ markRead ids ms) :
    ∃ m₀ ∈ ms, m₀.messageId = m.messageId ∧ m.read = (m₀.read || decide (m.messageId ∈ ids)) := by
  obtain ⟨m₀, hm₀, rfl⟩ := mem_map.mp h
  refine ⟨m₀, hm₀, ?_⟩
  by_cases hm : m₀.messageId ∈ ids <;> simp [hm]

theorem unreadIds_markRead : unreadIds (markRead ids ms) = (unreadIds ms).filter (· ∉ ids) := by
  unfold unreadIds messageIds markRead
  induction ms with
  | nil => rfl
  | cons m ms ih =>
    rw [map_cons, filter_cons, filter_cons]
    by_cases hm : m.messageId ∈ ids <;> cases hr : m.read <;> simpa [hm, hr] using ih

theorem unreadIds_sublist : (unreadIds ms).Sublist (messageIds ms) := filter_sublist.map _

theorem unreadIds_append {m : InboxMessage} (hm : m.read = false) :
    unreadIds (ms ++ [m]) = unreadIds ms ++ [m.messageId] := by
  simp [unreadIds, messageIds, hm]

end Marking

def selectedIds (unreadOnly : Bool) (limit : UInt64) (ms : List InboxMessage) : List String :=
  messageIds ((ms.filter fun m => !unreadOnly || !m.read).take
    (if 0 < limit then limit.toNat else 2 ^ 64 - 1))

theorem selectedIds_sublist (unread : Bool) (lim : UInt64) (ms : List InboxMessage) :
    (selectedIds unread lim ms).Sublist (messageIds ms) :=
  ((take_sublist _ _).trans filter_sublist).map _

theorem selectedIds_unread (lim : UInt64) (ms : List InboxMessage) : selectedIds true lim ms =
      (unreadIds ms).take (if 0 < lim then lim.toNat else 2 ^ 64 - 1) := by
  simp [selectedIds, unreadIds, messageIds, map_take]

inductive InboxEffect (guard guard' : AppStateInner) (u : String) : Request → Reply → Prop
  | posted {fromSession toSession subject body : String} {priority : Priority} (message : InboxMessage)
      (hid : message.messageId = mintMessageId u) (hunread : message.read = false)
      (hmessages : ∀ sid, guard'.messages sid =
        guard.messages sid ++ if toSession = sid then [message] else []) :
      InboxEffect guard guard' u (.inboxPost fromSession toSession subject body priority)
        (.ok (.posted (mintMessageId u)))
  | listed {sid : String} {unreadOnly : Bool} {limit : UInt64} {answer : List InboxMessage}
      (hanswer : messageIds answer = (messageIds (guard.messages sid)).filter
        (· ∈ selectedIds unreadOnly limit (guard.messages sid)))
      (hmessages : ∀ sid', guard'.messages sid' =
        if sid = sid' then
          markRead (selectedIds unreadOnly limit (guard.messages sid)) (guard.messages sid)
        else guard.messages sid') :
      InboxEffect guard guard' u (.inboxList sid unreadOnly limit) (.ok (.messages answer))
  | read {messageId : String} {message : InboxMessage} (sid : String) (ms : List InboxMessage)
      (hread : readFirst messageId (guard.messages sid) = some (message, ms))
      (hmessages : ∀ sid', guard'.messages sid' =
        if sid = sid' then ms else guard.messages sid') :
      InboxEffect guard guard' u (.inboxRead messageId) (.ok (.message message))
  | other {request : Request} {reply : Reply} (hposted : ∀ id, reply ≠ .ok (.posted id))
      (hlisted : ∀ ms, reply ≠ .ok (.messages ms))
      (hread : ∀ message, reply ≠ .ok (.message message))
      (hmessages : ∀ sid, guard'.messages sid = guard.messages sid) :
      InboxEffect guard guard' u request reply

theorem messages_insert (guard : AppStateInner) (sid s' : String) (ms : List InboxMessage) :
    ({ guard with inbox := guard.inbox.insert sid ms } : AppStateInner).messages s' =
      if sid = s' then ms else guard.messages s' := by
  unfold messages
  rcases eq_or_ne sid s' with rfl | hne
  · simp
  · simp [hne, AList.lookup_insert_ne hne.symm]

theorem InboxEffect.unchanged {guard g' : AppStateInner} {u : String} {req : Request}
    {rep : Reply} (hi : g'.inbox = guard.inbox)
    (hr : (∀ id, rep ≠ .ok (.posted id)) ∧ (∀ ms, rep ≠ .ok (.messages ms)) ∧
      ∀ m, rep ≠ .ok (.message m)) : InboxEffect guard g' u req rep := by
  refine .other hr.1 hr.2.1 hr.2.2 ?_
  intro sid
  simp only [messages, hi]

theorem handleInboxPost_effect (sender t subject body : String) (p : Priority)
    (clock : DateTime) (u : String) (guard : AppStateInner) :
    InboxEffect guard (handleInboxPost sender t subject body p clock u guard).2 u
      (.inboxPost sender t subject body p)
      (handleInboxPost sender t subject body p clock u guard).1 := by
  unfold handleInboxPost
  cases guard.sessions.lookup sender with
  | none => exact .unchanged rfl (by simp)
  | some sid =>
    refine .posted ⟨mintMessageId u, sender, t, subject, body, p, clock, false⟩
      rfl rfl ?_
    intro s'
    rw [messages_insert]
    rcases eq_or_ne t s' with rfl | hne
    · simp [messages]
    · simp [hne]

theorem handleInboxList_effect (sid : String) (unread : Bool) (lim : UInt64) (u : String)
    (guard : AppStateInner) :
    InboxEffect guard (handleInboxList sid unread lim guard).2 u
      (.inboxList sid unread lim) (handleInboxList sid unread lim guard).1 := by
  refine .listed ?_ ?_
  · show messageIds ((markRead (selectedIds unread lim (guard.messages sid))
        (guard.messages sid)).filter fun m =>
          m.messageId ∈ selectedIds unread lim (guard.messages sid)) = _
    rw [messageIds_filter, messageIds_markRead]
  · intro s'
    exact messages_insert guard sid s' _

theorem handleInboxRead_effect (mid u : String) (guard : AppStateInner) :
    InboxEffect guard (handleInboxRead mid guard).2 u (.inboxRead mid)
      (handleInboxRead mid guard).1 := by
  unfold handleInboxRead
  cases hf : guard.inbox.entries.findSome? fun e =>
      (readFirst mid e.2).map fun fd => (e.1, fd) with
  | none => exact .unchanged rfl (by simp)
  | some fd =>
    obtain ⟨⟨sid, old⟩, he, hs⟩ := exists_of_findSome?_eq_some hf
    obtain ⟨⟨m, ms⟩, hr, rfl⟩ := Option.map_eq_some_iff.mp hs
    have hl : guard.inbox.lookup sid = some old := AList.mem_lookup_iff.mpr he
    refine .read sid ms ?_ ?_
    · rw [messages, hl]
      exact hr
    · intro s'
      exact messages_insert guard sid s' ms

theorem perform_inbox (req : Request) (clock : DateTime) (u : String) (guard : AppStateInner) :
    InboxEffect guard (req.perform clock u guard).2 u req
      (req.perform clock u guard).1 := by
  cases req with
  | inboxPost sender t subject b p =>
    exact handleInboxPost_effect sender t subject b p clock u guard
  | inboxList sid unread lim =>
    exact handleInboxList_effect sid unread lim u guard
  | inboxRead mid => exact handleInboxRead_effect mid u guard
  | sessionRegister pid ty wdir caps now =>
    simp only [Request.perform, handleSessionRegister, registerSession]
    refine .unchanged ?_ (by simp)
    cases guard.sessionsByPid.lookup pid with
    | none => rfl
    | some id =>
      dsimp only
      cases guard.sessions.lookup id <;> rfl
  | sessionDeregister id =>
    simp only [Request.perform, handleSessionDeregister]
    refine .unchanged ?_ (by simp)
    cases guard.sessions.lookup id <;> rfl
  | sessionHeartbeat id | sessionGet id | reservationClaim id | stateSet id =>
    simp only [Request.perform, handleSessionHeartbeat, handleSessionGet, handleReservationClaim,
      handleStateSet]
    cases guard.sessions.lookup id <;> exact .unchanged rfl (by simp)
  | reservationRelease id =>
    simp only [Request.perform, handleReservationRelease]
    cases guard.reservations.lookup id <;> exact .unchanged rfl (by simp)
  | stateGet id =>
    simp only [Request.perform, handleStateGet]
    cases guard.liveState.lookup id <;> exact .unchanged rfl (by simp)
  | _ => refine .unchanged rfl ⟨?_, ?_, ?_⟩ <;> intro _ ha <;> cases ha

variable {ms : List InboxMessage}

theorem readFirst_eq_markRead {mid : String} {more : List InboxMessage} {mes : InboxMessage}
    (h : readFirst mid ms = some (mes, more)) (hn : (messageIds ms).Nodup) :
    mes.messageId = mid ∧ mid ∈ messageIds ms ∧ more = markRead [mid] ms := by
  induction ms generalizing more with
  | nil => cases h
  | cons m ms ih =>
    obtain ⟨hm, hn⟩ := nodup_cons.mp hn
    unfold readFirst at h
    split at h
    · rename_i heq
      cases h
      subst heq
      refine ⟨rfl, mem_cons_self, ?_⟩
      -- No later message has the id.
      have hrest : markRead [m.messageId] ms = ms := by
        refine (map_congr_left ?_).trans (map_id ms)
        intro m' hm'
        have hne : m'.messageId ≠ m.messageId := fun heq => hm (heq ▸ mem_map_of_mem hm')
        simp [hne]
      have hs : markRead [m.messageId] (m :: ms) =
          { m with read := true } :: markRead [m.messageId] ms := by simp [markRead]
      rw [hs, hrest]
    · rename_i hne
      obtain ⟨⟨fd, rest⟩, hf, heq⟩ := Option.map_eq_some_iff.mp h
      cases heq
      obtain ⟨hid, hme, rfl⟩ := ih hf hn
      refine ⟨hid, mem_cons_of_mem _ hme, ?_⟩
      simp [markRead, hne]

/-- The later answer delivers nothing that the earlier one returned. -/
def DeliversNew (later earlier : Answered) : Prop :=
  ∀ sid, ∀ id ∈ later.deliveredTo sid, id ∉ earlier.returned

/-- The messages are the posts, with ids of their own, and exactly those are marked that have been returned. What the
unread listings have delivered and what is still unread are in the order of the posts. -/
structure Recorded (ms : String → List InboxMessage) (users : List String) (log : List Answered) : Prop where
  posted : ∀ sid, messageIds (ms sid) = posts log sid
  nodup : ∀ sid, (messageIds (ms sid)).Nodup
  apart : ∀ sid sid' id, id ∈ messageIds (ms sid) → id ∈ messageIds (ms sid') → sid = sid'
  minted : ∀ sid, ∀ id ∈ messageIds (ms sid), ∃ u ∈ users, id = mintMessageId u
  marked : ∀ sid, ∀ m ∈ ms sid, m.read = true ↔ m.messageId ∈ returnedIds log
  known : ∀ id ∈ returnedIds log, ∃ sid, id ∈ messageIds (ms sid)
  ordered : ∀ sid, (deliveries log sid ++ unreadIds (ms sid)).Sublist (posts log sid)
  fresh : log.Pairwise DeliversNew

theorem mem_unreadIds {id : String} : id ∈ unreadIds ms ↔ ∃ m ∈ ms, m.read = false ∧ m.messageId = id := by
  simp [unreadIds, messageIds, and_assoc]

namespace Recorded

variable {ms ms' : String → List InboxMessage} {users : List String} {log : List Answered}
  {a : Answered} {u sid : String}

theorem unread_not_returned (h : Recorded ms users log) {id : String}
    (hid : id ∈ unreadIds (ms sid)) : id ∉ returnedIds log := by
  obtain ⟨m, hm, hu, rfl⟩ := mem_unreadIds.mp hid
  rw [← h.marked sid m hm, hu]
  exact Bool.false_ne_true

theorem cons_uuid (h : Recorded ms users log) : Recorded ms (u :: users) log := by
  refine { h with minted := ?_ }
  intro sid id hid
  obtain ⟨u', hu', heq⟩ := h.minted sid id hid
  exact ⟨u', mem_cons_of_mem u hu', heq⟩

theorem mint_not_mem (h : Recorded ms users log) (hu : u ∉ users) (sid : String) :
    mintMessageId u ∉ messageIds (ms sid) := by
  intro hm
  obtain ⟨u', hu', heq⟩ := h.minted sid _ hm
  have hs : u = u' := (String.append_right_inj "msg_").mp heq
  exact hu (hs ▸ hu')

theorem post (h : Recorded ms users log) (hu : u ∉ users) {m : InboxMessage} {t : String}
    (hid : m.messageId = mintMessageId u) (hun : m.read = false)
    (hm : ∀ sid, ms' sid = ms sid ++ if t = sid then [m] else [])
    (hp : ∀ sid, a.postedTo sid = if t = sid then [m.messageId] else [])
    (hd : ∀ sid, a.deliveredTo sid = []) (hr : a.returned = []) :
    Recorded ms' (u :: users) (a :: log) := by
  have hri : returnedIds (a :: log) = returnedIds log := by simp [returnedIds, hr]
  have hn : ∀ sid, m.messageId ∉ messageIds (ms sid) := hid ▸ h.mint_not_mem hu
  have hi : ∀ sid, messageIds (ms' sid) = messageIds (ms sid) ++ if t = sid then [m.messageId] else [] := by
    intro sid
    rw [hm sid, messageIds, map_append]
    by_cases hs : t = sid <;> simp [hs, messageIds]
  have hme : ∀ sid id, id ∈ messageIds (ms' sid) ↔
      id ∈ messageIds (ms sid) ∨ t = sid ∧ id = m.messageId := by
    intro sid id
    rw [hi, mem_append]
    by_cases hs : t = sid <;> simp [hs]
  refine ⟨?_, ?_, ?_, ?_, ?_, ?_, ?_, ?_⟩
  · intro sid
    rw [posts_cons, hi, hp, h.posted]
  · intro sid
    rw [hi]
    by_cases hs : t = sid
    · rw [if_pos hs, nodup_append_comm]
      exact nodup_cons.mpr ⟨hn sid, h.nodup sid⟩
    · rw [if_neg hs, append_nil]
      exact h.nodup sid
  · intro sid s' id hid hid'
    rcases (hme sid id).mp hid with hold | ⟨rfl, rfl⟩
    · rcases (hme s' id).mp hid' with ho' | ⟨rfl, rfl⟩
      · exact h.apart sid s' id hold ho'
      · exact absurd hold (hn sid)
    · rcases (hme s' _).mp hid' with ho' | ⟨hs, -⟩
      · exact absurd ho' (hn s')
      · exact hs
  · intro sid id hme'
    rcases (hme sid id).mp hme' with hold | ⟨-, rfl⟩
    · exact h.cons_uuid.minted sid id hold
    · exact ⟨u, mem_cons_self, hid⟩
  · rw [hri]
    intro sid m' hm'
    rw [hm, mem_append] at hm'
    rcases hm' with hold | hn'
    · exact h.marked sid m' hold
    · have hm' : m' = m := by
        by_cases hs : t = sid
        · simpa [hs] using hn'
        · simp [hs] at hn'
      subst hm'
      rw [hun]
      refine iff_of_false Bool.false_ne_true fun hr' => ?_
      obtain ⟨s', hold⟩ := h.known _ hr'
      exact hn s' hold
  · rw [hri]
    intro id hid
    obtain ⟨sid, hold⟩ := h.known id hid
    exact ⟨sid, (hme sid id).mpr (.inl hold)⟩
  · intro sid
    rw [posts_cons, deliveries_cons, hp, hd, append_nil, hm]
    by_cases hs : t = sid
    · rw [if_pos hs, if_pos hs, unreadIds_append hun, ← append_assoc]
      exact (h.ordered sid).append (Sublist.refl _)
    · rw [if_neg hs, if_neg hs, append_nil, append_nil]
      exact h.ordered sid
  · refine pairwise_cons.mpr ⟨?_, h.fresh⟩
    intro earlier _ sid id hid
    rw [hd] at hid
    cases hid

theorem mark (h : Recorded ms users log) {ids : List String} (hi : ∀ id ∈ ids, id ∈ messageIds (ms sid))
    (hms : ∀ s', ms' s' =
      if sid = s' then markRead ids (ms sid) else ms s')
    (hp : ∀ s', a.postedTo s' = []) (hr : a.returned = ids)
    (hd : (a.deliveredTo sid ++ unreadIds (markRead ids (ms sid))).Sublist (unreadIds (ms sid)))
    (ho : ∀ s', sid ≠ s' → a.deliveredTo s' = []) :
    Recorded ms' users (a :: log) := by
  have hu : ∀ s', (a.deliveredTo s' ++ unreadIds (ms' s')).Sublist (unreadIds (ms s')) := by
    intro s'
    rw [hms]
    rcases eq_or_ne sid s' with rfl | hne
    · rw [if_pos rfl]
      exact hd
    · rw [if_neg hne, ho s' hne]
      exact Sublist.refl _
  have hsi : ∀ s', messageIds (ms' s') = messageIds (ms s') := by
    intro s'
    rw [hms]
    rcases eq_or_ne sid s' with rfl | hne
    · rw [if_pos rfl, messageIds_markRead]
    · rw [if_neg hne]
  refine ⟨?_, ?_, ?_, ?_, ?_, ?_, ?_, ?_⟩
  · intro s'
    rw [posts_cons, hsi, hp, append_nil, h.posted]
  · simpa only [hsi] using h.nodup
  · simpa only [hsi] using h.apart
  · simpa only [hsi] using h.minted
  · intro s' m hm
    rw [mem_returnedIds_cons, hr]
    rw [hms] at hm
    by_cases hs : sid = s'
    · rw [if_pos hs] at hm
      obtain ⟨m₀, hm₀, hid, hrd⟩ := mem_markRead hm
      rw [hrd, Bool.or_eq_true, decide_eq_true_eq, h.marked sid m₀ hm₀, hid]
      exact or_comm
    · -- A message of another session has another id.
      rw [if_neg hs] at hm
      have hn : m.messageId ∉ ids := fun hme =>
        hs (h.apart sid s' m.messageId (hi _ hme) (mem_map_of_mem hm))
      rw [h.marked s' m hm]
      exact (or_iff_right hn).symm
  · intro id hid
    rcases mem_returnedIds_cons.mp hid with hnw | hold
    · rw [hr] at hnw
      exact ⟨sid, by rw [hsi]; exact hi id hnw⟩
    · obtain ⟨s', hme⟩ := h.known id hold
      exact ⟨s', by rwa [hsi]⟩
  · intro s'
    rw [posts_cons, deliveries_cons, hp, append_nil, append_assoc]
    exact ((Sublist.refl _).append (hu s')).trans (h.ordered s')
  · refine pairwise_cons.mpr ⟨?_, h.fresh⟩
    intro earlier he s' id hid her
    have hme := (hu s').subset (mem_append_left _ hid)
    exact h.unread_not_returned hme (mem_flatMap_of_mem he her)

theorem other (h : Recorded ms users log) (hm : ∀ sid, ms' sid = ms sid)
    (hp : ∀ sid, a.postedTo sid = []) (hd : ∀ sid, a.deliveredTo sid = [])
    (hr : a.returned = []) : Recorded ms' users (a :: log) := by
  have hs : ∀ ms, markRead [] ms = ms := by simp [markRead]
  have hi : ∀ id ∈ ([] : List String), id ∈ messageIds (ms "") := by simp
  refine h.mark hi ?_ hp hr ?_ fun sid _ => hd sid
  · intro sid
    rw [hm, hs]
    split_ifs with heq
    · rw [heq]
    · rfl
  · rw [hd, hs]
    exact Sublist.refl _

theorem perform {guard g' : AppStateInner} {message : String} {ps : Value} {req : Request}
    {rep : Reply} (h : Recorded guard.messages users log) (hu : u ∉ users)
    (he : InboxEffect guard g' u req rep) :
    Recorded g'.messages (u :: users)
      ({ method := message, params := ps, outcome := .performed req rep } :: log) := by
  cases he with
  | posted m hid hun hm =>
    refine h.post hu hid hun hm ?_ ?_ rfl
    · intro sid
      rw [hid]
      rfl
    · exact fun _ => rfl
  | @listed sid unread lim a ha hm =>
    have hs := selectedIds_sublist unread lim (guard.messages sid)
    rw [filter_selected hs (h.nodup sid)] at ha
    refine Recorded.cons_uuid (h.mark (fun id hid => hs.subset hid) hm (fun _ => rfl) ha ?_ ?_)
    · cases unread with
      | true =>
        have hd : a.map InboxMessage.messageId = selectedIds true lim (guard.messages sid) := ha
        rw [deliveredTo_listed, if_pos ⟨rfl, rfl⟩, hd, selectedIds_unread, unreadIds_markRead,
          filter_not_taken (unreadIds_sublist.nodup (h.nodup sid)), take_append_drop]
      | false =>
        rw [deliveredTo_listed, if_neg (by simp), unreadIds_markRead]
        exact filter_sublist
    · intro s' hne
      rw [deliveredTo_listed, if_neg fun hb => hne hb.2]
  | read sid ms hr hm =>
    obtain ⟨hid, hme, rfl⟩ := readFirst_eq_markRead hr (h.nodup sid)
    refine Recorded.cons_uuid (h.mark ?_ hm (fun _ => rfl) ?_ ?_ fun _ _ => rfl)
    · intro id hid'
      rw [mem_singleton.mp hid']
      exact hme
    · exact congrArg (fun id => [id]) hid
    · rw [unreadIds_markRead]
      exact filter_sublist
  | other hp hl hr hm =>
    refine Recorded.cons_uuid (h.other hm (fun sid => ?_) (fun sid => ?_) ?_)
    all_goals
      simp only [postedTo, deliveredTo, returned]
      split
      all_goals first
      | rfl
      | rename_i heq
        cases heq
        first | exact absurd rfl (hp _) | exact absurd rfl (hl _) | exact absurd rfl (hr _)

theorem unread_eq (h : Recorded ms users log) :
    unreadIds (ms sid) = (posts log sid).filter (· ∉ returnedIds log) := by
  have hu : ((ms sid).filter fun m => !m.read) = (ms sid).filter fun m => m.messageId ∉ returnedIds log := by
    apply filter_congr
    intro m hm
    have hmr := h.marked sid m hm
    cases hr : m.read with
    | true | false => simpa [hr] using hmr
  rw [← h.posted, unreadIds, hu, messageIds, messageIds, filter_map]
  rfl

end Recorded

theorem recorded {start : DateTime} {C : Daemon → Event → Prop} {s : Daemon}
    (h : (daemon start).ReachableWhen C s) : Recorded s.guard.messages s.uuids s.log := by
  refine daemon_invariant ?_ ?_ ?_ ?_ ?_ h
  · have hn : ∀ sid, messages {} sid = [] := fun sid => rfl
    refine ⟨?_, ?_, ?_, ?_, ?_, ?_, ?_, Pairwise.nil⟩
    all_goals simp [hn, messageIds, unreadIds, posts, deliveries, returnedIds]
  · intro s time hs _
    exact hs
  · intro s message ps o hs ho
    refine hs.other (fun sid => rfl) ?_ ?_ ?_
    all_goals
      cases o with
      | panicked | refused error => first | rfl | (intro sid; rfl)
      | performed req rep => exact absurd rfl (ho req rep)
  · intro s message ps req hs _
    exact hs
  · intro s i w u rep guard _ hs _ _ hu hp _
    have he := perform_inbox w.request s.clock u s.guard
    rw [hp] at he
    exact hs.perform hu he

def Reply.messageIds : Reply → List String
  | .ok (.messages ms) => ms.map InboxMessage.messageId
  | _ => []

def afterListings (sid : String) (limits : Nat → UInt64) (guard : AppStateInner) : Nat → AppStateInner
  | 0 => guard
  | n + 1 => (handleInboxList sid true (limits n) (afterListings sid limits guard n)).2

def listingAnswer (sid : String) (limits : Nat → UInt64) (guard : AppStateInner) (n : Nat) : List String :=
  Reply.messageIds (handleInboxList sid true (limits n) (afterListings sid limits guard n)).1

def listingSize (limit : UInt64) : Nat := if 0 < limit then limit.toNat else 2 ^ 64 - 1

theorem listingSize_pos (lim : UInt64) : 0 < listingSize lim := by
  unfold listingSize
  split
  · rename_i hp
    exact hp
  · decide

section Listings

variable {sid : String} {guard : AppStateInner}

theorem listing_spec (hn : (messageIds (guard.messages sid)).Nodup) (lim : UInt64) :
    Reply.messageIds (handleInboxList sid true lim guard).1 =
        (unreadIds (guard.messages sid)).take (listingSize lim) ∧
      unreadIds ((handleInboxList sid true lim guard).2.messages sid) =
        (unreadIds (guard.messages sid)).drop (listingSize lim) ∧
      messageIds ((handleInboxList sid true lim guard).2.messages sid) = messageIds (guard.messages sid) := by
  have he := handleInboxList_effect sid true lim "" guard
  cases he with
  | listed ha hm =>
    have hs := selectedIds_sublist true lim (guard.messages sid)
    rw [filter_selected hs hn, selectedIds_unread] at ha
    rw [hm, if_pos rfl, messageIds_markRead, unreadIds_markRead, selectedIds_unread]
    exact ⟨ha, filter_not_taken (unreadIds_sublist.nodup hn) _, rfl⟩
  | other hp hl hr hm => exact absurd rfl (hl _)

theorem listings_spec (hn : (messageIds (guard.messages sid)).Nodup) (ls : Nat → UInt64)
    (n : Nat) : ∃ t, n ≤ t ∧ (range n).flatMap (listingAnswer sid ls guard) =
        (unreadIds (guard.messages sid)).take t ∧
      unreadIds ((afterListings sid ls guard n).messages sid) = (unreadIds (guard.messages sid)).drop t ∧
      (messageIds ((afterListings sid ls guard n).messages sid)).Nodup := by
  induction n with
  | zero => exact ⟨0, Nat.le_refl 0, by simp, by simp [afterListings], hn⟩
  | succ n ih =>
    obtain ⟨t, hle, hr, hu, hn'⟩ := ih
    obtain ⟨ha, hl, hi⟩ := listing_spec hn' (ls n)
    refine ⟨t + listingSize (ls n), ?_, ?_, ?_, ?_⟩
    · have hp := listingSize_pos (ls n)
      omega
    · have hls : listingAnswer sid ls guard n =
          ((unreadIds (guard.messages sid)).drop t).take (listingSize (ls n)) := by
        rw [← hu]
        exact ha
      rw [range_succ, flatMap_append, hr, flatMap_singleton, hls, ← take_add]
    · rw [hu, drop_drop] at hl
      exact hl
    · exact hi ▸ hn'

end Listings

/-- **Delivery.** The unread listings of a session deliver its messages in the order of the posts and at most once,
and repeated listings come to the point where every message has been returned. -/
theorem inbox_delivery {start : DateTime} {s : Daemon} (h : (daemon start).Reachable s) (session : String) :
    (deliveries s.log session).Sublist (posts s.log session) ∧ (posts s.log session).Nodup ∧
      s.log.Pairwise DeliversNew ∧
      (∀ limit, Reply.messageIds (handleInboxList session true limit s.guard).1 = [] →
        ∀ id ∈ posts s.log session, id ∈ returnedIds s.log) ∧
      ∀ limits : Nat → UInt64, ∃ n, listingAnswer session limits s.guard n = [] ∧
        (List.range n).flatMap (listingAnswer session limits s.guard) =
          (posts s.log session).filter (· ∉ returnedIds s.log) := by
  have hr := recorded h
  have hn := hr.nodup session
  refine ⟨?_, ?_, hr.fresh, ?_, ?_⟩
  · exact (sublist_append_left _ _).trans (hr.ordered session)
  · rw [← hr.posted]
    exact hn
  · intro limit hnt id hid
    have ha := (listing_spec hn limit).1
    rw [hnt, eq_comm, take_eq_nil_iff, hr.unread_eq] at ha
    have hp := listingSize_pos limit
    rcases ha with hz | hno
    · omega
    · by_contra hn1
      have hm : id ∈ (posts s.log session).filter (· ∉ returnedIds s.log) := by
        simpa using ⟨hid, hn1⟩
      rw [hno] at hm
      cases hm
  · intro limits
    obtain ⟨t, hle, hrt, hu, hn'⟩ := listings_spec hn limits (unreadIds (s.guard.messages session)).length
    refine ⟨(unreadIds (s.guard.messages session)).length, ?_, ?_⟩
    · have ha := (listing_spec hn' (limits (unreadIds (s.guard.messages session)).length)).1
      rw [hu, drop_eq_nil_of_le hle, take_nil] at ha
      exact ha
    · rw [hrt, take_of_length_le hle, hr.unread_eq]

def posting (fromSession toSession u : String) : List Event :=
  [.arrive "inbox.post" (.obj [("from_session", .str fromSession), ("to_session", .str toSession)]),
    .perform 0 u]

def listingUnread (sid : String) (limit : Nat) (u : String) : List Event :=
  [.arrive "inbox.list" (.obj [("session_id", .str sid), ("unread_only", .bool true),
      ("limit", .num (.posInt limit))]),
    .perform 0 u]

theorem first_of_two_delivered : ∃ s, (daemon epoch).Reachable s ∧
    posts s.log "sess_a" = ["msg_b", "msg_c"] ∧ deliveries s.log "sess_a" = ["msg_b"] ∧
    s.log.Pairwise DeliversNew ∧
    ∃ n, (List.range n).flatMap (listingAnswer "sess_a" (fun _ => 1) s.guard) =
      (posts s.log "sess_a").filter (· ∉ returnedIds s.log) := by
  obtain ⟨s, hs, hp, hd⟩ : ∃ s, (daemon epoch).Reachable s ∧
      posts s.log "sess_a" = ["msg_b", "msg_c"] ∧ deliveries s.log "sess_a" = ["msg_b"] :=
    Machine.exists_reachable (registering 1 "a" ++ posting "sess_a" "sess_a" "b" ++
      posting "sess_a" "sess_a" "c" ++ listingUnread "sess_a" 1 "d") (by decide +kernel)
  obtain ⟨-, -, hf, -, hr⟩ := inbox_delivery hs "sess_a"
  obtain ⟨n, -, hrt⟩ := hr fun _ => 1
  exact ⟨s, hs, hp, hd, hf, n, hrt⟩

end ShareCli.Teamcomm
