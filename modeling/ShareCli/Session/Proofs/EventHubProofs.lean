import ShareCli.Foundation.TwoWayMap
import ShareCli.Session.EventHub

/-!
# What a subscriber of the broker gets

The broker is understood by the life of one subscription: it is made, chunks are offered to it, its queue is
drained (`Life`). `reachable_life` shows that every subscription of every run is in it, and `Life.rule` is the
induction over it.
-/

namespace ShareCli.Session

open Foundation HubState List Function

def SubscriptionState.fresh (n : Nat) (r : SurfaceSubscribeRequest) : SubscriptionState :=
  { surfaceId := r.surfaceId
    fromSeq := max (saturatingAdd n 1) (r.fromSeq.getD 1)
    maxChunkBytes := r.maxChunkBytes
    queueCapacity := r.queueCapacity
    queue := []
    dropped := 0 }

def offerChunk (sfId : String) (kind : SurfaceEventKind) (timestamp : Option String)
    (subId : Nat) :
    Nat × SubscriptionState × History → List UInt8 → Nat × SubscriptionState × History
  | (n, sub, hist), chunk =>
    let seq := saturatingAdd n 1
    if sub.accepts sfId seq then
      let event := surfaceEvent sfId kind timestamp seq chunk subId
      (seq, enqueue sub event, hist.receive sub event)
    else (seq, sub, hist)

def History.record (hist : History) (sub : SubscriptionState) (sfId : String)
    (kind : SurfaceEventKind) (bytes : List UInt8) : History :=
  if sub.covers sfId then
    { hist with payloads := hist.payloads ++ [(kind, bytes)] }
  else hist

def IsChunking (sub : SubscriptionState) (sfId : String) (bytes : List UInt8)
    (chunks : List (List UInt8)) : Prop :=
  sub.covers sfId = true → chunks.flatten = bytes ∧ ∀ chunk ∈ chunks, chunk.length ≤ sub.maxChunkBytes

inductive Life (subId : Nat) : Nat → SubscriptionState → History → Prop where
  | subscribe (n : Nat) (r : SurfaceSubscribeRequest) (hbytes : 0 < r.maxChunkBytes)
      (hcapacity : 0 < r.queueCapacity) :
      Life subId n (.fresh n r) (.start r)
  | publish {n n' : Nat} {sub sub' : SubscriptionState} {hist hist' : History}
      {sfId : String} {kind : SurfaceEventKind} {bytes : List UInt8} {timestamp : Option String}
      {chunks : List (List UInt8)} (h : Life subId n sub hist)
      (hchunks : IsChunking sub sfId bytes chunks)
      (hfold : chunks.foldl (offerChunk sfId kind timestamp subId) (n, sub, hist.record sub sfId kind bytes) =
          (n', sub', hist')) :
      Life subId n' sub' hist'
  | drain {n : Nat} {sub : SubscriptionState} {hist : History} (count : Nat)
      (h : Life subId n sub hist) :
      Life subId n { sub with queue := sub.queue.drop count }
        { hist with drained := hist.drained ++ sub.queue.take count }

variable {sub : SubscriptionState} {subId n : Nat} {hist : History}

/-- **The rule for one subscription**, for what does not speak of payloads. -/
theorem Life.rule {I : Nat → SubscriptionState → History → Prop}
    (subscribe : ∀ n req, 0 < req.maxChunkBytes → 0 < req.queueCapacity → I n (.fresh n req) (.start req))
    (receive : ∀ n sub hist (event : SurfaceEventParams), I n sub hist →
      sub.covers event.surfaceId = true → sub.fromSeq ≤ event.seq →
      event.seq = saturatingAdd n 1 → event.isMarker = false →
      I event.seq (enqueue sub event) (hist.receive sub event))
    (skip : ∀ n sub hist, I n sub hist → I (saturatingAdd n 1) sub hist)
    (rc : ∀ n sub hist p, I n sub hist → I n sub { hist with payloads := p })
    (drain : ∀ n sub hist cnt, I n sub hist → I n { sub with queue := sub.queue.drop cnt }
        { hist with drained := hist.drained ++ sub.queue.take cnt })
    (h : Life subId n sub hist) : I n sub hist := by
  induction h with
  | subscribe n req hb hc => exact subscribe n req hb hc
  | drain cnt _ ih => exact drain _ _ _ cnt ih
  | @publish n n' sub sub' hist hist' sfId k bs ts c
      hl hch hf ih =>
    have hs : I n sub (hist.record sub sfId k bs) := by
      unfold History.record
      split
      · exact rc _ _ _ _ ih
      · exact ih
    generalize hist.record sub sfId k bs = recorded at hs hf
    clear ih hch hl
    -- the chunks one by one
    induction c generalizing n sub recorded with
    | nil =>
      simp only [foldl_nil, Prod.mk.injEq] at hf
      obtain ⟨rfl, rfl, rfl⟩ := hf
      exact hs
    | cons chunk rs ih =>
      rw [foldl_cons, offerChunk] at hf
      split at hf
      next ha =>
        simp only [SubscriptionState.accepts, Bool.and_eq_true, decide_eq_true_eq] at ha
        let event := surfaceEvent sfId k ts (saturatingAdd n 1) chunk subId
        have hnext := receive n sub recorded event hs ha.1 ha.2 rfl rfl
        exact ih _ hnext hf
      next => exact ih _ (skip _ _ _ hs) hf

section Enqueue

variable (sub : SubscriptionState) (event : SurfaceEventParams)

theorem exists_enqueue_eq : ∃ q dropped, enqueue sub event = { sub with queue := q, dropped } := by
  unfold enqueue
  split_ifs <;> exact ⟨_, _, rfl⟩

@[simp] theorem enqueue_covers : (enqueue sub event).covers = sub.covers := by
  obtain ⟨q, dropped, he⟩ := exists_enqueue_eq sub event
  rw [he]
  rfl

@[simp] theorem enqueue_fromSeq : (enqueue sub event).fromSeq = sub.fromSeq := by
  obtain ⟨q, dropped, he⟩ := exists_enqueue_eq sub event
  rw [he]

@[simp] theorem enqueue_maxChunkBytes : (enqueue sub event).maxChunkBytes = sub.maxChunkBytes := by
  obtain ⟨q, dropped, he⟩ := exists_enqueue_eq sub event
  rw [he]

@[simp] theorem enqueue_queueCapacity : (enqueue sub event).queueCapacity = sub.queueCapacity := by
  obtain ⟨q, dropped, he⟩ := exists_enqueue_eq sub event
  rw [he]

variable {sub}

theorem length_eq_of_isFull (hf : sub.isFull = true) (hl : sub.queue.length ≤ sub.queueCapacity) :
    sub.queue.length = sub.queueCapacity := by
  simp only [SubscriptionState.isFull, Bool.not_eq_true', decide_eq_false_iff_not] at hf
  omega

/-- There is room; or the one place is taken by the marker; or the two oldest events make room for the marker and
the event. -/
theorem enqueue_queue (hl : sub.queue.length ≤ sub.queueCapacity) (hc : 0 < sub.queueCapacity) :
    let mk := droppedMarker event (saturatingAdd sub.dropped 1)
    (sub.isFull = false ∧ (enqueue sub event).queue = sub.queue ++ [event]) ∨
      (sub.isFull = true ∧ sub.queueCapacity = 1 ∧ (enqueue sub event).queue = [mk]) ∨
      (sub.isFull = true ∧ 2 ≤ sub.queueCapacity ∧
        (enqueue sub event).queue = sub.queue.drop 2 ++ [mk, event]) := by
  intro mk
  cases hf : sub.isFull with
  | false =>
    left
    simp [enqueue, hf]
  | true =>
    right
    have hl := length_eq_of_isFull hf hl
    by_cases ho : sub.queueCapacity = 1
    · left
      simp [enqueue, hf, ho, mk]
    · right
      have hr : sub.queue.tail.length + 2 > sub.queueCapacity := by
        rw [length_tail]
        omega
      refine ⟨rfl, by omega, ?_⟩
      simp only [enqueue, hf, if_true, ho, if_false, hr, mk]
      rw [← drop_one, ← drop_one, drop_drop]

end Enqueue

theorem lookup_mapSubscriptions (hub : HubState) (f : Nat → SubscriptionState → SubscriptionState)
    (subId : Nat) :
    (hub.mapSubscriptions f).subscriptions.lookup subId = (hub.subscriptions.lookup subId).map (f subId) :=
  dlookup_map₂ subId

theorem foldl_publishChunk_hub (sfId : String) (k : SurfaceEventKind) (ts : Option String)
    (c : List (List UInt8)) (run : HubRun) :
    (c.foldl (HubRun.publishChunk sfId k ts) run).hub =
      c.foldl (publishChunk sfId k ts) run.hub :=
  (foldl_hom HubRun.hub fun _ _ => rfl).symm

variable {sfId : String} {subId n : Nat} {hub : HubState} {sub : SubscriptionState}
  {hist : History} {event : SurfaceEventParams}

theorem foldl_publishChunk_lookup {k : SurfaceEventKind} {ts : Option String}
    {sub' : SubscriptionState} (c : List (List UInt8)) (run run' : HubRun)
    (hr : c.foldl (HubRun.publishChunk sfId k ts) run = run')
    (hl : run'.hub.subscriptions.lookup subId = some sub') :
    ∃ sub, run.hub.subscriptions.lookup subId = some sub ∧ c.foldl (offerChunk sfId k ts subId)
        (run.hub.nextSeq, sub, run.history subId) = (run'.hub.nextSeq, sub', run'.history subId) := by
  induction c generalizing run with
  | nil =>
    obtain rfl : run = run' := hr
    exact ⟨sub', hl, rfl⟩
  | cons chunk rs ih =>
    obtain ⟨next, hnext, hf⟩ := ih (run.publishChunk sfId k ts chunk) hr
    simp only [HubRun.publishChunk, publishChunk, lookup_mapSubscriptions,
      Option.map_eq_some_iff] at hnext
    obtain ⟨sub, hb, hs⟩ := hnext
    refine ⟨sub, hb, ?_⟩
    rw [foldl_cons, ← hf]
    congr 1
    simp only [offerChunk, HubRun.publishChunk, hb]
    split_ifs at hs ⊢ <;> rw [hs] <;> rfl

theorem chunkLimit_le (hl : hub.subscriptions.lookup subId = some sub) (hc : sub.covers sfId = true) :
    hub.chunkLimit sfId ≤ sub.maxChunkBytes := by
  have hm : sub.maxChunkBytes ∈ (hub.subscriptions.entries.filter fun e => e.2.covers sfId).map
        fun e => e.2.maxChunkBytes := by
    rw [mem_map]
    exact ⟨⟨subId, sub⟩, mem_filter.mpr ⟨AList.mem_lookup_iff.mp hl, hc⟩, rfl⟩
  exact min?_getD_le_of_mem hm

section Chunks

variable (hpos : ∀ subId sub, hub.subscriptions.lookup subId = some sub → 0 < sub.maxChunkBytes)

include hpos

theorem chunkLimit_pos (sfId : String) : 0 < hub.chunkLimit sfId := by
  unfold chunkLimit
  cases hmin : ((hub.subscriptions.entries.filter fun e => e.2.covers sfId).map
      fun e => e.2.maxChunkBytes).min? with
  | none => exact Nat.zero_lt_of_ne_zero (by simp [maxEventChunkBytes])
  | some lim =>
    obtain ⟨e, he, rfl⟩ := mem_map.mp (min?_mem hmin)
    exact hpos e.1 e.2 (AList.mem_lookup_iff.mpr (mem_filter.mp he).1)

theorem isChunking_chunks (hl : hub.subscriptions.lookup subId = some sub) (bs : List UInt8) :
    IsChunking sub sfId bs (hub.chunks sfId bs) := by
  intro hc
  unfold chunks
  split
  next he => simp [isEmpty_iff.mp he]
  next =>
    refine ⟨flatten_chunksOf (chunkLimit_pos hpos sfId) bs, ?_⟩
    intro chunk hch
    exact Nat.le_trans (length_le_of_mem_chunksOf hch) (chunkLimit_le hl hc)

end Chunks

theorem Life.maxChunkBytes_pos (h : Life subId n sub hist) : 0 < sub.maxChunkBytes := by
  refine Life.rule (I := fun _ sub _ => 0 < sub.maxChunkBytes) ?_ ?_ ?_ ?_ ?_ h
  · intro n req hb _
    exact hb
  · intro n sub hist event hpos _ _ _ _
    rw [enqueue_maxChunkBytes]
    exact hpos
  · exact fun _ _ _ hpos => hpos
  · exact fun _ _ _ _ hpos => hpos
  · exact fun _ _ _ _ hpos => hpos

def Alive (run : HubRun) : Prop :=
  ∀ subId sub, run.hub.subscriptions.lookup subId = some sub →
    Life subId run.hub.nextSeq sub (run.history subId)

theorem Alive.insert {run : HubRun} (ha : Alive run) (hs : hub.nextSeq = run.hub.nextSeq)
    (hi : hub.subscriptions = run.hub.subscriptions.insert subId sub)
    (hl : Life subId run.hub.nextSeq sub hist) :
    Alive { hub, history := update run.history subId hist } := by
  intro o sub' hlk
  show Life o hub.nextSeq sub' (update run.history subId hist o)
  rw [hi] at hlk
  rw [hs]
  rcases lookup_insert_eq_some_iff.mp hlk with ⟨rfl, rfl⟩ | ⟨ho, hlk⟩
  · rw [update_self]
    exact hl
  · rw [update_of_ne ho]
    exact ha o sub' hlk

theorem reachable_alive {run : HubRun} (h : hubMachine.Reachable run) : Alive run := by
  refine Machine.invariant (M := hubMachine) ?_ ?_ h
  · intro subId sub hl
    cases hl
  intro run l run' ha hstep
  cases l with
  | subscribe req =>
    simp only [hubMachine] at hstep
    split at hstep
    next =>
      cases hstep
      exact ha
    next ack hub hs =>
      cases hstep
      unfold subscribe at hs
      split_ifs at hs with hb hc
      cases hs
      exact ha.insert rfl rfl (.subscribe _ req (by omega) (by omega))
  | unsubscribe subId =>
    cases hstep
    intro o sub hl
    exact ha o sub (lookup_erase_eq_some_iff.mp hl).2
  | publish sfId k bs ts =>
    cases hstep
    intro o sub' hl
    obtain ⟨sub, hbf, hf⟩ := foldl_publishChunk_lookup (run.hub.chunks sfId bs)
      { run with history := run.recordPayload sfId k bs } _ rfl
      (by rw [foldl_publishChunk_hub]; exact hl)
    have hr : run.recordPayload sfId k bs o = (run.history o).record sub sfId k bs := by
      simp only [HubRun.recordPayload, hbf, History.record]
    dsimp only at hf
    rw [hr, foldl_publishChunk_hub] at hf
    exact .publish (ha o sub hbf) (isChunking_chunks (fun _ _ h => (ha _ _ h).maxChunkBytes_pos) hbf bs) hf
  | drain subId message =>
    simp only [hubMachine] at hstep
    split at hstep
    next =>
      cases hstep
      exact ha
    next evs hub hd =>
      cases hstep
      unfold drain at hd
      split at hd <;> cases hd
      next dr hbf => exact ha.insert rfl rfl (.drain _ (ha subId dr hbf))

/-- Two events of a stream: numbers do not decrease, and real events have different ones. -/
def InOrder (event event' : SurfaceEventParams) : Prop :=
  event.seq ≤ event'.seq ∧ (event.isMarker = false → event'.isMarker = false → event.seq < event'.seq)

structure Bounded (n : Nat) (sub : SubscriptionState) (hist : History) : Prop where
  capacity : 0 < sub.queueCapacity
  length : sub.queue.length ≤ sub.queueCapacity
  covers : ∀ event ∈ sub.queue, sub.covers event.surfaceId = true
  numbers : n < 2 ^ 64 - 1 → (∀ event ∈ sub.queue, sub.fromSeq ≤ event.seq) ∧
    (∀ event ∈ hist.drained ++ sub.queue, event.seq ≤ n) ∧
    (hist.drained ++ sub.queue).Pairwise InOrder

section Room

variable (hl : sub.queue.length ≤ sub.queueCapacity) (hc : 0 < sub.queueCapacity)

include hl hc

theorem mem_enqueue {ev' : SurfaceEventParams} (hme : ev' ∈ (enqueue sub event).queue) :
    ev' ∈ sub.queue ∨ ev' = event ∨ sub.isFull = true ∧
      ev' = droppedMarker event (saturatingAdd sub.dropped 1) := by
  rcases enqueue_queue event hl hc with ⟨-, hq⟩ | ⟨hf, -, hq⟩ | ⟨hf, -, hq⟩
  · rw [hq, mem_append, mem_singleton] at hme
    exact hme.imp_right .inl
  · rw [hq, mem_singleton] at hme
    exact .inr (.inr ⟨hf, hme⟩)
  · rw [hq, mem_append, mem_pair] at hme
    rcases hme with hold | hm | hn
    · exact .inl (mem_of_mem_drop hold)
    · exact .inr (.inr ⟨hf, hm⟩)
    · exact .inr (.inl hn)

theorem enqueue_sublist (event : SurfaceEventParams) : (enqueue sub event).queue.Sublist
      (sub.queue ++ [droppedMarker event (saturatingAdd sub.dropped 1), event]) := by
  rcases enqueue_queue event hl hc with ⟨-, hq⟩ | ⟨-, -, hq⟩ | ⟨-, -, hq⟩ <;> rw [hq]
  · exact (Sublist.refl _).append (sublist_cons_self _ _)
  · exact (nil_sublist _).append (cons_sublist_cons.mpr (nil_sublist _))
  · exact (drop_sublist _ _).append (Sublist.refl _)

theorem length_enqueue_le (event : SurfaceEventParams) :
    (enqueue sub event).queue.length ≤ sub.queueCapacity := by
  rcases enqueue_queue event hl hc with ⟨hr, hq⟩ | ⟨-, -, hq⟩ | ⟨-, ht, hq⟩
  · simp only [SubscriptionState.isFull, Bool.not_eq_false', decide_eq_true_eq] at hr
    rw [hq, length_append, length_singleton]
    omega
  · rw [hq, length_singleton]
    omega
  · rw [hq, length_append, length_drop, length_cons, length_singleton]
    omega

end Room

theorem isMarker_droppedMarker (event : SurfaceEventParams) (dropped : Nat) :
    (droppedMarker event dropped).isMarker = true := by
  simp [droppedMarker, SurfaceEventParams.isMarker]

theorem Bounded.receive (h : Bounded n sub hist)
    (hc : sub.covers event.surfaceId = true) (hf : sub.fromSeq ≤ event.seq)
    (hs : event.seq = saturatingAdd n 1) :
    Bounded event.seq (enqueue sub event) (hist.receive sub event) := by
  refine ⟨?_, ?_, ?_, ?_⟩
  · rw [enqueue_queueCapacity]
    exact h.capacity
  · rw [enqueue_queueCapacity]
    exact length_enqueue_le h.length h.capacity event
  · intro ev' hme
    rw [enqueue_covers]
    rcases mem_enqueue h.length h.capacity hme with hold | rfl | ⟨-, rfl⟩
    · exact h.covers ev' hold
    · exact hc
    · exact hc
  · intro hb
    have hnext : event.seq = n + 1 := by
      unfold saturatingAdd at hs
      omega
    obtain ⟨hfr, hle, hp⟩ := h.numbers (by omega)
    refine ⟨?_, ?_, ?_⟩
    · intro ev' hme
      rw [enqueue_fromSeq]
      rcases mem_enqueue h.length h.capacity hme with hold | rfl | ⟨hfl, rfl⟩
      · exact hfr ev' hold
      · exact hf
      · -- a full queue holds an event, which is not older than the subscription
        have hpos : 0 < sub.queue.length := by
          rw [length_eq_of_isFull hfl h.length]
          exact h.capacity
        obtain ⟨first, hfs⟩ := exists_mem_of_length_pos hpos
        have hge := hfr first hfs
        have hl := hle first (mem_append_right _ hfs)
        show sub.fromSeq ≤ event.seq - 1
        omega
    · intro ev' hme
      rcases mem_append.mp hme with hd | hme
      · exact Nat.le_trans (hle ev' (mem_append_left _ hd)) (by omega)
      · rcases mem_enqueue h.length h.capacity hme with hold | rfl | ⟨-, rfl⟩
        · exact Nat.le_trans (hle ev' (mem_append_right _ hold)) (by omega)
        · exact Nat.le_refl _
        · show event.seq - 1 ≤ event.seq
          omega
    · have hw : (hist.drained ++ (sub.queue ++
          [droppedMarker event (saturatingAdd sub.dropped 1), event])).Pairwise InOrder := by
        rw [← append_assoc, pairwise_append]
        refine ⟨hp, ?_, ?_⟩
        · rw [pairwise_pair]
          exact ⟨Nat.sub_le _ _, fun hm => absurd hm (by simp [isMarker_droppedMarker])⟩
        · intro old hold new hn
          have hold := hle old hold
          rcases mem_pair.mp hn with rfl | rfl
          · refine ⟨?_, fun _ hm => absurd hm (by simp [isMarker_droppedMarker])⟩
            show old.seq ≤ event.seq - 1
            omega
          · exact ⟨by omega, fun _ _ => by omega⟩
      exact hw.sublist ((Sublist.refl _).append (enqueue_sublist h.length h.capacity event))

theorem Bounded.fresh (n : Nat) {req : SurfaceSubscribeRequest}
    (hc : 0 < req.queueCapacity) : Bounded n (.fresh n req) (.start req) :=
  ⟨hc, Nat.zero_le _, by simp [SubscriptionState.fresh],
    by simp [SubscriptionState.fresh, History.start]⟩

theorem Bounded.skip (h : Bounded n sub hist) : Bounded (saturatingAdd n 1) sub hist := by
  refine ⟨h.capacity, h.length, h.covers, ?_⟩
  intro hb
  have hle : n ≤ saturatingAdd n 1 ∨ 2 ^ 64 - 1 ≤ saturatingAdd n 1 := by
    unfold saturatingAdd
    omega
  obtain ⟨hfr, hn, hp⟩ := h.numbers (by omega)
  exact ⟨hfr, fun event hm => Nat.le_trans (hn event hm) (by omega), hp⟩

theorem Bounded.drain (cnt : Nat) (h : Bounded n sub hist) :
    Bounded n { sub with queue := sub.queue.drop cnt }
      { hist with drained := hist.drained ++ sub.queue.take cnt } := by
  refine ⟨h.capacity, ?_, ?_, ?_⟩
  · show (sub.queue.drop cnt).length ≤ sub.queueCapacity
    rw [length_drop]
    exact Nat.le_trans (Nat.sub_le _ _) h.length
  · exact fun event hm => h.covers event (mem_of_mem_drop hm)
  · intro hb
    obtain ⟨hfr, hn, hp⟩ := h.numbers hb
    refine ⟨fun event hm => hfr event (mem_of_mem_drop hm), ?_, ?_⟩
    · simpa using hn
    · simpa using hp

theorem Life.rule_of_bounded {I : SubscriptionState → History → Prop}
    (subscribe : ∀ n req, I (.fresh n req) (.start req))
    (receive : ∀ n sub hist (event : SurfaceEventParams),
      Bounded n sub hist → I sub hist → event.isMarker = false →
      I (enqueue sub event) (hist.receive sub event))
    (rc : ∀ sub hist p, I sub hist → I sub { hist with payloads := p })
    (drain : ∀ sub hist cnt, I sub hist → I { sub with queue := sub.queue.drop cnt }
        { hist with drained := hist.drained ++ sub.queue.take cnt })
    (h : Life subId n sub hist) :
    Bounded n sub hist ∧ I sub hist := by
  refine Life.rule (I := fun n sub hist =>
    Bounded n sub hist ∧ I sub hist) ?_ ?_ ?_ ?_ ?_ h
  · intro n req _ hc
    exact ⟨Bounded.fresh n hc, subscribe n req⟩
  · rintro n sub hist event ⟨hb, h⟩ hcv hf hs hr
    exact ⟨hb.receive hcv hf hs, receive n sub hist event hb h hr⟩
  · rintro n sub hist ⟨hb, h⟩
    exact ⟨hb.skip, h⟩
  · rintro n sub hist p ⟨hb, h⟩
    exact ⟨⟨hb.capacity, hb.length, hb.covers, hb.numbers⟩, rc sub hist p h⟩
  · rintro n sub hist cnt ⟨hb, h⟩
    exact ⟨hb.drain cnt, drain sub hist cnt h⟩

theorem Life.bounded (h : Life subId n sub hist) : Bounded n sub hist :=
  (Life.rule_of_bounded (I := fun _ _ => True) (fun _ _ => trivial) (fun _ _ _ _ _ _ _ => trivial)
    (fun _ _ _ _ => trivial) (fun _ _ _ _ => trivial) h).1

def RealSeqsIncrease (stream : List SurfaceEventParams) : Prop :=
  (stream.filter fun event => !event.isMarker).Pairwise fun event event' => event.seq < event'.seq
deriving Decidable

/-- **Bounds and order.** As long as the broker has numbered fewer than `2 ^ 64 - 1` events, the numbers of a drained
stream never decrease and those of its real events increase. -/
theorem hub_bounds_and_order {run : HubRun} {subscriptionId : Nat} {subscription : SubscriptionState}
    (hreach : hubMachine.Reachable run)
    (hlookup : run.hub.subscriptions.lookup subscriptionId = some subscription) :
    subscription.queue.length ≤ subscription.queueCapacity ∧
      (∀ event ∈ subscription.queue, subscription.covers event.surfaceId = true) ∧
      (run.hub.nextSeq < 2 ^ 64 - 1 → (∀ event ∈ subscription.queue, subscription.fromSeq ≤ event.seq) ∧
        (run.history subscriptionId).drained.Pairwise (fun event event' => event.seq ≤ event'.seq) ∧
        RealSeqsIncrease (run.history subscriptionId).drained) := by
  have hb := (reachable_alive hreach subscriptionId subscription hlookup).bounded
  refine ⟨hb.length, hb.covers, ?_⟩
  intro hbl
  obtain ⟨hfr, -, hp⟩ := hb.numbers hbl
  have hd := (pairwise_append.mp hp).1
  refine ⟨hfr, hd.imp And.left, (hd.filter _).imp_of_mem ?_⟩
  intro event event' hm hm' ho
  have hr := (mem_filter.mp hm).2
  have hr' := (mem_filter.mp hm').2
  exact ho.2 (by simpa using hr) (by simpa using hr')

def subscribeTo (surfaceId : Option String) (capacity : Nat) : HubLabel :=
  .subscribe { surfaceId, fromSeq := none, maxChunkBytes := 2, queueCapacity := capacity }

def publishByte (byte : UInt8) : HubLabel := .publish "s1" .output [byte] none

/-- The markers of a queue that overflows twice, among events of both surfaces. -/
theorem hub_bounds_and_order_overflow : ∃ run subscription, hubMachine.Reachable run ∧
      run.hub.subscriptions.lookup 1 = some subscription ∧ (run.history 1).drained.length = 5 ∧
      run.hub.nextSeq < 2 ^ 64 - 1 ∧ subscription.queue.length ≤ subscription.queueCapacity ∧
      RealSeqsIncrease (run.history 1).drained := by
  obtain ⟨run, hr, ⟨subscription, hl, hd⟩, hb⟩ : ∃ run, hubMachine.Reachable run ∧
      (∃ subscription ∈ run.hub.subscriptions.lookup 1, (run.history 1).drained.length = 5) ∧
      run.hub.nextSeq < 2 ^ 64 - 1 :=
    Machine.exists_reachable
      [subscribeTo none 3, .publish "s2" .output [1, 2, 3] none, .drain 1 1, publishByte 4, publishByte 5,
        publishByte 6, .drain 1 1, publishByte 7, publishByte 8, .drain 1 9] (by decide +kernel)
  obtain ⟨hln, -, hn⟩ := hub_bounds_and_order hr hl
  obtain ⟨-, -, hi⟩ := hn hb
  exact ⟨run, subscription, hr, hl, hd, hb, hln, hi⟩

/-- Publications without a subscriber bring the event number to any value. -/
theorem reachable_nextSeq (hn : n ≤ 2 ^ 64 - 1) :
    hubMachine.Reachable { hubMachine.init with hub := { new with nextSeq := n } } := by
  induction n with
  | zero => exact .init
  | succ n ih =>
    have hs : saturatingAdd n 1 = n + 1 := by
      unfold saturatingAdd
      omega
    refine (ih (by omega)).step (l := .publish "s1" .exit [] none) trivial ?_
    rw [← hs]
    rfl

/-- The number of the last event is used again and again once it is `2 ^ 64 - 1`. -/
theorem hub_order_repeats_last_number : ∃ run subscription, hubMachine.Reachable run ∧
      run.hub.subscriptions.lookup 1 = some subscription ∧
      ¬ RealSeqsIncrease (run.history 1).drained := by
  obtain ⟨run, hrn, hs, hr⟩ :
      ∃ run, hubMachine.run { hubMachine.init with hub := { new with nextSeq := 2 ^ 64 - 1 } }
          [subscribeTo none 2, publishByte 1, publishByte 2, .drain 1 2] = some run ∧
        (run.hub.subscriptions.lookup 1).isSome ∧ ¬ RealSeqsIncrease (run.history 1).drained :=
    Machine.exists_run (by decide +kernel)
  obtain ⟨subscription, hl⟩ := Option.isSome_iff_exists.mp hs
  exact ⟨run, subscription, (reachable_nextSeq (Nat.le_refl _)).of_run hrn, hl, hr⟩

end ShareCli.Session
