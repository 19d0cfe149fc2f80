import ShareCli.Foundation.LossyStream
import ShareCli.Session.Proofs.EventHubProofs

/-!
# The stream of a subscriber against what was published

How many events there are and how many the markers report, where the markers stand, and what the bytes are.
-/

namespace ShareCli.Session

open Foundation SurfaceEventParams SubscriptionState List

/-- Until the queue first overflows, every event is drained or queued, and there is no marker. -/
def Lossless (sub : SubscriptionState) (hist : History) : Prop :=
  hist.overflows = [] → hist.drained ++ sub.queue = hist.sent ∧ ∀ event ∈ hist.sent, event.isMarker = false

variable {sub : SubscriptionState} {evs : List SurfaceEventParams} {hist hist' : History}

variable {event : SurfaceEventParams}

theorem Lossless.receive (h : Lossless sub hist) (hr : event.isMarker = false) :
    Lossless (enqueue sub event) (hist.receive sub event) := by
  intro hrm
  obtain ⟨hb, hn⟩ := append_eq_nil_iff.mp hrm
  have hf : sub.isFull = false := by
    cases hf : sub.isFull with
    | false => rfl
    | true => simp [hf] at hn
  obtain ⟨hs, hrl⟩ := h hb
  refine ⟨?_, ?_⟩
  · simp [enqueue, hf, History.receive, ← hs]
  · intro ev' hm
    rcases mem_append.mp hm with hold | hnw
    · exact hrl ev' hold
    · rw [mem_singleton.mp hnw]
      exact hr

variable {subId n n' : Nat}

theorem Life.lossless (h : Life subId n sub hist) : Lossless sub hist := by
  refine (Life.rule_of_bounded ?_ ?_ ?_ ?_ h).2
  · intro n req _
    exact ⟨rfl, by simp [History.start]⟩
  · intro n sub hist event _ h hr
    exact h.receive hr
  · exact fun _ _ _ h => h
  · intro sub hist cnt h hrm
    obtain ⟨hs, hrl⟩ := h hrm
    refine ⟨?_, hrl⟩
    simpa using hs

def realEvents (evs : List SurfaceEventParams) : Nat := evs.countP fun event => !event.isMarker

def reportedDrops (evs : List SurfaceEventParams) : Nat := (evs.map fun event => event.dropped.getD 0).sum

theorem realEvents_eq_length (h : ∀ event ∈ evs, event.isMarker = false) : realEvents evs = evs.length := by
  refine countP_eq_length.mpr ?_
  intro event hm
  rw [h event hm]
  rfl

theorem reportedDrops_eq_zero (h : ∀ event ∈ evs, event.isMarker = false) : reportedDrops evs = 0 := by
  induction evs with
  | nil => rfl
  | cons event rs ih =>
    rw [forall_mem_cons] at h
    have hn : event.dropped = none := by simpa [isMarker] using h.1
    have hrest : (rs.map fun event => event.dropped.getD 0).sum = 0 := ih h.2
    simp [reportedDrops, hn, hrest]

/-- **Drop accounting**, for a subscription whose queue has never overflowed. -/
theorem drop_accounting {run : HubRun} {subscriptionId : Nat} {subscription : SubscriptionState}
    (hreach : hubMachine.Reachable run)
    (hlookup : run.hub.subscriptions.lookup subscriptionId = some subscription)
    (hroom : (run.history subscriptionId).overflows = []) :
    realEvents (run.history subscriptionId).drained + realEvents subscription.queue +
        reportedDrops ((run.history subscriptionId).drained ++ subscription.queue) =
      (run.history subscriptionId).sent.length := by
  have hl := reachable_alive hreach subscriptionId subscription hlookup
  obtain ⟨hs, hrl⟩ := hl.lossless hroom
  have hsm : realEvents (run.history subscriptionId).drained + realEvents subscription.queue =
      realEvents ((run.history subscriptionId).drained ++ subscription.queue) :=
    countP_append.symm
  rw [hsm, hs, realEvents_eq_length hrl, reportedDrops_eq_zero hrl, Nat.add_zero]

theorem drop_accounting_full_queue : ∃ run subscription, hubMachine.Reachable run ∧
      run.hub.subscriptions.lookup 1 = some subscription ∧ (run.history 1).sent.length = 3 ∧
      realEvents (run.history 1).drained + realEvents subscription.queue +
        reportedDrops ((run.history 1).drained ++ subscription.queue) = (run.history 1).sent.length := by
  obtain ⟨run, hr, ⟨subscription, hl, hs⟩, hrm⟩ : ∃ run, hubMachine.Reachable run ∧
      (∃ subscription ∈ run.hub.subscriptions.lookup (1 : Nat), (run.history 1).sent.length = 3) ∧
      (run.history 1).overflows.isEmpty = true :=
    Machine.exists_reachable
      [subscribeTo (some "s1") 2, publishByte 1, publishByte 2, .drain 1 1, publishByte 3] (by decide +kernel)
  exact ⟨run, subscription, hr, hl, hs, drop_accounting hr hl (isEmpty_iff.mp hrm)⟩

/-- A queue for two events gets three: two are removed, the marker says one. -/
theorem drop_accounting_misses_event : ∃ run subscription, hubMachine.Reachable run ∧
      run.hub.subscriptions.lookup 1 = some subscription ∧
      realEvents (run.history 1).drained + realEvents subscription.queue +
        reportedDrops ((run.history 1).drained ++ subscription.queue) ≠ (run.history 1).sent.length := by
  obtain ⟨run, hr, subscription, hl, hc⟩ : ∃ run, hubMachine.Reachable run ∧
      ∃ subscription ∈ run.hub.subscriptions.lookup (1 : Nat),
        realEvents (run.history 1).drained + realEvents subscription.queue +
          reportedDrops ((run.history 1).drained ++ subscription.queue) ≠ (run.history 1).sent.length :=
    Machine.exists_reachable [subscribeTo (some "s1") 2, publishByte 1, publishByte 2, publishByte 3]
      (by decide +kernel)
  exact ⟨run, subscription, hr, hl, hc⟩

/-- The queue is then empty but for the new marker, or nothing or a marker was drained last, or a marker comes next
in the queue. -/
def Overflow.announced (capacity : Nat) (overflow : Overflow) : Bool :=
  decide (capacity ≤ 2) || overflow.drained.getLast?.all isMarker ||
    overflow.queue[2]?.any isMarker

def Traced (sub : SubscriptionState) (hist : History) : Prop :=
  (∀ overflow ∈ hist.overflows, overflow.announced sub.queueCapacity = true) →
    ∃ s u announced a', hist.sent = s ++ u ∧ LossyPath isMarker true s hist.drained announced ∧
      LossyPath isMarker announced u sub.queue a'

section Gaps

variable {announced a' : Bool} {s u drained queue : List SurfaceEventParams}
  {event mk : SurfaceEventParams}

theorem announced_of_getLast? (h : LossyPath isMarker true s drained announced)
    (hl : drained.getLast?.all isMarker = true) : announced = true := by
  rcases eq_nil_or_concat drained with rfl | ⟨before, last, rfl⟩
  · exact h.announced_of_nil
  · rw [concat_eq_append] at h hl
    rw [getLast?_append_of_ne_nil _ (by simp)] at hl
    exact h.announced_of_mark (by simpa using hl)

theorem lossyPath_overflow {cap : Nat} (hl : queue.length = cap) (htw : 2 ≤ cap)
    (ho : Overflow.announced cap ⟨drained, queue⟩ = true)
    (hm : mk.isMarker = true) (hr : event.isMarker = false)
    (hd : LossyPath isMarker true s drained announced)
    (hq : LossyPath isMarker announced u queue a') :
    LossyPath isMarker announced (u ++ [event])
      (queue.drop 2 ++ [mk, event]) false := by
  have hls : ∀ b, LossyPath isMarker b [event] [mk, event] false :=
    fun b => .mark hm (.deliver hr (.nil false))
  match queue, hl with
  | [], hl | [_], hl => simp at hl; omega
  | first :: second :: rs, hl =>
    obtain ⟨b₁, ht⟩ := hq.tail
    obtain ⟨b₂, hrest⟩ := ht.tail
    simp only [Overflow.announced, Bool.or_eq_true, decide_eq_true_eq] at ho
    rcases ho with (hs | hdl) | hth
    · -- nothing is left of the queue: the new marker announces all of it
      have hn : rs = [] := by
        rw [← length_eq_zero_iff]
        simp only [length_cons] at hl
        omega
      subst hn
      exact .mark hm ((LossyPath.lose_all u).append (.deliver hr (.nil false)))
    · obtain rfl := announced_of_getLast? hd hdl
      exact hrest.append (hls b₂)
    · match rs with
      | [] => simp at hth
      | third :: rs =>
        obtain ⟨b₃, ha⟩ := hrest.tail
        have hth : third.isMarker = true := by simpa using hth
        exact (LossyPath.mark hth ha).append (hls b₃)

end Gaps

variable {n subId n' : Nat} {sub sub' : SubscriptionState}
  {hist hist' : History} {sid : String} {kind : SurfaceEventKind} {ts : Option String}
  {chunks : List (List UInt8)}

theorem Traced.receive (h : Traced sub hist) (hb : Bounded n sub hist) (hr : event.isMarker = false) :
    Traced (enqueue sub event) (hist.receive sub event) := by
  intro ha
  rw [enqueue_queueCapacity] at ha
  obtain ⟨s, u, b, b', hs, hd, hq⟩ := h fun overflow hme =>
    ha overflow (mem_append_left _ hme)
  have hm : (droppedMarker event (saturatingAdd sub.dropped 1)).isMarker = true := rfl
  have hs' : (hist.receive sub event).sent = s ++ (u ++ [event]) := by
    rw [← append_assoc, ← hs]
    rfl
  rcases enqueue_queue event hb.length hb.capacity with
    ⟨-, hnext⟩ | ⟨-, -, hnext⟩ | ⟨hf, htw, hnext⟩
  · refine ⟨s, u ++ [event], b, false, hs', hd, ?_⟩
    rw [hnext]
    exact hq.append (.deliver hr (.nil false))
  · refine ⟨s, u ++ [event], b, true, hs', hd, ?_⟩
    rw [hnext]
    exact .mark hm (LossyPath.lose_all _)
  · have ho := ha ⟨hist.drained, sub.queue⟩
      (mem_append_right _ (by simp [hf]))
    refine ⟨s, u ++ [event], b, false, hs', hd, ?_⟩
    rw [hnext]
    exact lossyPath_overflow (length_eq_of_isFull hf hb.length) htw ho hm hr hd hq

theorem Life.traced (h : Life subId n sub hist) : Traced sub hist := by
  refine (Life.rule_of_bounded ?_ ?_ ?_ ?_ h).2
  · intro n req _
    exact ⟨[], [], true, true, rfl, .nil true, .nil true⟩
  · intro n sub hist event hb h hr
    exact h.receive hb hr
  · exact fun _ _ _ h => h
  · intro sub hist cnt h ha
    obtain ⟨s, u, b, b', hs, hd, hq⟩ := h ha
    rw [← take_append_drop cnt sub.queue] at hq
    obtain ⟨u₁, unseen₂, c, rfl, ht, hl⟩ := hq.split
    refine ⟨s ++ u₁, unseen₂, c, b', ?_, hd.append ht, hl⟩
    rw [append_assoc]
    exact hs

/-- **Gap announcement**, for a subscription whose overflows were all announced. -/
theorem gap_announcement {run : HubRun} {subscriptionId : Nat} {subscription : SubscriptionState}
    (hreach : hubMachine.Reachable run)
    (hlookup : run.hub.subscriptions.lookup subscriptionId = some subscription)
    (hannounced : ∀ overflow ∈ (run.history subscriptionId).overflows,
      overflow.announced subscription.queueCapacity = true) :
    AnnouncesLosses SurfaceEventParams.isMarker (run.history subscriptionId).sent
      (run.history subscriptionId).drained := by
  have hl := reachable_alive hreach subscriptionId subscription hlookup
  obtain ⟨s, u, b, -, hs, hd, -⟩ := hl.traced hannounced
  exact ⟨s, u, b, hs, hd⟩

theorem gap_announcement_overflow : ∃ run subscription, hubMachine.Reachable run ∧
      run.hub.subscriptions.lookup 1 = some subscription ∧ (run.history 1).overflows.length = 2 ∧
      AnnouncesLosses SurfaceEventParams.isMarker (run.history 1).sent (run.history 1).drained := by
  obtain ⟨run, hr, subscription, hl, hln, ha⟩ : ∃ run, hubMachine.Reachable run ∧
      ∃ subscription ∈ run.hub.subscriptions.lookup (1 : Nat), (run.history 1).overflows.length = 2 ∧
        ∀ overflow ∈ (run.history 1).overflows, overflow.announced subscription.queueCapacity = true :=
    Machine.exists_reachable
      [subscribeTo (some "s1") 5, .publish "s1" .output [0, 1, 2, 3, 4, 5, 6, 7, 8, 9, 10, 11] none,
        .drain 1 1, publishByte 12, publishByte 13, .drain 1 9] (by decide +kernel)
  exact ⟨run, subscription, hr, hl, hln, gap_announcement hr hl ha⟩

/-- The marker stands behind the next event the reader gets, not before it. -/
theorem gap_announcement_marker_late : ∃ run subscription, hubMachine.Reachable run ∧
      run.hub.subscriptions.lookup 1 = some subscription ∧
      ¬ AnnouncesLosses SurfaceEventParams.isMarker (run.history 1).sent (run.history 1).drained := by
  obtain ⟨run, hr, ⟨subscription, hl, hln⟩, hp, hn⟩ : ∃ run, hubMachine.Reachable run ∧
      (∃ subscription ∈ run.hub.subscriptions.lookup (1 : Nat), ((run.history 1).drained.take 2).length = 2) ∧
      (∀ event ∈ (run.history 1).drained.take 2, event.isMarker = false) ∧
      ¬ (run.history 1).drained.take 2 <:+: (run.history 1).sent :=
    Machine.exists_reachable
      [subscribeTo (some "s1") 3, publishByte 0, .drain 1 1, publishByte 1, publishByte 2, publishByte 3,
        publishByte 4, .drain 1 3] (by decide +kernel)
  refine ⟨run, subscription, hr, hl, ?_⟩
  intro ha
  obtain ⟨first, second, ht⟩ := length_eq_two.mp hln
  have had : [first, second] <:+: (run.history 1).drained := ht ▸ (List.take_prefix 2 _).isInfix
  rw [ht] at hp hn
  exact hn (ha.adjacent (hp first (by simp)) (hp second (by simp)) had)

theorem decoded_surfaceEvent (sid : String) (kind : SurfaceEventKind) (ts : Option String)
    (seq : Nat) (c : List UInt8) (subId : Nat) :
    (surfaceEvent sid kind ts seq c subId).decoded = some c := by
  cases c with
  | nil => rfl
  | cons byte rs => simp [surfaceEvent, decoded]

theorem saturatingAdd_le (n : Nat) : saturatingAdd n 1 ≤ saturatingAdd (saturatingAdd n 1) 1 := by
  unfold saturatingAdd
  omega

variable {sub sub' : SubscriptionState} {chunks : List (List UInt8)}

variable {ts : Option String} {kind : SurfaceEventKind} {sid : String}

theorem foldl_offerChunk_sent (hc : sub.covers sid = true) (hf : sub.fromSeq ≤ saturatingAdd n 1)
    (hfl : chunks.foldl (offerChunk sid kind ts subId) (n, sub, hist) = (n', sub', hist')) :
    ∃ evs : List SurfaceEventParams, hist'.sent = hist.sent ++ evs ∧
      evs.map (fun event => (event.kind, event.decoded)) = chunks.map fun c => (kind, some c) := by
  induction chunks generalizing n sub hist with
  | nil =>
    obtain ⟨rfl, rfl, rfl⟩ := hfl
    exact ⟨[], by simp, rfl⟩
  | cons c rs ih =>
    have ha : sub.accepts sid (saturatingAdd n 1) = true := by
      simp [accepts, hc, hf]
    rw [foldl_cons, offerChunk, if_pos ha] at hfl
    obtain ⟨evs, hs, hd⟩ := ih (by rw [enqueue_covers]; exact hc)
      (by rw [enqueue_fromSeq]; exact Nat.le_trans hf (saturatingAdd_le n)) hfl
    refine ⟨surfaceEvent sid kind ts (saturatingAdd n 1) c subId :: evs, ?_, ?_⟩
    · rw [hs]
      simp [History.receive]
    · simp only [map_cons, hd, decoded_surfaceEvent]
      rfl

theorem foldl_offerChunk_sent_of_not_covers (hc : sub.covers sid = false)
    (hfl : chunks.foldl (offerChunk sid kind ts subId) (n, sub, hist) = (n', sub', hist')) :
    hist' = hist := by
  induction chunks generalizing n with
  | nil => exact (congrArg (fun r => r.2.2) hfl).symm
  | cons c rs ih =>
    have ha : sub.accepts sid (saturatingAdd n 1) = false := by
      simp [accepts, hc]
    rw [foldl_cons, offerChunk, ha] at hfl
    exact ih hfl

theorem foldl_offerChunk_frame (hfl : chunks.foldl (offerChunk sid kind ts subId) (n, sub, hist) =
      (n', sub', hist')) :
    hist'.request = hist.request ∧ hist'.payloads = hist.payloads ∧ sub'.maxChunkBytes = sub.maxChunkBytes ∧
      sub'.fromSeq = sub.fromSeq ∧ saturatingAdd n 1 ≤ saturatingAdd n' 1 := by
  induction chunks generalizing n sub hist with
  | nil =>
    obtain ⟨rfl, rfl, rfl⟩ := hfl
    exact ⟨rfl, rfl, rfl, rfl, Nat.le_refl _⟩
  | cons c rs ih =>
    rw [foldl_cons, offerChunk] at hfl
    split at hfl
    · obtain ⟨hr, hp, hb, hf, hle⟩ := ih hfl
      rw [enqueue_maxChunkBytes] at hb
      rw [enqueue_fromSeq] at hf
      exact ⟨hr, hp, hb, hf, Nat.le_trans (saturatingAdd_le n) hle⟩
    · obtain ⟨hr, hp, hb, hf, hle⟩ := ih hfl
      exact ⟨hr, hp, hb, hf, Nat.le_trans (saturatingAdd_le n) hle⟩

def bytesOf (kinds : SurfaceEventKind → Bool) (pieces : List (SurfaceEventKind × List UInt8)) : List UInt8 :=
  ((pieces.filter fun piece => kinds piece.1).map Prod.snd).flatten

theorem bytesOf_append (ks : SurfaceEventKind → Bool) (pcs pcs' : List (SurfaceEventKind × List UInt8)) :
    bytesOf ks (pcs ++ pcs') = bytesOf ks pcs ++ bytesOf ks pcs' := by
  simp [bytesOf]

theorem bytesOf_chunks (ks : SurfaceEventKind → Bool) (kind : SurfaceEventKind) (chunks : List (List UInt8)) :
    bytesOf ks (chunks.map fun c => (kind, c)) = bytesOf ks [(kind, chunks.flatten)] := by
  cases hk : ks kind with
  | false | true => simp [bytesOf, filter_map, Function.comp_def, hk]

/-- The events carry the payloads, in pieces that are not too long. -/
def Reassembled (n : Nat) (sub : SubscriptionState) (hist : History) : Prop :=
  hist.request.fromSeq = none →
    sub.fromSeq ≤ saturatingAdd n 1 ∧ ∃ pieces : List (SurfaceEventKind × List UInt8),
      hist.sent.map (fun event => (event.kind, event.decoded)) =
        pieces.map (fun piece => (piece.1, some piece.2)) ∧
      (∀ kinds, bytesOf kinds pieces = bytesOf kinds hist.payloads) ∧
      ∀ piece ∈ pieces, piece.2.length ≤ sub.maxChunkBytes

theorem Life.reassembled (h : Life subId n sub hist) : Reassembled n sub hist := by
  induction h with
  | subscribe n req _ _ =>
    intro hd
    have hd : req.fromSeq = none := hd
    refine ⟨?_, [], rfl, fun _ => rfl, by simp⟩
    simp only [fresh, hd, Option.getD_none, saturatingAdd]
    omega
  | drain cnt _ ih => exact ih
  | @publish n n' sub sub' hist hist' sid kind bs ts chunks
      _ hc hfl ih =>
    intro hd
    obtain ⟨hr, hp, hb, hfs, hle⟩ := foldl_offerChunk_frame hfl
    have hrc : (hist.record sub sid kind bs).request = hist.request ∧
        (hist.record sub sid kind bs).sent = hist.sent := by
      unfold History.record
      split <;> exact ⟨rfl, rfl⟩
    rw [hr, hrc.1] at hd
    obtain ⟨hf, pieces, hpc, hs, hl⟩ := ih hd
    refine ⟨by rw [hfs]; exact Nat.le_trans hf hle, ?_⟩
    rw [hp, hb]
    cases hcv : sub.covers sid with
    | false =>
      have hsn := foldl_offerChunk_sent_of_not_covers hcv hfl
      have hn : hist.record sub sid kind bs = hist := by
        simp [History.record, hcv]
      rw [hn] at hsn ⊢
      rw [hsn]
      exact ⟨pieces, hpc, hs, hl⟩
    | true =>
      obtain ⟨hft, hch⟩ := hc hcv
      obtain ⟨evs, hsn, hdc⟩ := foldl_offerChunk_sent hcv hf hfl
      refine ⟨pieces ++ chunks.map fun c => (kind, c), ?_, ?_, ?_⟩
      · rw [hsn, hrc.2, map_append, map_append, hpc, hdc, map_map]
        rfl
      · intro ks
        rw [bytesOf_append, hs ks, bytesOf_chunks, hft, ← bytesOf_append]
        simp [History.record, hcv]
      · intro pc hm
        rcases mem_append.mp hm with hold | hnw
        · exact hl pc hold
        · obtain ⟨c, hmc, rfl⟩ := mem_map.mp hnw
          exact hch c hmc

/-- **Reassembly.** The events a subscription drains and has still queued decode to pieces that together are what was
published for its surface. -/
theorem chunk_reassembly {run : HubRun} {subscriptionId : Nat} {subscription : SubscriptionState}
    (hreach : hubMachine.Reachable run)
    (hlookup : run.hub.subscriptions.lookup subscriptionId = some subscription)
    (hdefault : (run.history subscriptionId).request.fromSeq = none)
    (hroom : (run.history subscriptionId).overflows = []) (kinds : SurfaceEventKind → Bool) :
    ∃ pieces : List (List UInt8), (((run.history subscriptionId).drained ++ subscription.queue).filter
        fun event => kinds event.kind).map SurfaceEventParams.decoded = pieces.map some ∧
      pieces.flatten = bytesOf kinds (run.history subscriptionId).payloads ∧
      ∀ piece ∈ pieces, piece.length ≤ subscription.maxChunkBytes := by
  have hl := reachable_alive hreach subscriptionId subscription hlookup
  obtain ⟨hs, -⟩ := hl.lossless hroom
  obtain ⟨-, pieces, hpc, hsm, hln⟩ := hl.reassembled hdefault
  refine ⟨(pieces.filter fun piece => kinds piece.1).map Prod.snd, ?_, ?_, ?_⟩
  · have hf := congrArg (fun l => (l.filter fun x => kinds x.1).map Prod.snd) hpc
    simp only [filter_map, map_map, Function.comp_def] at hf
    rw [hs, hf, map_map]
    rfl
  · exact hsm kinds
  · intro _ hm
    obtain ⟨piece, hp, rfl⟩ := mem_map.mp hm
    exact hln piece (mem_filter.mp hp).1

theorem chunk_reassembly_five_bytes : ∃ run subscription, hubMachine.Reachable run ∧
      run.hub.subscriptions.lookup 1 = some subscription ∧ subscription.queue = [] ∧
      ∃ pieces : List (List UInt8), (run.history 1).drained.map SurfaceEventParams.decoded = pieces.map some ∧
        pieces.flatten = [1, 2, 3, 4, 5] ∧ ∀ piece ∈ pieces, piece.length ≤ 2 := by
  obtain ⟨run, hr, subscription, hl, he, hb, hd, hrm, hp⟩ :
      ∃ run, hubMachine.Reachable run ∧ ∃ subscription ∈ run.hub.subscriptions.lookup (1 : Nat),
        subscription.queue = [] ∧ subscription.maxChunkBytes = 2 ∧ (run.history 1).request.fromSeq = none ∧
        (run.history 1).overflows.isEmpty = true ∧
        bytesOf (fun _ => true) (run.history 1).payloads = [1, 2, 3, 4, 5] :=
    Machine.exists_reachable
      [.publish "s1" .output [9] none, subscribeTo (some "s1") 4, .publish "s1" .output [1, 2, 3] none,
        subscribeTo none 1, .publish "s2" .output [7] none, .publish "s1" .output [4, 5] none,
        .unsubscribe 2, .drain 1 9] (by decide +kernel)
  obtain ⟨pieces, hdc, hft, hln⟩ := chunk_reassembly hr hl hd (isEmpty_iff.mp hrm) fun _ => true
  rw [he, append_nil, filter_true] at hdc
  rw [hp] at hft
  rw [hb] at hln
  exact ⟨run, subscription, hr, hl, he, pieces, hdc, hft, hln⟩

end ShareCli.Session
