import Mathlib.Data.Finset.Card
import ShareCli.Foundation.Delimited
import ShareCli.Ipc.SlotQueue

/-!
# Slots of a lane: mutual exclusion, separation of lanes and cleanup

Each control state that runs a closure holds the lock of a slot file whose number is below the concurrency
limit of its queue handle, so the closures of one lane are counted by their slots.
-/

namespace ShareCli.Ipc

open Foundation Flock Function List

/-- One constructor for each outcome. -/
inductive SlotStep (root : FilePath) (pid : Nat) (r : QueueRoot) (c : Caller) :
    SlotPc → SlotEvent → QueueRoot → SlotPc → Prop where
  | call {call ticket nextSeq} : SlotStep root pid r c .idle (.call call true)
        { r with files := writeFile r.files ⟨waitingDir root call.lane, tmpName ticket, c⟩, nextSeq }
        (.publishing call ticket)
  | callFailed {call ticket} : SlotStep root pid r c .idle (.call call false) r (.notEnqueued call ticket)
  | publish {call ticket} : SlotStep root pid r c (.publishing call ticket) (.publish true)
        { r with files := publishTicket r.files (waitingDir root call.lane) ticket c }
        (.polling ⟨call, ticket, r.now, r.now + call.queue.timeout⟩)
  | publishFailed {call ticket} :
      SlotStep root pid r c (.publishing call ticket) (.publish false) r (.notEnqueued call ticket)
  | timedOut {q} : SlotStep root pid r c (.polling q) .checkDeadline r (.exiting q false .timedOut)
  | inTime {q} : SlotStep root pid r c (.polling q) .checkDeadline r (.checkTurn q)
  | myTurn {q} : SlotStep root pid r c (.checkTurn q) (.checkTurn true) r (.trySlot q 0)
  | notMyTurn {q till} : SlotStep root pid r c (.checkTurn q) (.checkTurn true) r (.sleeping q till none)
  | turnFailed {q} : SlotStep root pid r c (.checkTurn q) (.checkTurn false) r (.exiting q false .ioFailed)
  | locked {q i locks} (hi : i < q.call.queue.maxConcurrent)
      (h : tryLock r.locks (slotPath root q.call.lane i) c = some locks) :
      SlotStep root pid r c (.trySlot q i) (.lockSlot true) { r with locks } (.recheck q i)
  | busy {q i} : SlotStep root pid r c (.trySlot q i) (.lockSlot true) r (.trySlot q (i + 1))
  | openFailed {q i} : SlotStep root pid r c (.trySlot q i) (.lockSlot false) r (.exiting q false .ioFailed)
  | noSlot {q i till} : SlotStep root pid r c (.trySlot q i) .noSlot r (.sleeping q till none)
  | stillMyTurn {q i} : SlotStep root pid r c (.recheck q i) (.recheck true) r (.starting q i)
  | yield {q i till next} : SlotStep root pid r c (.recheck q i) (.recheck true)
        { r with locks := unlock r.locks (slotPath root q.call.lane i) c } (.sleeping q till next)
  | recheckFailed {q i} : SlotStep root pid r c (.recheck q i) (.recheck false)
        { r with locks := unlock r.locks (slotPath root q.call.lane i) c }
        (.exiting q false .ioFailed)
  | wakeSlot {q till i} : SlotStep root pid r c (.sleeping q till (some i)) .wake r (.trySlot q i)
  | wakePoll {q till} : SlotStep root pid r c (.sleeping q till none) .wake r (.polling q)
  | start {q i} : SlotStep root pid r c (.starting q i) .start
        { r with files := removeFile r.files (waitingDir root q.call.lane) q.ticket } (.running q i)
  | finish {q i ok outcome} : SlotStep root pid r c (.running q i) (.finish ok) r (.returning q i outcome)
  | unlock {q i outcome} : SlotStep root pid r c (.returning q i outcome) .unlock
        { r with locks := unlock r.locks (slotPath root q.call.lane i) c }
        (.exiting q true outcome)
  | dropGuard {q outcome} : SlotStep root pid r c (.exiting q false outcome) .dropGuard
        { r with files := removeFile r.files (waitingDir root q.call.lane) q.ticket } (.done q outcome)
  | dropReleased {q outcome} : SlotStep root pid r c (.exiting q true outcome) .dropGuard r (.done q outcome)
  | killHolding {pc call ticket file} (hc : pc.call? = some call) (h : pc.holds root = some file) :
      SlotStep root pid r c pc .kill { r with locks := unlock r.locks file c }
        (.killed call ticket)
  | killWaiting {pc call ticket} (hc : pc.call? = some call) (h : pc.holds root = none) :
      SlotStep root pid r c pc .kill r (.killed call ticket)

variable {root : FilePath} {pid : Nat} {r r' : QueueRoot} {c : Caller} {pc pc' : SlotPc}
  {ev : SlotEvent}

theorem SlotStep.of_eq (h : slotStep root pid r c pc ev = some (r', pc')) :
    SlotStep root pid r c pc ev r' pc' := by
  unfold slotStep at h
  split at h
  case h_1 cl ok =>
    cases ok <;> simp at h <;> obtain ⟨rfl, rfl⟩ := h
    · exact .callFailed
    · exact .call
  case h_2 => simp at h; obtain ⟨rfl, rfl⟩ := h; exact .publish
  case h_3 => simp at h; obtain ⟨rfl, rfl⟩ := h; exact .publishFailed
  case h_4 =>
    split at h <;> simp at h <;> obtain ⟨rfl, rfl⟩ := h
    · exact .timedOut
    · exact .inTime
  case h_5 =>
    split at h <;> simp at h <;> obtain ⟨rfl, rfl⟩ := h
    · exact .myTurn
    · exact .notMyTurn
  case h_6 => simp at h; obtain ⟨rfl, rfl⟩ := h; exact .turnFailed
  case h_7 q i ok =>
    split at h
    · rename_i hi
      cases ok with
      | false => simp at h; obtain ⟨rfl, rfl⟩ := h; exact .openFailed
      | true =>
        simp only [if_true] at h
        split at h <;> simp at h <;> obtain ⟨rfl, rfl⟩ := h
        · exact .locked hi ‹_›
        · exact .busy
    · simp at h
  case h_8 =>
    split at h <;> simp at h
    obtain ⟨rfl, rfl⟩ := h
    exact .noSlot
  case h_9 =>
    split at h <;> simp at h <;> obtain ⟨rfl, rfl⟩ := h
    · exact .stillMyTurn
    · exact .yield
  case h_10 => simp at h; obtain ⟨rfl, rfl⟩ := h; exact .recheckFailed
  case h_11 q till next =>
    split at h
    · simp at h
    · cases next <;> simp at h <;> obtain ⟨rfl, rfl⟩ := h
      · exact .wakePoll
      · exact .wakeSlot
  case h_12 => simp at h; obtain ⟨rfl, rfl⟩ := h; exact .start
  case h_13 => simp at h; obtain ⟨rfl, rfl⟩ := h; exact .finish
  case h_14 => simp at h; obtain ⟨rfl, rfl⟩ := h; exact .unlock
  case h_15 q cn o =>
    cases cn <;> simp at h <;> obtain ⟨rfl, rfl⟩ := h
    · exact .dropGuard
    · exact .dropReleased
  case h_16 => simp at h
  case h_17 => simp at h
  case h_18 => simp at h
  case h_19 => simp at h
  case h_20 =>
    split at h <;> simp at h <;> obtain ⟨rfl, rfl⟩ := h
    · exact .killHolding ‹_› ‹_›
    · exact .killWaiting ‹_› ‹_›
  case h_21 => simp at h

variable {pcs : Caller → SlotPc} {lane : String} {i : Nat} {files : List WaitingFile}

theorem SlotStep.agrees (h : SlotStep root pid r c pc ev r' pc') (hpc : pcs c = pc)
    (ha : Agrees r.locks (SlotPc.holds root) pcs) :
    Agrees r'.locks (SlotPc.holds root) (update pcs c pc') := by
  cases h with
  | locked _ hl => exact ha.lock hl (by rw [hpc]; rfl) rfl
  | yield | recheckFailed | unlock => exact ha.unlock (by rw [hpc]; rfl) rfl
  | killHolding _ hk => exact ha.unlock (by rw [hpc]; exact hk) rfl
  | killWaiting _ hk => exact ha.move (by rw [hpc, hk]; rfl)
  | _ => exact ha.move (by rw [hpc]; rfl)

def SlotPc.InBounds : SlotPc → Prop
  | .recheck q i | .starting q i | .running q i | .returning q i _ =>
    i < q.call.queue.maxConcurrent
  | _ => True

theorem SlotStep.inBounds (h : SlotStep root pid r c pc ev r' pc') (hb : pc.InBounds) : pc'.InBounds := by
  cases h with
  | locked hi => exact hi
  | stillMyTurn => exact hb
  | start => exact hb
  | finish => exact hb
  | _ => trivial

theorem append_digits_inj {a b ds es : List Char} {x : Char} (hx : x.isDigit = false)
    (hds : ∀ c ∈ ds, c.isDigit) (hes : ∀ c ∈ es, c.isDigit) (h : a ++ x :: ds = b ++ x :: es) :
    a = b ∧ ds = es := by
  have hr := congrArg reverse h
  simp only [reverse_append, reverse_cons, append_assoc, singleton_append] at hr
  obtain ⟨hd, ha⟩ := append_sep_inj (by simpa using Decimal.not_mem_of_digits hds hx)
    (by simpa using Decimal.not_mem_of_digits hes hx) hr
  exact ⟨reverse_injective ha, reverse_injective hd⟩

theorem slotName_inj {lane l' : String} {i j : Nat}
    (h : lane.toList ++ ".slot".toList ++ Nat.toDigits 10 i ++ ".lock".toList =
      l'.toList ++ ".slot".toList ++ Nat.toDigits 10 j ++ ".lock".toList) :
    lane = l' := by
  have hs : ".slot".toList = ".slo".toList ++ ['t'] := rfl
  rw [append_cancel_right_eq, hs] at h
  simp only [← append_assoc] at h
  rw [append_assoc _ ['t'], append_assoc _ ['t']] at h
  have hl := (append_digits_inj rfl (Decimal.isDigit_toDigits i) (Decimal.isDigit_toDigits j) h).1
  rw [append_cancel_right_eq] at hl
  exact String.toList_injective hl

/-- A lane that is a single path component. -/
def PlainLane (lane : String) : Prop := '/' ∉ lane.toList
deriving Decidable

theorem slotPath_of_plain (h : PlainLane lane) (i : Nat) : slotPath root lane i =
      root ++ [lane.toList ++ ".slot".toList ++ Nat.toDigits 10 i ++ ".lock".toList] := by
  have hd : '/' ∉ Nat.toDigits 10 i := Decimal.not_mem_toDigits rfl i
  refine FilePath.resolve_of_not_mem ?_ ?_
  · simp only [mem_append, not_or]
    exact ⟨⟨⟨h, by decide⟩, hd⟩, by decide⟩
  · have hl : 2 < (lane.toList ++ ".slot".toList ++ Nat.toDigits 10 i ++ ".lock".toList).length := by
      simp only [length_append]
      have : ".slot".toList.length = 5 := rfl
      omega
    refine ⟨?_, ?_, ?_⟩ <;> (intro hn; rw [hn] at hl; simp at hl)

theorem lane_eq_of_slotPath_eq {l' : String} {j : Nat} (hl : PlainLane lane) (hl' : PlainLane l')
    (h : slotPath root lane i = slotPath root l' j) : lane = l' := by
  rw [slotPath_of_plain hl, slotPath_of_plain hl', append_cancel_left_eq] at h
  exact slotName_inj (cons.inj h).1

def SlotPc.MayOwn (root : FilePath) (pc : SlotPc) (dir : FilePath) (name : String) : Prop :=
  match pc with
  | .publishing call ticket => dir = waitingDir root call.lane ∧ name = tmpName ticket
  | .polling q | .checkTurn q | .trySlot q _ | .recheck q _ | .sleeping q _ _ | .starting q _
  | .exiting q false _ => dir = waitingDir root q.call.lane ∧ name = q.ticket
  | .notEnqueued _ _ | .killed _ _ => True
  | .idle | .running _ _ | .returning _ _ _ | .exiting _ true _ | .done _ _ => False

def FilesOwned (root : FilePath) (files : List WaitingFile) (pcs : Caller → SlotPc) : Prop :=
  ∀ f ∈ files, (pcs f.owner).MayOwn root f.dir f.name

theorem mem_removeFile {dir : FilePath} {n : String} {f : WaitingFile} :
    f ∈ removeFile files dir n ↔ f ∈ files ∧ ¬ (f.dir = dir ∧ f.name = n) := by
  rw [removeFile, mem_filter, decide_eq_true_iff]

/-- Of the mover's files only those stay that its new state may have. -/
theorem FilesOwned.update {fs' : List WaitingFile} (h : FilesOwned root files pcs) (hpc : pcs c = pc)
    (ho : ∀ f ∈ fs', f.owner ≠ c → f ∈ files)
    (hm : ∀ f ∈ fs', f.owner = c → (f ∈ files → pc.MayOwn root f.dir f.name) → pc'.MayOwn root f.dir f.name) :
    FilesOwned root fs' (update pcs c pc') := by
  intro f hf
  by_cases hc : f.owner = c
  · rw [hc, update_self]
    refine hm f hf hc fun hin => ?_
    rw [← hpc, ← hc]
    exact h f hin
  · rw [update_of_ne hc]
    exact h f (ho f hf hc)

theorem SlotStep.filesOwned (h : SlotStep root pid r c pc ev r' pc') (hpc : pcs c = pc)
    (hf : FilesOwned root r.files pcs) :
    FilesOwned root r'.files (update pcs c pc') := by
  cases h with
  | call =>
    refine hf.update hpc ?_ ?_
    · intro f hin hne
      rcases mem_cons.mp hin with rfl | hin
      · exact absurd rfl hne
      · exact (mem_removeFile.mp hin).1
    · intro f hin _ hold
      rcases mem_cons.mp hin with rfl | hin
      · exact ⟨rfl, rfl⟩
      · exact (hold (mem_removeFile.mp hin).1).elim
  | publish =>
    -- the temporary file was the only one the call had
    refine hf.update hpc ?_ ?_
    · intro f hin hne
      rcases mem_cons.mp hin with rfl | hin
      · exact absurd rfl hne
      · exact (mem_removeFile.mp (mem_removeFile.mp hin).1).1
    · intro f hin _ hold
      rcases mem_cons.mp hin with rfl | hin
      · exact ⟨rfl, rfl⟩
      · obtain ⟨hin, hn⟩ := mem_removeFile.mp (mem_removeFile.mp hin).1
        exact absurd (hold hin) hn
  | start | dropGuard =>
    refine hf.update hpc (fun f hin _ => (mem_removeFile.mp hin).1) ?_
    intro f hin _ hold
    obtain ⟨hin, hn⟩ := mem_removeFile.mp hin
    exact hn (hold hin)
  | callFailed | publishFailed | killHolding | killWaiting =>
    exact hf.update hpc (fun _ hin _ => hin) (fun _ _ _ _ => trivial)
  | _ => exact hf.update hpc (fun _ hin _ => hin) (fun _ hin _ hold => hold hin)

theorem SlotStep.call_eq (h : SlotStep root pid r c pc ev r' pc') {cl : SlotCall}
    (hcl : pc'.call? = some cl) : pc.call? = some cl ∨ ∃ ok, ev = .call cl ok := by
  cases h with
  | call =>
    cases hcl
    exact .inr ⟨true, rfl⟩
  | callFailed =>
    cases hcl
    exact .inr ⟨false, rfl⟩
  | killHolding hc | killWaiting hc => exact .inl (hc.trans hcl)
  | _ => exact .inl hcl

def CallsPlainLane : QueueLabel → Prop
  | .caller _ (.call call _) => PlainLane call.lane
  | _ => True

structure QueueInv (root : FilePath) (s : QueueState) : Prop where
  agrees : Agrees s.root.locks (SlotPc.holds root) s.pc
  inBounds : ∀ c, (s.pc c).InBounds
  files : FilesOwned root s.root.files s.pc
  plain : ∀ c call, (s.pc c).call? = some call → PlainLane call.lane

variable {process : Caller → Nat}

theorem queueInv_init : QueueInv root (queueMachine root process).init where
  agrees := by intro f a; simp [queueMachine, SlotPc.holds]
  inBounds _ := trivial
  files := by intro f hf; simp [queueMachine] at hf
  plain c call h := by simp [queueMachine, SlotPc.call?] at h

theorem queueInv_step {s s' : QueueState} {l : QueueLabel} (hi : QueueInv root s)
    (hl : CallsPlainLane l) (h : (queueMachine root process).step s l = some s') :
    QueueInv root s' := by
  cases l with
  | tick d =>
    obtain rfl : _ = s' := Option.some.inj h
    exact ⟨hi.agrees, hi.inBounds, hi.files, hi.plain⟩
  | caller c ev =>
    obtain ⟨⟨r, pc⟩, heq, rfl⟩ := Option.map_eq_some_iff.mp h
    have hstep := SlotStep.of_eq heq
    refine ⟨hstep.agrees rfl hi.agrees, ?_, hstep.filesOwned rfl hi.files, ?_⟩
    · intro c'
      by_cases hc : c' = c
      · subst hc; simpa using hstep.inBounds (hi.inBounds c')
      · simpa [hc] using hi.inBounds c'
    · intro c' cl hcl
      by_cases hc : c' = c
      · subst hc
        rcases hstep.call_eq (by simpa using hcl) with hold | ⟨ok, rfl⟩
        · exact hi.plain c' cl hold
        · exact hl
      · exact hi.plain c' cl (by simpa [hc] using hcl)

theorem QueueInv.running_unique {s : QueueState} (hi : QueueInv root s) {a b : Caller} {q q' : Queued}
    (ha : s.pc a = .running q i) (hb : s.pc b = .running q' i) (hl : q.call.lane = q'.call.lane) : a = b := by
  refine hi.agrees.unique (f := slotPath root q.call.lane i) ?_ ?_
  · rw [ha]; rfl
  · rw [hb, hl]; rfl

/-- **Slots.** Of the callers whose handle allows `n` closures at most `n` run one in a lane at a time; calls on
different lanes have no slot file in common; and a call that has returned has left no file behind in a waiting
directory. -/
theorem with_slot_exclusion (root : FilePath) (process : Caller → Nat) {s : QueueState}
    (h : (queueMachine root process).ReachableWhen (fun _ l => CallsPlainLane l) s) :
    (∀ (lane : String) (n : Nat) (callers : Finset Caller),
      (∀ c ∈ callers, ∃ q i, s.pc c = .running q i ∧ q.call.lane = lane ∧
        q.call.queue.maxConcurrent ≤ n) → callers.card ≤ n) ∧
    (∀ a b calla callb, (s.pc a).call? = some calla → (s.pc b).call? = some callb →
      calla.lane ≠ callb.lane → ∀ i j, slotPath root calla.lane i ≠ slotPath root callb.lane j) ∧
    (∀ c q outcome, s.pc c = .done q outcome → ∀ f ∈ s.root.files, f.owner ≠ c) := by
  have hi : QueueInv root s :=
    Machine.invariantWhen queueInv_init (fun _ _ _ hi hl hs => queueInv_step hi hl hs) h
  refine ⟨?_, ?_, ?_⟩
  · intro lane n callers hr
    choose! q i hpc hln hm using hr
    have hsl : ∀ c ∈ callers, i c ∈ Finset.range n := by
      intro c hc
      have hb := hi.inBounds c
      rw [hpc c hc] at hb
      exact Finset.mem_range.mpr (lt_of_lt_of_le hb (hm c hc))
    have hin : Set.InjOn i callers := by
      intro a ha b hb heq
      have hpb := hpc b hb
      rw [← heq] at hpb
      exact hi.running_unique (hpc a ha) hpb ((hln a ha).trans (hln b hb).symm)
    calc callers.card ≤ (Finset.range n).card := Finset.card_le_card_of_injOn i hsl hin
      _ = n := Finset.card_range n
  · intro a b calla callb ha hb hne i j hp
    exact hne (lane_eq_of_slotPath_eq (hi.plain a calla ha) (hi.plain b callb hb) hp)
  · intro c q outcome hd f hf ho
    have hmy := hi.files f hf
    rw [ho, hd] at hmy
    exact hmy

instance : DecidablePred CallsPlainLane
  | .caller _ (.call call _) => inferInstanceAs (Decidable (PlainLane call.lane))
  | .caller _ (.publish _) | .caller _ .checkDeadline | .caller _ (.checkTurn _)
  | .caller _ (.lockSlot _) | .caller _ .noSlot | .caller _ (.recheck _) | .caller _ .wake
  | .caller _ .start | .caller _ (.finish _) | .caller _ .unlock | .caller _ .dropGuard
  | .caller _ .kill | .tick _ => isTrue trivial

def callUpToSlot (c : Caller) (lane : String) : List QueueLabel :=
  ([.call ⟨SlotQueue.withOptions 1 30 1, lane, .normal⟩ true, .publish true, .checkDeadline,
    .checkTurn true] : List SlotEvent).map (.caller c)

def queuedCall (lane ticket : String) : Queued :=
  { call := ⟨SlotQueue.withOptions 1 30 1, lane, .normal⟩, ticket, enqueuedAt := 0, deadline := 30 }

def lockAndStart (c : Caller) : List QueueLabel :=
  ([.lockSlot true, .recheck true, .start] : List SlotEvent).map (.caller c)

def twoLanesSchedule : List QueueLabel :=
  callUpToSlot 0 "b" ++ callUpToSlot 1 "c" ++ lockAndStart 0 ++ lockAndStart 1 ++
    ([.finish true, .unlock, .dropGuard] : List SlotEvent).map (.caller 0)

theorem with_slot_exclusion_two_lanes :
    ∃ s, ((queueMachine [] id).restrict fun _ l => CallsPlainLane l).run (queueMachine [] id).init
        twoLanesSchedule = some s ∧
      (∃ q, s.pc 0 = .done q .ok) ∧ (∃ q, s.pc 1 = .running q 0) ∧
      ∀ f ∈ s.root.files, f.owner ≠ 0 := by
  obtain ⟨s, hrn, hd, hr⟩ :
      ∃ s, ((queueMachine [] id).restrict fun _ l => CallsPlainLane l).run (queueMachine [] id).init
          twoLanesSchedule = some s ∧
        s.pc 0 = .done (queuedCall "b" "02.0.0.0") .ok ∧
        s.pc 1 = .running (queuedCall "c" "02.0.1.0") 0 := Machine.exists_run (by decide +kernel)
  have hrc := Machine.reachableWhen_of_restrict (Machine.reachable_of_run hrn)
  exact ⟨s, hrn, ⟨_, hd⟩, ⟨_, hr⟩, (with_slot_exclusion [] id hrc).2.2 0 _ _ hd⟩

def sharedSlotSchedule : List QueueLabel := callUpToSlot 0 "b" ++ lockAndStart 0 ++ callUpToSlot 1 "./b"

/-- The slot file of the lane `./b` is that of the lane `b`. -/
theorem with_slot_lanes_share_slot : ∃ s, (queueMachine [] id).Reachable s ∧
      ∃ q q', s.pc 0 = .running q 0 ∧ s.pc 1 = .trySlot q' 0 ∧ q.call.lane ≠ q'.call.lane ∧
        slotPath [] q.call.lane 0 = slotPath [] q'.call.lane 0 ∧
        s.root.locks (slotPath [] q'.call.lane 0) = some 0 := by
  obtain ⟨s, hrc, hr, ht, hl⟩ : ∃ s, (queueMachine [] id).Reachable s ∧
      s.pc 0 = .running (queuedCall "b" "02.0.0.0") 0 ∧
      s.pc 1 = .trySlot (queuedCall "./b" "02.0.1.0") 0 ∧
      s.root.locks (slotPath [] "./b" 0) = some 0 :=
    Machine.exists_reachable sharedSlotSchedule (by decide +kernel)
  exact ⟨s, hrc, _, _, hr, ht, by decide, by decide +kernel, hl⟩

end ShareCli.Ipc
