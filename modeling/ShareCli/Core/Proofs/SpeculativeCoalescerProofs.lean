import Mathlib.Data.List.Nodup
import ShareCli.Core.SpeculativeCoalescer

/-!
# In-flight request coalescing: every waiter is answered once

A key is pending with `l` as its first waiter exactly when `l`'s task has not drained it (`Flock.Agrees`).
So a registration changes one group only: the groups partition the callers (`Grouping`).
-/

namespace ShareCli.Core

open Foundation Ipc Function CoalescerState List Option
open CoalescerState (members register setTask unanswered)

/-- One constructor for each outcome. -/
inductive CoalescerStep (win : Nat) (s : CoalescerState) : CoalescerLabel → CoalescerState → Prop where
  | tick {d} : CoalescerStep win s (.tick d) { s with now := s.now + d }
  | register {c key} (h : s.calls c = .idle) : CoalescerStep win s (.register c key) (s.register c key.hex)
  | spawn {l key} (h : s.tasks l = .unspawned key) :
      CoalescerStep win s (.spawn l) (s.setTask l (.sleeping key (s.now + win)))
  | drain {l key till} (h : s.tasks l = .sleeping key till) : CoalescerStep win s (.drain l)
        { s.setTask l (.drained ((s.pending key).getD [])) with
          pending := update s.pending key none }
  | exec {l ws} (h : s.tasks l = .drained ws) : CoalescerStep win s (.exec l)
        { s.setTask l (.executing ws) with execLog := l :: s.execLog }
  | execDone {l ws res} (h : s.tasks l = .executing ws) : CoalescerStep win s (.execDone l res)
        (s.setTask l (.broadcasting ws res ws))
  | send {l ws res c rs} (h : s.tasks l = .broadcasting ws res (c :: rs)) : CoalescerStep win s (.send l)
        { s.setTask l (.broadcasting ws res rs) with
          sent := update s.sent c (s.sent c ++ [cloneResult res]) }
  | finish {l ws res} (h : s.tasks l = .broadcasting ws res []) :
      CoalescerStep win s (.finish l) (s.setTask l (.finished ws res))
  | receive {c res rs} (h : s.calls c = .waiting) (hs : s.sent c = res :: rs) :
      CoalescerStep win s (.receive c)
        { s with calls := update s.calls c (.returned res) }
  | cancel {c} (h : s.calls c = .waiting) :
      CoalescerStep win s (.cancel c) { s with calls := update s.calls c .cancelled }

variable {label : CoalescerLabel} {p : String → Option (List Caller)} {ws : List Caller} {till : Nat}

theorem CoalescerStep.of_eq {win : Nat} {s s' : CoalescerState}
    (h : (coalescerMachine win).step s label = some s') : CoalescerStep win s label s' := by
  cases label <;> simp only [coalescerMachine] at h
  case tick => obtain rfl := some.inj h; exact .tick
  case register => split at h <;> simp at h; subst h; exact .register ‹_›
  case spawn => split at h <;> simp at h; subst h; exact .spawn ‹_›
  case drain => split at h <;> simp at h; obtain ⟨-, rfl⟩ := h; exact .drain ‹_›
  case exec => split at h <;> simp at h; subst h; exact .exec ‹_›
  case execDone => split at h <;> simp at h; subst h; exact .execDone ‹_›
  case send => split at h <;> simp at h; subst h; exact .send ‹_›
  case finish => split at h <;> simp at h; subst h; exact .finish ‹_›
  case receive => split at h <;> simp at h; subst h; exact .receive ‹_› ‹_›
  case cancel => split at h <;> simp at h; subst h; exact .cancel ‹_›

/-- The first waiter of each pending key. -/
def leaders (p : String → Option (List Caller)) : Flock.Table String Caller :=
  fun key => (p key).bind head?

theorem leaders_update (p : String → Option (List Caller)) (key : String) (ws : Option (List Caller)) :
    leaders (update p key ws) = update (leaders p) key (ws.bind head?) := by
  funext key'
  by_cases hk : key' = key
  · subst hk; simp [leaders]
  · simp [leaders, hk]

/-- The groups partition the callers that have registered, by the leader and its key. -/
structure Grouping (s : CoalescerState) : Prop where
  agrees : Flock.Agrees (leaders s.pending) CoalesceTaskPc.key? s.tasks
  nonempty : ∀ key, s.pending key ≠ some []
  mem_iff : ∀ l c, c ∈ s.members l ↔ s.group c = some l
  nodup : ∀ l, (s.members l).Nodup
  idle_iff : ∀ c, s.calls c = .idle ↔ s.group c = none
  leads_self : ∀ l, s.tasks l ≠ .absent → s.group l = some l
  keyed : ∀ l key, (s.tasks l).key? = some key → s.asked l = some key
  same_key : ∀ l, ∀ c ∈ s.members l, s.asked c = s.asked l

variable {win : Nat} {s s' : CoalescerState} {l c : Caller} {key : String}
  {pc : CoalesceTaskPc}

/-- A list that a task has: the one of its key, as long as that is pending. -/
structure OfKey (list : (String → Option (List Caller)) → CoalesceTaskPc → List Caller) : Prop where
  of_key : ∀ {p pc key}, pc.key? = some key → list p pc = (p key).getD []
  of_ne : ∀ {p pc key} ws, pc.key? ≠ some key → list (update p key ws) pc = list p pc
  absent : ∀ p, list p .absent = []
  drained : ∀ p ws, list p (.drained ws) = ws

theorem ofKey_members : OfKey CoalesceTaskPc.members where
  of_key {_ pc _} h := by cases pc <;> simp_all [CoalesceTaskPc.key?, CoalesceTaskPc.members]
  of_ne {_ pc _} _ h := by cases pc <;> simp_all [CoalesceTaskPc.key?, CoalesceTaskPc.members]
  absent _ := rfl
  drained _ _ := rfl

theorem ofKey_unanswered : OfKey CoalesceTaskPc.unanswered where
  of_key {_ pc _} h := by
    cases pc <;> simp_all [CoalesceTaskPc.key?, CoalesceTaskPc.unanswered, CoalesceTaskPc.members]
  of_ne {_ pc _} _ h := by
    cases pc <;> simp_all [CoalesceTaskPc.key?, CoalesceTaskPc.unanswered, CoalesceTaskPc.members]
  absent _ := rfl
  drained _ _ := rfl

variable {pc' : CoalesceTaskPc}

/-- What stays of the state of a task stays for all tasks. -/
theorem setTask_tasks {β : Type} (f : CoalesceTaskPc → β) (ht : s.tasks l = pc)
    (hf : f pc' = f pc) (l' : Caller) : f ((s.setTask l pc').tasks l') = f (s.tasks l') := by
  by_cases hl : l' = l
  · subst hl; simpa [setTask, ht] using hf
  · simp [setTask, hl]

theorem Grouping.congr (hg : Grouping s) (hp : s'.pending = s.pending)
    (hgr : s'.group = s.group) (has : s'.asked = s.asked) (hc : ∀ c, s'.calls c = .idle ↔ s.calls c = .idle)
    (hk : ∀ l, (s'.tasks l).key? = (s.tasks l).key?)
    (hm : ∀ l, s'.members l = s.members l)
    (ha : ∀ l, s.tasks l = .absent → s'.tasks l = .absent) : Grouping s' where
  agrees := by
    intro key l
    rw [hp, hk]
    exact hg.agrees key l
  nonempty := by rw [hp]; exact hg.nonempty
  mem_iff l c := by rw [hm, hgr]; exact hg.mem_iff l c
  nodup l := by rw [hm]; exact hg.nodup l
  idle_iff c := by rw [hc, hgr]; exact hg.idle_iff c
  leads_self l hl := by
    rw [hgr]
    exact hg.leads_self l fun h => hl (ha l h)
  keyed l key h := by
    rw [has]
    exact hg.keyed l key ((hk l).symm.trans h)
  same_key l c h := by
    rw [has]
    exact hg.same_key l c (hm l ▸ h)

theorem Grouping.move (hg : Grouping s) (ht : s.tasks l = pc)
    (hk : pc'.key? = pc.key?) (hm : pc'.members s.pending = pc.members s.pending)
    (ha : pc ≠ .absent) : Grouping (s.setTask l pc') := by
  refine hg.congr rfl rfl rfl (fun _ => Iff.rfl) (setTask_tasks (·.key?) ht hk)
    (setTask_tasks (·.members s.pending) ht hm) ?_
  intro l' h
  have hl : l' ≠ l := by
    rintro rfl
    exact ha (ht.symm.trans h)
  simp [setTask, hl, h]

theorem Grouping.fresh_of_idle (hg : Grouping s) (hi : s.calls c = .idle) (l : Caller) : c ∉ s.members l := by
  intro h
  have hl := (hg.mem_iff l c).mp h
  simp [(hg.idle_iff c).mp hi] at hl

theorem Grouping.absent_of_idle (hg : Grouping s) (hi : s.calls c = .idle) : s.tasks c = .absent := by
  by_contra h
  have hc := hg.leads_self c h
  simp [(hg.idle_iff c).mp hi] at hc

/-- A registration: the caller becomes the last member of the group of `l`, which waits for the key. -/
structure Registered (s : CoalescerState) (c : Caller) (key : String) (l : Caller) (s' : CoalescerState) :
    Prop where
  agrees : Flock.Agrees (leaders s'.pending) CoalesceTaskPc.key? s'.tasks
  nonempty : ∀ key, s'.pending key ≠ some []
  calls : s'.calls = update s.calls c .waiting
  group : s'.group = update s.group c (some l)
  asked : s'.asked = update s.asked c (some key)
  key : (s'.tasks l).key? = some key
  lists : ∀ {list}, OfKey list → ∀ l', list s'.pending (s'.tasks l') =
    if l' = l then list s.pending (s.tasks l) ++ [c] else list s.pending (s.tasks l')
  /-- Only the task of a new leader is another one. -/
  tasks : ∀ l', s'.tasks l' = s.tasks l' ∨
    l' = c ∧ c = l ∧ s.tasks l' = .absent ∧ ∃ key, s'.tasks l' = .unspawned key
  sent : s'.sent = s.sent
  execLog : s'.execLog = s.execLog

theorem Grouping.register_nonempty (hg : Grouping s) (key' : String) :
    (s.register c key).pending key' ≠ some [] := by
  unfold register
  split
  all_goals
    by_cases hk : key' = key
    · subst hk; simp
    · simpa [hk] using hg.nonempty key'

theorem Grouping.join (hg : Grouping s) (hp : s.pending key = some ws) :
    ∃ l, Registered s c key l (s.register c key) := by
  obtain ⟨l, rs, rfl⟩ : ∃ l rs, ws = l :: rs := by
    cases ws with
    | nil => exact absurd hp (hg.nonempty key)
    | cons l rs => exact ⟨l, rs, rfl⟩
  have hl : (s.tasks l).key? = some key := (hg.agrees key l).mp (by simp [leaders, hp])
  have hn : ∀ key', (s.register c key).pending key' ≠ some [] := hg.register_nonempty
  simp only [register, hp] at hn ⊢
  refine ⟨l, fun key' l' => ?_, hn, rfl, rfl, rfl, hl, fun hls l' => ?_, fun _ => .inl rfl, rfl, rfl⟩
  · rw [leaders_update]
    by_cases hk : key' = key
    · subst hk
      have h := hg.agrees key' l'
      simp only [leaders, hp, bind_some, head?_cons] at h
      simpa using h
    · simpa [hk] using hg.agrees key' l'
  · -- the group of `l` gets one more member, the others stay
    by_cases hl' : l' = l
    · subst hl'
      rw [if_pos rfl, hls.of_key hl, hls.of_key hl, hp]
      simp
    · rw [if_neg hl']
      exact hls.of_ne _ fun h => hl' (hg.agrees.unique h hl)

theorem Grouping.lead (hg : Grouping s) (ha : s.tasks c = .absent) (hp : s.pending key = none) :
    Registered s c key c (s.register c key) := by
  have hn : ∀ key', (s.register c key).pending key' ≠ some [] := hg.register_nonempty
  simp only [register, hp] at hn ⊢
  refine ⟨?_, hn, rfl, rfl, rfl, by simp [CoalesceTaskPc.key?], fun hls l' => ?_, fun l' => ?_, rfl, rfl⟩
  · rw [leaders_update]
    refine hg.agrees.lock (Flock.tryLock_eq_some.mpr ⟨?_, rfl⟩) ?_ rfl
    · simp [leaders, hp]
    · simp [ha, CoalesceTaskPc.key?]
  · dsimp only
    by_cases hl' : l' = c
    · subst hl'
      rw [if_pos rfl, update_self, ha, hls.absent, hls.of_key rfl]
      simp
    · rw [if_neg hl', update_of_ne hl']
      refine hls.of_ne _ fun h => ?_
      have := (hg.agrees key l').mpr h
      simp [leaders, hp] at this
  · by_cases hl' : l' = c
    · subst hl'
      exact .inr ⟨rfl, rfl, ha, key, update_self ..⟩
    · exact .inl (update_of_ne hl' ..)

theorem Grouping.registered (hg : Grouping s) (hi : s.calls c = .idle) (key : String) :
    ∃ l, Registered s c key l (s.register c key) := by
  cases hp : s.pending key with
  | none => exact ⟨c, hg.lead (hg.absent_of_idle hi) hp⟩
  | some ws => exact hg.join hp

theorem Registered.asked_leader (h : Registered s c key l s') (hg : Grouping s) : s'.asked l = some key := by
  rw [h.asked]
  by_cases hc : l = c
  · subst hc
    exact update_self ..
  · rcases h.tasks l with hs | ⟨hlc, -⟩
    · rw [update_of_ne hc]
      exact hg.keyed l key (hs ▸ h.key)
    · exact absurd hlc hc

theorem Grouping.register (hg : Grouping s) (hi : s.calls c = .idle) (h : Registered s c key l s') :
    Grouping s' := by
  have hf := hg.fresh_of_idle hi
  have hm : ∀ l', s'.members l' = if l' = l then s.members l ++ [c] else s.members l' := h.lists ofKey_members
  have hkeep : ∀ l', s.tasks l' ≠ .absent → s'.asked l' = s.asked l' := by
    intro l' hl'
    have hlc : l' ≠ c := by
      rintro rfl
      exact hl' (hg.absent_of_idle hi)
    rw [h.asked, update_of_ne hlc]
  refine ⟨h.agrees, h.nonempty, fun l' c' => ?_, fun l' => ?_, fun c' => ?_, fun l' hl' => ?_,
    fun l' key' hl' => ?_, fun l' c' hc' => ?_⟩
  · rw [hm, h.group]
    by_cases hc : c' = c
    · subst hc
      by_cases hl' : l' = l
      · simp [hl']
      · simp [hl', hf l', Ne.symm hl']
    · have hif := hg.mem_iff l' c'
      by_cases hl' : l' = l
      · subst hl'
        simpa [hc] using hif
      · simpa [hl', hc] using hif
  · rw [hm]
    split
    · rw [nodup_append_comm]
      exact nodup_cons.mpr ⟨hf l, hg.nodup l⟩
    · exact hg.nodup l'
  · rw [h.calls, h.group]
    by_cases hc : c' = c
    · subst hc; simp
    · simpa [hc] using hg.idle_iff c'
  · rw [h.group]
    rcases h.tasks l' with hs | ⟨rfl, rfl, -⟩
    · have hsl := hg.leads_self l' (hs ▸ hl')
      have hlc : l' ≠ c := by
        rintro rfl
        simp [(hg.idle_iff l').mp hi] at hsl
      rw [update_of_ne hlc, hsl]
    · exact update_self ..
  · by_cases hl : l' = l
    · subst hl
      rw [h.asked_leader hg, ← hl', h.key]
    · rcases h.tasks l' with hs | ⟨rfl, rfl, -⟩
      · rw [hs] at hl'
        have hab : s.tasks l' ≠ .absent := by
          intro hab
          rw [hab] at hl'
          cases hl'
        rw [hkeep l' hab]
        exact hg.keyed l' key' hl'
      · exact absurd rfl hl
  · have hold (k : Caller) (hk : c' ∈ s.members k) : s'.asked c' = s'.asked k := by
      have hcc : c' ≠ c := by
        rintro rfl
        exact hf k hk
      have hab : s.tasks k ≠ .absent := by
        intro hab
        rw [members, hab] at hk
        cases hk
      rw [hkeep k hab, h.asked, update_of_ne hcc]
      exact hg.same_key k c' hk
    rw [hm] at hc'
    split at hc'
    · rename_i hl
      subst hl
      rcases mem_append.mp hc' with hk | hk
      · exact hold l' hk
      · rw [mem_singleton.mp hk, h.asked_leader hg, h.asked, update_self]
    · exact hold l' hc'

theorem Grouping.drain_lists (hg : Grouping s) (ht : s.tasks l = .sleeping key till)
    {list : (String → Option (List Caller)) → CoalesceTaskPc → List Caller} (hls : OfKey list) (l' : Caller) :
    list (update s.pending key none)
      ((s.setTask l (.drained ((s.pending key).getD []))).tasks l') = list s.pending (s.tasks l') := by
  have hk : (s.tasks l).key? = some key := by rw [ht]; rfl
  by_cases hl' : l' = l
  · subst hl'
    simp [setTask, hls.drained, hls.of_key hk]
  · simp only [setTask, update_of_ne hl']
    exact hls.of_ne _ fun h => hl' (hg.agrees.unique h hk)

theorem Grouping.drain (hg : Grouping s) (ht : s.tasks l = .sleeping key till) :
    Grouping { s.setTask l (.drained ((s.pending key).getD [])) with
      pending := update s.pending key none } := by
  have hky : (s.tasks l).key? = some key := by rw [ht]; rfl
  have hm : ∀ l', members { s.setTask l (.drained ((s.pending key).getD [])) with
      pending := update s.pending key none } l' = s.members l' := hg.drain_lists ht ofKey_members
  constructor
  · have hl : leaders s.pending key = some l := (hg.agrees key l).mpr hky
    have h := hg.agrees.unlock (k := .drained ((s.pending key).getD [])) hky rfl
    simp only [leaders_update, bind_none]
    simpa [setTask, Flock.unlock, hl] using h
  · intro key'
    by_cases hk : key' = key
    · subst hk; simp
    · simpa [hk, setTask] using hg.nonempty key'
  · intro l' c'
    rw [hm]
    exact hg.mem_iff l' c'
  · intro l'
    rw [hm]
    exact hg.nodup l'
  · exact hg.idle_iff
  · intro l' h
    by_cases hl' : l' = l
    · subst hl'
      exact hg.leads_self l' (by rw [ht]; simp)
    · exact hg.leads_self l' (by simpa [setTask, hl'] using h)
  · intro l' key' h
    by_cases hl' : l' = l
    · subst hl'
      simp [setTask, CoalesceTaskPc.key?] at h
    · exact hg.keyed l' key' (by simpa [setTask, hl'] using h)
  · intro l' c' h
    exact hg.same_key l' c' (hm l' ▸ h)

theorem CoalescerStep.grouping (h : CoalescerStep win s label s') (hg : Grouping s) : Grouping s' := by
  cases h with
  | tick => exact hg.congr rfl rfl rfl (fun _ => Iff.rfl) (fun _ => rfl) (fun _ => rfl) (fun _ => id)
  | @register c key hi =>
    obtain ⟨l, hr⟩ := hg.registered hi key.hex
    exact hg.register hi hr
  | spawn ht => exact hg.move ht rfl rfl (by simp)
  | drain ht => exact hg.drain ht
  | @exec l ws ht =>
    have hm : Grouping (s.setTask l (.executing ws)) := hg.move ht rfl rfl (by simp)
    exact hm.congr rfl rfl rfl (fun _ => Iff.rfl) (fun _ => rfl) (fun _ => rfl) (fun _ => id)
  | execDone ht => exact hg.move ht rfl rfl (by simp)
  | @send l ws res c rs ht =>
    have hm : Grouping (s.setTask l (.broadcasting ws res rs)) := hg.move ht rfl rfl (by simp)
    exact hm.congr rfl rfl rfl (fun _ => Iff.rfl) (fun _ => rfl) (fun _ => rfl) (fun _ => id)
  | finish ht => exact hg.move ht rfl rfl (by simp)
  | @receive c _ _ hw _ | @cancel c hw =>
    refine hg.congr rfl rfl rfl ?_ (fun _ => rfl) (fun _ => rfl) (fun _ => id)
    intro c'
    by_cases hc : c' = c
    · subst hc; simp [hw]
    · simp [hc]

/-- What the state of its group's task says has been sent to a caller. -/
def CoalescerState.answers (s : CoalescerState) (c : Caller) : List ExecResult :=
  match s.group c with
  | none => []
  | some l => if c ∈ s.unanswered l then [] else ((s.tasks l).result?.map cloneResult).toList

def CoalesceTaskPc.execs : CoalesceTaskPc → Nat
  | .executing _ | .broadcasting _ _ _ | .finished _ _ => 1
  | _ => 0

/-- What was sent and executed is what the states of the tasks say. -/
structure Delivery (s : CoalescerState) : Prop where
  suffix : ∀ l, s.unanswered l <:+ s.members l
  sent : ∀ c, s.sent c = s.answers c
  execs : ∀ l, s.execLog.count l = (s.tasks l).execs
  returned : ∀ c a, s.calls c = .returned a → s.sent c = [a]

theorem answers_congr (hgr : s'.group c = s.group c)
    (hun : ∀ l, s.group c = some l → (c ∈ s'.unanswered l ↔ c ∈ s.unanswered l))
    (hr : ∀ l, s.group c = some l → c ∉ s.unanswered l →
      (s'.tasks l).result? = (s.tasks l).result?) : s'.answers c = s.answers c := by
  unfold answers
  rw [hgr]
  cases hl : s.group c with
  | none => rfl
  | some l =>
    by_cases hc : c ∈ s.unanswered l
    · simp [hc, (hun l hl).mpr hc]
    · have hc' : c ∉ s'.unanswered l := fun h => hc ((hun l hl).mp h)
      simp [hc, hc', hr l hl hc]

theorem Delivery.congr (hd : Delivery s) (hgr : s'.group = s.group) (hs : s'.sent = s.sent)
    (hun : ∀ l, s'.unanswered l = s.unanswered l) (hm : ∀ l, s'.members l = s.members l)
    (hrs : ∀ l c, s.group c = some l → c ∉ s.unanswered l → (s'.tasks l).result? = (s.tasks l).result?)
    (he : ∀ l, s'.execLog.count l = (s'.tasks l).execs)
    (hr : ∀ c a, s'.calls c = .returned a → s.sent c = [a]) : Delivery s' where
  suffix l := by rw [hun, hm]; exact hd.suffix l
  sent c := by
    rw [hs, answers_congr (by rw [hgr]) (fun l _ => by rw [hun]) (fun l => hrs l c)]
    exact hd.sent c
  execs := he
  returned c a h := by rw [hs]; exact hr c a h

theorem Delivery.move (hd : Delivery s) (ht : s.tasks l = pc)
    (hun : pc'.unanswered s.pending = pc.unanswered s.pending)
    (hm : pc'.members s.pending = pc.members s.pending) (hr : pc'.result? = pc.result?)
    (he : pc'.execs = pc.execs) : Delivery (s.setTask l pc') :=
  hd.congr rfl rfl (setTask_tasks (·.unanswered s.pending) ht hun)
    (setTask_tasks (·.members s.pending) ht hm) (fun l' _ _ _ => setTask_tasks (·.result?) ht hr l')
    (fun l' => (hd.execs l').trans (setTask_tasks (·.execs) ht he l').symm) hd.returned

theorem Delivery.sent_of_idle (hd : Delivery s) (hg : Grouping s) (hi : s.calls c = .idle) :
    s.sent c = [] := by
  rw [hd.sent c, answers, (hg.idle_iff c).mp hi]

theorem Delivery.register (hd : Delivery s) (hg : Grouping s) (hi : s.calls c = .idle)
    (h : Registered s c key l s') : Delivery s' := by
  have hm : ∀ l', s'.members l' = if l' = l then s.members l ++ [c] else s.members l' := h.lists ofKey_members
  have hun : ∀ l', s'.unanswered l' = if l' = l then s.unanswered l ++ [c] else s.unanswered l' :=
    h.lists ofKey_unanswered
  refine ⟨fun l' => ?_, fun c' => ?_, fun l' => ?_, fun c' a ha => ?_⟩
  · rw [hm, hun]
    split
    · obtain ⟨answered, han⟩ := hd.suffix l
      exact ⟨answered, by rw [← append_assoc, han]⟩
    · exact hd.suffix l'
  · rw [h.sent]
    by_cases hc : c' = c
    · subst hc
      simp [answers, h.group, hun, hd.sent_of_idle hg hi]
    · rw [answers_congr (s := s), hd.sent c']
      · simp [h.group, hc]
      · intro l' _
        rw [hun]
        split
        · rename_i heq
          simp [heq, hc]
        · rfl
      · intro l' _ _
        rcases h.tasks l' with hs | ⟨-, -, hab, key, hn⟩
        · rw [hs]
        · rw [hab, hn]
          rfl
  · rw [h.execLog, hd.execs l']
    rcases h.tasks l' with hs | ⟨-, -, hab, key, hn⟩
    · rw [hs]
    · rw [hab, hn]
      rfl
  · rw [h.calls] at ha
    rw [h.sent]
    by_cases hc : c' = c
    · subst hc; simp at ha
    · rw [update_of_ne hc] at ha
      exact hd.returned c' a ha

theorem Delivery.drain (hd : Delivery s) (hg : Grouping s) (ht : s.tasks l = .sleeping key till) :
    Delivery { s.setTask l (.drained ((s.pending key).getD [])) with
      pending := update s.pending key none } := by
  refine hd.congr rfl rfl (hg.drain_lists ht ofKey_unanswered) (hg.drain_lists ht ofKey_members) ?_ ?_
    hd.returned
  · intro l' _ _ _
    exact setTask_tasks (·.result?) ht (by rfl) l'
  · intro l'
    exact (hd.execs l').trans (setTask_tasks (·.execs) ht (by rfl) l').symm

theorem Delivery.exec (hd : Delivery s) (ht : s.tasks l = .drained ws) :
    Delivery { s.setTask l (.executing ws) with execLog := l :: s.execLog } := by
  refine hd.congr rfl rfl (setTask_tasks (·.unanswered s.pending) ht (by rfl))
    (setTask_tasks (·.members s.pending) ht (by rfl)) ?_ ?_ hd.returned
  · intro l' _ _ _
    exact setTask_tasks (·.result?) ht (by rfl) l'
  · intro l'
    have h := hd.execs l'
    by_cases hl : l' = l
    · subst hl
      rw [ht] at h
      simpa [setTask, CoalesceTaskPc.execs] using h
    · simpa [setTask, hl, count_cons, Ne.symm hl] using h

theorem Delivery.execDone (hd : Delivery s) (hg : Grouping s) (ht : s.tasks l = .executing ws)
    (res : ExecResult) :
    Delivery (s.setTask l (.broadcasting ws res ws)) := by
  have hun : s.unanswered l = ws := by rw [unanswered, ht]; rfl
  have hme : s.members l = ws := by rw [members, ht]; rfl
  refine hd.congr rfl rfl (setTask_tasks (·.unanswered s.pending) ht (by rfl))
    (setTask_tasks (·.members s.pending) ht (by rfl)) ?_
    (fun l' => (hd.execs l').trans (setTask_tasks (·.execs) ht (by rfl) l').symm) hd.returned
  intro l' c hc hn
  by_cases hl : l' = l
  · subst hl
    have hm := (hg.mem_iff l' c).mpr hc
    rw [hme] at hm
    exact absurd (hun ▸ hm) hn
  · simp [setTask, hl]

variable {res : ExecResult} {rs : List Caller}

theorem Delivery.send (hd : Delivery s) (hg : Grouping s) (ht : s.tasks l = .broadcasting ws res (c :: rs)) :
    Delivery { s.setTask l (.broadcasting ws res rs) with
      sent := update s.sent c (s.sent c ++ [cloneResult res]) } := by
  have hun : s.unanswered l = c :: rs := by rw [unanswered, ht]; rfl
  have hm : s.members l = ws := by rw [members, ht]; rfl
  have hs : c :: rs <:+ ws := by rw [← hun, ← hm]; exact hd.suffix l
  have hgr : s.group c = some l := (hg.mem_iff l c).mp (by
    rw [hm]; exact hs.subset (mem_cons_self))
  have hsn : s.sent c = [] := by
    rw [hd.sent c, answers, hgr]; simp [hun]
  have hn : (c :: rs).Nodup := hs.sublist.nodup (hm ▸ hg.nodup l)
  have hnt : c ∉ rs := (nodup_cons.mp hn).1
  constructor
  · intro l'
    by_cases hl : l' = l
    · subst hl
      simpa [unanswered, members, setTask, CoalesceTaskPc.unanswered, CoalesceTaskPc.members] using
        (suffix_cons c rs).trans hs
    · simpa [unanswered, members, setTask, hl] using
        hd.suffix l'
  · intro c'
    by_cases hc : c' = c
    · subst hc
      simp [answers, setTask, hgr, hsn, unanswered, CoalesceTaskPc.unanswered, CoalesceTaskPc.result?, hnt]
    · refine Eq.trans ?_ (Eq.symm (answers_congr (s := s) ?_ ?_ ?_))
      · simpa [hc, setTask] using hd.sent c'
      · rfl
      · intro l' _
        by_cases hl : l' = l
        · subst hl
          rw [hun]
          simp [unanswered, setTask, CoalesceTaskPc.unanswered, hc]
        · simp [unanswered, setTask, hl]
      · intro l' _ _
        exact setTask_tasks (·.result?) ht (by rfl) l'
  · intro l'
    exact (hd.execs l').trans (setTask_tasks (·.execs) ht (by rfl) l').symm
  · intro c' a h
    have hr := hd.returned c' a h
    by_cases hc : c' = c
    · subst hc; simp [hsn] at hr
    · simpa [hc, setTask] using hr

theorem Delivery.sent_length (hd : Delivery s) (c : Caller) : (s.sent c).length ≤ 1 := by
  rw [hd.sent c, answers]
  split
  · simp
  · split
    · simp
    · cases (s.tasks _).result? <;> simp

theorem CoalescerStep.delivery (h : CoalescerStep win s label s') (hg : Grouping s) (hd : Delivery s) :
    Delivery s' := by
  cases h with
  | tick => exact ⟨hd.suffix, hd.sent, hd.execs, hd.returned⟩
  | @register c key hi =>
    obtain ⟨l, hr⟩ := hg.registered hi key.hex
    exact hd.register hg hi hr
  | spawn ht => exact hd.move ht rfl rfl rfl rfl
  | drain ht => exact hd.drain hg ht
  | exec ht => exact hd.exec ht
  | execDone ht => exact hd.execDone hg ht _
  | send ht => exact hd.send hg ht
  | finish ht => exact hd.move ht rfl rfl rfl rfl
  | @receive c res rs hw hs =>
    refine ⟨hd.suffix, hd.sent, hd.execs, ?_⟩
    intro c' a h
    by_cases hc : c' = c
    · subst hc
      obtain rfl : res = a := by simpa using h
      -- at most one value was sent, so the one received is the only one
      have hl := hd.sent_length c'
      rw [hs] at hl
      have hrest : rs = [] := by simpa using hl
      exact hs.trans (by rw [hrest])
    · exact hd.returned c' a (by simpa [hc] using h)
  | @cancel c hw =>
    refine ⟨hd.suffix, hd.sent, hd.execs, ?_⟩
    intro c' a h
    by_cases hc : c' = c
    · subst hc; simp at h
    · exact hd.returned c' a (by simpa [hc] using h)

theorem grouping_init : Grouping (coalescerMachine win).init where
  agrees key l := by simp [coalescerMachine, leaders, CoalesceTaskPc.key?]
  nonempty key := by simp [coalescerMachine]
  mem_iff l c := by simp [coalescerMachine, members, CoalesceTaskPc.members]
  nodup l := by simp [coalescerMachine, members, CoalesceTaskPc.members]
  idle_iff c := by simp [coalescerMachine]
  leads_self l h := by simp [coalescerMachine] at h
  keyed l key h := by simp [coalescerMachine, CoalesceTaskPc.key?] at h
  same_key l c h := by simp [coalescerMachine, members, CoalesceTaskPc.members] at h

theorem delivery_init : Delivery (coalescerMachine win).init where
  suffix l := suffix_rfl
  sent c := rfl
  execs l := rfl
  returned c a h := by simp [coalescerMachine] at h

theorem coalescer_inv (h : (coalescerMachine win).Reachable s) : Grouping s ∧ Delivery s := by
  refine Machine.invariant ⟨grouping_init, delivery_init⟩ ?_ h
  rintro s l s' ⟨hg, hd⟩ hs
  have hstep := CoalescerStep.of_eq hs
  exact ⟨hstep.grouping hg, hstep.delivery hg hd⟩

def CoalescerLabel.OwnStep (l : Caller) : CoalescerLabel → Prop
  | .tick _ => True
  | .spawn l' | .drain l' | .exec l' | .execDone l' _ | .send l' | .finish l' => l' = l
  | _ => False

/-- The state from which `l`'s task can finish its group `waiters` by its own steps. -/
def CanFinish (win : Nat) (l : Caller) (waiters : List Caller) (s : CoalescerState) : Prop :=
  ∃ s' r, Relation.ReflTransGen ((coalescerMachine win).Next (CoalescerLabel.OwnStep l)) s s' ∧
    s'.tasks l = .finished waiters r

theorem CanFinish.of_step (label : CoalescerLabel) (ho : label.OwnStep l)
    (hs : (coalescerMachine win).step s label = some s') (h : CanFinish win l ws s') :
    CanFinish win l ws s := by
  obtain ⟨t, r, hst, ht⟩ := h
  exact ⟨t, r, hst.head ⟨label, ho, hs⟩, ht⟩

theorem canFinish_of_broadcasting (ht : s.tasks l = .broadcasting ws result rs) : CanFinish win l ws s := by
  induction rs generalizing s with
  | nil =>
    refine .of_step (.finish l) rfl (by simp only [coalescerMachine, ht]; rfl) ?_
    exact ⟨_, result, .refl, by simp [setTask]⟩
  | cons c rs ih =>
    refine .of_step (.send l) rfl (by simp only [coalescerMachine, ht]; rfl) ?_
    exact ih (by simp [setTask])

theorem canFinish_of_executing (ht : s.tasks l = .executing ws) : CanFinish win l ws s := by
  refine .of_step (.execDone l (.error ⟨"", []⟩)) rfl (by simp only [coalescerMachine, ht]; rfl) ?_
  exact canFinish_of_broadcasting (update_self ..)

theorem canFinish_of_drained (ht : s.tasks l = .drained ws) : CanFinish win l ws s := by
  refine .of_step (.exec l) rfl (by simp only [coalescerMachine, ht]; rfl) ?_
  exact canFinish_of_executing (update_self ..)

theorem canFinish_of_sleeping (ht : s.tasks l = .sleeping key till) :
    CanFinish win l ((s.pending key).getD []) s := by
  refine .of_step (.tick till) trivial rfl ?_
  have hl : ¬ s.now + till < till := by omega
  refine .of_step (.drain l) rfl (by simp only [coalescerMachine, ht, if_neg hl]; rfl) ?_
  exact canFinish_of_drained (update_self ..)

theorem canFinish_of_members (h : s.members l ≠ []) : CanFinish win l (s.members l) s := by
  unfold members at h ⊢
  cases ht : s.tasks l with
  | absent => simp [ht, CoalesceTaskPc.members] at h
  | unspawned key =>
    refine .of_step (.spawn l) rfl (by simp only [coalescerMachine, ht]; rfl) ?_
    exact canFinish_of_sleeping (update_self ..)
  | sleeping key till => exact canFinish_of_sleeping ht
  | drained ws => exact canFinish_of_drained ht
  | executing ws => exact canFinish_of_executing ht
  | broadcasting ws result rs => exact canFinish_of_broadcasting ht
  | finished ws result => exact ⟨s, result, .refl, ht⟩

theorem cloneResult_sameOutcome (r : ExecResult) : SameOutcome (cloneResult r) r := by
  cases r <;> rfl

/-- What the coalescer owes its callers in a state. -/
structure Delivers (win : Nat) (s : CoalescerState) : Prop where
  one_group : ∀ c, s.calls c ≠ .idle → ∃! l, c ∈ s.members l
  nodup : ∀ l, (s.members l).Nodup
  same_key : ∀ l, ∀ c ∈ s.members l, s.asked c = s.asked l
  /-- The executor of a group runs once before its result is sent, and never a second time. -/
  exec_le_one : ∀ l, s.execLog.count l ≤ 1
  exec_once : ∀ l res, (s.tasks l).result? = some res → s.execLog.count l = 1
  exec_leader : ∀ l, ∀ c ∈ s.members l, c ≠ l → s.execLog.count c = 0
  /-- What a caller is sent is the result of its group. -/
  answer : ∀ c, ∀ a ∈ s.sent c, ∃ l res, c ∈ s.members l ∧ (s.tasks l).result? = some res ∧ SameOutcome a res
  sent_le_one : ∀ c, (s.sent c).length ≤ 1
  /-- Nobody is lost: the task of the group still holds the sender of an unanswered member. -/
  kept : ∀ l, ∀ c ∈ s.members l, s.sent c = [] → c ∈ s.unanswered l
  all_answered : ∀ l ws res, s.tasks l = .finished ws res → ∀ c ∈ ws, ∃ a, s.sent c = [a] ∧ SameOutcome a res
  /-- The task of a group can always finish by its own steps. -/
  can_finish : ∀ l, s.members l ≠ [] → CanFinish win l (s.members l) s
  /-- A call that has been answered can return the answer, and a call returns nothing else. -/
  can_return : ∀ c a, s.calls c = .waiting → s.sent c = [a] →
    ∃ s', (coalescerMachine win).step s (.receive c) = some s' ∧ s'.calls c = .returned a
  returned : ∀ c a, s.calls c = .returned a → s.sent c = [a]

theorem Delivery.sent_of_answered (hd : Delivery s) (hg : Grouping s) (hc : c ∈ s.members l)
    (hn : c ∉ s.unanswered l) : s.sent c = ((s.tasks l).result?.map cloneResult).toList := by
  rw [hd.sent c, answers, (hg.mem_iff l c).mp hc]
  simp [hn]

theorem result_of_answered (hc : c ∈ s.members l) (hn : c ∉ s.unanswered l) :
    ∃ res, (s.tasks l).result? = some res := by
  unfold members at hc
  unfold unanswered at hn
  cases ht : s.tasks l <;> rw [ht] at hc hn
  case broadcasting ws res rs => exact ⟨res, rfl⟩
  case finished ws res => exact ⟨res, rfl⟩
  all_goals exact absurd hc hn

/-- **Delivery**, in every interleaving of registrations, drains and broadcasts, in which waiting callers may be
cancelled but no task is. -/
theorem coalesce_delivers (window : Nat) {s : CoalescerState}
    (h : (coalescerMachine window).Reachable s) : Delivers window s := by
  obtain ⟨hg, hd⟩ := coalescer_inv h
  constructor
  · intro c hc
    obtain ⟨l, hl⟩ : ∃ l, s.group c = some l :=
      ne_none_iff_exists'.mp fun hn => hc ((hg.idle_iff c).mpr hn)
    refine ⟨l, (hg.mem_iff l c).mpr hl, ?_⟩
    intro l' hl'
    exact some.inj (((hg.mem_iff l' c).mp hl').symm.trans hl)
  · exact hg.nodup
  · exact hg.same_key
  · intro l
    rw [hd.execs l]
    cases s.tasks l <;> simp [CoalesceTaskPc.execs]
  · intro l result hr
    rw [hd.execs l]
    cases ht : s.tasks l <;> simp_all [CoalesceTaskPc.execs, CoalesceTaskPc.result?]
  · intro l c hc hne
    rw [hd.execs c]
    have hab : s.tasks c = .absent := by
      by_contra hld
      have hsl := hg.leads_self c hld
      have hm := (hg.mem_iff l c).mp hc
      exact hne (some.inj (hsl.symm.trans hm))
    simp [hab, CoalesceTaskPc.execs]
  · intro c a ha
    rw [hd.sent c, answers] at ha
    cases hl : s.group c with
    | none => simp [hl] at ha
    | some l =>
      have hm := (hg.mem_iff l c).mpr hl
      by_cases hun : c ∈ s.unanswered l
      · simp [hl, hun] at ha
      · obtain ⟨result, hr⟩ := result_of_answered hm hun
        obtain rfl : a = cloneResult result := by simpa [hl, hun, hr] using ha
        exact ⟨l, result, hm, hr, cloneResult_sameOutcome result⟩
  · intro c
    exact hd.sent_length c
  · intro l c hc he
    by_contra hun
    obtain ⟨result, hr⟩ := result_of_answered hc hun
    have hs := hd.sent_of_answered hg hc hun
    simp [he, hr] at hs
  · intro l ws result ht c hc
    have hm : c ∈ s.members l := by rw [members, ht]; exact hc
    have hun : c ∉ s.unanswered l := by
      rw [unanswered, ht]; simp [CoalesceTaskPc.unanswered]
    have hs := hd.sent_of_answered hg hm hun
    rw [ht] at hs
    exact ⟨cloneResult result, hs, cloneResult_sameOutcome result⟩
  · intro l hne
    exact canFinish_of_members hne
  · intro c a hw hs
    refine ⟨_, by simp only [coalescerMachine, hw, hs]; rfl, ?_⟩
    simp
  · exact hd.returned

/-- Three callers of one key, one of which gives up, and a fourth one after the drain. -/
def lateCallerSchedule : List CoalescerLabel :=
  [.register 0 ⟨"k"⟩, .spawn 0, .register 1 ⟨"k"⟩, .register 2 ⟨"k"⟩, .cancel 2, .tick 100, .drain 0,
    .register 3 ⟨"k"⟩, .exec 0, .execDone 0 (.ok ⟨0, [7], []⟩), .send 0, .send 0, .send 0, .finish 0,
    .receive 1]

theorem coalesce_delivers_late_caller :
    ∃ s, (coalescerMachine 100).run (coalescerMachine 100).init lateCallerSchedule = some s ∧
      s.members 0 = [0, 1, 2] ∧ s.members 3 = [3] ∧ s.calls 1 = .returned (.ok ⟨0, [7], []⟩) ∧
      Delivers 100 s :=
  ⟨_, rfl, rfl, rfl, rfl, coalesce_delivers 100
    (@Machine.reachable_of_run _ _ (coalescerMachine 100) _ lateCallerSchedule rfl)⟩

end ShareCli.Core
