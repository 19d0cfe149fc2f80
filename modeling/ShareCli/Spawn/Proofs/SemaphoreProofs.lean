import ShareCli.Spawn.Semaphore

/-!
# The semaphore neither loses a permit nor a wakeup

While a thread is asleep in `acquire`, there are no more free permits than threads that have been signalled and
not gone on yet, but for the one that a release is about to signal.
-/

namespace ShareCli.Spawn

open Foundation Monitor ZigSemaphore MonitorState SemaphorePoint Place List

inductive Acts (sem : Semaphore) :
    SemaphorePoint → MonitorAction SemaphorePoint Semaphore Int PthreadError → Prop where
  | sleep (h : sem.count = 0) : Acts sem .acquireTest (.wait .acquireTest .acquireFailed)
  | found (h : 0 < sem.count) : Acts sem .acquireTest (.step sem .acquireTake)
  | take : Acts sem .acquireTake (.step sem.take .acquireUnlock)
  | taken : Acts sem .acquireUnlock (.unlock 0)
  | failed (error : PthreadError) : Acts sem (.acquireFailed error) (.unlock error.negated)
  | tryFound (h : 0 < sem.count) : Acts sem .tryTest (.step sem .tryTake)
  | tryRefused (h : sem.count = 0) : Acts sem .tryTest (.step sem (.tryUnlock 1))
  | tryTake : Acts sem .tryTake (.step sem.take (.tryUnlock 0))
  | tryDone (got : Int) : Acts sem (.tryUnlock got) (.unlock got)
  | room (h : sem.count < sem.max) : Acts sem .releaseTest (.step sem .releaseAdd)
  | full (h : ¬ sem.count < sem.max) : Acts sem .releaseTest (.step sem .releaseSignal)
  | add : Acts sem .releaseAdd (.step sem.giveBack .releaseSignal)
  | signal : Acts sem .releaseSignal (.signal .releaseUnlock)
  | released : Acts sem .releaseUnlock (.unlock 0)

variable {p next : SemaphorePoint} {sem : Semaphore} {place l' : Place SemaphorePoint}

theorem acts_of_act {action : MonitorAction SemaphorePoint Semaphore Int PthreadError}
    (h : spcSemaphore.act p sem = action) :
    Acts sem p action := by
  subst h
  simp only [spcSemaphore]
  cases p with
  | acquireTest =>
    simp only [Semaphore.act]
    split_ifs with h
    · exact .sleep h
    · exact .found (Nat.pos_of_ne_zero h)
  | acquireTake => exact .take
  | acquireUnlock => exact .taken
  | acquireFailed error => exact .failed error
  | tryTest =>
    simp only [Semaphore.act]
    split_ifs with h
    · exact .tryFound h
    · exact .tryRefused (Nat.eq_zero_of_not_pos h)
  | tryTake => exact .tryTake
  | tryUnlock got => exact .tryDone got
  | releaseTest =>
    simp only [Semaphore.act]
    split_ifs with h
    · exact .room h
    · exact .full h
  | releaseAdd => exact .add
  | releaseSignal => exact .signal
  | releaseUnlock => exact .released

/-- The mutex makes a test of the count good until the thread itself changes the count. -/
def spcOutline : spcSemaphore.Outline where
  holds
    | .acquireTake, sem => 0 < sem.count
    | .tryTake, sem => 0 < sem.count
    | .tryUnlock got, sem => got = 0 ∨ got = 1 ∧ sem.count = 0
    | .releaseAdd, sem => sem.count < sem.max
    | _, _ => True
  waits p := p = .acquireTest
  start c sem := by
    cases c with
    | acquire => trivial
    | tryAcquire => trivial
    | release => trivial
  again := by
    rintro p rfl sem
    trivial
  step := by
    intro p sem sem' next hpoint hact
    cases acts_of_act hact with
    | found h => exact h
    | take => trivial
    | tryFound h => exact h
    | tryRefused h => exact .inr ⟨rfl, h⟩
    | tryTake => exact .inl rfl
    | room h => exact h
    | full h => trivial
    | add => trivial
  wait := by
    intro p sem again failed hact
    cases acts_of_act hact with
    | sleep h => exact ⟨rfl, fun _ => trivial⟩
  signal := by
    intro p sem next hpoint hact
    cases acts_of_act hact with
    | signal => trivial

structure Balanced (max : Nat) (s : MonitorState SemaphorePoint Semaphore Int) : Prop where
  max_eq : s.data.max = max
  total : s.data.count + s.data.held = max
  owed : s.tally releasing ≤ s.data.held
  awaited : 0 < s.tally isAsleep → s.data.count ≤ s.tally notified + s.tally aboutToSignal

/-- It takes or gives back a permit, and it uses up a signal only with a permit or if there is none. -/
structure Effect (started : Nat) (sem sem' : Semaphore) (place l' : Place SemaphorePoint) : Prop where
  max_eq : sem'.max = sem.max
  total : sem'.count + sem'.held = sem.count + sem.held
  owed : (releasing l').toNat + sem.held ≤ (releasing place).toNat + sem'.held + started
  awaited : sem'.count = 0 ∨ l'.isAsleep.toNat ≤ place.isAsleep.toNat ∧
    sem'.count + (notified place).toNat + (aboutToSignal place).toNat ≤
      sem.count + (notified l').toNat + (aboutToSignal l').toNat

theorem Effect.of_le {st : Nat} {sem : Semaphore} {place l' : Place SemaphorePoint}
    (hr : (releasing l').toNat ≤ (releasing place).toNat + st)
    (ha : l'.isAsleep.toNat ≤ place.isAsleep.toNat)
    (hn : (notified place).toNat + (aboutToSignal place).toNat ≤
      (notified l').toNat + (aboutToSignal l').toNat) :
    Effect st sem sem place l' :=
  ⟨rfl, rfl, by omega, .inr ⟨ha, by omega⟩⟩

theorem Effect.of_empty (hz : sem.count = 0)
    (hr : (releasing l').toNat ≤ (releasing place).toNat) : Effect 0 sem sem place l' :=
  ⟨rfl, rfl, by omega, .inl hz⟩

theorem effect_of_step {sem' : Semaphore} (g : Bool) (hat : spcOutline.holds p sem)
    (hh : p.isBeforeAdd.toNat ≤ sem.held) (ha : spcSemaphore.act p sem = .step sem' next) :
    Effect 0 sem sem' (.inside p g) (.inside next g) := by
  cases acts_of_act ha with
  | found h | tryFound h | room h => exact .of_le (Nat.le_refl _) (Nat.le_refl _) (Nat.le_refl _)
  | tryRefused h => exact .of_empty h (Nat.le_refl _)
  | full h =>
    refine .of_le (Nat.zero_le _) (Nat.le_refl _) ?_
    simp [notified, isBeforeTake, aboutToSignal]
  | take | tryTake =>
    have hc : 0 < sem.count := hat
    refine ⟨rfl, ?_, Nat.add_le_add_left (Nat.le_succ _) _, .inr ⟨Nat.le_refl _, ?_⟩⟩
    · simp only [Semaphore.take]
      omega
    · simp only [Semaphore.take, notified, aboutToSignal, isBeforeTake]
      cases g <;> simp <;> omega
  | add =>
    have hp : 1 ≤ sem.held := hh
    refine ⟨rfl, ?_, ?_, .inr ⟨Nat.le_refl _, ?_⟩⟩
    · simp only [Semaphore.giveBack]
      omega
    · simp only [Semaphore.giveBack, releasing, isBeforeAdd, Bool.toNat_true, Bool.toNat_false]
      omega
    · simp [Semaphore.giveBack, notified, aboutToSignal, isBeforeTake]

variable {s s' : MonitorState SemaphorePoint Semaphore Int} {event : MonitorEvent SemaphoreCall PthreadError}
  {index max : Nat} {t t' : MonitorThread SemaphorePoint Int} {sem' : Semaphore} {o' : Option Nat}

def releaseCalls : MonitorEvent SemaphoreCall PthreadError → Nat
  | .call _ .release => 1
  | _ => 0

theorem effect_of_move (hv : spcOutline.Valid s) (hg : s.threads[index]? = some t)
    (hh : (releasing t.place).toNat ≤ s.data.held)
    (hm : spcSemaphore.Move index s.data s.owner t event sem' o' t') :
    Effect (releaseCalls event) s.data sem' t.place t'.place := by
  have hat := hv.all t (mem_of_getElem? hg)
  cases hm with
  | call c hp =>
    rw [hp]
    cases c with
    | acquire | tryAcquire | release => exact .of_le (Nat.le_refl _) (Nat.le_refl _) (Nat.le_refl _)
  | lock p hp ho =>
    rcases hp with hp | hp
    · rw [hp]
      exact .of_le (Nat.le_refl _) (Nat.le_refl _) (Nat.zero_le _)
    · rw [hp] at hat ⊢
      obtain rfl : p = .acquireTest := hat
      exact .of_le (Nat.le_refl _) (Nat.le_refl _) (Nat.le_refl _)
  | relock p hp ho =>
    rw [hp] at hat ⊢
    obtain rfl : p = .acquireTest := hat
    exact .of_le (Nat.le_refl _) (Nat.le_refl _) (Nat.le_refl _)
  | lockError p error hp =>
    rw [hp]
    exact .of_le (Nat.zero_le _) (Nat.le_refl _) (Nat.le_refl _)
  | step p g _ next hp ha =>
    rw [hp] at hat hh ⊢
    exact effect_of_step g hat hh ha
  | wait p g agent failed hp ha
  | waitError p g agent failed error hp ha =>
    rw [hp]
    cases acts_of_act ha with
    | sleep h => exact .of_empty h (Nat.le_refl _)
  | unlock p g r hp ha =>
    rw [hp]
    refine .of_le (Nat.zero_le _) (Nat.le_refl _) ?_
    cases acts_of_act ha with
    | taken | failed error | tryDone got | released =>
      simp [notified, aboutToSignal, isBeforeTake]
  | wake p hp =>
    rw [hp]
    exact .of_le (Nat.le_refl _) (Nat.zero_le _) (Nat.le_refl _)

theorem Balanced.of_effect {st : Nat} (h : Balanced max s) (hg : s.threads[index]? = some t)
    (hs : s.tally releasing + st ≤ s.data.held)
    (he : Effect st s.data sem' t.place t'.place) :
    Balanced max { data := sem', owner := o', threads := s.threads.set index t' } := by
  have hr := tally_set releasing hg t' sem' o'
  have ha := tally_set isAsleep hg t' sem' o'
  have hn := tally_set notified hg t' sem' o'
  have hsg := tally_set aboutToSignal hg t' sem' o'
  refine ⟨he.max_eq.trans h.max_eq, he.total.trans h.total, ?_, fun hp => ?_⟩
  · have hle := he.owed
    show _ ≤ sem'.held
    omega
  · show sem'.count ≤ _
    rcases he.awaited with hz | ⟨hl, hle⟩
    · omega
    · have hb := h.awaited (by omega)
      omega

theorem Balanced.paired (h : Balanced max s) (hp : Paired s event) :
    s.tally releasing + releaseCalls event ≤ s.data.held := by
  unfold Paired at hp
  split at hp
  · exact hp
  · rename_i ho
    have hz : releaseCalls event = 0 := by
      unfold releaseCalls
      split
      · rename_i index
        exact absurd rfl (ho index)
      · rfl
    rw [hz]
    exact h.owed

theorem Balanced.of_signals {g : Bool} (h : Balanced max s)
    (hs : spcSemaphore.Signals s s' index t p g next) : Balanced max s' := by
  cases acts_of_act hs.act with
  | signal =>
  have ho := h.owed
  refine ⟨hs.data ▸ h.max_eq, hs.data ▸ h.total, ?_, fun hp => ?_⟩ <;> rw [hs.data] <;>
    rcases hs.tally with ⟨hz, htl⟩ | ⟨agent, htl⟩
  · have hr : s'.tally releasing = s.tally releasing := htl releasing
    omega
  · have hr : s'.tally releasing = s.tally releasing := htl releasing
    omega
  · have ha : s'.tally isAsleep = s.tally isAsleep := htl isAsleep
    omega
  · -- The thread itself is no longer about to signal, and another one has been signalled.
    have ha : s'.tally isAsleep + 1 = s.tally isAsleep := htl isAsleep
    have hsg : s'.tally aboutToSignal + 1 = s.tally aboutToSignal := htl aboutToSignal
    have hn := htl notified
    simp only [notified, isBeforeTake, Bool.and_false, Bool.toNat_false, Bool.toNat_true] at hn
    have hb := h.awaited (by omega)
    omega

theorem Balanced.step (h : Balanced max s) (hv : spcOutline.Valid s) (hp : Paired s event)
    (hstep : s.step spcSemaphore event = some s') : Balanced max s' := by
  rcases step_cases hstep with ⟨index, t, data', o', t', hg, hm, rfl⟩ |
    ⟨index, t, p, signalled, next, hs⟩
  · have hh : (releasing t.place).toNat ≤ s.data.held := by
      refine Nat.le_trans ?_ h.owed
      cases hr : releasing t.place with
      | false => exact Nat.zero_le _
      | true => exact tally_pos_iff.mpr ⟨t, mem_of_getElem? hg, hr⟩
    exact h.of_effect hg (h.paired hp) (effect_of_move hv hg hh hm)
  · exact h.of_signals hs

/-- `try_acquire` has found no permit, and none is given back before it returns. -/
theorem held_of_refused (h : Balanced max s) (hv : spcOutline.Valid s)
    (hstep : s.step spcSemaphore event = some s') (hg : s.threads[index]? = some t)
    (hg' : s'.threads[index]? = some t') (hn : t.result = none) (hs : t'.result = some 1) :
    s.data.held = max := by
  have hng : ∀ error : PthreadError, (1 : Int) ≠ error.negated := by
    intro error heq
    unfold PthreadError.negated at heq
    omega
  rcases returned_cases hstep hg hg' hn hs with ⟨error, he⟩ | ⟨p, signalled, hp, hac⟩
  · exact absurd he (hng error)
  · have hat := hv.all t (mem_of_getElem? hg)
    rw [hp] at hat
    have ha := acts_of_act hac
    generalize ho : (1 : Int) = result at ha
    cases ha with
    | taken | released => exact absurd ho (by decide)
    | failed error => exact absurd ho (hng error)
    | tryDone got =>
      subst ho
      rcases hat with hz | ⟨-, hc⟩
      · exact absurd hz (by decide)
      · have ht := h.total
        omega

theorem balanced_init (max n : Nat) : Balanced (Nat.max max 1) (threads max n).init := by
  have hz (f : Place SemaphorePoint → Bool) (hf : f .outside = false) : (threads max n).init.tally f = 0 := by
    refine countP_eq_zero.mpr fun t ht => ?_
    rw [eq_of_mem_replicate ht, hf]
    exact Bool.false_ne_true
  refine ⟨rfl, rfl, ?_, fun hp => ?_⟩
  · rw [hz releasing rfl]
    exact Nat.zero_le _
  · rw [hz isAsleep rfl] at hp
    exact absurd hp (Nat.lt_irrefl 0)

theorem invariant_of_reachable {n : Nat} (hs : (threads max n).ReachableWhen Paired s) :
    spcOutline.Valid s ∧ Balanced (Nat.max max 1) s := by
  refine Machine.invariantWhen (M := threads max n) ?_ ?_ hs
  · exact ⟨Outline.valid_init _ n, balanced_init max n⟩
  · rintro s event s' ⟨hv, hb⟩ hp hstep
    exact ⟨hv.step hstep, hb.step hv hp hstep⟩

theorem exists_notified (h : Balanced max s) (hf : 0 < s.data.count)
    (ha : ∃ t ∈ s.threads, t.place.isAsleep) : ∃ t ∈ s.threads, notified t.place ∨ aboutToSignal t.place := by
  have hle := h.awaited (tally_pos_iff.mpr ha)
  by_cases hn : 0 < s.tally notified
  · obtain ⟨t, ht, hp⟩ := tally_pos_iff.mp hn
    exact ⟨t, ht, .inl hp⟩
  · have hsg : 0 < s.tally aboutToSignal := by omega
    obtain ⟨t, ht, hp⟩ := tally_pos_iff.mp hsg
    exact ⟨t, ht, .inr hp⟩

/-- Whoever has been signalled or is about to signal waits for the mutex or has it. -/
theorem signalled_or_inside (h : notified place ∨ aboutToSignal place) :
    place.isSignalled ∨ place.isInside := by
  cases place with
  | signalled p => exact .inl rfl
  | inside p g => exact .inr rfl
  | outside => exact absurd h (by decide)
  | locking p | asleep p | woken p => exact absurd h nofun

/-- **The semaphore.** In every interleaving, with spurious wakeups and failing locks and waits, in which every
release follows an acquisition: the free permits and the held ones are `max` together; `try_acquire` returns
false only while all permits are held; a free permit and a blocked thread mean that a blocked thread has been
signalled, has got the mutex or is about to be signalled. -/
theorem semaphore_permits (max count : Nat) (s : MonitorState SemaphorePoint Semaphore Int)
    (hs : (ZigSemaphore.threads max count).ReachableWhen Paired s) :
    s.data.count + s.data.held = Nat.max max 1 ∧
    (∀ event s' (index : Nat) (t t' : MonitorThread SemaphorePoint Int) rc,
      (ZigSemaphore.threads max count).step s event = some s' →
      s.threads[index]? = some t → s'.threads[index]? = some t' → t.result = none → t'.result = some rc →
      ZigSemaphore.tryAcquireResult rc = .ok false → s.data.held = Nat.max max 1) ∧
    (s.owner = none → 0 < s.data.count → (∃ t ∈ s.threads, blocked t.place) →
      ∃ t ∈ s.threads, blocked t.place ∧ t.place.isSignalled) ∧
    (0 < s.data.count → (∃ t ∈ s.threads, t.place.isAsleep) →
      ∃ t ∈ s.threads, notified t.place ∨ aboutToSignal t.place) := by
  obtain ⟨hv, hb⟩ := invariant_of_reachable hs
  refine ⟨hb.total, ?_, ?_, exists_notified hb⟩
  · intro event s' index t t' rc hstep hg hg' hn hsm hr
    have hon : rc = 1 := by
      unfold tryAcquireResult at hr
      split_ifs at hr with h0 h1
      · cases hr
      · exact h1
    subst hon
    exact held_of_refused hb hv hstep hg hg' hn hsm
  · rintro ho hf ⟨t, ht, hbl⟩
    have hbl' : ∀ u : MonitorThread SemaphorePoint Int, u.place.isSignalled → blocked u.place :=
      fun u hu => (Bool.or_eq_true _ _).mpr (.inr hu)
    rcases (Bool.or_eq_true _ _).mp hbl with ha | hsg
    · obtain ⟨u, hu, hp⟩ := exists_notified hb hf ⟨t, ht, ha⟩
      rcases signalled_or_inside hp with hsg | hin
      · exact ⟨u, hu, hbl' u hsg, hsg⟩
      · obtain ⟨i, hi⟩ := getElem?_of_mem hu
        have how := hv.exclusive i u hi hin
        rw [ho] at how
        cases how
    · exact ⟨t, ht, hbl, hsg⟩

def acquiring (index : Nat) : List (MonitorEvent SemaphoreCall PthreadError) :=
  [.call index .acquire, .lock index, .proceed index, .proceed index, .proceed index]

def returned (s : MonitorState SemaphorePoint Semaphore Int) (index : Nat) : Option Int :=
  (s.threads[index]?).bind MonitorThread.result

/-- A second thread is refused; in another run one of two sleeping threads wakes up by itself, and the release
signals the other. -/
theorem one_permit_three_threads : (∃ s, (ZigSemaphore.threads 1 3).ReachableWhen Paired s ∧ s.data.held = 1 ∧
      ∃ s', (ZigSemaphore.threads 1 3).step s (.proceed 1) = some s' ∧ returned s' 1 = some 1) ∧
    ∃ s, (ZigSemaphore.threads 1 3).ReachableWhen Paired s ∧ s.data.count + s.data.held = 1 ∧ s.owner = none ∧
      0 < s.data.count ∧ (∃ t, s.threads[1]? = some t ∧ t.place.isAsleep) ∧
      ∃ t ∈ s.threads, blocked t.place ∧ t.place.isSignalled := by
  constructor
  · obtain ⟨s, hp, ⟨t, hg, hn⟩, s', hstep, hr⟩ :
        ∃ s, (threads 1 3).ReachableWhen Paired s ∧ (∃ t ∈ s.threads[1]?, t.result = none) ∧
          ∃ s' ∈ (threads 1 3).step s (.proceed 1), returned s' 1 = some 1 :=
      Machine.exists_reachable (acquiring 0 ++ [.call 1 .tryAcquire, .lock 1, .proceed 1]) (by decide +kernel)
    obtain ⟨t', hg', hs⟩ := Option.bind_eq_some_iff.mp hr
    obtain ⟨-, hrf, -⟩ := semaphore_permits 1 3 s hp
    exact ⟨s, hp, hrf _ s' 1 t t' 1 hstep hg hg' hn hs rfl, s', hstep, hr⟩
  · obtain ⟨s, hp, ho, hf, t, hg, ha⟩ :
        ∃ s, (threads 1 3).ReachableWhen Paired s ∧ s.owner = none ∧ 0 < s.data.count ∧
          ∃ t ∈ s.threads[1]?, t.place.isAsleep = true :=
      Machine.exists_reachable (acquiring 0 ++ [.call 1 .acquire, .lock 1, .proceed 1, .call 2 .acquire,
        .lock 2, .proceed 2, .wake 1, .lock 1, .proceed 1,
        .call 0 .release, .lock 0, .proceed 0, .proceed 0, .signal 0 2, .proceed 0]) (by decide +kernel)
    obtain ⟨ht, -, hsg, -⟩ := semaphore_permits 1 3 s hp
    have hbl : blocked t.place := (Bool.or_eq_true _ _).mpr (.inl ha)
    exact ⟨s, hp, ht, ho, hf, ⟨t, hg, ha⟩, hsg ho hf ⟨t, mem_of_getElem? hg, hbl⟩⟩

end ShareCli.Spawn
