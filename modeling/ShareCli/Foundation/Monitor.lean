import ShareCli.Foundation.Machine

/-!
# A mutex with a condition variable

A procedure of a monitor takes the mutex, goes from point to point while it has it, and gives it back.
Waiting gives the mutex back and puts the thread to sleep; a signal picks one of the threads that are asleep; a
thread may also wake up by itself. Taking the mutex and waiting may fail.
-/

namespace ShareCli.Foundation

open Option List

inductive MonitorAction (π δ ρ ε : Type*) where
  | step (data : δ) (next : π)
  | wait (again : π) (failed : ε → π)
  | signal (next : π)
  | unlock (result : ρ)

/-- What threads do under one lock. -/
structure Monitor (γ π δ ρ ε : Type*) where
  start : γ → π
  act : π → δ → MonitorAction π δ ρ ε
  lockFailed : ε → ρ

inductive Place (π : Type*) where
  | outside
  | locking (point : π)
  /-- The thread has the mutex; whether it got it back after a signal. -/
  | inside (point : π) (signalled : Bool)
  | asleep (point : π)
  | signalled (point : π)
  /-- Awake without a signal, and about to take the mutex again. -/
  | woken (point : π)
deriving DecidableEq

structure MonitorThread (π ρ : Type*) where
  place : Place π := .outside
  result : Option ρ := none
deriving DecidableEq

/-- The lock, the data and the threads. -/
structure MonitorState (π δ ρ : Type*) where
  data : δ
  owner : Option Nat := none
  threads : List (MonitorThread π ρ)

inductive MonitorEvent (γ ε : Type*) where
  | call (index : Nat) (c : γ)
  | lock (index : Nat)
  | lockError (index : Nat) (error : ε)
  | proceed (index : Nat)
  /-- A signal, and which of the threads that are asleep it picks. -/
  | signal (index target : Nat)
  | waitError (index : Nat) (error : ε)
  | wake (index : Nat)

variable {γ π δ ρ ε : Type*}

namespace Place

def isInside : Place π → Bool
  | .inside _ _ => true
  | _ => false

def isAsleep : Place π → Bool
  | .asleep _ => true
  | _ => false

def isSignalled : Place π → Bool
  | .signalled _ => true
  | _ => false

end Place

namespace MonitorState

variable (M : Monitor γ π δ ρ ε)

def entered : Place π → Option (Place π)
  | .locking point | .woken point => some (.inside point false)
  | .signalled point => some (.inside point true)
  | _ => none

def proceed (s : MonitorState π δ ρ) (index : Nat) (t : MonitorThread π ρ) : Option (MonitorState π δ ρ) :=
  match t.place with
  | .inside point signalled =>
    match M.act point s.data with
    | .step data next =>
      some { s with data, threads := s.threads.set index { t with place := .inside next signalled } }
    | .wait again _ =>
      some { s with owner := none, threads := s.threads.set index { t with place := .asleep again } }
    | .signal _ => none
    | .unlock result =>
      some { s with owner := none, threads := s.threads.set index { place := .outside, result := some result } }
  | _ => none

def signal (s : MonitorState π δ ρ) (index target : Nat) (t : MonitorThread π ρ) :
    Option (MonitorState π δ ρ) :=
  match t.place with
  | .inside point signalled =>
    match M.act point s.data with
    | .signal next =>
      let threads := s.threads.set index { t with place := .inside next signalled }
      if s.threads.any fun u => u.place.isAsleep then
        (s.threads[target]?).bind fun u =>
          match u.place with
          | .asleep again => some { s with threads := threads.set target { u with place := .signalled again } }
          | _ => none
      else some { s with threads }
    | _ => none
  | _ => none

def step (s : MonitorState π δ ρ) : MonitorEvent γ ε → Option (MonitorState π δ ρ)
  | .call index c =>
    (s.threads[index]?).bind fun t =>
      match t.place with
      | .outside => some { s with threads := s.threads.set index { place := .locking (M.start c) } }
      | _ => none
  | .lock index =>
    (s.threads[index]?).bind fun t =>
      if s.owner.isNone then
        (entered t.place).map fun place =>
          { s with owner := some index, threads := s.threads.set index { t with place } }
      else none
  | .lockError index error =>
    (s.threads[index]?).bind fun t =>
      match t.place with
      | .locking _ =>
        some { s with threads := s.threads.set index { place := .outside, result := some (M.lockFailed error) } }
      | _ => none
  | .proceed index => (s.threads[index]?).bind fun t => s.proceed M index t
  | .signal index target => (s.threads[index]?).bind fun t => s.signal M index target t
  | .waitError index error =>
    (s.threads[index]?).bind fun t =>
      match t.place with
      | .inside point signalled =>
        match M.act point s.data with
        | .wait _ failed =>
          some { s with threads := s.threads.set index { t with place := .inside (failed error) signalled } }
        | _ => none
      | _ => none
  | .wake index =>
    (s.threads[index]?).bind fun t =>
      match t.place with
      | .asleep point => some { s with threads := s.threads.set index { t with place := .woken point } }
      | _ => none

end MonitorState

namespace Monitor

variable (M : Monitor γ π δ ρ ε)

def machine (data : δ) (count : Nat) : Machine (MonitorState π δ ρ) (MonitorEvent γ ε) where
  init := { data, threads := replicate count {} }
  step := MonitorState.step M

variable (index : Nat) (data : δ) (owner : Option Nat) (t : MonitorThread π ρ) in
/-- Before and after it the data, the owner of the mutex and the thread. -/
inductive Move : MonitorEvent γ ε → δ → Option Nat → MonitorThread π ρ → Prop where
  | call (c : γ) (hplace : t.place = .outside) :
      Move (.call index c) data owner { place := .locking (M.start c) }
  | lock (point : π) (hplace : t.place = .locking point ∨ t.place = .woken point) (howner : owner = none) :
      Move (.lock index) data (some index) { t with place := .inside point false }
  | relock (point : π) (hplace : t.place = .signalled point) (howner : owner = none) :
      Move (.lock index) data (some index) { t with place := .inside point true }
  | lockError (point : π) (error : ε) (hplace : t.place = .locking point) :
      Move (.lockError index error) data owner
        { place := .outside, result := some (M.lockFailed error) }
  | step (point : π) (signalled : Bool) (data' : δ) (next : π) (hplace : t.place = .inside point signalled)
      (hact : M.act point data = .step data' next) :
      Move (.proceed index) data' owner { t with place := .inside next signalled }
  | wait (point : π) (signalled : Bool) (again : π) (failed : ε → π)
      (hplace : t.place = .inside point signalled) (hact : M.act point data = .wait again failed) :
      Move (.proceed index) data none { t with place := .asleep again }
  | waitError (point : π) (signalled : Bool) (again : π) (failed : ε → π) (error : ε)
      (hplace : t.place = .inside point signalled) (hact : M.act point data = .wait again failed) :
      Move (.waitError index error) data owner
        { t with place := .inside (failed error) signalled }
  | unlock (point : π) (signalled : Bool) (result : ρ) (hplace : t.place = .inside point signalled)
      (hact : M.act point data = .unlock result) :
      Move (.proceed index) data none { place := .outside, result := some result }
  | wake (point : π) (hplace : t.place = .asleep point) :
      Move (.wake index) data owner { t with place := .woken point }

structure Signals (s s' : MonitorState π δ ρ) (index : Nat) (t : MonitorThread π ρ) (point : π)
    (signalled : Bool) (next : π) : Prop where
  get : s.threads[index]? = some t
  place : t.place = .inside point signalled
  act : M.act point s.data = .signal next
  data : s'.data = s.data
  owner : s'.owner = s.owner
  threads : (s.threads.any (fun u => u.place.isAsleep) = false ∧
      s'.threads = s.threads.set index { t with place := .inside next signalled }) ∨
    ∃ target u again, index ≠ target ∧ s.threads[target]? = some u ∧ u.place = .asleep again ∧
      s'.threads = (s.threads.set index { t with place := .inside next signalled }).set target
        { u with place := .signalled again }

variable {M} {s s' : MonitorState π δ ρ} {event : MonitorEvent γ ε} {index : Nat} {t t' u : MonitorThread π ρ}
  {data' : δ} {owner' : Option Nat}

theorem move_of_proceed (h : s.proceed M index t = some s') :
    ∃ data' owner' t', M.Move index s.data s.owner t (.proceed index) data' owner' t' ∧
      s' = { data := data', owner := owner', threads := s.threads.set index t' } := by
  unfold MonitorState.proceed at h
  split at h
  · rename_i point signalled hp
    split at h <;> cases h
    · rename_i data next ha
      exact ⟨_, _, _, .step point signalled data next hp ha, rfl⟩
    · rename_i a failed ha
      exact ⟨_, _, _, .wait point signalled a failed hp ha, rfl⟩
    · rename_i r ha
      exact ⟨_, _, _, .unlock point signalled r hp ha, rfl⟩
  · cases h

theorem signals_of_signal {target : Nat} (hg : s.threads[index]? = some t)
    (h : s.signal M index target t = some s') :
    ∃ point signalled next, M.Signals s s' index t point signalled next := by
  unfold MonitorState.signal at h
  split at h
  · rename_i point signalled hp
    split at h
    · rename_i next hac
      refine ⟨point, signalled, next, ?_⟩
      split at h
      · obtain ⟨u, hu, h⟩ := bind_eq_some_iff.mp h
        split at h
        · rename_i a ha
          cases h
          -- The thread that signals has the mutex, so that it is not the one that is asleep.
          have hne : index ≠ target := by
            rintro rfl
            obtain rfl : t = u := some_inj.mp (hg ▸ hu)
            rw [hp] at ha
            cases ha
          exact ⟨hg, hp, hac, rfl, rfl, .inr ⟨target, u, a, hne, hu, ha, rfl⟩⟩
        · cases h
      · rename_i hn
        cases h
        exact ⟨hg, hp, hac, rfl, rfl, .inl ⟨Bool.eq_false_iff.mpr hn, rfl⟩⟩
    · cases h
  · cases h

theorem move_of_lock {p : Place π} (ho : s.owner = none) (h : MonitorState.entered t.place = some p) :
    M.Move index s.data s.owner t (.lock index) s.data (some index) { t with place := p } := by
  unfold MonitorState.entered at h
  split at h <;> cases h
  next point hp => exact .lock point (.inl hp) ho
  next point hp => exact .lock point (.inr hp) ho
  next point hp => exact .relock point hp ho

theorem step_cases (h : s.step M event = some s') : (∃ index t data' owner' t', s.threads[index]? = some t ∧
      M.Move index s.data s.owner t event data' owner' t' ∧
      s' = { data := data', owner := owner', threads := s.threads.set index t' }) ∨
    ∃ index t point signalled next, M.Signals s s' index t point signalled next := by
  cases event
  all_goals
    replace h := bind_eq_some_iff.mp h
    obtain ⟨t, hg, h⟩ := h
  case call index c =>
    split at h <;> cases h
    next hp => exact .inl ⟨index, t, _, _, _, hg, .call c hp, rfl⟩
  case lock index =>
    split at h
    · rename_i ho
      obtain ⟨p, hp, rfl⟩ := map_eq_some_iff.mp h
      exact .inl ⟨index, t, _, _, _, hg, move_of_lock (isNone_iff_eq_none.mp ho) hp, rfl⟩
    · cases h
  case lockError index error =>
    split at h <;> cases h
    next point hp => exact .inl ⟨index, t, _, _, _, hg, .lockError point error hp, rfl⟩
  case proceed index =>
    obtain ⟨data', owner', t', hm, heq⟩ := move_of_proceed h
    exact .inl ⟨index, t, data', owner', t', hg, hm, heq⟩
  case signal index target =>
    obtain ⟨point, signalled, next, hs⟩ := signals_of_signal hg h
    exact .inr ⟨index, t, point, signalled, next, hs⟩
  case waitError index error =>
    split at h
    · rename_i point signalled hp
      split at h <;> cases h
      next a failed ha =>
        exact .inl ⟨index, t, _, _, _, hg, .waitError point signalled a failed error hp ha, rfl⟩
    · cases h
  case wake index =>
    split at h <;> cases h
    next point hp => exact .inl ⟨index, t, _, _, _, hg, .wake point hp, rfl⟩

/-- Whoever is inside owns the mutex. -/
def Exclusive (s : MonitorState π δ ρ) : Prop :=
  ∀ (i : Nat) (t : MonitorThread π ρ), s.threads[i]? = some t → t.place.isInside → s.owner = some i

/-- Only the owner of the mutex moves it, or a thread that finds it free. -/
theorem Move.owner {data : δ} {owner : Option Nat} (h : M.Move index data owner t event data' owner' t')
    (hi : t.place.isInside → owner = some index) :
    (t'.place.isInside → owner' = some index) ∧ (owner' = owner ∨ owner = none ∨ owner = some index) := by
  cases h with
  | call | lockError | wake => exact ⟨Bool.noConfusion, .inl rfl⟩
  | lock point hp ho | relock point hp ho => exact ⟨fun _ => rfl, .inr (.inl ho)⟩
  | step _ _ _ _ hp | waitError _ _ _ _ _ hp => exact ⟨fun _ => hi (hp ▸ rfl), .inl rfl⟩
  | wait _ _ _ _ hp | unlock _ _ _ hp => exact ⟨Bool.noConfusion, .inr (.inr (hi (hp ▸ rfl)))⟩

theorem Move.data {data : δ} {owner : Option Nat} (h : M.Move index data owner t event data' owner' t') :
    data' = data ∨ t.place.isInside := by
  cases h with
  | step point signalled _ next hp ha => exact .inr (hp ▸ rfl)
  | _ => exact .inl rfl

theorem Exclusive.set (h : Exclusive s) (ht : t'.place.isInside → owner' = some index)
    (ho : owner' = s.owner ∨ s.owner = none ∨ s.owner = some index) :
    Exclusive { data := data', owner := owner', threads := s.threads.set index t' } := by
  intro i u hu hin
  rcases getElem?_set_cases hu with ⟨rfl, rfl⟩ | ⟨hi, hu⟩
  · exact ht hin
  · have hot := h i u hu hin
    rcases ho with heq | hn | hs
    · exact heq.trans hot
    · rw [hn] at hot
      cases hot
    · rw [hs] at hot
      exact absurd (some_inj.mp hot) hi

variable {signalled : Bool} {point next : π}

theorem Signals.induct {P : MonitorState π δ ρ → Prop} {index : Nat} {t : MonitorThread π ρ}
    (h : M.Signals s s' index t point signalled next)
    (hf : P { s with threads := s.threads.set index { t with place := .inside next signalled } })
    (hs : ∀ (s₁ : MonitorState π δ ρ) (target : Nat) (u : MonitorThread π ρ) (a : π), P s₁ →
      s₁.threads[target]? = some u → u.place = .asleep a →
      P { s₁ with threads := s₁.threads.set target { u with place := .signalled a } }) :
    P s' := by
  obtain ⟨-, -, -, hd, ho, ht⟩ := h
  obtain ⟨data', owner', ths'⟩ := s'
  obtain rfl : data' = s.data := hd
  obtain rfl : owner' = s.owner := ho
  rcases ht with ⟨-, ht⟩ | ⟨target, u, a, hne, hu, ha, ht⟩
  · obtain rfl : ths' = _ := ht
    exact hf
  · obtain rfl : ths' = _ := ht
    refine hs _ target u a hf ?_ ha
    rw [← hu]
    exact getElem?_set_ne hne

theorem Exclusive.step (h : Exclusive s) (hstep : s.step M event = some s') : Exclusive s' := by
  rcases step_cases hstep with ⟨index, t, data', owner', t', hg, hm, rfl⟩ |
    ⟨index, t, point, signalled, next, hs⟩
  · obtain ⟨ht, ho⟩ := hm.owner (h index t hg)
    exact h.set ht ho
  · have how := h index t hs.get (hs.place ▸ rfl)
    refine hs.induct (h.set (fun _ => how) (.inl rfl)) ?_
    intro s₁ target u a h₁ hu ha
    exact h₁.set Bool.noConfusion (.inl rfl)

/-- A change of the place of a thread is no change of a result. -/
theorem result_set {ths : List (MonitorThread π ρ)} {i : Nat} (hu : ths[i]? = some u)
    (hg : ∀ v, ths[index]? = some v → v.result = t.result) (p : Place π)
    (hg' : (ths.set i { u with place := p })[index]? = some t') : t'.result = t.result := by
  rcases getElem?_set_cases hg' with ⟨rfl, rfl⟩ | ⟨-, hg'⟩
  · exact hg u hu
  · exact hg t' hg'

theorem Signals.result {i : Nat}
    (h : M.Signals s s' i u point signalled next) (hg : s.threads[index]? = some t)
    (hg' : s'.threads[index]? = some t') : t'.result = t.result := by
  have hk : ∀ v, s'.threads[index]? = some v → v.result = t.result := by
    refine h.induct (P := fun s => ∀ v, s.threads[index]? = some v → v.result = t.result) ?_ ?_
    · intro v hv
      refine result_set h.get (fun w hw => ?_) _ hv
      rw [some_inj.mp (hg.symm.trans hw)]
    · intro s₁ target w a h₁ hw _ v hv
      exact result_set hw h₁ _ hv
  exact hk t' hg'

/-- A thread has a result when it could not get the mutex, or when it gives it back. -/
theorem returned_cases {r : ρ} (hstep : s.step M event = some s') (hg : s.threads[index]? = some t)
    (hg' : s'.threads[index]? = some t') (hn : t.result = none) (hs : t'.result = some r) :
    (∃ error, r = M.lockFailed error) ∨
      ∃ point signalled, t.place = .inside point signalled ∧ M.act point s.data = .unlock r := by
  rcases step_cases hstep with ⟨i, u, data', owner', u', hu, hm, rfl⟩ |
    ⟨i, u, point, signalled, next, hsg⟩
  · rcases getElem?_set_cases hg' with ⟨rfl, rfl⟩ | ⟨-, hg'⟩
    · obtain rfl : u = t := some_inj.mp (hu ▸ hg)
      cases hm with
      | lockError point error hp => exact .inl ⟨error, (some_inj.mp hs).symm⟩
      | unlock point signalled _ hp ha =>
        exact .inr ⟨point, signalled, hp, some_inj.mp hs ▸ ha⟩
      | call c hp => cases hs
      | _ => exact absurd (hn.symm.trans hs) nofun
    · obtain rfl : t = t' := some_inj.mp (hg ▸ hg')
      exact absurd (hn.symm.trans hs) nofun
  · rw [hsg.result hg hg', hn] at hs
    cases hs

variable (M)

/-- What holds of the data when a thread is at a point, and the points at which threads wait. -/
structure Outline where
  holds : π → δ → Prop
  waits : π → Prop
  start : ∀ c data, holds (M.start c) data
  again : ∀ point, waits point → ∀ data, holds point data
  step : ∀ point data data' next, holds point data → M.act point data = .step data' next → holds next data'
  wait : ∀ point data again failed, M.act point data = .wait again failed →
    waits again ∧ ∀ error, holds (failed error) data
  signal : ∀ point data next, holds point data → M.act point data = .signal next → holds next data

variable {M} (A : M.Outline)

namespace Outline

/-- A thread without the mutex is about to enter at a point of which nothing is asked. -/
def At (data : δ) : Place π → Prop
  | .outside => True
  | .locking point => ∀ data, A.holds point data
  | .inside point _ => A.holds point data
  | .asleep point | .signalled point | .woken point => A.waits point

structure Valid (s : MonitorState π δ ρ) : Prop where
  exclusive : Exclusive s
  all : ∀ t ∈ s.threads, A.At s.data t.place

variable {A} {data data' : δ}

theorem At.move {index : Nat} {owner owner' : Option Nat} {t t' : MonitorThread π ρ}
    (hat : A.At data t.place) (h : M.Move index data owner t event data' owner' t') : A.At data' t'.place := by
  cases h with
  | call c hp => exact A.start c
  | lock point hp ho =>
    rcases hp with hp | hp <;> rw [hp] at hat
    · exact hat data
    · exact A.again point hat data
  | relock point hp ho =>
    rw [hp] at hat
    exact A.again point hat data
  | lockError | unlock => trivial
  | step point signalled _ next hp ha =>
    rw [hp] at hat
    exact A.step point data data' next hat ha
  | wait point signalled a failed hp ha => exact (A.wait point data a failed ha).1
  | waitError point signalled a failed error hp ha =>
    exact (A.wait point data a failed ha).2 error
  | wake point hp =>
    rw [hp] at hat
    exact hat

theorem At.of_not_inside {p : Place π} (hat : A.At data p) (ho : p.isInside = false) : A.At data' p := by
  cases p with
  | inside point signalled => cases ho
  | _ => exact hat

theorem Valid.step (h : A.Valid s) (hstep : s.step M event = some s') : A.Valid s' := by
  refine ⟨h.exclusive.step hstep, ?_⟩
  rcases step_cases hstep with ⟨index, t, data', owner', t', hg, hm, rfl⟩ |
    ⟨index, t, point, signalled, next, hs⟩
  · intro u hu
    obtain ⟨i, hi⟩ := getElem?_of_mem hu
    rcases getElem?_set_cases hi with ⟨rfl, rfl⟩ | ⟨hin, hi⟩
    · exact (h.all t (mem_of_getElem? hg)).move hm
    · have hat := h.all u (mem_of_getElem? hi)
      -- While the thread that moves has the mutex, no other is inside.
      rcases hm.data with rfl | his
      · exact hat
      · refine hat.of_not_inside (Bool.eq_false_iff.mpr fun hot => ?_)
        have heq := (h.exclusive index t hg his).symm.trans (h.exclusive i u hi hot)
        exact hin (some_inj.mp heq)
  · refine hs.induct (P := fun s => ∀ t ∈ s.threads, A.At s.data t.place) ?_ ?_
    · intro u hu
      rcases mem_or_eq_of_mem_set hu with hu | rfl
      · exact h.all u hu
      · have hat := h.all t (mem_of_getElem? hs.get)
        rw [hs.place] at hat
        exact A.signal point s.data next hat hs.act
    · intro s₁ target u a h₁ hu ha v hv
      rcases mem_or_eq_of_mem_set hv with hv | rfl
      · exact h₁ v hv
      · have hat := h₁ u (mem_of_getElem? hu)
        rw [ha] at hat
        exact hat

theorem valid_init (data : δ) (n : Nat) : A.Valid (M.machine data n).init := by
  have hi : ∀ t ∈ (M.machine data n).init.threads, t = {} := fun t ht => eq_of_mem_replicate ht
  refine ⟨fun i t ht hin => ?_, fun t ht => ?_⟩
  · rw [hi t (mem_of_getElem? ht)] at hin
    cases hin
  · rw [hi t ht]
    trivial

end Outline

end Monitor

namespace MonitorState

def tally (s : MonitorState π δ ρ) (f : Place π → Bool) : Nat := s.threads.countP fun t => f t.place

variable {s : MonitorState π δ ρ} {f : Place π → Bool} {index : Nat} {t : MonitorThread π ρ}

theorem tally_pos_iff : 0 < s.tally f ↔ ∃ t ∈ s.threads, f t.place = true := countP_pos_iff

theorem tally_set (f : Place π → Bool) (hg : s.threads[index]? = some t) (t' : MonitorThread π ρ) (data' : δ)
    (owner' : Option Nat) :
    tally { data := data', owner := owner', threads := s.threads.set index t' } f + (f t.place).toNat =
      s.tally f + (f t'.place).toNat := by
  obtain ⟨hlt, heq⟩ := List.getElem?_eq_some_iff.mp hg
  have hi : ∀ b : Bool, (if b = true then 1 else 0) = b.toNat := by decide
  have hle : (f t.place).toNat ≤ s.tally f := by
    cases hf : f t.place with
    | false => exact Nat.zero_le _
    | true => exact tally_pos_iff.mpr ⟨t, mem_of_getElem? hg, hf⟩
  unfold tally at hle ⊢
  rw [countP_set hlt, heq, hi, hi]
  omega

end MonitorState

/-- A signal moves the thread that signals, and one that is asleep if there is any. -/
theorem Monitor.Signals.tally {M : Monitor γ π δ ρ ε} {s s' : MonitorState π δ ρ} {index : Nat}
    {t : MonitorThread π ρ} {point next : π} {signalled : Bool}
    (h : M.Signals s s' index t point signalled next) :
    (s.tally Place.isAsleep = 0 ∧ ∀ f, s'.tally f + (f (.inside point signalled)).toNat =
      s.tally f + (f (.inside next signalled)).toNat) ∨
    ∃ a, ∀ f, s'.tally f + (f (.inside point signalled)).toNat + (f (.asleep a)).toNat =
      s.tally f + (f (.inside next signalled)).toNat + (f (.signalled a)).toNat := by
  obtain ⟨hg, hp, -, -, -, ht⟩ := h
  have hf := fun f => MonitorState.tally_set f hg { t with place := .inside next signalled } s.data s.owner
  simp only [hp] at hf
  rcases ht with ⟨hn, ht⟩ | ⟨target, u, a, hne, hu, ha, ht⟩
  · refine .inl ⟨countP_eq_zero.mpr fun u hu => ?_, fun f => ?_⟩
    · exact Bool.not_eq_true _ ▸ List.any_eq_false.mp hn u hu
    · rw [← hf f]
      simp only [MonitorState.tally, ht]
  · refine .inr ⟨a, fun f => ?_⟩
    have hs := MonitorState.tally_set f ((getElem?_set_ne hne).trans hu) { u with place := .signalled a }
      s.data s.owner (s := { s with threads := s.threads.set index { t with place := .inside next signalled } })
    rw [ha] at hs
    have := hf f
    simp only [MonitorState.tally, ht] at *
    omega

end ShareCli.Foundation
