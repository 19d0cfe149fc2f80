import ShareCli.Foundation.TwoWayMap
import ShareCli.Core.TransactionContract

/-!
# The admission predicates over whole runs

Each object has one lemma that says what a call can do to it; the invariants of its runs are derived from
that lemma.
-/

namespace ShareCli.Core

open Foundation Word List AList

namespace ReservationPool

def total (pool : ReservationPool) : Nat := toNatSum pool.values

structure Sound (pool : ReservationPool) : Prop where
  fits : pool.total ≤ pool.capacity.toNat
  positive : ∀ rid units, pool.active.lookup rid = some units → units ≠ 0

section

variable {pool : ReservationPool} {rid : String} {units : UInt64}

theorem total_insert (hn : pool.active.lookup rid = none) :
    ({ pool with active := pool.active.insert rid units } : ReservationPool).total =
      units.toNat + pool.total := by
  have hk : rid ∉ pool.active.entries.keys := lookup_eq_none.mp hn
  simp [total, values, toNatSum, kerase_of_notMem_keys hk]

theorem total_erase_le (pool : ReservationPool) (rid : String) :
    ({ pool with active := pool.active.erase rid } : ReservationPool).total ≤ pool.total := by
  have hs : (pool.active.erase rid).entries.Sublist pool.active.entries := kerase_sublist _ _
  exact ((hs.map _).map _).sum_le_sum (by simp)

inductive Reserved (pool : ReservationPool) (rid : String) (units : UInt64) :
    Except GuardError Unit × ReservationPool → Prop where
  | refused (e : GuardError)
      (hreason : pool.active.lookup rid ≠ none ∨ units = 0 ∨ pool.capacity.toNat < pool.total + units.toNat) :
      Reserved pool rid units (.error e, pool)
  | granted (hnew : pool.active.lookup rid = none) (hunits : units ≠ 0)
      (hfits : pool.total + units.toNat ≤ pool.capacity.toNat) :
      Reserved pool rid units
        (.ok (), { pool with active := pool.active.insert rid units })

theorem reserve_spec (pool : ReservationPool) (rid : String) (units : UInt64) :
    Reserved pool rid units (pool.reserve rid units) := by
  unfold reserve
  have hc := pool.capacity.toNat_lt
  split_ifs with hn hu
  · exact .refused _ (.inl (Option.isSome_iff_ne_none.mp hn))
  · exact .refused _ (.inr (.inl hu))
  -- The sum of the reservations is formed first; where it does not fit, neither do the new units.
  split
  · rename_i hus
    refine .refused _ (.inr (.inr ?_))
    have ho : ¬ pool.total < 2 ^ 64 := by
      intro hlt
      have hs : checkedSumFrom 0 pool.values = some (UInt64.ofNat pool.total) := by
        refine checkedSumFrom_eq_some_iff.mpr ?_
        rw [UInt64.toNat_ofNat_of_lt' hlt]
        simp [total]
      simp [hs] at hus
    omega
  · rename_i used hus
    have ht : used.toNat = pool.total := by
      have := checkedSumFrom_eq_some_iff.mp hus
      simpa [total] using this.symm
    split
    · rename_i hnext
      have ho := checkedAdd_eq_none_iff.mp hnext
      exact .refused _ (.inr (.inr (by omega)))
    · rename_i next hnext
      have ha := checkedAdd_eq_some_iff.mp hnext
      split_ifs with hgt <;> rw [gt_iff_lt, UInt64.lt_iff_toNat_lt] at hgt
      · exact .refused _ (.inr (.inr (by omega)))
      · exact .granted (by simpa using hn) hu (by omega)

theorem reserve_eq_ok_iff : (pool.reserve rid units).1 = .ok () ↔ pool.active.lookup rid = none ∧ units ≠ 0 ∧
        pool.total + units.toNat ≤ pool.capacity.toNat := by
  have hs := reserve_spec pool rid units
  generalize pool.reserve rid units = outcome at hs
  cases hs with
  | refused e hr =>
    refine iff_of_false (by simp) ?_
    rintro ⟨hn, hu, hf⟩
    rcases hr with h | h | h
    · exact h hn
    · exact hu h
    · omega
  | granted hn hu hf => exact ⟨fun _ => ⟨hn, hu, hf⟩, fun _ => rfl⟩

theorem lookup_reserve (h : (pool.reserve rid units).1 = .ok ()) (id : String) :
    (pool.reserve rid units).2.active.lookup id = if id = rid then some units else pool.active.lookup id := by
  have hs := reserve_spec pool rid units
  generalize pool.reserve rid units = outcome at hs h
  cases hs with
  | refused e hr => cases h
  | granted hn hu hf =>
    split
    · rename_i hid
      rw [hid]
      exact lookup_insert pool.active
    · rename_i hid
      exact lookup_insert_ne hid

theorem release_cases (pool : ReservationPool) (rid : String) (r : Bool) :
    (∃ e, pool.release rid r = (.error e, pool)) ∨ r = true ∧ pool.release rid r =
        (.ok (), { pool with active := pool.active.erase rid }) := by
  unfold release
  split_ifs with hn hr
  · exact .inl ⟨_, rfl⟩
  · exact .inl ⟨_, rfl⟩
  · exact .inr ⟨by simpa using hr, rfl⟩

theorem call_of_error {c : Call} {e : GuardError} (h : (pool.call c).1 = .error e) :
    (pool.call c).2 = pool := by
  cases c with
  | reserve rid units =>
    simp only [call] at h ⊢
    have hs := reserve_spec pool rid units
    generalize pool.reserve rid units = outcome at hs h
    cases hs with
    | refused e hr => rfl
    | granted hn hu hf => cases h
  | release rid r =>
    simp only [call] at h ⊢
    rcases release_cases pool rid r with ⟨e', heq⟩ | ⟨_, heq⟩
    · rw [heq]
    · rw [heq] at h
      cases h

end

variable {pool : ReservationPool}

theorem Sound.reserve (h : pool.Sound) (rid : String) (units : UInt64) :
    (pool.reserve rid units).2.Sound := by
  have hs := reserve_spec pool rid units
  generalize pool.reserve rid units = outcome at hs
  cases hs with
  | refused e hr => exact h
  | granted hn hu hf =>
    constructor
    · rw [total_insert hn]
      show units.toNat + pool.total ≤ pool.capacity.toNat
      omega
    · intro id v hl
      rcases lookup_insert_eq_some_iff.mp hl with ⟨-, rfl⟩ | ⟨-, hl⟩
      · exact hu
      · exact h.positive id v hl

theorem Sound.release (h : pool.Sound) (rid : String) (r : Bool) : (pool.release rid r).2.Sound := by
  rcases release_cases pool rid r with ⟨e, heq⟩ | ⟨_, heq⟩
  · rw [heq]
    exact h
  · rw [heq]
    constructor
    · exact (total_erase_le pool rid).trans h.fits
    · intro id v hl
      exact h.positive id v (lookup_erase_eq_some_iff.mp hl).2

theorem capacity_call (pool : ReservationPool) (c : Call) : (pool.call c).2.capacity = pool.capacity := by
  cases c with
  | reserve rid units =>
    have hs := reserve_spec pool rid units
    simp only [call]
    generalize pool.reserve rid units = outcome at hs
    cases hs <;> rfl
  | release rid r =>
    rcases release_cases pool rid r with ⟨e, heq⟩ | ⟨_, heq⟩ <;> simp [call, heq]

theorem reachable_sound {cap : UInt64} (h : (machine cap).Reachable pool) :
    pool.capacity = cap ∧ pool.Sound := by
  refine Machine.invariant ?_ ?_ h
  · exact ⟨rfl, ⟨by simp [machine, new, total, values, toNatSum], by simp [machine, new]⟩⟩
  · rintro pool c p' ⟨hc, hs⟩ hstep
    obtain rfl : (pool.call c).2 = p' := Option.some_inj.mp hstep
    refine ⟨(capacity_call pool c).trans hc, ?_⟩
    cases c with
    | reserve rid units => exact hs.reserve rid units
    | release rid r => exact hs.release rid r

/-- In every state that a run reaches the pool is within its capacity, a reservation is granted exactly when there
is room for it, and is then recorded, units come back only when they were reclaimed, and a refused call has no
effect. -/
theorem reservation_pool_sound (capacity : UInt64) (pool : ReservationPool)
    (h : (machine capacity).Reachable pool) :
    pool.capacity = capacity ∧ pool.total ≤ capacity.toNat ∧
      (∀ reservationId units, pool.active.lookup reservationId = some units → 0 < units.toNat) ∧
      (∃ sum, pool.admitted = some sum ∧ sum.toNat = pool.total) ∧
      (∀ reservationId units, (pool.reserve reservationId units).1 = .ok () ↔
        pool.active.lookup reservationId = none ∧ 0 < units.toNat ∧
          units.toNat ≤ capacity.toNat - pool.total) ∧
      (∀ reservationId units, (pool.reserve reservationId units).1 = .ok () → ∀ id,
        (pool.reserve reservationId units).2.active.lookup id =
          if id = reservationId then some units else pool.active.lookup id) ∧
      (∀ reservationId, (pool.release reservationId false).2 = pool) ∧
      ∀ c e, (pool.call c).1 = .error e → (pool.call c).2 = pool := by
  obtain ⟨hc, hs⟩ := reachable_sound h
  have hf := hs.fits
  have hp : ∀ units : UInt64, units ≠ 0 ↔ 0 < units.toNat := by
    intro units
    rw [Nat.pos_iff_ne_zero, ne_eq, ne_eq, ← UInt64.toNat_inj]
    rfl
  rw [hc] at hf
  refine ⟨hc, hf, ?_, ?_, ?_, fun _ _ => lookup_reserve, ?_, ?_⟩
  · intro reservationId units hl
    exact (hp units).mp (hs.positive reservationId units hl)
  · have hlt : pool.total < 2 ^ 64 := hf.trans_lt capacity.toNat_lt
    have hsm : (UInt64.ofNat pool.total).toNat = pool.total := UInt64.toNat_ofNat_of_lt' hlt
    refine ⟨UInt64.ofNat pool.total, checkedSumFrom_eq_some_iff.mpr ?_, hsm⟩
    rw [hsm]
    simp [total]
  · intro reservationId units
    rw [reserve_eq_ok_iff, hp, hc]
    have hi : pool.total + units.toNat ≤ capacity.toNat ↔
        units.toNat ≤ capacity.toNat - pool.total := by omega
    rw [hi]
  · intro reservationId
    rcases release_cases pool reservationId false with ⟨e, heq⟩ | ⟨hfl, _⟩
    · rw [heq]
    · cases hfl
  · exact fun c e => call_of_error

theorem reservation_pool_sound_one : ∃ pool, (machine 4).Reachable pool ∧ pool.total = 3 ∧
      ((pool.reserve "b" 1).1 = .ok () ↔ pool.active.lookup "b" = none ∧ 0 < (1 : UInt64).toNat ∧
        (1 : UInt64).toNat ≤ (4 : UInt64).toNat - pool.total) := by
  have hr : (machine 4).Reachable ((new 4).call (.reserve "a" 3)).2 := .step .init trivial rfl
  have hs := reservation_pool_sound 4 _ hr
  exact ⟨_, hr, by decide, hs.2.2.2.2.1 "b" 1⟩

end ReservationPool

namespace SharedProducer

inductive Called (prod : SharedProducer) (c : Call) : SharedProducer → Bool → Prop where
  | refused : Called prod c prod false
  | joined (consumerId : String) (hstate : prod.state = .running)
      (hrefuses : prod.refuses c = false) :
      Called prod c { prod with consumers := insert consumerId prod.consumers } false
  | left (consumerId : String) (hmem : consumerId ∈ prod.consumers)
      (hrefuses : prod.refuses c = false)
      (hmore : prod.consumers.erase consumerId ≠ ∅ ∨ prod.state = .stopping) :
      Called prod c { prod with consumers := prod.consumers.erase consumerId } false
  | stopped (hstate : prod.state = .running) (hrefuses : prod.refuses c = false) :
      Called prod c { prod with state := .stopping, consumers := ∅ } true

theorem call_spec (prod : SharedProducer) (c : Call) : Called prod c (prod.call c) (prod.stopsAt c) := by
  cases c with
  | join generation cid e sa oa =>
    simp only [call, stopsAt, join]
    split_ifs with hg hs he
    iterate 3 exact .refused
    refine .joined cid (by simpa using hs) ?_
    simp only [refuses, Bool.or_eq_false_iff]
    exact ⟨by simpa using hg, by simpa using he⟩
  | detach generation cid =>
    simp only [call, stopsAt, detach]
    have hr (hg : generation = prod.generation) (hm : cid ∈ prod.consumers) :
        prod.refuses (.detach generation cid) = false := by
      simp [refuses, hg, hm]
    split_ifs with hg hm hl
    · exact .refused
    · obtain ⟨hem, hs⟩ := hl
      rw [hem]
      exact .stopped hs (hr (not_not.mp hg) hm)
    · refine .left cid hm (hr (not_not.mp hg) hm) ?_
      by_cases hem : prod.consumers.erase cid = ∅
      · cases hs : prod.state with
        | running => exact absurd ⟨hem, hs⟩ hl
        | stopping => exact .inr rfl
      · exact .inl hem
    · exact .refused

variable {prod : SharedProducer}

theorem call_of_refuses {c : Call} (h : prod.refuses c = true) : prod.call c = prod := by
  have hs := call_spec prod c
  generalize prod.call c = prod', prod.stopsAt c = stops at hs
  cases hs with
  | refused => rfl
  | joined _ _ hr | left _ _ hr _ | stopped _ hr => simp [h] at hr

variable {generation : UInt64}

theorem join_ok {cid : String} {e sa oa : Bool} (h : (prod.join generation cid e sa oa).1 = .ok ()) :
    (prod.join generation cid e sa oa).2 = { prod with consumers := insert cid prod.consumers } := by
  unfold join at h ⊢
  split_ifs with hg hs he
  iterate 3 simp_all
  rfl

theorem detach_eq_true_iff {cid : String} : (prod.detach generation cid).1 = .ok true ↔
      generation = prod.generation ∧ prod.state = .running ∧ prod.consumers = {cid} := by
  have he : cid ∈ prod.consumers → (prod.consumers.erase cid = ∅ ↔ prod.consumers = {cid}) := by
    intro hm
    rw [Finset.erase_eq_empty_iff]
    exact or_iff_right fun hem => by simp [hem] at hm
  unfold detach
  dsimp only
  split_ifs with hg hm hl
  · simp [hg]
  · exact iff_of_true rfl ⟨not_not.mp hg, hl.2, (he hm).mp hl.1⟩
  · refine iff_of_false (by simp) ?_
    rintro ⟨_, hst, hs⟩
    exact hl ⟨(he hm).mpr hs, hst⟩
  · refine iff_of_false (by simp) ?_
    rintro ⟨_, _, hs⟩
    simp [hs] at hm

/-- `detach` has returned true once if the producer is stopping and never before. -/
structure Run.Sound (generation : UInt64) (run : Run) : Prop where
  generation_eq : run.producer.generation = generation
  empty_of_stopping : run.producer.state = .stopping → run.producer.consumers = ∅
  stops_eq : run.stops = if run.producer.state = .stopping then 1 else 0

theorem reachable_run_sound {run : Run} (h : (machine generation).Reachable run) : run.Sound generation := by
  refine Machine.invariant ?_ ?_ h
  · exact ⟨rfl, by simp [machine, new], by simp [machine, new]⟩
  · rintro ⟨prod, stops⟩ c run' hs hstep
    cases hstep
    obtain ⟨hg, hem, hst⟩ := hs
    have hsp := call_spec prod c
    simp only at hg hem hst
    generalize prod.call c = prod', prod.stopsAt c = stopped at hsp
    cases hsp with
    | refused => exact ⟨hg, hem, by simpa using hst⟩
    | joined cid hs1 _ =>
      refine ⟨hg, ?_, ?_⟩
      · intro hs2
        exact absurd (hs1.symm.trans hs2) (by decide)
      · simpa [hs1] using hst
    | left cid hme _ hm =>
      have hr : prod.state ≠ .stopping := by
        intro hs2
        simp [hem hs2] at hme
      refine ⟨hg, fun hs2 => absurd hs2 hr, ?_⟩
      simpa [hr] using hst
    | stopped hs1 _ => exact ⟨hg, fun _ => rfl, by simpa [hs1] using hst⟩

theorem call_stopping (hs : prod.state = .stopping) (c : Call) : (prod.call c).state = .stopping := by
  have hsp := call_spec prod c
  generalize prod.call c = prod', prod.stopsAt c = stops at hsp
  cases hsp with
  | refused | left => exact hs
  | joined _ hr _ => exact absurd (hr.symm.trans hs) (by decide)
  | stopped => rfl

/-- In every run a producer stops once and for all when its last consumer leaves, and that call is the only one
that returns true. A consumer whose call of `join` succeeds is one from then on. -/
theorem shared_producer_lifecycle (generation : UInt64) (run : Run) (h : (machine generation).Reachable run) :
    run.producer.generation = generation ∧ (run.producer.state = .stopping →
        run.producer.consumers = ∅ ∧ ∀ c, (run.producer.call c).state = .stopping) ∧
      (run.stops = if run.producer.state = .stopping then 1 else 0) ∧
      (∀ g consumerId, (run.producer.detach g consumerId).1 = .ok true ↔
        g = generation ∧ run.producer.consumers = {consumerId}) ∧
      (∀ g consumerId equivalent shareAllowed outputAuthorized,
        (run.producer.join g consumerId equivalent shareAllowed outputAuthorized).1 = .ok () →
        (run.producer.join g consumerId equivalent shareAllowed outputAuthorized).2 =
          { run.producer with consumers := insert consumerId run.producer.consumers }) ∧
      ∀ c, run.producer.refuses c = true → run.producer.call c = run.producer := by
  have hs := reachable_run_sound h
  refine ⟨hs.generation_eq, ?_, hs.stops_eq, ?_, fun _ _ _ _ _ => join_ok, ?_⟩
  · intro hs2
    exact ⟨hs.empty_of_stopping hs2, call_stopping hs2⟩
  · intro g consumerId
    rw [detach_eq_true_iff, hs.generation_eq]
    constructor
    · rintro ⟨hg, _, hsn⟩
      exact ⟨hg, hsn⟩
    · rintro ⟨hg, hsn⟩
      refine ⟨hg, ?_, hsn⟩
      cases hst : run.producer.state with
      | running => rfl
      | stopping =>
        have hem := hs.empty_of_stopping hst
        simp [hsn] at hem
  · intro c hr
    exact call_of_refuses hr

theorem shared_producer_lifecycle_last_leaves :
    ∃ run, (machine 4).Reachable run ∧ run.producer.state = .stopping ∧
      run.stops = if run.producer.state = .stopping then 1 else 0 :=
  Machine.exists_reachable_and [.join 4 "human" true true true, .detach 4 "human"] (by decide +kernel)
    fun run hr _ => (shared_producer_lifecycle 4 run hr).2.2.1

end SharedProducer

namespace ParentMembership

def AllAccepted (par : ParentMembership) : Prop :=
  ∀ id accepted, par.required.lookup id = some accepted → accepted = true

variable {par : ParentMembership}

theorem isComplete_iff : par.isComplete = true ↔ par.AllAccepted := by
  unfold isComplete AllAccepted
  rw [all_eq_true]
  constructor
  · intro h id acc hl
    exact h ⟨id, acc⟩ (mem_lookup_iff.mp hl)
  · rintro h ⟨id, acc⟩ hm
    exact h id acc (mem_lookup_iff.mpr hm)

inductive Called (par : ParentMembership) : Call → Except GuardError Unit × ParentMembership → Prop
    where
  | refused (c : Call) (e : GuardError) : Called par c (.error e, par)
  | added (id : String) (version : UInt64) (hopen : par.sealed = false)
      (hnew : par.required.lookup id = none)
      (hversion : par.version.toNat + 1 = version.toNat) :
      Called par (.addChild id)
        (.ok (), { par with version, required := par.required.insert id false })
  | accepted (id : String) (hopen : par.sealed = false) (hknown : id ∈ par.required) :
      Called par (.markAccepted id)
        (.ok (), { par with required := par.required.insert id true })
  | closed (hopen : par.sealed = false) (hall : par.AllAccepted) :
      Called par (.sealAt par.version) (.ok (), { par with sealed := true })

theorem call_spec (par : ParentMembership) (c : Call) : Called par c (par.call c) := by
  cases c with
  | addChild id =>
    simp only [call, addChild]
    split_ifs with ho hn
    iterate 2 exact .refused _ _
    split
    · exact .refused _ _
    rename_i v hv
    exact .added id v (by simpa using ho) (by simpa using hn) (checkedAdd_eq_some_iff.mp hv)
  | markAccepted id =>
    simp only [call, markAccepted]
    split_ifs with ho
    · exact .refused _ _
    split
    · exact .refused _ _
    rename_i acc hl
    exact .accepted id (by simpa using ho) (lookup_isSome.mp (by simp [hl]))
  | sealAt ver =>
    simp only [call, sealAt]
    split_ifs with hc hcm
    iterate 2 exact .refused _ _
    obtain ⟨ho, rfl⟩ : par.sealed = false ∧ ver = par.version := by simpa using hc
    exact .closed ho (isComplete_iff.mp (by simpa using hcm))

theorem call_of_error {c : Call} {e : GuardError} (h : (par.call c).1 = .error e) : (par.call c).2 = par := by
  have hs := call_spec par c
  generalize par.call c = outcome at hs h
  cases hs with
  | refused _ _ => rfl
  | added | accepted | closed => cases h

theorem call_of_sealed (hs : par.sealed = true) (c : Call) : (par.call c).2 = par := by
  have hsp := call_spec par c
  generalize par.call c = outcome at hsp
  cases hsp with
  | refused _ _ => rfl
  | added _ _ ho _ _ | accepted _ ho _ | closed ho _ => simp [hs] at ho

theorem run_of_sealed {run run' : Run} {cs : List Call} (hs : run.parent.sealed = true)
    (hr : machine.run run cs = some run') : run'.parent = run.parent := by
  induction cs generalizing run with
  | nil =>
    obtain rfl : run = run' := Option.some_inj.mp hr
    rfl
  | cons c cs ih =>
    obtain ⟨next, hnext, hrest⟩ := Option.bind_eq_some_iff.mp hr
    cases hnext
    have hp : (run.parent.call c).2 = run.parent := call_of_sealed hs c
    have hrest' := ih (by simp only [hp, hs]) hrest
    rw [hrest', hp]

/-- The version and the children are those that were added, and the accepted ones those that were marked. -/
structure Run.Sound (run : Run) : Prop where
  version_eq : run.parent.version.toNat = run.added
  children_eq : run.parent.required.keys.length = run.added
  accepted_of_sealed : run.parent.sealed = true → run.parent.AllAccepted
  accepted_iff : ∀ id, run.parent.required.lookup id = some true ↔ id ∈ run.marked

theorem adds_iff (par : ParentMembership) (c : Call) :
    par.adds c = true ↔ ∃ id, c = .addChild id ∧ (par.call c).1 = .ok () := by
  cases c with
  | addChild id =>
    simp only [adds, call, Call.addChild.injEq, exists_eq_left']
    cases (par.addChild id).1 <;> simp [Except.toBool]
  | markAccepted id | sealAt ver => simp [adds]

theorem mem_accepts_iff (par : ParentMembership) (c : Call) (id : String) :
    id ∈ par.accepts c ↔ c = .markAccepted id ∧ (par.call c).1 = .ok () := by
  cases c with
  | markAccepted id' =>
    simp only [accepts, call, Call.markAccepted.injEq]
    cases (par.markAccepted id').1 <;> simp [Except.toBool, eq_comm]
  | addChild id' | sealAt ver => simp [accepts]

theorem length_keys_insert {required : AList fun _ : String => Bool} {id : String} (acc : Bool)
    (hk : id ∈ required) : (required.insert id acc).keys.length = required.keys.length := by
  have hp : (required.insert id acc).keys.Perm (id :: required.keys.erase id) := by
    rw [keys_insert]
  rw [hp.length_eq, length_cons, length_erase_of_mem hk]
  have hps := length_pos_of_mem hk
  omega

theorem reachable_run_sound {run : Run} (h : machine.Reachable run) : run.Sound := by
  refine Machine.invariant ?_ ?_ h
  · exact ⟨rfl, rfl, by simp [machine, default], by simp [machine, default]⟩
  · rintro ⟨par, added, marked⟩ c run' hs hstep
    cases hstep
    obtain ⟨hv, hc, ha, hi⟩ := hs
    simp only at hv hc ha hi
    have had := adds_iff par c
    have hac := mem_accepts_iff par c
    have hsp := call_spec par c
    generalize par.call c = outcome, par.adds c = adds, par.accepts c = acc at hsp had hac
    cases hsp with
    | refused _ e =>
      obtain rfl : adds = false := by simpa using had
      refine ⟨hv, hc, ha, fun id => ?_⟩
      simpa [hac] using hi id
    | added id v ho hn hnext =>
      obtain rfl : adds = true := had.mpr ⟨id, rfl, rfl⟩
      have hk : id ∉ par.required.keys := lookup_eq_none.mp hn
      refine ⟨?_, ?_, ?_, ?_⟩
      · show v.toNat = added + 1
        omega
      · show (par.required.insert id false).keys.length = added + 1
        rw [keys_insert, length_cons, erase_of_not_mem hk, hc]
      · intro hsl
        exact absurd (ho.symm.trans hsl) (by decide)
      · -- a new child is not accepted, and its id was not marked before
        intro id'
        have hnm : id ∉ marked := fun hm => by simp [(hi id).mpr hm] at hn
        by_cases hid : id' = id
        · subst hid
          simp [hac, hnm]
        · simpa [hac, hid] using hi id'
    | accepted id ho hkn =>
      obtain rfl : adds = false := by simpa using had
      refine ⟨hv, ?_, ?_, ?_⟩
      · exact (length_keys_insert true hkn).trans hc
      · intro hsl
        exact absurd (ho.symm.trans hsl) (by decide)
      · intro id'
        by_cases hid : id' = id
        · subst hid
          simp [hac]
        · simpa [hac, hid, Ne.symm hid] using hi id'
    | closed ho hal =>
      obtain rfl : adds = false := by simpa using had
      refine ⟨hv, hc, fun _ => hal, fun id => ?_⟩
      simpa [hac] using hi id

/-- In every run the version counts the children added, and the accepted ones are those that were marked. A seal
needs the current version and accepted children only, and after it no call changes the membership. -/
theorem parent_membership_sealing (run : Run) (h : machine.Reachable run) :
    run.parent.version.toNat = run.added ∧ run.parent.required.keys.length = run.added ∧
      (∀ expectedVersion, (run.parent.sealAt expectedVersion).1 = .ok () →
        expectedVersion = run.parent.version ∧ run.parent.AllAccepted) ∧
      (run.parent.sealed = true → run.parent.AllAccepted ∧
        ∀ calls run', machine.run run calls = some run' → run'.parent = run.parent) ∧
      (∀ id, run.parent.required.lookup id = some true ↔ id ∈ run.marked) ∧
      ∀ c e, (run.parent.call c).1 = .error e → (run.parent.call c).2 = run.parent := by
  have hs := reachable_run_sound h
  refine ⟨hs.version_eq, hs.children_eq, ?_, ?_, hs.accepted_iff, ?_⟩
  · intro expectedVersion hok
    have hsp : Called run.parent (.sealAt expectedVersion) (run.parent.sealAt expectedVersion) :=
      call_spec run.parent (.sealAt expectedVersion)
    generalize run.parent.sealAt expectedVersion = outcome at hsp hok
    cases hsp with
    | refused _ _ => cases hok
    | closed _ hal => exact ⟨rfl, hal⟩
  · intro hsl
    exact ⟨hs.accepted_of_sealed hsl, fun calls run' => run_of_sealed hsl⟩
  · exact fun c e => call_of_error

theorem parent_membership_sealing_late_child : ∃ run, machine.Reachable run ∧ run.parent.sealed = true ∧
      ∀ calls run', machine.run run calls = some run' → run'.parent = run.parent :=
  Machine.exists_reachable_and [.addChild "diagnose", .markAccepted "diagnose", .sealAt 1] (by decide +kernel)
    fun run hr hs => ((parent_membership_sealing run hr).2.2.2.1 hs).2

end ParentMembership

end ShareCli.Core
