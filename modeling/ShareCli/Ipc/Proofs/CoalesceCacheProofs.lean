import ShareCli.Ipc.CoalesceCache

/-!
# The coalesce cache: single flight, freshness and the values returned

The lock table names the caller whose control state holds the lock file (`Flock.Agrees`). The entry of a key is
the latest store for it, unless that store is past the TTL and a sweep removed it (`Mirrors`). A caller that is
past its last lookup without a hit holds the lock of a key whose stores are all past the TTL (`PcValid`).
-/

namespace ShareCli.Ipc

open Foundation CoalesceCache Function LockPc Option

/-- One constructor for each outcome. -/
inductive LockStep (cache : CoalesceCache) (root : CacheRoot) (c : Caller) :
    LockPc → LockEvent → CacheRoot → LockPc → Prop where
  | call {key} : LockStep cache root c .idle (.call key) root (.acquiring key root.now)
  | acquired {key started locks} (h : Flock.tryLock root.locks key c = some locks) :
      LockStep cache root c (.acquiring key started) .poll { root with locks } (.recheck key)
  | timedOut {key started} (h : lockDeadline ≤ root.now - started) :
      LockStep cache root c (.acquiring key started) .poll root (.done .failed)
  | blocked {key started} :
      LockStep cache root c (.acquiring key started) .poll root (.acquiring key started)
  | hit {key cached} (h : cache.lookup root.entries root.now key = some cached) :
      LockStep cache root c (.recheck key) (.lookup true) root
        (.returning key (.value cached .lockRecheck))
  | miss {key} (h : cache.lookup root.entries root.now key = none) (hd : cache.debounce = 0) :
      LockStep cache root c (.recheck key) (.lookup true) root (.missed key)
  | debounce {key} (h : cache.lookup root.entries root.now key = none) (hd : cache.debounce ≠ 0) :
      LockStep cache root c (.recheck key) (.lookup true) root
        (.debouncing key (root.now + cache.debounce))
  | recheckFailed {key} :
      LockStep cache root c (.recheck key) (.lookup false) root (.returning key .failed)
  | debounceHit {key till cached} (ht : till ≤ root.now)
      (h : cache.lookup root.entries root.now key = some cached) :
      LockStep cache root c (.debouncing key till) (.lookup true) root
        (.returning key (.value cached .debounceRecheck))
  | debounceMiss {key till} (ht : till ≤ root.now)
      (h : cache.lookup root.entries root.now key = none) :
      LockStep cache root c (.debouncing key till) (.lookup true) root (.missed key)
  | debounceFailed {key till} (ht : till ≤ root.now) :
      LockStep cache root c (.debouncing key till) (.lookup false) root (.returning key .failed)
  | start {key} : LockStep cache root c (.missed key) .start root (.running key)
  | closureFailed {key} :
      LockStep cache root c (.running key) (.finish none) root (.returning key .failed)
  | closureNonzero {key cached} (h : cached.exitCode ≠ 0) :
      LockStep cache root c (.running key) (.finish (some cached)) root
        (.returning key (.value cached .miss))
  | closureOk {key cached} (h : cached.exitCode = 0) :
      LockStep cache root c (.running key) (.finish (some cached)) root (.storing key cached)
  | store {key cached outcome} :
      LockStep cache root c (.storing key cached) (.store outcome)
        { root with entries := cache.store outcome root.entries root.now key cached }
        (.returning key (if outcome = .complete then .value cached .miss else .failed))
  | release {key outcome} :
      LockStep cache root c (.returning key outcome) .release
        { root with locks := Flock.unlock root.locks key c } (.done outcome)
  | killHolding {pc key} (h : pc.holds = some key) :
      LockStep cache root c pc .kill { root with locks := Flock.unlock root.locks key c }
        (.done .failed)
  | killWaiting {pc} (h : pc.holds = none) : LockStep cache root c pc .kill root (.done .failed)

variable {cache : CoalesceCache} {root t' : CacheRoot} {c : Caller} {pc pc' : LockPc}
  {ev : LockEvent}

theorem LockStep.of_eq (h : withLockStep cache root c pc ev = some (t', pc')) :
    LockStep cache root c pc ev t' pc' := by
  unfold withLockStep at h
  split at h
  case h_1 => simp at h; obtain ⟨rfl, rfl⟩ := h; exact .call
  case h_2 key st =>
    split at h
    · rename_i locks hl
      simp at h; obtain ⟨rfl, rfl⟩ := h; exact .acquired hl
    · split at h <;> simp at h <;> obtain ⟨rfl, rfl⟩ := h
      · exact .timedOut ‹_›
      · exact .blocked
  case h_3 key =>
    split at h
    · simp at h; obtain ⟨rfl, rfl⟩ := h; exact .hit ‹_›
    · simp only [afterMiss, some.injEq, Prod.mk.injEq] at h
      obtain ⟨rfl, rfl⟩ := h
      split
      · exact .miss ‹_› ‹_›
      · exact .debounce ‹_› ‹_›
  case h_4 => simp at h; obtain ⟨rfl, rfl⟩ := h; exact .recheckFailed
  case h_5 key till =>
    split_ifs at h
    have ht : till ≤ root.now := by omega
    split at h <;> simp at h <;> obtain ⟨rfl, rfl⟩ := h
    · exact .debounceHit ht ‹_›
    · exact .debounceMiss ht ‹_›
  case h_6 key till =>
    split_ifs at h
    simp at h; obtain ⟨rfl, rfl⟩ := h
    exact .debounceFailed (by omega)
  case h_7 => simp at h; obtain ⟨rfl, rfl⟩ := h; exact .start
  case h_8 key res =>
    obtain ⟨rfl, rfl⟩ := h
    cases res with
    | none => exact .closureFailed
    | some cached =>
      by_cases hne : cached.exitCode ≠ 0
      · rw [afterClosure, if_pos hne]; exact .closureNonzero hne
      · rw [afterClosure, if_neg hne]; exact .closureOk (not_not.mp hne)
  case h_9 => simp at h; obtain ⟨rfl, rfl⟩ := h; exact .store
  case h_10 => simp at h; obtain ⟨rfl, rfl⟩ := h; exact .release
  case h_11 => simp at h
  case h_12 => simp at h
  case h_13 =>
    split at h <;> simp at h <;> obtain ⟨rfl, rfl⟩ := h
    · exact .killHolding ‹_›
    · exact .killWaiting ‹_›
  case h_14 => simp at h

theorem LockStep.agrees (h : LockStep cache root c pc ev t' pc') {pcs : Caller → LockPc}
    (hpc : pcs c = pc) (ha : Flock.Agrees root.locks holds pcs) :
    Flock.Agrees t'.locks holds (update pcs c pc') := by
  cases h with
  | acquired hl => exact ha.lock hl (by rw [hpc]; rfl) rfl
  | release => exact ha.unlock (by rw [hpc]; rfl) rfl
  | killHolding hk => exact ha.unlock (by rw [hpc]; exact hk) rfl
  | killWaiting hk => exact ha.move (by rw [hpc, hk, holds])
  | _ => exact ha.move (by simp only [hpc, holds])

/-- The stores of a history are not in the future, and newer ones come first. -/
def Chronological (now : Nat) (hist : List StoreRecord) : Prop :=
  (∀ r ∈ hist, r.time ≤ now) ∧ hist.Pairwise fun a b => b.time ≤ a.time

def AllStale (ttl now : Nat) (hist : List StoreRecord) (key : CommandKey) : Prop :=
  ∀ r ∈ hist, r.key = key → ttl ≤ now - r.time

def latestRecord (hist : List StoreRecord) (key : CommandKey) : Option StoreRecord :=
  hist.find? fun r => r.key = key

def Mirrors (ttl now : Nat) (es : Entries) (hist : List StoreRecord) : Prop :=
  ∀ key, match latestRecord hist key with
    | none => es key = none
    | some r => es key = some ⟨r.result, r.time⟩ ∨
        (es key = none ∧ ttl ≤ now - r.time)

variable {hist : List StoreRecord} {ttl now now' : Nat} {es : Entries} {key : CommandKey}
  {r : StoreRecord} {cached : CachedResult}

theorem Mirrors.later (hm : Mirrors ttl now es hist) (hle : now ≤ now') :
    Mirrors ttl now' es hist := by
  intro key
  have hky := hm key
  split at hky
  · exact hky
  · rcases hky with he | ⟨he, hs⟩
    · exact .inl he
    · exact .inr ⟨he, by omega⟩

theorem Mirrors.evict (hm : Mirrors ttl now es hist) (ht : ttl ≤ cache.ttl)
    (vs : CommandKey → Bool) :
    Mirrors ttl now (cache.evictStale vs es now) hist := by
  intro key
  have hky := hm key
  unfold evictStale
  split
  · rename_i hls
    rw [hls] at hky
    simp [hky]
  · rename_i r hls
    rw [hls] at hky
    rcases hky with he | ⟨he, hs⟩
    · by_cases hf : cache.isFresh es now key
      · simp [hf, he]
      · have hst : cache.ttl ≤ now - r.time := by
          simpa [isFresh, entryAge, he] using hf
        cases hv : vs key
        · exact .inl (by simp [he])
        · exact .inr ⟨by simp [hf], le_trans ht hst⟩
    · exact .inr ⟨by simp [he], hs⟩

theorem Mirrors.write (hm : Mirrors ttl now es hist) (key : CommandKey)
    (cached : CachedResult) :
    Mirrors ttl now (update es key (some ⟨cached, now⟩))
      (⟨key, cached, now⟩ :: hist) := by
  intro k
  by_cases hk : key = k
  · subst hk
    simp [latestRecord]
  · have hf : latestRecord (⟨key, cached, now⟩ :: hist) k = latestRecord hist k := by
      simp [latestRecord, hk]
    rw [hf, update_of_ne (Ne.symm hk)]
    exact hm k

variable {vs : CommandKey → Bool} {s : CoalesceState}

theorem Mirrors.store (hm : Mirrors ttl now es hist) (ht : ttl ≤ cache.ttl) {o : StoreOutcome}
    (hv : o.visited = some vs) (key : CommandKey) (cached : CachedResult) :
    Mirrors ttl now (cache.store o es now key cached)
      (⟨key, cached, now⟩ :: hist) := by
  unfold CoalesceCache.store
  rw [hv]
  exact (hm.write key cached).evict ht vs

def PcValid (ttl now : Nat) (hist : List StoreRecord) : LockPc → Prop
  | .missed key => AllStale ttl now hist key
  | .returning key (.value cached kind) =>
    kind.sharedFromCache = true → latestStore hist key = some cached
  | _ => True

structure CoalesceInv (ttl : Nat) (s : CoalesceState) : Prop where
  agrees : Flock.Agrees s.root.locks holds s.pc
  chronological : Chronological s.root.now s.history
  mirrors : Mirrors ttl s.root.now s.root.entries s.history
  pc_valid : ∀ c, PcValid ttl s.root.now s.history (s.pc c)

theorem PcValid.later (h : PcValid ttl now hist pc) (hle : now ≤ now') :
    PcValid ttl now' hist pc := by
  cases pc with
  | missed key =>
    intro r hr hk
    have := h r hr hk
    omega
  | returning key o =>
    cases o with
    | value cached k => exact h
    | failed => trivial
  | _ => trivial

theorem PcValid.store_other (h : PcValid ttl now hist pc) (hr : pc.holds ≠ some r.key) :
    PcValid ttl now (r :: hist) pc := by
  cases pc with
  | missed key =>
    have hne : r.key ≠ key := fun e => hr (by rw [e]; rfl)
    intro r' hr' hk
    rcases List.mem_cons.mp hr' with rfl | hm
    · exact absurd hk hne
    · exact h r' hm hk
  | returning key o =>
    have hne : r.key ≠ key := fun e => hr (by rw [e]; rfl)
    cases o with
    | value cached k =>
      intro hs
      have hls := h hs
      simpa [latestStore, hne] using hls
    | failed => trivial
  | _ => trivial

/-- The storing caller holds the lock of the key, so no other call is concerned. -/
theorem CoalesceInv.store (hi : CoalesceInv ttl s) (ht : ttl ≤ cache.ttl) {o : StoreOutcome}
    (hpc : s.pc c = .storing key cached) (hv : o.visited = some vs) (hh : pc'.holds = some key)
    (hvl : PcValid ttl s.root.now (⟨key, cached, s.root.now⟩ :: s.history) pc') :
    CoalesceInv ttl
      { root := { s.root with
          entries := cache.store o s.root.entries s.root.now key cached }
        pc := update s.pc c pc'
        history := ⟨key, cached, s.root.now⟩ :: s.history } where
  agrees := hi.agrees.move (by rw [hpc, hh]; rfl)
  chronological := by
    refine ⟨?_, List.pairwise_cons.mpr ⟨hi.chronological.1, hi.chronological.2⟩⟩
    intro r hr
    rcases List.mem_cons.mp hr with rfl | hm
    · exact le_rfl
    · exact hi.chronological.1 r hm
  mirrors := hi.mirrors.store ht hv key cached
  pc_valid := by
    intro b
    by_cases hb : b = c
    · subst hb
      simpa using hvl
    · have ho : (s.pc b).holds ≠ some key := fun hk =>
        hb (hi.agrees.unique hk (by rw [hpc]; rfl))
      simpa [update_of_ne hb] using (hi.pc_valid b).store_other ho

variable {caches : Caller → CoalesceCache}

end ShareCli.Ipc
