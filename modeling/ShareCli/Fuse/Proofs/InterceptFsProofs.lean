import ShareCli.Fuse.InterceptFs
import ShareCli.Fuse.Proofs.CowStoreProofs

/-!
# What operations do

The effect of an operation is bounded by a footprint on the disk, and what it adds to the caches is true of the
disk (`Effect`).
-/

namespace ShareCli.Fuse

open Foundation FileTree Option

/-! ## Effects -/

def InterceptFs.cached (fs : InterceptFs) (path : FilePath) : Option CacheEntry :=
  fs.readCache.entries.lookup path

/-- The path is remembered as missing, perhaps for too long already. -/
def InterceptFs.Remembers (fs : InterceptFs) (rel : FilePath) : Prop := fs.negDentry.entries.lookup rel ≠ none

def CacheEntry.Matches (e : CacheEntry) (tree : FileTree FileBody) (path : FilePath) : Prop :=
  ∀ c, tree.content path = some c → c.2 = e.mtime → c.1 = e.data

structure Effect (wrote adds : Set FilePath) (ts : Set Nat) (w w' : FsWorld) : Prop where
  within : Within wrote adds ts w.disk.tree w'.disk.tree
  precedes : w.disk.Precedes w'.disk
  backing : w'.fs.backing = w.fs.backing
  sessionId : w'.fs.sessionId = w.fs.sessionId
  cached : ∀ p e, w'.fs.cached p = some e → w.fs.cached p = some e ∨ wrote = ∅ ∧ e.Matches w'.disk.tree p
  missing : ∀ rel, w'.fs.Remembers rel →
    w.fs.Remembers rel ∨ adds = ∅ ∧ w'.disk.tree.node (absUnder w.fs.backing rel) = none

section Effects

variable {wrote adds : Set FilePath} {ts : Set Nat} {w w' w'' : FsWorld}

namespace Effect

theorem refl (w : FsWorld) : Effect wrote adds ts w w where
  within := .refl _
  precedes := .refl _
  backing := rfl
  sessionId := rfl
  cached _ _ he := .inl he
  missing _ hr := .inl hr

theorem trans (h : Effect wrote adds ts w w') (h' : Effect wrote adds ts w' w'') : Effect wrote adds ts w w'' where
  within := h.within.trans h'.within
  precedes := h.precedes.trans h'.precedes
  backing := h'.backing.trans h.backing
  sessionId := h'.sessionId.trans h.sessionId
  cached p e he := by
    rcases h'.cached p e he with he | hnw
    · rcases h.cached p e he with he | ⟨hem, hm⟩
      · exact .inl he
      · -- Nothing has been written since, so the file still has the content it had.
        refine .inr ⟨hem, fun c hc => hm c ?_⟩
        rcases h'.within.content p c hc with hc | ⟨hw, -⟩
        · exact hc
        · simp [hem] at hw
    · exact .inr hnw
  missing rel hr := by
    rcases h'.missing rel hr with hr | ⟨hem, hn⟩
    · rcases h.missing rel hr with hr | ⟨hem, hn⟩
      · exact .inl hr
      · refine .inr ⟨hem, ?_⟩
        by_contra ht
        have ha := h'.within.appear _ hn ht
        simp [hem] at ha
    · exact .inr ⟨hem, h.backing ▸ hn⟩

theorem of_disk {d : Disk} (hw : Within wrote adds ts w.disk.tree d.tree)
    (hp : w.disk.Precedes d) : Effect wrote adds ts w { w with disk := d } where
  within := hw
  precedes := hp
  backing := rfl
  sessionId := rfl
  cached _ _ he := .inl he
  missing _ hr := .inl hr

theorem of_memory {fs : InterceptFs} (hb : fs.backing = w.fs.backing) (hsi : fs.sessionId = w.fs.sessionId)
    (hc : ∀ p e, fs.cached p = some e → w.fs.cached p = some e)
    (hm : ∀ rel, fs.Remembers rel → w.fs.Remembers rel) :
    Effect wrote adds ts w { w with fs } where
  within := .refl _
  precedes := .refl _
  backing := hb
  sessionId := hsi
  cached p e he := .inl (hc p e he)
  missing rel hr := .inl (hm rel hr)

theorem of_cow {cow : AgentCowStore} {d : Disk} (h : CowEffect wrote adds ts w.disk d) :
    Effect wrote adds ts w { fs := { w.fs with cow }, disk := d } where
  within := h.within
  precedes := h.precedes
  backing := rfl
  sessionId := rfl
  cached _ _ he := .inl he
  missing _ hr := .inl hr

theorem drops (h : Effect Set.univ Set.univ ts w w') : (∀ p, w.fs.cached p = none → w'.fs.cached p = none) ∧
      ∀ rel, ¬ w.fs.Remembers rel → ¬ w'.fs.Remembers rel := by
  have hu : (Set.univ : Set FilePath) ≠ ∅ := by
    intro hem
    have hm : ([] : FilePath) ∈ (∅ : Set FilePath) := hem ▸ Set.mem_univ _
    exact hm
  constructor
  · intro p hn
    rw [eq_none_iff_forall_ne_some]
    intro e he
    rcases h.cached p e he with he | ⟨hem, -⟩
    · cases hn.symm.trans he
    · exact hu hem
  · intro rel hr hr'
    rcases h.missing rel hr' with hr' | ⟨hem, -⟩
    · exact hr hr'
    · exact hu hem

end Effect

end Effects

variable {fs : InterceptFs} {rel r : FilePath}

theorem cached_invalidate {path p : FilePath} {e : CacheEntry}
    (h : ({ fs with readCache := fs.readCache.invalidate path } : InterceptFs).cached p = some e) :
    p ≠ path ∧ fs.cached p = some e :=
  lookup_erase_eq_some_iff.mp h

theorem remembers_invalidate
    (h : ({ fs with negDentry := fs.negDentry.invalidate rel } : InterceptFs).Remembers r) :
    r ≠ rel ∧ fs.Remembers r := by
  have he : (fs.negDentry.entries.erase rel).lookup r ≠ none := h
  have hne : r ≠ rel := by
    rintro rfl
    simp [AList.lookup_erase] at he
  rw [AList.lookup_erase_ne hne] at he
  exact ⟨hne, he⟩

theorem remembers_rememberMiss {now : Nat}
    (h : ({ fs with negDentry := fs.negDentry.rememberMiss rel now } : InterceptFs).Remembers r) :
    r = rel ∨ fs.Remembers r := by
  by_cases hne : r = rel
  · exact .inl hne
  · have hi : (fs.negDentry.entries.insert rel (now + fs.negDentry.ttl)).lookup r ≠ none := h
    rw [AList.lookup_insert_ne hne] at hi
    exact .inr hi

theorem remembers_isNegative {now : Nat}
    (h : ({ fs with negDentry := (fs.negDentry.isNegative rel now).2 } : InterceptFs).Remembers r) :
    fs.Remembers r := by
  have hl : (fs.negDentry.isNegative rel now).2.entries.lookup r ≠ none := h
  unfold NegativeDentryCache.isNegative at hl
  split at hl
  · split at hl
    · exact hl
    · have hk : ({ fs with negDentry := fs.negDentry.invalidate rel } : InterceptFs).Remembers r :=
        hl
      exact (remembers_invalidate hk).2
  · exact hl

namespace FsM

variable {ε ε' α γ : Type} {w w' : FsWorld} {x : FsM ε α} {f : α → FsM ε γ} {a : α}
  {op : AgentCowStore → Disk → Except ε α × AgentCowStore × Disk}

theorem bind_of_ok (h : x w = (.ok a, w')) : (x >>= f) w = f a w' := by
  show FsM.bind x f w = _
  simp [FsM.bind, h]

theorem bind_of_error {e : ε} (h : x w = (.error e, w')) : (x >>= f) w = (.error e, w') := by
  show FsM.bind x f w = _
  simp [FsM.bind, h]

theorem bind_ask (g : InterceptFs → α) (f : α → FsM ε γ) (w : FsWorld) : (ask g >>= f) w = f (g w.fs) w := rfl

theorem bind_absRel (rel : FilePath) (f : FilePath → FsM ε γ) (w : FsWorld) :
    (absRel rel >>= f) w = f (absUnder w.fs.backing rel) w := rfl

theorem bind_isNegative (rel : FilePath) (f : Bool → FsM ε γ) (w : FsWorld) :
    (isNegative rel >>= f) w = f (w.fs.negDentry.isNegative rel w.disk.now).1
      { fs := { w.fs with negDentry := (w.fs.negDentry.isNegative rel w.disk.now).2 }
        disk := w.disk.tick } := rfl

theorem bind_attempt (x : DiskM α) (f : Except Errno α → FsM Errno γ) (w : FsWorld) :
    ((onDisk x).attempt >>= f) w = f (x w.disk).1 { w with disk := (x w.disk).2 } := rfl

variable {ino dir : UInt64} {rel : FilePath}

theorem bind_absPath {path : FilePath}
    (h : w.fs.inodes.absPath w.fs.backing ino = some path) (f : FilePath → FsM Errno γ) :
    (absPath ino >>= f) w = f path w :=
  bind_of_ok (by simp [absPath, h])

theorem bind_absPath_unknown (h : w.fs.inodes.absPath w.fs.backing ino = none)
    (f : FilePath → FsM Errno γ) : (absPath ino >>= f) w = (.error .enoent, w) :=
  bind_of_error (by simp [absPath, h])

variable {name : List Char}

theorem bind_childRel (h : w.fs.inodes.childRel dir name = some rel) (f : FilePath → FsM Errno γ) :
    (childRel dir name >>= f) w = f rel w :=
  bind_of_ok (by simp [childRel, h])

theorem bind_lookupOrAlloc (h : w.fs.inodes.childRel dir name = some rel) (f : UInt64 × FilePath → FsM Errno γ) :
    (lookupOrAlloc dir name >>= f) w = f ((w.fs.inodes.allocOrGet rel).1, rel)
      { w with fs := { w.fs with inodes := (w.fs.inodes.allocOrGet rel).2 } } :=
  bind_of_ok (by simp only [lookupOrAlloc, InodeMap.lookupOrAlloc, h])

theorem bind_childRel_unknown (h : w.fs.inodes.childRel dir name = none) (f : FilePath → FsM Errno γ) :
    (childRel dir name >>= f) w = (.error .enoent, w) :=
  bind_of_error (by simp [childRel, h])

theorem onDisk_of_run {x : DiskM α} {res : Except Errno α} {d : Disk}
    (h : x w.disk = (res, d)) : onDisk x w = (res, { w with disk := d }) := by
  simp only [onDisk, h]

theorem onCow_of_run {res : Except ε α} {cow : AgentCowStore} {d : Disk}
    (h : op w.fs.cow w.disk = (res, cow, d)) :
    onCow op w = (res, { fs := { w.fs with cow }, disk := d }) := by
  simp only [onCow, h]

theorem bind_eq_ok {c : γ} (h : (x >>= f) w = (.ok c, w')) :
    ∃ a mid, x w = (.ok a, mid) ∧ f a mid = (.ok c, w') := by
  cases hx : x w with
  | mk res mid =>
    cases res with
    | error e =>
      rw [bind_of_error hx] at h
      cases h
    | ok a =>
      rw [bind_of_ok hx] at h
      exact ⟨a, mid, rfl, h⟩

theorem onDisk_eq_ok {x : DiskM α} (h : onDisk x w = (.ok a, w')) :
    x w.disk = (.ok a, w'.disk) ∧ w'.fs = w.fs := by
  cases hx : x w.disk with
  | mk res d =>
    rw [onDisk_of_run hx] at h
    cases h
    exact ⟨rfl, rfl⟩

theorem mapError_eq_ok {f : ε → ε'} (h : x.mapError f w = (.ok a, w')) : x w = (.ok a, w') := by
  unfold mapError at h
  cases hx : x w with
  | mk res mid =>
    rw [hx] at h
    cases res with
    | error e => cases h
    | ok b =>
      obtain ⟨hb, rfl⟩ := Prod.mk.inj h
      obtain rfl : b = a := by simpa [Except.mapError] using hb
      rfl

theorem onCow_eq_ok (h : onCow op w = (.ok a, w')) :
    op w.fs.cow w.disk = (.ok a, w'.fs.cow, w'.disk) ∧ w'.fs.sessionId = w.fs.sessionId ∧
      w'.fs.backing = w.fs.backing := by
  cases hop : op w.fs.cow w.disk with
  | mk res rs =>
    obtain ⟨cow, d⟩ := rs
    rw [onCow_of_run hop] at h
    cases h
    exact ⟨rfl, rfl, rfl⟩

/-- What `prog` does to `w` has this effect, if `ts` has all times of the clock. -/
def Does (wrote adds : Set FilePath) (ts : Set Nat) (prog : FsM ε α) (w : FsWorld) : Prop :=
  w.disk.nows ⊆ ts → Effect wrote adds ts w (prog w).2

namespace Does

variable {wrote adds : Set FilePath} {ts : Set Nat}

theorem pure (a : α) : Does wrote adds ts (pure a : FsM ε α) w := fun _ => .refl w

theorem throw (e : ε) : Does wrote adds ts (throw e : FsM ε α) w := fun _ => .refl w

theorem ask (f : InterceptFs → α) : Does wrote adds ts (ask f : FsM ε α) w := fun _ => .refl w

variable {x : FsM ε α} {f : FilePath → FsM Errno α}

theorem bind {f : α → FsM ε γ} (hx : Does wrote adds ts x w)
    (hf : ∀ a w', x w = (.ok a, w') → Does wrote adds ts (f a) w') :
    Does wrote adds ts (x >>= f) w := by
  intro hw
  have he := hx hw
  cases hr : x w with
  | mk res w' =>
    rw [hr] at he
    cases res with
    | error e =>
      rw [bind_of_error hr]
      exact he
    | ok a =>
      rw [bind_of_ok hr]
      exact he.trans (hf a w' hr (he.precedes.nows_subset.trans hw))

theorem attempt (hx : Does wrote adds ts x w) : Does wrote adds ts x.attempt w := hx

theorem mapError {f : ε → ε'} (hx : Does wrote adds ts x w) : Does wrote adds ts (x.mapError f) w := hx

theorem onDisk {x : DiskM α} (hx : DiskM.Footprint wrote adds ts x) : Does wrote adds ts (onDisk x) w :=
  fun hw => .of_disk (hx.within w.disk hw) (hx.advances w.disk)

theorem onCow {op : AgentCowStore → Disk → Except ε α × AgentCowStore × Disk}
    (hop : w.disk.nows ⊆ ts → CowEffect wrote adds ts w.disk (op w.fs.cow w.disk).2.2) :
    Does wrote adds ts (onCow op) w := fun hw => .of_cow (hop hw)

theorem invalidateRead (path : FilePath) : Does wrote adds ts (invalidateRead path : FsM ε Unit) w :=
  fun _ => .of_memory rfl rfl (fun _ _ he => (cached_invalidate he).2) fun _ hr => hr

theorem invalidateNegRel (rel : FilePath) : Does wrote adds ts (invalidateNegRel rel : FsM ε Unit) w :=
  fun _ => .of_memory rfl rfl (fun _ _ he => he) fun _ hr => (remembers_invalidate hr).2

theorem isNegative (rel : FilePath) : Does wrote adds ts (isNegative rel : FsM ε Bool) w := fun _ =>
  { within := .refl _
    precedes := .tick w.disk w.disk.tree
    backing := rfl
    sessionId := rfl
    cached _ _ he := .inl he
    missing _ hr := .inl (remembers_isNegative hr) }

/-- Only what is missing is remembered, by programs that bring nothing into being. -/
theorem rememberMiss {rel : FilePath} (h : w.disk.tree.node (absUnder w.fs.backing rel) = none) :
    Does wrote ∅ ts (rememberMiss rel : FsM ε Unit) w := fun _ =>
  { within := .refl _
    precedes := .tick w.disk w.disk.tree
    backing := rfl
    sessionId := rfl
    cached _ _ he := .inl he
    missing r hr := by
      rcases remembers_rememberMiss hr with rfl | hr
      · exact .inr ⟨rfl, h⟩
      · exact .inl hr }

theorem inodesChange (f : InodeMap → InodeMap) : Does wrote adds ts (inodesChange f) w :=
  fun _ => .of_memory rfl rfl (fun _ _ he => he) fun _ hr => hr

theorem allocOrGet (rel : FilePath) : Does wrote adds ts (allocOrGet rel) w :=
  fun _ => .of_memory rfl rfl (fun _ _ he => he) fun _ hr => hr

theorem lookupOrAlloc (dir : UInt64) (name : List Char) : Does wrote adds ts (lookupOrAlloc dir name) w := by
  intro _
  unfold Fuse.lookupOrAlloc
  split <;> exact .of_memory rfl rfl (fun _ _ he => he) fun _ hr => hr

theorem bind_absRel {rel : FilePath} {f : FilePath → FsM ε α}
    (hf : Does wrote adds ts (f (absUnder w.fs.backing rel)) w) :
    Does wrote adds ts (absRel rel >>= f) w := hf

theorem bind_absPath {ino : UInt64}
    (hf : ∀ path, w.fs.inodes.absPath w.fs.backing ino = some path → Does wrote adds ts (f path) w) :
    Does wrote adds ts (absPath ino >>= f) w := by
  intro hw
  cases hp : w.fs.inodes.absPath w.fs.backing ino with
  | none =>
    rw [bind_absPath_unknown hp]
    exact .refl w
  | some path =>
    rw [FsM.bind_absPath hp]
    exact hf path hp hw

theorem bind_childRel {dir : UInt64} {name : List Char}
    (hf : ∀ rel, w.fs.inodes.childRel dir name = some rel → Does wrote adds ts (f rel) w) :
    Does wrote adds ts (childRel dir name >>= f) w := by
  intro hw
  cases hr : w.fs.inodes.childRel dir name with
  | none =>
    rw [bind_childRel_unknown hr]
    exact .refl w
  | some rel =>
    rw [FsM.bind_childRel hr]
    exact hf rel hr hw

end Does

end FsM

/-! ## Reads -/

inductive CoalescedRead (cache : ReadContentCache) (path : FilePath) (d : Disk) :
    Except Errno (List UInt8) × ReadContentCache × Disk → Prop where
  /-- A file is not read only if one of the two calls fails. -/
  | failed (e : Errno) (cache' : ReadContentCache) (d' : Disk) (htree : d'.tree = d.tree)
      (hprecedes : d.Precedes d')
      (hcache : ∀ p e, cache'.entries.lookup p = some e → cache.entries.lookup p = some e)
      (hreason : ∀ body, d.tree.file path = some body →
        (d.fates.get 0).failure ≠ none ∨ (d.fates.get 1).failure ≠ none) :
      CoalescedRead cache path d (.error e, cache', d')
  | hit (entry : CacheEntry) (hentry : cache.entries.lookup path = some entry)
      (hmtime : ∀ c, d.tree.content path = some c → c.2 = entry.mtime) :
      CoalescedRead cache path d (.ok entry.data, cache, d.tick)
  | miss (body : FileBody) (cache' : ReadContentCache) (hbody : d.tree.file path = some body)
      (hcache : ∀ p e, cache'.entries.lookup p = some e → cache.entries.lookup p = some e) :
      CoalescedRead cache path d
        (.ok body.bytes, cache'.putMiss path body.mtime body.bytes, d.tick.tick)

theorem metadata_cases (path : FilePath) (d : Disk) : (∃ e, DiskM.metadata path d = (.error e, d.tick) ∧
      (d.fates.head.failure ≠ none ∨ d.tree.node path = none)) ∨
    ∃ st, DiskM.metadata path d = (.ok st, d.tick) ∧ ∀ c, d.tree.content path = some c → c.2 = st.mtime := by
  rw [DiskM.metadata_spec]
  cases hf : d.fates.head.failure with
  | some n => exact .inl ⟨_, rfl, .inl (by simp)⟩
  | none =>
    rcases hn : d.tree.node path with _ | _ | b
    · exact .inl ⟨_, rfl, .inr rfl⟩
    · refine .inr ⟨_, rfl, fun c hc => ?_⟩
      simp [content, file, hn] at hc
    · refine .inr ⟨_, rfl, fun c hc => ?_⟩
      simp only [content, file, hn, map_some, some.injEq] at hc
      rw [← hc]

theorem get_cases (a : ReadContentCache) (path : FilePath) (m : Nat) :
    (∃ entry, a.get path m = (some entry.data, a) ∧ a.entries.lookup path = some entry ∧ entry.mtime = m) ∨
    ∃ a', a.get path m = (none, a') ∧
      ∀ p e, a'.entries.lookup p = some e → a.entries.lookup p = some e := by
  unfold ReadContentCache.get
  cases hl : a.entries.lookup path with
  | none => exact .inr ⟨a, rfl, fun _ _ h => h⟩
  | some entry =>
    by_cases hm : entry.mtime = m
    · exact .inl ⟨entry, by simp [hm], rfl, hm⟩
    · refine .inr ⟨a.invalidate path, by simp [hm, ReadContentCache.invalidate],
        fun p e he => ?_⟩
      exact (lookup_erase_eq_some_iff.mp he).2

theorem readCoalesced_spec (a : ReadContentCache) (path : FilePath) (d : Disk) :
    CoalescedRead a path d (a.readCoalesced path d) := by
  have ht := Disk.Precedes.tick d d.tree
  unfold ReadContentCache.readCoalesced
  rcases metadata_cases path d with ⟨e, hs, hr⟩ | ⟨st, hs, hm⟩
  · simp only [hs]
    refine .failed e a d.tick rfl ht (fun _ _ h => h) fun b hb => ?_
    rcases hr with hf | hn
    · exact .inl hf
    · simp [file, hn] at hb
  · rcases get_cases a path st.mtime with ⟨entry, hg, he, het⟩ |
      ⟨cache', hg, hch⟩
    · simp only [hs, hg]
      exact .hit entry he fun c hc => (hm c hc).trans het.symm
    · simp only [hs, hg]
      have hp : d.Precedes d.tick.tick := ht.trans (.tick d.tick d.tree)
      have hrd := DiskM.ask_spec (fun _ tree => (tree.readFile path).map FileBody.bytes) d.tick
      unfold DiskM.read
      generalize DiskM.ask _ d.tick = outcome at hrd
      cases hrd with
      | failed hf =>
        exact .failed .eio cache' d.tick.tick rfl hp hch fun _ _ => .inr hf
      | answered hf =>
        cases hb : d.tree.readFile path with
        | error e =>
          simp only [Disk.tick, hb, Except.map]
          refine .failed e cache' d.tick.tick rfl hp hch fun b hfl => ?_
          cases (readFile_eq_ok.mpr hfl).symm.trans hb
        | ok b =>
          have hfl := readFile_eq_ok.mp hb
          have hby : st.mtime = b.mtime := (hm (b.bytes, b.mtime) (by simp [content, hfl])).symm
          simp only [Disk.tick, hb, Except.map, hby]
          exact .miss b cache' hfl hch

section Operations

open FsM (Does onDisk)

variable {wrote adds : Set FilePath} {ts : Set Nat} {w : FsWorld} {path : FilePath} {w' : FsWorld}

theorem metadata_enoent (h : (onDisk (DiskM.metadata path)).attempt w = (.ok (.error .enoent), w')) :
    w'.fs = w.fs ∧ w'.disk.tree.node path = none := by
  simp only [FsM.attempt, onDisk, DiskM.metadata_spec, Prod.mk.injEq, Except.ok.injEq] at h
  obtain ⟨hr, rfl⟩ := h
  refine ⟨rfl, ?_⟩
  split at hr
  · cases hr
  · assumption
  · cases hr
  · cases hr

theorem existsRel_does (rel : FilePath) : Does wrote ∅ ts (existsRel rel) w := by
  refine .bind (.isNegative rel) fun n w1 _ => ?_
  cases n with
  | true => exact .pure false
  | false =>
    refine .bind_absRel (.bind (.attempt (.onDisk .metadata)) fun st w2 hs => ?_)
    split
    · exact .bind (.invalidateNegRel rel) fun _ _ _ => .pure true
    · obtain ⟨hfs, hn⟩ := metadata_enoent hs
      refine .bind (.rememberMiss ?_) fun _ _ _ => .pure false
      rw [hfs]
      exact hn
    · exact .throw _

theorem lookup_does (dir : UInt64) (name : List Char) : Does wrote ∅ ts (lookup dir name) w := by
  refine .bind_childRel fun rel _ => .bind (.isNegative rel) fun n w1 _ => ?_
  cases n with
  | true => exact .throw _
  | false =>
    refine .bind (.lookupOrAlloc dir name) fun fd w2 _ => ?_
    obtain ⟨ino, rel⟩ := fd
    refine .bind_absRel (.bind (.attempt (.onDisk .metadata)) fun st w3 hs => ?_)
    cases st with
    | ok st => exact .bind (.invalidateNegRel rel) fun _ _ _ => .pure _
    | error e =>
      have ht : ∀ w, Does wrote ∅ ts (do
          inodesChange (·.removeRel rel)
          FsM.throw e : FsM Errno FileAttr) w :=
        fun _ => .bind (.inodesChange _) fun _ _ _ => .throw e
      by_cases he : e = .enoent
      · subst he
        obtain ⟨hfs, hn⟩ := metadata_enoent hs
        refine .bind (.rememberMiss ?_) fun _ w _ => ht w
        rw [hfs]
        exact hn
      · simp only [if_neg he]
        exact ht w3

theorem setattr_does {ino : UInt64} (m n : Option Nat)
    (hw : ∀ path, w.fs.inodes.absPath w.fs.backing ino = some path → n ≠ none → path ∈ wrote) :
    Does wrote adds ts (setattr ino m n) w := by
  refine .bind_absPath fun path hp => ?_
  have ht : ∀ w, Does wrote adds ts (do
      let stat ← onDisk (DiskM.metadata path)
      invalidateRead path
      pure (metadataToAttr ino stat)) w :=
    fun _ => .bind (.onDisk .metadata) fun _ _ _ => .bind (.invalidateRead path) fun _ _ _ => .pure _
  have hm : ∀ w, Does wrote adds ts (do
      onDisk (DiskM.setPermissions path)
      let stat ← onDisk (DiskM.metadata path)
      invalidateRead path
      pure (metadataToAttr ino stat)) w :=
    fun _ => .bind (.onDisk .setPermissions) fun _ w _ => ht w
  cases n with
  | none =>
    cases m with
    | none => exact ht w
    | some m => exact hm w
  | some n =>
    have hs : path ∈ wrote := hw path hp (by simp)
    refine .bind (.onDisk (.bind .openWrite fun _ => .setLen hs n)) fun _ w _ => ?_
    cases m with
    | none => exact ht w
    | some m => exact hm w

theorem annotateWrite_footprint (path : FilePath) (sid : List Char) :
    DiskM.Footprint wrote adds ts (annotateWrite path sid) := by
  refine .bind .clock fun now => ?_
  split
  · exact .throw _
  · exact .bind (.setAttr _ _) fun _ => .setAttr _ _

theorem writePath_does (off : Nat) (data : List UInt8) (hwr : path ∈ wrote)
    (hd : w.fs.cow.serialize = true → w.fs.cow.newDirs (w.fs.cow.agentKey none) ⊆ adds) :
    Does wrote adds ts (writePath path off data) w := by
  refine .bind (.ask _) fun sid w1 ha => ?_
  obtain ⟨-, rfl⟩ := Prod.mk.inj ha
  refine .bind (.onCow fun hw => ?_) fun n _ _ => .bind (.invalidateRead path) fun _ _ _ => .pure n
  have hwt : DiskM.Footprint wrote adds ts (writeLocked path off data sid) :=
    .bind .openWrite fun _ => .bind .touch fun _ => .bind (.writeAll hwr off data) fun _ =>
      .bind (annotateWrite_footprint path sid) fun _ => .pure _
  exact withLockedPath_effect hwt hw hd

theorem listEntries_does (rel : FilePath) (l : List FilePath) : Does wrote adds ts (listEntries rel l) w := by
  induction l generalizing w with
  | nil => exact .pure []
  | cons ch l ih =>
    exact .bind (.allocOrGet _) fun ino _ _ => .bind (.attempt (.onDisk .metadata)) fun st _ _ =>
      .bind ih fun rs _ _ => .pure _

theorem readdir_does (ino : UInt64) (off cap : Nat) (l : List FilePath) :
    Does wrote adds ts (readdir ino off cap l) w := by
  refine .bind (.ask _) fun map _ _ => ?_
  split
  · exact .throw _
  · rename_i rel _
    refine .bind ?_ fun dir _ _ => .bind_absRel (.bind (.onDisk .readDir) fun _ _ _ =>
      .bind (listEntries_does rel l) fun chs _ _ => .pure _)
    unfold parentIno
    split
    · exact .pure rootIno
    · exact .allocOrGet _

theorem afterCreateAt_does (rel abs : FilePath) : Does wrote adds ts (afterCreateAt rel abs) w :=
  .bind (.ask _) fun sid _ _ => .bind (.onDisk (annotateWrite_footprint abs sid))
    fun _ _ _ => .bind (.invalidateNegRel rel) fun _ _ _ => .invalidateRead abs

theorem createDirAll_dropLast (ha : ∀ p, p <+: path → p ∈ adds) :
    DiskM.Footprint wrote adds ts (DiskM.createDirAll path.dropLast) :=
  .createDirAll fun p hp => ha p (hp.trans (List.dropLast_prefix path))

theorem installCreatedEntry_does (rel path : FilePath) : Does wrote adds ts (installCreatedEntry rel path) w :=
  .bind (.allocOrGet rel) fun _ _ _ => .bind (.onDisk .metadata) fun _ _ _ => .pure _

theorem create_does {dir : UInt64} {name : List Char} (hw : ∀ rel, w.fs.inodes.childRel dir name = some rel →
      absUnder w.fs.backing rel ∈ wrote)
    (ha : ∀ rel, w.fs.inodes.childRel dir name = some rel → ∀ p, p <+: absUnder w.fs.backing rel → p ∈ adds) :
    Does wrote adds ts (create dir name) w := by
  refine .bind_childRel fun rel hr => .bind_absRel (.bind
    (.mapError (.onDisk (createDirAll_dropLast (ha rel hr)))) fun _ _ _ =>
      .bind (.onDisk (.createNew (hw rel hr) (ha rel hr _ (List.prefix_refl _))))
        fun _ _ _ => .bind (.attempt (afterCreateAt_does rel _)) fun res _ _ => ?_)
  cases res with
  | error e => exact .bind (.attempt (.onDisk .removeFile)) fun _ _ _ => .throw e
  | ok u => exact installCreatedEntry_does rel _

theorem onDisk_removal {f : FileTree FileBody → Except Errno (FileTree FileBody)} {u : Unit}
    (he : ∀ t t', f t = .ok t' → ∀ p, t'.node p = if p = path then none else t.node p)
    (h : onDisk (DiskM.change fun _ tree => f tree) w = (.ok u, w')) :
    w'.fs = w.fs ∧ w'.disk.tree.node path = none := by
  cases hr : DiskM.change (fun _ tree => f tree) w.disk with
  | mk res d' =>
    simp only [onDisk, hr, Prod.mk.injEq] at h
    obtain ⟨rfl, rfl⟩ := h
    have hok := DiskM.change_eq_ok hr
    refine ⟨rfl, ?_⟩
    rw [he _ _ hok, if_pos rfl]

theorem unlink_does (dir : UInt64) (name : List Char) : Does wrote ∅ ts (unlink dir name) w := by
  refine .bind_childRel fun rel hrl => .bind_absRel (.bind (.onDisk .removeFile) fun _ w1 hr =>
    .bind (.invalidateRead _) fun _ w2 hi => .bind (.rememberMiss ?_) fun _ _ _ =>
      .inodesChange _)
  obtain ⟨hfs, hn⟩ := onDisk_removal (fun t t' h => (unlink_eq_ok h).2) hr
  cases hi
  rw [hfs]
  exact hn

theorem rmdir_does (dir : UInt64) (name : List Char) : Does wrote ∅ ts (rmdir dir name) w := by
  refine .bind_childRel fun rel hrl => .bind_absRel (.bind (.onDisk .removeDir) fun _ w1 hr =>
    .bind (.rememberMiss ?_) fun _ _ _ => .inodesChange _)
  obtain ⟨hfs, hn⟩ := onDisk_removal (fun t t' h => (rmdir_eq_ok h).2) hr
  rw [hfs]
  exact hn

theorem readCoalesced_does (path : FilePath) : Does ∅ adds ts (readCoalesced path) w := by
  intro _
  have hs := readCoalesced_spec w.fs.readCache path w.disk
  unfold readCoalesced
  generalize w.fs.readCache.readCoalesced path w.disk = outcome at hs
  cases hs with
  | failed e a' d' ht hp hch hr =>
    exact {
      within := by
        rw [ht]
        exact .refl _
      precedes := hp
      backing := rfl
      sessionId := rfl
      cached := fun p e he => .inl (hch p e he)
      missing := fun _ hrl => .inl hrl }
  | hit entry hen hm => exact .of_disk (.refl _) (.tick w.disk w.disk.tree)
  | miss b a' hb hch =>
    exact {
      within := .refl _
      precedes := (Disk.Precedes.tick w.disk w.disk.tree).trans (.tick w.disk.tick w.disk.tree)
      backing := rfl
      sessionId := rfl
      cached := by
        intro p e he
        rcases lookup_insert_eq_some_iff.mp he with ⟨rfl, rfl⟩ | ⟨-, hold⟩
        · refine .inr ⟨rfl, fun c hc _ => ?_⟩
          have hcn : w.disk.tree.content p = some (b.bytes, b.mtime) := by
            simp [content, hb]
          rw [← some_inj.mp (hcn.symm.trans hc)]
        · exact .inl (hch p e hold)
      missing := fun _ hrl => .inl hrl }

theorem readSlice_does (path : FilePath) (off n : Nat) : Does ∅ adds ts (readSlice path off n) w := by
  have hwr : (readSlice path off n w).2 = (readCoalesced path w).2 := by
    unfold readSlice readCoalesced ReadContentCache.readSlice
    obtain ⟨res, cache, d⟩ := w.fs.readCache.readCoalesced path w.disk
    cases res with
    | error e => rfl
    | ok data => rfl
  intro hw
  rw [hwr]
  exact readCoalesced_does path hw

/-- A rename that has taken place: the caches have lost both paths, and the old one is remembered. -/
structure RenameDone (oldRel newRel : FilePath) (w w' : FsWorld) : Prop where
  tree : w.disk.tree.rename (absUnder w.fs.backing oldRel) (absUnder w.fs.backing newRel) = .ok w'.disk.tree
  backing : w'.fs.backing = w.fs.backing
  sessionId : w'.fs.sessionId = w.fs.sessionId
  cached : ∀ p e, w'.fs.cached p = some e →
    p ≠ absUnder w.fs.backing oldRel ∧ p ≠ absUnder w.fs.backing newRel ∧ w.fs.cached p = some e
  missing : ∀ rel, w'.fs.Remembers rel → rel ≠ newRel ∧ (rel = oldRel ∨ w.fs.Remembers rel)

theorem rename_cases (dir : UInt64) (name : List Char) (np : UInt64) (nn : List Char)
    (w : FsWorld) (h : (rename dir name np nn w).2 = w') :
    w'.state = w.state ∨
    ∃ old new, w.fs.inodes.childRel dir name = some old ∧
      w.fs.inodes.childRel np nn = some new ∧ RenameDone old new w w' := by
  cases hold : w.fs.inodes.childRel dir name with
  | none =>
    rw [rename, FsM.bind_childRel_unknown hold] at h
    subst h
    exact .inl rfl
  | some old =>
    rw [rename, FsM.bind_childRel hold] at h
    cases hnw : w.fs.inodes.childRel np nn with
    | none =>
      rw [FsM.bind_childRel_unknown hnw] at h
      subst h
      exact .inl rfl
    | some new =>
      rw [FsM.bind_childRel hnw, FsM.bind_absRel, FsM.bind_absRel] at h
      have hs := DiskM.rename_spec (absUnder w.fs.backing old) (absUnder w.fs.backing new) w.disk
      generalize hm : DiskM.rename (absUnder w.fs.backing old) (absUnder w.fs.backing new)
        w.disk = outcome at hs
      have hmv := FsM.onDisk_of_run hm
      cases hs with
      | refused e he | crossDevice hf hd =>
        rw [FsM.bind_of_error hmv] at h
        subst h
        exact .inl rfl
      | done tree ht =>
        rw [FsM.bind_of_ok hmv] at h
        subst h
        refine .inr ⟨old, new, rfl, rfl, ht, rfl, rfl, fun p e he => ?_, fun rel hr => ?_⟩
        · obtain ⟨hne, he⟩ := cached_invalidate he
          obtain ⟨hne', he⟩ := cached_invalidate he
          exact ⟨hne', hne, he⟩
        · obtain ⟨hne, hr⟩ := remembers_invalidate hr
          exact ⟨hne, remembers_rememberMiss hr⟩

theorem annotateCommitted_does (abs : FilePath) : Does wrote adds ts (annotateCommitted abs) w :=
  .bind (.ask _) fun sid _ _ =>
    .bind (.mapError (.onDisk (annotateWrite_footprint abs sid))) fun _ _ _ => .invalidateRead abs

theorem annotateAll_does (ps : List FilePath) : Does wrote adds ts (annotateAll ps) w := by
  induction ps generalizing w with
  | nil => exact .pure ()
  | cons abs ps ih => exact .bind (annotateCommitted_does abs) fun _ _ _ => ih

end Operations

/-! ## Steps -/

def FsState.abs (s : FsState) (rel : FilePath) : FilePath := absUnder s.fs.backing rel

def FsState.staged (s : FsState) (agent : Option (List Char)) (path : FilePath) : Option FilePath :=
  s.fs.cow.staged (s.fs.cow.agentKey agent) path

def FsState.stagingFor (names : FilePath → List Char) (s : FsState) (agent : Option (List Char))
    (path : FilePath) : FilePath :=
  s.fs.cow.stagingRootFor (s.fs.cow.agentKey agent) ++ [names path]

def FsState.firstUse (s : FsState) (agent : Option (List Char)) : Set FilePath :=
  s.fs.cow.newDirs (s.fs.cow.agentKey agent)

namespace FsOp

def written (names : FilePath → List Char) (s : FsState) : FsOp → Set FilePath
  | stageRelForAgent agent rel _ => {p | p = s.stagingFor names agent (s.abs rel)}
  | commitRelForAgent agent rel => {p | p = s.abs rel ∧ s.staged agent p ≠ none}
  | commitAllForAgent agent _ => {p | s.staged agent p ≠ none}
  | writeRel rel _ _ | createRel rel => {p | p = s.abs rel}
  | setattr ino _ size => {p | s.fs.inodes.absPath s.fs.backing ino = some p ∧ size ≠ none}
  | write ino _ _ => {p | s.fs.inodes.absPath s.fs.backing ino = some p}
  | create dir name | mknod dir name _ =>
    {p | ∃ rel, s.fs.inodes.childRel dir name = some rel ∧ p = s.abs rel}
  | _ => ∅

def appeared (names : FilePath → List Char) (s : FsState) : FsOp → Set FilePath
  | stageRelForAgent agent rel _ =>
    {p | p ∈ s.firstUse agent ∨ p <+: s.stagingFor names agent (s.abs rel)}
  | commitRelForAgent agent rel =>
    {p | p ∈ s.firstUse agent ∨ s.staged agent (s.abs rel) ≠ none ∧ p <+: s.abs rel}
  | commitAllForAgent agent _ =>
    {p | p ∈ s.firstUse agent ∨ ∃ path, s.staged agent path ≠ none ∧ p <+: path}
  | discardRelForAgent agent _ | discardAllForAgent agent _ => s.firstUse agent
  | writeRel _ _ _ | write _ _ _ => {p | s.fs.cow.serialize = true ∧ p ∈ s.firstUse none}
  | createRel rel => {p | p <+: s.abs rel}
  | create dir name | mknod dir name _ =>
    {p | ∃ rel, s.fs.inodes.childRel dir name = some rel ∧ p <+: s.abs rel}
  | mkdir dir name => {p | ∃ rel, s.fs.inodes.childRel dir name = some rel ∧ p = s.abs rel}
  | _ => ∅

/-- Those of the clock, and for commits those of the staging files. -/
def stamps (s : FsState) (fates : Stream' Fate) : FsOp → Set Nat
  | commitRelForAgent agent rel =>
    {now | now ∈ (s.world fates).disk.nows ∨ ∃ staging c, s.staged agent (s.abs rel) = some staging ∧
      s.tree.content staging = some c ∧ c.2 = now}
  | commitAllForAgent agent _ =>
    {now | now ∈ (s.world fates).disk.nows ∨ ∃ path staging c, s.staged agent path = some staging ∧
      s.tree.content staging = some c ∧ c.2 = now}
  | _ => (s.world fates).disk.nows

/-- What is promoted is no directory and in the way of no other path. -/
def StagingSound (s : FsState) : FsOp → Prop
  | commitRelForAgent agent rel => ∀ staging, s.staged agent (s.abs rel) = some staging →
    s.tree.node staging ≠ some .dir
  | commitAllForAgent agent _ => ∀ pt staging, s.staged agent pt = some staging →
    s.tree.node staging ≠ some .dir ∧ ∀ path', s.staged agent path' ≠ none → ¬ staging <+: path'
  | _ => True

def isRename : FsOp → Bool
  | rename _ _ _ _ => true
  | _ => false

end FsOp

section Steps

variable {names : FilePath → List Char} {s : FsState} {fates : Stream' Fate}

theorem FsOp.nows_subset_stamps (op : FsOp) (s : FsState) (fates : Stream' Fate) :
    (s.world fates).disk.nows ⊆ op.stamps s fates := by
  intro now hn
  cases op <;> first | exact .inl hn | exact hn

theorem promotable_of_sound {a : Option (List Char)} {ps : List FilePath}
    (hs : (FsOp.commitAllForAgent a ps).StagingSound s) :
    Promotable ((FsOp.commitAllForAgent a ps).written names s)
      ((FsOp.commitAllForAgent a ps).appeared names s)
      ((FsOp.commitAllForAgent a ps).stamps s fates) (s.fs.cow.agentKey a) s.fs.cow
      (s.world fates).disk where
  nows := FsOp.nows_subset_stamps _ s fates
  staging rel staging hst := by
    obtain ⟨hn, hf⟩ := hs rel staging hst
    refine ⟨hn, ?_⟩
    rintro (⟨hu, -⟩ | ⟨path', hst', hpr⟩)
    · simp [AgentCowStore.staged, hu] at hst
    · exact hf path' hst' hpr
  stamp rel staging hst c hc := .inr ⟨rel, staging, c, hst, hc, rfl⟩
  target rel staging hst := by
    have ht : s.staged a rel ≠ none := fun hno => by
      cases hno.symm.trans hst
    exact ⟨ht, fun p hp => .inr ⟨rel, ht, hp⟩⟩

/-- **Effect of a step.** Every operation but `rename` stays within its footprint. -/
theorem perform_effect (names : FilePath → List Char) (fates : Stream' Fate) (op : FsOp)
    (hop : op.isRename = false) (hs : op.StagingSound s) :
    Effect (op.written names s) (op.appeared names s) (op.stamps s fates) (s.world fates)
      (op.perform names (s.world fates)) := by
  have hn := op.nows_subset_stamps s fates
  cases op with
  | existsRel rel => exact existsRel_does rel hn
  | readCoalescedRel rel => exact FsM.Does.bind_absRel (readCoalesced_does _) hn
  | stageRelForAgent a rel cs =>
    exact FsM.Does.bind_absRel (.onCow fun hw => stageBytes_effect hw rfl (fun p hp => .inr hp)
      fun p hp => .inl hp) hn
  | commitRelForAgent a rel =>
    refine FsM.Does.bind_absRel (.bind (.onCow fun hw => commitPending_effect hw ?_
      fun p hp => .inl hp) fun _ _ _ => annotateCommitted_does _) hn
    intro staging hst
    have ht : s.staged a (s.abs rel) ≠ none := fun hno => by
      cases hno.symm.trans hst
    exact ⟨hs staging hst, fun c hc => .inr ⟨staging, c, hst, hc, rfl⟩, ⟨rfl, ht⟩,
      fun p hp => .inr ⟨ht, hp⟩⟩
  | commitAllForAgent a ps =>
    exact FsM.Does.bind (.onCow fun hw => commitAllForAgent_effect ps (promotable_of_sound hs)
      fun p hp => .inl hp) (fun ab _ _ => .bind (annotateAll_does ab) fun _ _ _ => .ask _)
      hn
  | discardRelForAgent a rel =>
    exact FsM.Does.bind_absRel (.onCow fun hw => discardPending_effect hw fun p hp => hp) hn
  | discardAllForAgent a ps =>
    exact FsM.Does.bind (.onCow fun hw => discardAllForAgent_effect ps hw fun p hp => hp)
      (fun _ _ _ => .ask _) hn
  | writeRel rel off data =>
    exact FsM.Does.bind_absRel (writePath_does off data rfl fun hsr p hp =>
      ⟨hsr, hp⟩) hn
  | createRel rel =>
    exact FsM.Does.bind_absRel (.bind (.onDisk (createDirAll_dropLast fun p hp => hp)) fun _ _ _ =>
      .bind (.onDisk (.createNew rfl (List.prefix_refl _))) fun _ _ _ => afterCreateAt_does rel _) hn
  | lookup dir name => exact lookup_does dir name hn
  | getattr ino =>
    exact FsM.Does.bind_absPath (fun _ _ => .bind (.onDisk .metadata) fun _ _ _ => .pure _) hn
  | setattr ino m n =>
    exact setattr_does m n (fun path hpt hsz => ⟨hpt, hsz⟩) hn
  | openFile ino =>
    refine FsM.Does.bind_absPath (fun path _ => .bind (.onDisk .metadata) fun st _ _ => ?_) hn
    split
    · exact .pure ino
    · exact .throw _
  | read ino off n =>
    exact FsM.Does.bind_absPath (fun path _ => readSlice_does path off n) hn
  | write ino off data =>
    exact FsM.Does.bind_absPath (fun path hpt => writePath_does off data hpt
      fun hsr p hp => ⟨hsr, hp⟩) hn
  | readdir ino off cap l => exact readdir_does ino off cap l hn
  | mkdir dir name =>
    exact FsM.Does.bind_childRel (fun rel hr => .bind_absRel (.bind
      (.onDisk (.createDir ⟨rel, hr, rfl⟩)) fun _ _ _ => .bind (.attempt (.onDisk .setPermissions))
        fun _ _ _ => .bind (.invalidateNegRel rel) fun _ _ _ => .bind (.allocOrGet rel) fun _ _ _ =>
          .bind (.onDisk .metadata) fun _ _ _ => .pure _)) hn
  | create dir name =>
    exact create_does (fun rel hr => ⟨rel, hr, rfl⟩) (fun rel hr p hp => ⟨rel, hr, hp⟩) hn
  | mknod dir name m =>
    show Effect _ _ _ _ (mknod dir name m (s.world fates)).2
    unfold mknod
    split
    · exact .refl _
    · exact create_does (fun rel hr => ⟨rel, hr, rfl⟩) (fun rel hr p hp => ⟨rel, hr, hp⟩) hn
  | unlink dir name => exact unlink_does dir name hn
  | rmdir dir name => exact rmdir_does dir name hn
  | rename dir name np nn => cases hop

/-- **The rule for a step.** -/
theorem perform_keeps {P : FsState → Prop} {names : FilePath → List Char} {fates : Stream' Fate} (op : FsOp)
    (h : P s) (hs : s.fs.sessionId ≠ [])
    (hrn : ∀ dir n np nn old new w', op = .rename dir n np nn → s.fs.inodes.childRel dir n = some old →
      s.fs.inodes.childRel np nn = some new → RenameDone old new (s.world fates) w' → P w'.state)
    (hop : op.isRename = false → op.StagingSound s ∧ (Effect (op.written names s) (op.appeared names s)
      (op.stamps s fates) (s.world fates) (op.perform names (s.world fates)) →
        P (op.perform names (s.world fates)).state)) :
    P (op.perform names (s.world fates)).state ∧ (op.perform names (s.world fates)).fs.sessionId ≠ [] := by
  cases hr : op.isRename with
  | true =>
    cases op with
    | rename dir n np nn =>
      rcases rename_cases dir n np nn (s.world fates) rfl with hsm | ⟨old, new, ho, hn, hd⟩
      · have hk : P (rename dir n np nn (s.world fates)).2.state ∧
            (rename dir n np nn (s.world fates)).2.state.fs.sessionId ≠ [] := by
          rw [hsm]
          exact ⟨h, hs⟩
        exact hk
      · exact ⟨hrn _ _ _ _ old new _ rfl ho hn hd, fun he => hs (hd.sessionId ▸ he)⟩
    | _ => cases hr
  | false =>
    obtain ⟨hsn, hk⟩ := hop hr
    have he := perform_effect names fates op hr hsn
    exact ⟨hk he, he.sessionId ▸ hs⟩

end Steps

end ShareCli.Fuse
