import ShareCli.Fuse.Proofs.ReadCoherenceProofs

/-!
# Missing paths in the intercept filesystem

Operations that make a file or a directory forget the path that they are asked to make. A commit forgets
nothing, and neither does anything that makes directories on the way or moves a directory with what is below it.
-/

namespace ShareCli.Fuse

open Foundation DiskM List
open FsM (onDisk)

/-- What is remembered as missing is missing. -/
def NegCoherent (s : FsState) : Prop := ∀ rel, s.fs.Remembers rel → s.tree.node (s.abs rel) = none

def NoFileAbove (t : FileTree FileBody) (path : FilePath) : Prop := ∀ p, p <+: path → p ≠ path → t.file p = none

/-- A missing path is reported as such if the calls do not fail; a path below a file gets another error. -/
structure ReportsMissing (s : FsState) : Prop where
  exists_missing : ∀ rel f, (existsRel rel (s.world f)).1 = .ok false → s.tree.node (s.abs rel) = none
  exists_there : ∀ rel f, (existsRel rel (s.world f)).1 = .ok true → s.tree.node (s.abs rel) ≠ none
  missing_exists : ∀ rel f, Quiet f → NoFileAbove s.tree (s.abs rel) →
    s.tree.node (s.abs rel) = none → (existsRel rel (s.world f)).1 = .ok false
  lookup_missing : ∀ parent name rel f, s.fs.inodes.childRel parent name = some rel →
    (lookup parent name (s.world f)).1 = .error .enoent → s.tree.node (s.abs rel) = none
  missing_lookup : ∀ parent name rel f, s.fs.inodes.childRel parent name = some rel →
    Quiet f → NoFileAbove s.tree (s.abs rel) → s.tree.node (s.abs rel) = none →
    (lookup parent name (s.world f)).1 = .error .enoent

/-- A new file is forgotten when it has been annotated. -/
def FsOp.Forgets (s : FsState) (f : Stream' Fate) (rel : FilePath) : FsOp → Prop
  | mkdir parent name => s.fs.inodes.childRel parent name = some rel
  | createRel rel' => rel' = rel ∧ Quiet f
  | create parent name | mknod parent name _ =>
    s.fs.inodes.childRel parent name = some rel ∧ Quiet f
  | _ => False

/-- A remembered path that the step may bring into being is one that it forgets. A rename is safe if no remembered
path below the new one gets something from below the old one. -/
def NegSafe (names : FilePath → List Char) (s : FsState) (l : FsStep) : Prop :=
  match l.op with
  | .rename parent name newparent newname =>
    ∀ oldRel newRel rest, s.fs.inodes.childRel parent name = some oldRel →
      s.fs.inodes.childRel newparent newname = some newRel → rest ≠ [] →
      s.fs.Remembers (newRel ++ rest) → s.tree.node (s.abs oldRel ++ rest) = none
  | op => op.StagingSound s ∧ ∀ rel, s.fs.Remembers rel → s.abs rel ∈ op.appeared names s →
      op.Forgets s l.fates rel

section Reports

variable {path : FilePath} {d : Disk}

theorem absence_eq_enoent {t : FileTree FileBody} (h : NoFileAbove t path) : t.absence path = .enoent := by
  unfold FileTree.absence
  rw [if_neg]
  simp only [any_eq_true, mem_inits, Bool.and_eq_true, decide_eq_true_eq, not_exists, not_and]
  intro p hp hne
  simp [h p hp hne]

theorem remembers_of_isNegative {fs : InterceptFs} {rel : FilePath} {now : Nat}
    (h : (fs.negDentry.isNegative rel now).1 = true) : fs.Remembers rel := by
  unfold NegativeDentryCache.isNegative at h
  unfold InterceptFs.Remembers
  cases hl : fs.negDentry.entries.lookup rel with
  | none => simp [hl] at h
  | some earlier => simp

theorem existsRel_cases (rel : FilePath) (w : FsWorld) :
    (w.fs.Remembers rel ∧ (existsRel rel w).1 = .ok false) ∨
    (existsRel rel w).1 =
      match (metadata (absUnder w.fs.backing rel) w.disk.tick).1 with
      | .ok _ => .ok true
      | .error .enoent => .ok false
      | .error e => .error e := by
  rw [existsRel, FsM.bind_isNegative]
  cases hn : (w.fs.negDentry.isNegative rel w.disk.now).1 with
  | true => exact .inl ⟨remembers_of_isNegative hn, rfl⟩
  | false =>
    refine .inr ?_
    simp only [Bool.false_eq_true, if_false]
    rw [FsM.bind_absRel, FsM.bind_attempt]
    rcases (metadata (absUnder w.fs.backing rel) w.disk.tick).1 with e | st
    · cases e <;> rfl
    · rfl

theorem lookup_cases {dir : UInt64} {n : List Char} {rel : FilePath} {w : FsWorld}
    (hr : w.fs.inodes.childRel dir n = some rel) :
    (w.fs.Remembers rel ∧ (lookup dir n w).1 = .error .enoent) ∨
    ∃ ino, (lookup dir n w).1 =
      (metadata (absUnder w.fs.backing rel) w.disk.tick).1.map (metadataToAttr ino) := by
  rw [lookup, FsM.bind_childRel hr, FsM.bind_isNegative]
  cases hn : (w.fs.negDentry.isNegative rel w.disk.now).1 with
  | true => exact .inl ⟨remembers_of_isNegative hn, rfl⟩
  | false =>
    refine .inr ⟨(w.fs.inodes.allocOrGet rel).1, ?_⟩
    simp only [Bool.false_eq_true, if_false]
    refine (congrArg Prod.fst (FsM.bind_lookupOrAlloc (by exact hr) _)).trans ?_
    rw [FsM.bind_absRel, FsM.bind_attempt]
    rcases (metadata (absUnder w.fs.backing rel) w.disk.tick).1 with e | st
    · by_cases he : e = .enoent
      · subst he
        rfl
      · simp only [if_neg he]
        rfl
    · rfl

theorem metadata_of_enoent (h : (metadata path d).1 = .error .enoent) : d.tree.node path = none := by
  rw [metadata_spec] at h
  cases hf : d.fates.head.failure with
  | some n => simp [hf] at h
  | none =>
    rcases hn : d.tree.node path with _ | _ | b
    · rfl
    · simp [hf, hn] at h
    · simp [hf, hn] at h

theorem metadata_of_ok {st : Metadata} (h : (metadata path d).1 = .ok st) : d.tree.node path ≠ none := by
  intro hn
  rw [metadata_spec, hn] at h
  cases hf : d.fates.head.failure with
  | some n => simp [hf] at h
  | none => simp [hf] at h

theorem metadata_of_missing (hf : d.fates.head.failure = none) (ha : NoFileAbove d.tree path)
    (hn : d.tree.node path = none) :
    (metadata path d).1 = .error .enoent := by
  rw [metadata_spec]
  simp only [hf, hn, absence_eq_enoent ha]

variable {s : FsState}

theorem NegCoherent.reportsMissing (h : NegCoherent s) : ReportsMissing s where
  exists_missing rel f hf := by
    rcases existsRel_cases rel (s.world f) with ⟨hr, -⟩ | hd
    · exact h rel hr
    · rw [hf] at hd
      split at hd
      · cases hd
      · rename_i hs
        exact metadata_of_enoent (d := (s.world f).disk.tick) hs
      · cases hd
  exists_there rel f ht hn := by
    rcases existsRel_cases rel (s.world f) with ⟨-, hf⟩ | hd
    · cases ht.symm.trans hf
    · rw [ht] at hd
      split at hd
      · rename_i st hs
        exact metadata_of_ok (d := (s.world f).disk.tick) hs hn
      · cases hd
      · cases hd
  missing_exists rel f hq ha hn := by
    rcases existsRel_cases rel (s.world f) with ⟨-, hf⟩ | hd
    · exact hf
    · have hs : (metadata (absUnder (s.world f).fs.backing rel)
          (s.world f).disk.tick).1 = .error .enoent := metadata_of_missing (hq 1) ha hn
      rw [hd, hs]
  lookup_missing parent name rel f hr hm := by
    rcases lookup_cases (w := s.world f) hr with ⟨hr, -⟩ | ⟨ino, hd⟩
    · exact h rel hr
    · rw [hm] at hd
      cases hs : (metadata (absUnder (s.world f).fs.backing rel)
          (s.world f).disk.tick).1 with
      | error e =>
        rw [hs] at hd
        cases hd
        exact metadata_of_enoent (d := (s.world f).disk.tick) hs
      | ok st =>
        rw [hs] at hd
        cases hd
  missing_lookup parent name rel f hr hq ha hn := by
    rcases lookup_cases (w := s.world f) hr with ⟨-, hm⟩ | ⟨ino, hd⟩
    · exact hm
    · have hs : (metadata (absUnder (s.world f).fs.backing rel)
          (s.world f).disk.tick).1 = .error .enoent := metadata_of_missing (hq 1) ha hn
      rw [hd, hs]
      rfl

end Reports

section Steps

variable {names : FilePath → List Char} {s : FsState} {f : Stream' Fate}

theorem abs_injective {rel rel' : FilePath} (h : s.abs rel = s.abs rel') : rel = rel' :=
  append_cancel_left h

theorem NegCoherent.of_effect {wrote adds : Set FilePath} {ts : Set Nat} {w' : FsWorld}
    (h : NegCoherent s) (he : Effect wrote adds ts (s.world f) w')
    (hs : ∀ rel, s.fs.Remembers rel → s.abs rel ∈ adds →
      w'.disk.tree.node (s.abs rel) = s.tree.node (s.abs rel) ∨ ¬ w'.fs.Remembers rel) :
    NegCoherent w'.state := by
  intro rel hr
  have hab : w'.state.abs rel = s.abs rel := congrArg (absUnder · rel) he.backing
  rw [hab]
  rcases he.missing rel hr with hk | ⟨-, hn⟩
  · have hn : s.tree.node (s.abs rel) = none := h rel hk
    by_contra ht
    have ha := he.within.appear (s.abs rel) hn ht
    rcases hs rel hk ha with hsm | hf
    · exact ht (hsm.trans hn)
    · exact hf hr
  · exact hn

theorem perform_forgets {op : FsOp} {rel : FilePath} (hf : op.Forgets s f rel) (hs : s.fs.sessionId ≠ []) :
    (op.perform names (s.world f)).disk.tree.node (s.abs rel) = s.tree.node (s.abs rel) ∨
      ¬ (op.perform names (s.world f)).fs.Remembers rel := by
  have hr : Quiet f → (s.world f).disk.Regular := fun hq => hq
  have hm : ∀ w', Made rel (s.world f) w' →
      w'.disk.tree.node (s.abs rel) = s.tree.node (s.abs rel) ∨ ¬ w'.fs.Remembers rel := by
    rintro w' (⟨-, hn⟩ | ⟨-, hfr⟩)
    · exact .inl hn
    · exact .inr hfr
  cases op with
  | mkdir dir n => exact mkdir_forgets hf
  | createRel rel' =>
    obtain ⟨rfl, hq⟩ := hf
    exact hm _ (createRel_quiet (hr hq) hs rel')
  | create dir n => exact hm _ (create_quiet (hr hf.2) hs hf.1)
  | mknod dir n mode =>
    show (mknod dir n mode (s.world f)).2.disk.tree.node _ = _ ∨
      ¬ (mknod dir n mode (s.world f)).2.fs.Remembers rel
    unfold mknod
    split
    · exact .inl rfl
    · exact hm _ (create_quiet (hr hf.2) hs hf.1)
  | existsRel | readCoalescedRel | stageRelForAgent | commitRelForAgent | commitAllForAgent
  | discardRelForAgent | discardAllForAgent | writeRel | lookup | getattr | setattr | openFile | read
  | write | readdir | unlink | rmdir | rename => cases hf

theorem NegCoherent.of_rename {old new : FilePath} {w' : FsWorld} (h : NegCoherent s)
    (hd : RenameDone old new (s.world f) w')
    (hs : ∀ rs, rs ≠ [] → s.fs.Remembers (new ++ rs) →
      s.tree.node (s.abs old ++ rs) = none) : NegCoherent w'.state := by
  intro rel hr
  have hab : w'.state.abs rel = s.abs rel := congrArg (absUnder · rel) hd.backing
  show w'.disk.tree.node (w'.state.abs rel) = none
  rw [hab]
  obtain ⟨hne, hk⟩ := hd.missing rel hr
  obtain ⟨ht, ⟨hsm, htr⟩ | ⟨hb, he, hn⟩⟩ := FileTree.rename_eq_ok hd.tree
  · -- Nothing was moved, and the old path, which is the new one, has been forgotten again.
    rw [htr]
    rcases hk with rfl | hk
    · exact absurd (abs_injective hsm) hne
    · exact h rel hk
  · rw [hn]
    split
    · rename_i hp
      obtain ⟨rs, hrest⟩ := hp
      have hr' : new ++ rs = rel := by
        refine abs_injective (s := s) ?_
        rw [← hrest]
        exact (append_assoc _ _ _).symm
      have hrest' : rs ≠ [] := by
        rintro rfl
        exact hne ((append_nil _).symm.trans hr').symm
      rw [← hrest, drop_left]
      rcases hk with rfl | hk
      · -- The old path is not below the new one, below which there was nothing.
        refine absurd (he _ ⟨rs, hrest⟩ ?_) ht
        intro heq
        exact hne (abs_injective heq)
      · exact hs rs hrest' (hr' ▸ hk)
    · split
      · rfl
      · rename_i hnt
        rcases hk with rfl | hk
        · exact absurd (prefix_refl _) hnt
        · exact h rel hk

theorem negCoherent_step {l : FsStep} (h : NegCoherent s) (hs : s.fs.sessionId ≠ []) (hsf : NegSafe names s l) :
    NegCoherent (l.op.perform names (s.world l.fates)).state ∧
      (l.op.perform names (s.world l.fates)).fs.sessionId ≠ [] := by
  obtain ⟨op, f⟩ := l
  refine perform_keeps op h hs ?_ fun hop => ?_
  · rintro dir n np nn old new w' rfl ho hn hd
    exact h.of_rename hd fun rs hrest hrl => hsf old new rs ho hn hrest hrl
  · obtain ⟨hsn, ha⟩ : op.StagingSound s ∧ ∀ rel, s.fs.Remembers rel →
        s.abs rel ∈ op.appeared names s → op.Forgets s f rel := by
      cases op with
      | rename => cases hop
      | _ => exact hsf
    exact ⟨hsn, fun he => h.of_effect he fun rel hrl hm => perform_forgets (ha rel hrl hm) hs⟩

end Steps

/-- **Negative dentry coherence**, if all steps of a run are safe. -/
theorem missing_paths_reported_exactly (stagingName : FilePath → List Char) (backing : FilePath)
    (opts : InterceptFsOptions) (pid : Nat) (d : Disk) (s : FsState)
    (h : (fsMachine stagingName backing opts pid d).ReachableWhen (NegSafe stagingName) s) :
    ReportsMissing s := by
  have hi : NegCoherent s ∧ s.fs.sessionId ≠ [] := by
    refine Machine.invariantWhen ?_ ?_ h
    · refine ⟨fun rel hr => ?_, sessionId_init⟩
      exact absurd rfl hr
    · intro s l s' hs hsf hstep
      rw [fsMachine_step hstep]
      exact negCoherent_step hs.1 hs.2 hsf
  exact hi.1.reportsMissing

/-- A directory is looked for, made, found and removed. -/
theorem missing_paths_reported_exactly_after_rmdir : ∃ s, emptyFs.run emptyFs.init
        [⟨.existsRel [['g']], still⟩, ⟨.mkdir rootIno ['g'], still⟩, ⟨.lookup rootIno ['g'], still⟩,
          ⟨.rmdir rootIno ['g'], still⟩] = some s ∧
      s.tree.isMissing [['b'], ['g']] = true ∧ ReportsMissing s := by
  obtain ⟨s, hr, hs⟩ : ∃ s, emptyFs.run emptyFs.init
      [⟨.existsRel [['g']], still⟩, ⟨.mkdir rootIno ['g'], still⟩, ⟨.lookup rootIno ['g'], still⟩,
        ⟨.rmdir rootIno ['g'], still⟩] = some s ∧ s.tree.isMissing [['b'], ['g']] = true :=
    Machine.exists_run (by decide +kernel)
  refine ⟨s, hr, hs, missing_paths_reported_exactly _ _ _ _ _ s (.of_run .init ?_ hr)⟩
  have hn : ∀ p : FilePath, p ∉ (∅ : Set FilePath) := Set.notMem_empty
  intro l hl s
  simp only [mem_cons, not_mem_nil, or_false] at hl
  rcases hl with rfl | rfl | rfl | rfl
  · exact ⟨trivial, fun rel _ hm => absurd hm (hn _)⟩
  · refine ⟨trivial, fun rel _ hm => ?_⟩
    obtain ⟨rel', hrl, hab⟩ := hm
    exact abs_injective hab ▸ hrl
  · exact ⟨trivial, fun rel _ hm => absurd hm (hn _)⟩
  · exact ⟨trivial, fun rel _ hm => absurd hm (hn _)⟩

/-- A commit does not forget the path that it makes. -/
theorem committed_file_reported_missing : ∃ s, emptyFs.run emptyFs.init
        [⟨.existsRel [['f']], still⟩, ⟨.stageRelForAgent none [['f']] [1], still⟩,
          ⟨.commitRelForAgent none [['f']], still⟩] = some s ∧
      (s.tree.file [['b'], ['f']]).map FileBody.bytes = some [1] ∧
      (existsRel [['f']] (s.world still)).1 = .ok false ∧
      (lookup rootIno ['f'] (s.world still)).1 = .error .enoent :=
  Machine.exists_run (by decide +kernel)

end ShareCli.Fuse
