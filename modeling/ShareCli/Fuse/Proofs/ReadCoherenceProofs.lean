import ShareCli.Fuse.Proofs.QuietStepProofs

/-!
# Reads of the intercept filesystem

An entry of the read cache is served as long as the file has the time of the entry. A write that leaves the
entry and repeats the time makes reads stale: if a call fails after the write, a clock that stands still is
enough.
-/

namespace ShareCli.Fuse

open Foundation FileTree List Option

def Coherent (s : FsState) : Prop := ∀ p e, s.fs.cached p = some e → e.Matches s.tree p

def ReadsBacking (s : FsState) : Prop :=
  ∀ ino path body offset size f, s.fs.inodes.absPath s.fs.backing ino = some path →
    s.tree.file path = some body →
    (read ino offset size (s.world f)).1 = .ok ((body.bytes.drop offset).take size) ∨
      (∃ e, (read ino offset size (s.world f)).1 = .error e) ∧
        ((f.get 0).failure ≠ none ∨ (f.get 1).failure ≠ none)

def FsOp.invalidates : FsOp → Bool
  | commitRelForAgent _ _ | writeRel _ _ _ | createRel _ | setattr _ _ _ | write _ _ _ | create _ _
  | mknod _ _ _ => true
  | _ => false

/-- The step drops what is cached for the files it writes and no call is made to fail, or the times of the files it
writes are not those of what is cached for them. A rename is safe if nothing that it moves passes for what is
cached at the place it gets. -/
def ReadSafe (names : FilePath → List Char) (s : FsState) (l : FsStep) : Prop :=
  match l.op with
  | .rename parent name newparent newname =>
    ∀ oldRel newRel rest e, s.fs.inodes.childRel parent name = some oldRel →
      s.fs.inodes.childRel newparent newname = some newRel → rest ≠ [] →
      s.fs.cached (s.abs newRel ++ rest) = some e → e.Matches s.tree (s.abs oldRel ++ rest)
  | op => op.StagingSound s ∧ ∀ p ∈ op.written names s, op.invalidates = true ∧ Quiet l.fates ∨
        ∀ e, s.fs.cached p = some e → e.mtime ∉ op.stamps s l.fates

section Reads

variable {s : FsState}

theorem slice_eq (data : List UInt8) (off size : Nat) :
    ReadContentCache.slice data off size = (data.drop off).take size := by
  unfold ReadContentCache.slice
  split
  · rename_i hl
    simp [drop_eq_nil_of_le hl]
  · rename_i hs
    rw [drop_take]
    rcases Nat.le_total (off + size) data.length with hle | hle
    · rw [Nat.min_eq_left hle]
      congr 1
      omega
    · rw [Nat.min_eq_right hle, take_of_length_le (by simp), take_of_length_le]
      rw [length_drop]
      omega

theorem readSlice_fst (p : FilePath) (off size : Nat) (w : FsWorld) : (readSlice p off size w).1 =
      (w.fs.readCache.readCoalesced p w.disk).1.map
        fun data => (data.drop off).take size := by
  unfold readSlice ReadContentCache.readSlice
  obtain ⟨r, cache, d⟩ := w.fs.readCache.readCoalesced p w.disk
  cases r with
  | error e => rfl
  | ok data => simp only [slice_eq, Except.map]

theorem Coherent.readsBacking (h : Coherent s) : ReadsBacking s := by
  intro ino p b off size f hp hb
  rw [read, FsM.bind_absPath (w := s.world f) hp, readSlice_fst]
  have hc : s.tree.content p = some (b.bytes, b.mtime) := by
    simp [content, hb]
  have hs := readCoalesced_spec (s.world f).fs.readCache p (s.world f).disk
  generalize (s.world f).fs.readCache.readCoalesced p (s.world f).disk = outcome at hs ⊢
  cases hs with
  | failed e cache' d' ht hpr hch hr => exact .inr ⟨⟨e, rfl⟩, hr b hb⟩
  | hit entry he hm =>
    -- The entry has the time of the file, so it has its bytes.
    have hby := h p entry he _ hc (hm _ hc)
    refine .inl ?_
    show Except.ok ((entry.data.drop off).take size) = _
    rw [← hby]
  | miss b' cache' hb' hch =>
    obtain rfl := some_inj.mp (hb.symm.trans hb')
    exact .inl rfl

end Reads

section Steps

variable {names : FilePath → List Char} {s : FsState} {f : Stream' Fate}

theorem Coherent.of_effect {wrote adds : Set FilePath} {ts : Set Nat} {w' : FsWorld}
    (h : Coherent s) (hef : Effect wrote adds ts (s.world f) w')
    (hs : ∀ p ∈ wrote, Settled p (s.world f) w' ∨
      ∀ e, s.fs.cached p = some e → e.mtime ∉ ts) : Coherent w'.state := by
  intro p e he c hc ht
  rcases hef.cached p e he with hk | ⟨-, hm⟩
  · rcases hef.within.content p c hc with hsm | ⟨hw, hst⟩
    · exact h p e hk c hsm ht
    · rcases hs p hw with (hsm | hn) | hnw
      · exact h p e hk c (hsm ▸ hc) ht
      · cases hn.symm.trans he
      · exact absurd (ht ▸ hst) (hnw e hk)
  · exact hm c hc ht

theorem perform_settled {op : FsOp} (hop : op.invalidates = true) (hq : Quiet f)
    (hs : s.fs.sessionId ≠ []) {p : FilePath} (hp : p ∈ op.written names s) :
    Settled p (s.world f) (op.perform names (s.world f)) := by
  have hd : (s.world f).disk.Regular := hq
  cases op with
  | commitRelForAgent a rel =>
    obtain ⟨rfl, -⟩ := hp
    exact commitRelForAgent_quiet hd hs a rel
  | writeRel rel off data =>
    obtain rfl := hp
    exact writePath_quiet hd hs off data
  | createRel rel =>
    obtain rfl := hp
    exact (createRel_quiet hd hs rel).settled
  | setattr ino mode size =>
    obtain ⟨hpt, hsz⟩ := hp
    obtain ⟨size, rfl⟩ := ne_none_iff_exists'.mp hsz
    exact setattr_quiet hd hpt mode size
  | write ino off data =>
    show Settled p _ (write ino off data (s.world f)).2
    rw [write, FsM.bind_absPath (w := s.world f) hp]
    exact writePath_quiet hd hs off data
  | create dir n =>
    obtain ⟨rel, hr, rfl⟩ := hp
    exact (create_quiet hd hs hr).settled
  | mknod dir n mode =>
    obtain ⟨rel, hr, rfl⟩ := hp
    show Settled _ _ (mknod dir n mode (s.world f)).2
    unfold mknod
    split
    · exact .inl rfl
    · exact (create_quiet hd hs hr).settled
  | existsRel | readCoalescedRel | stageRelForAgent | commitAllForAgent | discardRelForAgent
  | discardAllForAgent | lookup | getattr | openFile | read | readdir | mkdir | unlink | rmdir
  | rename => cases hop

theorem content_rename {t t' : FileTree FileBody} {old new p : FilePath} {c : List UInt8 × Nat}
    (h : t.rename old new = .ok t') (hc : t'.content p = some c) :
    t.content p = some c ∨ ∃ rs, p = new ++ rs ∧ t.content (old ++ rs) = some c := by
  obtain ⟨-, ⟨-, rfl⟩ | ⟨-, -, hn⟩⟩ := rename_eq_ok h
  · exact .inl hc
  · by_cases hnw : new <+: p
    · obtain ⟨rs, rfl⟩ := hnw
      refine .inr ⟨rs, rfl, ?_⟩
      have hm := hn (new ++ rs)
      rw [if_pos (prefix_append new rs), drop_left] at hm
      rw [← hc]
      simp [content, file, hm]
    · have hm := hn p
      rw [if_neg hnw] at hm
      split at hm
      · simp [content, file, hm] at hc
      · exact .inl ((content_congr (file_congr hm)).symm.trans hc)

theorem Coherent.of_rename {old new : FilePath} {w' : FsWorld} (h : Coherent s)
    (hd : RenameDone old new (s.world f) w')
    (hs : ∀ rs e, rs ≠ [] → s.fs.cached (s.abs new ++ rs) = some e →
      e.Matches s.tree (s.abs old ++ rs)) : Coherent w'.state := by
  intro p e he c hc ht
  obtain ⟨-, hne, hk⟩ := hd.cached p e he
  rcases content_rename hd.tree hc with hsm | ⟨rs, rfl, hm⟩
  · exact h p e hk c hsm ht
  · have hrest : rs ≠ [] := by
      rintro rfl
      exact hne (append_nil _)
    exact hs rs e hrest hk c hm ht

theorem coherent_step {l : FsStep} (h : Coherent s) (hs : s.fs.sessionId ≠ []) (hsf : ReadSafe names s l) :
    Coherent (l.op.perform names (s.world l.fates)).state ∧
      (l.op.perform names (s.world l.fates)).fs.sessionId ≠ [] := by
  obtain ⟨op, f⟩ := l
  refine perform_keeps op h hs ?_ fun hop => ?_
  · rintro dir n np nn old new w' rfl ho hn hd
    exact h.of_rename hd fun rs e hrest he => hsf old new rs e ho hn hrest he
  · obtain ⟨hsn, hw⟩ : op.StagingSound s ∧ ∀ p ∈ op.written names s,
        op.invalidates = true ∧ Quiet f ∨ ∀ e, s.fs.cached p = some e → e.mtime ∉ op.stamps s f := by
      cases op with
      | rename => cases hop
      | _ => exact hsf
    refine ⟨hsn, fun hef => h.of_effect hef fun p hp => ?_⟩
    rcases hw p hp with ⟨hi, hq⟩ | hnw
    · exact .inl (perform_settled hi hq hs hp)
    · exact .inr hnw

end Steps

section Runs

variable {names : FilePath → List Char} {backing : FilePath} {opts : InterceptFsOptions} {pid : Nat}
  {d : Disk} {s s' : FsState}

theorem fsMachine_step {l : FsStep} (h : (fsMachine names backing opts pid d).step s l = some s') :
    s' = (l.op.perform names (s.world l.fates)).state := by
  simp only [fsMachine, ite_none_right_eq_some, some.injEq] at h
  exact h.2.symm

theorem sessionId_init : (fsMachine names backing opts pid d).init.fs.sessionId ≠ [] := by
  have hi : (fsMachine names backing opts pid d).init.fs.sessionId =
      if opts.sessionId = [] then defaultSessionId pid else opts.sessionId := rfl
  rw [hi]
  split
  · exact append_ne_nil_of_left_ne_nil (by decide) _
  · assumption

end Runs

/-- **Read coherence**, if all steps of a run are safe. -/
theorem reads_return_backing_bytes (stagingName : FilePath → List Char) (backing : FilePath)
    (opts : InterceptFsOptions) (pid : Nat) (d : Disk) (s : FsState)
    (h : (fsMachine stagingName backing opts pid d).ReachableWhen (ReadSafe stagingName) s) :
    ReadsBacking s := by
  have hi : Coherent s ∧ s.fs.sessionId ≠ [] := by
    refine Machine.invariantWhen ?_ ?_ h
    · refine ⟨fun p e he => ?_, sessionId_init⟩
      cases he
    · intro s l s' hs hsf hstep
      rw [fsMachine_step hstep]
      exact coherent_step hs.1 hs.2 hsf
  exact hi.1.readsBacking

def still : Stream' Fate := fun _ => { now := 0, failure := none }

def stillBut (n : Nat) : Stream' Fate := fun i => { now := 0, failure := if i = n then some 0 else none }

def emptyFs : Machine FsState FsStep :=
  fsMachine (fun _ => []) [['b']]
    { sessionId := [], cow := false, cowDir := none, agent := none, serialize := true } 0
    { tree := .empty, device := fun _ => 0, fates := still }

/-- A file is made, written, read and written again while the clock stands still. -/
theorem reads_return_backing_bytes_after_overwrite : ∃ s, emptyFs.run emptyFs.init
        [⟨.create rootIno ['f'], still⟩, ⟨.write 2 0 [1, 2], still⟩, ⟨.read 2 0 8, still⟩,
          ⟨.write 2 1 [3], still⟩] = some s ∧
      s.fs.inodes.absPath s.fs.backing 2 = some [['b'], ['f']] ∧
      (s.tree.file [['b'], ['f']]).map FileBody.bytes = some [1, 3] ∧ ReadsBacking s := by
  obtain ⟨s, hr, hpt, hby⟩ : ∃ s, emptyFs.run emptyFs.init
        [⟨.create rootIno ['f'], still⟩, ⟨.write 2 0 [1, 2], still⟩, ⟨.read 2 0 8, still⟩,
          ⟨.write 2 1 [3], still⟩] = some s ∧
      s.fs.inodes.absPath s.fs.backing 2 = some [['b'], ['f']] ∧
      (s.tree.file [['b'], ['f']]).map FileBody.bytes = some [1, 3] := Machine.exists_run (by decide +kernel)
  refine ⟨s, hr, hpt, hby, reads_return_backing_bytes _ _ _ _ _ s (.of_run .init ?_ hr)⟩
  have hq : Quiet still := fun _ => rfl
  intro l hl s
  simp only [mem_cons, not_mem_nil, or_false] at hl
  rcases hl with rfl | rfl | rfl | rfl
  · exact ⟨trivial, fun p _ => .inl ⟨rfl, hq⟩⟩
  · exact ⟨trivial, fun p _ => .inl ⟨rfl, hq⟩⟩
  · exact ⟨trivial, fun p hp => absurd hp (Set.notMem_empty p)⟩
  · exact ⟨trivial, fun p _ => .inl ⟨rfl, hq⟩⟩

/-- A write whose annotation fails keeps what is cached for the file. -/
theorem failed_annotation_leaves_stale_reads : ∃ s, emptyFs.run emptyFs.init
        [⟨.create rootIno ['f'], still⟩, ⟨.write 2 0 [1], still⟩, ⟨.read 2 0 8, still⟩,
          ⟨.write 2 0 [2], stillBut 5⟩] = some s ∧
      s.fs.inodes.absPath s.fs.backing 2 = some [['b'], ['f']] ∧
      (s.tree.file [['b'], ['f']]).map FileBody.bytes = some [2] ∧
      (read 2 0 8 (s.world still)).1 = .ok [1] :=
  Machine.exists_run (by decide +kernel)

end ShareCli.Fuse
