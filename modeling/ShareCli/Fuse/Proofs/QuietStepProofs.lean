import ShareCli.Fuse.Proofs.InterceptFsProofs

/-!
# Operations none of whose calls fail

An operation that writes a file drops what is cached for it at the end. If no call is made to fail, errors come
before the first write only.
-/

namespace ShareCli.Fuse

open Foundation FileTree
open FsM (onDisk)

def Quiet (fates : Stream' Fate) : Prop := ∀ n, (fates.get n).failure = none

def Settled (path : FilePath) (w w' : FsWorld) : Prop :=
  w'.disk.tree.content path = w.disk.tree.content path ∨ w'.fs.cached path = none

theorem cached_invalidate_self (fs : InterceptFs) (path : FilePath) :
    ({ fs with readCache := fs.readCache.invalidate path } : InterceptFs).cached path = none :=
  AList.lookup_erase _ _

variable {w : FsWorld} {path : FilePath} {sid name : List Char}

theorem annotateWrite_succeeds (path : FilePath) (h : sid ≠ []) :
    DiskM.Succeeds (fun t => t.node path ≠ none) (annotateWrite path sid)
      (fun t => t.node path ≠ none) := by
  refine .bind .clock fun now => ?_
  rw [if_neg h]
  exact .bind (.setAttr _ _) fun _ => .setAttr _ _

theorem node_ne_none_of_file {t : FileTree FileBody} (h : t.file path ≠ none) : t.node path ≠ none := by
  intro hn
  simp [file, hn] at h

variable {α : Type}

theorem openWrite_quiet {γ : Type} {f : Unit → DiskM γ} {Q : FileTree FileBody → Prop} {d : Disk}
    (hf : ∀ u, DiskM.Succeeds (fun t => t.file path ≠ none) (f u) Q) (hd : d.Regular) :
    (∃ e, (DiskM.openWrite path >>= f) d = (.error e, d.tick)) ∨
      ∃ c d', (DiskM.openWrite path >>= f) d = (.ok c, d') ∧ d'.Regular ∧ Q d'.tree := by
  refine DiskM.Succeeds.after_ask ?_ hf hd
  intro _ t u ho
  cases hr : t.readFile path with
  | error e => simp [hr, Except.map] at ho
  | ok b => simp [readFile_eq_ok.mp hr]

theorem writeLocked_quiet {d : Disk} (hd : d.Regular) (h : sid ≠ [])
    (path : FilePath) (off : Nat) (data : List UInt8) :
    (∃ e, writeLocked path off data sid d = (.error e, d.tick)) ∨
      ∃ n d', writeLocked path off data sid d = (.ok n, d') := by
  have hrest : ∀ _ : Unit, DiskM.Succeeds (fun t => t.file path ≠ none) (do
      DiskM.touch
      DiskM.writeAll path off data
      annotateWrite path sid
      pure (UInt32.ofNat data.length)) (fun t => t.node path ≠ none) := fun _ =>
    .bind .touch fun _ => .bind (.writeAll off data) fun _ =>
      .bind ((annotateWrite_succeeds path h).weaken (fun _ => node_ne_none_of_file) fun _ h => h)
        fun _ => .pure _
  rcases openWrite_quiet hrest hd with
    ⟨e, he⟩ | ⟨n, d', hok, -⟩
  · exact .inl ⟨e, he⟩
  · exact .inr ⟨n, d', hok⟩

theorem withLockedPath_run (st : AgentCowStore) (a : Option (List Char)) (f : DiskM α)
    (d : Disk) : ∃ st' d1, (∀ p, d1.tree.file p = d.tree.file p) ∧ d.Precedes d1 ∧
      st.withLockedPath a f d = ((f d1).1, st', (f d1).2) := by
  unfold AgentCowStore.withLockedPath
  split
  · obtain ⟨ws, store1, d1, hsf, hr⟩ := storeFor_ready st (st.agentKey a) d
    exact ⟨store1, d1, hr.file, hr.precedes, by simp only [hsf]⟩
  · exact ⟨st, d, fun _ => rfl, .refl d, rfl⟩

theorem writePath_quiet (hd : w.disk.Regular) (hs : w.fs.sessionId ≠ []) (off : Nat)
    (data : List UInt8) : Settled path w (writePath path off data w).2 := by
  rw [writePath, FsM.bind_ask]
  obtain ⟨st', d1, hf, hp, hl⟩ := withLockedPath_run w.fs.cow none
    (writeLocked path off data w.fs.sessionId) w.disk
  rcases writeLocked_quiet (hp.regular hd) hs path off data with
    ⟨e, hr⟩ | ⟨n, d', hr⟩
  · rw [hr] at hl
    rw [FsM.bind_of_error (FsM.onCow_of_run hl)]
    exact .inl (content_congr (hf path))
  · rw [hr] at hl
    rw [FsM.bind_of_ok (FsM.onCow_of_run hl)]
    exact .inr (cached_invalidate_self _ path)

theorem setattr_quiet (hd : w.disk.Regular) {ino : UInt64}
    (hp : w.fs.inodes.absPath w.fs.backing ino = some path) (mode : Option Nat) (size : Nat) :
    Settled path w (setattr ino mode (some size) w).2 := by
  rw [setattr, FsM.bind_absPath hp]
  dsimp only
  have hrest : ∀ _ : Unit, DiskM.Succeeds (fun t => t.file path ≠ none) (DiskM.setLen path size)
      (fun t => t.file path ≠ none) := fun _ => .setLen size
  rcases openWrite_quiet hrest hd with
    ⟨e, hr⟩ | ⟨u, d1, hr, hd1, hf1⟩
  · rw [FsM.bind_of_error (FsM.onDisk_of_run hr)]
    exact .inl rfl
  · rw [FsM.bind_of_ok (FsM.onDisk_of_run hr)]
    have hn1 := node_ne_none_of_file hf1
    -- The rest gets to its end, where the cached bytes are dropped.
    have ht : ∀ d : Disk, d.Regular → d.tree.node path ≠ none → ((do
          let st ← onDisk (DiskM.metadata path)
          invalidateRead path
          pure (metadataToAttr ino st)) { w with disk := d }).2.fs.cached path = none := by
      intro d hd hn
      obtain ⟨st, d', hs, -⟩ := DiskM.Succeeds.metadata d hd hn
      have hm : onDisk (DiskM.metadata path) { w with disk := d } =
          (.ok st, { w with disk := d' }) := FsM.onDisk_of_run hs
      rw [FsM.bind_of_ok hm]
      exact cached_invalidate_self _ path
    cases mode with
    | none => exact .inr (ht d1 hd1 hn1)
    | some mode =>
      obtain ⟨v, d2, hmd, hd2, hn2⟩ := DiskM.Succeeds.setPermissions d1 hd1 hn1
      have hst : onDisk (DiskM.setPermissions path) { w with disk := d1 } =
          (.ok v, { w with disk := d2 }) := FsM.onDisk_of_run hmd
      simp only
      rw [FsM.bind_of_ok hst]
      exact .inr (ht d2 hd2 hn2)

theorem createDirAll_dropLast_spec (path : FilePath) (d : Disk) :
    d.Precedes (DiskM.createDirAll path.dropLast d).2 ∧
      (∀ p, (DiskM.createDirAll path.dropLast d).2.tree.file p = d.tree.file p) ∧
      (DiskM.createDirAll path.dropLast d).2.tree.node path = d.tree.node path := by
  obtain ⟨ps, hp, ht⟩ := DiskM.createDirAll_tree path.dropLast d
  rw [ht]
  refine ⟨DiskM.Advances.changePartly _ d, mkdirs_file ps, ?_⟩
  by_cases hroot : path = []
  · subst hroot
    exact mkdirs_node_of_ne_none ps (by simp [d.tree.root])
  · exact mkdirs_node_of_not_mem fun hm => not_prefix_dropLast hroot (hp path hm)

def Made (rel : FilePath) (w w' : FsWorld) : Prop :=
  (∀ p, w'.disk.tree.file p = w.disk.tree.file p) ∧
      w'.disk.tree.node (absUnder w.fs.backing rel) = w.disk.tree.node (absUnder w.fs.backing rel) ∨
    w'.fs.cached (absUnder w.fs.backing rel) = none ∧ ¬ w'.fs.Remembers rel

variable {rel : FilePath}

theorem Made.settled {w' : FsWorld} (h : Made rel w w') : Settled (absUnder w.fs.backing rel) w w' := by
  rcases h with ⟨hf, -⟩ | ⟨hc, -⟩
  · exact .inl (content_congr (hf _))
  · exact .inr hc

theorem afterCreateAt_quiet (hd : w.disk.Regular) (hs : w.fs.sessionId ≠ [])
    (hn : w.disk.tree.node path ≠ none) (rel : FilePath) :
    ∃ w', afterCreateAt rel path w = (.ok (), w') ∧ w'.fs.cached path = none ∧ ¬ w'.fs.Remembers rel := by
  obtain ⟨u, d', ha, -⟩ := annotateWrite_succeeds path hs w.disk hd hn
  rw [afterCreateAt, FsM.bind_ask, FsM.bind_of_ok (FsM.onDisk_of_run ha)]
  refine ⟨_, rfl, cached_invalidate_self _ path, fun hr => ?_⟩
  exact (remembers_invalidate hr).1 rfl

/-- Only the start of `rs` is looked at. -/
theorem createNew_quiet {rel : FilePath} {rs : Unit → FsM Errno α} {w1 : FsWorld}
    (hp : w.disk.Precedes w1.disk) (hfs : w1.fs = w.fs)
    (hf : ∀ p, w1.disk.tree.file p = w.disk.tree.file p)
    (hn : w1.disk.tree.node (absUnder w.fs.backing rel) = w.disk.tree.node (absUnder w.fs.backing rel))
    (hrest : ∀ w2 : FsWorld, w2.fs = w.fs → w2.disk.Regular →
      w2.disk.tree.node (absUnder w.fs.backing rel) ≠ none → Made rel w (rs () w2).2)
    (hd : w.disk.Regular) :
    Made rel w ((onDisk (DiskM.createNew (absUnder w.fs.backing rel)) >>= rs) w1).2 := by
  have hd1 := hp.regular hd
  have hs := DiskM.change_spec (fun now t => t.createNew (absUnder w.fs.backing rel) (.fresh now)) w1.disk
  generalize hr : DiskM.change
    (fun now t => t.createNew (absUnder w.fs.backing rel) (.fresh now)) w1.disk = o at hs
  have hc : onDisk (DiskM.createNew (absUnder w.fs.backing rel)) w1 =
      (o.1, { w1 with disk := o.2 }) := FsM.onDisk_of_run hr
  cases hs with
  | failed hfl => exact absurd hd1.head hfl
  | refused _ e he =>
    rw [FsM.bind_of_error hc]
    exact .inl ⟨hf, hn⟩
  | done _ t ht =>
    rw [FsM.bind_of_ok hc]
    refine hrest _ hfs ((Disk.Precedes.tick w1.disk t).regular hd1) ?_
    rw [(createNew_eq_ok ht).2, if_pos rfl]
    simp

theorem newFile_quiet {ds : FsM Errno Unit} {rs : Unit → FsM Errno α}
    {r : Except Errno Unit} (hd : w.disk.Regular) (hs : w.fs.sessionId ≠ [])
    (hdr : ds w = (r, { w with disk := (DiskM.createDirAll (absUnder w.fs.backing rel).dropLast w.disk).2 }))
    (hrest : ∀ w2 w3, afterCreateAt rel (absUnder w.fs.backing rel) w2 = (.ok (), w3) →
      w3.fs.cached (absUnder w.fs.backing rel) = none → ¬ w3.fs.Remembers rel → Made rel w (rs () w2).2) :
    Made rel w ((ds >>= fun _ => onDisk (DiskM.createNew (absUnder w.fs.backing rel)) >>= rs) w).2 := by
  obtain ⟨hp, hf, hn⟩ := createDirAll_dropLast_spec (absUnder w.fs.backing rel) w.disk
  cases r with
  | error e =>
    rw [FsM.bind_of_error hdr]
    exact .inl ⟨hf, hn⟩
  | ok u =>
    rw [FsM.bind_of_ok hdr]
    refine createNew_quiet hp rfl hf hn (fun w2 hfs hd2 hn2 => ?_) hd
    obtain ⟨w3, ha, hc, hm⟩ := afterCreateAt_quiet hd2 (hfs ▸ hs) hn2 rel
    exact hrest w2 w3 ha hc hm

theorem createRel_quiet (hd : w.disk.Regular) (hs : w.fs.sessionId ≠ []) (rel : FilePath) :
    Made rel w (createRel rel w).2 := by
  rw [createRel, FsM.bind_absRel]
  refine newFile_quiet hd hs rfl fun w2 w3 ha hc hm => ?_
  rw [ha]
  exact .inr ⟨hc, hm⟩

theorem create_quiet (hd : w.disk.Regular) (hs : w.fs.sessionId ≠ []) {dir : UInt64}
    (hr : w.fs.inodes.childRel dir name = some rel) :
    Made rel w (create dir name w).2 := by
  rw [create, FsM.bind_childRel hr, FsM.bind_absRel]
  refine newFile_quiet hd hs rfl fun w2 w3 ha hc hm => ?_
  have hat : (afterCreateAt rel (absUnder w.fs.backing rel)).attempt w2 = (.ok (.ok ()), w3) := by
    simp only [FsM.attempt, ha]
  rw [FsM.bind_of_ok hat]
  -- The entry that is installed is one more inode, and nothing is added to the caches.
  have he : Effect Set.univ Set.univ w3.disk.nows w3
      (installCreatedEntry rel (absUnder w.fs.backing rel) w3).2 :=
    installCreatedEntry_does rel _ fun _ h => h
  exact .inr ⟨he.drops.1 _ hc, he.drops.2 rel hm⟩

theorem mkdir_forgets {dir : UInt64} (hr : w.fs.inodes.childRel dir name = some rel) :
    (mkdir dir name w).2.disk.tree.node (absUnder w.fs.backing rel) =
        w.disk.tree.node (absUnder w.fs.backing rel) ∨
      ¬ (mkdir dir name w).2.fs.Remembers rel := by
  rw [mkdir, FsM.bind_childRel hr, FsM.bind_absRel]
  have hs := DiskM.change_spec (fun _ t => t.mkdir (absUnder w.fs.backing rel)) w.disk
  generalize hrn : DiskM.change (fun _ t => t.mkdir (absUnder w.fs.backing rel)) w.disk = o at hs
  have hc : onDisk (DiskM.createDir (absUnder w.fs.backing rel)) w =
      (o.1, { w with disk := o.2 }) := FsM.onDisk_of_run hrn
  cases hs with
  | failed hfl | refused _ e he =>
    rw [FsM.bind_of_error hc]
    exact .inl rfl
  | done _ t ht =>
    rw [FsM.bind_of_ok hc]
    refine .inr ?_
    -- Whether the mode could be set or not, the path is forgotten; what follows only looks at it.
    have htl : ∀ w1 : FsWorld, ¬ ((do
        invalidateNegRel rel
        let ino ← allocOrGet rel
        let stat ← onDisk (DiskM.metadata (absUnder w.fs.backing rel))
        pure (metadataToAttr ino stat)) w1).2.fs.Remembers rel := by
      intro w1
      obtain ⟨w2, hf, hfr⟩ : ∃ w2, (invalidateNegRel rel : FsM Errno Unit) w1 = (.ok (), w2) ∧
          ¬ w2.fs.Remembers rel := ⟨_, rfl, fun hr => (remembers_invalidate hr).1 rfl⟩
      rw [FsM.bind_of_ok hf]
      have hef : Effect Set.univ Set.univ w2.disk.nows w2
          (installCreatedEntry rel (absUnder w.fs.backing rel) w2).2 :=
        installCreatedEntry_does rel _ fun _ h => h
      exact hef.drops.2 rel hfr
    exact htl _

theorem commitRelForAgent_quiet (hd : w.disk.Regular) (hs : w.fs.sessionId ≠ [])
    (a : Option (List Char)) (rel : FilePath) :
    Settled (absUnder w.fs.backing rel) w (commitRelForAgent a rel w).2 := by
  rw [commitRelForAgent, FsM.bind_absRel]
  cases hc : w.fs.cow.commitPending a (absUnder w.fs.backing rel) w.disk with
  | mk r rs =>
    obtain ⟨st', d'⟩ := rs
    have hp := commitPending_precedes hc
    have hcw : onCow (fun cow => cow.commitPending a (absUnder w.fs.backing rel)) w =
        (r, { fs := { w.fs with cow := st' }, disk := d' }) := FsM.onCow_of_run hc
    rcases commitPending_regular hc hd with ⟨e, rfl, hf⟩ | ⟨rfl, ht⟩
    · rw [FsM.bind_of_error hcw]
      exact .inl (content_congr (hf _))
    · rw [FsM.bind_of_ok hcw]
      obtain ⟨u, d'', ha, -⟩ := annotateWrite_succeeds (absUnder w.fs.backing rel) hs d' (hp.regular hd) ht
      have hds : (onDisk (annotateWrite (absUnder w.fs.backing rel) w.fs.sessionId)).mapError
          WriteSerializeError.io { fs := { w.fs with cow := st' }, disk := d' } =
          (.ok u, { fs := { w.fs with cow := st' }, disk := d'' }) := by
        simp only [FsM.mapError, onDisk, ha, Except.mapError]
      rw [annotateCommitted, FsM.bind_ask, FsM.bind_of_ok hds]
      exact .inr (cached_invalidate_self _ _)

end ShareCli.Fuse
