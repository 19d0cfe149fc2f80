import ShareCli.Fuse.Proofs.InterceptFsProofs
import ShareCli.Fuse.SharedFs

/-!
# Who a file says has written to it

Creations, writes and commits annotate the file as their last action on the disk.
-/

namespace ShareCli.Fuse

open Foundation DiskM FileTree List Option Text

def unixTimes : Set Nat := {now | now / 10 ^ 9 < 2 ^ 64}

def Marked (tree : FileTree FileBody) (path : FilePath) (sessionId : List Char) : Prop :=
  ∀ body, tree.file path = some body → Names body sessionId

section Annotations

variable {d d' : Disk} {path : FilePath} {sessionId : List Char} {u : Unit}

theorem names_annotated (b : FileBody) (sessionId : List Char) {now : Nat} (hn : now ∈ unixTimes) :
    Names ((b.setAttr attrSession (encodeUtf8 sessionId)).setAttr attrWrittenAt
      (encodeUtf8 (Nat.toDigits 10 (now / 10 ^ 9)))) sessionId := by
  have hne : attrSession ≠ attrWrittenAt := by decide
  refine ⟨now / 10 ^ 9, ?_⟩
  simp only [readProvenance, FileBody.setAttr, AList.lookup_insert_ne hne, AList.lookup_insert,
    decodeUtf8_encodeUtf8, Decimal.parseUnsigned_toDigits hn]

theorem names_congr {b b' : FileBody} (h : b'.attrs = b.attrs) : Names b' sessionId ↔ Names b sessionId := by
  simp only [Names, readProvenance, h]

theorem setAttr_eq_ok {n : String} {va : List UInt8} (h : setAttr path n va d = (.ok u, d')) :
    (∀ p, p ≠ path → d'.tree.node p = d.tree.node p) ∧ ∀ b', d'.tree.file path = some b' →
        ∃ b, d.tree.file path = some b ∧ b' = b.setAttr n va := by
  have hs := change_eq_ok h
  split at hs
  · rename_i hd
    obtain heq := Except.ok.inj hs
    rw [← heq]
    refine ⟨fun _ _ => rfl, fun b' hb' => ?_⟩
    simp [file, isDir_iff.mp hd] at hb'
  · obtain ⟨b, hb, hn⟩ := modify_eq_ok hs
    refine ⟨fun p hp => by rw [hn, if_neg hp], fun b' hb' => ⟨b, hb, ?_⟩⟩
    have hn' := file_eq_some_iff.mp hb'
    rw [hn, if_pos rfl] at hn'
    cases hn'
    rfl

theorem annotateWrite_eq_ok (hc : d.nows ⊆ unixTimes) (h : annotateWrite path sessionId d = (.ok u, d')) :
    (∀ p, p ≠ path → d'.tree.node p = d.tree.node p) ∧ Marked d'.tree path sessionId := by
  have hn := hc d.now_mem_nows
  obtain ⟨now, d1, hr, h⟩ := bind_eq_ok h
  obtain ⟨rfl, rfl⟩ : d.now = now ∧ d.tick = d1 := by
    cases hr
    exact ⟨rfl, rfl⟩
  split at h
  · cases h
  · obtain ⟨_, d2, hs, hw⟩ := bind_eq_ok h
    obtain ⟨ho1, hf1⟩ := setAttr_eq_ok hs
    obtain ⟨ho2, hf2⟩ := setAttr_eq_ok hw
    refine ⟨fun p hp => (ho2 p hp).trans (ho1 p hp), fun b' hb' => ?_⟩
    obtain ⟨b1, hb1, rfl⟩ := hf2 b' hb'
    obtain ⟨b, -, rfl⟩ := hf1 b1 hb1
    exact names_annotated b sessionId hn

end Annotations

section Operations

open FsM

variable {w w' : FsWorld} {path rel : FilePath} {u : Unit} {attr : FileAttr} {a : Option (List Char)}

theorem tree_of_ask {α : Type} {query : Nat → FileTree FileBody → Except Errno α} {a : α}
    (h : onDisk (ask query) w = (.ok a, w')) : w'.disk.tree = w.disk.tree := by
  have hr := (onDisk_eq_ok h).1
  have hs := ask_spec query w.disk
  generalize ask query w.disk = outcome at hs hr
  cases hs with
  | failed _ => cases hr
  | answered _ =>
    rw [← (Prod.mk.inj hr).2]
    rfl

theorem setattr_eq_ok {ino : UInt64} {m : Option Nat} {size : Nat}
    (hpt : w.fs.inodes.absPath w.fs.backing ino = some path)
    (h : setattr ino m (some size) w = (.ok attr, w')) :
    ∃ b now, w.disk.tree.file path = some b ∧ w'.disk.tree.file path = some (b.setLen size now) := by
  have ht : ∀ {w2 : FsWorld}, (onDisk (metadata path) >>= fun st => invalidateRead path >>= fun _ =>
      Pure.pure (metadataToAttr ino st)) w2 = (.ok attr, w') → w'.disk.tree = w2.disk.tree := by
    intro w2 h
    obtain ⟨st, w3, hs, h⟩ := bind_eq_ok h
    obtain ⟨_, w4, hr, h⟩ := bind_eq_ok h
    cases hr
    cases h
    show w3.disk.tree = w2.disk.tree
    exact tree_of_ask hs
  rw [setattr, bind_absPath hpt] at h
  obtain ⟨_, w1, hl, hm⟩ := bind_eq_ok h
  have hs2 : w'.disk.tree = w1.disk.tree := by
    cases m with
    | none => exact ht hm
    | some _ =>
      obtain ⟨_, w2, hm, h⟩ := bind_eq_ok (x := onDisk (setPermissions path)) hm
      exact (ht h).trans (tree_of_ask hm)
  obtain ⟨_, d1, ho, hst⟩ := bind_eq_ok (onDisk_eq_ok hl).1
  have hs1 : d1.tree = w.disk.tree := tree_of_ask (onDisk_of_run ho)
  obtain ⟨b, hb, hn⟩ := modify_eq_ok (change_eq_ok hst)
  refine ⟨b, d1.now, hs1 ▸ hb, ?_⟩
  rw [hs2, file_eq_some_iff, hn, if_pos rfl]

theorem installCreatedEntry_eq_ok (h : installCreatedEntry rel path w = (.ok attr, w')) :
    w'.disk.tree = w.disk.tree := by
  obtain ⟨ino, w1, ha, h⟩ := bind_eq_ok h
  cases ha
  obtain ⟨st, w2, hs, h⟩ := bind_eq_ok h
  cases h
  have ht := tree_of_ask hs
  exact ht

theorem writeLocked_eq_ok {d d' : Disk} {off : Nat} {data : List UInt8} {sessionId : List Char} {n : UInt32}
    (hc : d.nows ⊆ unixTimes) (h : writeLocked path off data sessionId d = (.ok n, d')) :
    Marked d'.tree path sessionId := by
  obtain ⟨_, d1, ho, h⟩ := bind_eq_ok h
  obtain ⟨_, d2, ht, h⟩ := bind_eq_ok h
  obtain ⟨_, d3, hw, h⟩ := bind_eq_ok h
  obtain ⟨_, d4, ha, h⟩ := bind_eq_ok h
  cases h
  have hn : d3.nows ⊆ d.nows := ((Advances.changePartly _).nows_subset hw).trans
    (((Advances.ask _).nows_subset ht).trans ((Advances.ask _).nows_subset ho))
  exact (annotateWrite_eq_ok (hn.trans hc) ha).2

variable (hc : w.disk.nows ⊆ unixTimes)

include hc

theorem afterCreateAt_eq_ok (h : afterCreateAt rel path w = (.ok u, w')) :
    Marked w'.disk.tree path w.fs.sessionId := by
  rw [afterCreateAt, bind_ask] at h
  obtain ⟨_, w1, ha, h⟩ := bind_eq_ok h
  obtain ⟨_, w2, hn, hr⟩ := bind_eq_ok h
  cases hn
  cases hr
  exact (annotateWrite_eq_ok hc (onDisk_eq_ok ha).1).2

theorem createNew_eq_ok {w1 w2 : FsWorld} {dir : FilePath} (hd : onDisk (createDirAll dir) w = (.ok u, w1))
    (hn : onDisk (createNew path) w1 = (.ok u, w2)) (h : afterCreateAt rel path w2 = (.ok u, w')) :
    Marked w'.disk.tree path w.fs.sessionId := by
  have hn1 := (Advances.changePartly _).nows_subset (onDisk_eq_ok hd).1
  have hn2 := (Advances.change _).nows_subset (onDisk_eq_ok hn).1
  have hm := afterCreateAt_eq_ok (hn2.trans (hn1.trans hc)) h
  rwa [(onDisk_eq_ok hn).2, (onDisk_eq_ok hd).2] at hm

theorem createRel_eq_ok (h : createRel rel w = (.ok u, w')) :
    Marked w'.disk.tree (absUnder w.fs.backing rel) w.fs.sessionId := by
  rw [createRel, bind_absRel] at h
  obtain ⟨_, w1, hd, h⟩ := bind_eq_ok h
  obtain ⟨_, w2, hn, h⟩ := bind_eq_ok h
  exact createNew_eq_ok hc hd hn h

theorem create_eq_ok {dir : UInt64} {n : List Char}
    (hrl : w.fs.inodes.childRel dir n = some rel) (h : create dir n w = (.ok attr, w')) :
    Marked w'.disk.tree (absUnder w.fs.backing rel) w.fs.sessionId := by
  rw [create, bind_childRel hrl, bind_absRel] at h
  obtain ⟨_, w1, hd, h⟩ := bind_eq_ok h
  obtain ⟨_, w2, hn, h⟩ := bind_eq_ok h
  obtain ⟨r, w3, ha, h⟩ := bind_eq_ok h
  obtain ⟨hr, rfl⟩ := Prod.mk.inj ha
  cases hr
  rcases hrn : afterCreateAt rel (absUnder w.fs.backing rel) w2 with ⟨e | u, w3⟩ <;> rw [hrn] at h
  · obtain ⟨_, w4, -, h⟩ := bind_eq_ok h
    cases h
  · have hm := createNew_eq_ok hc (mapError_eq_ok hd) hn hrn
    rwa [installCreatedEntry_eq_ok h]

theorem writePath_eq_ok {off : Nat} {data : List UInt8} {n : UInt32}
    (h : writePath path off data w = (.ok n, w')) : Marked w'.disk.tree path w.fs.sessionId := by
  rw [writePath, bind_ask] at h
  obtain ⟨m, w1, hl, h⟩ := bind_eq_ok h
  obtain ⟨_, w2, hr, h⟩ := bind_eq_ok h
  have hrn := (onCow_eq_ok hl).1
  obtain ⟨d1, hn, hw⟩ : ∃ d1 : Disk, d1.nows ⊆ unixTimes ∧
      writeLocked path off data w.fs.sessionId d1 = (.ok m, w1.disk) := by
    unfold AgentCowStore.withLockedPath at hrn
    split_ifs at hrn
    · obtain ⟨ws, store, d1, hsf, hrd⟩ := storeFor_ready w.fs.cow (w.fs.cow.agentKey none) w.disk
      simp only [hsf, Prod.mk.injEq] at hrn
      exact ⟨d1, hrd.precedes.nows_subset.trans hc, Prod.ext hrn.1 hrn.2.2⟩
    · simp only [Prod.mk.injEq] at hrn
      exact ⟨w.disk, hc, Prod.ext hrn.1 hrn.2.2⟩
  cases hr
  cases h
  exact writeLocked_eq_ok hn hw

theorem annotateCommitted_eq_ok (h : annotateCommitted path w = (.ok u, w')) :
    w'.fs.sessionId = w.fs.sessionId ∧ w'.disk.nows ⊆ w.disk.nows ∧
      (∀ p, p ≠ path → w'.disk.tree.node p = w.disk.tree.node p) ∧
      Marked w'.disk.tree path w.fs.sessionId := by
  rw [annotateCommitted, bind_ask] at h
  obtain ⟨_, w1, ha, h⟩ := bind_eq_ok h
  cases h
  have hr := mapError_eq_ok ha
  have hf : Footprint ∅ ∅ ∅ (annotateWrite path w.fs.sessionId) := annotateWrite_footprint path _
  have hn := hf.advances.nows_subset (onDisk_eq_ok hr).1
  refine ⟨?_, hn, annotateWrite_eq_ok hc (onDisk_eq_ok hr).1⟩
  rw [(onDisk_eq_ok hr).2]

theorem annotateAll_eq_ok {ps : List FilePath}
    (h : annotateAll ps w = (.ok u, w')) : ∀ p ∈ ps, Marked w'.disk.tree p w.fs.sessionId := by
  -- A path that has been annotated stays so: later annotations are of other paths, or of the same again.
  have hk : ∀ {ps : List FilePath} {w w' : FsWorld} {u : Unit} {p : FilePath},
      w.disk.nows ⊆ unixTimes → annotateAll ps w = (.ok u, w') →
      Marked w.disk.tree p w.fs.sessionId → Marked w'.disk.tree p w.fs.sessionId := by
    intro ps
    induction ps with
    | nil =>
      intro w w' u p _ h hm
      cases h
      exact hm
    | cons path ps ih =>
      intro w w' u p hc h hm
      obtain ⟨_, w1, hf, h⟩ := bind_eq_ok h
      obtain ⟨hs, hn, ho, hpt⟩ := annotateCommitted_eq_ok hc hf
      rw [← hs] at hm hpt ⊢
      refine ih (hn.trans hc) h ?_
      by_cases heq : p = path
      · exact heq ▸ hpt
      · intro b hb
        exact hm b ((file_congr (ho p heq)).symm.trans hb)
  induction ps generalizing w with
  | nil => exact fun p hp => absurd hp not_mem_nil
  | cons path ps ih =>
    obtain ⟨_, w1, hf, hrest⟩ := bind_eq_ok h
    obtain ⟨hs, hn, -, hpt⟩ := annotateCommitted_eq_ok hc hf
    rw [← hs] at hpt ⊢
    intro p hp
    rcases mem_cons.mp hp with heq | hp
    · exact hk (hn.trans hc) hrest (heq ▸ hpt)
    · exact ih (hn.trans hc) hrest p hp

theorem commitRelForAgent_eq_ok (h : commitRelForAgent a rel w = (.ok u, w')) :
    Marked w'.disk.tree (absUnder w.fs.backing rel) w.fs.sessionId := by
  rw [commitRelForAgent, bind_absRel] at h
  obtain ⟨_, w1, hcm, h⟩ := bind_eq_ok h
  obtain ⟨hr, hs, -⟩ := onCow_eq_ok hcm
  have hp := commitPending_precedes hr
  rw [← hs]
  exact (annotateCommitted_eq_ok (hp.nows_subset.trans hc) h).2.2.2

theorem commitAllForAgent_eq_ok {ps rels : List FilePath} (h : commitAllForAgent a ps w = (.ok rels, w')) :
    ∀ p ∈ ps, Marked w'.disk.tree p w.fs.sessionId := by
  obtain ⟨answer, w1, hcm, h⟩ := bind_eq_ok h
  obtain ⟨_, w2, ha, h⟩ := bind_eq_ok h
  cases h
  obtain ⟨hrn, hs, -⟩ := onCow_eq_ok hcm
  have hp := commitAllForAgent_precedes hrn
  obtain rfl : ps = answer := by
    have hr := congrArg Prod.fst hrn
    dsimp only [AgentCowStore.commitAllForAgent] at hr
    generalize (AgentCowStore.forEach _ ps _ _).1 = result at hr
    cases result with
    | error e => cases hr
    | ok u => exact Except.ok.inj hr
  rw [← hs]
  exact annotateAll_eq_ok (hp.nows_subset.trans hc) ha

end Operations

theorem FileBody.setLen_bytes_eq_iff (b : FileBody) (size now : Nat) :
    (b.setLen size now).bytes = b.bytes ↔ b.bytes.length = size := by
  constructor
  · intro h
    have hl := congrArg length h
    simp only [FileBody.setLen, length_append, length_take, length_replicate] at hl
    omega
  · rintro rfl
    simp [FileBody.setLen]

def FsOp.Marks (names : FilePath → List Char) (op : FsOp) (v : FsState) (after : FileTree FileBody) : Prop :=
  ∀ p ∈ op.written names v, ∀ body, after.file p = some body →
    (v.tree.file p).map FileBody.bytes ≠ some body.bytes → Names body v.fs.sessionId

def FsOp.ResizesForeign (v : FsState) : FsOp → Prop
  | .setattr ino _ (some size) => ∃ path body, v.fs.inodes.absPath v.fs.backing ino = some path ∧
      v.tree.file path = some body ∧ body.bytes.length ≠ size ∧ ¬ Names body v.fs.sessionId
  | _ => False

/-- These files are all that an operation other than `rename` can have changed, unless a directory has come in the
place of a staging file. -/
theorem changed_mem_written (names : FilePath → List Char) (fates : Stream' Fate) {op : FsOp} {v : FsState}
    (hop : op.isRename = false) (hs : op.StagingSound v) {p : FilePath} {b : FileBody}
    (hb : (op.perform names (v.world fates)).disk.tree.file p = some b)
    (hc : (v.tree.file p).map FileBody.bytes ≠ some b.bytes) : p ∈ op.written names v := by
  have hw := (perform_effect names fates op hop hs).within
  rcases hw.content p (b.bytes, b.mtime) (by simp [content, hb]) with hsm | hwr
  · obtain ⟨old, hold, hcn⟩ := map_eq_some_iff.mp hsm
    refine absurd ?_ hc
    have ht : v.tree.file p = some old := hold
    rw [ht, map_some, (Prod.mk.inj hcn).1]
  · exact hwr.1

theorem exists_ok {ε α : Type} {o : Except ε α × FsWorld} (h : o.1.toBool = true) :
    ∃ a, o = (.ok a, o.2) := by
  rcases o with ⟨e | a, w⟩
  · cases h
  · exact ⟨a, rfl⟩

section Steps

variable {names : FilePath → List Char} {op : FsOp} {v : FsState} {fates : Stream' Fate}

/-- After a success of an operation that annotates, all that it may have written names the session. -/
theorem marked_of_succeeds (hc : ∀ n, (fates.get n).now / 10 ^ 9 < 2 ^ 64)
    (hop : ∀ ino m size, op ≠ .setattr ino m size) (ha : op.isAdmissible v = true)
    (hok : op.succeeds (v.world fates) = true) :
    ∀ p ∈ op.written names v, Marked (op.perform names (v.world fates)).disk.tree p v.fs.sessionId := by
  have hn : (v.world fates).disk.nows ⊆ unixTimes := by
    rintro now ⟨n, rfl⟩
    exact hc n
  cases op with
  | setattr ino m size => exact absurd rfl (hop ino m size)
  | commitRelForAgent a rel =>
    obtain ⟨_, hr⟩ := exists_ok hok
    rintro p ⟨rfl, -⟩
    exact commitRelForAgent_eq_ok hn hr
  | commitAllForAgent a ps =>
    obtain ⟨_, hr⟩ := exists_ok hok
    have hpr : ps.Perm (v.fs.cow.pendingForAgent a) := of_decide_eq_true ha
    intro p hp
    refine commitAllForAgent_eq_ok hn hr p (hpr.mem_iff.mpr ?_)
    exact (mem_pendingForAgent_iff_staged v.fs.cow a p).mpr hp
  | writeRel rel off data =>
    obtain ⟨_, hr⟩ := exists_ok hok
    rintro p rfl
    exact writePath_eq_ok hn hr
  | createRel rel =>
    obtain ⟨_, hr⟩ := exists_ok hok
    rintro p rfl
    exact createRel_eq_ok hn hr
  | write ino off data =>
    obtain ⟨_, hr⟩ := exists_ok hok
    intro p hp
    have hpt : (v.world fates).fs.inodes.absPath (v.world fates).fs.backing ino = some p := hp
    show Marked (write ino off data (v.world fates)).2.disk.tree p v.fs.sessionId
    rw [write, FsM.bind_absPath hpt] at hr ⊢
    exact writePath_eq_ok hn hr
  | create dir name =>
    obtain ⟨_, hr⟩ := exists_ok hok
    rintro p ⟨rel, hrl, rfl⟩
    exact create_eq_ok hn hrl hr
  | mknod dir name m =>
    obtain ⟨_, hr⟩ := exists_ok hok
    rintro p ⟨rel, hrl, rfl⟩
    show Marked (mknod dir name m (v.world fates)).2.disk.tree _ _
    unfold mknod at hr ⊢
    split at hr
    · cases hr
    · rename_i hm
      rw [if_neg hm]
      exact create_eq_ok hn hrl hr
  | _ => cases hok

end Steps

/-- **Provenance.** Every file whose contents have changed names the session, except after a `setattr` that gives
another length to a file of another session. -/
theorem provenance_iff (stagingName : FilePath → List Char) (backing : FilePath) (mounts : List Mount) (d : Disk)
    (s s' : SharedFs) (l : SharedStep) (v : FsState) (hview : s.view l.index = some v)
    (hstep : (sharedMachine stagingName backing mounts d).step s l = some s')
    (hok : l.op.succeeds (v.world l.fates) = true) :
    l.op.Marks stagingName v s'.tree ↔ ¬ l.op.ResizesForeign v := by
  obtain ⟨ha, rfl⟩ : l.op.isAdmissible v = true ∧
      s.update l.index (l.op.perform stagingName (v.world l.fates)).state = s' := by
    simpa [sharedMachine, hview] using hstep
  obtain ⟨index, op, fates, hc⟩ := l
  by_cases hop : ∃ ino m size, op = .setattr ino m size
  · obtain ⟨ino, m, size, rfl⟩ := hop
    cases size with
    | none => exact iff_of_true (fun p hp => absurd rfl hp.2) id
    | some size =>
      obtain ⟨attr, hr⟩ := exists_ok hok
      constructor
      · rintro hm ⟨path, body, hpt, hb, hl, hf⟩
        obtain ⟨old, now, hold, hnw⟩ := setattr_eq_ok hpt hr
        obtain rfl := some_inj.mp (hold.symm.trans hb)
        have hch : (v.tree.file path).map FileBody.bytes ≠ some (old.setLen size now).bytes := by
          rw [hb, map_some, ne_eq, some_inj, eq_comm, FileBody.setLen_bytes_eq_iff]
          exact hl
        have hn := hm path ⟨hpt, nofun⟩ _ hnw hch
        exact hf ((names_congr rfl).mp hn)
      · rintro ho p ⟨hpt, -⟩ body hb hch
        obtain ⟨old, now, hold, hnw⟩ := setattr_eq_ok hpt hr
        obtain rfl := some_inj.mp (hnw.symm.trans hb)
        have ht : v.tree.file p = some old := hold
        rw [ht, map_some, ne_eq, some_inj, eq_comm, FileBody.setLen_bytes_eq_iff] at hch
        refine (names_congr rfl).mpr ?_
        by_contra hf
        exact ho ⟨p, old, hpt, ht, hch, hf⟩
  · have hmr : ∀ p ∈ op.written stagingName v,
        Marked (op.perform stagingName (v.world fates)).disk.tree p v.fs.sessionId :=
      marked_of_succeeds hc (fun ino m size heq => hop ⟨ino, m, size, heq⟩) ha hok
    refine iff_of_true (fun p hp body hb _ => hmr p hp body hb) ?_
    intro hf
    cases op with
    | setattr ino m size => exact hop ⟨ino, m, size, rfl⟩
    | _ => exact hf

def sessionMount (sessionId : List Char) : Mount :=
  { opts := { sessionId, cow := false, cowDir := none, agent := none, serialize := true }, pid := 0 }

def calmStep (index : Nat) (op : FsOp) : SharedStep where
  index := index
  op := op
  fates := .calm
  clock := by
    intro n
    show 0 / 10 ^ 9 < 2 ^ 64
    decide

def twoSessions : Machine SharedFs SharedStep :=
  sharedMachine (fun _ => []) [['d']] [sessionMount ['a'], sessionMount ['b']]
    { tree := .empty, device := fun _ => 0, fates := .calm }

def sharedFile : List SharedStep :=
  [calmStep 0 (.create rootIno ['f']), calmStep 0 (.write 2 0 [1, 2]), calmStep 1 (.lookup rootIno ['f'])]

theorem write_takes_over : ∃ s v s', twoSessions.Reachable s ∧ s.view 1 = some v ∧
    twoSessions.step s (calmStep 1 (.write 2 0 [3])) = some s' ∧ v.fs.sessionId = ['b'] ∧
    (v.tree.file [['d'], ['f']]).map FileBody.bytes = some [1, 2] ∧
    (s'.tree.file [['d'], ['f']]).map FileBody.bytes = some [3, 2] ∧
    (FsOp.write 2 0 [3]).Marks (fun _ => []) v s'.tree := by
  obtain ⟨s, hs, v, hv, s', hstep, hok, hsn, hb, ha⟩ : ∃ s, twoSessions.Reachable s ∧
      ∃ v ∈ s.view 1, ∃ s' ∈ twoSessions.step s (calmStep 1 (.write 2 0 [3])),
        (FsOp.write 2 0 [3]).succeeds (v.world .calm) = true ∧ v.fs.sessionId = ['b'] ∧
        (v.tree.file [['d'], ['f']]).map FileBody.bytes = some [1, 2] ∧
        (s'.tree.file [['d'], ['f']]).map FileBody.bytes = some [3, 2] :=
    Machine.exists_reachable sharedFile (by decide +kernel)
  refine ⟨s, v, s', hs, hv, hstep, hsn, hb, ha, ?_⟩
  exact (provenance_iff (fun _ => []) _ _ _ s s' (calmStep 1 (.write 2 0 [3])) v hv hstep hok).mpr id

/-- Session `b` cuts the file to one byte, and the file still names session `a`. -/
theorem truncation_keeps_old_name : ∃ s v s', twoSessions.Reachable s ∧ s.view 1 = some v ∧
    twoSessions.step s (calmStep 1 (.setattr 2 none (some 1))) = some s' ∧
    (FsOp.setattr 2 none (some 1)).succeeds (v.world .calm) = true ∧ v.fs.sessionId = ['b'] ∧
    (∃ body, s'.tree.file [['d'], ['f']] = some body ∧ body.bytes = [1] ∧ Names body ['a']) ∧
    ¬ (FsOp.setattr 2 none (some 1)).Marks (fun _ => []) v s'.tree := by
  obtain ⟨s, hs, v, hv, s', hstep, hok, hsn, hpt, hb, ha⟩ : ∃ s, twoSessions.Reachable s ∧
        ∃ v ∈ s.view 1, ∃ s' ∈ twoSessions.step s (calmStep 1 (.setattr 2 none (some 1))),
          (FsOp.setattr 2 none (some 1)).succeeds (v.world .calm) = true ∧ v.fs.sessionId = ['b'] ∧
          v.fs.inodes.absPath v.fs.backing 2 = some [['d'], ['f']] ∧
          (v.tree.file [['d'], ['f']]).map FileBody.bytes = some [1, 2] ∧
          (s'.tree.file [['d'], ['f']]).any fun body => body.bytes = [1] ∧
            body.attrs.lookup attrSession = some (encodeUtf8 ['a']) ∧
            body.attrs.lookup attrWrittenAt = some (encodeUtf8 (Nat.toDigits 10 0)) :=
    Machine.exists_reachable sharedFile (by decide +kernel)
  obtain ⟨body, hbd, hm⟩ := (any_eq_true _ _).mp ha
  obtain ⟨ho, hat, hw⟩ := of_decide_eq_true hm
  have hp : Decimal.parseUnsigned (2 ^ 64) (Nat.toDigits 10 0) = some 0 :=
    Decimal.parseUnsigned_toDigits (by decide)
  have hr : readProvenance body = .ok (some { sessionId := ['a'], writtenAtUnix := 0 }) := by
    simp only [readProvenance, hat, hw, decodeUtf8_encodeUtf8, hp]
  refine ⟨s, v, s', hs, hv, hstep, hok, hsn, ⟨body, hbd, ho, 0, hr⟩, fun hm => ?_⟩
  have hc : (v.tree.file [['d'], ['f']]).map FileBody.bytes ≠ some body.bytes := by
    rw [hb, ho]
    decide
  obtain ⟨wa, hn⟩ := hm _ ⟨hpt, nofun⟩ body hbd hc
  rw [hr, hsn] at hn
  cases hn

theorem write_changes_written : ∃ s v, twoSessions.Reachable s ∧ s.view 1 = some v ∧
    [['d'], ['f']] ∈ (FsOp.write 2 0 [3]).written (fun _ => []) v := by
  obtain ⟨s, hs, v, hv, hb, ha⟩ : ∃ s, twoSessions.Reachable s ∧ ∃ v ∈ s.view 1,
      (v.tree.file [['d'], ['f']]).map FileBody.bytes = some [1, 2] ∧
      (((FsOp.write 2 0 [3]).perform (fun _ => []) (v.world .calm)).disk.tree.file [['d'], ['f']]).any
        fun body => body.bytes = [3, 2] :=
    Machine.exists_reachable sharedFile (by decide +kernel)
  obtain ⟨body, hbd, hm⟩ := (any_eq_true _ _).mp ha
  have hc : (v.tree.file [['d'], ['f']]).map FileBody.bytes ≠ some body.bytes := by
    rw [hb, of_decide_eq_true hm]
    decide
  have hst : (FsOp.write 2 0 [3]).StagingSound v := trivial
  exact ⟨s, v, hs, hv, changed_mem_written (fun _ => []) .calm rfl hst hbd hc⟩

end ShareCli.Fuse
