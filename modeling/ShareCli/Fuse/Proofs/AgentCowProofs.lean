import ShareCli.Foundation.Proofs.DiskProofs
import ShareCli.Fuse.AgentCow

/-!
# Errors of commit and discard

A commit that fails has made directories at most, unless the staging file is on another device and the copy
breaks off.
-/

namespace ShareCli.Fuse

open Foundation DiskM FileTree WriteSerialize List

variable {ws : WriteSerialize} {s back : FilePath} {d : Disk}

@[simp] theorem WriteSerialize.lookup_forget (ws : WriteSerialize) (p : FilePath) :
    (ws.forget p).pending.lookup p = none := AList.lookup_erase _ _

theorem WriteSerialize.lookup_forget_of_ne (ws : WriteSerialize) {p q : FilePath} (h : q ≠ p) :
    (ws.forget p).pending.lookup q = ws.pending.lookup q := AList.lookup_erase_ne h

inductive Promoted (s back : FilePath) (d : Disk) : Except Errno Unit × Disk → Prop where
  | stopped (e : Errno) (d' : Disk) (paths : List FilePath) (hpaths : ∀ p ∈ paths, p <+: back.dropLast)
      (htree : d'.tree = (d.tree.mkdirs paths).2) : Promoted s back d (.error e, d')
  | torn (n : Nat) (body : FileBody) (d' : Disk) (hfate0 : (d.fates.get 0).failure = none)
      (hfate1 : (d.fates.get 1).failure = none)
      (hfiles : ∀ p, p <+: back.dropLast → d.tree.file p = none)
      (hdevice : d.device s ≠ d.device back) (hfate : (d.fates.get 2).failure = some (n + 1))
      (hbody : d.tree.file s = some body)
      (htree : (d.tree.mkdirs back.dropLast.inits).2.writeFile back
        (fun old => .replaced old (body.bytes.take n) (d.fates.get 2).now) = .ok d'.tree) :
      Promoted s back d (.error .eio, d')
  | renamed (d' : Disk)
      (htree : (d.tree.mkdirs back.dropLast.inits).2.rename s back = .ok d'.tree) :
      Promoted s back d (.ok (), d')
  | copied (body : FileBody) (d' : Disk) (hprecedes : d.Precedes d')
      (hdevice : d.device s ≠ d.device back)
      (hbody : d.tree.file s = some body)
      (htree : (d.tree.mkdirs back.dropLast.inits).2.writeFile back
        (fun old => .replaced old body.bytes (d.fates.get 2).now) = .ok d'.tree) :
      Promoted s back d (.ok (), (removeFile s d').2)

structure DirsReady (back : FilePath) (d d1 : Disk) : Prop where
  fate : (d.fates.get 0).failure = none
  files : ∀ p, p <+: back.dropLast → d.tree.file p = none
  tree : d1.tree = (d.tree.mkdirs back.dropLast.inits).2
  device : d1.device = d.device
  fates : d1.fates = d.fates.tail

namespace DirsReady

variable {d1 : Disk}

theorem stopped (h : DirsReady back d d1) (e : Errno) {d' : Disk} (ht : d'.tree = d1.tree) :
    Promoted s back d (.error e, d') :=
  .stopped e d' back.dropLast.inits (fun _ hp => (mem_inits _ _).mp hp) (ht.trans h.tree)

theorem copied (h : DirsReady back d d1) (hf : d1.fates.head.failure = none)
    (hd : d1.device s ≠ d1.device back) :
    Promoted s back d ((do
      copy s back
      let _ ← (removeFile s).attempt) d1.tick) := by
  rw [h.device] at hd
  rw [h.fates] at hf
  have hmf := mkdirs_file (t := d.tree) back.dropLast.inits s
  have ht : d1.tick.tree = (d.tree.mkdirs back.dropLast.inits).2 := h.tree
  have hnext : d1.tick.fates.head = d.fates.get 2 := by
    show d1.fates.tail.head = _
    rw [h.fates]
    rfl
  have hn : d1.tick.now = (d.fates.get 2).now := congrArg Fate.now hnext
  obtain ⟨copied, hc⟩ : ∃ copied, copy s back d1.tick = copied := ⟨_, rfl⟩
  have hcp := copy_spec s back d1.tick
  rw [hc] at hcp
  cases hcp with
  | untouched e =>
    rw [bind_of_error hc]
    exact h.stopped e rfl
  | torn n b tr hf2 hb htr =>
    rw [bind_of_error hc]
    rw [ht] at hb htr
    rw [hn] at htr
    rw [hnext] at hf2
    exact .torn n b _ h.fate hf h.files hd hf2 (hmf ▸ hb) htr
  | done b tr hb htr =>
    rw [bind_of_ok hc]
    rw [ht] at hb htr
    rw [hn] at htr
    have hp : d.Precedes { d1.tick.tick with tree := tr } := by
      refine ⟨h.device, 3, ?_⟩
      show d1.fates.tail.tail = _
      rw [h.fates]
      rfl
    exact .copied b _ hp hd (hmf ▸ hb) htr

end DirsReady

theorem promote_spec (s back : FilePath) (d : Disk) : Promoted s back d (promote s back d) := by
  unfold promote
  obtain ⟨made, hm⟩ : ∃ made, createDirAll back.dropLast d = made := ⟨_, rfl⟩
  have hd := createDirAll_spec back.dropLast d
  rw [hm] at hd
  cases hd with
  | stopped e ps hp =>
    rw [bind_of_error hm]
    exact .stopped e _ ps hp rfl
  | done hf hfl =>
    rw [bind_of_ok hm]
    have hr : DirsReady back d { d.tick with tree := (d.tree.mkdirs back.dropLast.inits).2 } :=
      ⟨hf, hfl, rfl, rfl, rfl⟩
    generalize { d.tick with tree := (d.tree.mkdirs back.dropLast.inits).2 } = d1 at hr ⊢
    obtain ⟨m, hmv⟩ : ∃ m, DiskM.rename s back d1 = m := ⟨_, rfl⟩
    have hrn := rename_spec s back d1
    have ha : (DiskM.rename s back).attempt d1 = (.ok m.1, m.2) := by
      rw [← hmv]
      rfl
    rw [bind_of_ok ha]
    rw [hmv] at hrn
    cases hrn with
    | refused e he =>
      have hs : Promoted s back d (.error e, d1.tick) := hr.stopped e rfl
      cases e <;> first | exact hs | exact absurd rfl he
    | done tr ht =>
      rw [hr.tree] at ht
      exact .renamed _ ht
    | crossDevice hf1 hdv => exact hr.copied hf1 hdv

theorem promote_advances (s back : FilePath) : Advances (promote s back) := by
  refine .bind (.changePartly _) fun _ => .bind (Advances.rename _ _).attempt fun r => ?_
  split
  · exact .pure _
  · exact .bind (.changePartly _) fun _ => .bind (Advances.change _).attempt fun _ => .pure _
  · exact .throw _

theorem writeStaging_advances (s : FilePath) (cs : List UInt8) : Advances (writeStaging s cs) :=
  .bind (.changePartly _) fun _ => .bind (.change _) fun _ => .bind (.changePartly _) fun _ => .ask _

theorem not_prefix_dropLast (h : back ≠ []) : ¬ back <+: back.dropLast := by
  intro hp
  have hl := hp.length_le
  have hps := length_pos_iff.mpr h
  rw [length_dropLast] at hl
  omega

theorem mkdirs_node_backing {ps : List FilePath} (hp : ∀ p ∈ ps, p <+: back.dropLast) :
    (d.tree.mkdirs ps).2.node back = d.tree.node back := by
  by_cases hn : back = []
  · rw [hn]
    exact mkdirs_node_of_ne_none ps (by simp [d.tree.root])
  · exact mkdirs_node_of_not_mem fun hm => not_prefix_dropLast hn (hp _ hm)

/-- After an I/O error the entry, its staging file and the backing file are as they were. -/
def RetainsOnError
    (op : WriteSerialize → FilePath → Disk → Except WriteSerializeError Unit × WriteSerialize × Disk)
    (ws : WriteSerialize) (back : FilePath) (d : Disk) : Prop :=
  ∀ e ws' d', op ws back d = (.error (.io e), ws', d') →
    ws'.pending.lookup back = ws.pending.lookup back ∧ (∀ s, ws.pending.lookup back = some s →
        d'.tree.node s = d.tree.node s) ∧
      d'.tree.node back = d.tree.node back

/-- The staging file is on another device and the copy breaks off when the backing file has been opened. It does
not count if the file has these bytes and this time already. -/
def CopyTears (ws : WriteSerialize) (back : FilePath) (d : Disk) : Prop :=
  ∃ s body n, ws.pending.lookup back = some s ∧ d.tree.file s = some body ∧
    (d.fates.get 0).failure = none ∧ (d.fates.get 1).failure = none ∧
    (d.fates.get 2).failure = none ∧ (d.fates.get 3).failure = some (n + 1) ∧
    (∀ p, p <+: back.dropLast → d.tree.file p = none) ∧ d.tree.node back ≠ some .dir ∧
    d.device s ≠ d.device back ∧
    ¬ ∃ old, d.tree.file back = some old ∧ old.bytes = body.bytes.take n ∧ old.mtime = (d.fates.get 3).now

def RemovalFails (ws : WriteSerialize) (back : FilePath) (d : Disk) : Prop :=
  ∃ s, ws.pending.lookup back = some s ∧ (d.fates.get 0).failure = none ∧ d.tree.node s ≠ none ∧
    ((d.fates.get 1).failure ≠ none ∨ d.tree.node s = some .dir)

theorem replaced_eq_iff {old : Option FileBody} {bs : List UInt8} {now : Nat} :
    some (FileBody.replaced old bs now) = old ↔ ∃ b, old = some b ∧ b.bytes = bs ∧ b.mtime = now := by
  cases old with
  | none => simp
  | some b =>
    constructor
    · intro h
      have hb : FileBody.replaced (some b) bs now = b := Option.some_inj.mp h
      exact ⟨b, rfl, by rw [← hb]; rfl, by rw [← hb]; rfl⟩
    · rintro ⟨_, ⟨⟩, rfl, rfl⟩
      rfl

theorem commitPending_io {e : Errno} {ws' : WriteSerialize} {d' : Disk}
    (h : ws.commitPending back d = (.error (.io e), ws', d')) :
    ∃ s, ws.pending.lookup back = some s ∧ d.fates.head.failure = none ∧
      d.tree.node s ≠ none ∧ ws' = ws ∧ promote s back d.tick = (.error e, d') := by
  unfold commitPending at h
  cases hl : ws.pending.lookup back with
  | none => simp [hl] at h
  | some s =>
    simp only [hl, pathExists_spec] at h
    by_cases he : d.fates.head.failure = none ∧ d.tree.node s ≠ none
    · simp only [he, ne_eq, not_false_eq_true, and_self, decide_true] at h
      cases hp : promote s back d.tick with
      | mk r d'' =>
        cases r with
        | ok _ => simp [hp] at h
        | error e' =>
          simp only [hp, Prod.mk.injEq, Except.error.injEq, WriteSerializeError.io.injEq] at h
          obtain ⟨rfl, rfl, rfl⟩ := h
          exact ⟨s, rfl, he.1, he.2, rfl, hp⟩
    · simp [he] at h

theorem promote_torn {n : Nat} {b : FileBody} {tr : FileTree FileBody}
    (h0 : (d.fates.get 0).failure = none) (h1 : (d.fates.get 1).failure = none)
    (h2 : (d.fates.get 2).failure = some (n + 1))
    (hfl : ∀ p, p <+: back.dropLast → d.tree.file p = none)
    (hd : d.device s ≠ d.device back) (hb : d.tree.file s = some b)
    (ht : (d.tree.mkdirs back.dropLast.inits).2.writeFile back
      (fun old => .replaced old (b.bytes.take n) (d.fates.get 2).now) = .ok tr) :
    ∃ d', promote s back d = (.error .eio, d') ∧ d'.tree = tr := by
  have hmf := mkdirs_file (t := d.tree) back.dropLast.inits s
  unfold promote
  rw [bind_of_ok (createDirAll_of_no_files h0 hfl)]
  generalize hd1 : { d.tick with tree := (d.tree.mkdirs back.dropLast.inits).2 } = d1
  subst hd1
  have hrn := rename_of_cross_device (d := { d.tick with tree := (d.tree.mkdirs back.dropLast.inits).2 }) h1 hd
  have ha : (DiskM.rename s back).attempt
      { d.tick with tree := (d.tree.mkdirs back.dropLast.inits).2 } = (.ok (.error .exdev), _) :=
    congrArg (fun o => (Except.ok o.1, o.2)) hrn
  rw [bind_of_ok ha]
  have hcp := copy_of_torn s back (d := { d.tick.tick with tree := (d.tree.mkdirs back.dropLast.inits).2 }) h2
    (hmf.trans hb) ht
  exact ⟨_, bind_of_error hcp, rfl⟩

theorem retains_commitPending_iff : RetainsOnError commitPending ws back d ↔ ¬ CopyTears ws back d := by
  have hm : (d.tree.mkdirs back.dropLast.inits).2.node back = d.tree.node back :=
    mkdirs_node_backing fun p hp => (mem_inits _ _).mp hp
  constructor
  · rintro hr ⟨s, body, n, hl, hb, h0, h1, h2, h3, hfl, hn, hd, hnw⟩
    have hnd : d.tree.node s ≠ none := by
      rw [file_eq_some_iff.mp hb]
      simp
    have hpt : (d.tree.mkdirs back.dropLast.inits).2.isDir back = false := by
      rw [Bool.eq_false_iff, ne_eq, isDir_iff, hm]
      exact hn
    have hpr : (d.tree.mkdirs back.dropLast.inits).2.isDir back.dropLast = true :=
      mkdirs_isDir ((mkdirs_inits_eq_none_iff _).mpr hfl) _ (by simp)
    obtain ⟨tr, ht⟩ := exists_writeFile_eq_ok
      (fun old => .replaced old (body.bytes.take n) (d.fates.get 3).now) hpt hpr
    obtain ⟨d', hpm, hd'⟩ := promote_torn (d := d.tick) h1 h2 h3 hfl hd hb ht
    have hc : ws.commitPending back d = (.error (.io .eio), ws, d') := by
      have he : d.fates.head.failure = none ∧ d.tree.node s ≠ none := ⟨h0, hnd⟩
      simp [commitPending, hl, pathExists_spec, he.1, he.2, hpm]
    obtain ⟨-, -, hs⟩ := hr _ _ _ hc
    apply hnw
    have hf : d'.tree.file back = d.tree.file back := file_congr hs
    have hw := (writeFile_eq_ok ht).2.2 back
    rw [if_pos rfl, file_congr hm, ← hd', ← file_eq_some_iff, hf] at hw
    exact replaced_eq_iff.mp hw.symm
  · intro hnt e ws' d' hc
    obtain ⟨s, hl, hft, hth, rfl, hpm⟩ := commitPending_io hc
    have hsp := promote_spec s back d.tick
    rw [hpm] at hsp
    refine ⟨rfl, ?_⟩
    have hst : (∀ p, ws'.pending.lookup back = some p →
        d'.tree.node p = d.tree.node p) ↔ d'.tree.node s = d.tree.node s := by
      rw [hl]
      simp
    rw [hst]
    cases hsp with
    | stopped e d' ps hph ht =>
      rw [ht]
      exact ⟨mkdirs_node_of_ne_none ps hth, mkdirs_node_backing hph⟩
    | torn n body d' h1 h2 hfl hd h3 hb ht =>
      obtain ⟨hpt, -, hnd⟩ := writeFile_eq_ok ht
      have hne : s ≠ back := by
        rintro rfl
        exact hd rfl
      constructor
      · rw [hnd, if_neg hne]
        exact mkdirs_node_of_ne_none _ hth
      · have hn : d.tree.node back ≠ some .dir := by
          rw [← hm, ne_eq, ← isDir_iff]
          exact Bool.eq_false_iff.mp hpt
        -- The copy has torn, so the file must have been what it is now.
        by_contra hch
        refine hnt ⟨s, body, n, hl, hb, hft, h1, h2, h3, hfl, hn, hd, ?_⟩
        intro hold
        have hs := file_eq_some_iff.mp (replaced_eq_iff.mpr hold).symm
        apply hch
        have hf : (d.tick.tree.mkdirs back.dropLast.inits).2.file back = d.tree.file back := file_congr hm
        rw [hnd, if_pos rfl, hf]
        exact hs.symm

/-- A discard of a pending path drops the entry, whatever becomes of the staging file. -/
theorem discardPending_eq (h : ws.pending.lookup back = some s) : ws.discardPending back d =
      ((dropStaging s d).1.mapError .io, ws.forget back, (dropStaging s d).2) := by
  simp only [discardPending, h]
  obtain ⟨r, d'⟩ := dropStaging s d
  cases r with
  | error e => rfl
  | ok u => rfl

theorem retains_discardPending_iff : RetainsOnError discardPending ws back d ↔ ¬ RemovalFails ws back d := by
  cases hl : ws.pending.lookup back with
  | none =>
    constructor
    · rintro - ⟨s, hst, -⟩
      simp [hl] at hst
    · rintro - e ws' d' hd
      simp [discardPending, hl] at hd
  | some s =>
    have hd := discardPending_eq (d := d) hl
    have hf : (ws.forget back).pending.lookup back ≠ ws.pending.lookup back := by
      rw [hl, ws.lookup_forget]
      simp
    -- Any error at all loses the entry, so what is to be shown is when there is one.
    have her : RetainsOnError discardPending ws back d ↔ ∀ e d', dropStaging s d ≠ (.error e, d') := by
      constructor
      · intro hr e d' hdr
        rw [hdr] at hd
        exact hf (hr _ _ _ hd).1
      · intro hok e ws' d' hrs
        rw [hd] at hrs
        cases hdr : dropStaging s d with
        | mk r d'' =>
          cases r with
          | error e' => exact absurd hdr (hok e' d'')
          | ok u =>
            rw [hdr] at hrs
            cases hrs
    have hfl : RemovalFails ws back d ↔ d.fates.head.failure = none ∧ d.tree.node s ≠ none ∧
        (d.tick.fates.head.failure ≠ none ∨ d.tree.node s = some .dir) := by
      simp only [RemovalFails, hl, Option.some.injEq, exists_eq_left']
      exact Iff.rfl
    rw [her, hfl]
    unfold dropStaging
    rw [pathExists_spec]
    by_cases hes : d.fates.head.failure = none ∧ d.tree.node s ≠ none
    · simp only [hes, ne_eq, not_false_eq_true, and_self, decide_true, true_and]
      have hsp := change_spec (fun _ tr => tr.unlink s) d.tick
      show (∀ e d', change _ d.tick ≠ (.error e, d')) ↔ _
      generalize change _ d.tick = outcome at hsp
      cases hsp with
      | failed h => simp [h]
      | refused h e he =>
        have hdi := (unlink_eq_error he).resolve_left hes.2
        exact ⟨fun hno => absurd rfl (hno e _), fun hnt => absurd (.inr hdi) hnt⟩
      | done h tr ht =>
        obtain ⟨⟨b, hb⟩, -⟩ := unlink_eq_ok ht
        have hnd := file_eq_some_iff.mp hb
        simp only [ne_eq, Prod.mk.injEq, reduceCtorEq, false_and, not_false_eq_true, implies_true,
          true_iff, not_or, not_not]
        exact ⟨h, fun hdi => by cases hnd.symm.trans hdi⟩
    · have hnt : ¬ (d.fates.head.failure = none ∧ d.tree.node s ≠ none ∧
          (d.tick.fates.head.failure ≠ none ∨ d.tree.node s = some .dir)) :=
        fun h => hes ⟨h.1, h.2.1⟩
      simp [hes, hnt]

/-- Exactly a copy that tears and a staging file that cannot be removed make commit and discard return an I/O error
without keeping everything for another try. -/
theorem io_error_retains_pending_iff (ws : WriteSerialize) (backing : FilePath) (d : Disk) :
    (RetainsOnError WriteSerialize.commitPending ws backing d ↔ ¬ CopyTears ws backing d) ∧
      (RetainsOnError WriteSerialize.discardPending ws backing d ↔ ¬ RemovalFails ws backing d) :=
  ⟨retains_commitPending_iff, retains_discardPending_iff⟩

def stagedDisk (failing : Nat) : Disk :=
  let files : DiskM Unit := do
    writeStaging [['s'], ['x']] [1, 2]
    createFile [['f']]
    writeAll [['f']] 0 [7]
  let d := files { tree := .empty, device := fun p => if p = [['f']] then 1 else 0,
                   fates := fun _ => { now := 0, failure := none } }
  { d.2 with fates := fun i => { now := 0, failure := if i = failing then some 1 else none } }

/-- `remove_file` fails in the discard, and `copy` in the commit when the backing file is open. -/
theorem one_failing_call_loses_pending_or_backing :
    (∃ ws backing d, (∀ n, (d.fates.get n).failure ≠ none ↔ n = 1) ∧
      ¬ RetainsOnError WriteSerialize.discardPending ws backing d) ∧
    (∃ ws backing d, (∀ n, (d.fates.get n).failure ≠ none ↔ n = 3) ∧
      ¬ RetainsOnError WriteSerialize.commitPending ws backing d) := by
  have hf : ∀ k n, ((stagedDisk k).fates.get n).failure ≠ none ↔ n = k := by
    intro k n
    have hft : ((stagedDisk k).fates.get n).failure = if n = k then some 1 else none := rfl
    simp [hft]
  let ws : WriteSerialize :=
    { stagingRoot := [['s']], pending := (∅ : AList _).insert [['f']] [['s'], ['x']] }
  refine ⟨⟨ws, [['f']], stagedDisk 1, hf 1, ?_⟩, ⟨ws, [['f']], stagedDisk 3, hf 3, ?_⟩⟩
  · intro hr
    refine retains_discardPending_iff.mp hr ⟨[['s'], ['x']], by decide, rfl, ?_, ?_⟩
    · intro hc
      cases hc
    · exact .inl (by decide)
  · intro hr
    have hroot : ∀ p, p <+: ([] : FilePath) → (stagedDisk 3).tree.file p = none := by
      intro p hp
      rw [prefix_nil.mp hp]
      rfl
    have hold : (stagedDisk 3).tree.file [['f']] = some ⟨[7], 0, ∅⟩ := rfl
    refine retains_commitPending_iff.mp hr ⟨[['s'], ['x']], ⟨[1, 2], 0, ∅⟩, 0, by decide, rfl,
      rfl, rfl, rfl, rfl, hroot, ?_, by decide, ?_⟩
    · intro hc
      cases hc
    · rintro ⟨old, hfl, hb, -⟩
      obtain rfl := Option.some_inj.mp (hold.symm.trans hfl)
      cases hb

end ShareCli.Fuse
