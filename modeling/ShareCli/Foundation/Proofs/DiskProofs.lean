import Mathlib.Data.Set.Basic
import ShareCli.Foundation.Disk
import ShareCli.Foundation.Proofs.FileTreeProofs

/-!
# What programs do to a disk

For each call there is one lemma that says what it can do, errors included. For programs it is often enough
to know the footprint (`Within`): which files may have other contents, and which paths may have come into being.
-/

namespace ShareCli.Foundation

open FileTree List Option

def FileTree.content (t : FileTree FileBody) (path : FilePath) : Option (List UInt8 × Nat) :=
  (t.file path).map fun body => (body.bytes, body.mtime)

/-- A file that is there afterwards was there with the same content, or is in `written` and has a time in
`stamps`; only paths in `appeared` have come into being. -/
structure Within (written appeared : Set FilePath) (stamps : Set Nat) (t t' : FileTree FileBody) : Prop where
  content : ∀ p c, t'.content p = some c → t.content p = some c ∨ p ∈ written ∧ c.2 ∈ stamps
  appear : ∀ p, t.node p = none → t'.node p ≠ none → p ∈ appeared
  dirs : ∀ p, t'.node p = some .dir → t.node p = some .dir ∨ p ∈ appeared

theorem FileTree.content_congr {t t' : FileTree FileBody} {p : FilePath} (h : t'.file p = t.file p) :
    t'.content p = t.content p := by
  simp [content, h]

namespace Within

variable {w adds : Set FilePath} {ts : Set Nat} {t t' t'' : FileTree FileBody}

theorem refl (t : FileTree FileBody) : Within w adds ts t t where
  content _ _ hc := .inl hc
  appear _ hn ht := absurd hn ht
  dirs _ hd := .inl hd

theorem trans (h : Within w adds ts t t') (h' : Within w adds ts t' t'') : Within w adds ts t t'' where
  content p c hc := (h'.content p c hc).elim (h.content p c) .inr
  appear p hn ht := by
    by_cases hm : t'.node p = none
    · exact h'.appear p hm ht
    · exact h.appear p hn hm
  dirs p hd := (h'.dirs p hd).elim (h.dirs p) .inr

variable {path : FilePath}

variable (w adds ts) (t : FileTree FileBody) (p : FilePath) in
/-- What may have become of a path. -/
inductive Kept : Option (Entry FileBody) → Prop where
  | same : Kept (t.node p)
  | gone : Kept none
  | dir (happeared : p ∈ adds) : Kept (some .dir)
  | file (body : FileBody) (happeared : t.node p = none → p ∈ adds)
      (hstamp : t.content p = some (body.bytes, body.mtime) ∨ p ∈ w ∧ body.mtime ∈ ts) :
      Kept (some (.file body))

theorem of_nodes (h : ∀ p, Kept w adds ts t p (t'.node p)) : Within w adds ts t t' where
  content p c hc := by
    have hp := h p
    generalize hn : t'.node p = entry at hp
    cases hp with
    | same => exact .inl ((content_congr (file_congr hn)).symm.trans hc)
    | gone | dir ha => simp [FileTree.content, file, hn] at hc
    | file b ha hs =>
      obtain rfl : (b.bytes, b.mtime) = c := by simpa [FileTree.content, file, hn] using hc
      exact hs
  appear p hno ht := by
    have hp := h p
    generalize t'.node p = entry at hp ht
    cases hp with
    | same => exact absurd hno ht
    | gone => exact absurd rfl ht
    | dir ha => exact ha
    | file b ha hs => exact ha hno
  dirs p hd := by
    have hp := h p
    generalize t'.node p = entry at hp hd
    cases hp with
    | same => exact .inl hd
    | gone => cases hd
    | dir ha => exact .inr ha
    | file b ha hs => cases hd

theorem of_write {b : FileBody} (ha : t.node path = none → path ∈ adds)
    (hs : t.content path = some (b.bytes, b.mtime) ∨ path ∈ w ∧ b.mtime ∈ ts)
    (hn : ∀ p, t'.node p = if p = path then some (.file b) else t.node p) :
    Within w adds ts t t' := by
  refine of_nodes fun p => ?_
  rw [hn]
  split_ifs with heq
  · subst heq
    exact .file b ha hs
  · exact .same

theorem of_removal (hn : ∀ p, t'.node p = if p = path then none else t.node p) : Within w adds ts t t' := by
  refine of_nodes fun p => ?_
  rw [hn]
  split
  · exact .gone
  · exact .same

theorem of_moved_file {old new : FilePath} {b : FileBody} (ha : new ∈ adds) (hw : new ∈ w) (hs : b.mtime ∈ ts)
    (hn : ∀ p, t'.node p =
      if p = new then some (.file b) else if p = old then none else t.node p) :
    Within w adds ts t t' := by
  refine of_nodes fun p => ?_
  rw [hn]
  split_ifs with heq
  · subst heq
    exact .file b (fun _ => ha) (.inr ⟨hw, hs⟩)
  · exact .gone
  · exact .same

theorem of_mkdir (ha : path ∈ adds) (hn : ∀ p, t'.node p = if p = path then some .dir else t.node p) :
    Within w adds ts t t' := by
  refine of_nodes fun p => ?_
  rw [hn]
  split_ifs with heq
  · exact .dir (heq ▸ ha)
  · exact .same

theorem of_mkdirs {ps : List FilePath} (ha : ∀ p ∈ ps, p ∈ adds) : Within w adds ts t (t.mkdirs ps).2 := by
  refine of_nodes fun p => ?_
  rcases mkdirs_node (t := t) ps p with h | ⟨-, hd, hm⟩
  · rw [h]
    exact .same
  · rw [hd]
    exact .dir (ha p hm)

end Within

namespace Disk

def nows (d : Disk) : Set Nat := {now | ∃ n, (d.fates.get n).now = now}

/-- No call will fail but for a reason in the tree. -/
def Regular (d : Disk) : Prop := ∀ n, (d.fates.get n).failure = none

/-- The same disk, later. -/
structure Precedes (d d' : Disk) : Prop where
  device : d'.device = d.device
  fates : ∃ n, d'.fates = d.fates.drop n

namespace Precedes

variable {d d' d'' : Disk}

theorem refl (d : Disk) : d.Precedes d := ⟨rfl, 0, rfl⟩

theorem trans (h : d.Precedes d') (h' : d'.Precedes d'') : d.Precedes d'' := by
  obtain ⟨n, hn⟩ := h.fates
  obtain ⟨m, hm⟩ := h'.fates
  refine ⟨h'.device.trans h.device, n + m, ?_⟩
  rw [hm, hn]
  funext i
  show d.fates (i + m + n) = d.fates (i + (n + m))
  congr 1
  omega

theorem tick (d : Disk) (r : FileTree FileBody) : d.Precedes { d.tick with tree := r } := ⟨rfl, 1, rfl⟩

theorem nows_subset (h : d.Precedes d') : d'.nows ⊆ d.nows := by
  obtain ⟨n, hn⟩ := h.fates
  rintro now ⟨i, hi⟩
  exact ⟨i + n, by rw [← hi, hn]; rfl⟩

theorem regular (h : d.Precedes d') (hd : d.Regular) : d'.Regular := by
  obtain ⟨n, hn⟩ := h.fates
  intro i
  rw [hn]
  exact hd (i + n)

end Precedes

theorem now_mem_nows (d : Disk) : d.now ∈ d.nows := ⟨0, rfl⟩

theorem Regular.head {d : Disk} (h : d.Regular) : d.fates.head.failure = none := h 0

end Disk

namespace DiskM

variable {α γ : Type} {d : Disk} {x : DiskM α} {f : α → DiskM γ} {d' : Disk}

theorem bind_of_ok {a : α} (h : x d = (.ok a, d')) : (x >>= f) d = f a d' := by
  show DiskM.bind x f d = _
  simp [DiskM.bind, h]

theorem bind_of_error {e : Errno} (h : x d = (.error e, d')) : (x >>= f) d = (.error e, d') := by
  show DiskM.bind x f d = _
  simp [DiskM.bind, h]

theorem bind_eq_ok {c : γ} (h : (x >>= f) d = (.ok c, d')) :
    ∃ a mid, x d = (.ok a, mid) ∧ f a mid = (.ok c, d') := by
  rcases hx : x d with ⟨e | a, mid⟩
  · rw [bind_of_error hx] at h
    cases h
  · rw [bind_of_ok hx] at h
    exact ⟨a, mid, rfl, h⟩

/-- How a query ends. -/
inductive Asked (q : Nat → FileTree FileBody → Except Errno α) (d : Disk) :
    Except Errno α × Disk → Prop where
  | failed (h : d.fates.head.failure ≠ none) : Asked q d (.error .eio, d.tick)
  | answered (h : d.fates.head.failure = none) : Asked q d (q d.now d.tree, d.tick)

theorem ask_spec (q : Nat → FileTree FileBody → Except Errno α) (d : Disk) : Asked q d (ask q d) := by
  unfold ask call
  cases hf : d.fates.head.failure with
  | some n => exact .failed (by simp [hf])
  | none =>
    have ha : Asked q d (q d.now d.tree, d.tick) := .answered hf
    cases hq : q d.now d.tree with
    | error e => simpa [hq, Except.map] using ha
    | ok a =>
      rw [hq] at ha
      simp only [hq, Except.map]
      exact ha

/-- How a change ends. -/
inductive Changed (effect : Nat → FileTree FileBody → Except Errno (FileTree FileBody)) (d : Disk) :
    Except Errno Unit × Disk → Prop where
  | failed (h : d.fates.head.failure ≠ none) : Changed effect d (.error .eio, d.tick)
  | refused (h : d.fates.head.failure = none) (e : Errno) (he : effect d.now d.tree = .error e) :
      Changed effect d (.error e, d.tick)
  | done (h : d.fates.head.failure = none) (tree : FileTree FileBody)
      (htree : effect d.now d.tree = .ok tree) : Changed effect d (.ok (), { d.tick with tree })

theorem change_spec (f : Nat → FileTree FileBody → Except Errno (FileTree FileBody)) (d : Disk) :
    Changed f d (change f d) := by
  unfold change call
  cases hf : d.fates.head.failure with
  | some n => exact .failed (by simp [hf])
  | none =>
    cases he : f d.now d.tree with
    | error e => simpa [he, Except.map] using Changed.refused hf e he
    | ok r => simpa [he, Except.map] using Changed.done hf r he

theorem change_eq_ok {f : Nat → FileTree FileBody → Except Errno (FileTree FileBody)} {u : Unit}
    (h : change f d = (.ok u, d')) : f d.now d.tree = .ok d'.tree := by
  have hs := change_spec f d
  rw [h] at hs
  cases hs with
  | done _ r ht => exact ht

theorem writeAll_eq_ok {path : FilePath} {off : Nat} {data : List UInt8} {u : Unit}
    (h : writeAll path off data d = (.ok u, d')) :
    d.tree.modify path (fun b => b.writeAt off data d.now) = .ok d'.tree := by
  unfold writeAll changePartly at h
  cases hf : d.fates.head.failure with
  | some n => simp [hf] at h
  | none =>
    cases hm : d.tree.modify path fun b => b.writeAt off data d.now with
    | error e => simp [hf, hm, orUnchanged] at h
    | ok r =>
      simp only [hf, map_none, getD_none, hm, orUnchanged, Prod.mk.injEq] at h
      rw [← h.2]

theorem metadata_spec (path : FilePath) (d : Disk) : metadata path d =
      (match d.fates.head.failure, d.tree.node path with
        | some _, _ => .error .eio
        | none, none => .error (d.tree.absence path)
        | none, some .dir => .ok { isFile := false, len := 0, mtime := d.now }
        | none, some (.file b) =>
          .ok { isFile := true, len := b.bytes.length, mtime := b.mtime }, d.tick) := by
  unfold metadata ask call stat
  dsimp only
  cases d.fates.head.failure with
  | some n => rfl
  | none => rcases d.tree.node path with _ | _ | body <;> rfl

theorem pathExists_spec (path : FilePath) (d : Disk) : pathExists path d =
      (decide (d.fates.head.failure = none ∧ d.tree.node path ≠ none), d.tick) := by
  unfold pathExists
  rw [metadata_spec]
  cases d.fates.head.failure with
  | some n => rfl
  | none => rcases d.tree.node path with _ | _ | body <;> rfl

/-- A failed `createDirAll` has made some directories. -/
inductive DirsMade (path : FilePath) (d : Disk) : Except Errno Unit × Disk → Prop where
  | stopped (e : Errno) (paths : List FilePath) (hpaths : ∀ p ∈ paths, p <+: path) :
      DirsMade path d (.error e, { d.tick with tree := (d.tree.mkdirs paths).2 })
  | done (h : d.fates.head.failure = none) (hfiles : ∀ p, p <+: path → d.tree.file p = none) :
      DirsMade path d (.ok (), { d.tick with tree := (d.tree.mkdirs path.inits).2 })

theorem createDirAll_spec (path : FilePath) (d : Disk) : DirsMade path d (createDirAll path d) := by
  unfold createDirAll changePartly
  cases hf : d.fates.head.failure with
  | some n =>
    exact .stopped .eio (path.inits.take n) fun p hp => (mem_inits _ _).mp (mem_of_mem_take hp)
  | none =>
    simp only [map_none, getD_none]
    cases hd : (d.tree.mkdirs path.inits).1 with
    | some e => exact .stopped e path.inits fun p hp => (mem_inits _ _).mp hp
    | none => exact .done hf ((mkdirs_inits_eq_none_iff path).mp hd)

theorem createDirAll_tree (path : FilePath) (d : Disk) : ∃ ps, (∀ p ∈ ps, p <+: path) ∧
      (createDirAll path d).2.tree = (d.tree.mkdirs ps).2 := by
  have hs := createDirAll_spec path d
  generalize createDirAll path d = outcome at hs
  cases hs with
  | stopped e ps hpt => exact ⟨ps, hpt, rfl⟩
  | done h hf => exact ⟨path.inits, fun p hp => (mem_inits _ _).mp hp, rfl⟩

theorem createDirAll_of_no_files {path : FilePath} (h : d.fates.head.failure = none)
    (hf : ∀ p, p <+: path → d.tree.file p = none) :
    createDirAll path d = (.ok (), { d.tick with tree := (d.tree.mkdirs path.inits).2 }) := by
  simp [createDirAll, changePartly, h, (mkdirs_inits_eq_none_iff path).mpr hf]

/-- How a rename ends. -/
inductive Renamed (old new : FilePath) (d : Disk) : Except Errno Unit × Disk → Prop where
  | refused (e : Errno) (he : e ≠ .exdev) : Renamed old new d (.error e, d.tick)
  | crossDevice (h : d.fates.head.failure = none) (hdevice : d.device old ≠ d.device new) :
      Renamed old new d (.error .exdev, d.tick)
  | done (tree : FileTree FileBody) (htree : d.tree.rename old new = .ok tree) :
      Renamed old new d (.ok (), { d.tick with tree })

theorem rename_spec (old new : FilePath) (d : Disk) : Renamed old new d (rename old new d) := by
  have hs := change_spec
    (fun _ r => if d.device old = d.device new then r.rename old new else .error .exdev) d
  unfold rename
  generalize change _ d = outcome at hs
  cases hs with
  | failed h => exact .refused .eio (by decide)
  | refused h e he =>
    split at he
    · exact .refused e (rename_ne_exdev he)
    · rename_i hd
      cases he
      exact .crossDevice h hd
  | done h r ht =>
    split at ht
    · exact .done r ht
    · cases ht

theorem rename_of_cross_device {old new : FilePath} (h : d.fates.head.failure = none)
    (hd : d.device old ≠ d.device new) : rename old new d = (.error .exdev, d.tick) := by
  simp [rename, change, call, h, hd, Except.map]

/-- A torn copy has a part of the bytes. -/
inductive Copied (source target : FilePath) (d : Disk) : Except Errno Unit × Disk → Prop where
  | untouched (e : Errno) : Copied source target d (.error e, d.tick)
  | torn (n : Nat) (body : FileBody) (tree : FileTree FileBody)
      (h : d.fates.head.failure = some (n + 1)) (hbody : d.tree.file source = some body)
      (htree : d.tree.writeFile target (fun old => .replaced old (body.bytes.take n) d.now) = .ok tree) :
      Copied source target d (.error .eio, { d.tick with tree })
  | done (body : FileBody) (tree : FileTree FileBody) (hbody : d.tree.file source = some body)
      (htree : d.tree.writeFile target (fun old => .replaced old body.bytes d.now) = .ok tree) :
      Copied source target d (.ok (), { d.tick with tree })

theorem copy_spec (src t : FilePath) (d : Disk) : Copied src t d (copy src t d) := by
  unfold copy changePartly
  dsimp only
  cases hr : d.tree.readFile src with
  | error e =>
    cases d.fates.head.failure <;> exact .untouched _
  | ok b =>
    have hb := readFile_eq_ok.mp hr
    rcases hf : d.fates.head.failure with _ | _ | n
    · cases hw : d.tree.writeFile t fun old => .replaced old b.bytes d.now <;>
        simp only [hw, orUnchanged]
      · exact .untouched _
      · exact .done b _ hb hw
    · exact .untouched .eio
    · cases hw : d.tree.writeFile t fun old => .replaced old (b.bytes.take n) d.now <;>
        simp only [hw, orUnchanged]
      · exact .untouched _
      · exact .torn n b _ hf hb hw

theorem copy_of_torn (src t : FilePath) {n : Nat} {b : FileBody}
    {r : FileTree FileBody} (h : d.fates.head.failure = some (n + 1))
    (hb : d.tree.file src = some b)
    (ht : d.tree.writeFile t (fun old => .replaced old (b.bytes.take n) d.now) = .ok r) :
    copy src t d = (.error .eio, { d.tick with tree := r }) := by
  simp [copy, changePartly, h, readFile_eq_ok.mpr hb, ht, orUnchanged]

/-- A program only uses up fates. -/
def Advances (prog : DiskM α) : Prop := ∀ d : Disk, d.Precedes (prog d).2

namespace Advances

theorem pure (a : α) : Advances (pure a : DiskM α) := fun d => .refl d

theorem throw (e : Errno) : Advances (throw e : DiskM α) := fun d => .refl d

theorem bind {x : DiskM α} {f : α → DiskM γ} (hx : Advances x) (hf : ∀ a, Advances (f a)) :
    Advances (x >>= f) := by
  intro d
  have hp := hx d
  rcases hr : x d with ⟨e | a, d'⟩ <;> rw [hr] at hp
  · rw [bind_of_error hr]
    exact hp
  · rw [bind_of_ok hr]
    exact hp.trans (hf a d')

theorem attempt {x : DiskM α} (hx : Advances x) : Advances x.attempt := hx

theorem nows_subset {x : DiskM α} (hx : Advances x) {a : α} {d d' : Disk} (h : x d = (.ok a, d')) :
    d'.nows ⊆ d.nows := by
  have hp := hx d
  rw [h] at hp
  exact hp.nows_subset

theorem ask (q : Nat → FileTree FileBody → Except Errno α) : Advances (ask q) := by
  intro d
  have hs := ask_spec q d
  generalize DiskM.ask q d = outcome at hs
  cases hs <;> exact .tick d d.tree

theorem change (f : Nat → FileTree FileBody → Except Errno (FileTree FileBody)) : Advances (change f) := by
  intro d
  have hs := change_spec f d
  generalize DiskM.change f d = outcome at hs
  cases hs <;> exact .tick d _

theorem changePartly (f : Option Nat → Nat → FileTree FileBody → Option Errno × FileTree FileBody) :
    Advances (changePartly f) := fun d => .tick d _

theorem rename (old new : FilePath) : Advances (rename old new) := fun d => change _ d

end Advances

/-- All that a program may do, whatever fails. -/
structure Footprint (w adds : Set FilePath) (ts : Set Nat) (prog : DiskM α) : Prop where
  advances : Advances prog
  within : ∀ d : Disk, d.nows ⊆ ts → Within w adds ts d.tree (prog d).2.tree

namespace Footprint

variable {w adds : Set FilePath} {ts : Set Nat}

theorem pure (a : α) : Footprint w adds ts (pure a : DiskM α) := ⟨.pure a, fun d _ => .refl d.tree⟩

theorem throw (e : Errno) : Footprint w adds ts (throw e : DiskM α) := ⟨.throw e, fun d _ => .refl d.tree⟩

theorem bind {x : DiskM α} {f : α → DiskM γ} (hx : Footprint w adds ts x)
    (hf : ∀ a, Footprint w adds ts (f a)) :
    Footprint w adds ts (x >>= f) := by
  refine ⟨hx.advances.bind fun a => (hf a).advances, fun d hd => ?_⟩
  have hp := hx.advances d
  have hw := hx.within d hd
  rcases hr : x d with ⟨e | a, d'⟩ <;> rw [hr] at hp hw
  · rw [bind_of_error hr]
    exact hw
  · rw [bind_of_ok hr]
    exact hw.trans ((hf a).within d' (hp.nows_subset.trans hd))

theorem clock : Footprint w adds ts clock := ⟨fun d => .tick d d.tree, fun d _ => .refl d.tree⟩

theorem ask (q : Nat → FileTree FileBody → Except Errno α) : Footprint w adds ts (ask q) := by
  refine ⟨.ask q, fun d _ => ?_⟩
  have hs := ask_spec q d
  generalize DiskM.ask q d = outcome at hs
  cases hs <;> exact .refl d.tree

theorem change {f : Nat → FileTree FileBody → Except Errno (FileTree FileBody)}
    (he : ∀ now t t', now ∈ ts → f now t = .ok t' → Within w adds ts t t') :
    Footprint w adds ts (change f) := by
  refine ⟨.change f, fun d hd => ?_⟩
  have hs := change_spec f d
  generalize DiskM.change f d = outcome at hs
  cases hs with
  | failed | refused => exact .refl d.tree
  | done h r ht => exact he _ _ _ (hd d.now_mem_nows) ht

theorem changePartly {f : Option Nat → Nat → FileTree FileBody → Option Errno × FileTree FileBody}
    (he : ∀ failure now t, now ∈ ts → Within w adds ts t (f failure now t).2) :
    Footprint w adds ts (changePartly f) :=
  ⟨.changePartly f, fun d hd => he _ _ _ (hd d.now_mem_nows)⟩

variable {path : FilePath}

theorem metadata : Footprint w adds ts (metadata path) := ask _

theorem openWrite : Footprint w adds ts (openWrite path) := ask _

theorem touch : Footprint w adds ts touch := ask _

theorem setPermissions : Footprint w adds ts (setPermissions path) := ask _

theorem readDir : Footprint w adds ts (readDir path) := ask _

variable {t t' : FileTree FileBody}

theorem orUnchanged {r : Except Errno (FileTree FileBody)} (hok : ∀ t', r = .ok t' → Within w adds ts t t') :
    Within w adds ts t (orUnchanged t r).2 := by
  cases r with
  | error e => exact .refl t
  | ok t' => exact hok t' rfl

theorem of_modify {t t' : FileTree FileBody} {make : FileBody → FileBody}
    (hs : ∀ b, ((make b).bytes, (make b).mtime) = (b.bytes, b.mtime) ∨ path ∈ w ∧ (make b).mtime ∈ ts)
    (hm : t.modify path make = .ok t') : Within w adds ts t t' := by
  obtain ⟨b, hb, hn⟩ := modify_eq_ok hm
  refine Within.of_write ?_ ?_ hn
  · intro hno
    simp [file, hno] at hb
  · refine (hs b).imp (fun hsm => ?_) id
    simp only [FileTree.content, hb, map_some]
    rw [hsm]

theorem writeAll (hw : path ∈ w) (off : Nat) (data : List UInt8) : Footprint w adds ts (writeAll path off data) := by
  refine changePartly fun failure now t hn => orUnchanged fun t' => of_modify ?_
  intro b
  unfold FileBody.writeAt
  split_ifs
  · exact .inl rfl
  · exact .inr ⟨hw, hn⟩

theorem setLen (hw : path ∈ w) (size : Nat) : Footprint w adds ts (setLen path size) :=
  change fun _ _ _ hn => of_modify fun _ => .inr ⟨hw, hn⟩

theorem setAttr (n : String) (v : List UInt8) : Footprint w adds ts (setAttr path n v) := by
  refine change fun _ t t' _ hs => ?_
  split at hs
  · cases hs
    exact .refl t
  · refine of_modify ?_ hs
    exact fun _ => .inl rfl

theorem of_writeFile (hw : path ∈ w) (ha : path ∈ adds)
    {make : Option FileBody → FileBody} (hs : ∀ old, (make old).mtime ∈ ts)
    (hwr : t.writeFile path make = .ok t') :
    Within w adds ts t t' :=
  Within.of_write (fun _ => ha) (.inr ⟨hw, hs _⟩) (writeFile_eq_ok hwr).2.2

theorem createFile (hw : path ∈ w) (ha : path ∈ adds) : Footprint w adds ts (createFile path) :=
  change fun _ _ _ hn => of_writeFile hw ha fun _ => hn

theorem createNew (hw : path ∈ w) (ha : path ∈ adds) : Footprint w adds ts (createNew path) :=
  change fun _ _ _ hn hc =>
    Within.of_write (fun _ => ha) (.inr ⟨hw, hn⟩) (createNew_eq_ok hc).2

theorem createDir (ha : path ∈ adds) : Footprint w adds ts (createDir path) :=
  change fun _ _ _ _ hm => Within.of_mkdir ha (mkdir_eq_ok hm).2

theorem createDirAll (ha : ∀ p, p <+: path → p ∈ adds) : Footprint w adds ts (createDirAll path) := by
  refine changePartly fun failure now t _ => Within.of_mkdirs fun p hp => ha p ?_
  cases failure with
  | none => exact (mem_inits _ _).mp hp
  | some n => exact (mem_inits _ _).mp (mem_of_mem_take hp)

theorem removeFile : Footprint w adds ts (removeFile path) :=
  change fun _ _ _ _ hu => Within.of_removal (unlink_eq_ok hu).2

theorem removeDir : Footprint w adds ts (removeDir path) :=
  change fun _ _ _ _ hr => Within.of_removal (rmdir_eq_ok hr).2

end Footprint

/-- Without failures the program leads from `P` to `Q`. -/
def Succeeds (P : FileTree FileBody → Prop) (prog : DiskM α) (Q : FileTree FileBody → Prop) : Prop :=
  ∀ d : Disk, d.Regular → P d.tree → ∃ a d', prog d = (.ok a, d') ∧ d'.Regular ∧ Q d'.tree

namespace Succeeds

variable {P Q R : FileTree FileBody → Prop} {path : FilePath}

theorem pure (a : α) : Succeeds P (pure a : DiskM α) P := fun d hd hP => ⟨a, d, rfl, hd, hP⟩

variable {f : α → DiskM γ}

theorem bind {x : DiskM α} (hx : Succeeds P x Q) (hf : ∀ a, Succeeds Q (f a) R) : Succeeds P (x >>= f) R := by
  intro d hd hP
  obtain ⟨a, mid, hr, hm, hQ⟩ := hx d hd hP
  obtain ⟨c, d', hr', hd', hR⟩ := hf a mid hm hQ
  exact ⟨c, d', (bind_of_ok hr).trans hr', hd', hR⟩

theorem weaken {prog : DiskM α} (h : Succeeds P prog Q) {P' Q' : FileTree FileBody → Prop}
    (hP : ∀ t, P' t → P t) (hQ : ∀ t, Q t → Q' t) : Succeeds P' prog Q' := by
  intro d hd hP'
  obtain ⟨a, d', hr, hd', hQ'⟩ := h d hd (hP _ hP')
  exact ⟨a, d', hr, hd', hQ _ hQ'⟩

variable {q : Nat → FileTree FileBody → Except Errno α}

theorem after_ask (hq : ∀ now t a, q now t = .ok a → P t) (hf : ∀ a, Succeeds P (f a) Q) (hd : d.Regular) :
    (∃ e, (DiskM.ask q >>= f) d = (.error e, d.tick)) ∨
      ∃ c d', (DiskM.ask q >>= f) d = (.ok c, d') ∧ d'.Regular ∧ Q d'.tree := by
  have hs := ask_spec q d
  generalize hr : DiskM.ask q d = outcome at hs
  cases hs with
  | failed h => exact absurd hd.head h
  | answered h =>
    cases ha : q d.now d.tree with
    | error e =>
      rw [ha] at hr
      exact .inl ⟨e, bind_of_error hr⟩
    | ok a =>
      rw [ha] at hr
      have ht := (Disk.Precedes.tick d d.tree).regular hd
      obtain ⟨c, d', hrest, hd', hQ⟩ := hf a d.tick ht (hq _ _ _ ha)
      exact .inr ⟨c, d', (bind_of_ok hr).trans hrest, hd', hQ⟩

theorem clock : Succeeds P clock P :=
  fun d hd hP => ⟨d.now, d.tick, rfl, (Disk.Precedes.tick d d.tree).regular hd, hP⟩

theorem ask (hq : ∀ now t, P t → ∃ a, q now t = .ok a) : Succeeds P (ask q) P := by
  intro d hd hP
  have hs := ask_spec q d
  obtain ⟨a, ha⟩ := hq d.now d.tree hP
  generalize hr : DiskM.ask q d = outcome at hs
  cases hs with
  | failed h => exact absurd hd.head h
  | answered h =>
    rw [ha]
    exact ⟨a, d.tick, rfl, (Disk.Precedes.tick d d.tree).regular hd, hP⟩

theorem change {f : Nat → FileTree FileBody → Except Errno (FileTree FileBody)}
    (hef : ∀ now t, P t → ∃ t', f now t = .ok t' ∧ Q t') : Succeeds P (change f) Q := by
  intro d hd hP
  have hs := change_spec f d
  obtain ⟨t', ht', hQ⟩ := hef d.now d.tree hP
  generalize hr : DiskM.change f d = outcome at hs
  cases hs with
  | failed h => exact absurd hd.head h
  | refused h e he => cases he.symm.trans ht'
  | done h r ht =>
    obtain rfl := Except.ok.inj (ht.symm.trans ht')
    exact ⟨(), _, rfl, (Disk.Precedes.tick d r).regular hd, hQ⟩

theorem touch : Succeeds P touch P := ask fun _ _ _ => ⟨(), rfl⟩

theorem exists_stat {t : FileTree FileBody} (h : t.node path ≠ none) (f : Entry FileBody → α) :
    ∃ a, (t.stat path).map f = .ok a := by
  obtain ⟨e, he⟩ := ne_none_iff_exists'.mp h
  exact ⟨f e, by rw [FileTree.stat, he]; rfl⟩

theorem metadata : Succeeds (fun t => t.node path ≠ none) (metadata path) (fun t => t.node path ≠ none) :=
  ask fun _ _ ht => exists_stat ht _

theorem setPermissions :
    Succeeds (fun t => t.node path ≠ none) (setPermissions path) (fun t => t.node path ≠ none) :=
  ask fun _ _ ht => exists_stat ht _

theorem exists_modify {t : FileTree FileBody} (h : t.file path ≠ none) (make : FileBody → FileBody) :
    ∃ t', t.modify path make = .ok t' ∧ t'.file path ≠ none := by
  obtain ⟨b, hb⟩ := ne_none_iff_exists'.mp h
  have hn := file_eq_some_iff.mp hb
  have hnt : t.isDir path = false := by simp [isDir, hn]
  have hne : path ≠ [] := ne_nil_of_not_dir (t := t) (by simp [hn])
  have hp : t.isDir path.dropLast = true := by
    rw [isDir_iff]
    refine node_above (by simp [hn] : t.node path ≠ none) (List.dropLast_prefix path) ?_
    intro heq
    have hl := congrArg length heq
    have hps := length_pos_iff.mpr hne
    rw [length_dropLast] at hl
    omega
  obtain ⟨t', ht'⟩ := exists_writeFile_eq_ok (fun _ => make b) hnt hp
  have hm : t.modify path make = .ok t' := by
    simp only [FileTree.modify, readFile_eq_ok.mpr hb, ht']
  refine ⟨t', hm, ?_⟩
  simp [file, (writeFile_eq_ok ht').2.2]

theorem writeAll (off : Nat) (data : List UInt8) : Succeeds (fun t => t.file path ≠ none) (writeAll path off data)
      (fun t => t.file path ≠ none) := by
  intro d hd hf
  obtain ⟨t', ht', hf'⟩ := exists_modify hf fun b => b.writeAt off data d.now
  refine ⟨(), { d.tick with tree := t' }, ?_, (Disk.Precedes.tick d t').regular hd, hf'⟩
  simp [DiskM.writeAll, DiskM.changePartly, hd.head, ht', DiskM.orUnchanged]

theorem setLen (size : Nat) :
    Succeeds (fun t => t.file path ≠ none) (setLen path size) (fun t => t.file path ≠ none) :=
  change fun _ _ hf => exists_modify hf _

theorem setAttr (n : String) (v : List UInt8) :
    Succeeds (fun t => t.node path ≠ none) (setAttr path n v) (fun t => t.node path ≠ none) := by
  refine change fun _ t ht => ?_
  by_cases hd : t.isDir path = true
  · exact ⟨t, if_pos hd, ht⟩
  · obtain ⟨t', ht', hf'⟩ := exists_modify (file_ne_none ht hd) fun b => b.setAttr n v
    refine ⟨t', (if_neg hd).trans ht', ?_⟩
    intro hn
    simp [file, hn] at hf'

end Succeeds

end DiskM

end ShareCli.Foundation
