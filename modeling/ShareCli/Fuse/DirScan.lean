import ShareCli.Foundation.Paging
import ShareCli.Fuse.Proofs.InterceptFsProofs

/-!
# Scans of a directory

A scan is a sequence of `readdir` calls, each with the offset of the last entry received, until a call yields
nothing. `readdir` lists the directory anew for each call and skips as many entries as the offset says. So a
deletion of an entry that has been returned moves those behind it over the position of the scan.
-/

namespace ShareCli.Fuse

open Foundation

def entryNames (listing : List FilePath) : List (List Char) :=
  ['.'] :: ['.', '.'] :: listing.map fun child => child.getLastD []

def FsState.namesIn (s : FsState) (ino : UInt64) : List (List Char) :=
  match s.fs.inodes.absPath s.fs.backing ino with
  | some path => entryNames (s.tree.children path)
  | none => entryNames []

/-- A mount and a listing of it in pages. -/
structure DirScan where
  state : FsState
  pager : Pager (List Char) := {}
  present : List (List (List Char)) := []

inductive ScanEvent where
  | other (l : FsStep)
  /-- `listing` is the order in which the disk yields the directory. -/
  | readdir (capacity : Nat) (listing : List FilePath) (fates : Stream' Fate)

/-- The listing has room for an entry, and it is one of the directory. -/
def DirScan.isAdmissible (s : DirScan) (ino : UInt64) (capacity : Nat) (listing : List FilePath) : Bool :=
  decide (1 ≤ capacity) && (FsOp.readdir ino s.pager.offset capacity listing).isAdmissible s.state &&
    listing.all fun child => FilePath.isPlain (child.getLastD [])

/-- A call that fails may be made again. -/
def DirScan.step (stagingName : FilePath → List Char) (ino : UInt64) (s : DirScan) (event : ScanEvent) :
    Option DirScan :=
  let present := s.present ++ [s.state.namesIn ino]
  if s.pager.finished then none
  else
    match event with
    | .other l =>
      if l.op.isAdmissible s.state then
        some { s with state := (l.op.perform stagingName (s.state.world l.fates)).state, present }
      else none
    | .readdir capacity listing fates =>
      if s.isAdmissible ino capacity listing then
        match readdir ino s.pager.offset capacity listing (s.state.world fates) with
        | (.error _, w) => some { s with state := w.state, present }
        | (.ok entries, w) =>
          some { state := w.state, present,
                 pager := s.pager.receive (entryNames listing) (entries.map DirEntry.name) }
      else none

def dirScan (stagingName : FilePath → List Char) (ino : UInt64) (start : FsState) :
    Machine DirScan ScanEvent where
  init := { state := start }
  step := DirScan.step stagingName ino

open List Option

def DirScan.Complete (s : DirScan) : Prop :=
  s.pager.finished = true → ∀ x, (∀ names ∈ s.present, x ∈ names) → s.pager.returned.count x = 1

/-- Of the entries that this listing and the one before it have, the same stand before the offset. -/
def Steady (s : DirScan) : ScanEvent → Prop
  | .other _ => True
  | .readdir _ listing _ => s.pager.Steady (entryNames listing)

instance (s : DirScan) : (ev : ScanEvent) → Decidable (Steady s ev)
  | .other _ => isTrue trivial
  | .readdir _ listing _ => inferInstanceAs (Decidable (s.pager.Steady (entryNames listing)))

section Calls

open FsM

variable {w w' : FsWorld}

theorem listEntries_names {rel : FilePath} {listing : List FilePath} {es : List DirEntry}
    (h : listEntries rel listing w = (.ok es, w')) :
    es.map DirEntry.name = listing.map fun ch => ch.getLastD [] := by
  induction listing generalizing w es w' with
  | nil =>
    obtain ⟨he, -⟩ := Prod.mk.inj h
    cases he
    rfl
  | cons ch listing ih =>
    obtain ⟨ino, w1, -, h⟩ := bind_eq_ok h
    obtain ⟨st, w2, -, h⟩ := bind_eq_ok h
    obtain ⟨rs, w3, hrest, h⟩ := bind_eq_ok h
    obtain ⟨he, -⟩ := Prod.mk.inj h
    cases he
    rw [map_cons, map_cons, ih hrest]

theorem readdir_eq_ok {ino : UInt64} {off cap : Nat} {listing : List FilePath} {es : List DirEntry}
    (h : readdir ino off cap listing w = (.ok es, w')) :
    (∃ p, w.fs.inodes.absPath w.fs.backing ino = some p) ∧
      es.map DirEntry.name = ((entryNames listing).drop off).take cap := by
  rw [readdir, bind_ask] at h
  cases hr : w.fs.inodes.resolve ino with
  | none =>
    rw [hr] at h
    cases h
  | some rel =>
    rw [hr] at h
    obtain ⟨dir, w1, -, h⟩ := bind_eq_ok h
    rw [bind_absRel] at h
    obtain ⟨_, w2, -, h⟩ := bind_eq_ok h
    obtain ⟨chs, w3, hc, h⟩ := bind_eq_ok h
    obtain ⟨he, -⟩ := Prod.mk.inj h
    cases he
    refine ⟨⟨absUnder w.fs.backing rel, by simp [InodeMap.absPath, hr]⟩, ?_⟩
    rw [map_take, map_drop, map_cons, map_cons, listEntries_names hc]
    rfl

end Calls

section Listings

variable {t : FileTree FileBody} {p : FilePath} {listing : List FilePath}

theorem nodup_childNames (hp : listing.Perm (t.children p)) : (listing.map fun ch => ch.getLastD []).Nodup := by
  have hn : listing.Nodup := hp.nodup_iff.mpr (nodup_dedup _)
  refine Nodup.map_on ?_ hn
  intro ch hc o ho hnm
  obtain ⟨hne, hpr, -⟩ := FileTree.mem_children.mp (hp.mem_iff.mp hc)
  obtain ⟨hne', hpr', -⟩ := FileTree.mem_children.mp (hp.mem_iff.mp ho)
  rw [← dropLast_append_getLast hne, ← dropLast_append_getLast hne', hpr, hpr']
  rw [getLastD_eq_getLast?, getLast?_eq_some_getLast hne, getLastD_eq_getLast?,
    getLast?_eq_some_getLast hne'] at hnm
  exact congrArg (p ++ [·]) hnm

theorem nodup_entryNames (hp : listing.Perm (t.children p))
    (hpl : listing.all (fun ch => FilePath.isPlain (ch.getLastD [])) = true) :
    (entryNames listing).Nodup := by
  have hd : ∀ n ∈ listing.map (fun ch => ch.getLastD []), n ≠ ['.'] ∧ n ≠ ['.', '.'] := by
    intro n hnm
    obtain ⟨ch, hc, rfl⟩ := mem_map.mp hnm
    have hpn := all_eq_true.mp hpl ch hc
    simp only [FilePath.isPlain, Bool.and_eq_true, bne_iff_ne] at hpn
    exact ⟨hpn.1.2, hpn.2⟩
  refine nodup_cons.mpr ⟨?_, nodup_cons.mpr ⟨?_, nodup_childNames hp⟩⟩
  · intro hm
    rcases mem_cons.mp hm with heq | hm
    · cases heq
    · exact (hd _ hm).1 rfl
  · intro hm
    exact (hd _ hm).2 rfl

theorem mem_entryNames_congr (hp : listing.Perm (t.children p)) (x : List Char) :
    x ∈ entryNames listing ↔ x ∈ entryNames (t.children p) := by
  unfold entryNames
  rw [mem_cons, mem_cons, mem_cons, mem_cons, (hp.map _).mem_iff]

end Listings

structure DirScan.Sound (s : DirScan) : Prop where
  pager : s.pager.Sound
  listed : ∀ list ∈ s.pager.lists, ∃ names ∈ s.present, ∀ x ∈ names, x ∈ list

section Steps

variable {stagingName : FilePath → List Char} {ino : UInt64} {s s' : DirScan} {ev : ScanEvent}

theorem DirScan.Sound.other (h : s.Sound) (st : FsState) (names : List (List Char)) :
    DirScan.Sound { s with state := st, present := s.present ++ [names] } :=
  ⟨h.pager, fun list hl => by
    obtain ⟨names, hn, ha⟩ := h.listed list hl
    exact ⟨names, mem_append_left _ hn, ha⟩⟩

theorem DirScan.Sound.step (h : s.Sound) (hs : Steady s ev)
    (hstep : s.step stagingName ino ev = some s') : s'.Sound := by
  unfold DirScan.step at hstep
  split at hstep
  · cases hstep
  · cases ev with
    | other l =>
      simp only [ite_none_right_eq_some, some.injEq] at hstep
      rw [← hstep.2]
      exact h.other _ _
    | readdir cap listing fates =>
      simp only [ite_none_right_eq_some] at hstep
      obtain ⟨ha, hstep⟩ := hstep
      simp only [DirScan.isAdmissible, Bool.and_eq_true, decide_eq_true_eq] at ha
      obtain ⟨⟨hc, hl⟩, hpl⟩ := ha
      cases hr : readdir ino s.pager.offset cap listing (s.state.world fates) with
      | mk r w =>
        rw [hr] at hstep
        cases r with
        | error e =>
          rw [← some_inj.mp hstep]
          exact h.other _ _
        | ok es =>
          obtain ⟨⟨p, hp⟩, he⟩ := readdir_eq_ok hr
          have hp' : s.state.fs.inodes.absPath s.state.fs.backing ino = some p := hp
          have hpr : listing.Perm (s.state.tree.children p) := by
            simpa [FsOp.isAdmissible, hp'] using hl
          rw [← some_inj.mp hstep, he]
          refine ⟨h.pager.receive (nodup_entryNames hpr hpl) hs hc, fun list hls => ?_⟩
          rcases mem_append.mp hls with hls | hls
          · obtain ⟨ns, hn, hal⟩ := h.listed list hls
            exact ⟨ns, mem_append_left _ hn, hal⟩
          · rw [mem_singleton.mp hls]
            refine ⟨s.state.namesIn ino, mem_append_right _ mem_cons_self, fun x hx => ?_⟩
            rw [FsState.namesIn, hp'] at hx
            exact (mem_entryNames_congr hpr x).mpr hx

end Steps

/-- A scan in which no entry moves over the offset returns each entry that is there all the time exactly once. -/
theorem steady_scan_complete (stagingName : FilePath → List Char) (ino : UInt64) (start : FsState) (s : DirScan)
    (h : (dirScan stagingName ino start).ReachableWhen Steady s) : s.Complete := by
  have hsn : s.Sound := by
    refine Machine.invariantWhen (M := dirScan stagingName ino start) ?_ ?_ h
    · exact ⟨Pager.sound_new, fun _ hl => absurd hl not_mem_nil⟩
    · intro s ev s' hs hst hstep
      exact hs.step hst hstep
  intro hf x hx
  refine hsn.pager.count_eq_one hf fun list hl => ?_
  obtain ⟨ns, hn, ha⟩ := hsn.listed list hl
  exact ha x (hx ns hn)

def threeFiles : FsState :=
  let (fs, d) := InterceptFs.withOptions [['d']]
    { sessionId := ['s'], cow := true, cowDir := some [['x']], agent := none, serialize := true } 0
    { tree := .empty, device := fun _ => 0, fates := .calm }
  [['a'], ['b'], ['c']].foldl
    (fun s name => ((FsOp.create rootIno name).perform (fun _ => []) (s.world .calm)).state)
    { fs, tree := d.tree, device := d.device }

def listed (capacity : Nat) (names : List (List Char)) : ScanEvent :=
  .readdir capacity (names.map fun name => [['d'], name]) .calm

theorem steady_scan_with_changes : ∃ s, (dirScan (fun _ => []) rootIno threeFiles).ReachableWhen Steady s ∧
    s.pager.returned = [['.'], ['.', '.'], ['a'], ['b'], ['e']] ∧ s.pager.finished = true ∧ s.Complete := by
  obtain ⟨s, hs, hr, hf⟩ : ∃ s, (dirScan (fun _ => []) rootIno threeFiles).ReachableWhen Steady s ∧
        s.pager.returned = [['.'], ['.', '.'], ['a'], ['b'], ['e']] ∧ s.pager.finished = true :=
    Machine.exists_reachable
      [listed 3 [['a'], ['b'], ['c']], .other ⟨.unlink rootIno ['c'], .calm⟩,
        .other ⟨.create rootIno ['e'], .calm⟩, listed 9 [['a'], ['b'], ['e']], listed 9 [['a'], ['b'], ['e']]]
      (by decide +kernel)
  exact ⟨s, hs, hr, hf, steady_scan_complete (fun _ => []) rootIno threeFiles s hs⟩

/-- The entries that two listings of the scan have in common are in the same order in both. -/
def DirScan.OrderKept (s : DirScan) : Prop :=
  s.pager.lists.Pairwise fun list list' => list.filter (list'.contains ·) = list'.filter (list.contains ·)

/-- After `a` has been returned and removed, `b` is passed over. -/
theorem removal_hides_next_entry : ∃ s, (dirScan (fun _ => []) rootIno threeFiles).Reachable s ∧
    s.OrderKept ∧ s.pager.finished = true ∧ (∀ names ∈ s.present, ['b'] ∈ names) ∧
    ['b'] ∉ s.pager.returned ∧ ¬ s.Complete := by
  obtain ⟨s, hs, hl, hf, ht, hm⟩ : ∃ s, (dirScan (fun _ => []) rootIno threeFiles).Reachable s ∧
        s.pager.lists = [entryNames [[['a']], [['b']], [['c']]], entryNames [[['b']], [['c']]],
          entryNames [[['b']], [['c']]]] ∧
        s.pager.finished = true ∧ (∀ names ∈ s.present, ['b'] ∈ names) ∧ ['b'] ∉ s.pager.returned :=
    Machine.exists_reachable
      [listed 3 [['a'], ['b'], ['c']], .other ⟨.unlink rootIno ['a'], .calm⟩, listed 9 [['b'], ['c']],
        listed 9 [['b'], ['c']]] (by decide +kernel)
  have ho : s.OrderKept := by
    rw [DirScan.OrderKept, hl]
    decide
  refine ⟨s, hs, ho, hf, ht, hm, fun hc => ?_⟩
  have hcn := hc hf ['b'] ht
  rw [count_eq_zero_of_not_mem hm] at hcn
  cases hcn

end ShareCli.Fuse
