import ShareCli.Foundation.Machine
import ShareCli.Foundation.Path
import ShareCli.Foundation.TwoWayMap
import ShareCli.Foundation.Word

/-!
# Inode numbers (`crates/sharecli-fuse/src/inode_map.rs`)

The filesystem gives each path that the kernel asks for an inode number. Paths are relative to the backing
directory, which is the empty path. The two maps stay inverse as long as no path is renamed onto one that has
an inode, the root is left where it is, and the numbers last.
-/

namespace ShareCli.Fuse

open Foundation AList

def rootIno : UInt64 := 1

/-- Inodes and their paths, both ways. -/
structure InodeMap where
  nextIno : UInt64
  inoToRel : AList fun _ : UInt64 => FilePath
  relToIno : AList fun _ : FilePath => UInt64

def joinRel (parentRel : FilePath) (name : List Char) : FilePath :=
  if parentRel = [] then FilePath.components name else parentRel.joinText name

namespace InodeMap

def new : InodeMap :=
  { nextIno := rootIno + 1
    inoToRel := (∅ : AList fun _ : UInt64 => FilePath).insert rootIno []
    relToIno := (∅ : AList fun _ : FilePath => UInt64).insert [] rootIno }

variable (map : InodeMap)

def resolve (ino : UInt64) : Option FilePath := map.inoToRel.lookup ino

def allocOrGet (rel : FilePath) : UInt64 × InodeMap :=
  match map.relToIno.lookup rel with
  | some ino => (ino, map)
  | none =>
    (map.nextIno,
      { nextIno := Word.saturatingAdd map.nextIno 1
        inoToRel := map.inoToRel.insert map.nextIno rel
        relToIno := map.relToIno.insert rel map.nextIno })

def childRel (parent : UInt64) (name : List Char) : Option FilePath :=
  (map.resolve parent).map fun parentRel => joinRel parentRel name

def lookupOrAlloc (parent : UInt64) (name : List Char) :
    Option (UInt64 × FilePath) × InodeMap :=
  match map.childRel parent name with
  | none => (none, map)
  | some rel =>
    let (ino, map) := map.allocOrGet rel
    (some (ino, rel), map)

def removeRel (rel : FilePath) : InodeMap :=
  match map.relToIno.lookup rel with
  | none => map
  | some ino =>
    { map with inoToRel := map.inoToRel.erase ino, relToIno := map.relToIno.erase rel }

/-- The inode of `old` keeps its number under the path `new`. -/
def renameRel (old new : FilePath) : InodeMap :=
  match map.relToIno.lookup old with
  | none => map
  | some ino =>
    { map with
      inoToRel := map.inoToRel.insert ino new
      relToIno := (map.relToIno.erase old).insert new ino }

end InodeMap

inductive InodeCall where
  | allocOrGet (rel : FilePath)
  | lookupOrAlloc (parent : UInt64) (name : List Char)
  | removeRel (rel : FilePath)
  | renameRel (old new : FilePath)
deriving DecidableEq

namespace InodeMap

def call (map : InodeMap) : InodeCall → InodeMap
  | .allocOrGet rel => (map.allocOrGet rel).2
  | .lookupOrAlloc parent name => (map.lookupOrAlloc parent name).2
  | .removeRel rel => map.removeRel rel
  | .renameRel old new => map.renameRel old new

def asks (map : InodeMap) : InodeCall → Option FilePath
  | .allocOrGet rel => some rel
  | .lookupOrAlloc parent name => map.childRel parent name
  | .removeRel _ => none
  | .renameRel _ _ => none

def allocates (map : InodeMap) (c : InodeCall) : Option UInt64 :=
  match map.asks c with
  | none => none
  | some rel => if (map.relToIno.lookup rel).isSome then none else some map.nextIno

end InodeMap

structure InodeRun where
  map : InodeMap
  allocated : List UInt64

def inodeMachine : Machine InodeRun InodeCall where
  init := { map := .new, allocated := [rootIno] }
  step run c :=
    some { map := run.map.call c, allocated := (run.map.allocates c).toList ++ run.allocated }

open InodeRun InodeMap List Option

namespace InodeMap

/-- The calls after which the maps are still inverse, whatever was called before. -/
def Admits (map : InodeMap) (c : InodeCall) : Prop :=
  match c with
  | .allocOrGet _ | .lookupOrAlloc _ _ => map.nextIno.toNat < 2 ^ 64 - 1
  | .removeRel rel => rel ≠ []
  | .renameRel old new =>
    map.relToIno.lookup old = none ∨ old ≠ [] ∧ (map.relToIno.lookup new = none ∨ new = old)

instance (map : InodeMap) (c : InodeCall) : Decidable (map.Admits c) :=
  match c with
  | .allocOrGet _ | .lookupOrAlloc _ _ => inferInstanceAs (Decidable (_ < _))
  | .removeRel _ => inferInstanceAs (Decidable (_ ≠ _))
  | .renameRel _ _ => inferInstanceAs (Decidable (_ ∨ _ ∧ (_ ∨ _)))

def MutuallyInverse (map : InodeMap) : Prop := Inverse map.inoToRel map.relToIno

def RootBound (map : InodeMap) : Prop := map.resolve rootIno = some [] ∧ map.relToIno.lookup [] = some rootIno

end InodeMap

open InodeMap

structure InodeRun.Sound (run : InodeRun) : Prop where
  inverse : run.map.MutuallyInverse
  root : run.map.RootBound
  nodup : run.allocated.Nodup
  below : ∀ ino ∈ run.allocated, ino.toNat < run.map.nextIno.toNat
  known : ∀ ino rel, run.map.resolve ino = some rel → ino ∈ run.allocated

theorem asked_cases {map : InodeMap} {c : InodeCall} {rel : FilePath} (ha : map.asks c = some rel) :
    map.call c = (map.allocOrGet rel).2 := by
  cases c with
  | allocOrGet rel' =>
    obtain rfl : rel' = rel := some_inj.mp ha
    rfl
  | lookupOrAlloc dir n =>
    have hc : map.childRel dir n = some rel := ha
    simp only [call, InodeMap.lookupOrAlloc, hc]
  | removeRel rel' => cases ha
  | renameRel old new => cases ha

theorem call_of_asks_none {map : InodeMap} {dir : UInt64} {n : List Char}
    (ha : map.childRel dir n = none) : map.call (.lookupOrAlloc dir n) = map := by
  simp [call, InodeMap.lookupOrAlloc, ha]

namespace InodeRun.Sound

variable {run : InodeRun}

theorem init : Sound inodeMachine.init where
  inverse := by
    intro ino rel
    simp only [inodeMachine, new]
    rw [lookup_insert_eq_some_iff, lookup_insert_eq_some_iff]
    simp [and_comm]
  root := ⟨lookup_insert _, lookup_insert _⟩
  nodup := nodup_singleton _
  below := by
    intro ino hm
    obtain rfl : ino = rootIno := mem_singleton.mp hm
    decide
  known := by
    intro ino rel hr
    simp only [inodeMachine, new, resolve] at hr
    rw [lookup_insert_eq_some_iff] at hr
    rcases hr with ⟨rfl, _⟩ | ⟨_, hn⟩
    · exact mem_singleton.mpr rfl
    · simp at hn

variable {rel : FilePath}

theorem allocate (h : run.Sound) (hn : run.map.relToIno.lookup rel = none)
    (hr : run.map.nextIno.toNat < 2 ^ 64 - 1) :
    Sound
      { map := (run.map.allocOrGet rel).2, allocated := run.map.nextIno :: run.allocated } := by
  have hf : run.map.nextIno ∉ run.allocated := by
    intro hm
    exact absurd (h.below _ hm) (Nat.lt_irrefl _)
  have hu : run.map.inoToRel.lookup run.map.nextIno = none := by
    cases hl : run.map.inoToRel.lookup run.map.nextIno with
    | none => rfl
    | some rel' => exact absurd (h.known _ rel' hl) hf
  have hnext : (Word.saturatingAdd run.map.nextIno 1).toNat = run.map.nextIno.toNat + 1 := by
    rw [Word.toNat_saturatingAdd]
    show min (run.map.nextIno.toNat + 1) (2 ^ 64 - 1) = _
    omega
  have hroot : run.map.resolve rootIno = some [] := h.root.1
  have hrr : run.map.relToIno.lookup [] = some rootIno := h.root.2
  simp only [InodeMap.allocOrGet, hn]
  constructor
  · exact Inverse.insert h.inverse hu hn
  · have hi : rootIno ≠ run.map.nextIno := by
      intro heq
      exact hf (heq ▸ h.known _ _ hroot)
    have hrl : [] ≠ rel := by
      rintro rfl
      simp [hrr] at hn
    exact ⟨(lookup_insert_ne hi).trans hroot, (lookup_insert_ne hrl).trans hrr⟩
  · exact nodup_cons.mpr ⟨hf, h.nodup⟩
  · intro ino hm
    show ino.toNat < (Word.saturatingAdd run.map.nextIno 1).toNat
    rcases mem_cons.mp hm with rfl | hm
    · omega
    · have := h.below ino hm
      omega
  · intro ino rel' hrs
    rcases lookup_insert_eq_some_iff.mp hrs with ⟨rfl, _⟩ | ⟨_, hold⟩
    · exact mem_cons_self
    · exact mem_cons_of_mem _ (h.known ino rel' hold)

theorem asked (h : run.Sound) {c : InodeCall} (ha : run.map.asks c = some rel)
    (hr : run.map.nextIno.toNat < 2 ^ 64 - 1) :
    Sound
      { map := run.map.call c, allocated := (run.map.allocates c).toList ++ run.allocated } := by
  rw [asked_cases ha]
  cases hl : run.map.relToIno.lookup rel with
  | some ino =>
    have hn : run.map.allocates c = none := by simp [allocates, ha, hl]
    have hm : (run.map.allocOrGet rel).2 = run.map := by simp [InodeMap.allocOrGet, hl]
    rw [hn, hm]
    exact h
  | none =>
    have hy : run.map.allocates c = some run.map.nextIno := by simp [allocates, ha, hl]
    rw [hy]
    exact h.allocate hl hr

theorem remove (h : run.Sound) (hrl : rel ≠ []) :
    Sound { map := run.map.removeRel rel, allocated := run.allocated } := by
  unfold removeRel
  cases hl : run.map.relToIno.lookup rel with
  | none => exact h
  | some ino =>
    have hp : run.map.inoToRel.lookup ino = some rel := (h.inverse ino rel).mpr hl
    have hroot : run.map.resolve rootIno = some [] := h.root.1
    have hi : rootIno ≠ ino := by
      rintro rfl
      exact hrl (some_inj.mp (hp.symm.trans hroot))
    constructor
    · exact Inverse.erase h.inverse hp
    · exact ⟨(lookup_erase_ne hi).trans hroot,
        (lookup_erase_ne hrl.symm).trans h.root.2⟩
    · exact h.nodup
    · exact h.below
    · intro ino' rel' hr
      exact h.known ino' rel' (lookup_erase_eq_some_iff.mp hr).2

theorem rename (h : run.Sound) {old new : FilePath} (ha : run.map.Admits (.renameRel old new)) :
    Sound { map := run.map.renameRel old new, allocated := run.allocated } := by
  unfold renameRel
  cases hl : run.map.relToIno.lookup old with
  | none => exact h
  | some ino =>
    obtain ⟨hold, hnw⟩ : old ≠ [] ∧ (run.map.relToIno.lookup new = none ∨ new = old) := by
      rcases ha with hn | hm
      · simp [hl] at hn
      · exact hm
    have hp : run.map.inoToRel.lookup ino = some old := (h.inverse ino old).mpr hl
    have hroot : run.map.resolve rootIno = some [] := h.root.1
    have hrr : run.map.relToIno.lookup [] = some rootIno := h.root.2
    have hi : rootIno ≠ ino := by
      rintro rfl
      exact hold (some_inj.mp (hp.symm.trans hroot))
    have hrl : [] ≠ new := by
      rintro rfl
      rcases hnw with hn | heq
      · simp [hrr] at hn
      · exact hold heq.symm
    constructor
    · exact Inverse.move h.inverse hp hnw
    · refine ⟨(lookup_insert_ne hi).trans hroot, ?_⟩
      exact ((lookup_insert_ne hrl).trans (lookup_erase_ne hold.symm)).trans hrr
    · exact h.nodup
    · exact h.below
    · intro ino' rel' hr
      rcases lookup_insert_eq_some_iff.mp hr with ⟨rfl, _⟩ | ⟨_, hk⟩
      · exact h.known _ old hp
      · exact h.known ino' rel' hk

theorem step (h : run.Sound) {c : InodeCall} (ha : run.map.Admits c) : Sound
      { map := run.map.call c, allocated := (run.map.allocates c).toList ++ run.allocated } := by
  cases c with
  | allocOrGet rel => exact h.asked rfl ha
  | lookupOrAlloc dir n =>
    cases hc : run.map.childRel dir n with
    | none =>
      have hn : run.map.allocates (.lookupOrAlloc dir n) = none := by
        simp [allocates, asks, hc]
      rw [hn, call_of_asks_none hc]
      exact h
    | some rel => exact h.asked hc ha
  | removeRel rel => exact h.remove ha
  | renameRel old new => exact h.rename ha

end InodeRun.Sound

theorem reachableWhen_sound {run : InodeRun}
    (h : inodeMachine.ReachableWhen (fun run c => run.map.Admits c) run) : run.Sound := by
  refine Machine.invariantWhen .init ?_ h
  intro run c run' hs ha hstep
  cases hstep
  exact hs.step ha

/-- In every run whose calls are all admitted the two maps are inverse, and no number is handed out twice. -/
theorem inode_map_bijective_when_admitted (run : InodeRun)
    (h : inodeMachine.ReachableWhen (fun run c => run.map.Admits c) run) :
    run.map.MutuallyInverse ∧ run.map.RootBound ∧ run.allocated.Nodup := by
  have hs := reachableWhen_sound h
  exact ⟨hs.inverse, hs.root, hs.nodup⟩

theorem inode_map_bijective_when_admitted_rename :
    ∃ run, inodeMachine.ReachableWhen (fun run c => run.map.Admits c) run ∧ run.allocated = [2, 1] ∧
      run.map.MutuallyInverse ∧ run.map.RootBound ∧ run.allocated.Nodup :=
  Machine.exists_reachable_and [.lookupOrAlloc 1 ['a'], .renameRel [['a']] [['b']], .removeRel [['b']]]
    (by decide +kernel) fun run hr _ => inode_map_bijective_when_admitted run hr

/-- The inode of the second file still has the path, which is now the path of the first. -/
theorem rename_onto_known_path : ∃ run, inodeMachine.Reachable run ∧ run.map.resolve 3 = some [['b']] ∧
      run.map.relToIno.lookup [['b']] = some 2 ∧ ¬ run.map.MutuallyInverse := by
  obtain ⟨run, hrn, hr, hl⟩ : ∃ run, inodeMachine.Reachable run ∧
      run.map.resolve 3 = some [['b']] ∧ run.map.relToIno.lookup [['b']] = some 2 :=
    Machine.exists_reachable
      [.lookupOrAlloc 1 ['a'], .lookupOrAlloc 1 ['b'], .renameRel [['a']] [['b']]] (by decide +kernel)
  refine ⟨run, hrn, hr, hl, ?_⟩
  intro hi
  have hb := (hi 3 [['b']]).mp hr
  have heq : (2 : UInt64) = 3 := some_inj.mp (hl.symm.trans hb)
  exact absurd heq (by decide)

namespace InodeMap

def MovesTree (map map' : InodeMap) (old new : FilePath) : Prop :=
  ∀ ino rel, map.resolve ino = some rel →
    (old <+: rel → map'.resolve ino = some (new ++ rel.drop old.length)) ∧
      (¬ old <+: rel → ¬ new <+: rel → map'.resolve ino = some rel)

/-- The inode of `old` is the only one known at or below `old`, and it is not known elsewhere, but perhaps below
`new`. -/
def KnowsOnly (map : InodeMap) (old new : FilePath) : Prop :=
  (old = new ∨ ∀ ino rel, map.resolve ino = some rel → old <+: rel → map.relToIno.lookup old = some ino) ∧
  ∀ ino rel, map.relToIno.lookup old = some ino → map.resolve ino = some rel →
    rel = old ∨ new <+: rel ∧ ¬ old <+: rel

theorem resolve_renameRel (map : InodeMap) (old new : FilePath) (ino : UInt64) :
    (map.renameRel old new).resolve ino =
      if map.relToIno.lookup old = some ino then some new else map.resolve ino := by
  unfold renameRel resolve
  cases hl : map.relToIno.lookup old with
  | none => simp
  | some bound =>
    by_cases hi : ino = bound
    · subst hi
      simp
    · have hne : some bound ≠ some ino := fun h => hi (some_inj.mp h).symm
      simp [lookup_insert_ne hi, hne]

/-- A rename moves what is known of a directory exactly when the directory itself is all that is known of it. -/
theorem rename_rel_moves_tree_iff (map : InodeMap) (old new : FilePath) :
    map.MovesTree (map.renameRel old new) old new ↔ map.KnowsOnly old new := by
  constructor
  · intro hm
    refine ⟨?_, ?_⟩
    · by_cases heq : old = new
      · exact .inl heq
      refine .inr fun ino rel hr hu => ?_
      by_contra hb
      have hmv := (hm ino rel hr).1 hu
      rw [resolve_renameRel, if_neg hb, hr, some_inj] at hmv
      -- The inode has kept its path, which begins with `old` and, as moved, with `new`.
      obtain ⟨s, rfl⟩ := hu
      rw [drop_left] at hmv
      exact heq (append_cancel_right hmv)
    · intro ino rel hb hr
      have hrl := hm ino rel hr
      rw [resolve_renameRel, if_pos hb] at hrl
      by_cases hu : old <+: rel
      · have hmv := some_inj.mp (hrl.1 hu)
        obtain ⟨s, rfl⟩ := hu
        rw [drop_left] at hmv
        have hn : s = [] := self_eq_append_right.mp hmv
        exact .inl (by simp [hn])
      · by_cases hnw : new <+: rel
        · exact .inr ⟨hnw, hu⟩
        · have hk := some_inj.mp (hrl.2 hu hnw)
          exact absurd (hk ▸ prefix_refl new) hnw
  · rintro ⟨ho, hb⟩ ino rel hr
    rw [resolve_renameRel]
    by_cases hi : map.relToIno.lookup old = some ino
    · rw [if_pos hi]
      rcases hb ino rel hi hr with rfl | ⟨hnw, hu⟩
      · exact ⟨fun _ => by simp, fun hu => absurd (prefix_refl _) hu⟩
      · exact ⟨fun h => absurd h hu, fun _ h => absurd hnw h⟩
    · rw [if_neg hi]
      refine ⟨fun hu => ?_, fun _ _ => hr⟩
      rcases ho with rfl | ho
      · obtain ⟨s, rfl⟩ := hu
        simpa using hr
      · exact absurd (ho ino rel hr hu) hi

/-- A file in a directory that is renamed keeps the path it had. -/
theorem rename_rel_leaves_file_behind :
    ∃ map : InodeMap, (∃ run, inodeMachine.Reachable run ∧ run.map = map) ∧
      map.resolve 3 = some [['d'], ['f']] ∧ ¬ [['d']] <+: [['e']] ∧
      (map.renameRel [['d']] [['e']]).resolve 3 = some [['d'], ['f']] ∧
      ¬ map.MovesTree (map.renameRel [['d']] [['e']]) [['d']] [['e']] := by
  obtain ⟨run, hr, hb, ha⟩ : ∃ run, inodeMachine.Reachable run ∧ run.map.resolve 3 = some [['d'], ['f']] ∧
      (run.map.renameRel [['d']] [['e']]).resolve 3 = some [['d'], ['f']] :=
    Machine.exists_reachable [.lookupOrAlloc 1 ['d'], .lookupOrAlloc 2 ['f']] (by decide +kernel)
  refine ⟨run.map, ⟨run, hr, rfl⟩, hb, by decide, ha, ?_⟩
  intro hm
  have hmv := (hm 3 [['d'], ['f']] hb).1 (by decide)
  rw [ha] at hmv
  exact absurd hmv (by decide)

end InodeMap

end ShareCli.Fuse
