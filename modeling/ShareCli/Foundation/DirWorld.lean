import Mathlib.Logic.Relation
import ShareCli.Foundation.Proofs.FileTreeProofs

/-!
# Directories that are made and removed by commands

`Change dir` lists the single things that happen to a tree when a command is given the directory `dir`: what is at
or below it is removed, or a directory is made on the way to it or in it. A command of another program is known
only by this (`DirCommand`): what it does within these changes and whether it succeeds is decided outside.
-/

namespace ShareCli.Foundation

/-- What a command has done to a directory. -/
inductive DirEvent where
  | created (dir : FilePath)
  /-- The directory and what is in it, or a part of it. -/
  | removed (dir : FilePath)
deriving DecidableEq

def DirEvent.dir : DirEvent → FilePath
  | .created dir => dir
  | .removed dir => dir

/-- A command could not be started, or has exited with a failure. -/
inductive CommandFailure where
  | spawn (error : String)
  | exit (status stderr : String)
deriving DecidableEq

/-- How the removal of a directory ends: a failed one leaves what is not `gone`. -/
inductive Removal where
  | done
  | failed (error : String) (gone : FilePath → Bool)

/-- The tree, and what has happened to its directories. -/
structure DirWorld where
  tree : FileTree Unit
  events : List DirEvent

namespace DirWorld

def pathExists (w : DirWorld) (path : FilePath) : Bool := !w.tree.isMissing path

/-- Makes those of the directories that are missing, one after the other. -/
def makeDirs (w : DirWorld) : List FilePath → Bool × DirWorld
  | [] => (true, w)
  | dir :: dirs =>
    if w.tree.isDir dir then w.makeDirs dirs
    else
      match w.tree.mkdir dir with
      | .error _ => (false, w)
      | .ok tree => makeDirs { tree, events := w.events ++ [.created dir] } dirs

def remove (w : DirWorld) (dir : FilePath) (gone : FilePath → Bool) : DirWorld :=
  { tree := w.tree.prune dir gone, events := w.events ++ [.removed dir] }

def removeDirAll (w : DirWorld) (dir : FilePath) (fate : Removal) : Except String Unit × DirWorld :=
  if w.tree.isDir dir then
    match fate with
    | .done => (.ok (), w.remove dir fun _ => true)
    | .failed error gone => (.error error, w.remove dir gone)
  else (.error (if w.pathExists dir then "Not a directory (os error 20)"
    else "No such file or directory (os error 2)"), w)

/-- One thing that happens to the tree when a command is given `dir`. -/
inductive Change (dir : FilePath) : DirWorld → DirWorld → Prop where
  | remove (w : DirWorld) (gone : FilePath → Bool) : Change dir w (w.remove dir gone)
  | make {w : DirWorld} {made : FilePath} {tree : FileTree Unit} (hmade : made <+: dir ∨ dir <+: made)
      (hmkdir : w.tree.mkdir made = .ok tree) :
      Change dir w { tree, events := w.events ++ [.created made] }

abbrev Changes (dir : FilePath) : DirWorld → DirWorld → Prop := Relation.ReflTransGen (Change dir)

end DirWorld

/-- A run of another program's command on a directory that it is given: all it does is `Changes` there. -/
structure DirCommand where
  run : FilePath → DirWorld → Except CommandFailure Unit × DirWorld
  changes : ∀ dir w, DirWorld.Changes dir w (run dir w).2

open FileTree FilePath List

variable {dir root p : FilePath} {w w' : DirWorld}

theorem FileTree.node_prune_of_not_le {β : Type} {t : FileTree β} {gone : FilePath → Bool}
    (h : ¬ dir <+: p) : (t.prune dir gone).node p = t.node p := by
  refine if_neg ?_
  rintro ⟨-, hg⟩
  obtain ⟨q, hq, hg⟩ := any_eq_true.mp hg
  simp only [Bool.and_eq_true, decide_eq_true_eq] at hg
  exact h (hg.1.trans ((mem_inits _ _).mp hq))

/-- The tree of these directories and those above them. -/
def FileTree.ofDirs (ds : List FilePath) : FileTree Unit where
  node p := if p = [] ∨ ds.any (fun dir => decide (p <+: dir)) then some .dir else none
  paths := [] :: ds.flatMap inits
  mem_paths := by
    intro p hp
    split_ifs at hp with hthere
    · rcases hthere with hnil | hdir
      · simp [hnil]
      · obtain ⟨dir, hdir, hprefix⟩ := any_eq_true.mp hdir
        have hinit : p ∈ dir.inits := (mem_inits _ _).mpr (of_decide_eq_true hprefix)
        exact mem_cons_of_mem _ (mem_flatMap.mpr ⟨dir, hdir, hinit⟩)
    · exact absurd rfl hp
  root := by simp
  parent := by
    intro p name hp
    split_ifs at hp with hthere
    · obtain ⟨dir, hdir, hprefix⟩ := any_eq_true.mp (hthere.resolve_left (by simp))
      refine if_pos (.inr (any_eq_true.mpr ⟨dir, hdir, decide_eq_true ?_⟩))
      exact (prefix_append p [name]).trans (of_decide_eq_true hprefix)
    · exact absurd rfl hp

theorem FileTree.isDir_ofDirs {ds : List FilePath} (h : dir ∈ ds) : (ofDirs ds).isDir dir = true := by
  refine isDir_iff.mpr (if_pos (.inr ?_))
  exact any_eq_true.mpr ⟨dir, h, decide_eq_true (prefix_refl dir)⟩

theorem FilePath.Below.not_le (h : Below dir p) : ¬ p <+: dir := by
  intro hle
  exact h.2 (hle.eq_of_length_le h.1.length_le)

namespace DirWorld

namespace Changes

theorem induct {motive : DirWorld → Prop} (h : Changes dir w w') (hw : motive w)
    (hc : ∀ w w', Change dir w w' → motive w → motive w') : motive w' := by
  induction h with
  | refl => exact hw
  | tail _ hl ih => exact hc _ _ hl ih

/-- A directory that is made on the way to `dir` was missing, so it is not at or above the root. -/
theorem below_of_make {made : FilePath} {tree : FileTree Unit} (hb : Below root dir)
    (hroot : w.tree.isDir root = true) (hm : made <+: dir ∨ dir <+: made)
    (hmk : w.tree.mkdir made = .ok tree) : Below root made := by
  have hms := (mkdir_eq_ok hmk).1
  have hn : ¬ made <+: root := by
    intro hp
    have ht : w.tree.node root ≠ none := node_ne_none_of_isDir hroot
    by_cases heq : made = root
    · rw [heq] at hms
      exact ht hms
    · have hd := node_above ht hp heq
      simp [hd] at hms
  have hle : root <+: made := by
    rcases hm with hm | hm
    · rcases prefix_or_prefix_of_prefix hm hb.1 with h | h
      · exact absurd h hn
      · exact h
    · exact hb.1.trans hm
  refine ⟨hle, ?_⟩
  rintro rfl
  exact hn (prefix_refl _)

/-- Changes at a directory below the root leave the root, and all their events are below it. -/
theorem events_below (hb : Below root dir) (h : Changes dir w w') (hroot : w.tree.isDir root = true)
    (hev : ∀ e ∈ w.events, Below root e.dir) : ∀ e ∈ w'.events, Below root e.dir := by
  have hbt : w'.tree.isDir root = true ∧ ∀ e ∈ w'.events, Below root e.dir := by
    refine h.induct (motive := fun v => v.tree.isDir root = true ∧ ∀ e ∈ v.events, Below root e.dir)
      ⟨hroot, hev⟩ ?_
    rintro v v' hc ⟨hv, hve⟩
    cases hc with
    | remove gone =>
      refine ⟨?_, fun e he => ?_⟩
      · rw [isDir_iff] at hv ⊢
        rw [remove, node_prune_of_not_le hb.not_le]
        exact hv
      · rcases mem_append.mp he with he | he
        · exact hve e he
        · obtain rfl := mem_singleton.mp he
          exact hb
    | make hm hmk =>
      refine ⟨?_, fun e he => ?_⟩
      · rw [isDir_iff] at hv ⊢
        rw [(mkdir_eq_ok hmk).2]
        split
        · rfl
        · exact hv
      · rcases mem_append.mp he with he | he
        · exact hve e he
        · obtain rfl := mem_singleton.mp he
          exact below_of_make hb hv hm hmk
  exact hbt.2

theorem node_of_apart (h : Changes dir w w') (ha : Apart dir p) : w'.tree.node p = w.tree.node p := by
  refine h.induct (motive := fun v => v.tree.node p = w.tree.node p) rfl ?_
  intro v v' hc hv
  cases hc with
  | remove gone =>
    rw [remove, node_prune_of_not_le ha.1]
    exact hv
  | make hm hmk =>
    rw [(mkdir_eq_ok hmk).2, if_neg]
    · exact hv
    · rintro rfl
      rcases hm with hm | hm
      · exact ha.2 hm
      · exact ha.1 hm

theorem eq_of_removed (h : Changes dir w w') (hn : ∀ d, .removed d ∉ w.events) {d : FilePath}
    (hd : .removed d ∈ w'.events) : d = dir := by
  refine h.induct (motive := fun v => ∀ d, .removed d ∈ v.events → d = dir)
    (fun d hd => absurd hd (hn d)) ?_ d hd
  intro v v' hc hv d hd
  cases hc with
  | remove gone =>
    rcases mem_append.mp hd with hd | hd
    · exact hv d hd
    · simpa using hd
  | make hm hmk =>
    rcases mem_append.mp hd with hd | hd
    · exact hv d hd
    · simp at hd

end Changes

theorem makeDirs_changes (w : DirWorld) (ds : List FilePath) (hm : ∀ d ∈ ds, d <+: dir ∨ dir <+: d) :
    Changes dir w (w.makeDirs ds).2 := by
  induction ds generalizing w with
  | nil => exact .refl
  | cons d ds ih =>
    have hrest : ∀ d ∈ ds, d <+: dir ∨ dir <+: d := fun d hd => hm d (mem_cons_of_mem _ hd)
    unfold makeDirs
    split
    · exact ih w hrest
    · split
      · exact .refl
      · rename_i tree hmk
        exact .head (.make (hm d mem_cons_self) hmk) (ih _ hrest)

theorem removeDirAll_changes (w : DirWorld) (fate : Removal) : Changes dir w (w.removeDirAll dir fate).2 := by
  unfold removeDirAll
  split
  · cases fate with
    | done => exact .single (.remove w _)
    | failed error gone => exact .single (.remove w gone)
  · exact .refl

end DirWorld

namespace DirCommand

open DirWorld

/-- Fails without having done anything. -/
def failing (error : CommandFailure) : DirCommand where
  run _ w := (.error error, w)
  changes _ _ := .refl

/-- Makes the directory with those above it. -/
def making : DirCommand where
  run dir w := (.ok (), (w.makeDirs dir.inits).2)
  changes dir w := makeDirs_changes w dir.inits fun d hd => .inl ((mem_inits d dir).mp hd)

end DirCommand

end ShareCli.Foundation
