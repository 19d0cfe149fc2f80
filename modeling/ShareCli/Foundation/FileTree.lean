import Mathlib.Data.List.Dedup
import Mathlib.Data.List.Infix
import Mathlib.Logic.Function.Basic
import ShareCli.Foundation.Path

/-!
# Directory trees

A tree has at each path nothing, a directory, or a file with its body. The root is a directory, and so is
the parent of everything that is there; both are part of the type.
-/

namespace ShareCli.Foundation

open List Function

inductive Errno where
  | enoent
  | enotdir
  | eisdir
  | eexist
  | enotempty
  | einval
  | eperm
  | exdev
  | eio
deriving DecidableEq

inductive Entry (β : Type) where
  | dir
  | file (body : β)
deriving DecidableEq

/-- Files and directories by path. -/
structure FileTree (β : Type) where
  node : FilePath → Option (Entry β)
  /-- Everything that is there, and perhaps more. -/
  paths : List FilePath
  mem_paths : ∀ path, node path ≠ none → path ∈ paths
  root : node [] = some .dir
  parent : ∀ path name, node (path ++ [name]) ≠ none → node path = some .dir

namespace FileTree

variable {β : Type}

def empty : FileTree β where
  node path := if path = [] then some .dir else none
  paths := [[]]
  mem_paths := by simp
  root := by simp
  parent := by simp

def isDir (t : FileTree β) (path : FilePath) : Bool :=
  match t.node path with
  | some .dir => true
  | _ => false

def file (t : FileTree β) (path : FilePath) : Option β :=
  match t.node path with
  | some (.file body) => some body
  | _ => none

def isMissing (t : FileTree β) (path : FilePath) : Bool := (t.node path).isNone

def children (t : FileTree β) (path : FilePath) : List FilePath :=
  (t.paths.filter fun p => p ≠ [] ∧ p.dropLast = path ∧ ¬ t.isMissing p).dedup

def absence (t : FileTree β) (path : FilePath) : Errno :=
  if path.inits.any fun p => decide (p ≠ path) && (t.file p).isSome then .enotdir else .enoent

section Facts

variable {t : FileTree β} {path : FilePath}

theorem isDir_iff : t.isDir path = true ↔ t.node path = some .dir := by
  unfold isDir
  split
  · rename_i h
    simp [h]
  · rename_i h
    simpa using h

theorem file_eq_some_iff {b : β} : t.file path = some b ↔ t.node path = some (.file b) := by
  unfold file
  split
  · rename_i h
    simp [h]
  · rename_i h
    constructor
    · intro hb
      cases hb
    · intro hn
      exact absurd hn (h b)

theorem isMissing_iff : t.isMissing path = true ↔ t.node path = none := by
  simp [isMissing]

theorem isDir_of_isMissing (h : t.isMissing path = true) : t.isDir path = false := by
  simp [isDir, isMissing_iff.mp h]

theorem ne_nil_of_not_dir (h : t.node path ≠ some .dir) : path ≠ [] := by
  rintro rfl
  exact h t.root

variable {below : FilePath}

theorem node_below (h : t.node path ≠ some .dir) (hb : path <+: below)
    (hne : below ≠ path) : t.node below = none := by
  obtain ⟨rs, rfl⟩ := hb
  induction rs using reverseRecOn with
  | nil => simp at hne
  | append_singleton rs n ih =>
    by_contra ht
    rw [← append_assoc] at ht
    have hp := t.parent _ _ ht
    by_cases hrest : rs = []
    · rw [hrest, append_nil] at hp
      exact h hp
    · have hn := ih (by simpa using hrest)
      simp [hn] at hp

theorem mem_children {ch : FilePath} :
    ch ∈ t.children path ↔ ch ≠ [] ∧ ch.dropLast = path ∧ t.node ch ≠ none := by
  simp only [children, mem_dedup, mem_filter, decide_eq_true_eq, isMissing_iff]
  constructor
  · rintro ⟨-, h⟩
    exact h
  · intro h
    exact ⟨t.mem_paths ch h.2.2, h⟩

theorem children_eq_nil (h : t.node path ≠ some .dir) : t.children path = [] := by
  refine eq_nil_iff_forall_not_mem.mpr fun ch hc => ?_
  obtain ⟨hne, hp, ht⟩ := mem_children.mp hc
  have hcn : path ++ [ch.getLast hne] = ch := by
    rw [← hp]
    exact dropLast_append_getLast hne
  rw [← hcn] at ht
  exact h (t.parent _ _ ht)

theorem node_below_of_children (h : t.children path = []) (hb : path <+: below)
    (hne : below ≠ path) : t.node below = none := by
  obtain ⟨rs, rfl⟩ := hb
  cases rs with
  | nil => simp at hne
  | cons name rs =>
    have hc : t.node (path ++ [name]) = none := by
      by_contra ht
      have hm : path ++ [name] ∈ t.children path := mem_children.mpr ⟨by simp, by simp, ht⟩
      simp [h] at hm
    by_cases hrest : rs = []
    · rw [hrest]
      exact hc
    · have ha : path ++ name :: rs = (path ++ [name]) ++ rs := by simp
      rw [ha]
      refine node_below (by simp [hc]) (prefix_append _ _) ?_
      simpa using hrest

theorem node_above {a : FilePath} (h : t.node path ≠ none) (ha : a <+: path)
    (hne : a ≠ path) : t.node a = some .dir := by
  by_contra hd
  exact h (node_below hd ha hne.symm)

end Facts

/-- A file or a directory at a path in a directory; it does not replace a directory. -/
def put (t : FileTree β) (path : FilePath) (entry : Entry β) (hparent : t.isDir path.dropLast = true)
    (hpath : t.isDir path = false) : FileTree β where
  node := update t.node path (some entry)
  paths := path :: t.paths
  mem_paths := by
    intro p hp
    by_cases heq : p = path
    · exact heq ▸ mem_cons_self
    · rw [update_of_ne heq] at hp
      exact mem_cons_of_mem _ (t.mem_paths p hp)
  root := by
    have hnil : [] ≠ path := by
      rintro rfl
      simp [isDir, t.root] at hpath
    rw [update_of_ne hnil]
    exact t.root
  parent := by
    intro p name hp
    have hnotdir : t.node path ≠ some .dir := by
      intro hdir
      simp [isDir, hdir] at hpath
    by_cases heq : p ++ [name] = path
    · have hp' : p = path.dropLast := by simp [← heq]
      have hne : p ≠ path := by
        rintro rfl
        simp at heq
      rw [update_of_ne hne, hp']
      exact isDir_iff.mp hparent
    · rw [update_of_ne heq] at hp
      have hdir := t.parent p name hp
      have hne : p ≠ path := by
        rintro rfl
        exact hnotdir hdir
      rw [update_of_ne hne]
      exact hdir

def erase (t : FileTree β) (path : FilePath) (hroot : path ≠ []) (hempty : t.children path = []) :
    FileTree β where
  node := update t.node path none
  paths := t.paths
  mem_paths := by
    intro p hp
    by_cases heq : p = path
    · simp [heq] at hp
    · rw [update_of_ne heq] at hp
      exact t.mem_paths p hp
  root := by
    rw [update_of_ne hroot.symm]
    exact t.root
  parent := by
    intro p name hp
    by_cases heq : p ++ [name] = path
    · simp [heq] at hp
    · rw [update_of_ne heq] at hp
      have hne : p ≠ path := by
        rintro rfl
        have hnone := node_below_of_children hempty (prefix_append p [name]) (by simp)
        exact hp hnone
      rw [update_of_ne hne]
      exact t.parent p name hp

/-- What is at and below `old` moves to `new`, below which nothing is. -/
def move (t : FileTree β) (old new : FilePath) (hbelow : ¬ old <+: new) (hparent : t.isDir new.dropLast = true)
    (hnew : new ≠ []) : FileTree β where
  node p :=
    if new <+: p then t.node (old ++ p.drop new.length) else if old <+: p then none else t.node p
  paths := t.paths ++ t.paths.map fun p => new ++ p.drop old.length
  mem_paths := by
    intro p hp
    split at hp
    · rename_i hprefix
      obtain ⟨rest, rfl⟩ := hprefix
      rw [drop_left] at hp
      refine mem_append_right _ (mem_map.mpr ⟨old ++ rest, t.mem_paths _ hp, ?_⟩)
      rw [drop_left]
    · split at hp
      · exact absurd rfl hp
      · exact mem_append_left _ (t.mem_paths p hp)
  root := by
    have hold : old ≠ [] := by
      rintro rfl
      exact hbelow nil_prefix
    rw [if_neg (by simpa using hnew), if_neg (by simpa using hold)]
    exact t.root
  parent := by
    intro p name hp
    by_cases hprefix : new <+: p
    · -- The path and its parent are both in the moved tree.
      obtain ⟨rest, rfl⟩ := hprefix
      rw [if_pos ((prefix_append new rest).trans (prefix_append _ _)), append_assoc,
        drop_left, ← append_assoc] at hp
      rw [if_pos (prefix_append new rest), drop_left]
      exact t.parent _ _ hp
    rw [if_neg hprefix]
    by_cases heq : new = p ++ [name]
    · have hp' : p = new.dropLast := by simp [heq]
      have hnotold : ¬ old <+: p := by
        intro hprefix'
        exact hbelow (heq ▸ hprefix'.trans (prefix_append p [name]))
      rw [if_neg hnotold, hp']
      exact isDir_iff.mp hparent
    · have hnotnew : ¬ new <+: p ++ [name] := by
        intro hprefix'
        rcases prefix_concat_iff.mp hprefix' with h | h
        · exact heq h
        · exact hprefix h
      rw [if_neg hnotnew] at hp
      split_ifs at hp with hnotold
      · exact absurd rfl hp
      · have hnotold' : ¬ old <+: p := fun h => hnotold (h.trans (prefix_append p [name]))
        rw [if_neg hnotold']
        exact t.parent p name hp

/-- What is `gone` at or below `dir` is removed, with everything below it. The root stays. -/
def prune (t : FileTree β) (dir : FilePath) (gone : FilePath → Bool) : FileTree β where
  node p := if p ≠ [] ∧ (p.inits.any fun q => decide (dir <+: q) && gone q) then none else t.node p
  paths := t.paths
  mem_paths := by
    intro p hp
    split at hp
    · exact absurd rfl hp
    · exact t.mem_paths p hp
  root := by simp [t.root]
  parent := by
    intro p name hp
    split_ifs at hp with hkept
    · exact absurd rfl hp
    · have hdir := t.parent p name hp
      rw [if_neg]
      · exact hdir
      · rintro ⟨-, hgone⟩
        obtain ⟨q, hq, hgone⟩ := any_eq_true.mp hgone
        have hq' : q ∈ (p ++ [name]).inits :=
          (mem_inits _ _).mpr (((mem_inits _ _).mp hq).trans (prefix_append p [name]))
        exact hkept ⟨by simp, any_eq_true.mpr ⟨q, hq', hgone⟩⟩

section Changes

variable {t : FileTree β} {path : FilePath}

@[simp] theorem node_put (e : Entry β) (hp : t.isDir path.dropLast = true)
    (hpt : t.isDir path = false) (p : FilePath) :
    (t.put path e hp hpt).node p = if p = path then some e else t.node p :=
  update_apply _ _ _ _

@[simp] theorem node_erase (hroot : path ≠ []) (he : t.children path = []) (p : FilePath) :
    (t.erase path hroot he).node p = if p = path then none else t.node p :=
  update_apply _ _ _ _

end Changes

def stat (t : FileTree β) (path : FilePath) : Except Errno (Entry β) :=
  match t.node path with
  | some entry => .ok entry
  | none => .error (t.absence path)

def readFile (t : FileTree β) (path : FilePath) : Except Errno β :=
  match t.node path with
  | some (.file body) => .ok body
  | some .dir => .error .eisdir
  | none => .error (t.absence path)

/-- A file gets the body that `make` says, from the one it has if it is there. -/
def writeFile (t : FileTree β) (path : FilePath) (make : Option β → β) : Except Errno (FileTree β) :=
  if hpath : t.isDir path = false then
    if hparent : t.isDir path.dropLast = true then
      .ok (t.put path (.file (make (t.file path))) hparent hpath)
    else .error (t.absence path)
  else .error .eisdir

def createNew (t : FileTree β) (path : FilePath) (body : β) : Except Errno (FileTree β) :=
  if t.isMissing path then t.writeFile path fun _ => body else .error .eexist

def modify (t : FileTree β) (path : FilePath) (make : β → β) : Except Errno (FileTree β) :=
  match t.readFile path with
  | .error e => .error e
  | .ok body => t.writeFile path fun _ => make body

def mkdir (t : FileTree β) (path : FilePath) : Except Errno (FileTree β) :=
  if hmissing : t.isMissing path = true then
    if hparent : t.isDir path.dropLast = true then
      .ok (t.put path .dir hparent (isDir_of_isMissing hmissing))
    else .error (t.absence path)
  else .error .eexist

def unlink (t : FileTree β) (path : FilePath) : Except Errno (FileTree β) :=
  match h : t.node path with
  | none => .error (t.absence path)
  | some .dir => .error .eisdir
  | some (.file _) =>
    .ok (t.erase path (ne_nil_of_not_dir (t := t) (by simp [h])) (children_eq_nil (by simp [h])))

def rmdir (t : FileTree β) (path : FilePath) : Except Errno (FileTree β) :=
  match t.node path with
  | none => .error (t.absence path)
  | some (.file _) => .error .enotdir
  | some .dir =>
    if hroot : path ≠ [] then
      if hempty : t.children path = [] then .ok (t.erase path hroot hempty) else .error .enotempty
    else .error .eio

/-- Why an entry may not take the place of what is at `new`. -/
def obstacle (t : FileTree β) (entry : Entry β) (new : FilePath) : Option Errno :=
  match entry, t.node new with
  | .file _, some .dir => some .eisdir
  | .dir, some (.file _) => some .enotdir
  | .dir, some .dir => if t.children new = [] then none else some .enotempty
  | _, _ => none

/-- A file replaces a file, a directory replaces an empty directory. -/
def rename (t : FileTree β) (old new : FilePath) : Except Errno (FileTree β) :=
  match t.node old with
  | none => .error (t.absence old)
  | some entry =>
    if old = new then .ok t
    else if hbelow : ¬ old <+: new then
      if hparent : t.isDir new.dropLast = true then
        match t.obstacle entry new with
        | some e => .error e
        | none => if hnew : new ≠ [] then .ok (t.move old new hbelow hparent hnew) else .error .eio
      else .error (t.absence new)
    else .error .einval

/-- The directories that are missing on the way, from the top. An error stops it where it is. -/
def mkdirs (t : FileTree β) : List FilePath → Option Errno × FileTree β
  | [] => (none, t)
  | path :: rest =>
    if t.isDir path then t.mkdirs rest
    else
      match t.mkdir path with
      | .ok t => t.mkdirs rest
      | .error e => (some e, t)

end FileTree

end ShareCli.Foundation
