import Mathlib.Data.List.AList
import Mathlib.Data.List.Infix
import Mathlib.Logic.Function.Basic
import ShareCli.Foundation.Path

/-!
# A file system

The directory tree maps absolute paths to nodes: a directory, or a file, which is an inode number. The
contents of a file belong to the inode, so that whoever has it open writes to it wherever it has been
renamed to. System calls take a directory and the text that was joined to it.

For a plain name in a directory without subdirectories every system call comes down to which file the name has
(`FileSystem.file`), and to a change of it.
-/

namespace ShareCli.Foundation

class FileContents (β : Type) where
  empty : β
  /-- The contents `old` after `new` has been written at the start. -/
  overwrite : β → β → β
  overwrite_empty : ∀ new, overwrite empty new = new

inductive IoError where
  | notFound
  | other
deriving DecidableEq

inductive Node where
  | dir
  | file (inode : Nat)
deriving DecidableEq

def Node.isFile : Node → Bool
  | .dir => false
  | .file _ => true

structure DirEntry where
  name : List Char
  isFile : Bool
deriving DecidableEq

structure JoinedPath where
  directory : FilePath
  text : List Char
deriving DecidableEq

def FilePath.join (directory : FilePath) (text : String) : JoinedPath := ⟨directory, text.toList⟩

/-- A text that names an entry of the directory it is joined to. -/
def FilePath.isPlain (text : List Char) : Bool :=
  !text.contains '/' && text != [] && text != ['.'] && text != ['.', '.']

/-- Names for inodes, and their data. -/
structure FileSystem (β : Type) where
  nodes : AList fun _ : FilePath => Node
  data : Nat → β
  next : Nat

/-- How the text of a path ends: in a name, in a separator, or in a component of dots. -/
inductive PathEnd where
  | name
  | slash
  | dots
deriving DecidableEq

namespace FileSystem

variable {β : Type}

def empty [FileContents β] : FileSystem β := { nodes := ∅, data := fun _ => FileContents.empty, next := 0 }

variable (fs : FileSystem β)

/-- The root is always a directory. -/
def node (path : FilePath) : Option Node :=
  if path = [] then some .dir else fs.nodes.lookup path

def isDir (path : FilePath) : Bool := fs.node path == some .dir

/-- Follows components that must all be directories. -/
def walk (fs : FileSystem β) : FilePath → List (List Char) → Except IoError FilePath
  | path, [] => .ok path
  | path, component :: rest =>
    if component = [] ∨ component = ['.'] then fs.walk path rest
    else if component = ['.', '.'] then fs.walk path.dropLast rest
    else
      match fs.node (path ++ [component]) with
      | some .dir => fs.walk (path ++ [component]) rest
      | some (.file _) => .error .other
      | none => .error .notFound

/-- The place a path leads to, whether there is something or not. -/
def locate (path : JoinedPath) : Except IoError (FilePath × PathEnd) :=
  let components := path.text.splitOn '/'
  let start := if path.text.head? = some '/' then [] else path.directory
  (fs.walk start components.dropLast).map fun directory =>
    match components.getLast? with
    | none => (directory, .slash)
    | some last =>
      if last = [] then (directory, .slash)
      else if last = ['.'] then (directory, .dots)
      else if last = ['.', '.'] then (directory.dropLast, .dots)
      else (directory ++ [last], .name)

def link (path : FilePath) (inode : Nat) : FileSystem β :=
  { fs with nodes := fs.nodes.insert path (.file inode) }

def unlink (path : FilePath) : FileSystem β := { fs with nodes := fs.nodes.erase path }

def setData (inode : Nat) (contents : β) : FileSystem β :=
  { fs with data := Function.update fs.data inode contents }

def entryOf (directory : FilePath) (node : Sigma fun _ : FilePath => Node) : Option DirEntry :=
  match node.1.getLast? with
  | none => none
  | some name => if node.1.dropLast = directory then some ⟨name, node.2.isFile⟩ else none

def entries (fs : FileSystem β) (directory : FilePath) : List DirEntry :=
  fs.nodes.entries.filterMap (entryOf directory)

def readDir (directory : FilePath) : Except IoError (List DirEntry) :=
  match fs.node directory with
  | some .dir => .ok (fs.entries directory)
  | some (.file _) => .error .other
  | none => .error .notFound

def read (path : JoinedPath) : Except IoError β :=
  (fs.locate path).bind fun place =>
    match fs.node place.1 with
    | some (.file inode) => .ok (fs.data inode)
    | some .dir => .error .other
    | none => .error .notFound

/-- An existing file becomes empty, a missing one is made. -/
def create [FileContents β] (fs : FileSystem β) (path : JoinedPath) : Except IoError (Nat × FileSystem β) :=
  (fs.locate path).bind fun place =>
    match fs.node place.1 with
    | some (.file inode) => .ok (inode, fs.setData inode FileContents.empty)
    | some .dir => .error .other
    | none =>
      if fs.isDir place.1.dropLast then
        .ok (fs.next,
          { (fs.link place.1 fs.next).setData fs.next FileContents.empty with next := fs.next + 1 })
      else .error .notFound

def write [FileContents β] (fs : FileSystem β) (inode : Nat) (contents : β) : FileSystem β :=
  fs.setData inode (FileContents.overwrite (fs.data inode) contents)

def moveTree (source target : FilePath) : FileSystem β :=
  { fs with
    nodes := (((fs.nodes.erase target).entries.map fun entry =>
      ⟨if source <+: entry.1 then target ++ entry.1.drop source.length else entry.1, entry.2⟩ :
        List (Sigma fun _ : FilePath => Node))).toAList }

/-- A file replaces a file; a directory replaces an empty directory. -/
def renamePlaces (source target : FilePath) : Except IoError (FileSystem β) :=
  match fs.node source with
  | none => .error .notFound
  | some node =>
    if fs.isDir target.dropLast = false then .error .notFound
    else if source = target then .ok fs
    else
      match node, fs.node target with
      | .file _, some .dir => .error .other
      | .file inode, _ => .ok ((fs.unlink source).link target inode)
      | .dir, some (.file _) => .error .other
      | .dir, some .dir =>
        if (fs.entries target).isEmpty ∧ ¬ source <+: target then .ok (fs.moveTree source target)
        else .error .other
      | .dir, none =>
        if source <+: target then .error .other else .ok (fs.moveTree source target)

def rename (source target : JoinedPath) : Except IoError (FileSystem β) :=
  (fs.locate source).bind fun source =>
    (fs.locate target).bind fun target =>
      if source.2 = .dots ∨ target.2 = .dots then .error .other
      else fs.renamePlaces source.1 target.1

def remove (path : JoinedPath) : Except IoError (FileSystem β) :=
  (fs.locate path).bind fun place =>
    match fs.node place.1 with
    | some (.file _) => .ok (fs.unlink place.1)
    | some .dir => .error .other
    | none => .error .notFound

def createDir (path : FilePath) : FileSystem β :=
  match fs.node path with
  | some _ => fs
  | none => { fs with nodes := fs.nodes.insert path .dir }

/-- `create_dir_all` on a path where no file is in the way. -/
def createDirAll (path : FilePath) : FileSystem β := path.inits.foldl createDir fs

end FileSystem

open FilePath List AList

namespace FileSystem

variable {β : Type} {fs : FileSystem β} {d d' : FilePath} {x y : List Char} {i : Nat}

theorem node_link (fs : FileSystem β) (d : FilePath) (x : List Char) (i : Nat) (p : FilePath) :
    (fs.link (d ++ [x]) i).node p = if p = d ++ [x] then some (.file i) else fs.node p := by
  unfold node link
  by_cases hp : p = d ++ [x]
  · subst hp
    simp
  · simp only [if_neg hp, lookup_insert_ne hp]

theorem node_unlink (fs : FileSystem β) (d : FilePath) (x : List Char) (p : FilePath) :
    (fs.unlink (d ++ [x])).node p = if p = d ++ [x] then none else fs.node p := by
  unfold node unlink
  by_cases hp : p = d ++ [x]
  · subst hp
    simp
  · simp only [if_neg hp, lookup_erase_ne hp]

theorem node_createDir (fs : FileSystem β) (p r : FilePath) :
    (fs.createDir p).node r = if fs.node r = none ∧ r = p then some .dir else fs.node r := by
  unfold createDir
  cases hp : fs.node p with
  | some node =>
    by_cases hr : r = p
    · subst hr
      simp [hp]
    · simp [hr]
  | none =>
    have hne : p ≠ [] := by
      rintro rfl
      simp [node] at hp
    by_cases hr : r = p
    · subst hr
      rw [if_pos ⟨hp, rfl⟩]
      simp [node, hne]
    · simp [node, hr, lookup_insert_ne hr]

theorem node_foldl_createDir (ps : List FilePath) (fs : FileSystem β) (r : FilePath) :
    (ps.foldl createDir fs).node r =
      if fs.node r = none ∧ r ∈ ps then some .dir else fs.node r := by
  induction ps generalizing fs with
  | nil => simp
  | cons p rs ih =>
    rw [foldl_cons, ih, node_createDir]
    by_cases hn : fs.node r = none
    · by_cases hr : r = p
      · subst hr
        simp [hn]
      · simp [hn, hr]
    · simp [hn]

theorem node_createDirAll (fs : FileSystem β) (p r : FilePath) :
    (fs.createDirAll p).node r = if fs.node r = none ∧ r <+: p then some .dir else fs.node r := by
  rw [createDirAll, node_foldl_createDir]
  simp only [mem_inits]

theorem data_createDir (fs : FileSystem β) (p : FilePath) : (fs.createDir p).data = fs.data := by
  unfold createDir
  split <;> rfl

@[simp] theorem data_createDirAll (fs : FileSystem β) (p : FilePath) :
    (fs.createDirAll p).data = fs.data := by
  unfold createDirAll
  generalize p.inits = paths
  induction paths generalizing fs with
  | nil => rfl
  | cons p rs ih => rw [foldl_cons, ih, data_createDir]

def file (fs : FileSystem β) (d : FilePath) (x : List Char) : Option Nat :=
  match fs.node (d ++ [x]) with
  | some (.file i) => some i
  | _ => none

/-- A directory without directories in it. -/
structure Flat (fs : FileSystem β) (d : FilePath) : Prop where
  isDir : fs.node d = some .dir
  noSubdir : ∀ x, fs.node (d ++ [x]) ≠ some .dir

theorem Flat.node_eq (h : fs.Flat d) (x : List Char) : fs.node (d ++ [x]) = (fs.file d x).map .file := by
  unfold file
  cases hn : fs.node (d ++ [x]) with
  | none => rfl
  | some node =>
    cases node with
    | dir => exact absurd hn (h.noSubdir x)
    | file i => rfl

theorem append_singleton_inj : d ++ [x] = d' ++ [y] ↔ d = d' ∧ x = y := by
  constructor
  · intro h
    obtain ⟨hd, hx⟩ := append_inj' h rfl
    exact ⟨hd, singleton_inj.mp hx⟩
  · rintro ⟨rfl, rfl⟩
    rfl

section Placed

-- what is at one place is a file or nothing, and all else is as it was
variable {fs' : FileSystem β} {o : Option Nat}
  (hn : ∀ p, fs'.node p = if p = d ++ [x] then o.map .file else fs.node p)

include hn

theorem file_of_node (d' : FilePath) (y : List Char) :
    fs'.file d' y = if d' = d ∧ y = x then o else fs.file d' y := by
  unfold file
  rw [hn]
  by_cases h : d' = d ∧ y = x
  · rw [if_pos h, if_pos (append_singleton_inj.mpr h)]
    cases o <;> rfl
  · rw [if_neg h, if_neg fun heq => h (append_singleton_inj.mp heq)]

theorem Flat.of_node (h : fs.Flat d') (hd : fs.Flat d) : fs'.Flat d' := by
  have hne : d' ≠ d ++ [x] := fun heq => hd.noSubdir x (heq ▸ h.isDir)
  refine ⟨?_, ?_⟩
  · rw [hn, if_neg hne]
    exact h.isDir
  · intro y
    rw [hn]
    split
    · cases o <;> simp
    · exact h.noSubdir y

end Placed

theorem file_link (fs : FileSystem β) (d : FilePath) (x : List Char) (i : Nat) (d' : FilePath) (y : List Char) :
    (fs.link (d ++ [x]) i).file d' y = if d' = d ∧ y = x then some i else fs.file d' y :=
  file_of_node (node_link fs d x i) d' y

theorem file_unlink (fs : FileSystem β) (d : FilePath) (x : List Char) (d' : FilePath) (y : List Char) :
    (fs.unlink (d ++ [x])).file d' y = if d' = d ∧ y = x then none else fs.file d' y :=
  file_of_node (node_unlink fs d x) d' y

@[simp] theorem file_setData (fs : FileSystem β) (i : Nat) (cs : β) (d : FilePath)
    (x : List Char) : (fs.setData i cs).file d x = fs.file d x := rfl

theorem Flat.link (h : fs.Flat d') (hd : fs.Flat d) (x : List Char) (i : Nat) :
    (fs.link (d ++ [x]) i).Flat d' :=
  .of_node (o := some i) (node_link fs d x i) h hd

theorem Flat.unlink (h : fs.Flat d') (hd : fs.Flat d) (x : List Char) : (fs.unlink (d ++ [x])).Flat d' :=
  .of_node (o := none) (node_unlink fs d x) h hd

theorem Flat.setData (h : fs.Flat d) (i : Nat) (cs : β) : (fs.setData i cs).Flat d := ⟨h.isDir, h.noSubdir⟩

theorem locate_plain (fs : FileSystem β) (d : FilePath) (hx : isPlain x = true) :
    fs.locate ⟨d, x⟩ = .ok (d ++ [x], .name) := by
  simp only [isPlain, Bool.and_eq_true, Bool.not_eq_true', contains_eq_mem,
    decide_eq_false_iff_not, bne_iff_ne, ne_eq] at hx
  obtain ⟨⟨⟨hs, hn⟩, hdt⟩, hd⟩ := hx
  have hh : x.head? ≠ some '/' := fun h => hs (mem_of_mem_head? h)
  simp [locate, splitOn_eq_singleton hs, hh, walk, hn, hdt, hd, Except.map]

theorem read_plain (h : fs.Flat d) (hx : isPlain x = true) : fs.read ⟨d, x⟩ =
      match fs.file d x with
      | some i => .ok (fs.data i)
      | none => .error .notFound := by
  unfold read
  rw [locate_plain fs d hx]
  simp only [Except.bind, h.node_eq]
  cases fs.file d x <;> rfl

theorem create_plain [FileContents β] (h : fs.Flat d) (hx : isPlain x = true) : fs.create ⟨d, x⟩ =
      match fs.file d x with
      | some i => .ok (i, fs.setData i FileContents.empty)
      | none => .ok (fs.next,
          { (fs.link (d ++ [x]) fs.next).setData fs.next FileContents.empty with next := fs.next + 1 }) := by
  unfold create
  rw [locate_plain fs d hx]
  simp only [Except.bind, h.node_eq]
  cases fs.file d x with
  | some i => rfl
  | none => simp [FileSystem.isDir, h.isDir]

theorem rename_plain (h : fs.Flat d) (h' : fs.Flat d') (hne : d ≠ d') (hx : isPlain x = true) :
    fs.rename ⟨d, x⟩ ⟨d', x⟩ =
      match fs.file d x with
      | some i => .ok ((fs.unlink (d ++ [x])).link (d' ++ [x]) i)
      | none => .error .notFound := by
  unfold rename
  rw [locate_plain fs d hx, locate_plain fs d' hx]
  have hp : d ++ [x] ≠ d' ++ [x] := fun heq => hne (append_singleton_inj.mp heq).1
  have hpr : fs.isDir (d' ++ [x]).dropLast = true := by
    simp [FileSystem.isDir, h'.isDir]
  simp only [Except.bind, reduceCtorEq, or_self, if_false, renamePlaces, h.node_eq, h'.node_eq,
    hpr, Bool.true_eq_false, hp]
  cases fs.file d x with
  | none => rfl
  | some i => cases fs.file d' x <;> rfl

theorem remove_plain (h : fs.Flat d) (hx : isPlain x = true) : fs.remove ⟨d, x⟩ =
      match fs.file d x with
      | some _ => .ok (fs.unlink (d ++ [x]))
      | none => .error .notFound := by
  unfold remove
  rw [locate_plain fs d hx]
  simp only [Except.bind, h.node_eq]
  cases fs.file d x <;> rfl

theorem readDir_flat (h : fs.Flat d) : fs.readDir d = .ok (fs.entries d) := by
  unfold readDir
  rw [h.isDir]

/-- No two names have one inode, and the inodes in use are not handed out again. -/
structure Sole (fs : FileSystem β) : Prop where
  injective : ∀ d x d' x' i, fs.file d x = some i → fs.file d' x' = some i → d = d' ∧ x = x'
  below : ∀ d x i, fs.file d x = some i → i < fs.next

variable {fs' : FileSystem β}

theorem file_congr (h : fs'.nodes = fs.nodes) (d : FilePath) (x : List Char) :
    fs'.file d x = fs.file d x := by
  unfold file node
  rw [h]

theorem Sole.of_nodes (h : fs.Sole) (hn : fs'.nodes = fs.nodes) (hnext : fs.next ≤ fs'.next) : fs'.Sole := by
  refine ⟨?_, ?_⟩
  · intro d x d' x' i
    rw [file_congr hn, file_congr hn]
    exact h.injective d x d' x' i
  · intro d x i
    rw [file_congr hn]
    exact fun hf => (h.below d x i hf).trans_le hnext

theorem Sole.setData (h : fs.Sole) (i : Nat) (cs : β) : (fs.setData i cs).Sole := h.of_nodes rfl le_rfl

theorem Sole.unlink (h : fs.Sole) (d : FilePath) (x : List Char) : (fs.unlink (d ++ [x])).Sole := by
  have hold : ∀ e y j, (fs.unlink (d ++ [x])).file e y = some j → fs.file e y = some j := by
    intro e y j hf
    rw [file_unlink] at hf
    split_ifs at hf
    exact hf
  refine ⟨?_, ?_⟩
  · intro e y e' y' j hf hf'
    exact h.injective e y e' y' j (hold e y j hf) (hold e' y' j hf')
  · intro e y j hf
    exact h.below e y j (hold e y j hf)

theorem Sole.link (h : fs.Sole) (hu : ∀ e y, fs.file e y ≠ some i) (hi : i < fs.next)
    (d : FilePath) (x : List Char) : (fs.link (d ++ [x]) i).Sole := by
  have hc : ∀ e y j, (fs.link (d ++ [x]) i).file e y = some j →
      e = d ∧ y = x ∧ j = i ∨ j ≠ i ∧ fs.file e y = some j := by
    intro e y j hf
    rw [file_link] at hf
    split_ifs at hf with hp
    · exact .inl ⟨hp.1, hp.2, (Option.some.inj hf).symm⟩
    · refine .inr ⟨?_, hf⟩
      rintro rfl
      exact hu e y hf
  refine ⟨?_, ?_⟩
  · intro e y e' y' j hf hf'
    rcases hc e y j hf with ⟨rfl, rfl, hj⟩ | ⟨hj, hold⟩
    · rcases hc e' y' j hf' with ⟨rfl, rfl, -⟩ | ⟨hj', -⟩
      · exact ⟨rfl, rfl⟩
      · exact absurd hj hj'
    · rcases hc e' y' j hf' with ⟨-, -, hj'⟩ | ⟨-, ho'⟩
      · exact absurd hj' hj
      · exact h.injective e y e' y' j hold ho'
  · intro e y j hf
    rcases hc e y j hf with ⟨-, -, rfl⟩ | ⟨-, hold⟩
    · exact hi
    · exact h.below e y j hold

theorem Sole.relink (h : fs.Sole) (hf : fs.file d x = some i) (d' : FilePath) (y : List Char) :
    ((fs.unlink (d ++ [x])).link (d' ++ [y]) i).Sole := by
  refine (h.unlink d x).link ?_ (h.below d x i hf) d' y
  intro e z ho
  rw [file_unlink] at ho
  split_ifs at ho with hne
  exact hne (h.injective e z d x i ho hf)

theorem Sole.create [FileContents β] (h : fs.Sole) (hd : fs.Flat d) (hx : isPlain x = true)
    (hc : fs.create ⟨d, x⟩ = .ok (i, fs')) : fs'.Sole := by
  rw [create_plain hd hx] at hc
  split at hc
  next =>
    obtain ⟨rfl, rfl⟩ := hc
    exact h.setData _ _
  next =>
    obtain ⟨rfl, rfl⟩ := hc
    have hr : Sole { fs with next := fs.next + 1 } := h.of_nodes rfl (Nat.le_succ _)
    have hl := hr.link (i := fs.next) ?_ (Nat.lt_succ_self _) d x
    · exact hl.of_nodes rfl le_rfl
    · intro e y hf
      exact Nat.lt_irrefl _ (h.below e y fs.next hf)

theorem entryOf_eq_some {node : Sigma fun _ : FilePath => Node} {e : DirEntry} :
    entryOf d node = some e ↔ node.1 = d ++ [e.name] ∧ e.isFile = node.2.isFile := by
  obtain ⟨p, node⟩ := node
  obtain ⟨n, isFile⟩ := e
  unfold entryOf
  rcases eq_nil_or_concat p with rfl | ⟨before, last, rfl⟩
  · simp
  · simp only [concat_eq_append, getLast?_append, getLast?_singleton, Option.some_or,
      dropLast_concat, Option.ite_none_right_eq_some, Option.some.injEq, DirEntry.mk.injEq,
      append_singleton_inj]
    tauto

theorem mem_entries (h : fs.Flat d) (e : DirEntry) :
    e ∈ fs.entries d ↔ e.isFile = true ∧ (fs.file d e.name).isSome = true := by
  have hnd : fs.node (d ++ [e.name]) = fs.nodes.lookup (d ++ [e.name]) := by
    simp [node]
  have hm : e ∈ fs.entries d ↔ ∃ n, fs.node (d ++ [e.name]) = some n ∧ e.isFile = n.isFile := by
    simp only [entries, mem_filterMap, entryOf_eq_some, hnd]
    constructor
    · rintro ⟨⟨p, n⟩, hp, rfl, hf⟩
      exact ⟨n, mem_lookup_iff.mpr hp, hf⟩
    · rintro ⟨n, hn, hf⟩
      exact ⟨⟨_, n⟩, mem_lookup_iff.mp hn, rfl, hf⟩
  rw [hm, h.node_eq]
  cases fs.file d e.name <;> simp [Node.isFile]

theorem entries_sublist_keys (d : FilePath) (nodes : List (Sigma fun _ : FilePath => Node)) :
    ((nodes.filterMap (entryOf d)).map fun e => d ++ [e.name]).Sublist nodes.keys := by
  induction nodes with
  | nil => exact Sublist.refl _
  | cons node rs ih =>
    rw [filterMap_cons]
    split
    next => exact ih.cons node.1
    next e he =>
      obtain ⟨hp, -⟩ := entryOf_eq_some.mp he
      rw [keys_cons, hp]
      exact ih.cons_cons _

theorem nodup_entries (fs : FileSystem β) (d : FilePath) : ((fs.entries d).map DirEntry.name).Nodup := by
  have hn := Nodup.sublist (entries_sublist_keys d fs.nodes.entries) fs.nodes.keys_nodup
  have hm : ((fs.entries d).map fun e => d ++ [e.name]) =
      ((fs.entries d).map DirEntry.name).map fun name => d ++ [name] := by
    rw [map_map]
    rfl
  exact Nodup.of_map _ (hm ▸ hn)

end FileSystem

end ShareCli.Foundation
