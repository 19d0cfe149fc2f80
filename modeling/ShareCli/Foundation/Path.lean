import Mathlib.Data.List.Basic

/-!
# Lexical paths

`.` and empty components are dropped, and `..` takes the component before it away (`resolve`). A program that
keeps paths as values compares them by their components, without resolving `..` (`components`, `joinText`).
-/

namespace ShareCli.Foundation

open List

abbrev FilePath := List (List Char)

namespace FilePath

def push (path : FilePath) (component : List Char) : FilePath :=
  if component = [] ∨ component = ['.'] then path
  else if component = ['.', '.'] then path.dropLast
  else path ++ [component]

variable (base : FilePath)

def resolve (text : List Char) : FilePath :=
  (text.splitOn '/').foldl push (if text.head? = some '/' then [] else base)

/-- A text without a separator names an entry of the directory, unless it is a dot name. -/
theorem resolve_of_not_mem {base : FilePath} {text : List Char} (hs : '/' ∉ text)
    (hn : text ≠ [] ∧ text ≠ ['.'] ∧ text ≠ ['.', '.']) : resolve base text = base ++ [text] := by
  have hh : text.head? ≠ some '/' := fun h => hs (mem_of_mem_head? h)
  rw [resolve, splitOn_eq_singleton hs, if_neg hh]
  simp [push, hn]

/-- `Path::join` on texts: an absolute text replaces the path, and a separator is put where none is. -/
def joinPath (path text : List Char) : List Char :=
  if text.head? = some '/' then text
  else if path = [] ∨ path.getLast? = some '/' then path ++ text
  else path ++ '/' :: text

theorem foldl_push_append (p t : List Char) :
    ((p ++ '/' :: t).splitOn '/').foldl push base =
      (t.splitOn '/').foldl push ((p.splitOn '/').foldl push base) := by
  rw [splitOn, splitOnP_append_cons _ _ (by simp), foldl_append]
  rfl

theorem resolve_nil : resolve base [] = base := by
  simp [resolve, push, splitOn_eq_singleton]

theorem resolve_joinPath (p t : List Char) :
    resolve base (joinPath p t) = resolve (resolve base p) t := by
  unfold joinPath
  by_cases ha : t.head? = some '/'
  · simp [resolve, ha]
  rw [if_neg ha]
  have hr (dir : FilePath) : resolve dir t = (t.splitOn '/').foldl push dir := by
    rw [resolve, if_neg ha]
  rw [hr]
  by_cases he : p = []
  · rw [if_pos (.inl he), he, nil_append, hr, resolve_nil]
  by_cases hs : p.getLast? = some '/'
  · obtain ⟨f, rfl⟩ := getLast?_eq_some_iff.mp hs
    have hh : (f ++ '/' :: t).head? = (f ++ ['/']).head? := by cases f <;> rfl
    have hj : f ++ ['/'] ++ t = f ++ '/' :: t := by simp
    rw [if_pos (.inr hs), hj, resolve, hh, foldl_push_append, resolve, foldl_push_append]
    simp [push, splitOn_eq_singleton]
  · have hh : (p ++ '/' :: t).head? = p.head? := by
      cases p with
      | nil => exact absurd rfl he
      | cons c p => rfl
    rw [if_neg (not_or.mpr ⟨he, hs⟩), resolve, hh, foldl_push_append, resolve]

/-- Empty components and `.` are dropped, but for a `.` that the text begins with; the root is a component. -/
def components (text : List Char) : FilePath :=
  let parts := (text.splitOn '/').filter (· ≠ [])
  if text.head? = some '/' then ['/'] :: parts.filter (· ≠ ['.'])
  else
    match parts with
    | [] => []
    | first :: rest => first :: rest.filter (· ≠ ['.'])

def fileName (text : List Char) : Option (List Char) :=
  (components text).getLast?.filter fun name => name ≠ ['/'] ∧ name ≠ ['.'] ∧ name ≠ ['.', '.']

def joinText (path : FilePath) (text : List Char) : FilePath :=
  if text.head? = some '/' then components text
  else path ++ (components text).filter (· ≠ ['.'])

def Below (dir path : FilePath) : Prop := dir <+: path ∧ path ≠ dir
deriving Decidable

def Apart (path other : FilePath) : Prop := ¬ path <+: other ∧ ¬ other <+: path
deriving Decidable

theorem Apart.mono {p o below : FilePath} (h : Apart p o) (hb : o <+: below) : Apart p below := by
  constructor
  · intro hp
    rcases prefix_or_prefix_of_prefix hp hb with hle | hle
    · exact h.1 hle
    · exact h.2 hle
  · intro hp
    exact h.2 (hb.trans hp)

end FilePath

end ShareCli.Foundation
