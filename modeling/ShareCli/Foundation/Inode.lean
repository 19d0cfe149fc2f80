import Mathlib.Logic.Function.Basic

/-!
# One directory entry and the files it has named

Opening with `create` makes a new file when the path names nothing; unlinking clears the entry, and the file
stays for whoever has it open.
-/

namespace ShareCli.Foundation.Inode

structure Files where
  path : Option Nat
  next : Nat
  contents : Nat → List UInt8

def writeAt (bytes : List UInt8) (cursor : Nat) (data : List UInt8) : List UInt8 :=
  bytes.take cursor ++ List.replicate (cursor - bytes.length) 0 ++ data ++ bytes.drop (cursor + data.length)

namespace Files

variable (fs : Files)

def openFile : Nat := fs.path.getD fs.next

/-- The state after `open` with `create` and without `truncate`. -/
def openCreate : Files :=
  match fs.path with
  | some _ => fs
  | none =>
    { path := some fs.next, next := fs.next + 1, contents := Function.update fs.contents fs.next [] }

def truncate (i : Nat) : Files := { fs with contents := Function.update fs.contents i [] }

def write (i cursor : Nat) (data : List UInt8) : Files :=
  { fs with contents := Function.update fs.contents i (writeAt (fs.contents i) cursor data) }

def unlink : Files := { fs with path := none }

end Files

theorem writeAt_nil (c : Nat) (data : List UInt8) : writeAt [] c data = List.replicate c 0 ++ data := by
  simp [writeAt]

theorem Files.openCreate_path (fs : Files) : fs.openCreate.path = some fs.openFile := by
  unfold openCreate openFile
  split <;> rename_i heq <;> simp [heq]

theorem Files.openCreate_contents (fs : Files) :
    fs.openCreate.contents fs.openFile = (fs.path.map fs.contents).getD [] := by
  unfold openCreate openFile
  split <;> rename_i heq <;> simp [heq]

end ShareCli.Foundation.Inode
