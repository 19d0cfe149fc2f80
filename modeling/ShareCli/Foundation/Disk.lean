import Mathlib.Data.List.AList
import Mathlib.Data.Stream.Defs
import ShareCli.Foundation.FileTree

/-!
# System calls that can fail

A disk is a tree of files with what the environment will decide about the calls to come: what the clock
says, and whether the call fails and how much of its work it has done by then. A program (`DiskM`) stops at the
first error; what the calls before it did stays.
-/

namespace ShareCli.Foundation

/-- Bytes, mode, time and attributes. -/
structure FileBody where
  bytes : List UInt8
  mtime : Nat
  attrs : AList fun _ : String => List UInt8

namespace FileBody

def fresh (now : Nat) : FileBody := { bytes := [], mtime := now, attrs := ∅ }

/-- A gap is filled with zeros. -/
def overwrite (bytes : List UInt8) (offset : Nat) (data : List UInt8) : List UInt8 :=
  bytes.take offset ++ List.replicate (offset - bytes.length) 0 ++ data ++ bytes.drop (offset + data.length)

/-- A write of nothing does not touch the file. -/
def writeAt (body : FileBody) (offset : Nat) (data : List UInt8) (now : Nat) : FileBody :=
  if data = [] then body else { body with bytes := overwrite body.bytes offset data, mtime := now }

def setLen (body : FileBody) (size : Nat) (now : Nat) : FileBody :=
  { body with
    bytes := body.bytes.take size ++ List.replicate (size - body.bytes.length) 0
    mtime := now }

def setAttr (body : FileBody) (name : String) (value : List UInt8) : FileBody :=
  { body with attrs := body.attrs.insert name value }

/-- An existing file that is opened anew for writing becomes empty and keeps its attributes. -/
def replaced (old : Option FileBody) (bytes : List UInt8) (now : Nat) : FileBody :=
  { bytes, mtime := now, attrs := (old.map FileBody.attrs).getD ∅ }

end FileBody

/-- The time, and whether the call fails after so much work. -/
structure Fate where
  now : Nat
  failure : Option Nat
deriving DecidableEq

def Fate.calm : Stream' Fate := fun _ => { now := 0, failure := none }

/-- A tree with a clock and failing calls. -/
structure Disk where
  tree : FileTree FileBody
  device : FilePath → Nat
  fates : Stream' Fate

namespace Disk

def now (d : Disk) : Nat := d.fates.head.now

def tick (d : Disk) : Disk := { d with fates := d.fates.tail }

end Disk

/-- What `stat` says; the time of a directory is not determined. -/
structure Metadata where
  isFile : Bool
  len : Nat
  mtime : Nat
deriving DecidableEq

def DiskM (α : Type) := Disk → Except Errno α × Disk

namespace DiskM

variable {α γ : Type}

def pure (a : α) : DiskM α := fun d => (.ok a, d)

def bind (x : DiskM α) (f : α → DiskM γ) : DiskM γ := fun d =>
  match x d with
  | (.ok a, d) => f a d
  | (.error e, d) => (.error e, d)

instance : Monad DiskM where
  pure := pure
  bind := bind

def throw (e : Errno) : DiskM α := fun d => (.error e, d)

def attempt (x : DiskM α) : DiskM (Except Errno α) := fun d => (.ok (x d).1, (x d).2)

def clock : DiskM Nat := fun d => (.ok d.now, d.tick)

def call (effect : Nat → FileTree FileBody → Except Errno (α × FileTree FileBody)) : DiskM α :=
  fun d =>
    match d.fates.head.failure with
    | some _ => (.error .eio, d.tick)
    | none =>
      match effect d.now d.tree with
      | .error e => (.error e, d.tick)
      | .ok (a, tree) => (.ok a, { d.tick with tree })

def ask (query : Nat → FileTree FileBody → Except Errno α) : DiskM α :=
  call fun now tree => (query now tree).map fun a => (a, tree)

def change (effect : Nat → FileTree FileBody → Except Errno (FileTree FileBody)) : DiskM Unit :=
  call fun now tree => (effect now tree).map fun tree => ((), tree)

/-- The work done before a failure is `effect` with the measure that the environment chooses, all of it is `effect`
without. -/
def changePartly
    (effect : Option Nat → Nat → FileTree FileBody → Option Errno × FileTree FileBody) : DiskM Unit :=
  fun d =>
    let outcome := effect d.fates.head.failure d.now d.tree
    let result :=
      match d.fates.head.failure, outcome.1 with
      | some _, _ => .error .eio
      | none, some e => .error e
      | none, none => .ok ()
    (result, { d.tick with tree := outcome.2 })

def orUnchanged (tree : FileTree FileBody) (result : Except Errno (FileTree FileBody)) :
    Option Errno × FileTree FileBody :=
  match result with
  | .error e => (some e, tree)
  | .ok tree => (none, tree)

def metadata (path : FilePath) : DiskM Metadata :=
  ask fun now tree => (tree.stat path).map fun
    | .dir => { isFile := false, len := 0, mtime := now }
    | .file body => { isFile := true, len := body.bytes.length, mtime := body.mtime }

/-- `Path::exists`: an error counts as no. -/
def pathExists (path : FilePath) (d : Disk) : Bool × Disk := ((metadata path d).1.toBool, (metadata path d).2)

def read (path : FilePath) : DiskM (List UInt8) := ask fun _ tree => (tree.readFile path).map FileBody.bytes

def openWrite (path : FilePath) : DiskM Unit := ask fun _ tree => (tree.readFile path).map fun _ => ()

/-- A call on an open file that does nothing to what is modelled (`seek`, `sync_all`). -/
def touch : DiskM Unit := ask fun _ _ => .ok ()

def writeAll (path : FilePath) (offset : Nat) (data : List UInt8) : DiskM Unit :=
  changePartly fun failure now tree =>
    orUnchanged tree (tree.modify path fun body =>
      body.writeAt offset ((failure.map data.take).getD data) now)

def setLen (path : FilePath) (size : Nat) : DiskM Unit :=
  change fun now tree => tree.modify path fun body => body.setLen size now

/-- The mode of a file is not modelled. -/
def setPermissions (path : FilePath) : DiskM Unit := ask fun _ tree => (tree.stat path).map fun _ => ()

/-- The attributes of a directory are not modelled. -/
def setAttr (path : FilePath) (name : String) (value : List UInt8) : DiskM Unit :=
  change fun _ tree =>
    if tree.isDir path then .ok tree else tree.modify path fun body => body.setAttr name value

def createFile (path : FilePath) : DiskM Unit :=
  change fun now tree => tree.writeFile path fun old => .replaced old [] now

def createNew (path : FilePath) : DiskM Unit := change fun now tree => tree.createNew path (.fresh now)

def createDir (path : FilePath) : DiskM Unit := change fun _ tree => tree.mkdir path

def createDirAll (path : FilePath) : DiskM Unit :=
  changePartly fun failure _ tree =>
    tree.mkdirs ((failure.map path.inits.take).getD path.inits)

def removeFile (path : FilePath) : DiskM Unit := change fun _ tree => tree.unlink path

def removeDir (path : FilePath) : DiskM Unit := change fun _ tree => tree.rmdir path

/-- Nothing is renamed from one device to another. -/
def rename (old new : FilePath) : DiskM Unit := fun d =>
  (change fun _ tree =>
    if d.device old = d.device new then tree.rename old new else .error .exdev) d

/-- `fs::copy`. It may fail before it has opened the target, or when the target has some of the bytes. -/
def copy (source target : FilePath) : DiskM Unit :=
  changePartly fun failure now tree =>
    match tree.readFile source with
    | .error e => (some e, tree)
    | .ok body =>
      match failure with
      | some 0 => (none, tree)
      | some (n + 1) =>
        orUnchanged tree
          (tree.writeFile target fun old => .replaced old (body.bytes.take n) now)
      | none => orUnchanged tree (tree.writeFile target fun old => .replaced old body.bytes now)

/-- The paths in a directory, in an order that is not determined. -/
def readDir (path : FilePath) : DiskM (List FilePath) :=
  ask fun _ tree =>
    match tree.node path with
    | some .dir => .ok (tree.children path)
    | some (.file _) => .error .enotdir
    | none => .error (tree.absence path)

end DiskM

end ShareCli.Foundation
