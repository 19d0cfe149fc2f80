import ShareCli.Foundation.Decimal
import ShareCli.Fuse.InterceptFs

/-!
# Several filesystems over one backing directory

The disk is common to all. The provenance of a file (`read_provenance` in `provenance.rs`) tells which session
wrote to it last.
-/

namespace ShareCli.Fuse

open Foundation

/-- Who wrote a file. -/
structure WriteProvenance where
  sessionId : List Char
  writtenAtUnix : Nat
deriving DecidableEq

inductive ProvenanceError where
  | sessionUtf8
  | writtenAtUtf8
  | writtenAtParse
deriving DecidableEq

def readProvenance (body : FileBody) : Except ProvenanceError (Option WriteProvenance) :=
  match body.attrs.lookup attrSession with
  | none => .ok none
  | some sessionBytes =>
    match Text.decodeUtf8 sessionBytes with
    | none => .error .sessionUtf8
    | some sessionId =>
      match body.attrs.lookup attrWrittenAt with
      | none => .ok none
      | some writtenBytes =>
        match Text.decodeUtf8 writtenBytes with
        | none => .error .writtenAtUtf8
        | some writtenRaw =>
          match Decimal.parseUnsigned (2 ^ 64) writtenRaw with
          | none => .error .writtenAtParse
          | some writtenAtUnix => .ok (some { sessionId, writtenAtUnix })

def Names (body : FileBody) (sessionId : List Char) : Prop :=
  ∃ writtenAtUnix, readProvenance body = .ok (some { sessionId, writtenAtUnix })

/-- The operation is one of those that change the contents of files, and it succeeds. -/
def FsOp.succeeds (op : FsOp) (w : FsWorld) : Bool :=
  match op with
  | .commitRelForAgent agent rel => (Fuse.commitRelForAgent agent rel w).1.toBool
  | .commitAllForAgent agent paths => (Fuse.commitAllForAgent agent paths w).1.toBool
  | .writeRel rel offset data => (Fuse.writeRel rel offset data w).1.toBool
  | .createRel rel => (Fuse.createRel rel w).1.toBool
  | .setattr ino mode size => (Fuse.setattr ino mode size w).1.toBool
  | .write ino offset data => (Fuse.write ino offset data w).1.toBool
  | .create parent name => (Fuse.create parent name w).1.toBool
  | .mknod parent name mode => (Fuse.mknod parent name mode w).1.toBool
  | _ => false

/-- Mounts over one disk. -/
structure SharedFs where
  instances : List InterceptFs
  tree : FileTree FileBody
  device : FilePath → Nat

def SharedFs.view (s : SharedFs) (index : Nat) : Option FsState :=
  (s.instances[index]?).map fun fs => { fs, tree := s.tree, device := s.device }

def SharedFs.update (s : SharedFs) (index : Nat) (after : FsState) : SharedFs :=
  { instances := s.instances.set index after.fs, tree := after.tree, device := after.device }

/-- The clock says seconds in 64 bits. -/
structure SharedStep where
  index : Nat
  op : FsOp
  fates : Stream' Fate
  clock : ∀ n, (fates.get n).now / 10 ^ 9 < 2 ^ 64

structure Mount where
  opts : InterceptFsOptions
  pid : Nat

def mountAll (backing : FilePath) : List Mount → Disk → List InterceptFs × Disk
  | [], d => ([], d)
  | mount :: mounts, d =>
    let (fs, d) := InterceptFs.withOptions backing mount.opts mount.pid d
    let (instances, d) := mountAll backing mounts d
    (fs :: instances, d)

def sharedMachine (stagingName : FilePath → List Char) (backing : FilePath) (mounts : List Mount) (d : Disk) :
    Machine SharedFs SharedStep where
  init :=
    let (instances, d) := mountAll backing mounts d
    { instances, tree := d.tree, device := d.device }
  step s l :=
    (s.view l.index).bind fun v =>
      if l.op.isAdmissible v then
        some (s.update l.index (l.op.perform stagingName (v.world l.fates)).state)
      else none

end ShareCli.Fuse
