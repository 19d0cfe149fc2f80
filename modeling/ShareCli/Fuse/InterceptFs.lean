import Mathlib.Data.List.Perm.Basic
import ShareCli.Foundation.FileSystem
import ShareCli.Fuse.AgentCow
import ShareCli.Fuse.Caches
import ShareCli.Fuse.InodeMap

/-!
# The intercept filesystem (`InterceptFs` in `crates/sharecli-fuse/src/lib.rs`)

`InterceptFs` mirrors a backing directory. It keeps the inode numbers, the read cache, the negative
dentries and the staged writes in memory and passes everything else on to the disk. The methods that end in
`rel` take a path relative to the backing directory.

Paths are lists of names without dots, and the backing directory has no links. Owners, modes and the times
other than the modification time are not modelled.
-/

namespace ShareCli.Fuse

open Foundation FilePath

/-- The options of a mount. -/
structure InterceptFsOptions where
  sessionId : List Char
  cow : Bool
  cowDir : Option FilePath
  agent : Option (List Char)
  serialize : Bool

/-- One mounted file system. -/
structure InterceptFs where
  backing : FilePath
  sessionId : List Char
  inodes : InodeMap
  readCache : ReadContentCache
  negDentry : NegativeDentryCache
  cow : AgentCowStore

def defaultSessionId (pid : Nat) : List Char := "sharecli-".toList ++ Nat.toDigits 10 pid

def absUnder (backing rel : FilePath) : FilePath := backing ++ rel

def InodeMap.absPath (map : InodeMap) (backing : FilePath) (ino : UInt64) : Option FilePath :=
  (map.resolve ino).map (absUnder backing)

def InterceptFs.withOptions (backing : FilePath) (opts : InterceptFsOptions) (pid : Nat) (d : Disk) :
    InterceptFs × Disk :=
  let sessionId := if opts.sessionId = [] then defaultSessionId pid else opts.sessionId
  let defaultAgent := opts.agent.getD sessionId
  let cowRoot := opts.cowDir.getD
    (if opts.cow then backing ++ [".sharecli-cow".toList]
      else backing ++ [".sharecli-cow-staging".toList])
  let (cow, d) := AgentCowStore.new cowRoot defaultAgent opts.serialize d
  ({ backing, sessionId, inodes := .new, readCache := .new,
     negDentry := .withTtl defaultNegTtl, cow }, d)

def attrSession : String := "user.sharecli.session"

def attrWrittenAt : String := "user.sharecli.written_at"

/-- Times are in nanoseconds and recorded in seconds. -/
def annotateWrite (path : FilePath) (sessionId : List Char) : DiskM Unit := do
  let now ← DiskM.clock
  if sessionId = [] then DiskM.throw .einval
  else do
    DiskM.setAttr path attrSession (Text.encodeUtf8 sessionId)
    DiskM.setAttr path attrWrittenAt (Text.encodeUtf8 (Nat.toDigits 10 (now / 10 ^ 9)))

/-- A mount and the disk. -/
structure FsWorld where
  fs : InterceptFs
  disk : Disk

def FsM (ε α : Type) := FsWorld → Except ε α × FsWorld

namespace FsM

variable {ε ε' α γ : Type}

def pure (a : α) : FsM ε α := fun w => (.ok a, w)

def bind (x : FsM ε α) (f : α → FsM ε γ) : FsM ε γ := fun w =>
  match x w with
  | (.ok a, w) => f a w
  | (.error e, w) => (.error e, w)

instance : Monad (FsM ε) where
  pure := pure
  bind := bind

def throw (e : ε) : FsM ε α := fun w => (.error e, w)

def attempt (x : FsM ε α) : FsM ε (Except ε α) := fun w => (.ok (x w).1, (x w).2)

def mapError (f : ε → ε') (x : FsM ε α) : FsM ε' α := fun w => ((x w).1.mapError f, (x w).2)

def onDisk (x : DiskM α) : FsM Errno α := fun w =>
  let (result, disk) := x w.disk
  (result, { w with disk })

def ask (f : InterceptFs → α) : FsM ε α := fun w => (.ok (f w.fs), w)

def modify (f : InterceptFs → InterceptFs) : FsM ε Unit := fun w => (.ok (), { w with fs := f w.fs })

end FsM

section Caches

variable {ε : Type}

def isNegative (rel : FilePath) : FsM ε Bool := fun w =>
  let (negative, negDentry) := w.fs.negDentry.isNegative rel w.disk.now
  (.ok negative, { fs := { w.fs with negDentry }, disk := w.disk.tick })

def rememberMiss (rel : FilePath) : FsM ε Unit := fun w =>
  (.ok (), { fs := { w.fs with negDentry := w.fs.negDentry.rememberMiss rel w.disk.now },
             disk := w.disk.tick })

def invalidateNegRel (rel : FilePath) : FsM ε Unit :=
  FsM.modify fun fs => { fs with negDentry := fs.negDentry.invalidate rel }

def invalidateRead (path : FilePath) : FsM ε Unit :=
  FsM.modify fun fs => { fs with readCache := fs.readCache.invalidate path }

def readCoalesced (path : FilePath) : FsM Errno (List UInt8) := fun w =>
  let (result, readCache, disk) := w.fs.readCache.readCoalesced path w.disk
  (result, { fs := { w.fs with readCache }, disk })

def readSlice (path : FilePath) (offset size : Nat) : FsM Errno (List UInt8) := fun w =>
  let (result, readCache, disk) := w.fs.readCache.readSlice path offset size w.disk
  (result, { fs := { w.fs with readCache }, disk })

end Caches

def onCow {ε α : Type} (op : AgentCowStore → Disk → Except ε α × AgentCowStore × Disk) : FsM ε α :=
  fun w =>
    let (result, cow, disk) := op w.fs.cow w.disk
    (result, { fs := { w.fs with cow }, disk })

def inodesChange (f : InodeMap → InodeMap) : FsM Errno Unit :=
  FsM.modify fun fs => { fs with inodes := f fs.inodes }

def allocOrGet (rel : FilePath) : FsM Errno UInt64 := fun w =>
  let (ino, inodes) := w.fs.inodes.allocOrGet rel
  (.ok ino, { w with fs := { w.fs with inodes } })

def absPath (ino : UInt64) : FsM Errno FilePath := fun w =>
  match w.fs.inodes.absPath w.fs.backing ino with
  | some path => (.ok path, w)
  | none => (.error .enoent, w)

def childRel (parent : UInt64) (name : List Char) : FsM Errno FilePath := fun w =>
  match w.fs.inodes.childRel parent name with
  | some rel => (.ok rel, w)
  | none => (.error .enoent, w)

def lookupOrAlloc (parent : UInt64) (name : List Char) : FsM Errno (UInt64 × FilePath) := fun w =>
  match w.fs.inodes.lookupOrAlloc parent name with
  | (some found, inodes) => (.ok found, { w with fs := { w.fs with inodes } })
  | (none, inodes) => (.error .enoent, { w with fs := { w.fs with inodes } })

section Methods

variable {ε : Type}

def absRel (rel : FilePath) : FsM ε FilePath := FsM.ask fun fs => absUnder fs.backing rel

def existsRel (rel : FilePath) : FsM Errno Bool := do
  if ← isNegative rel then pure false
  else do
    let abs ← absRel rel
    match ← (FsM.onDisk (DiskM.metadata abs)).attempt with
    | .ok _ => do
      invalidateNegRel rel
      pure true
    | .error .enoent => do
      rememberMiss rel
      pure false
    | .error e => FsM.throw e

def readCoalescedRel (rel : FilePath) : FsM Errno (List UInt8) := do
  readCoalesced (← absRel rel)

variable (stagingName : FilePath → List Char)

def stageRelForAgent (agent : Option (List Char)) (rel : FilePath) (contents : List UInt8) :
    FsM WriteSerializeError Unit := do
  let abs ← absRel rel
  onCow fun cow => cow.stageBytes stagingName agent abs contents

/-- The file of a commit is annotated, and then its cached bytes are dropped. -/
def annotateCommitted (abs : FilePath) : FsM WriteSerializeError Unit := do
  let sessionId ← FsM.ask InterceptFs.sessionId
  (FsM.onDisk (annotateWrite abs sessionId)).mapError .io
  invalidateRead abs

def commitRelForAgent (agent : Option (List Char)) (rel : FilePath) : FsM WriteSerializeError Unit := do
  let abs ← absRel rel
  onCow fun cow => cow.commitPending agent abs
  annotateCommitted abs

def annotateAll : List FilePath → FsM WriteSerializeError Unit
  | [] => pure ()
  | abs :: paths => do
    annotateCommitted abs
    annotateAll paths

def stripBacking (backing : FilePath) (paths : List FilePath) : List FilePath :=
  paths.filterMap fun path => if backing <+: path then some (path.drop backing.length) else none

/-- `paths` are the pending paths in the order in which the map yields them. -/
def commitAllForAgent (agent : Option (List Char)) (paths : List FilePath) :
    FsM WriteSerializeError (List FilePath) := do
  let absPaths ← onCow fun cow => cow.commitAllForAgent agent paths
  annotateAll absPaths
  FsM.ask fun fs => stripBacking fs.backing absPaths

def discardRelForAgent (agent : Option (List Char)) (rel : FilePath) : FsM WriteSerializeError Unit := do
  let abs ← absRel rel
  onCow fun cow => cow.discardPending agent abs

def discardAllForAgent (agent : Option (List Char)) (paths : List FilePath) :
    FsM WriteSerializeError (List FilePath) := do
  let absPaths ← onCow fun cow => cow.discardAllForAgent agent paths
  FsM.ask fun fs => stripBacking fs.backing absPaths

def writeLocked (path : FilePath) (offset : Nat) (data : List UInt8) (sessionId : List Char) :
    DiskM UInt32 := do
  DiskM.openWrite path
  DiskM.touch
  DiskM.writeAll path offset data
  annotateWrite path sessionId
  pure (UInt32.ofNat data.length)

def writePath (path : FilePath) (offset : Nat) (data : List UInt8) : FsM Errno UInt32 := do
  let sessionId ← FsM.ask InterceptFs.sessionId
  let n ← onCow fun cow => cow.withLockedPath none (writeLocked path offset data sessionId)
  invalidateRead path
  pure n

def writeRel (rel : FilePath) (offset : Nat) (data : List UInt8) : FsM Errno UInt32 := do
  writePath (← absRel rel) offset data

def afterCreateAt (rel abs : FilePath) : FsM Errno Unit := do
  let sessionId ← FsM.ask InterceptFs.sessionId
  FsM.onDisk (annotateWrite abs sessionId)
  invalidateNegRel rel
  invalidateRead abs

def createRel (rel : FilePath) : FsM Errno Unit := do
  let abs ← absRel rel
  FsM.onDisk (DiskM.createDirAll abs.dropLast)
  FsM.onDisk (DiskM.createNew abs)
  afterCreateAt rel abs

end Methods

inductive FileType where
  | directory
  | regularFile
deriving DecidableEq

/-- The attributes of a reply. -/
structure FileAttr where
  ino : UInt64
  size : Nat
  mtime : Nat
  kind : FileType
deriving DecidableEq

def metaKind (stat : Metadata) : FileType := if stat.isFile then .regularFile else .directory

def metadataToAttr (ino : UInt64) (stat : Metadata) : FileAttr :=
  { ino, size := stat.len, mtime := stat.mtime, kind := metaKind stat }

variable (parent : UInt64)

def lookup (name : List Char) : FsM Errno FileAttr := do
  let rel ← childRel parent name
  if ← isNegative rel then FsM.throw .enoent
  else do
    let (ino, rel) ← lookupOrAlloc parent name
    let path ← absRel rel
    match ← (FsM.onDisk (DiskM.metadata path)).attempt with
    | .ok stat => do
      invalidateNegRel rel
      pure (metadataToAttr ino stat)
    | .error e => do
      if e = .enoent then rememberMiss rel
      inodesChange (·.removeRel rel)
      FsM.throw e

def getattr (ino : UInt64) : FsM Errno FileAttr := do
  let path ← absPath ino
  let stat ← FsM.onDisk (DiskM.metadata path)
  pure (metadataToAttr ino stat)

/-- Of the mode it only matters whether it is given. -/
def setattr (ino : UInt64) (mode size : Option Nat) : FsM Errno FileAttr := do
  let path ← absPath ino
  match size with
  | some newSize => FsM.onDisk do
    DiskM.openWrite path
    DiskM.setLen path newSize
  | none => pure ()
  match mode with
  | some _ => FsM.onDisk (DiskM.setPermissions path)
  | none => pure ()
  let stat ← FsM.onDisk (DiskM.metadata path)
  invalidateRead path
  pure (metadataToAttr ino stat)

def openFile (ino : UInt64) : FsM Errno UInt64 := do
  let path ← absPath ino
  let stat ← FsM.onDisk (DiskM.metadata path)
  if stat.isFile then pure ino else FsM.throw .eisdir

def read (ino : UInt64) (offset size : Nat) : FsM Errno (List UInt8) := do
  let path ← absPath ino
  readSlice path offset size

def write (ino : UInt64) (offset : Nat) (data : List UInt8) : FsM Errno UInt32 := do
  let path ← absPath ino
  writePath path offset data

structure DirEntry where
  ino : UInt64
  kind : FileType
  name : List Char
deriving DecidableEq

def parentIno (ino : UInt64) (rel : FilePath) : FsM Errno UInt64 :=
  if ino = rootIno then pure rootIno else allocOrGet rel.dropLast

def listEntries (rel : FilePath) : List FilePath → FsM Errno (List DirEntry)
  | [] => pure []
  | child :: listing => do
    let name := child.getLastD []
    let ino ← allocOrGet (joinRel rel name)
    let stat ← (FsM.onDisk (DiskM.metadata child)).attempt
    let kind : FileType := match stat with
      | .ok stat => metaKind stat
      | .error (_ : Errno) => .regularFile
    let rest ← listEntries rel listing
    pure ({ ino, kind, name } :: rest)

/-- `listing` are the paths in the order in which the disk yields them, and `capacity` is the number of entries
that the answer has room for. -/
def readdir (ino : UInt64) (offset capacity : Nat) (listing : List FilePath) : FsM Errno (List DirEntry) := do
  let map ← FsM.ask InterceptFs.inodes
  match map.resolve ino with
  | none => FsM.throw .enoent
  | some rel => do
    let parent ← parentIno ino rel
    let path ← absRel rel
    let _ ← FsM.onDisk (DiskM.readDir path)
    let children ← listEntries rel listing
    let entries := { ino, kind := .directory, name := ['.'] } ::
      { ino := parent, kind := .directory, name := ['.', '.'] } :: children
    pure ((entries.drop offset).take capacity)

def mkdir (name : List Char) : FsM Errno FileAttr := do
  let rel ← childRel parent name
  let path ← absRel rel
  FsM.onDisk (DiskM.createDir path)
  let _ ← (FsM.onDisk (DiskM.setPermissions path)).attempt
  invalidateNegRel rel
  let ino ← allocOrGet rel
  let stat ← FsM.onDisk (DiskM.metadata path)
  pure (metadataToAttr ino stat)

def installCreatedEntry (rel path : FilePath) : FsM Errno FileAttr := do
  let ino ← allocOrGet rel
  let stat ← FsM.onDisk (DiskM.metadata path)
  pure (metadataToAttr ino stat)

/-- A new file that cannot be annotated is removed, if that works. -/
def create (name : List Char) : FsM Errno FileAttr := do
  let rel ← childRel parent name
  let path ← absRel rel
  (FsM.onDisk (DiskM.createDirAll path.dropLast)).mapError fun _ => .eio
  FsM.onDisk (DiskM.createNew path)
  match ← (afterCreateAt rel path).attempt with
  | .error e => do
    let _ ← (FsM.onDisk (DiskM.removeFile path)).attempt
    FsM.throw e
  | .ok () => installCreatedEntry rel path

/-- Only regular files can be made. -/
def mknod (name : List Char) (mode : UInt32) : FsM Errno FileAttr :=
  if mode &&& 0o170000 ≠ 0o100000 then FsM.throw .eperm else create parent name

def unlink (name : List Char) : FsM Errno Unit := do
  let rel ← childRel parent name
  let path ← absRel rel
  FsM.onDisk (DiskM.removeFile path)
  invalidateRead path
  rememberMiss rel
  inodesChange (·.removeRel rel)

def rmdir (name : List Char) : FsM Errno Unit := do
  let rel ← childRel parent name
  let path ← absRel rel
  FsM.onDisk (DiskM.removeDir path)
  rememberMiss rel
  inodesChange (·.removeRel rel)

def rename (parent : UInt64) (name : List Char) (newparent : UInt64) (newname : List Char) :
    FsM Errno Unit := do
  let oldRel ← childRel parent name
  let newRel ← childRel newparent newname
  let oldPath ← absRel oldRel
  let newPath ← absRel newRel
  FsM.onDisk (DiskM.rename oldPath newPath)
  invalidateRead oldPath
  invalidateRead newPath
  rememberMiss oldRel
  invalidateNegRel newRel
  inodesChange (·.renameRel oldRel newRel)

/-- The operations of a mount. -/
inductive FsOp where
  | existsRel (rel : FilePath)
  | readCoalescedRel (rel : FilePath)
  | stageRelForAgent (agent : Option (List Char)) (rel : FilePath) (contents : List UInt8)
  | commitRelForAgent (agent : Option (List Char)) (rel : FilePath)
  | commitAllForAgent (agent : Option (List Char)) (paths : List FilePath)
  | discardRelForAgent (agent : Option (List Char)) (rel : FilePath)
  | discardAllForAgent (agent : Option (List Char)) (paths : List FilePath)
  | writeRel (rel : FilePath) (offset : Nat) (data : List UInt8)
  | createRel (rel : FilePath)
  | lookup (parent : UInt64) (name : List Char)
  | getattr (ino : UInt64)
  | setattr (ino : UInt64) (mode size : Option Nat)
  | openFile (ino : UInt64)
  | read (ino : UInt64) (offset size : Nat)
  | write (ino : UInt64) (offset : Nat) (data : List UInt8)
  | readdir (ino : UInt64) (offset capacity : Nat) (listing : List FilePath)
  | mkdir (parent : UInt64) (name : List Char)
  | create (parent : UInt64) (name : List Char)
  | mknod (parent : UInt64) (name : List Char) (mode : UInt32)
  | unlink (parent : UInt64) (name : List Char)
  | rmdir (parent : UInt64) (name : List Char)
  | rename (parent : UInt64) (name : List Char) (newparent : UInt64) (newname : List Char)
deriving DecidableEq

structure FsState where
  fs : InterceptFs
  tree : FileTree FileBody
  device : FilePath → Nat

def FsState.world (s : FsState) (fates : Stream' Fate) : FsWorld :=
  { fs := s.fs, disk := { tree := s.tree, device := s.device, fates } }

def FsWorld.state (w : FsWorld) : FsState := { fs := w.fs, tree := w.disk.tree, device := w.disk.device }

def FsOp.perform (stagingName : FilePath → List Char) (op : FsOp) (w : FsWorld) : FsWorld :=
  match op with
  | .existsRel rel => (Fuse.existsRel rel w).2
  | .readCoalescedRel rel => (Fuse.readCoalescedRel rel w).2
  | .stageRelForAgent agent rel contents =>
    (Fuse.stageRelForAgent stagingName agent rel contents w).2
  | .commitRelForAgent agent rel => (Fuse.commitRelForAgent agent rel w).2
  | .commitAllForAgent agent paths => (Fuse.commitAllForAgent agent paths w).2
  | .discardRelForAgent agent rel => (Fuse.discardRelForAgent agent rel w).2
  | .discardAllForAgent agent paths => (Fuse.discardAllForAgent agent paths w).2
  | .writeRel rel offset data => (Fuse.writeRel rel offset data w).2
  | .createRel rel => (Fuse.createRel rel w).2
  | .lookup parent name => (Fuse.lookup parent name w).2
  | .getattr ino => (Fuse.getattr ino w).2
  | .setattr ino mode size => (Fuse.setattr ino mode size w).2
  | .openFile ino => (Fuse.openFile ino w).2
  | .read ino offset size => (Fuse.read ino offset size w).2
  | .write ino offset data => (Fuse.write ino offset data w).2
  | .readdir ino offset capacity listing => (Fuse.readdir ino offset capacity listing w).2
  | .mkdir parent name => (Fuse.mkdir parent name w).2
  | .create parent name => (Fuse.create parent name w).2
  | .mknod parent name mode => (Fuse.mknod parent name mode w).2
  | .unlink parent name => (Fuse.unlink parent name w).2
  | .rmdir parent name => (Fuse.rmdir parent name w).2
  | .rename parent name newparent newname =>
    (Fuse.rename parent name newparent newname w).2

def FsOp.isAdmissible (op : FsOp) (s : FsState) : Bool :=
  match op with
  | .existsRel rel | .readCoalescedRel rel | .stageRelForAgent _ rel _ | .commitRelForAgent _ rel
  | .discardRelForAgent _ rel | .writeRel rel _ _ | .createRel rel => rel.all isPlain
  | .commitAllForAgent agent paths | .discardAllForAgent agent paths =>
    decide (paths.Perm (s.fs.cow.pendingForAgent agent))
  | .readdir ino _ _ listing =>
    match s.fs.inodes.absPath s.fs.backing ino with
    | some path => decide (listing.Perm (s.tree.children path))
    | none => true
  | .lookup _ name | .mkdir _ name | .create _ name | .mknod _ name _ | .unlink _ name
  | .rmdir _ name => isPlain name
  | .rename _ name _ newname => isPlain name && isPlain newname
  | .getattr _ | .setattr _ _ _ | .openFile _ | .read _ _ _ | .write _ _ _ => true

structure FsStep where
  op : FsOp
  fates : Stream' Fate

def fsMachine (stagingName : FilePath → List Char) (backing : FilePath) (opts : InterceptFsOptions)
    (pid : Nat) (d : Disk) : Machine FsState FsStep where
  init :=
    let (fs, d) := InterceptFs.withOptions backing opts pid d
    { fs, tree := d.tree, device := d.device }
  step s l :=
    if l.op.isAdmissible s then some (l.op.perform stagingName (s.world l.fates)).state else none

end ShareCli.Fuse
