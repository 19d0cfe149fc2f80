import Mathlib.Data.List.Perm.Basic
import ShareCli.Foundation.Machine
import ShareCli.Fuse.AgentCow

/-!
# Runs of the copy-on-write store

No call of a run returns an I/O error. What the store is for is said by `Overlay`: each agent has a map from
paths to the bytes it staged last, over the backing files.
-/

namespace ShareCli.Fuse

open Foundation Function

inductive CowOp where
  | stage (agent : Option (List Char)) (path : FilePath) (contents : List UInt8)
  | commit (agent : Option (List Char)) (path : FilePath)
  | discard (agent : Option (List Char)) (path : FilePath)
  /-- `paths` is the order in which the map of pending paths yields them. -/
  | commitAll (agent : Option (List Char)) (paths : List FilePath)
  | discardAll (agent : Option (List Char)) (paths : List FilePath)
deriving DecidableEq

namespace CowOp

def Outside (cowRoot : FilePath) : CowOp → Prop
  | .stage _ path _ => ¬ cowRoot <+: path
  | _ => True

def touched : CowOp → List FilePath
  | .commit _ path => [path]
  | .commitAll _ paths => paths
  | _ => []

end CowOp

/-- Agents go by their sanitised ids. -/
@[ext] structure Overlay where
  pending : List Char → FilePath → Option (List UInt8)
  files : FilePath → Option (List UInt8)

namespace Overlay

def setPending (o : Overlay) (agent : List Char) (path : FilePath) (bytes : Option (List UInt8)) :
    Overlay :=
  { o with pending := update o.pending agent (update (o.pending agent) path bytes) }

def stage (o : Overlay) (agent : List Char) (path : FilePath) (contents : List UInt8) : Overlay :=
  o.setPending agent path (some contents)

def commit (o : Overlay) (agent : List Char) (path : FilePath) : Overlay :=
  match o.pending agent path with
  | none => o
  | some bytes =>
    { o.setPending agent path none with files := update o.files path (some bytes) }

def discard (o : Overlay) (agent : List Char) (path : FilePath) : Overlay := o.setPending agent path none

def commitAll (o : Overlay) (agent : List Char) : Overlay where
  pending := update o.pending agent fun _ => none
  files path := (o.pending agent path).or (o.files path)

def discardAll (o : Overlay) (agent : List Char) : Overlay :=
  { o with pending := update o.pending agent fun _ => none }

def step (key : Option (List Char) → List Char) (o : Overlay) : CowOp → Overlay
  | .stage agent path contents => o.stage (key agent) path contents
  | .commit agent path => o.commit (key agent) path
  | .discard agent path => o.discard (key agent) path
  | .commitAll agent _ => o.commitAll (key agent)
  | .discardAll agent _ => o.discardAll (key agent)

/-- A commit or a discard of a path that is not pending is refused. -/
def answer (o : Overlay) (agent : List Char) (path : FilePath) : Except WriteSerializeError Unit :=
  match o.pending agent path with
  | none => .error (.noPending path)
  | some _ => .ok ()

def reply (key : Option (List Char) → List Char) (o : Overlay) : CowOp → Except WriteSerializeError Unit
  | .commit agent path => o.answer (key agent) path
  | .discard agent path => o.answer (key agent) path
  | _ => .ok ()

end Overlay

def bytesAt (tree : FileTree FileBody) (path : FilePath) : Option (List UInt8) :=
  (tree.file path).map FileBody.bytes

/-- What is pending is in the staging files; what is in the root of the store is no backing file. -/
def overlayOf (store : AgentCowStore) (tree : FileTree FileBody) : Overlay where
  pending agent path := (store.staged agent path).bind (bytesAt tree)
  files path := if store.cowRoot <+: path then none else bytesAt tree path

structure CowState where
  store : AgentCowStore
  tree : FileTree FileBody
  device : FilePath → Nat

namespace CowState

/-- A disk on which no call fails but for a reason in the tree. -/
def disk (s : CowState) (clock : Stream' Nat) : Disk :=
  { tree := s.tree, device := s.device, fates := fun n => { now := clock n, failure := none } }

def overlay (s : CowState) : Overlay := overlayOf s.store s.tree

def Enabled (s : CowState) : CowOp → Prop
  | .commitAll agent paths | .discardAll agent paths => paths.Perm (s.store.pendingForAgent agent)
  | _ => True

instance (s : CowState) (op : CowOp) : Decidable (s.Enabled op) :=
  match op with
  | .commitAll agent paths => inferInstanceAs (Decidable (paths.Perm (s.store.pendingForAgent agent)))
  | .discardAll agent paths => inferInstanceAs (Decidable (paths.Perm (s.store.pendingForAgent agent)))
  | .stage .. => isTrue trivial
  | .commit .. => isTrue trivial
  | .discard .. => isTrue trivial

def after {α : Type} (s : CowState)
    (outcome : Except WriteSerializeError α × AgentCowStore × Disk) :
    Except WriteSerializeError Unit × CowState :=
  (outcome.1.map fun _ => (), { s with store := outcome.2.1, tree := outcome.2.2.tree })

def perform (stagingName : FilePath → List Char) (s : CowState) (op : CowOp) (clock : Stream' Nat) :
    Except WriteSerializeError Unit × CowState :=
  let d := s.disk clock
  match op with
  | .stage agent path contents => s.after (s.store.stageBytes stagingName agent path contents d)
  | .commit agent path => s.after (s.store.commitPending agent path d)
  | .discard agent path => s.after (s.store.discardPending agent path d)
  | .commitAll agent paths => s.after (s.store.commitAllForAgent agent paths d)
  | .discardAll agent paths => s.after (s.store.discardAllForAgent agent paths d)

end CowState

def isIo : Except WriteSerializeError Unit → Bool
  | .error (.io _) => true
  | _ => false

def cowMachine (stagingName : FilePath → List Char) (cowRoot : FilePath) (defaultAgent : List Char)
    (serialize : Bool) (tree : FileTree FileBody) (device : FilePath → Nat) :
    Machine CowState (CowOp × Stream' Nat) where
  init :=
    let d : Disk := { tree, device, fates := fun _ => { now := 0, failure := none } }
    let (store, d) := AgentCowStore.new cowRoot defaultAgent serialize d
    { store, tree := d.tree, device }
  step s l :=
    if s.Enabled l.1 then
      let outcome := s.perform stagingName l.1 l.2
      if isIo outcome.1 then none else some outcome.2
    else none

end ShareCli.Fuse
