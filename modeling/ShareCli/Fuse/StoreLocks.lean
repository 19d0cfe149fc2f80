import ShareCli.Foundation.Locks
import ShareCli.Fuse.AgentCow

/-!
# The locks of the copy-on-write store (`agent_cow.rs` and `write_serialize.rs` in `crates/sharecli-fuse/src`)

A call locks the map of the agents and keeps it until it returns. `locks` is held while the lock of a path is
looked up, the lock of the path while its files are read or written, `pending` around each access to the map of
the staged paths. Of the data there is what decides how a call goes on: which paths an agent has staged.
-/

namespace ShareCli.Fuse

open Foundation

inductive StoreLock where
  | agents
  | locks (agent : List Char)
  | path (agent : List Char) (backing : FilePath)
  | pending (agent : List Char)
deriving DecidableEq

inductive StoreWork where
  | storeFor (agent : List Char)
  | lockArc (agent : List Char) (backing : FilePath)
  /-- The backing file or its staging file is read or written, or the function of a caller runs. -/
  | touch (backing : FilePath)
  | insert (agent : List Char) (backing : FilePath)
  | get (agent : List Char) (backing : FilePath)
  | remove (agent : List Char) (backing : FilePath)
  /-- Removed, which is an error if it is not there. -/
  | take (agent : List Char) (backing : FilePath)
  | commitEach (agent : List Char) (order : List FilePath)
  | discardEach (agent : List Char) (order : List FilePath)
deriving DecidableEq

inductive StoreCall where
  | stageBytes (agent : Option (List Char)) (backing : FilePath)
  | commitPending (agent : Option (List Char)) (backing : FilePath)
  | discardPending (agent : Option (List Char)) (backing : FilePath)
  /-- The order in which the map yields the staged paths, if it is one. -/
  | commitAllForAgent (agent : Option (List Char)) (order : List FilePath)
  | discardAllForAgent (agent : Option (List Char)) (order : List FilePath)
  | withLockedPath (agent : Option (List Char)) (path : FilePath)

abbrev Staged : Type := List (List Char × FilePath)

def Staged.pendingBackingPaths (staged : Staged) (agent : List Char) (order : List FilePath) : List FilePath :=
  let paths := (staged.filter fun entry => entry.1 = agent).map Prod.snd
  if order.isPerm paths then order else paths

namespace StoreLock

abbrev Program : Type := List (LockInstr StoreLock StoreWork)

def onStore (agent : List Char) (body : Program) : Program :=
  [.lock .agents, .work (.storeFor agent)] ++ body ++ [.unlock .agents]

def onPending (agent : List Char) (w : StoreWork) : Program :=
  [.lock (.pending agent), .work w, .unlock (.pending agent)]

/-- `lock_arc`, then the body under the lock of the path. -/
def underPath (agent : List Char) (backing : FilePath) (body : Program) : Program :=
  [.lock (.locks agent), .work (.lockArc agent backing), .unlock (.locks agent), .lock (.path agent backing)] ++
    body ++ [.unlock (.path agent backing)]

def stageBytes (agent : List Char) (backing : FilePath) : Program :=
  onStore agent (underPath agent backing (.work (.touch backing) :: onPending agent (.insert agent backing)))

/-- The entry is removed after the staging file has been renamed, or has been found missing. -/
def commitPending (agent : List Char) (backing : FilePath) : Program :=
  onStore agent (underPath agent backing
    (onPending agent (.get agent backing) ++
      .work (.touch backing) :: onPending agent (.remove agent backing)))

def discardPending (agent : List Char) (backing : FilePath) : Program :=
  onStore agent (underPath agent backing (onPending agent (.take agent backing) ++ [.work (.touch backing)]))

def withLockedPath (agent : List Char) (path : FilePath) : Program :=
  onStore agent (underPath agent path [.work (.touch path)])

end StoreLock

namespace AgentCowStore

variable (store : AgentCowStore)

/-- Only `with_locked_path` asks whether writes are serialized. -/
def program : StoreCall → StoreLock.Program
  | .stageBytes agent backing => StoreLock.stageBytes (store.agentKey agent) backing
  | .commitPending agent backing => StoreLock.commitPending (store.agentKey agent) backing
  | .discardPending agent backing => StoreLock.discardPending (store.agentKey agent) backing
  | .commitAllForAgent agent order =>
    let key := store.agentKey agent
    StoreLock.onStore key (StoreLock.onPending key (.commitEach key order))
  | .discardAllForAgent agent order =>
    let key := store.agentKey agent
    StoreLock.onStore key (StoreLock.onPending key (.discardEach key order))
  | .withLockedPath agent path =>
    if store.serialize then StoreLock.withLockedPath (store.agentKey agent) path
    else [.work (.touch path)]

/-- The calls for the listed paths come after the guard of the listing has been dropped. -/
def perform (w : StoreWork) (staged : Staged) : Option StoreLock.Program × Staged :=
  match w with
  | .storeFor _ | .lockArc _ _ | .touch _ => (some [], staged)
  | .insert agent backing => (some [], staged.insert (agent, backing))
  | .get agent backing => (if staged.contains (agent, backing) then some [] else none, staged)
  | .remove agent backing => (some [], staged.erase (agent, backing))
  | .take agent backing =>
    (if staged.contains (agent, backing) then some [] else none, staged.erase (agent, backing))
  | .commitEach agent order =>
    (some ((staged.pendingBackingPaths agent order).flatMap
      (StoreLock.commitPending (store.agentKey (some agent)))), staged)
  | .discardEach agent order =>
    (some ((staged.pendingBackingPaths agent order).flatMap
      (StoreLock.discardPending (store.agentKey (some agent)))), staged)

def system : LockSystem StoreLock StoreWork Staged StoreCall where
  program := store.program
  perform := store.perform

def stagedPaths : Staged :=
  store.agents.entries.flatMap fun entry => entry.2.pendingBackingPaths.map (Prod.mk entry.1)

def threads (count : Nat) :
    Machine (LockState StoreLock StoreWork Staged) (LockEvent StoreCall) :=
  lockMachine store.system store.stagedPaths count

end AgentCowStore

/-- The thread holds the lock of the path, of whichever agent, or it is at work on the files of the path. -/
def Inside (backing : FilePath) (t : LockThread StoreLock StoreWork) : Prop :=
  (∃ agent, StoreLock.path agent backing ∈ t.held) ∨
    ∃ rest, t.program = LockInstr.work (StoreWork.touch backing) :: rest

end ShareCli.Fuse
