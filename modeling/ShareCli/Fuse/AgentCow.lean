import ShareCli.Foundation.Disk
import ShareCli.Foundation.Text

/-!
# Copy-on-write staging (`write_serialize.rs` and `agent_cow.rs` in `crates/sharecli-fuse/src`)

Bytes for a backing file are first written to a staging file, and a map remembers which paths have one. A
commit renames the staging file to the backing path, or copies it if the two are on different devices.
Staging names are given by a function of the path. The calls of one run are made one after the other.
-/

namespace ShareCli.Fuse

open Foundation

def sanitizeAgentId (agent : List Char) : List Char :=
  let trimmed := Text.trim agent
  if trimmed = [] then "default".toList
  else
    trimmed.map fun c =>
      if c.isAlphanum || c = '_' || c = '-' then c else '_'

inductive WriteSerializeError where
  | io (e : Errno)
  | noPending (backing : FilePath)
deriving DecidableEq

/-- The staging of one agent. -/
structure WriteSerialize where
  stagingRoot : FilePath
  pending : AList fun _ : FilePath => FilePath

def writeStaging (staging : FilePath) (contents : List UInt8) : DiskM Unit := do
  DiskM.createDirAll staging.dropLast
  DiskM.createFile staging
  DiskM.writeAll staging 0 contents
  DiskM.touch

def promote (staging backing : FilePath) : DiskM Unit := do
  DiskM.createDirAll backing.dropLast
  match ← (DiskM.rename staging backing).attempt with
  | .ok () => pure ()
  | .error .exdev => do
    DiskM.copy staging backing
    let _ ← (DiskM.removeFile staging).attempt
  | .error e => DiskM.throw e

def dropStaging (staging : FilePath) : DiskM Unit := fun d =>
  match DiskM.pathExists staging d with
  | (true, d) => DiskM.removeFile staging d
  | (false, d) => (.ok (), d)

namespace WriteSerialize

def withStagingRoot (stagingRoot : FilePath) (d : Disk) : WriteSerialize × Disk :=
  ({ stagingRoot, pending := ∅ }, (DiskM.createDirAll stagingRoot d).2)

variable (ws : WriteSerialize)

def forget (backing : FilePath) : WriteSerialize :=
  { ws with pending := ws.pending.erase backing }

variable (stagingName : FilePath → List Char)

def stagingPathFor (ws : WriteSerialize) (backing : FilePath) : FilePath :=
  ws.stagingRoot ++ [stagingName backing]

def stageBytes (ws : WriteSerialize) (backing : FilePath) (contents : List UInt8) (d : Disk) :
    Except WriteSerializeError Unit × WriteSerialize × Disk :=
  let staging := ws.stagingPathFor stagingName backing
  match writeStaging staging contents d with
  | (.error e, d) => (.error (.io e), ws, d)
  | (.ok (), d) => (.ok (), { ws with pending := ws.pending.insert backing staging }, d)

/-- An entry whose staging file is gone is dropped. -/
def commitPending (backing : FilePath) (d : Disk) :
    Except WriteSerializeError Unit × WriteSerialize × Disk :=
  match ws.pending.lookup backing with
  | none => (.error (.noPending backing), ws, d)
  | some staging =>
    match DiskM.pathExists staging d with
    | (false, d) => (.error (.noPending backing), ws.forget backing, d)
    | (true, d) =>
      match promote staging backing d with
      | (.error e, d) => (.error (.io e), ws, d)
      | (.ok (), d) => (.ok (), ws.forget backing, d)

/-- The entry is dropped before the staging file is removed. -/
def discardPending (backing : FilePath) (d : Disk) :
    Except WriteSerializeError Unit × WriteSerialize × Disk :=
  match ws.pending.lookup backing with
  | none => (.error (.noPending backing), ws, d)
  | some staging =>
    match dropStaging staging d with
    | (.error e, d) => (.error (.io e), ws.forget backing, d)
    | (.ok (), d) => (.ok (), ws.forget backing, d)

def pendingBackingPaths : List FilePath := ws.pending.keys

end WriteSerialize

/-- The staging of all agents. -/
structure AgentCowStore where
  cowRoot : FilePath
  defaultAgent : List Char
  /-- Whether writes take the lock of their path. -/
  serialize : Bool
  agents : AList fun _ : List Char => WriteSerialize

namespace AgentCowStore

def new (cowRoot : FilePath) (defaultAgent : List Char) (serialize : Bool) (d : Disk) :
    AgentCowStore × Disk :=
  ({ cowRoot, defaultAgent := sanitizeAgentId defaultAgent, serialize, agents := ∅ },
    (DiskM.createDirAll cowRoot d).2)

variable (store : AgentCowStore)

def agentKey (agent : Option (List Char)) : List Char :=
  sanitizeAgentId (agent.getD store.defaultAgent)

def staged (agent : List Char) (path : FilePath) : Option FilePath :=
  (store.agents.lookup agent).bind fun ws => ws.pending.lookup path

/-- The staging files of an agent, whose directory is made when it is first used. -/
def storeFor (key : List Char) (d : Disk) : WriteSerialize × AgentCowStore × Disk :=
  match store.agents.lookup key with
  | some ws => (ws, store, d)
  | none =>
    let (ws, d) := WriteSerialize.withStagingRoot (store.cowRoot ++ [key]) d
    (ws, { store with agents := store.agents.insert key ws }, d)

def onStore (agent : Option (List Char))
    (op : WriteSerialize → Disk → Except WriteSerializeError Unit × WriteSerialize × Disk) (d : Disk) :
    Except WriteSerializeError Unit × AgentCowStore × Disk :=
  let key := store.agentKey agent
  let (ws, store, d) := store.storeFor key d
  let (result, ws, d) := op ws d
  (result, { store with agents := store.agents.insert key ws }, d)

def pendingForAgent (agent : Option (List Char)) : List FilePath :=
  match store.agents.lookup (store.agentKey agent) with
  | some ws => ws.pendingBackingPaths
  | none => []

variable (stagingName : FilePath → List Char)

def stageBytes (store : AgentCowStore) (agent : Option (List Char)) (backing : FilePath)
    (contents : List UInt8) (d : Disk) : Except WriteSerializeError Unit × AgentCowStore × Disk :=
  store.onStore agent (fun ws => ws.stageBytes stagingName backing contents) d

def commitPending (store : AgentCowStore) (agent : Option (List Char)) (backing : FilePath)
    (d : Disk) : Except WriteSerializeError Unit × AgentCowStore × Disk :=
  store.onStore agent (fun ws => ws.commitPending backing) d

def discardPending (store : AgentCowStore) (agent : Option (List Char)) (backing : FilePath)
    (d : Disk) : Except WriteSerializeError Unit × AgentCowStore × Disk :=
  store.onStore agent (fun ws => ws.discardPending backing) d

def forEach (op : AgentCowStore → FilePath → Disk → Except WriteSerializeError Unit × AgentCowStore × Disk) :
    List FilePath → AgentCowStore → Disk → Except WriteSerializeError Unit × AgentCowStore × Disk
  | [], store, d => (.ok (), store, d)
  | path :: paths, store, d =>
    match op store path d with
    | (.error e, store, d) => (.error e, store, d)
    | (.ok (), store, d) => forEach op paths store d

/-- `paths` are the pending paths in the order in which the map yields them. -/
def commitAllForAgent (agent : Option (List Char)) (paths : List FilePath)
    (d : Disk) : Except WriteSerializeError (List FilePath) × AgentCowStore × Disk :=
  let key := store.agentKey agent
  let (_, store, d) := store.storeFor key d
  let (result, store, d) := forEach (fun store path => store.commitPending (some key) path) paths store d
  (result.map fun _ => paths, store, d)

def discardAllForAgent (agent : Option (List Char)) (paths : List FilePath)
    (d : Disk) : Except WriteSerializeError (List FilePath) × AgentCowStore × Disk :=
  let key := store.agentKey agent
  let (_, store, d) := store.storeFor key d
  let (result, store, d) := forEach (fun store path => store.discardPending (some key) path) paths store d
  (result.map fun _ => paths, store, d)

def withLockedPath {α : Type} (store : AgentCowStore) (agent : Option (List Char)) (f : DiskM α)
    (d : Disk) : Except Errno α × AgentCowStore × Disk :=
  if store.serialize then
    let (_, store, d) := store.storeFor (store.agentKey agent) d
    let (result, d) := f d
    (result, store, d)
  else
    let (result, d) := f d
    (result, store, d)

end AgentCowStore

end ShareCli.Fuse
