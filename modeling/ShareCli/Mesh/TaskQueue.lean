import Mathlib.Data.List.Sort
import ShareCli.Foundation.Machine
import ShareCli.Foundation.Program
import ShareCli.Foundation.Serde

/-!
# The Maildir task queue (`crates/sharecli-mesh/src/task_queue.rs`)

A task is a file that is written in `tmp`, waits in `new` and is worked on in `cur`. Writing a file is two calls,
one that opens (and empties) it and one that writes. How an envelope is written as JSON and read again is left to
a format (`EnvelopeFormat.Lawful`).
-/

namespace ShareCli.Mesh

open Foundation

/-- `created_at` is the bit pattern of a non-negative floating-point number. -/
structure TaskEnvelope where
  id : String
  payload : Value
  priority : UInt8
  createdAt : UInt64
  attempts : UInt32
  owner : Option String

/-- How an envelope is a text. -/
structure EnvelopeFormat (β : Type) where
  toVecPretty : TaskEnvelope → β
  fromStr : β → Option TaskEnvelope

/-- A floating-point number that is read can be a neighbour of the one written. -/
def TaskEnvelope.SameHeader (envelope envelope' : TaskEnvelope) : Prop :=
  envelope.id = envelope'.id ∧ envelope.priority = envelope'.priority ∧
    envelope.attempts = envelope'.attempts ∧ envelope.owner = envelope'.owner

/-- An envelope is itself an object, in which the payload may nest this deep when it is read. -/
def payloadLimit : Nat := recursionLimit - 2

/-- What `serde_json` is documented to do. -/
structure EnvelopeFormat.Lawful {β : Type} [FileContents β] (format : EnvelopeFormat β) : Prop where
  /-- The end of the text where a value is expected is an error. -/
  empty : format.fromStr FileContents.empty = none
  readable : ∀ envelope : TaskEnvelope, envelope.payload.nesting ≤ payloadLimit →
    ∃ envelope', format.fromStr (format.toVecPretty envelope) = some envelope' ∧ envelope'.SameHeader envelope
  /-- Characters behind the value, as a longer text leaves them when a shorter one is written over it,
  are an error. -/
  overwritten : ∀ old (envelope : TaskEnvelope) envelope',
    format.fromStr (FileContents.overwrite old (format.toVecPretty envelope)) = some envelope' →
      envelope'.id = envelope.id
  /-- A text that nests too deep is an error. -/
  shallow : ∀ contents envelope, format.fromStr contents = some envelope →
    envelope.payload.nesting ≤ payloadLimit

/-- The sizes of the queue. -/
structure MaildirStatus where
  path : FilePath
  ready : Nat
  inFlight : Nat
  pending : Nat
deriving DecidableEq

structure TaskError where
  context : Option String
  source : IoError
deriving DecidableEq

def displayPath (path : FilePath) : String := String.ofList (path.flatMap fun component => '/' :: component)

def displayJoined (path : JoinedPath) : String :=
  if path.text.head? = some '/' then String.ofList path.text
  else displayPath path.directory ++ "/" ++ String.ofList path.text

/-- The order of `claim`: a lower number comes first, then an earlier creation. -/
def TaskEnvelope.before (a b : TaskEnvelope) : Prop :=
  a.priority < b.priority ∨ a.priority = b.priority ∧ a.createdAt ≤ b.createdAt
deriving Decidable

/-- The owner stays when none is given. -/
def TaskEnvelope.claimedBy (envelope : TaskEnvelope) (owner : Option String) :
    TaskEnvelope :=
  { envelope with
    attempts := if envelope.attempts = UInt32.ofNat (2 ^ 32 - 1) then envelope.attempts
      else envelope.attempts + 1
    owner := owner.or envelope.owner }

/-- The queue's directories. -/
structure MaildirQueue where
  path : FilePath
deriving DecidableEq

namespace MaildirQueue

def tmp (queue : MaildirQueue) : FilePath := queue.path ++ ["tmp".toList]

def new (queue : MaildirQueue) : FilePath := queue.path ++ ["new".toList]

def cur (queue : MaildirQueue) : FilePath := queue.path ++ ["cur".toList]

variable {β : Type}

def openIn (queue : MaildirQueue) (fs : FileSystem β) : FileSystem β :=
  [queue.tmp, queue.new, queue.cur].foldl FileSystem.createDirAll fs

variable (queue : MaildirQueue) (format : EnvelopeFormat β)

def enqueue (taskId : String) (now : UInt64) (payload : Value) (priority : UInt8) :
    FsProgram β (Except TaskError String) :=
  let envelope : TaskEnvelope :=
    { id := taskId, payload, priority := min priority 9, createdAt := now, attempts := 0, owner := none }
  let tmpPath := queue.tmp.join taskId
  let newPath := queue.new.join taskId
  .writeFile tmpPath (format.toVecPretty envelope) fun
    | .error e => .done (.error ⟨some s!"write tmp task {displayJoined tmpPath}", e⟩)
    | .ok () =>
      .call (.rename tmpPath newPath) fun
        | .error e => .done (.error ⟨some s!"rename tmp→new for {taskId}", e⟩)
        | .ok () => .done (.ok taskId)

/-- What is no file, cannot be read or is no envelope is passed over. -/
def readEnvelopes (directory : FilePath) (error : Option IoError) :
    List DirEntry → List TaskEnvelope → FsProgram β (Except TaskError (List TaskEnvelope))
  | [], results =>
    match error with
    | some e => .done (.error ⟨none, e⟩)
    | none => .done (.ok results)
  | entry :: entries, results =>
    if entry.isFile then
      .call (.read ⟨directory, entry.name⟩) fun
        | .error _ => readEnvelopes directory error entries results
        | .ok data =>
          match format.fromStr data with
          | none => readEnvelopes directory error entries results
          | some envelope => readEnvelopes directory error entries (results ++ [envelope])
    else readEnvelopes directory error entries results

def listEnvelopes (directory : FilePath) : FsProgram β (Except TaskError (List TaskEnvelope)) :=
  .call (.readDir directory) fun
    | .error .notFound => .done (.ok [])
    | .error e => .done (.error ⟨some s!"read {displayPath directory}", e⟩)
    | .ok listing => readEnvelopes format directory listing.error listing.entries []

def claimFirst (owner : Option String) :
    List TaskEnvelope → FsProgram β (Except TaskError (Option TaskEnvelope))
  | [] => .done (.ok none)
  | envelope :: rest =>
    let newPath := queue.new.join envelope.id
    let curPath := queue.cur.join envelope.id
    .call (.rename newPath curPath) fun
      | .ok () =>
        .writeFile curPath (format.toVecPretty (envelope.claimedBy owner)) fun
          | .error e => .done (.error ⟨some s!"update cur task {displayJoined curPath}", e⟩)
          | .ok () => .done (.ok (some (envelope.claimedBy owner)))
      | .error .notFound => claimFirst owner rest
      | .error e => .done (.error ⟨some s!"claim rename {envelope.id}", e⟩)

def claim (owner : Option String) : FsProgram β (Except TaskError (Option TaskEnvelope)) :=
  (listEnvelopes format queue.new).bind fun
    | .error e => .done (.error e)
    | .ok candidates =>
      claimFirst queue format owner (candidates.insertionSort TaskEnvelope.before)

def ack (taskId : String) : FsProgram β (Except TaskError Unit) :=
  let curPath := queue.cur.join taskId
  .call (.remove curPath) fun
    | .ok () => .done (.ok ())
    | .error .notFound => .done (.ok ())
    | .error e => .done (.error ⟨some s!"ack remove {displayJoined curPath}", e⟩)

def nack (taskId : String) : FsProgram β (Except TaskError Unit) :=
  .call (.rename (queue.cur.join taskId) (queue.new.join taskId)) fun
    | .ok () => .done (.ok ())
    | .error .notFound => .done (.ok ())
    | .error e => .done (.error ⟨some s!"nack rename {taskId}", e⟩)

def listPending : FsProgram β (Except TaskError (List TaskEnvelope)) :=
  (listEnvelopes format queue.new).bind fun
    | .error e => .done (.error e)
    | .ok ready =>
      (listEnvelopes format queue.cur).bind fun
        | .error e => .done (.error e)
        | .ok inFlight => .done (.ok (ready ++ inFlight))

def reclaimEntries (owner : String) (error : Option IoError) :
    List DirEntry → Nat → FsProgram β (Except TaskError Nat)
  | [], reclaimed =>
    match error with
    | some e => .done (.error ⟨none, e⟩)
    | none => .done (.ok reclaimed)
  | entry :: entries, reclaimed =>
    if entry.isFile then
      .call (.read ⟨queue.cur, entry.name⟩) fun
        | .error _ => reclaimEntries owner error entries reclaimed
        | .ok data =>
          match format.fromStr data with
          | none => reclaimEntries owner error entries reclaimed
          | some envelope =>
            if envelope.owner = some owner then
              .call (.rename ⟨queue.cur, entry.name⟩ ⟨queue.new, entry.name⟩) fun
                | .ok () => reclaimEntries owner error entries (reclaimed + 1)
                | .error .notFound => reclaimEntries owner error entries reclaimed
                | .error e => .done (.error ⟨some "reclaim rename", e⟩)
            else reclaimEntries owner error entries reclaimed
    else reclaimEntries owner error entries reclaimed

def reclaimOwner (owner : String) : FsProgram β (Except TaskError Nat) :=
  .call (.readDir queue.cur) fun
    | .error e => .done (.error ⟨some s!"read cur {displayPath queue.cur}", e⟩)
    | .ok listing => reclaimEntries queue format owner listing.error listing.entries 0

def status : FsProgram β (Except TaskError MaildirStatus) :=
  (listEnvelopes format queue.new).bind fun
    | .error e => .done (.error e)
    | .ok ready =>
      (listEnvelopes format queue.cur).bind fun
        | .error e => .done (.error e)
        | .ok inFlight =>
          .done (.ok
            { path := queue.path, ready := ready.length, inFlight := inFlight.length
              pending := ready.length + inFlight.length })

end MaildirQueue

end ShareCli.Mesh
