import Mathlib.Data.List.AList
import ShareCli.Foundation.Path
import ShareCli.Foundation.Time

/-!
# The state of the teamcomm daemon

The types of `crates/teamcomm-protocol/src` (`session.rs`, `reservation.rs`, `state.rs`, `inbox.rs`), the state
(`crates/teamcomm-daemon/src/state.rs`) and its errors (`error.rs`). A `PathBuf` is its text here (`samePath`).
-/

namespace ShareCli.Teamcomm

open Foundation

def samePath (path other : String) : Bool :=
  FilePath.components path.toList = FilePath.components other.toList

inductive AgentType where
  | forge
  | codex
  | claude
  | copilot
  | custom (name : String)
deriving DecidableEq

/-- A registered agent. -/
structure Session where
  sessionId : String
  agentType : AgentType
  pid : UInt32
  startedAt : DateTime
  workingDir : String
  capabilities : List String
  lastHeartbeat : DateTime
deriving DecidableEq

inductive ReservationMode where
  | read
  | write
  | exclusive
deriving DecidableEq

/-- A claim to a path. -/
structure Reservation where
  reservationId : String
  sessionId : String
  path : String
  mode : ReservationMode
  acquiredAt : DateTime
  expiresAt : DateTime
deriving DecidableEq

inductive AgentStatus where
  | idle
  | working
  | blocked
  | done
  | stuck
deriving DecidableEq

/-- What an agent says of itself. -/
structure LiveState where
  sessionId : String
  focusFile : Option String
  focusBranch : Option String
  worktree : Option String
  status : AgentStatus
  lastHeartbeat : DateTime
deriving DecidableEq

inductive Priority where
  | low
  | normal
  | high
deriving DecidableEq

/-- A message and whether it was read. -/
structure InboxMessage where
  messageId : String
  fromSession : String
  toSession : String
  subject : String
  body : String
  priority : Priority
  ts : DateTime
  read : Bool
deriving DecidableEq

/-- What `session.list` shows. -/
structure SessionSummary where
  sessionId : String
  agentType : AgentType
  pid : UInt32
  status : AgentStatus
  focusFile : Option String
  lastHeartbeat : DateTime
deriving DecidableEq

/-- The daemon's state behind its lock. -/
structure AppStateInner where
  sessions : AList fun _ : String => Session := ∅
  sessionsByPid : AList fun _ : UInt32 => String := ∅
  reservations : AList fun _ : String => Reservation := ∅
  liveState : AList fun _ : String => LiveState := ∅
  inbox : AList fun _ : String => List InboxMessage := ∅

/-! ## Identifiers

A minted id has a new uuid.
-/

def mintSessionId (uuid : String) : String := "sess_" ++ uuid

def mintReservationId (uuid : String) : String := "resv_" ++ uuid

def mintMessageId (uuid : String) : String := "msg_" ++ uuid

/-- The error of a request. -/
inductive TeamcommError where
  | methodNotFound (method : String)
  | invalidParams (message : String)
  | notFound (what : String)
  | conflict (message : String)
  | internal (message : String)
deriving DecidableEq

def TeamcommError.text : TeamcommError → String
  | .methodNotFound method => "method not found: " ++ method
  | .invalidParams message => "invalid params: " ++ message
  | .notFound what => "not found: " ++ what
  | .conflict message => "conflict: " ++ message
  | .internal message => "internal error: " ++ message

end ShareCli.Teamcomm
