import ShareCli.Foundation.Machine
import ShareCli.Foundation.Serde
import ShareCli.Foundation.Text
import ShareCli.Teamcomm.State

/-!
# The request handlers of the teamcomm daemon (`handlers.rs`, `dispatch` of `listener.rs`)

What a handler does before it takes the lock of the state is `dispatch`; what happens under the lock is a
function of the state, of the clock at that time and of the uuid that is minted there (`Request.perform`).
Requests are performed one at a time and in any order. The clock may be set to any time. The log has the
answers, the latest first: it plays no part in what the daemon does.
-/

namespace ShareCli.Teamcomm

open Foundation

def heartbeatIntervalSec : Nat := 30

def leaseTtlSec : Nat := 90

def optionalText (payload : Value) (field : String) : Option String := (payload.get field).bind Value.asStr

def requiredText (payload : Value) (field : String) : Except TeamcommError String :=
  match optionalText payload field with
  | some text => .ok text
  | none => .error (.invalidParams ("missing required field: " ++ field))

def textList (payload : Value) (field : String) : List String :=
  (((payload.get field).bind Value.asArray).map (List.filterMap Value.asStr)).getD []

def parseAgentType (s : String) : AgentType :=
  match Text.toAsciiLowercase s with
  | "forge" => .forge
  | "codex" => .codex
  | "claude" => .claude
  | "copilot" => .copilot
  | other => .custom other

def parseReservationMode (s : String) : Except TeamcommError ReservationMode :=
  match Text.toAsciiLowercase s with
  | "read" => .ok .read
  | "write" => .ok .write
  | "exclusive" => .ok .exclusive
  | other => .error (.invalidParams ("unknown reservation mode: " ++ other))

def parsePriority (s : String) : Except TeamcommError Priority :=
  match Text.toAsciiLowercase s with
  | "low" => .ok .low
  | "normal" => .ok .normal
  | "high" => .ok .high
  | other => .error (.invalidParams ("unknown priority: " ++ other))

def parseAgentStatus (s : String) : Except TeamcommError AgentStatus :=
  match Text.toAsciiLowercase s with
  | "idle" => .ok .idle
  | "working" => .ok .working
  | "blocked" => .ok .blocked
  | "done" => .ok .done
  | "stuck" => .ok .stuck
  | other => .error (.invalidParams ("unknown agent status: " ++ other))

/-- A `now` has been read from the clock before the lock. -/
inductive Request where
  | sessionRegister (pid : UInt32) (agentType : AgentType) (workingDir : String)
      (capabilities : List String) (now : DateTime)
  | sessionDeregister (sessionId : String)
  | sessionHeartbeat (sessionId : String) (now : DateTime)
  | sessionList
  | sessionGet (sessionId : String)
  | reservationClaim (sessionId path : String) (mode : ReservationMode) (now expires : DateTime)
  | reservationRelease (reservationId : String)
  | reservationList (path : Option String)
  | inboxPost (fromSession toSession subject body : String) (priority : Priority)
  | inboxList (sessionId : String) (unreadOnly : Bool) (limit : UInt64)
  | inboxRead (messageId : String)
  | stateSet (sessionId : String) (focusFile focusBranch worktree : Option String) (status : AgentStatus)
  | stateGet (sessionId : String)
  | discoverAgents (path branch : Option String) (capabilities : List String)

inductive Prepared where
  | refused (error : TeamcommError)
  | panicked
  | waiting (request : Request)

def Prepared.ofExcept : Except TeamcommError Request → Prepared
  | .ok request => .waiting request
  | .error error => .refused error

/-- The pid is truncated to 32 bits. -/
def registerRequest (payload : Value) (now : DateTime) : Except TeamcommError Request :=
  match (payload.get "pid").bind Value.asU64 with
  | none => .error (.invalidParams "missing required field: pid")
  | some pid =>
    .ok (.sessionRegister pid.toUInt32 (parseAgentType ((optionalText payload "agent_type").getD "custom"))
      ((optionalText payload "working_dir").getD "/") (textList payload "capabilities") now)

/-- `ttl_sec as i64` may be negative, and both the span and the sum may be out of range. -/
def expiry (now : DateTime) (ttlSec : UInt64) : Option DateTime :=
  (DateTime.spanOfSeconds ttlSec.toInt64.toInt).bind now.add

def claimRequest (payload : Value) (now : DateTime) : Prepared :=
  match requiredText payload "session_id" with
  | .error error => .refused error
  | .ok sessionId =>
    match requiredText payload "path" with
    | .error error => .refused error
    | .ok path =>
      match parseReservationMode ((optionalText payload "mode").getD "write") with
      | .error error => .refused error
      | .ok mode =>
        match expiry now (((payload.get "ttl_sec").bind Value.asU64).getD 600) with
        | none => .panicked
        | some expires => .waiting (.reservationClaim sessionId path mode now expires)

def postRequest (payload : Value) : Except TeamcommError Request := do
  let fromSession ← requiredText payload "from_session"
  let toSession ← requiredText payload "to_session"
  let priority ← parsePriority ((optionalText payload "priority").getD "normal")
  return .inboxPost fromSession toSession ((optionalText payload "subject").getD "")
    ((optionalText payload "body").getD "") priority

def inboxListRequest (payload : Value) : Except TeamcommError Request := do
  let sessionId ← requiredText payload "session_id"
  return .inboxList sessionId (((payload.get "unread_only").bind Value.asBool).getD false)
    (((payload.get "limit").bind Value.asU64).getD 50)

def stateSetRequest (payload : Value) : Except TeamcommError Request := do
  let sessionId ← requiredText payload "session_id"
  let status ← parseAgentStatus ((optionalText payload "status").getD "idle")
  return .stateSet sessionId (optionalText payload "focus_file") (optionalText payload "focus_branch")
    (optionalText payload "worktree") status

def dispatch (method : String) (params : Value) (now : DateTime) : Prepared :=
  match method with
  | "session.register" => .ofExcept (registerRequest params now)
  | "session.deregister" => .ofExcept ((requiredText params "session_id").map .sessionDeregister)
  | "session.heartbeat" =>
    .ofExcept ((requiredText params "session_id").map fun sessionId => .sessionHeartbeat sessionId now)
  | "session.list" => .waiting .sessionList
  | "session.get" => .ofExcept ((requiredText params "session_id").map .sessionGet)
  | "reservation.claim" => claimRequest params now
  | "reservation.release" =>
    .ofExcept ((requiredText params "reservation_id").map .reservationRelease)
  | "reservation.list" => .waiting (.reservationList (optionalText params "path"))
  | "inbox.post" => .ofExcept (postRequest params)
  | "inbox.list" => .ofExcept (inboxListRequest params)
  | "inbox.read" => .ofExcept ((requiredText params "message_id").map .inboxRead)
  | "state.set" => .ofExcept (stateSetRequest params)
  | "state.get" => .ofExcept ((requiredText params "session_id").map .stateGet)
  | "discover.agents" =>
    .waiting (.discoverAgents (optionalText params "path") (optionalText params "branch")
      (textList params "capabilities"))
  | other => .refused (.methodNotFound other)

inductive Answer where
  | registered (sessionId : String) (leaseTtlSec : Nat)
  | ok
  | heartbeat (nextHeartbeatSec : Nat)
  | sessions (sessions : List Session)
  | session (session : Session)
  | claimed (reservationId : String) (conflicts : List Reservation)
  | reservations (reservations : List Reservation)
  | posted (messageId : String)
  | messages (messages : List InboxMessage)
  | message (message : InboxMessage)
  | liveState (live : LiveState)
  | agents (summaries : List SessionSummary)
deriving DecidableEq

abbrev Reply := Except TeamcommError Answer

variable (guard : AppStateInner)

def AppStateInner.allReservations : List Reservation :=
  guard.reservations.entries.map Sigma.snd

def insertNewSession (pid : UInt32) (agentType : AgentType) (workingDir : String)
    (capabilities : List String) (now : DateTime) (uuid : String) : String × AppStateInner :=
  let sessionId := mintSessionId uuid
  let session : Session :=
    { sessionId, agentType, pid, startedAt := now, workingDir, capabilities, lastHeartbeat := now }
  (sessionId, { guard with
      sessions := guard.sessions.insert sessionId session
      sessionsByPid := guard.sessionsByPid.insert pid sessionId })

def registerSession (pid : UInt32) (agentType : AgentType) (workingDir : String)
    (capabilities : List String) (now : DateTime) (uuid : String) : String × AppStateInner :=
  match guard.sessionsByPid.lookup pid with
  | some existingId =>
    match guard.sessions.lookup existingId with
    | some existing =>
      (existingId,
        { guard with sessions := guard.sessions.insert existingId { existing with lastHeartbeat := now } })
    -- The reverse index is out of sync.
    | none => insertNewSession guard pid agentType workingDir capabilities now uuid
  | none => insertNewSession guard pid agentType workingDir capabilities now uuid

def handleSessionRegister (pid : UInt32) (agentType : AgentType) (workingDir : String)
    (capabilities : List String) (now : DateTime) (uuid : String) (guard : AppStateInner) :
    Reply × AppStateInner :=
  let registered := registerSession guard pid agentType workingDir capabilities now uuid
  (.ok (.registered registered.1 leaseTtlSec), registered.2)

/-- The session and its pid are removed; its reservations and its live state are not. -/
def handleSessionDeregister (sessionId : String) (guard : AppStateInner) : Reply × AppStateInner :=
  (.ok .ok,
    match guard.sessions.lookup sessionId with
    | some sess =>
      { guard with
        sessions := guard.sessions.erase sessionId
        sessionsByPid := guard.sessionsByPid.erase sess.pid }
    | none => guard)

def handleSessionHeartbeat (sessionId : String) (now : DateTime) (guard : AppStateInner) :
    Reply × AppStateInner :=
  match guard.sessions.lookup sessionId with
  | some session =>
    (.ok (.heartbeat heartbeatIntervalSec),
      { guard with sessions := guard.sessions.insert sessionId { session with lastHeartbeat := now } })
  | none => (.error (.notFound ("session " ++ sessionId)), guard)

def handleSessionList : Reply × AppStateInner :=
  (.ok (.sessions (guard.sessions.entries.map Sigma.snd)), guard)

def handleSessionGet (sessionId : String) (guard : AppStateInner) : Reply × AppStateInner :=
  match guard.sessions.lookup sessionId with
  | some session => (.ok (.session session), guard)
  | none => (.error (.notFound ("session " ++ sessionId)), guard)

def modeConflicts (new existing : ReservationMode) : Bool :=
  match new with
  | .read => existing = .exclusive
  | .write => existing = .write || existing = .exclusive
  | .exclusive => true

/-- Those of other sessions on the path that were not expired when the claim read the clock. -/
def conflictsWith (sessionId path : String) (mode : ReservationMode)
    (now : DateTime) : List Reservation :=
  guard.allReservations.filter fun r =>
    samePath r.path path && r.sessionId != sessionId && now.nanos < r.expiresAt.nanos &&
      modeConflicts mode r.mode

/-- The reservation is made whether or not there are conflicts. -/
def handleReservationClaim (sessionId path : String) (mode : ReservationMode) (now expires : DateTime)
    (uuid : String) (guard : AppStateInner) : Reply × AppStateInner :=
  match guard.sessions.lookup sessionId with
  | none => (.error (.notFound ("session " ++ sessionId)), guard)
  | some _ =>
    let reservationId := mintReservationId uuid
    let reservation : Reservation :=
      { reservationId, sessionId, path, mode, acquiredAt := now, expiresAt := expires }
    (.ok (.claimed reservationId (conflictsWith guard sessionId path mode now)),
      { guard with reservations := guard.reservations.insert reservationId reservation })

def handleReservationRelease (reservationId : String) (guard : AppStateInner) : Reply × AppStateInner :=
  match guard.reservations.lookup reservationId with
  | some _ => (.ok .ok, { guard with reservations := guard.reservations.erase reservationId })
  | none => (.error (.notFound ("reservation " ++ reservationId)), guard)

/-- The path of the filter is a prefix of the text, not of the components. -/
def listedReservations (path : Option String) (clock : DateTime) (guard : AppStateInner) : List Reservation :=
  let active := guard.allReservations.filter fun r => clock.nanos < r.expiresAt.nanos
  match path with
  | some start => active.filter fun r => start.toList.isPrefixOf r.path.toList
  | none => active

def handleReservationList (path : Option String) (clock : DateTime) (guard : AppStateInner) :
    Reply × AppStateInner :=
  (.ok (.reservations (listedReservations path clock guard)), guard)

def handleInboxPost (fromSession toSession subject body : String) (priority : Priority)
    (clock : DateTime) (uuid : String) (guard : AppStateInner) : Reply × AppStateInner :=
  match guard.sessions.lookup fromSession with
  | none => (.error (.notFound ("session " ++ fromSession)), guard)
  | some _ =>
    let messageId := mintMessageId uuid
    let message : InboxMessage :=
      { messageId, fromSession, toSession, subject, body, priority, ts := clock, read := false }
    let messages := (guard.inbox.lookup toSession).getD []
    (.ok (.posted messageId), { guard with inbox := guard.inbox.insert toSession (messages ++ [message]) })

/-- A limit of zero is none. -/
def handleInboxList (sessionId : String) (unreadOnly : Bool) (limit : UInt64) (guard : AppStateInner) :
    Reply × AppStateInner :=
  let messages := (guard.inbox.lookup sessionId).getD []
  let selected := (messages.filter fun m => !unreadOnly || !m.read).take
    (if 0 < limit then limit.toNat else 2 ^ 64 - 1)
  let resultIds := selected.map InboxMessage.messageId
  let marked := messages.map fun m => if m.messageId ∈ resultIds then { m with read := true } else m
  (.ok (.messages (marked.filter fun m => m.messageId ∈ resultIds)),
    { guard with inbox := guard.inbox.insert sessionId marked })

def readFirst (messageId : String) : List InboxMessage → Option (InboxMessage × List InboxMessage)
  | [] => none
  | m :: rest =>
    if m.messageId = messageId then some ({ m with read := true }, { m with read := true } :: rest)
    else (readFirst messageId rest).map fun found => (found.1, m :: found.2)

def handleInboxRead (messageId : String) (guard : AppStateInner) : Reply × AppStateInner :=
  let found := guard.inbox.entries.findSome? fun entry =>
    (readFirst messageId entry.2).map fun found => (entry.1, found)
  match found with
  | some (sessionId, message, messages) =>
    (.ok (.message message), { guard with inbox := guard.inbox.insert sessionId messages })
  | none => (.error (.notFound ("message " ++ messageId)), guard)

def handleStateSet (sessionId : String) (focusFile focusBranch worktree : Option String)
    (status : AgentStatus) (clock : DateTime) (guard : AppStateInner) : Reply × AppStateInner :=
  match guard.sessions.lookup sessionId with
  | none => (.error (.notFound ("session " ++ sessionId)), guard)
  | some _ =>
    let live : LiveState := { sessionId, focusFile, focusBranch, worktree, status, lastHeartbeat := clock }
    (.ok .ok, { guard with liveState := guard.liveState.insert sessionId live })

def handleStateGet (sessionId : String) (guard : AppStateInner) : Reply × AppStateInner :=
  match guard.liveState.lookup sessionId with
  | some live => (.ok (.liveState live), guard)
  | none => (.error (.notFound ("live state for session " ++ sessionId)), guard)

def agentMatches (path branch : Option String) (capabilities : List String) (session : Session)
    (live : Option LiveState) : Bool :=
  let onPath :=
    match path with
    | some start =>
      match live.bind LiveState.focusFile with
      | some file => start.toList.isPrefixOf file.toList
      | none => false
    | none => true
  let onBranch :=
    match branch with
    | some branch => live.map LiveState.focusBranch = some (some branch)
    | none => true
  onPath && onBranch && capabilities.all fun c => session.capabilities.contains c

def handleDiscoverAgents (path branch : Option String) (capabilities : List String)
    (guard : AppStateInner) : Reply × AppStateInner :=
  let summaries := guard.sessions.entries.filterMap fun entry =>
    let live := guard.liveState.lookup entry.1
    if agentMatches path branch capabilities entry.2 live then
      some
        { sessionId := entry.1
          agentType := entry.2.agentType
          pid := entry.2.pid
          status := (live.map LiveState.status).getD .idle
          focusFile := live.bind LiveState.focusFile
          lastHeartbeat := entry.2.lastHeartbeat }
    else none
  (.ok (.agents summaries), guard)

/-- `clock` is the time under the lock. -/
def Request.perform (request : Request) (clock : DateTime) (uuid : String) (guard : AppStateInner) :
    Reply × AppStateInner :=
  match request with
  | .sessionRegister pid agentType workingDir capabilities now =>
    handleSessionRegister pid agentType workingDir capabilities now uuid guard
  | .sessionDeregister sessionId => handleSessionDeregister sessionId guard
  | .sessionHeartbeat sessionId now => handleSessionHeartbeat sessionId now guard
  | .sessionList => handleSessionList guard
  | .sessionGet sessionId => handleSessionGet sessionId guard
  | .reservationClaim sessionId path mode now expires =>
    handleReservationClaim sessionId path mode now expires uuid guard
  | .reservationRelease reservationId => handleReservationRelease reservationId guard
  | .reservationList path => handleReservationList path clock guard
  | .inboxPost fromSession toSession subject body priority =>
    handleInboxPost fromSession toSession subject body priority clock uuid guard
  | .inboxList sessionId unreadOnly limit => handleInboxList sessionId unreadOnly limit guard
  | .inboxRead messageId => handleInboxRead messageId guard
  | .stateSet sessionId focusFile focusBranch worktree status =>
    handleStateSet sessionId focusFile focusBranch worktree status clock guard
  | .stateGet sessionId => handleStateGet sessionId guard
  | .discoverAgents path branch capabilities => handleDiscoverAgents path branch capabilities guard

/-- A request that waits for the lock. -/
structure Waiting where
  method : String
  params : Value
  request : Request

inductive Outcome where
  | panicked
  | refused (error : TeamcommError)
  | performed (request : Request) (reply : Reply)

/-- A request and how it ended. -/
structure Answered where
  method : String
  params : Value
  outcome : Outcome

/-- The state, the waiting requests and the log of answers. -/
structure Daemon where
  clock : DateTime
  guard : AppStateInner := {}
  waiting : List Waiting := []
  uuids : List String := []
  log : List Answered := []

/-- What the daemon does next. -/
inductive Event where
  | setClock (time : DateTime)
  | arrive (method : String) (params : Value)
  | perform (index : Nat) (uuid : String)

namespace Daemon

def arrive (s : Daemon) (method : String) (params : Value) : Daemon :=
  match dispatch method params s.clock with
  | .refused error => { s with log := { method, params, outcome := .refused error } :: s.log }
  | .panicked => { s with log := { method, params, outcome := .panicked } :: s.log }
  | .waiting request => { s with waiting := s.waiting ++ [{ method, params, request }] }

def perform (s : Daemon) (index : Nat) (w : Waiting) (uuid : String) : Daemon :=
  let performed := w.request.perform s.clock uuid s.guard
  { s with
    guard := performed.2
    waiting := s.waiting.eraseIdx index
    uuids := uuid :: s.uuids
    log := { method := w.method, params := w.params, outcome := .performed w.request performed.1 } :: s.log }

def step (s : Daemon) : Event → Option Daemon
  | .setClock time => some { s with clock := time }
  | .arrive method params => some (s.arrive method params)
  | .perform index uuid =>
    match s.waiting[index]? with
    | some w => if uuid ∈ s.uuids then none else some (s.perform index w uuid)
    | none => none

end Daemon

def daemon (start : DateTime) : Machine Daemon Event where
  init := { clock := start }
  step := Daemon.step

def ClockAdvances (s : Daemon) : Event → Prop
  | .setClock time => s.clock.nanos ≤ time.nanos
  | _ => True

instance (s : Daemon) : (event : Event) → Decidable (ClockAdvances s event)
  | .setClock time => inferInstanceAs (Decidable (s.clock.nanos ≤ time.nanos))
  | .arrive _ _ => isTrue trivial
  | .perform _ _ => isTrue trivial

end ShareCli.Teamcomm
