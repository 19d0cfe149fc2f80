import ShareCli.Session.EventHub
import ShareCli.Session.Rpc

/-!
# The surface event server (`serve_surface_unix_with_events` in `crates/sharecli-session/src/rpc.rs`)

Every connection is served by a task of its own, all of them on one event hub. Each line of input is dispatched,
and the response is written if the request has an id. On a tick the task drains the subscriptions it knows of
and writes their events. A turn of a task goes from one read or write to the next; what happens there is chosen
by the labels.
-/

namespace ShareCli.Session

open Foundation

def maxSurfaceLineBytes : Nat := 1024 * 1024

def readChunkBytes : Nat := 16 * 1024

def drainLimit : Nat := 32

def asU64 : Value → Option Nat
  | .num (.posInt n) => some n
  | _ => none

inductive TaskPhase where
  | selecting
  | processing
  /-- Waiting for the write of a response. -/
  | replying (response : SurfaceResponse)
  | draining (rest : List Nat)
  /-- Waiting for the write of the first of these events. -/
  | sending (queued : List SurfaceEventParams) (rest : List Nat)

/-- What a client sent and subscribed to. -/
structure Connection where
  input : List UInt8
  subscriptions : List Nat
  phase : TaskPhase

def Connection.new : Connection := { input := [], subscriptions := [], phase := .selecting }

inductive TaskEvent where
  /-- `read` returns; `none` is an error. -/
  | read (result : Option (List UInt8))
  /-- The next line is handled; the provider answers as `control` does. -/
  | line (control : SurfaceControl)
  | written (success : Bool)
  | tick
  | drain

inductive Turn where
  | returns
  | goesOn (connection : Connection) (hub : HubState) (created : Option Nat)

def HubState.madeBy (hub : HubState) : List SurfaceCall → Option Nat
  | [.subscribe request] =>
    match hub.subscribe request with
    | .ok (ack, _) => some ack.subscriptionId
    | .error _ => none
  | _ => none

section Server

variable (serde : Serde) (expectedToken : Option String)

/-- An id in the result is added, and the id of an unsubscribe request is taken out. -/
def trackSubscriptions (subscriptions : List Nat) (requestValue : Option Value)
    (response : SurfaceResponse) : List Nat :=
  let subscriptions :=
    match (response.result.bind fun result => result.get "subscription_id").bind asU64 with
    | some id => subscriptions ++ [id]
    | none => subscriptions
  match requestValue.bind fun request => request.get "method" with
  | some (.str "surface.io.unsubscribe") =>
    match ((requestValue.bind fun request => request.get "params").bind
        fun params => params.get "subscription_id").bind asU64 with
    | some id => subscriptions.filter (· ≠ id)
    | none => subscriptions
  | _ => subscriptions

def handleLine (control : SurfaceControl) (hub : HubState) (connection : Connection) (line : List Char)
    (input : List UInt8) : Turn :=
  let requestValue := Value.fromStr serde.finite line
  let shouldReply := ((requestValue.bind fun request => request.get "id")).isSome
  let dispatched := dispatchSurfaceWithTokenAndEvents serde control hub (String.ofList line) expectedToken
  .goesOn
    { input
      subscriptions := trackSubscriptions connection.subscriptions requestValue dispatched.response
      phase := if shouldReply then .replying dispatched.response else .processing }
    (dispatched.events.getD hub) (hub.madeBy dispatched.calls)

def turn (hub : HubState) (connection : Connection) : TaskEvent → Option Turn
  | .read result =>
    match connection.phase, result with
    | .selecting, none => some .returns
    | .selecting, some chunk =>
      if chunk = [] then some .returns
      else if chunk.length > readChunkBytes then none
      else
        let input := connection.input ++ chunk
        if input.length > maxSurfaceLineBytes then some .returns
        else some (.goesOn { connection with input, phase := .processing } hub none)
    | _, _ => none
  | .line control =>
    match connection.phase with
    | .processing =>
      match connection.input.idxOf? 10 with
      | none => some (.goesOn { connection with phase := .selecting } hub none)
      | some newline =>
        match Text.decodeUtf8 (connection.input.take newline) with
        | none => some .returns
        | some line =>
          some (handleLine serde expectedToken control hub connection line
            (connection.input.drop (newline + 1)))
    | _ => none
  | .written success =>
    match connection.phase with
    | .replying _ =>
      if success then some (.goesOn { connection with phase := .processing } hub none)
      else some .returns
    | .sending (_ :: queued) rest =>
      if success then some (.goesOn { connection with phase := .sending queued rest } hub none)
      else some .returns
    | _ => none
  | .tick =>
    match connection.phase with
    | .selecting =>
      some (.goesOn { connection with phase := .draining connection.subscriptions } hub none)
    | _ => none
  | .drain =>
    match connection.phase with
    | .draining [] => some (.goesOn { connection with phase := .selecting } hub none)
    | .draining (subscriptionId :: rest) =>
      match hub.drain subscriptionId drainLimit with
      | .error _ => some (.goesOn { connection with phase := .draining rest } hub none)
      | .ok (queued, hub) => some (.goesOn { connection with phase := .sending queued rest } hub none)
    | .sending [] rest => some (.goesOn { connection with phase := .draining rest } hub none)
    | _ => none

/-- The hub and the connections. -/
structure ServerState where
  hub : HubState
  connections : AList fun _ : Nat => Connection
  accepted : Nat
  creator : Nat → Option Nat

inductive ServerLabel where
  | accept
  | task (connection : Nat) (event : TaskEvent)
  | publish (surfaceId : String) (kind : SurfaceEventKind) (bytes : List UInt8)
      (timestamp : Option String)

namespace ServerState

def isOpen (s : ServerState) (connection : Nat) : Bool := (s.connections.lookup connection).isSome

def held (s : ServerState) (connection : Nat) : List Nat :=
  s.hub.subscriptions.keys.filter fun subscriptionId => s.creator subscriptionId = some connection

def after (s : ServerState) (id : Nat) : Turn → ServerState
  | .returns => { s with connections := s.connections.erase id }
  | .goesOn connection hub created =>
    { s with
      hub
      connections := s.connections.insert id connection
      creator :=
        match created with
        | none => s.creator
        | some subscriptionId => Function.update s.creator subscriptionId (some id) }

def turnOf (s : ServerState) (id : Nat) (event : TaskEvent) : Option Turn :=
  (s.connections.lookup id).bind fun connection => turn serde expectedToken s.hub connection event

end ServerState

def serverMachine : Machine ServerState ServerLabel where
  init := { hub := .new, connections := ∅, accepted := 0, creator := fun _ => none }
  step
    | s, .accept =>
      some
        { s with
          connections := s.connections.insert s.accepted .new
          accepted := s.accepted + 1 }
    | s, .task id event => (s.turnOf serde expectedToken id event).map (s.after id)
    | s, .publish surfaceId kind bytes timestamp =>
      some { s with hub := (s.hub.publish surfaceId kind bytes timestamp).2 }

end Server

end ShareCli.Session
