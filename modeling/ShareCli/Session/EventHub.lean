import ShareCli.Foundation.Bytes
import ShareCli.Foundation.Machine
import ShareCli.Session.Events

/-!
# The broker of surface events (`crates/sharecli-session/src/events.rs`)

`publish` cuts the bytes into chunks, numbers them and puts one event for each chunk into the queue of every
subscription to the surface; `drain` takes events from the front of a queue. The machine also has, for each
subscription, what was published to it and what was drained from it.
-/

namespace ShareCli.Session

open Foundation

/-- A marker has a count of dropped events; a real event has none, whatever its kind. -/
def SurfaceEventParams.isMarker (event : SurfaceEventParams) : Bool := event.dropped.isSome

def SurfaceEventParams.decoded (event : SurfaceEventParams) : Option (List UInt8) :=
  match event.eventBytesBase64 with
  | none => some []
  | some text => Base64.decode text

namespace SubscriptionState

variable (subscription : SubscriptionState)

/-- A subscription without a surface id is to every surface. -/
def covers (surfaceId : String) : Bool :=
  subscription.surfaceId.all (· == surfaceId)

def accepts (surfaceId : String) (seq : Nat) : Bool :=
  subscription.covers surfaceId && decide (subscription.fromSeq ≤ seq)

def isFull : Bool :=
  !decide (subscription.queue.length < subscription.queueCapacity)

end SubscriptionState

/-- The marker that stands for the `dropped` events removed so far when `event` arrives. -/
def droppedMarker (event : SurfaceEventParams) (dropped : Nat) : SurfaceEventParams :=
  { subscriptionId := event.subscriptionId
    surfaceId := event.surfaceId
    seq := event.seq - 1
    kind := .dropped
    timestamp := event.timestamp
    eventBytesBase64 := none
    dropped := some dropped
    resyncRequired := some true }

def enqueue (subscription : SubscriptionState) (event : SurfaceEventParams) : SubscriptionState :=
  if subscription.isFull then
    let queue := subscription.queue.tail
    let dropped := saturatingAdd subscription.dropped 1
    let marker := droppedMarker event dropped
    if subscription.queueCapacity = 1 then { subscription with queue := [marker], dropped }
    else
      let queue := if queue.length + 2 > subscription.queueCapacity then queue.tail else queue
      { subscription with queue := queue ++ [marker, event], dropped }
  else { subscription with queue := subscription.queue ++ [event] }

def surfaceEvent (surfaceId : String) (kind : SurfaceEventKind) (timestamp : Option String) (seq : Nat)
    (chunk : List UInt8) (subscriptionId : Nat) : SurfaceEventParams :=
  { subscriptionId, surfaceId, seq, kind, timestamp
    eventBytesBase64 := if chunk.isEmpty then none else some (Base64.encode chunk)
    dropped := none
    resyncRequired := none }

namespace HubState

variable (hub : HubState)

def chunkLimit (surfaceId : String) : Nat :=
  ((hub.subscriptions.entries.filter fun entry => entry.2.covers surfaceId).map
    fun entry => entry.2.maxChunkBytes).min?.getD maxEventChunkBytes

/-- No bytes are one empty chunk. -/
def chunks (surfaceId : String) (bytes : List UInt8) : List (List UInt8) :=
  if bytes.isEmpty then [[]] else chunksOf (hub.chunkLimit surfaceId) bytes

def mapSubscriptions (f : Nat → SubscriptionState → SubscriptionState) : HubState :=
  { hub with
    subscriptions :=
      ⟨hub.subscriptions.entries.map fun entry => ⟨entry.1, f entry.1 entry.2⟩,
        List.NodupKeys.map₂ f _ hub.subscriptions.nodupKeys⟩ }

def publishChunk (surfaceId : String) (kind : SurfaceEventKind) (timestamp : Option String)
    (hub : HubState) (chunk : List UInt8) : HubState :=
  let seq := saturatingAdd hub.nextSeq 1
  { hub with nextSeq := seq }.mapSubscriptions fun subscriptionId subscription =>
    if subscription.accepts surfaceId seq then
      enqueue subscription (surfaceEvent surfaceId kind timestamp seq chunk subscriptionId)
    else subscription

def publish (surfaceId : String) (kind : SurfaceEventKind) (bytes : List UInt8)
    (timestamp : Option String) : Nat × HubState :=
  let hub' := (hub.chunks surfaceId bytes).foldl (publishChunk surfaceId kind timestamp) hub
  (hub'.nextSeq, hub')

def drain (subscriptionId maxEvents : Nat) :
    Except SurfaceEventError (List SurfaceEventParams × HubState) :=
  match hub.subscriptions.lookup subscriptionId with
  | none => .error .unknownSubscription
  | some subscription =>
    let count := min maxEvents subscription.queue.length
    .ok (subscription.queue.take count, { hub with
        subscriptions := hub.subscriptions.insert subscriptionId
          { subscription with queue := subscription.queue.drop count } })

end HubState

/-- What had been drained when the queue was full, and the queue. -/
structure Overflow where
  drained : List SurfaceEventParams
  queue : List SurfaceEventParams
deriving DecidableEq

/-- What a subscriber was sent and drained. -/
structure History where
  request : SurfaceSubscribeRequest
  sent : List SurfaceEventParams
  drained : List SurfaceEventParams
  payloads : List (SurfaceEventKind × List UInt8)
  overflows : List Overflow
deriving DecidableEq

namespace History

def start (request : SurfaceSubscribeRequest) : History :=
  { request, sent := [], drained := [], payloads := [], overflows := [] }

def receive (history : History) (subscription : SubscriptionState) (event : SurfaceEventParams) :
    History :=
  { history with
    sent := history.sent ++ [event]
    overflows := history.overflows ++
      if subscription.isFull then [⟨history.drained, subscription.queue⟩] else [] }

end History

/-- The hub with what was sent so far. -/
structure HubRun where
  hub : HubState
  history : Nat → History

inductive HubLabel where
  | subscribe (request : SurfaceSubscribeRequest)
  | unsubscribe (subscriptionId : Nat)
  | publish (surfaceId : String) (kind : SurfaceEventKind) (bytes : List UInt8)
      (timestamp : Option String)
  | drain (subscriptionId maxEvents : Nat)

namespace HubRun

/-- Every subscription that gets the event has it in its history. -/
def publishChunk (surfaceId : String) (kind : SurfaceEventKind) (timestamp : Option String)
    (run : HubRun) (chunk : List UInt8) : HubRun :=
  let seq := saturatingAdd run.hub.nextSeq 1
  { hub := run.hub.publishChunk surfaceId kind timestamp chunk
    history := fun subscriptionId =>
      let history := run.history subscriptionId
      match run.hub.subscriptions.lookup subscriptionId with
      | none => history
      | some subscription =>
        if subscription.accepts surfaceId seq then
          history.receive subscription
            (surfaceEvent surfaceId kind timestamp seq chunk subscriptionId)
        else history }

def recordPayload (run : HubRun) (surfaceId : String) (kind : SurfaceEventKind) (bytes : List UInt8)
    (subscriptionId : Nat) : History :=
  let history := run.history subscriptionId
  match run.hub.subscriptions.lookup subscriptionId with
  | none => history
  | some subscription =>
    if subscription.covers surfaceId then
      { history with payloads := history.payloads ++ [(kind, bytes)] }
    else history

end HubRun

/-- Each call holds the lock throughout. -/
def hubMachine : Machine HubRun HubLabel where
  init :=
    { hub := .new
      history := fun _ => .start
        { surfaceId := none, fromSeq := none, maxChunkBytes := maxEventChunkBytes
          queueCapacity := defaultQueueCapacity } }
  step
    | run, .subscribe request =>
      match run.hub.subscribe request with
      | .error _ => some run
      | .ok (ack, hub) =>
        some { hub, history := Function.update run.history ack.subscriptionId (.start request) }
    | run, .unsubscribe subscriptionId =>
      some { run with hub := (run.hub.unsubscribe subscriptionId).2 }
    | run, .publish surfaceId kind bytes timestamp =>
      some
        { hub := (run.hub.publish surfaceId kind bytes timestamp).2
          history :=
            ((run.hub.chunks surfaceId bytes).foldl (HubRun.publishChunk surfaceId kind timestamp)
              { run with history := run.recordPayload surfaceId kind bytes }).history }
    | run, .drain subscriptionId maxEvents =>
      match run.hub.drain subscriptionId maxEvents with
      | .error _ => some run
      | .ok (events, hub) =>
        let history := run.history subscriptionId
        some
          { hub
            history := Function.update run.history subscriptionId
              { history with drained := history.drained ++ events } }

end ShareCli.Session
