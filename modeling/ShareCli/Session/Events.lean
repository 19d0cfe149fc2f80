import Mathlib.Data.List.AList
import ShareCli.Foundation.Serde

/-!
# Subscriptions to surface events (`crates/sharecli-session/src/events.rs`)

The bounded queue of each subscription, and the two operations a control request can ask for.
-/

namespace ShareCli.Session

open Foundation

def maxEventChunkBytes : Nat := 64 * 1024

def maxEventQueueCapacity : Nat := 256

def defaultQueueCapacity : Nat := 64

def saturatingAdd (a b : Nat) : Nat := min (a + b) (2 ^ 64 - 1)

inductive SurfaceEventKind where
  | output
  | resize
  | exit
  | title
  | cwd
  | dropped
deriving DecidableEq

/-- An event as it is sent. -/
structure SurfaceEventParams where
  subscriptionId : Nat
  surfaceId : String
  seq : Nat
  kind : SurfaceEventKind
  timestamp : Option String
  eventBytesBase64 : Option String
  dropped : Option Nat
  resyncRequired : Option Bool
deriving DecidableEq

structure SurfaceSubscribeRequest where
  surfaceId : Option String
  fromSeq : Option Nat
  maxChunkBytes : Nat
  queueCapacity : Nat
deriving DecidableEq

def SurfaceSubscribeRequest.fieldNames : List String :=
  ["surface_id", "from_seq", "max_chunk_bytes", "queue_capacity"]

/-- `usize` has 64 bits. -/
def SurfaceSubscribeRequest.decode {α : Type} (src : Source α) (fs : Fields α) :
    Option SurfaceSubscribeRequest :=
  if fs.accepts fieldNames then
    (fs.defaulted fieldNames "surface_id" none (src.option src.string)).bind fun surfaceId =>
      (fs.defaulted fieldNames "from_seq" none (src.option (src.below (2 ^ 64)))).bind fun fromSeq =>
        (fs.defaulted fieldNames "max_chunk_bytes" maxEventChunkBytes (src.below (2 ^ 64))).bind
          fun maxChunkBytes =>
            (fs.defaulted fieldNames "queue_capacity" defaultQueueCapacity (src.below (2 ^ 64))).map
              fun queueCapacity => { surfaceId, fromSeq, maxChunkBytes, queueCapacity }
  else none

structure SurfaceSubscribeAck where
  subscriptionId : Nat
  nextSeq : Nat
  maxChunkBytes : Nat
  queueCapacity : Nat
deriving DecidableEq

/-- No subscription replays. -/
def SurfaceSubscribeAck.toValue (ack : SurfaceSubscribeAck) : Value :=
  .obj
    [("subscription_id", .num (.posInt ack.subscriptionId)), ("next_seq", .num (.posInt ack.nextSeq)),
      ("capabilities", .obj [("max_chunk_bytes", .num (.posInt ack.maxChunkBytes)),
          ("queue_capacity", .num (.posInt ack.queueCapacity)),
          ("replay", .bool false)])]

inductive SurfaceEventError where
  | invalidChunkBytes
  | invalidQueueCapacity
  | unknownSubscription
deriving DecidableEq

def SurfaceEventError.message : SurfaceEventError → String
  | .invalidChunkBytes => "max_chunk_bytes must be between 1 and 65536"
  | .invalidQueueCapacity => "queue_capacity must be between 1 and 256"
  | .unknownSubscription => "unknown subscription_id"

/-- The queue of one subscriber. -/
structure SubscriptionState where
  surfaceId : Option String
  fromSeq : Nat
  maxChunkBytes : Nat
  queueCapacity : Nat
  queue : List SurfaceEventParams
  dropped : Nat
deriving DecidableEq

/-- All subscriptions. -/
structure HubState where
  nextSubscription : Nat
  nextSeq : Nat
  subscriptions : AList fun _ : Nat => SubscriptionState

namespace HubState

def new : HubState := { nextSubscription := 0, nextSeq := 0, subscriptions := ∅ }

def subscribe (hub : HubState) (request : SurfaceSubscribeRequest) :
    Except SurfaceEventError (SurfaceSubscribeAck × HubState) :=
  if request.maxChunkBytes = 0 ∨ request.maxChunkBytes > maxEventChunkBytes then
    .error .invalidChunkBytes
  else if request.queueCapacity = 0 ∨ request.queueCapacity > maxEventQueueCapacity then
    .error .invalidQueueCapacity
  else
    let subscriptionId := saturatingAdd hub.nextSubscription 1
    let nextSeq := max (saturatingAdd hub.nextSeq 1) (request.fromSeq.getD 1)
    .ok
      ({ subscriptionId, nextSeq, maxChunkBytes := request.maxChunkBytes
         queueCapacity := request.queueCapacity },
       { hub with
         nextSubscription := subscriptionId
         subscriptions := hub.subscriptions.insert subscriptionId
           { surfaceId := request.surfaceId, fromSeq := nextSeq
             maxChunkBytes := request.maxChunkBytes, queueCapacity := request.queueCapacity
             queue := [], dropped := 0 } })

def unsubscribe (hub : HubState) (subscriptionId : Nat) : Bool × HubState :=
  ((hub.subscriptions.lookup subscriptionId).isSome,
    { hub with subscriptions := hub.subscriptions.erase subscriptionId })

end HubState

end ShareCli.Session
