import ShareCli.Session.Proofs.EventServerProofs
import ShareCli.Session.Proofs.RpcProofs

/-!
# The client of a surface subscription (`SurfaceSubscription` in `src/session.rs`)

The server sends events and the responses to requests, one JSON text a line. `unsubscribe` writes its request and
takes the first line that arrives for the response. What arrives is given as a whole: a call that would read
behind it waits, unless the server has closed its end.
-/

namespace ShareCli.Session

open Foundation

/-- What the server sends: complete lines, without their newlines, and the bytes behind the last one. -/
structure Incoming where
  lines : List (List UInt8)
  tail : List UInt8
  closed : Bool
deriving DecidableEq

inductive SubscriptionError where
  | invalidUtf8
  | malformed (line : String)
  | malformedParams (params : Value)
  | closed
  | eventRpc (error : Value)
  | unsubscribe (error : Value)

/-- `display` is the one of a `Value`. -/
def SubscriptionError.message (serde : Serde) (display : Value → String) : SubscriptionError → String
  | .invalidUtf8 => "stream did not contain valid UTF-8"
  | .malformed line => serde.fromStrError line
  | .malformedParams params => serde.fromValueError params
  | .closed => "Ghostty live surface subscription closed"
  | .eventRpc error => "Ghostty live event RPC failed: " ++ display error
  | .unsubscribe error => "Ghostty unsubscribe failed: " ++ display error

def readValue (serde : Serde) (line : List UInt8) : Except SubscriptionError Value :=
  match Text.decodeUtf8 line with
  | none => .error .invalidUtf8
  | some text =>
    match Value.fromStr serde.finite text with
    | none => .error (.malformed (String.ofList text))
    | some value => .ok value

def lineValue (serde : Serde) (line : List UInt8) : Except SubscriptionError Value :=
  readValue serde (line ++ [10])

/-- The client's end of a subscription. -/
structure SurfaceSubscription where
  subscriptionId : Nat
  token : Option String
deriving DecidableEq

namespace SurfaceSubscription

/-- The members of an object are in the order of their names. -/
def unsubscribeRequest (subscription : SurfaceSubscription) (id : Nat) : Json :=
  Json.object
    ([("id", .nat id), ("jsonrpc", .string "2.0".toList), ("method", .string "surface.io.unsubscribe".toList),
      ("params", Json.object [("subscription_id", .nat subscription.subscriptionId)])] ++
    subscription.token.toList.map fun token => ("token", .string token.toList))

structure Unsubscribed where
  written : List UInt8
  result : Option (Except SubscriptionError Unit)

def checkResponse (value : Value) : Except SubscriptionError Unit :=
  match value.get "error" with
  | some error => .error (.unsubscribe error)
  | none => .ok ()

def awaitResponse (serde : Serde) (incoming : Incoming) : Option (Except SubscriptionError Unit) :=
  match incoming.lines with
  | line :: _ => some ((lineValue serde line).bind checkResponse)
  | [] => if incoming.closed then some ((readValue serde incoming.tail).bind checkResponse) else none

/-- `id` is the number that `REQUEST_ID` gives. -/
def unsubscribe (serde : Serde) (subscription : SurfaceSubscription) (id : Nat) (incoming : Incoming) :
    Unsubscribed :=
  { written := Text.encodeUtf8 ((subscription.unsubscribeRequest id).render ++ ['\n'])
    result := awaitResponse serde incoming }

end SurfaceSubscription

open SurfaceSubscription

variable {serde : Serde}

def isEventLine (serde : Serde) (line : List UInt8) : Bool :=
  match lineValue serde line with
  | .error _ => false
  | .ok value =>
    (value.get "method").bind Value.asStr = some "surface.io.event" && (value.get "error").isNone

def isResponseLine (serde : Serde) (id : Nat) (line : List UInt8) : Bool :=
  match lineValue serde line with
  | .error _ => false
  | .ok value => (value.get "id").bind asU64 = some id

def reportsSuccess (serde : Serde) (line : List UInt8) : Bool :=
  match lineValue serde line with
  | .error _ => false
  | .ok value => (value.get "error").isNone

/-- What a server sends once the request has been written: events, the response, and anything behind it. -/
structure Transcript (serde : Serde) (id : Nat) where
  events : List (List UInt8)
  response : List UInt8
  rest : Incoming
  events_are : ∀ line ∈ events, isEventLine serde line = true
  response_is : isResponseLine serde id response = true

def Transcript.incoming {id : Nat} (t : Transcript serde id) : Incoming :=
  { t.rest with lines := t.events ++ t.response :: t.rest.lines }

theorem reportsSuccess_of_isEventLine {l : List UInt8} (h : isEventLine serde l = true) :
    reportsSuccess serde l = true := by
  unfold isEventLine at h
  unfold reportsSuccess
  cases hv : lineValue serde l with
  | error e => simp [hv] at h
  | ok v =>
    rw [hv] at h
    exact (Bool.and_eq_true_iff.mp h).2

theorem unsubscribe_ok_iff (sub : SurfaceSubscription) (id : Nat) (incoming : Incoming)
    {l : List UInt8} (h : incoming.lines.head? = some l) :
    (sub.unsubscribe serde id incoming).result = some (.ok ()) ↔ reportsSuccess serde l = true := by
  obtain ⟨lines, hl⟩ := List.head?_eq_some_iff.mp h
  unfold unsubscribe awaitResponse reportsSuccess
  rw [hl]
  dsimp only
  cases lineValue serde l with
  | error e => simp [Except.bind]
  | ok v => cases hg : v.get "error" <;> simp [Except.bind, checkResponse, hg]

/-- **Acknowledgement**, exactly if no event line comes before the response, or if it is a success. -/
theorem unsubscribe_acknowledges_iff (subscription : SurfaceSubscription) {id : Nat} (t : Transcript serde id) :
    ((subscription.unsubscribe serde id t.incoming).result = some (.ok ()) ↔
      reportsSuccess serde t.response = true) ↔
    t.events = [] ∨ reportsSuccess serde t.response = true := by
  cases he : t.events with
  | nil =>
    have hf : t.incoming.lines.head? = some t.response := by simp [Transcript.incoming, he]
    simp [unsubscribe_ok_iff subscription id _ hf]
  | cons ev events =>
    have hf : t.incoming.lines.head? = some ev := by simp [Transcript.incoming, he]
    have hs : reportsSuccess serde ev = true :=
      reportsSuccess_of_isEventLine (t.events_are ev (he ▸ List.mem_cons_self))
    simp [unsubscribe_ok_iff subscription id _ hf, hs]

def watcher : SurfaceSubscription := { subscriptionId := 1, token := none }

def refusedTranscript : Transcript plainSerde 2 where
  events := [Text.encodeUtf8
    ("\x7b\"jsonrpc\":\"2.0\",\"method\":\"surface.io.event\",\"params\":\x7b" ++
      "\"subscription_id\":1,\"surface_id\":\"s\",\"seq\":1,\"kind\":\"exit\",\"timestamp\":null\x7d\x7d").toList]
  response := Text.encodeUtf8
    ("\x7b\"jsonrpc\":\"2.0\",\"id\":2,\"error\":" ++
      "\x7b\"code\":-32000,\"message\":\"live surface events unavailable\"\x7d\x7d").toList
  rest := { lines := [], tail := [], closed := false }
  events_are := by decide +kernel
  response_is := by decide +kernel

/-- The call succeeds, though the request was refused. -/
theorem unsubscribe_misses_refusal :
    ¬ ((watcher.unsubscribe plainSerde 2 refusedTranscript.incoming).result = some (.ok ()) ↔
      reportsSuccess plainSerde refusedTranscript.response = true) := by
  have hr : reportsSuccess plainSerde refusedTranscript.response = false := by decide +kernel
  have he := refusedTranscript.events_are _ List.mem_cons_self
  have hok : (watcher.unsubscribe plainSerde 2 refusedTranscript.incoming).result = some (.ok ()) := by
    refine (unsubscribe_ok_iff watcher 2 _ ?_).mpr (reportsSuccess_of_isEventLine he)
    rfl
  intro h
  rw [h.mp hok] at hr
  cases hr

end ShareCli.Session
