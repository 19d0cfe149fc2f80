import Mathlib.Algebra.Order.Ring.Nat
import ShareCli.Foundation.Machine
import ShareCli.Foundation.Text

/-!
# Health checks (`health_check.rs`)

The environment says how each attempt to connect, to write and to read ends. A read into a buffer hands over at
most as many bytes as the buffer has. A text slice outside of the boundaries of characters panics, and a panic
ends the task.
-/

namespace ShareCli.Serve

open Foundation

def isCharBoundary (bytes : List UInt8) (i : Nat) : Bool :=
  match bytes[i]? with
  | none => i = bytes.length
  | some b => b < 0x80 || 0xc0 ≤ b

/-- `&text[i..j]`; `none` is a panic. -/
def strSlice (bytes : List UInt8) (i j : Nat) : Option (List UInt8) :=
  if i ≤ j ∧ isCharBoundary bytes i ∧ isCharBoundary bytes j then some ((bytes.drop i).take (j - i)) else none

inductive Attempt (α : Type) where
  | done (value : α)
  | failed (error : String)
  | timedOut
deriving DecidableEq

/-- What the peer does. -/
structure Exchange where
  connect : Attempt Unit
  write : Attempt Unit
  /-- The parts in which what the server sends comes out of the connection. -/
  segments : List (List UInt8)
  /-- The end of the stream, an error or nothing in time. -/
  afterwards : Attempt Unit
deriving DecidableEq

def Exchange.read (exchange : Exchange) (size : Nat) : Attempt (List UInt8) :=
  match exchange.segments with
  | segment :: _ => .done (segment.take size)
  | [] =>
    match exchange.afterwards with
    | .done () => .done []
    | .failed error => .failed error
    | .timedOut => .timedOut

inductive Probe where
  | ok
  | err (message : String)
  | panicked
deriving DecidableEq

def httpSlash : List UInt8 := [0x48, 0x54, 0x54, 0x50, 0x2f]

def nonSuccess (response : List UInt8) : Probe :=
  let statusLine := ((Text.decodeUtf8 response).getD []).take 32
  .err s!"HTTP probe got non-2xx response: '{String.ofList (Text.trim statusLine)}'"

def checkResponse (buf : List UInt8) : Probe :=
  let response := if (Text.decodeUtf8 buf).isSome then buf else []
  if httpSlash.isPrefixOf response && 12 ≤ response.length then
    match strSlice response 9 10 with
    | none => .panicked
    | some digit => if digit = [0x32] then .ok else nonSuccess response
  else nonSuccess response

def stripPrefix? (start text : List Char) : Option (List Char) :=
  if start.isPrefixOf text then some (text.drop start.length) else none

def probeHttp (url : List Char) (exchange : Exchange) : Probe :=
  match (stripPrefix? "http://".toList url).or (stripPrefix? "https://".toList url) with
  | none => .err s!"unsupported scheme in '{String.ofList url}'"
  | some withoutScheme =>
    let hostPort := withoutScheme.takeWhile (· ≠ '/')
    let addr := String.ofList (if ':' ∈ hostPort then hostPort else hostPort ++ ":80".toList)
    match exchange.connect with
    | .timedOut => .err s!"HTTP connect to '{addr}' timed out"
    | .failed e => .err s!"HTTP connect to '{addr}' failed: {e}"
    | .done () =>
      match exchange.write with
      | .timedOut => .err "HTTP write timed out"
      | .failed e => .err s!"HTTP write error: {e}"
      | .done () =>
        match exchange.read 32 with
        | .timedOut => .err "HTTP read timed out"
        | .failed e => .err s!"HTTP read error: {e}"
        | .done buf => checkResponse buf

def probeTcp (addr : List Char) (timeoutSecs : Nat) (exchange : Exchange) : Probe :=
  match exchange.connect with
  | .timedOut => .err s!"TCP connect to '{String.ofList addr}' timed out after {timeoutSecs}s"
  | .failed e => .err s!"TCP connect to '{String.ofList addr}' failed: {e}"
  | .done () => .ok

def trimStartMatches (start : List Char) : Nat → List Char → List Char
  | 0, text => text
  | fuel + 1, text =>
    match stripPrefix? start text with
    | none => text
    | some rest => trimStartMatches start fuel rest

def probeEndpoint (endpoint : List Char) (timeoutSecs : Nat) (exchange : Exchange) : Probe :=
  if "http://".toList.isPrefixOf endpoint || "https://".toList.isPrefixOf endpoint then
    probeHttp endpoint exchange
  else probeTcp (trimStartMatches "tcp://".toList endpoint.length endpoint) timeoutSecs exchange

structure HealthCheckConfig where
  timeoutSecs : Nat := 5
  failureThreshold : UInt32 := 3
  endpoints : List (List Char) := []
deriving DecidableEq

/-- The state of a check. -/
structure HealthStatus where
  healthy : Bool := true
  consecutiveFailures : UInt32 := 0
  lastError : Option String := none
deriving DecidableEq

/-- `world` says what a connection to an endpoint comes to. -/
def probeEndpoints (timeoutSecs : Nat) (world : List Char → Exchange) : List (List Char) → Probe
  | [] => .ok
  | endpoint :: endpoints =>
    match probeEndpoint endpoint timeoutSecs (world endpoint) with
    | .ok => probeEndpoints timeoutSecs world endpoints
    | failure => failure

/-- The status after a probe, and the message of the notification. The counter wraps around in a release build. -/
def HealthStatus.record (status : HealthStatus) (name : String) (threshold : UInt32) :
    Option String → HealthStatus × Option String
  | none => ({ healthy := true, consecutiveFailures := 0, lastError := none }, none)
  | some error =>
    let failures := status.consecutiveFailures + 1
    if threshold ≤ failures then
      ({ healthy := false, consecutiveFailures := failures, lastError := some error },
        if status.healthy then
          some s!"process '{name}' unhealthy after {failures} consecutive failures: {error}"
        else none)
    else ({ status with consecutiveFailures := failures, lastError := some error }, none)

/-- A status and the notifications. -/
structure Poller where
  status : HealthStatus := {}
  notifications : List String := []
deriving DecidableEq

def Poller.finish (poller : Poller) (name : String) (cfg : HealthCheckConfig) (outcome : Option String) :
    Poller :=
  let (status, notification) := poller.status.record name cfg.failureThreshold outcome
  { status, notifications := poller.notifications ++ notification.toList }

/-- A panic ends the task. -/
def Poller.probeAll (poller : Poller) (name : String) (cfg : HealthCheckConfig)
    (world : List Char → Exchange) : Option Poller :=
  if cfg.endpoints.isEmpty then some poller
  else
    match probeEndpoints (max cfg.timeoutSecs 1) world cfg.endpoints with
    | .panicked => none
    | .ok => some (poller.finish name cfg none)
    | .err message => some (poller.finish name cfg (some message))

def pollMachine (name : String) (cfg : HealthCheckConfig) : Machine Poller (List Char → Exchange) where
  init := {}
  step poller world := poller.probeAll name cfg world

end ShareCli.Serve
