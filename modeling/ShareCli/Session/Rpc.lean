import ShareCli.Session.Events
import ShareCli.Session.Layout

/-!
# The surface control socket (`crates/sharecli-session/src/rpc.rs`)

A request line is dispatched to a `SurfaceControl` provider or to the event hub. With an expected token the line
is read twice: the token check deserialises the text into the struct `SurfaceRequest`, while the dispatcher
deserialises it into a `Value` and that into the struct. A line that the check cannot deserialise is passed on.
-/

namespace ShareCli.Session

open Foundation

def jsonRpcVersion : String := "2.0"

def maxSurfaceSendBytes : Nat := 64 * 1024

def maxSurfaceReadBytes : Nat := 1024 * 1024

/-- Which literals are finite floating-point numbers, and the texts of the errors. -/
structure Serde where
  finite : List Char → Bool
  fromStrError : String → String
  fromValueError : Value → String

/-- What it returns is given as the JSON value it is serialised to. -/
structure SurfaceControl where
  list : Except String Value
  send : String → List UInt8 → Except String Unit
  read : String → Nat → Except String (List UInt8)
  resize : String → Nat → Nat → Except String Unit
  capabilities : String → Except String Value
  snapshotLayout : Except String Value
  restoreLayout : LayoutSnapshot → Except String Value

inductive SurfaceCall where
  | list
  | send (surfaceId : String) (bytes : List UInt8)
  | read (surfaceId : String) (maxBytes : Nat)
  | resize (surfaceId : String) (rows cols : Nat)
  | capabilities (surfaceId : String)
  | snapshotLayout
  | restoreLayout (snapshot : LayoutSnapshot)
  | subscribe (request : SurfaceSubscribeRequest)
  | unsubscribe (subscriptionId : Nat)

/-- A line of the client. -/
structure SurfaceRequest where
  jsonrpc : String
  id : Option Value
  method : String
  token : Option String

def SurfaceRequest.fieldNames : List String := ["jsonrpc", "id", "method", "token"]

/-- Only `token` has a default. -/
def SurfaceRequest.decode {α : Type} (src : Source α) (fs : Fields α) : Option SurfaceRequest :=
  if fs.accepts fieldNames then
    (fs.required fieldNames "jsonrpc" src.string).bind fun jsonrpc =>
      (fs.optional fieldNames "id" (src.option src.value)).bind fun id =>
        (fs.required fieldNames "method" src.string).bind fun method =>
          (fs.defaulted fieldNames "token" none (src.option src.string)).map fun token =>
            { jsonrpc, id, method, token }
  else none

/-- A JSON-RPC error. -/
structure RpcError where
  code : Int
  message : String
deriving DecidableEq

/-- The line that answers it. -/
structure SurfaceResponse where
  id : Value
  result : Option Value
  error : Option RpcError

def surfaceError (id : Value) (code : Int) (message : String) : SurfaceResponse :=
  { id, result := none, error := some { code, message } }

inductive SurfaceMethod where
  | list
  | ioSend
  | ioRead
  | ioResize
  | ioCapabilities
  | layoutSnapshot
  | layoutRestore
  | ioSubscribe
  | ioUnsubscribe
deriving DecidableEq

def SurfaceMethod.name : SurfaceMethod → String
  | .list => "surface.list"
  | .ioSend => "surface.io.send"
  | .ioRead => "surface.io.read"
  | .ioResize => "surface.io.resize"
  | .ioCapabilities => "surface.io.capabilities"
  | .layoutSnapshot => "surface.layout.snapshot"
  | .layoutRestore => "surface.layout.restore"
  | .ioSubscribe => "surface.io.subscribe"
  | .ioUnsubscribe => "surface.io.unsubscribe"

def SurfaceMethod.ofName (name : String) : Option SurfaceMethod :=
  [list, ioSend, ioRead, ioResize, ioCapabilities, layoutSnapshot, layoutRestore, ioSubscribe,
    ioUnsubscribe].find? fun m => m.name = name

structure SendParams where
  surfaceId : String
  text : Option String
  bytes : Option (List UInt8)

def decodeBytes : Value → Option (List UInt8)
  | .arr items => items.mapM fun v => (Value.source.below (2 ^ 8) v).map UInt8.ofNat
  | _ => none

def SendParams.fieldNames : List String := ["surface_id", "text", "bytes"]

def SendParams.decode (fs : Fields Value) : Option SendParams :=
  if fs.accepts fieldNames then
    (fs.required fieldNames "surface_id" Value.source.string).bind fun surfaceId =>
      (fs.defaulted fieldNames "text" none (Value.source.option Value.source.string)).bind fun text =>
        (fs.defaulted fieldNames "bytes" none (Value.source.option decodeBytes)).map fun bytes =>
          { surfaceId, text, bytes }
  else none

/-- The payload: exactly one of the two fields is given. -/
def SendParams.payload (params : SendParams) : Option (List UInt8) :=
  match params.text, params.bytes with
  | some text, none => some (Text.encodeUtf8 text.toList)
  | none, some bytes => some bytes
  | _, _ => none

structure ReadParams where
  surfaceId : String
  maxBytes : Nat

def ReadParams.fieldNames : List String := ["surface_id", "max_bytes"]

def ReadParams.decode (fs : Fields Value) : Option ReadParams :=
  if fs.accepts fieldNames then
    (fs.required fieldNames "surface_id" Value.source.string).bind fun surfaceId =>
      (fs.required fieldNames "max_bytes" (Value.source.below (2 ^ 64))).map fun maxBytes =>
        { surfaceId, maxBytes }
  else none

structure ResizeParams where
  surfaceId : String
  rows : Nat
  cols : Nat

def ResizeParams.fieldNames : List String := ["surface_id", "rows", "cols"]

def ResizeParams.decode (fs : Fields Value) : Option ResizeParams :=
  if fs.accepts fieldNames then
    (fs.required fieldNames "surface_id" Value.source.string).bind fun surfaceId =>
      (fs.required fieldNames "rows" (Value.source.below (2 ^ 16))).bind fun rows =>
        (fs.required fieldNames "cols" (Value.source.below (2 ^ 16))).map fun cols =>
          { surfaceId, rows, cols }
  else none

/-- A struct with one field, as `SurfaceIdParams`, `RestoreParams` and `UnsubscribeParams` are. -/
def decodeSingle {β : Type} (name : String) (decode : Value → Option β) (fs : Fields Value) : Option β :=
  if fs.accepts [name] then fs.required [name] name decode else none

def decodeSurfaceIdParams : Fields Value → Option String := decodeSingle "surface_id" Value.source.string

def decodeRestoreParams : Fields Value → Option LayoutSnapshot :=
  decodeSingle "snapshot" LayoutSnapshot.decode

def decodeUnsubscribeParams : Fields Value → Option Nat :=
  decodeSingle "subscription_id" (Value.source.below (2 ^ 64))

/-- What a method has done. -/
structure MethodOutcome where
  result : Except (Int × String) Value
  calls : List SurfaceCall
  events : Option HubState

namespace MethodOutcome

def refuse (events : Option HubState) (code : Int) (message : String) : MethodOutcome :=
  { result := .error (code, message), calls := [], events }

/-- `control_error` makes an error of the provider's error. -/
def answer (events : Option HubState) (call : SurfaceCall) (result : Except String Value) :
    MethodOutcome :=
  { result := result.mapError fun e => (-32000, e), calls := [call], events }

end MethodOutcome

section Dispatch

variable (serde : Serde) (control : SurfaceControl)

def decodeParams {β : Type} (params : Value) (events : Option HubState)
    (decode : Fields Value → Option β) (next : β → MethodOutcome) : MethodOutcome :=
  match params.fields.bind decode with
  | none => .refuse events (-32602) ("invalid params: " ++ serde.fromValueError params)
  | some p => next p

/-- A provider may not return more than was asked for. -/
def readResult (maxBytes : Nat) (bytes : List UInt8) : Except String Value :=
  if bytes.length > maxBytes then
    .error ("surface provider returned " ++ toString bytes.length ++ " bytes for a " ++
      toString maxBytes ++ " byte read")
  else .ok (.obj [("bytes", .arr (bytes.map fun b => .num (.posInt b.toNat)))])

def isEmptyObject : Value → Bool
  | .obj [] => true
  | _ => false

def dispatchSurfaceMethodWithEvents (method : String) (params : Value) (events : Option HubState) :
    MethodOutcome :=
  match SurfaceMethod.ofName method with
  | none => .refuse events (-32601) ("unknown method: " ++ method)
  | some .list => .answer events .list control.list
  | some .ioSend =>
    decodeParams serde params events SendParams.decode fun p =>
      match p.payload with
      | none =>
        .refuse events (-32602) "exactly one of params.text or params.bytes is required"
      | some bytes =>
        if bytes.length > maxSurfaceSendBytes then
          .refuse events (-32602)
            ("payload must not exceed " ++ toString maxSurfaceSendBytes ++ " bytes")
        else
          .answer events (.send p.surfaceId bytes)
            ((control.send p.surfaceId bytes).map fun _ => .null)
  | some .ioRead =>
    decodeParams serde params events ReadParams.decode fun p =>
      if p.maxBytes > maxSurfaceReadBytes then
        .refuse events (-32602) ("max_bytes must not exceed " ++ toString maxSurfaceReadBytes)
      else
        .answer events (.read p.surfaceId p.maxBytes)
          ((control.read p.surfaceId p.maxBytes).bind (readResult p.maxBytes))
  | some .ioResize =>
    decodeParams serde params events ResizeParams.decode fun p =>
      if p.rows = 0 ∨ p.cols = 0 then
        .refuse events (-32602) "rows and cols must be greater than zero"
      else
        .answer events (.resize p.surfaceId p.rows p.cols)
          ((control.resize p.surfaceId p.rows p.cols).map fun _ => .null)
  | some .ioCapabilities =>
    decodeParams serde params events decodeSurfaceIdParams fun surfaceId =>
      .answer events (.capabilities surfaceId) (control.capabilities surfaceId)
  | some .layoutSnapshot =>
    if isEmptyObject params then .answer events .snapshotLayout control.snapshotLayout
    else .refuse events (-32602) "surface.layout.snapshot takes no params"
  | some .layoutRestore =>
    decodeParams serde params events decodeRestoreParams fun snapshot =>
      match snapshot.validate with
      | .error e => .refuse events (-32000) e
      | .ok _ => .answer events (.restoreLayout snapshot) (control.restoreLayout snapshot)
  | some .ioSubscribe =>
    match events with
    | none => .refuse none (-32000) "live surface events unavailable"
    | some hub =>
      decodeParams serde params events (SurfaceSubscribeRequest.decode Value.source) fun request =>
        match hub.subscribe request with
        | .error e =>
          { result := .error (-32602, e.message), calls := [.subscribe request], events }
        | .ok (ack, hub) =>
          { result := .ok ack.toValue, calls := [.subscribe request], events := some hub }
  | some .ioUnsubscribe =>
    match events with
    | none => .refuse none (-32000) "live surface events unavailable"
    | some hub =>
      decodeParams serde params events decodeUnsubscribeParams fun subscriptionId =>
        { result := .ok (.obj [("unsubscribed", .bool (hub.unsubscribe subscriptionId).1)])
          calls := [.unsubscribe subscriptionId]
          events := some (hub.unsubscribe subscriptionId).2 }

structure Dispatched where
  response : SurfaceResponse
  calls : List SurfaceCall
  events : Option HubState

def Dispatched.refuse (events : Option HubState) (id : Value) (code : Int) (message : String) :
    Dispatched :=
  { response := surfaceError id code message, calls := [], events }

/-- An empty object if there are none, nothing if they are no object. -/
def paramsOf (raw : Value) : Option Value :=
  match raw.get "params" with
  | none => some (.obj [])
  | some params => if params.isObject then some params else none

def Dispatched.ofOutcome (id : Value) (outcome : MethodOutcome) : Dispatched :=
  { response :=
      match outcome.result with
      | .ok result => { id, result := some result, error := none }
      | .error (code, message) => surfaceError id code message
    calls := outcome.calls
    events := outcome.events }

def dispatchSurfaceInternal (line : String) (events : Option HubState) : Dispatched :=
  match Value.fromStr serde.finite line.toList with
  | none => .refuse events .null (-32700) ("parse error: " ++ serde.fromStrError line)
  | some raw =>
    match paramsOf raw with
    | none =>
      .refuse events ((raw.get "id").getD .null) (-32602) "params must be a JSON object"
    | some params =>
      match fromValue SurfaceRequest.decode raw with
      | none => .refuse events .null (-32600) ("invalid request: " ++ serde.fromValueError raw)
      | some request =>
        if request.jsonrpc ≠ jsonRpcVersion then
          .refuse events (request.id.getD .null) (-32600) "jsonrpc must be \"2.0\""
        else
          .ofOutcome (request.id.getD .null)
            (dispatchSurfaceMethodWithEvents serde control request.method params events)

def dispatchSurface (line : String) : Dispatched := dispatchSurfaceInternal serde control line none

def dispatchSurfaceWithEvents (events : HubState) (line : String) : Dispatched :=
  dispatchSurfaceInternal serde control line (some events)

def checkToken (line : String) (expectedToken : Option String) (events : Option HubState)
    (dispatch : Dispatched) : Dispatched :=
  match expectedToken with
  | none => dispatch
  | some expected =>
    match fromStr serde.finite SurfaceRequest.decode line.toList with
    | none => dispatch
    | some request =>
      if request.token ≠ some expected then
        .refuse events (request.id.getD .null) (-32001) "invalid control token"
      else dispatch

def dispatchSurfaceWithToken (line : String) (expectedToken : Option String) : Dispatched :=
  checkToken serde line expectedToken none (dispatchSurface serde control line)

def dispatchSurfaceWithTokenAndEvents (events : HubState) (line : String)
    (expectedToken : Option String) : Dispatched :=
  checkToken serde line expectedToken (some events) (dispatchSurfaceWithEvents serde control events line)

end Dispatch

end ShareCli.Session
