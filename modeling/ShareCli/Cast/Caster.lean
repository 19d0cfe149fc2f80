import ShareCli.Cast.Address
import ShareCli.Foundation.Serde
import ShareCli.Foundation.Shell

/-!
# Casting text into panes (`src/cast/caster.rs`, `src/commands/cast.rs`)

`cast send` tries a chain of casters, most of them with retries: an outcome that is not `Unsupported` ends the
chain. The output of commands is given as text.
-/

namespace ShareCli.Cast

open Foundation

inductive SendOutcome where
  | delivered
  | needsFocus
  | unsupported (message : String)
  | failed (message : String)
deriving DecidableEq

/-- What `cfg!(target_os = ..)` tells apart. -/
inductive Platform where
  | macos
  | windows
  | other
deriving DecidableEq

/-- A way to send to a pane. -/
structure Caster where
  name : String
  send : PaneAddress → String → ShellProgram SendOutcome

def command (bin : String) (args : List String) : Invocation := { bin, args, stdin := none }

def commandWithStdin (bin : String) (args : List String) (text : String) : Invocation :=
  { bin, args, stdin := some (Text.encodeUtf8 text.toList) }

structure WeztermPane where
  windowId : UInt32
  paneId : UInt32
deriving DecidableEq

def WeztermPane.fieldNames : List String := ["window_id", "pane_id"]

def WeztermPane.decode {α : Type} (src : Source α) (fs : Fields α) : Option WeztermPane :=
  if fs.accepts fieldNames then
    (fs.required fieldNames "window_id" (src.below (2 ^ 32))).bind fun windowId =>
      (fs.required fieldNames "pane_id" (src.below (2 ^ 32))).map fun paneId =>
        { windowId := UInt32.ofNat windowId, paneId := UInt32.ofNat paneId }
  else none

/-- `serde_json::from_str` for a list of panes; no field is a floating-point number. -/
def parsePanes (body : String) : Option (List WeztermPane) :=
  (Json.parse body.toList).bind fun
    | .arr items =>
      items.mapM fun item =>
        item.fields.bind (WeztermPane.decode (Json.source (fun _ => true) (recursionLimit - 2)))
    | _ => none

/-- The panes of a window are numbered in the order of their ids. -/
def findPane (panes : List WeztermPane) (addr : PaneAddress) : Option UInt32 :=
  let inWindow := panes.filter fun p => p.windowId = addr.window
  let sorted := inWindow.mergeSort fun p q => p.paneId ≤ q.paneId
  (sorted[addr.pane.toNat]?).map WeztermPane.paneId

def listCommand : Invocation := command "wezterm" ["cli", "list", "--format", "json"]

def sendTextCommand (paneId : UInt32) (text : String) : Invocation :=
  command "wezterm" ["cli", "send-text", "--pane-id", toString paneId, "--no-paste", text]

/-- `resolve_pane_id`; what is no list of panes counts as empty. -/
def resolvePaneId (addr : PaneAddress) : RunAnswer → Except String (Option UInt32)
  | .error e => .error ("wezterm cli list failed to spawn: " ++ e.text)
  | .ok output =>
    if output.success then .ok ((parsePanes output.stdout).bind fun panes => findPane panes addr)
    else .error ("wezterm cli list exited " ++ output.status ++ ": " ++ output.stderr)

def sendTextOutcome : RunAnswer → SendOutcome
  | .error e => .failed e.text
  | .ok output =>
    if output.success then .delivered
    else .failed ("wezterm cli send-text exited " ++ output.status ++ ": " ++ output.stderr)

def weztermCaster : Caster where
  name := "wezterm"
  send addr text :=
    .run listCommand fun answer =>
      match resolvePaneId addr answer with
      | .ok (some paneId) =>
        .run (sendTextCommand paneId text) fun answer => .done (sendTextOutcome answer)
      | .ok none =>
        .done (.failed ("no wezterm pane matching window:" ++ toString addr.window ++ " pane:" ++
          toString addr.pane))
      | .error e => .done (.failed e)

def gotoWindowCommand (window : UInt32) : Invocation :=
  command "ghostty" ["+action", "goto_window", toString window]

def pasteCommand : Invocation := command "ghostty" ["+action", "paste-from-clipboard"]

def pasteOutcome : RunAnswer → SendOutcome
  | .error e => .failed ("ghostty paste spawn failed: " ++ e.text)
  | .ok output =>
    if output.success then .delivered
    else .failed ("ghostty paste-from-clipboard exited " ++ output.status ++ ": " ++ output.stderr)

def ghosttyCaster : Caster where
  name := "ghostty"
  send addr text :=
    .which "ghostty" fun found =>
      if found then
        .run (commandWithStdin "pbcopy" [] text) fun
          | .error e => .done (.failed ("pbcopy failed: " ++ e.text))
          | .ok _ =>
            .run (gotoWindowCommand addr.window) fun
              | .error e => .done (.failed ("ghostty goto_window failed: " ++ e.text))
              | .ok _ => .run pasteCommand fun answer => .done (pasteOutcome answer)
      else .done (.unsupported "ghostty binary not on PATH")

def sshTarget (addr : PaneAddress) : Option String :=
  match addr.host with
  | .ssh user host => some (user ++ "@" ++ host)
  | .tailscale => some (addr.machine ++ ".ts.net")
  | .localHost => none

def sshOutcome : RunAnswer → SendOutcome
  | .error e => .failed ("ssh winterm spawn failed: " ++ e.text)
  | .ok output =>
    if output.success then .needsFocus
    else .failed ("ssh winterm exited " ++ output.status ++ ": " ++ output.stderr)

def sshWinTermCaster : Caster where
  name := "ssh-winterm"
  send addr text :=
    match sshTarget addr with
    | none =>
      .done (.unsupported ("SshWinTermCaster is for remote hosts only; " ++
        "use WeztermCaster or GhosttyCaster for local"))
    | some target =>
      .which "ssh" fun found =>
        if found then
          .run (commandWithStdin "ssh"
            [target, "powershell", "-NoProfile", "-Command", "$input | Set-Clipboard"] text)
            fun answer => .done (sshOutcome answer)
        else .done (.unsupported "ssh binary not on PATH")

def clipboardOutcome (bin : String) : RunAnswer → SendOutcome
  | .error (.write e) => .failed ("clipboard write failed: " ++ e)
  | .error e => .failed e.text
  | .ok output =>
    if output.success then .delivered
    else .failed (bin ++ " exited " ++ output.status ++ ": " ++ output.stderr)

def copyWith (bin : String) (args : List String) (text : String) : ShellProgram SendOutcome :=
  .run (commandWithStdin bin args text) fun answer => .done (clipboardOutcome bin answer)

variable (platform : Platform)

def clipboardCaster : Caster where
  name := "clipboard"
  send _ text :=
    match platform with
    | .macos => copyWith "pbcopy" [] text
    | .windows => copyWith "clip" [] text
    | .other =>
      .which "wl-copy" fun found =>
        if found then copyWith "wl-copy" [] text
        else
          .which "xclip" fun found =>
            if found then copyWith "xclip" ["-selection", "clipboard"] text
            else
              .done (.unsupported "no clipboard binary (pbcopy/clip/wl-copy/xclip) on PATH")

/-- `RetryCaster::send` with `left` attempts left, the next one being number `attempt`. -/
def retryLoop (send : ShellProgram SendOutcome) (maxAttempts baseDelayMs : Nat) :
    (left attempt : Nat) → Option SendOutcome → ShellProgram SendOutcome
  | 0, _, last => .done (last.getD (.failed "retry exhausted without recorded error"))
  | left + 1, attempt, _ =>
    send.bind fun outcome =>
      match outcome with
      | .failed _ =>
        if attempt < maxAttempts then
          .sleep (baseDelayMs * 2 ^ (attempt - 1))
            (retryLoop send maxAttempts baseDelayMs left (attempt + 1) (some outcome))
        else retryLoop send maxAttempts baseDelayMs left (attempt + 1) (some outcome)
      | outcome => .done outcome

def retryCaster (inner : Caster) (maxAttempts baseDelayMs : Nat) : Caster where
  name := inner.name
  send addr text := retryLoop (inner.send addr text) maxAttempts baseDelayMs maxAttempts 1 none

/-- `send_with_fallback`; `lastUnsupported` is what the last caster said that did not support it. -/
def sendWithFallback (addr : PaneAddress) (text : String) :
    List (Caster × String) → (lastUnsupported : Option String) → ShellProgram SendOutcome
  | [], lastUnsupported => .done (.unsupported (lastUnsupported.getD "no casters configured"))
  | (caster, label) :: casters, _ =>
    (caster.send addr text).bind fun
      | .unsupported message => sendWithFallback addr text casters (some (label ++ ": " ++ message))
      | outcome => .done outcome

def casters : List (Caster × String) :=
  [(retryCaster weztermCaster 3 200, "wezterm-retry"), (retryCaster ghosttyCaster 3 200, "ghostty-retry"),
    (retryCaster sshWinTermCaster 2 1000, "ssh-winterm-retry"),
    (clipboardCaster platform, "clipboard")]

def castText (addr : PaneAddress) (text : String) : ShellProgram SendOutcome :=
  sendWithFallback addr text (casters platform) none

def reportOutcome (name : String) (addr : PaneAddress) : SendOutcome → String
  | .delivered => "Sent to pane '" ++ name ++ "' (" ++ addr.display ++ ")"
  | .needsFocus => "Pane '" ++ name ++ "' needs focus (text delivered to buffer)"
  | .unsupported message => "Cast unsupported for pane '" ++ name ++ "': " ++ message
  | .failed message => "Cast failed for pane '" ++ name ++ "': " ++ message

/-- The line that is printed, if there is one, and the result. -/
def send (platform : Platform) (name : String) (resolved : Except String (Option PaneAddress))
    (text : Except String String) : ShellProgram (Option String × Except String Unit) :=
  match resolved with
  | .error e => .done (none, .error e)
  | .ok none => .done (none, .error ("no pane registered as '" ++ name ++ "'"))
  | .ok (some addr) =>
    match text with
    | .error e => .done (none, .error e)
    | .ok text =>
      if text = "" then
        .done (none, .error ("refusing to send empty text to pane '" ++ name ++ "'"))
      else
        (castText platform addr text).bind fun outcome =>
          .done (some (reportOutcome name addr outcome),
            match outcome with
            | .delivered | .needsFocus => .ok ()
            | .unsupported message | .failed message => .error ("cast send failed: " ++ message))

end ShareCli.Cast
