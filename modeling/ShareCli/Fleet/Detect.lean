import Mathlib.Data.List.Infix
import ShareCli.Foundation.Text

/-!
# Detection of agents (`crates/sharecli-fleet/src/detect.rs`)

A process belongs to a family of agents when its name or a word of its command line does, or when the command
line holds a text that is typical for the family. The patterns of `agent_patterns.toml` are a parameter.
-/

namespace ShareCli.Fleet

open Foundation

/-- How an agent is recognised. -/
structure RuntimePattern where
  family : String
  commNames : List String
  cmdlineMarkers : List String
  ambiguous : Bool
deriving DecidableEq

def ambiguousFamilies : List String := ["forge", "goose", "gemini", "cargo"]

def cmdlineFingerprints : List (String × List String) :=
  [("claude", ["claude", "claude-code", ".claude"]),
    ("codex", ["openai-codex", "@openai/codex", "codex-cli", "/bin/codex"]),
    ("gemini", ["gemini", "gemini-cli", "google-gemini"]),
    ("cursor-agent", ["cursor-agent", ".cursor", "cursor agent", "@cursor/agent"]),
    ("aider", ["aider", "aider-chat", ".aider"]),
    ("amp", ["amp", "amp-code", "sourcegraph/amp", "@sourcegraph/amp", ".amp"]),
    ("goose", ["goose", "block-goose", "goose-agent"]),
    ("forge", ["forge", ".forge", "forge conversation"]),
    ("jcode", ["jcode", ".jcode", "jcode-cli"]),
    ("opencode", ["opencode", ".opencode", "opencode-cli"])]

def startsWith (text start : String) : Bool := start.toList.isPrefixOf text.toList

def contains (text part : String) : Bool := text.toList.tails.any part.toList.isPrefixOf

def lastPart (separator : Char) (text : String) : String :=
  String.ofList (text.toList.reverse.takeWhile (· ≠ separator)).reverse

def runtimeCmdlineHasMarker (cmdline markers : List String) : Bool :=
  cmdline.any fun arg => markers.any fun marker => contains (Text.toAsciiLowercase arg) marker

def cmdlineHasFingerprint (family : String) (cmdline : List String) : Bool :=
  match cmdlineFingerprints.find? (·.1 = family) with
  | none => false
  | some (_, markers) => runtimeCmdlineHasMarker cmdline markers

variable (patterns : List RuntimePattern)

def matchToken (token : String) : Option String :=
  if token = "claude" || startsWith token "claude-" || contains token "claude-code" then some "claude"
  else if token = "codex" || token = "openai-codex" then some "codex"
  else if token = "gemini" || startsWith token "gemini-" then some "gemini"
  else if token = "cursor-agent" || token = "cursor-agent.exe" then some "cursor-agent"
  else if token = "aider" then some "aider"
  else if token = "amp" || token = "amp-cli" then some "amp"
  else if token = "goose" || startsWith token "goose-" then some "goose"
  else if token = "forge" || startsWith token "forge-" then some "forge"
  else if token = "jcode" || startsWith token "jcode-" || token = ".jcode" then some "jcode"
  else if token = "opencode" || startsWith token "opencode-" || token = ".opencode" then some "opencode"
  else (patterns.find? fun pat => pat.family = token || pat.commNames.contains token).map (·.family)

/-- A family whose short name is also that of other tools needs a typical text in the command line. -/
def familyAllowed (family : String) (cmdline : List String)
    (exactCommBasename : Bool) : Bool :=
  if ambiguousFamilies.contains family then
    (exactCommBasename && cmdline.isEmpty) || cmdlineHasFingerprint family cmdline
  else
    match patterns.find? fun pat => pat.family = family && pat.ambiguous with
    | some pat => (exactCommBasename && cmdline.isEmpty) || runtimeCmdlineHasMarker cmdline pat.cmdlineMarkers
    | none => true

def matchFingerprintOnly (cmdline : List String) : Option String :=
  match cmdlineFingerprints.find? fun entry => cmdlineHasFingerprint entry.1 cmdline with
  | some (family, _) => some family
  | none =>
    (patterns.find? fun pat => pat.ambiguous && runtimeCmdlineHasMarker cmdline pat.cmdlineMarkers).map (·.family)

def matchAllowed (cmdline : List String) (exact : String → Bool)
    (token : String) : Option String :=
  (matchToken patterns token).filter fun family => familyAllowed patterns family cmdline (exact family)

def matchArg (cmdline : List String) (arg : String) : Option String :=
  let t := Text.toAsciiLowercase arg
  let base := lastPart '\\' (lastPart '/' t)
  (matchAllowed patterns cmdline (fun _ => false) base).or (matchAllowed patterns cmdline (fun _ => false) t)

def matchKnownAgent (comm : String) (cmdline : List String) : Option String :=
  let comm := Text.toAsciiLowercase comm
  ((matchAllowed patterns cmdline (fun family => comm = family) comm).or
    (cmdline.findSome? (matchArg patterns cmdline))).or (matchFingerprintOnly patterns cmdline)

end ShareCli.Fleet
