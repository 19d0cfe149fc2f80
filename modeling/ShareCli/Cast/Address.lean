import Mathlib.Data.List.AList
import Mathlib.Data.String.Basic
import ShareCli.Foundation.Decimal
import ShareCli.Foundation.Result
import ShareCli.Foundation.Text

/-!
# Pane addresses (`src/cast/address.rs`) and the pane registry (`src/cast/registry.rs`)

An address is printed as `machine:host:window:pane`; `parse` takes the machine from the left, and then up to
two numbers from the right. With one number after it, the host has to end in something that is not taken for a
number itself (`NoIndex`). The registry is a TOML file with the printed address of each name.
-/

namespace ShareCli.Cast

open Foundation

inductive Host where
  | localHost
  | tailscale
  | ssh (user host : String)
deriving DecidableEq

def Host.display : Host → String
  | .localHost => "local"
  | .tailscale => "tailscale"
  | .ssh user host => "ssh:" ++ user ++ "@" ++ host

/-- A pane of a host. -/
structure PaneAddress where
  machine : String
  host : Host
  window : UInt32
  pane : UInt32
deriving DecidableEq

def PaneAddress.display (addr : PaneAddress) : String :=
  addr.machine ++ ":" ++ addr.host.display ++ ":" ++ toString addr.window ++ ":" ++ toString addr.pane

def splitOnce (s : List Char) (delim : Char) : Option (List Char × List Char) :=
  if delim ∈ s then some (s.takeWhile (· ≠ delim), (s.dropWhile (· ≠ delim)).tail) else none

def splitOnceRev (s : List Char) (delim : Char) : Option (List Char × List Char) :=
  (splitOnce s.reverse delim).map fun (right, left) => (left.reverse, right.reverse)

def parseIndex (s : List Char) (label : String) : Except String (Option UInt32) :=
  let negative := label ++ " index must be non-negative, got '" ++ String.ofList s ++ "'"
  if s = [] then .ok none
  else if !s.all Char.isDigit then if s.head? = some '-' then .error negative else .ok none
  else match Decimal.parseUnsigned 0x100000000 s with
    | some n => .ok (some (UInt32.ofNat n))
    | none => .error (label ++ " index out of range: '" ++ String.ofList s ++ "'")

/-- The pane, the window and what is left for the host. -/
def peelPaneWindow (s : List Char) : Except String (UInt32 × UInt32 × List Char) :=
  match splitOnceRev s ':' with
  | none => .ok (0, 0, s)
  | some (left, right) => do
    match ← parseIndex right "pane" with
    | none => .ok (0, 0, s)
    | some p =>
      match splitOnceRev left ':' with
      | none => .ok (p, 0, left)
      | some (left2, right2) =>
        match ← parseIndex right2 "window" with
        | none => .ok (p, 0, left)
        | some w => .ok (p, w, left2)

def parseHost (s : List Char) : Except String Host :=
  let text := String.ofList s
  if s = [] then .error "empty host specifier"
  else if s = "local".toList then .ok .localHost
  else if s = "tailscale".toList then .ok .tailscale
  else if "ssh:".toList <+: s then
    match splitOnce (s.drop 4) '@' with
    | none => .error ("ssh host must be 'ssh:user@host', got '" ++ text ++ "'")
    | some (user, host) =>
      if user = [] then .error ("empty ssh user in '" ++ text ++ "'")
      else if host = [] then .error ("empty ssh host in '" ++ text ++ "'")
      else .ok (.ssh (String.ofList user) (String.ofList host))
  else .error ("unknown host '" ++ text ++ "' (expected 'local', 'tailscale', or 'ssh:user@host')")

def isValidMachine (s : List Char) : Bool :=
  s ≠ [] && s.all fun c => c.isAlphanum || c = '-' || c = '_' || c = '.'

def PaneAddress.parse (s : String) : Except String PaneAddress :=
  if s = "" then .error "empty pane address"
  else match splitOnce s.toList ':' with
    | none => .error ("missing host: '" ++ s ++ "'")
    | some (machine, rest) =>
      if machine = [] then .error "empty machine name"
      else if !isValidMachine machine then
        .error ("invalid machine name '" ++ String.ofList machine ++ "' (allowed: a-zA-Z0-9._-)")
      else do
        let (pane, window, hostStr) ← peelPaneWindow rest
        let host ← parseHost hostStr
        return ⟨String.ofList machine, host, window, pane⟩

abbrev PaneMap := AList fun _ : String => String

/-- What `toml` does with a map of strings; `β` are its texts. -/
structure TomlFormat (β : Type) where
  toStringPretty : PaneMap → Except String β
  fromStr : β → Except String PaneMap
  roundTrip : ∀ map, ∃ body map', toStringPretty map = .ok body ∧ fromStr body = .ok map' ∧
    ∀ name, map'.lookup name = map.lookup name

inductive RegistryError where
  | emptyName
  | forbiddenCharacter (name : String) (c : Char)
  | parseRegistry (cause : String)
  | serialiseRegistry (cause : String)
  | malformedAddress (name raw cause : String)

def isForbidden (c : Char) : Bool :=
  c.toNat < 0x20 || (0x7f ≤ c.toNat && c.toNat < 0xa0) || Text.isWhitespace c || c = ':' || c = '/' || c = '\\'

def validateName (name : String) : Except RegistryError Unit :=
  if name = "" then .error .emptyName
  else match name.toList.find? isForbidden with
    | some c => .error (.forbiddenCharacter name c)
    | none => .ok ()

variable {β : Type} (toml : TomlFormat β) (file : Option β)

def load : Except RegistryError PaneMap :=
  match file with
  | none => .ok ∅
  | some body => (toml.fromStr body).mapError .parseRegistry

def save (map : PaneMap) : Except RegistryError β := (toml.toStringPretty map).mapError .serialiseRegistry

def register (name : String) (addr : PaneAddress) : Except RegistryError β := do
  validateName name
  save toml ((← load toml file).insert name addr.display)

def unregister (name : String) : Except RegistryError β := do
  save toml ((← load toml file).erase name)

def resolve (name : String) : Except RegistryError (Option PaneAddress) := do
  match (← load toml file).lookup name with
  | none => .ok none
  | some raw =>
    match PaneAddress.parse raw with
    | .ok addr => .ok (some addr)
    | .error cause => .error (.malformedAddress name raw cause)

inductive RegistryCall where
  | register (name : String) (addr : PaneAddress)
  | unregister (name : String)

def RegistryCall.name : RegistryCall → String
  | .register name _ | .unregister name => name

/-- The file after a call; one that fails does not write it. -/
def RegistryCall.perform (call : RegistryCall) : Option β :=
  let written := match call with
    | .register name addr => Cast.register toml file name addr
    | .unregister name => Cast.unregister toml file name
  match written with
  | .ok body => some body
  | .error _ => file

open PaneAddress RegistryCall List

variable {xs ys s hs : List Char} {d : Char} {m : String} {h : Host} {w p : UInt32}

theorem splitOnce_append (hd : d ∉ xs) (ys : List Char) : splitOnce (xs ++ d :: ys) d = some (xs, ys) := by
  have hp : ∀ c ∈ xs, decide (c ≠ d) = true := fun c hc => decide_eq_true fun he => hd (he ▸ hc)
  rw [splitOnce, if_pos (by simp), takeWhile_append_of_pos hp, dropWhile_append_of_pos hp]
  simp

theorem splitOnceRev_append (xs : List Char) (hd : d ∉ ys) : splitOnceRev (xs ++ d :: ys) d = some (xs, ys) := by
  have hr : (xs ++ d :: ys).reverse = ys.reverse ++ d :: xs.reverse := by simp
  rw [splitOnceRev, hr, splitOnce_append (by simpa using hd)]
  simp

theorem not_mem_of_splitOnce (hs : splitOnce s d = some (xs, ys)) : d ∉ xs := by
  obtain ⟨-, he⟩ := Option.ite_none_right_eq_some.mp hs
  obtain ⟨rfl, -⟩ := Prod.mk.inj (Option.some.inj he)
  intro hd
  simpa using all_eq_true.mp all_takeWhile _ hd

def digits (w : UInt32) : List Char := Nat.toDigits 10 w.toNat

theorem toList_toString (w : UInt32) : (toString w).toList = digits w := by
  exact String.toList_ofList

theorem colon_not_mem_digits (w : UInt32) : ':' ∉ digits w :=
  Decimal.not_mem_toDigits rfl w.toNat

theorem parseIndex_digits (w : UInt32) (label : String) : parseIndex (digits w) label = .ok (some w) := by
  have hd : (Nat.toDigits 10 w.toNat).all Char.isDigit = true :=
    all_eq_true.mpr (Decimal.isDigit_toDigits w.toNat)
  have hp : Decimal.parseUnsigned 0x100000000 (Nat.toDigits 10 w.toNat) = some w.toNat :=
    Decimal.parseUnsigned_toDigits w.toNat_lt
  simp [parseIndex, digits, hd, hp, Nat.toDigits_ne_nil]

/-- No number is peeled off at the end. -/
def NoIndex (hs : List Char) : Prop :=
  ∀ l r, splitOnceRev hs ':' = some (l, r) → ∀ label, parseIndex r label = .ok none

theorem peel_none (hn : NoIndex hs) : peelPaneWindow hs = .ok (0, 0, hs) := by
  unfold peelPaneWindow
  cases hr : splitOnceRev hs ':' with
  | none => rfl
  | some q =>
    simp only [hn q.1 q.2 hr]
    rfl

theorem peel_one (hn : NoIndex hs) (p : UInt32) : peelPaneWindow (hs ++ ':' :: digits p) = .ok (p, 0, hs) := by
  simp only [peelPaneWindow, splitOnceRev_append _ (colon_not_mem_digits p), parseIndex_digits]
  cases hr : splitOnceRev hs ':' with
  | none => rfl
  | some q =>
    simp only [hn q.1 q.2 hr]
    rfl

theorem peel_two (hs : List Char) (w p : UInt32) :
    peelPaneWindow (hs ++ ':' :: digits w ++ ':' :: digits p) = .ok (p, w, hs) := by
  simp only [peelPaneWindow, splitOnceRev_append _ (colon_not_mem_digits _), parseIndex_digits]
  rfl

/-- A host as `parse` returns it. -/
def Host.Written : Host → Prop
  | .ssh user host => user ≠ "" ∧ '@' ∉ user.toList ∧ host ≠ ""
  | _ => True

theorem toList_display_ssh (user host : String) :
    (Host.ssh user host).display.toList = "ssh:".toList ++ (user.toList ++ '@' :: host.toList) := by
  simp [Host.display]

theorem parseHost_display (hw : h.Written) : parseHost h.display.toList = .ok h := by
  cases h with
  | localHost => rfl
  | tailscale => rfl
  | ssh user host =>
    obtain ⟨hu, ha, hh⟩ := hw
    rw [parseHost, toList_display_ssh]
    simp [splitOnce_append ha, hu, hh]

theorem written_of_parseHost (hp : parseHost s = .ok h) : h.Written := by
  unfold parseHost at hp
  split_ifs at hp
  · cases hp
    trivial
  · cases hp
    trivial
  · split at hp
    · cases hp
    · rename_i user host hsp
      split_ifs at hp with hu hh
      cases hp
      exact ⟨by simpa using hu, by simpa using not_mem_of_splitOnce hsp, by simpa using hh⟩

theorem parse_eq_ok (hm : isValidMachine m.toList = true) (hp : peelPaneWindow hs = .ok (p, w, xs))
    (hh : parseHost xs = .ok h) {t : String} (ht : t.toList = m.toList ++ ':' :: hs) :
    parse t = .ok ⟨m, h, w, p⟩ := by
  have hc : ':' ∉ m.toList := by
    intro hc
    simpa using all_eq_true.mp (Bool.and_eq_true_iff.mp hm).2 _ hc
  have hne : m.toList ≠ [] := by simpa using (Bool.and_eq_true_iff.mp hm).1
  have ht0 : t ≠ "" := by
    rintro rfl
    simp at ht
  simp only [parse, ht0, ht, splitOnce_append hc, hne, hm, hp, String.ofList_toList]
  show (parseHost xs >>= fun h => .ok ⟨m, h, w, p⟩ : Except String PaneAddress) = _
  rw [hh]
  rfl

theorem valid_of_parse {t : String} (hp : parse t = .ok ⟨m, h, w, p⟩) :
    isValidMachine m.toList = true ∧ h.Written := by
  unfold parse at hp
  split_ifs at hp
  split at hp
  · cases hp
  split_ifs at hp with hne hv
  obtain ⟨q, -, hq⟩ := exists_of_bind_ok hp
  obtain ⟨host, hh, hr⟩ := exists_of_bind_ok hq
  cases hr
  exact ⟨by simpa using hv, written_of_parseHost hh⟩

theorem parse_display (hm : isValidMachine m.toList = true) (hw : h.Written) (w p : UInt32) :
    parse (display ⟨m, h, w, p⟩) = .ok ⟨m, h, w, p⟩ := by
  refine parse_eq_ok hm (peel_two h.display.toList w p) (parseHost_display hw) ?_
  simp [display, toList_toString]

/-- A host whose parts have no colon, and whose user cannot be taken for the beginning of a number. -/
def Host.Simple : Host → Prop
  | .ssh user name => user ≠ "" ∧ name ≠ "" ∧ ':' ∉ user.toList ∧ ':' ∉ name.toList ∧ '@' ∉ user.toList ∧
      user.toList.head? ≠ some '-'
  | _ => True

theorem Host.Simple.written (hs : h.Simple) : h.Written := by
  cases h with
  | ssh user name => exact ⟨hs.1, hs.2.2.2.2.1, hs.2.1⟩
  | _ => trivial

theorem noIndex_display (hs : h.Simple) : NoIndex h.display.toList := by
  intro l r hr label
  cases h with
  | localHost => cases hr
  | tailscale => cases hr
  | ssh user name =>
    obtain ⟨hu, -, hcu, hcn, -, hneg⟩ := hs
    have hc : ':' ∉ user.toList ++ '@' :: name.toList := by simp [hcu, hcn]
    have ht : (Host.ssh user name).display.toList = "ssh".toList ++ ':' :: (user.toList ++ '@' :: name.toList) :=
      toList_display_ssh user name
    rw [ht, splitOnceRev_append _ hc] at hr
    obtain ⟨-, rfl⟩ := Prod.mk.inj (Option.some.inj hr)
    have hh : user.toList.head?.getD '@' ≠ '-' := by
      cases hl : user.toList with
      | nil => simp
      | cons c cs => simpa [hl] using hneg
    simp [parseIndex, hh]

/-- **Grammar.** A single number after the host is the pane and not the window. -/
theorem pane_address_grammar_iff (m : String) (h : Host) (hm : isValidMachine m.toList = true)
    (hh : h.Simple) (w p : UInt32) :
    PaneAddress.parse (m ++ ":" ++ h.display) = .ok ⟨m, h, 0, 0⟩ ∧
    (PaneAddress.parse (m ++ ":" ++ h.display ++ ":" ++ toString w) = .ok ⟨m, h, w, 0⟩ ↔ w = 0) ∧
    PaneAddress.parse (m ++ ":" ++ h.display ++ ":" ++ toString w ++ ":" ++ toString p) = .ok ⟨m, h, w, p⟩ := by
  have hn := noIndex_display hh
  have hp := parseHost_display hh.written
  refine ⟨parse_eq_ok hm (peel_none hn) hp (by simp), ?_, parse_display hm hh.written w p⟩
  rw [parse_eq_ok hm (peel_one hn w) hp (by simp [toList_toString])]
  simp [eq_comm]

theorem pane_address_grammar_ssh :
    PaneAddress.parse "ws:ssh:u@10.0.0.5:1:2" = .ok ⟨"ws", .ssh "u" "10.0.0.5", 1, 2⟩ := by
  exact (pane_address_grammar_iff "ws" (.ssh "u" "10.0.0.5") (by decide) (by simp [Host.Simple]) 1 2).2.2

/-- The number is meant to be the window. -/
theorem single_index_is_pane :
    PaneAddress.parse "winTerm:tailscale:3" = .ok ⟨"winTerm", .tailscale, 0, 3⟩ := by
  decide

def Registered {β : Type} (toml : TomlFormat β) (file : Option β) (name text : String) : Prop :=
  ∃ map, load toml file = .ok map ∧ map.lookup name = some text

section Registry

variable {β : Type} {toml : TomlFormat β} {file : Option β} {body : β} {name text : String}

theorem registered_save {map : PaneMap} (hs : save toml map = .ok body) (hl : map.lookup name = some text) :
    Registered toml (some body) name text := by
  obtain ⟨b, map', hb, hm, hn⟩ := toml.roundTrip map
  rw [save, hb] at hs
  cases hs
  exact ⟨map', by rw [load, hm]; rfl, (hn name).trans hl⟩

theorem register_eq_ok {a : PaneAddress} (hr : register toml file name a = .ok body) :
    ∃ map, load toml file = .ok map ∧ save toml (map.insert name a.display) = .ok body := by
  obtain ⟨-, -, hv⟩ := exists_of_bind_ok hr
  exact exists_of_bind_ok hv

theorem registered_register {a : PaneAddress} (hr : register toml file name a = .ok body) :
    Registered toml (some body) name a.display := by
  obtain ⟨map, -, hs⟩ := register_eq_ok hr
  exact registered_save hs (AList.lookup_insert map)

theorem registered_perform {c : RegistryCall} (hc : c.name ≠ name) (hg : Registered toml file name text) :
    Registered toml (c.perform toml file) name text := by
  obtain ⟨map, hm, hl⟩ := hg
  cases c with
  | register n a =>
    cases hr : register toml file n a with
    | error e => simpa only [perform, hr] using ⟨map, hm, hl⟩
    | ok b =>
      obtain ⟨map', hm', hs⟩ := register_eq_ok hr
      cases hm.symm.trans hm'
      simp only [perform, hr]
      exact registered_save hs ((AList.lookup_insert_ne hc.symm).trans hl)
  | unregister n =>
    cases hr : unregister toml file n with
    | error e => simpa only [perform, hr] using ⟨map, hm, hl⟩
    | ok b =>
      obtain ⟨map', hm', hs⟩ := exists_of_bind_ok hr
      cases hm.symm.trans hm'
      simp only [perform, hr]
      exact registered_save hs ((AList.lookup_erase_ne hc.symm).trans hl)

theorem registered_foldl {cs : List RegistryCall} (hc : ∀ c ∈ cs, c.name ≠ name)
    (hg : Registered toml file name text) :
    Registered toml (cs.foldl (fun f c => c.perform toml f) file) name text := by
  induction cs generalizing file with
  | nil => exact hg
  | cons c cs ih =>
    obtain ⟨hh, ht⟩ := forall_mem_cons.mp hc
    exact ih ht (registered_perform hh hg)

theorem resolve_eq_ok {a : PaneAddress} (hg : Registered toml file name text)
    (hp : parse text = .ok a) : resolve toml file name = .ok (some a) := by
  obtain ⟨map, hm, hl⟩ := hg
  rw [resolve, hm]
  simp only [bind, Except.bind, hl, hp]

/-- Everything that `parse` returns can be printed and read again, and so it is in the registry as long as
its name is not used for something else. -/
theorem pane_address_normal_form (toml : TomlFormat β) (s : String) (addr : PaneAddress)
    (hparse : PaneAddress.parse s = .ok addr) :
    PaneAddress.parse addr.display = .ok addr ∧
      ∀ file name body (calls : List RegistryCall), register toml file name addr = .ok body →
        (∀ c ∈ calls, c.name ≠ name) →
        resolve toml (calls.foldl (fun f c => c.perform toml f) (some body)) name = .ok (some addr) := by
  obtain ⟨m, h, w, p⟩ := addr
  have hd := parse_display (valid_of_parse hparse).1 (valid_of_parse hparse).2 w p
  refine ⟨hd, fun file name body calls hr hc => ?_⟩
  exact resolve_eq_ok (registered_foldl hc (registered_register hr)) hd

def directToml : TomlFormat PaneMap where
  toStringPretty := .ok
  fromStr := .ok
  roundTrip map := ⟨map, map, rfl, rfl, fun _ => rfl⟩

theorem pane_address_normal_form_colons :
    let addr : PaneAddress := ⟨"ws", .ssh "u" "[::1]:x", 0, 7⟩
    parse "ws:ssh:u@[::1]:x:0:7" = .ok addr ∧
      resolve directToml (some ((∅ : PaneMap).insert "p" addr.display)) "p" = .ok (some addr) := by
  have h := pane_address_normal_form directToml "ws:ssh:u@[::1]:x:7" ⟨"ws", .ssh "u" "[::1]:x", 0, 7⟩ (by decide)
  exact ⟨h.1, h.2 none "p" _ [] rfl (by simp)⟩

end Registry

end ShareCli.Cast
