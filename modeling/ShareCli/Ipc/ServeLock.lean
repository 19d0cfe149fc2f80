import ShareCli.Foundation.Flock
import ShareCli.Foundation.Inode
import ShareCli.Foundation.Machine
import ShareCli.Foundation.Serde
import ShareCli.Foundation.Text

/-!
# The single-instance guard (`serve_lock.rs` of the root crate and of `sharecli-ipc`)

`try_acquire` opens and locks the pidfile of a service and writes the `ServeInfo` of the holder to it and to a
sidecar file; `Drop` unlocks and removes both. The `sharecli-ipc` version also reads the pidfile once it has the
lock and gives up if a live process is recorded there; the file cursor is then behind what it has read. Locks
are held on files and not on paths.
-/

namespace ShareCli.Ipc

open Foundation

/-- What the lock file says. -/
structure ServeInfo where
  pid : UInt32
  service : String
  url : String
  startedAtUnix : UInt64
deriving DecidableEq

namespace ServeInfo

def fieldNames : List String := ["pid", "service", "url", "started_at_unix"]

def toJson (info : ServeInfo) : Json :=
  .obj
    [("pid".toList.map StrUnit.ofChar, .nat info.pid.toNat),
      ("service".toList.map StrUnit.ofChar, .string info.service.toList),
      ("url".toList.map StrUnit.ofChar, .string info.url.toList),
      ("started_at_unix".toList.map StrUnit.ofChar, .nat info.startedAtUnix.toNat)]

def toVec (info : ServeInfo) : List UInt8 := Text.encodeUtf8 info.toJson.render

def decode {α : Type} (src : Source α) (fs : Fields α) : Option ServeInfo :=
  if fs.accepts fieldNames then
    (fs.required fieldNames "pid" (src.below (2 ^ 32))).bind fun pid =>
      (fs.required fieldNames "service" src.string).bind fun service =>
        (fs.required fieldNames "url" src.string).bind fun url =>
          (fs.required fieldNames "started_at_unix" (src.below (2 ^ 64))).map fun started =>
            { pid := .ofNat pid, service, url, startedAtUnix := .ofNat started }
  else none

/-- No field is a floating-point number, so that it does not matter which of them are finite. -/
def fromStr (text : List Char) : Option ServeInfo :=
  Foundation.fromStr (fun _ => true) decode (Text.trim text)

def ofBytes (bytes : List UInt8) : Option ServeInfo := (Text.decodeUtf8 bytes).bind fromStr

end ServeInfo

def sanitize (service : String) : String :=
  String.ofList (service.toList.map fun c => if c = '/' ∨ c = '\\' ∨ c = ':' then '_' else c)

def joinPath (dir name : String) : String :=
  if dir = "" ∨ dir.toList.getLast? = some '/' then dir ++ name else dir ++ "/" ++ name

def pidfilePath (dir service : String) : String := joinPath dir (sanitize service ++ ".serve.lock")

def infoSidecarPath (dir service : String) : String := joinPath dir (sanitize service ++ ".serve.info")

structure PidDir (Caller : Type) where
  files : Inode.Files
  locks : Flock.Table Nat Caller
  sidecar : Option (List UInt8)

/-- Zero and values that are no positive `pid_t` are not probed. -/
def pidAlive (live : UInt32 → Bool) (pid : UInt32) : Bool :=
  0 < pid.toNat && pid.toNat ≤ 2 ^ 31 - 1 && live pid

/-- The two versions of `serve_lock.rs`. -/
inductive Crate where
  | root
  | ipc
deriving DecidableEq

structure Server where
  pid : UInt32
  url : String
deriving DecidableEq

namespace PidDir

variable {Caller : Type} [DecidableEq Caller]

variable (d : PidDir Caller)

def pidfile : Option (List UInt8) := d.files.path.map d.files.contents

def openPidfile : PidDir Caller := { d with files := d.files.openCreate }

def namesLiveOwner (live : UInt32 → Bool) (d : PidDir Caller) (i : Nat) : Bool :=
  match ServeInfo.ofBytes (d.files.contents i) with
  | some prev => pidAlive live prev.pid
  | none => false

def unlock (d : PidDir Caller) (i : Nat) (c : Caller) : PidDir Caller :=
  { d with locks := Flock.unlock d.locks i c }

/-- `set_len(0)`; the cursors of open files stay where they are. -/
def setLenZero (i : Nat) : PidDir Caller := { d with files := d.files.truncate i }

def writePidfile (i cursor : Nat) (bytes : List UInt8) : PidDir Caller :=
  { d with files := d.files.write i cursor bytes }

/-- `fs::write` of the sidecar, whose failure is ignored. -/
def writeSidecar (ok : Bool) (bytes : List UInt8) : PidDir Caller :=
  if ok then { d with sidecar := some bytes } else d

end PidDir

inductive ServeState where
  | free
  | running (info : ServeInfo) (stale : Bool)
deriving DecidableEq

/-- The sidecar, if a locked pidfile cannot be read. -/
def probeText (dir service : String) (held : Bool) (pidfile : List UInt8) (sidecar : Option (List UInt8)) :
    Except String (List Char) :=
  match Text.decodeUtf8 pidfile with
  | some text => .ok text
  | none =>
    if held then
      match sidecar.bind Text.decodeUtf8 with
      | some text => .ok text
      | none => .error ("read pidfile " ++ pidfilePath dir service ++ " (locked) and sidecar " ++
          infoSidecarPath dir service)
    else .error ("read pidfile " ++ pidfilePath dir service)

/-- A shared lock can be taken unless somebody holds the exclusive one. -/
def probe {Caller : Type} (dir service : String) (live : UInt32 → Bool) (d : PidDir Caller) :
    Except String ServeState :=
  match d.files.path with
  | none => .ok .free
  | some i =>
    let held := (d.locks i).isSome
    match probeText dir service held (d.files.contents i) d.sidecar with
    | .error e => .error e
    | .ok text =>
      match ServeInfo.fromStr text with
      | some info => .ok (.running info !(held || pidAlive live info.pid))
      | none => if held then .error ("parse pidfile " ++ pidfilePath dir service) else .ok .free

/-- Inside `try_acquire` up to `written`, with the guard it returned, or inside the guard's `Drop`. -/
inductive ServePc where
  | idle
  | opened (i : Nat)
  | locked (i : Nat)
  | checked (i cursor : Nat)
  | truncated (i cursor : Nat)
  | written (i : Nat) (info : ServeInfo)
  | holding (i : Nat) (info : ServeInfo)
  | unlocked
  | sidecarRemoved
deriving DecidableEq

namespace ServePc

def holds : ServePc → Option Nat
  | .locked i | .checked i _ | .truncated i _ | .written i _ | .holding i _ => some i
  | .idle | .opened _ | .unlocked | .sidecarRemoved => none

def file : ServePc → Option Nat
  | .opened i => some i
  | pc => pc.holds

end ServePc

/-- A step of `try_acquire` that fails with an error closes the file, which releases the lock; a failed write may
have written a part of the bytes. The errors of `Drop` are ignored. -/
inductive ServeAction where
  | openFile
  | tryLock
  | check
  | truncate
  | truncateError
  | write (now : UInt64)
  | writeError (now : UInt64) (written : Nat)
  | writeSidecar (ok : Bool)
  | unlock
  | removeSidecar (ok : Bool)
  | unlink (ok : Bool)
deriving DecidableEq

def Server.info (server : Server) (service : String) (now : UInt64) : ServeInfo :=
  { pid := server.pid, service, url := server.url, startedAtUnix := now }

section Calls

variable {Caller : Type} [DecidableEq Caller] (crate : Crate) (service : String)

def serveAction (server : Server) (c : Caller) (live : UInt32 → Bool) (d : PidDir Caller) :
    ServePc → ServeAction → Option (PidDir Caller × ServePc)
  | .idle, .openFile => some (d.openPidfile, .opened d.files.openFile)
  | .opened i, .tryLock =>
    match Flock.tryLock d.locks i c with
    | none => some (d, .idle)
    | some locks =>
      -- Only the ipc crate looks at the contents before it replaces them.
      match crate with
      | .root => some ({ d with locks }, .checked i 0)
      | .ipc => some ({ d with locks }, .locked i)
  | .locked i, .check =>
    if d.namesLiveOwner live i then some (d.unlock i c, .idle)
    else some (d, .checked i (d.files.contents i).length)
  | .checked i cursor, .truncate => some (d.setLenZero i, .truncated i cursor)
  | .checked i _, .truncateError => some (d.unlock i c, .idle)
  | .truncated i cursor, .write now =>
    some (d.writePidfile i cursor (server.info service now).toVec, .written i (server.info service now))
  | .truncated i cursor, .writeError now written =>
    some ((d.writePidfile i cursor ((server.info service now).toVec.take written)).unlock i c, .idle)
  | .written i info, .writeSidecar ok => some (d.writeSidecar ok info.toVec, .holding i info)
  | .holding i _, .unlock => some (d.unlock i c, .unlocked)
  | .unlocked, .removeSidecar ok =>
    some (if ok then { d with sidecar := none } else d, .sidecarRemoved)
  | .sidecarRemoved, .unlink ok => some (if ok then { d with files := d.files.unlink } else d, .idle)
  | _, _ => none

/-- Without interference and without I/O errors. -/
def tryAcquire (server : Server) (c : Caller) (live : UInt32 → Bool) (now : UInt64) (sidecarOk : Bool)
    (d : PidDir Caller) : PidDir Caller × Option (Nat × ServeInfo) :=
  let i := d.files.openFile
  let d := d.openPidfile
  match Flock.tryLock d.locks i c with
  | none => (d, none)
  | some locks =>
    let d := { d with locks }
    let info := server.info service now
    let take (cursor : Nat) : PidDir Caller × Option (Nat × ServeInfo) :=
      (((d.setLenZero i).writePidfile i cursor info.toVec).writeSidecar sidecarOk info.toVec, some (i, info))
    match crate with
    | .root => take 0
    | .ipc =>
      if d.namesLiveOwner live i then (d.unlock i c, none) else take (d.files.contents i).length

end Calls

/-- The files, the live processes and the calls. -/
structure ServeLocks (Caller : Type) extends PidDir Caller where
  live : UInt32 → Bool
  pc : Caller → ServePc

inductive ServeEvent (Caller : Type) where
  | call (c : Caller) (action : ServeAction)
  | exit (pid : UInt32)
  | spawn (pid : UInt32)

namespace ServeEvent

variable {Caller : Type}

def unlinks : ServeEvent Caller → Bool
  | .call _ (.unlink ok) => ok
  | _ => false

def acquire (crate : Crate) (c : Caller) (now : UInt64) (sidecarOk : Bool) : List (ServeEvent Caller) :=
  let check :=
    match crate with
    | .root => []
    | .ipc => [.call c .check]
  [.call c .openFile, .call c .tryLock] ++ check ++
    [.call c .truncate, .call c (.write now), .call c (.writeSidecar sidecarOk)]

def drop (c : Caller) : List (ServeEvent Caller) :=
  [.call c .unlock, .call c (.removeSidecar true), .call c (.unlink true)]

end ServeEvent

section Machine

variable {Caller : Type} [DecidableEq Caller] (crate : Crate) (service : String)
  (server : Caller → Server)

/-- An exit ends the calls of all threads of the process and closes their files. -/
def serveStep (s : ServeLocks Caller) : ServeEvent Caller → Option (ServeLocks Caller)
  | .call c action =>
    if s.live (server c).pid then
      (serveAction crate service (server c) c s.live s.toPidDir (s.pc c) action).map fun r =>
        { toPidDir := r.1, live := s.live, pc := Function.update s.pc c r.2 }
    else none
  | .exit pid =>
    if s.live pid then
      some
        { s with
          locks := Flock.releaseAll s.locks fun c => (server c).pid = pid
          live := Function.update s.live pid false
          pc := fun c => if (server c).pid = pid then .idle else s.pc c }
    else none
  | .spawn pid => if s.live pid then none else some { s with live := Function.update s.live pid true }

/-- `pidfile` are the bytes that an earlier process has left. -/
def serveInit (pidfile : Option (List UInt8)) (live : UInt32 → Bool) : ServeLocks Caller where
  files := { path := pidfile.map fun _ => 0, next := 1, contents := fun _ => pidfile.getD [] }
  locks := fun _ => none
  sidecar := none
  live := live
  pc := fun _ => .idle

def serveMachine (pidfile : Option (List UInt8)) (live : UInt32 → Bool) :
    Machine (ServeLocks Caller) (ServeEvent Caller) where
  init := serveInit pidfile live
  step := serveStep crate service server

end Machine

end ShareCli.Ipc
