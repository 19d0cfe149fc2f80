import ShareCli.Foundation.Proofs.SerdeProofs
import ShareCli.Foundation.SharedFile

/-!
# Command locks (`src/coordination.rs`)

The locks of all commands are one JSON array in a file. `acquire` and `release` read the array, change the
first lock of the command, and write the array back. `fs::write` empties the file before it writes.
Failures of the file system are left out.
-/

namespace ShareCli.Coordination

open Foundation Json

section JsonArray

variable {α : Type}

def readJsonArray (decode : Json → Option α) : Option (List UInt8) → Option (List α)
  | none => some []
  | some raw =>
    (Text.decodeUtf8 raw).bind fun text =>
      match Json.parse text with
      | some (.arr items) => items.mapM decode
      | _ => none

def jsonArrayText (toJson : α → Json) (items : List α) : List UInt8 :=
  Text.encodeUtf8 (Json.arr (items.map toJson)).render

variable {toJson : α → Json} {decode : Json → Option α}

theorem printable_arr (h : ∀ item, (toJson item).Printable) (i : List α) :
    (arr (i.map toJson)).Printable := by
  induction i with
  | nil => trivial
  | cons item i ih => exact ⟨h item, ih⟩

theorem mapM_map (h : ∀ item, decode (toJson item) = some item) (i : List α) :
    (i.map toJson).mapM decode = some i := by
  induction i with
  | nil => rfl
  | cons item i ih => simp [h item, ih]

theorem readJsonArray_jsonArrayText (hp : ∀ item, (toJson item).Printable)
    (hd : ∀ item, decode (toJson item) = some item) (i : List α) :
    readJsonArray decode (some (jsonArrayText toJson i)) = some i := by
  rw [readJsonArray, jsonArrayText, Text.decodeUtf8_encodeUtf8, Option.bind_some,
    parse_render (printable_arr hp i)]
  exact mapM_map hd i

theorem readJsonArray_empty (decode : Json → Option α) : readJsonArray decode (some []) = none := by
  have ht : Text.decodeUtf8 [] = some [] := Text.decodeUtf8_encodeUtf8 []
  rw [readJsonArray, ht]
  rfl

def jsonArrayFormat (toJson : α → Json) (decode : Json → Option α)
    (hprintable : ∀ item, (toJson item).Printable) (hdecode : ∀ item, decode (toJson item) = some item) :
    FileFormat (List α) where
  encode := jsonArrayText toJson
  decode := readJsonArray decode
  decode_encode := readJsonArray_jsonArrayText hprintable hdecode
  decode_empty := readJsonArray_empty decode

end JsonArray

inductive LockStatus where
  | unlocked
  | locked
deriving DecidableEq

def LockStatus.name : LockStatus → String
  | .unlocked => "unlocked"
  | .locked => "locked"

def LockStatus.ofName (name : String) : Option LockStatus :=
  if name = "unlocked" then some .unlocked else if name = "locked" then some .locked else none

/-- The derived `Deserialize`: a name, or an object with a name and `null`. -/
def LockStatus.decode : Value → Option LockStatus
  | .str name => ofName name
  | .obj [(name, .null)] => ofName name
  | _ => none

/-- A lock and its holder. -/
structure CommandLock where
  cmdHash : String
  pid : UInt32
  status : LockStatus
  outputPath : Option String
  startTime : Option String
deriving DecidableEq

namespace CommandLock

variable (lock : CommandLock)

def isLocked : Bool := lock.pid ≠ 0 && lock.status = .locked

def fieldNames : List String := ["cmd_hash", "pid", "status", "output_path", "start_time"]

def members : List (String × Json) :=
  [("cmd_hash", .string lock.cmdHash.toList), ("pid", .nat lock.pid.toNat),
    ("status", .string lock.status.name.toList),
    ("output_path", lock.outputPath.elim .null fun path => .string path.toList),
    ("start_time", lock.startTime.elim .null fun time => .string time.toList)]

def toJson : Json := .object lock.members

def decode {α : Type} (src : Source α) (fs : Fields α) : Option CommandLock :=
  if fs.accepts fieldNames then
    (fs.required fieldNames "cmd_hash" src.string).bind fun cmdHash =>
      (fs.required fieldNames "pid" (src.below (2 ^ 32))).bind fun pid =>
        (fs.required fieldNames "status" fun a => (src.value a).bind LockStatus.decode).bind fun status =>
          (fs.optional fieldNames "output_path" (src.option src.string)).bind fun outputPath =>
            (fs.optional fieldNames "start_time" (src.option src.string)).map fun startTime =>
              { cmdHash, pid := .ofNat pid, status, outputPath, startTime }
  else none

/-- No field is a floating-point number, so that it does not matter which of them are finite. -/
def source : Source Json := Json.source (fun _ => true) (recursionLimit - 2)

def ofJson (j : Json) : Option CommandLock := j.fields.bind (decode source)

theorem toJson_printable (l : CommandLock) : l.toJson.Printable := by
  have ho (text : Option String) : (text.elim null fun t => .string t.toList).Printable := by
    cases text with
    | none => trivial
    | some t => exact printable_string _
  refine printable_object ?_
  simp only [members, List.mem_cons, List.not_mem_nil, or_false, forall_eq_or_imp, forall_eq]
  exact ⟨printable_string _, printable_nat _, printable_string _, ho _, ho _⟩

theorem ofJson_toJson (l : CommandLock) : ofJson l.toJson = some l := by
  have hh : source.string (.string l.cmdHash.toList) = some l.cmdHash := source_string _ _ _
  have hp : source.below (2 ^ 32) (.nat l.pid.toNat) = some l.pid.toNat :=
    source_below _ _ l.pid.toNat_lt (by decide)
  have hs : (source.value (.string l.status.name.toList)).bind LockStatus.decode = some l.status := by
    have hv : source.value (.string l.status.name.toList) = some (.str l.status.name) :=
      toValue_string (fun _ => true) (recursionLimit - 2) l.status.name
    rw [hv]
    cases l.status <;> rfl
  have ho (text : Option String) :
      source.option source.string (text.elim .null fun t => .string t.toList) = some text := by
    cases text with
    | none => rfl
    | some t =>
      have ht : source.string (.string t.toList) = some t := source_string _ _ _
      show (source.string (.string t.toList)).map some = _
      rw [ht]
      rfl
  have ha : Fields.accepts fieldNames (.map l.members) = true := rfl
  rw [ofJson, toJson, fields_object, Option.bind_some, decode, if_pos ha]
  -- each field is looked up by its name
  show (source.string (.string l.cmdHash.toList)).bind (fun ch =>
    (source.below (2 ^ 32) (.nat l.pid.toNat)).bind fun pid =>
      ((source.value (.string l.status.name.toList)).bind LockStatus.decode).bind fun st =>
        (source.option source.string (l.outputPath.elim .null fun t => .string t.toList)).bind fun p =>
          (source.option source.string (l.startTime.elim .null fun t => .string t.toList)).map fun time =>
            CommandLock.mk ch (.ofNat pid) st p time) = some l
  rw [hh, hp, hs, ho, ho]
  simp

end CommandLock

def lockFormat : FileFormat (List CommandLock) :=
  jsonArrayFormat CommandLock.toJson CommandLock.ofJson CommandLock.toJson_printable CommandLock.ofJson_toJson

inductive LockError where
  | alreadyLocked
  | noLock (cmdHash : String)
  | heldBy (pid : UInt32)
deriving DecidableEq

def LockError.message : LockError → String
  | .alreadyLocked => "already locked"
  | .noLock cmdHash => "No lock found for " ++ cmdHash
  | .heldBy pid => "Lock held by PID " ++ toString pid ++ ", cannot release"

def updateFirst (cmdHash : String) (f : CommandLock → CommandLock) : List CommandLock → List CommandLock
  | [] => []
  | lock :: locks => if lock.cmdHash = cmdHash then f lock :: locks else lock :: updateFirst cmdHash f locks

def CommandLock.acquire (pid : UInt32) (outputPath : Option String) (now : String) (lock : CommandLock) :
    CommandLock :=
  { lock with pid, status := .locked, outputPath, startTime := some now }

def CommandLock.release (lock : CommandLock) : CommandLock :=
  { lock with pid := 0, status := .unlocked, startTime := none }

namespace CommandLockStore

def getLock (locks : List CommandLock) (cmdHash : String) : Option CommandLock :=
  locks.find? fun lock => lock.cmdHash = cmdHash

def acquire (locks : List CommandLock) (cmdHash : String) (pid : UInt32) (outputPath : Option String)
    (now : String) : Except LockError (CommandLock × List CommandLock) :=
  match getLock locks cmdHash with
  | some lock =>
    if lock.isLocked && lock.pid ≠ pid then .error .alreadyLocked
    else .ok (lock.acquire pid outputPath now, updateFirst cmdHash (CommandLock.acquire pid outputPath now) locks)
  | none =>
    let lock := { cmdHash, pid, status := .locked, outputPath, startTime := some now }
    .ok (lock, locks ++ [lock])

def release (locks : List CommandLock) (cmdHash : String) (pid : UInt32) :
    Except LockError (List CommandLock) :=
  match getLock locks cmdHash with
  | none => .error (.noLock cmdHash)
  | some lock =>
    if lock.pid ≠ pid then .error (.heldBy lock.pid)
    else .ok (updateFirst cmdHash CommandLock.release locks)

end CommandLockStore

abbrev Pid : Type := { pid : UInt32 // pid ≠ 0 }

inductive LockCall where
  | acquire (pid : Pid) (cmdHash : String) (outputPath : Option String) (now : String)
  | release (pid : Pid) (cmdHash : String)

def LockCall.apply : LockCall → List CommandLock → Option (List CommandLock)
  | .acquire pid cmdHash outputPath now, locks =>
    ((CommandLockStore.acquire locks cmdHash pid outputPath now).map Prod.snd).toOption
  | .release pid cmdHash, locks => (CommandLockStore.release locks cmdHash pid).toOption

def lockStore (initial : Option (List UInt8)) :
    Machine (SharedFile (List CommandLock) LockCall) (RewriteLabel LockCall) :=
  SharedFile.machine lockFormat LockCall.apply initial

def LockCall.hold (cmdHash : String) (holders : List Pid) : LockCall → List Pid
  | .acquire pid hash _ _ => if hash = cmdHash then pid :: holders else holders
  | .release pid hash => if hash = cmdHash then holders.filter (· ≠ pid) else holders

/-- The pids that have returned `Ok` from `acquire` for a command and have not released it since. -/
def holders (s : SharedFile (List CommandLock) LockCall) (cmdHash : String) : List Pid :=
  s.history.foldl (LockCall.hold cmdHash) []

open LockCall List Option
open CommandLockStore (getLock)

variable {locks locks' : List CommandLock} {ch hash : String} {f : CommandLock → CommandLock}

theorem getLock_updateFirst_self {l : CommandLock} (h : getLock locks ch = some l)
    (hf : ∀ l, (f l).cmdHash = l.cmdHash) :
    getLock (updateFirst ch f locks) ch = some (f l) := by
  induction locks with
  | nil => cases h
  | cons first locks ih =>
    unfold updateFirst
    by_cases hfr : first.cmdHash = ch
    · have hl : first = l := by simpa [getLock, hfr] using h
      rw [if_pos hfr, getLock, find?_cons_of_pos (by simp [hf, hfr]), hl]
    · rw [if_neg hfr, getLock, find?_cons_of_neg (by simpa using hfr)]
      rw [getLock, find?_cons_of_neg (by simpa using hfr)] at h
      exact ih h

theorem getLock_updateFirst_of_ne (hne : ch ≠ hash) (hf : ∀ l, (f l).cmdHash = l.cmdHash) :
    getLock (updateFirst ch f locks) hash = getLock locks hash := by
  induction locks with
  | nil => rfl
  | cons first locks ih =>
    unfold updateFirst
    by_cases hfr : first.cmdHash = ch
    · have ho : first.cmdHash ≠ hash := fun h => hne (hfr.symm.trans h)
      rw [if_pos hfr, getLock, getLock, find?_cons_of_neg (by simpa [hf] using ho),
        find?_cons_of_neg (by simpa using ho)]
    · rw [if_neg hfr, getLock, getLock, find?_cons, find?_cons]
      split
      · rfl
      · exact ih

/-- The first lock of the command is locked by the process. -/
def LockedBy (locks : List CommandLock) (ch : String) (pid : Pid) : Prop :=
  ∃ lock, getLock locks ch = some lock ∧ lock.isLocked = true ∧ lock.pid = pid

variable {pid : Pid}

theorem LockedBy.unique {pid' : Pid} (h : LockedBy locks ch pid) (h' : LockedBy locks ch pid') : pid = pid' := by
  obtain ⟨l, hg, -, hp⟩ := h
  obtain ⟨l', hg', -, hp'⟩ := h'
  obtain rfl : l = l' := some_inj.mp (hg.symm.trans hg')
  exact Subtype.ext (hp.symm.trans hp')

theorem isLocked_acquire (pid : Pid) (op : Option String) (now : String) (l : CommandLock) :
    (l.acquire pid op now).isLocked = true := by
  simp [CommandLock.isLocked, CommandLock.acquire, pid.2]

theorem apply_acquire {op : Option String} {now : String}
    (h : (acquire pid ch op now).apply locks = some locks') :
    LockedBy locks' ch pid ∧ (∀ pid', LockedBy locks ch pid' → pid' = pid) ∧
      ∀ hash, ch ≠ hash → getLock locks' hash = getLock locks hash := by
  replace h : ((CommandLockStore.acquire locks ch pid op now).map Prod.snd).toOption = some locks' := h
  unfold CommandLockStore.acquire at h
  cases hg : getLock locks ch with
  | some l =>
    rw [hg] at h
    dsimp only at h
    by_cases hh : (l.isLocked && l.pid ≠ pid) = true
    · rw [if_pos hh] at h
      cases h
    · rw [if_neg hh] at h
      obtain rfl := some_inj.mp h
      refine ⟨⟨_, getLock_updateFirst_self hg fun _ => rfl, isLocked_acquire .., rfl⟩, ?_, ?_⟩
      · rintro pid' ⟨l', hl', hl, hp'⟩
        obtain rfl : l = l' := some_inj.mp (hg.symm.trans hl')
        rw [hl] at hh
        exact Subtype.ext (hp'.symm.trans (by simpa using hh))
      · intro hash hne
        exact getLock_updateFirst_of_ne hne fun _ => rfl
  | none =>
    rw [hg] at h
    obtain rfl := some_inj.mp h
    refine ⟨⟨⟨ch, pid, .locked, op, some now⟩, ?_, ?_, rfl⟩, ?_, ?_⟩
    · rw [getLock, find?_append, ← getLock, hg]
      simp
    · simp [CommandLock.isLocked, pid.2]
    · rintro pid' ⟨l', hl', -, -⟩
      rw [hg] at hl'
      cases hl'
    · intro hash hne
      rw [getLock, find?_append, find?_cons_of_neg (by simpa using hne)]
      simp [getLock]

theorem apply_release (h : (release pid ch).apply locks = some locks') :
    (∀ pid', LockedBy locks ch pid' → pid' = pid) ∧
      ∀ hash, ch ≠ hash → getLock locks' hash = getLock locks hash := by
  replace h : (CommandLockStore.release locks ch pid).toOption = some locks' := h
  unfold CommandLockStore.release at h
  cases hg : getLock locks ch with
  | none =>
    rw [hg] at h
    cases h
  | some l =>
    rw [hg] at h
    dsimp only at h
    by_cases hp : l.pid ≠ pid
    · rw [if_pos hp] at h
      cases h
    · rw [if_neg hp] at h
      obtain rfl := some_inj.mp h
      constructor
      · rintro pid' ⟨l', hl', -, hp'⟩
        obtain rfl : l = l' := some_inj.mp (hg.symm.trans hl')
        exact Subtype.ext (hp'.symm.trans (not_not.mp hp))
      · intro hash hne
        exact getLock_updateFirst_of_ne hne fun _ => rfl

/-- Whoever holds a lock has locked it in the array. -/
def Kept (locks : List CommandLock) (calls : List LockCall) : Prop :=
  ∀ ch, ∀ pid ∈ calls.foldl (hold ch) [], LockedBy locks ch pid

theorem LockedBy.of_get_eq (h : LockedBy locks hash pid) (heq : getLock locks' hash = getLock locks hash) :
    LockedBy locks' hash pid := by
  unfold LockedBy
  rw [heq]
  exact h

theorem Kept.apply {cs : List LockCall} (h : Kept locks cs) (call : LockCall)
    (ha : call.apply locks = some locks') : Kept locks' (cs ++ [call]) := by
  intro hash pid hp
  rw [foldl_append, foldl_cons, foldl_nil] at hp
  cases call with
  | acquire pid₀ ch op now =>
    obtain ⟨hl, hf, ho⟩ := apply_acquire ha
    by_cases hh : ch = hash
    · subst hh
      rw [hold, if_pos rfl] at hp
      rcases mem_cons.mp hp with rfl | hhl
      · exact hl
      · rw [hf pid (h ch pid hhl)]
        exact hl
    · rw [hold, if_neg hh] at hp
      exact (h hash pid hp).of_get_eq (ho hash hh)
  | release pid₀ ch =>
    obtain ⟨hhb, ho⟩ := apply_release ha
    by_cases hh : ch = hash
    · subst hh
      rw [hold, if_pos rfl, mem_filter] at hp
      have hs := hhb pid (h ch pid hp.1)
      exact absurd hs (by simpa using hp.2)
    · rw [hold, if_neg hh] at hp
      exact (h hash pid hp).of_get_eq (ho hash hh)

/-- **Exclusion**, if every call empties the file as it has read it and nobody writes before it does. -/
theorem command_lock_exclusion (initial : Option (List UInt8)) (s : SharedFile (List CommandLock) LockCall)
    (h : (lockStore initial).ReachableWhen SharedFile.Undisturbed s) (cmdHash : String) :
    ∀ pid ∈ holders s cmdHash, ∀ pid' ∈ holders s cmdHash, pid = pid' := by
  intro pid hp pid' hp'
  have hk := (SharedFile.serial h).invariant (I := Kept)
    (fun _ _ _ _ hn => absurd hn not_mem_nil) fun locks cs c locks' hk ha =>
      hk.apply c ha
  rcases hk with hn | ⟨locks, hk⟩
  · rw [holders, hn] at hp
    cases hp
  · exact (hk cmdHash pid hp).unique (hk cmdHash pid' hp')

def firstPid : Pid := ⟨1, by decide⟩

def secondPid : Pid := ⟨2, by decide⟩

def acquireBuild (pid : Pid) : RewriteLabel LockCall :=
  .start (.acquire pid "build" none "2026-01-01T00:00:00Z")

theorem command_lock_handed_over : ∃ s, (lockStore none).ReachableWhen SharedFile.Undisturbed s ∧
    secondPid ∈ holders s "build" ∧ ∀ pid ∈ holders s "build", pid = secondPid :=
  Machine.exists_reachable_and
    [acquireBuild firstPid, .empty 0, .write 0, acquireBuild secondPid, .start (.release firstPid "build"),
      .empty 1, .write 1, acquireBuild secondPid, .empty 2, .write 2] (by decide +kernel)
    fun s hs hm pid hp => command_lock_exclusion none s hs "build" pid hp _ hm

/-- Two processes read the store before either of them writes. -/
theorem command_lock_held_twice : ∃ s, (lockStore none).Reachable s ∧
    firstPid ∈ holders s "build" ∧ secondPid ∈ holders s "build" :=
  Machine.exists_reachable
    [acquireBuild firstPid, acquireBuild secondPid, .empty 0, .write 0, .empty 1, .write 1] (by decide +kernel)

end ShareCli.Coordination
