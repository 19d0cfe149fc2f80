import ShareCli.Foundation.Delimited
import ShareCli.Foundation.Proofs.SerdeProofs
import ShareCli.Session.Discovery
import ShareCli.Session.Rpc

/-!
# The sidecar of a launcher (`crates/sharecli-session/src/state.rs`)

A launcher appends a line of JSON for each harness it starts in a surface. `append_record` may fail at each of
its steps; a write that fails may leave a part of the line, and the next record is then glued to it. JSON writes a
control character as an escape, so no text of a record can end its line (`records_afterCalls`).
-/

namespace ShareCli.Session

open Foundation

/-- A line of the state file. -/
structure SidecarRecord where
  surfaceId : String
  harness : String
  sessionId : String
  pid : Option UInt32
deriving DecidableEq

namespace SidecarRecord

def toJson (record : SidecarRecord) : Json :=
  .object
    [("surface_id", .string record.surfaceId.toList), ("harness", .string record.harness.toList),
      ("session_id", .string record.sessionId.toList),
      ("pid", record.pid.elim .null fun pid => .nat pid.toNat)]

def line (record : SidecarRecord) : List UInt8 := Text.encodeUtf8 (record.toJson.render ++ ['\n'])

end SidecarRecord

/-- The step of `append_record` at which the file system reports an error. -/
inductive AppendFault where
  | createDirectory (parent : String)
  | openFile
  | stat
  | protect
  /-- So many bytes of the line have been written before the error. -/
  | write (written : Nat)
  | sync
deriving DecidableEq

namespace AppendFault

def context (path : String) : AppendFault → String
  | .createDirectory parent => "create sidecar directory " ++ parent
  | .openFile => "open sidecar " ++ path
  | .stat => "stat sidecar " ++ path
  | .protect => "protect sidecar " ++ path
  | .write _ => "append sidecar " ++ path
  | .sync => "sync sidecar " ++ path

def leaves (file : Option (List UInt8)) (line : List UInt8) : AppendFault → Option (List UInt8)
  | .createDirectory _ | .openFile => file
  | .stat | .protect => some (file.getD [])
  | .write written => some (file.getD [] ++ line.take written)
  | .sync => some (file.getD [] ++ line)

end AppendFault

/-- `fault` is the step that fails and the error of the file system. -/
def appendRecord (path : String) (record : SidecarRecord) (fault : Option (AppendFault × String))
    (file : Option (List UInt8)) : Option (List UInt8) × Except AnyhowError Unit :=
  match fault with
  | none => (some (file.getD [] ++ record.line), .ok ())
  | some (fault, cause) =>
    (fault.leaves file record.line, .error ((AnyhowError.msg cause).context (fault.context path)))

namespace SidecarRecord

def fieldNames : List String := ["surface_id", "harness", "session_id", "pid"]

def decode {α : Type} (src : Source α) (fs : Fields α) : Option SidecarRecord :=
  if fs.accepts fieldNames then
    (fs.required fieldNames "surface_id" src.string).bind fun surfaceId =>
      (fs.required fieldNames "harness" src.string).bind fun harness =>
        (fs.required fieldNames "session_id" src.string).bind fun sessionId =>
          (fs.defaulted fieldNames "pid" none (src.option (src.below UInt32.size))).map fun pid =>
            { surfaceId, harness, sessionId, pid := pid.map UInt32.ofNat }
  else none

end SidecarRecord

inductive ReadError where
  | notFound
  | other (cause : String)
deriving DecidableEq

def readFile : Option (List UInt8) → Except ReadError (List UInt8)
  | none => .error .notFound
  | some bytes => .ok bytes

variable (serde : Serde)

def parseLine (path : String) (numbered : List Char × Nat) :
    Except AnyhowError SidecarRecord :=
  match fromStr serde.finite SidecarRecord.decode numbered.1 with
  | some record => .ok record
  | none => .error ((AnyhowError.msg (serde.fromStrError (String.ofList numbered.1))).context
      ("parse sidecar " ++ path ++ " line " ++ toString (numbered.2 + 1)))

/-- `records`. A file that does not exist has none. -/
def records (path : String) :
    Except ReadError (List UInt8) → Except AnyhowError (List SidecarRecord)
  | .error .notFound => .ok []
  | .error (.other cause) => .error ((AnyhowError.msg cause).context ("read sidecar " ++ path))
  | .ok bytes =>
    match Text.decodeUtf8 bytes with
    | none =>
      .error ((AnyhowError.msg "stream did not contain valid UTF-8").context ("read sidecar " ++ path))
    | some text =>
      ((Text.lines text).zipIdx.filter fun numbered => Text.trim numbered.1 ≠ []).mapM (parseLine serde path)

def surfacePid (surface : SurfaceRecord) : Option UInt32 := surface.process.bind ProcessEvidence.pid

def matchRecord (surface : SurfaceRecord) (harness : String) (found : Option SidecarRecord)
    (record : SidecarRecord) : Option SidecarRecord :=
  if record.surfaceId ≠ surface.id ∨ record.harness ≠ harness then found else some record

def SidecarRecord.usable (record : SidecarRecord) (pid : Option UInt32) : Option String :=
  if record.pid.isSome ∧ record.pid ≠ pid then none
  else if isBlank record.sessionId then none
  else some record.sessionId

def sidecarSessionId (path : String) (contents : Except ReadError (List UInt8))
    (surface : SurfaceRecord) (harness : String) : Except AnyhowError (Option String) :=
  match records serde path contents with
  | .error e => .error e
  | .ok records =>
    .ok ((records.foldl (matchRecord surface harness) none).bind fun record =>
      record.usable (surfacePid surface))

def sidecarStateProvider (path : String)
    (contents : Nat → Except ReadError (List UInt8)) : SessionStateProvider where
  sessionId round := sidecarSessionId serde path (contents round)

open SidecarRecord Text Json List

variable {serde : Serde} {path : String}

namespace SidecarRecord

variable (record : SidecarRecord)

theorem printable_toJson : record.toJson.Printable := by
  refine printable_object ?_
  simp only [forall_mem_cons, printable_string, true_and, not_mem_nil, false_implies,
    implies_true, and_true]
  cases record.pid with
  | none => trivial
  | some pid => exact printable_nat pid.toNat

theorem fromStr_render (fin : List Char → Bool) : fromStr fin decode record.toJson.render = some record := by
  obtain ⟨sid, harness, sessionId, pid⟩ := record
  rw [fromStr, parse_render (printable_toJson _), Option.bind_some, toJson, fields_object,
    Option.bind_some, decode, if_pos (by rfl)]
  have hp : (source fin (recursionLimit - 1)).option
      ((source fin (recursionLimit - 1)).below UInt32.size)
      (pid.elim .null fun pid => .nat pid.toNat) = some (pid.map UInt32.toNat) := by
    cases pid with
    | none => rfl
    | some pid =>
      have hb := source_below fin (recursionLimit - 1) pid.toNat_lt (by decide)
      rw [Option.elim_some, Source.option, hb]
      rfl
  have hbc : pid.map (UInt32.ofNat ∘ UInt32.toNat) = pid := by cases pid <;> simp
  simp [Fields.required, Fields.defaulted, Fields.get, lookup_cons, source_string, hp, hbc]

def text : List Char := record.toJson.render

theorem line_eq : record.line = encodeUtf8 (record.text ++ ['\n']) := rfl

theorem newline_not_mem_text : '\n' ∉ record.text := not_mem_render record.printable_toJson (by decide)

theorem stripCr_text : stripCr record.text = record.text :=
  stripCr_of_not_mem (not_mem_render record.printable_toJson (by decide))

theorem trim_text_ne_nil : trim record.text ≠ [] := trim_render_object _

theorem parseLine_text (n : Nat) : parseLine serde path (record.text, n) = .ok record := by
  rw [parseLine, text, fromStr_render]

end SidecarRecord

/-- A call of `append_record`, with the error that it meets. -/
structure AppendCall where
  record : SidecarRecord
  fault : Option (AppendFault × String)

/-- The write fails after a part of the line. -/
def AppendCall.torn (call : AppendCall) : Bool :=
  match call.fault with
  | some (.write written, _) => written ≠ 0
  | _ => false

/-- The line reaches the file; the call may report an error after that. -/
def AppendCall.appends (call : AppendCall) : Bool := call.fault.elim true fun fault => fault.1 = .sync

/-- The sidecar after the calls, if it does not exist before them. -/
def afterCalls (path : String) (calls : List AppendCall) : Option (List UInt8) :=
  calls.foldl (fun file call => (appendRecord path call.record call.fault file).1) none

def appendedRecords (calls : List AppendCall) : List SidecarRecord :=
  (calls.filter AppendCall.appends).map AppendCall.record

theorem appendRecord_contents (c : AppendCall) (hc : c.torn = false) (file : Option (List UInt8)) :
    (appendRecord path c.record c.fault file).1.getD [] =
      file.getD [] ++ if c.appends then c.record.line else [] := by
  obtain ⟨record, f⟩ := c
  cases f with
  | none => simp [appendRecord, AppendCall.appends]
  | some f =>
    obtain ⟨f, cause⟩ := f
    cases f with
    | write n =>
      have hn : n = 0 := by simpa [AppendCall.torn] using hc
      simp [appendRecord, AppendCall.appends, AppendFault.leaves, hn]
    | _ => simp [appendRecord, AppendCall.appends, AppendFault.leaves]

theorem afterCalls_contents (cs : List AppendCall) (hcs : ∀ c ∈ cs, c.torn = false) :
    (afterCalls path cs).getD [] = (appendedRecords cs).flatMap line := by
  have hf : ∀ file : Option (List UInt8),
      (cs.foldl (fun file c => (appendRecord path c.record c.fault file).1) file).getD [] =
        file.getD [] ++ (appendedRecords cs).flatMap line := by
    induction cs with
    | nil => simp [appendedRecords]
    | cons c cs ih =>
      intro file
      obtain ⟨hc, hcs⟩ := forall_mem_cons.mp hcs
      rw [foldl_cons, ih hcs, appendRecord_contents c hc, append_assoc]
      by_cases ha : c.appends = true <;> simp [appendedRecords, ha]
  exact hf none

variable (rs : List SidecarRecord)

theorem flatMap_line :
    rs.flatMap line = encodeUtf8 (terminated '\n' (rs.map text)) := by
  induction rs with
  | nil => rfl
  | cons record rs ih =>
    rw [flatMap_cons, ih, line_eq, ← encodeUtf8_append]
    rfl

theorem mapM_parseLine (n : Nat) :
    ((rs.map text).zipIdx n).mapM (parseLine serde path) = .ok rs := by
  induction rs generalizing n with
  | nil => rfl
  | cons record rs ih =>
    rw [map_cons, zipIdx_cons, mapM_cons, record.parseLine_text, ih]
    rfl

theorem records_lines : records serde path (.ok (rs.flatMap line)) = .ok rs := by
  have hn : ∀ w ∈ rs.map text, '\n' ∉ w := by
    intro w hw
    obtain ⟨record, -, rfl⟩ := mem_map.mp hw
    exact record.newline_not_mem_text
  have hl : lines (terminated '\n' (rs.map text)) = rs.map text := by
    have ha := lines_terminated_append hn []
    rw [append_nil, lines_nil, append_nil, map_map] at ha
    rw [ha]
    exact map_congr_left fun record _ => record.stripCr_text
  have hk : (((rs.map text).zipIdx).filter fun n => trim n.1 ≠ []) = (rs.map text).zipIdx := by
    refine filter_eq_self.mpr fun n hm => ?_
    obtain ⟨record, -, ht⟩ := mem_map.mp (fst_mem_of_mem_zipIdx hm)
    exact decide_eq_true (ht ▸ record.trim_text_ne_nil)
  simp only [records, flatMap_line, decodeUtf8_encodeUtf8, hl, hk]
  exact mapM_parseLine rs 0

theorem records_afterCalls (cs : List AppendCall) (hcs : ∀ c ∈ cs, c.torn = false) :
    records serde path (readFile (afterCalls path cs)) = .ok (appendedRecords cs) := by
  -- a file that does not exist is read like an empty one
  have hr : ∀ file, records serde path (readFile file) = records serde path (.ok (file.getD [])) := by
    intro file
    cases file with
    | none => exact (records_lines []).symm
    | some bs => rfl
  rw [hr, afterCalls_contents cs hcs, records_lines]

theorem foldl_matchRecord (s : SurfaceRecord) (harness : String) (rs : List SidecarRecord)
    (fd : Option SidecarRecord) :
    rs.foldl (matchRecord s harness) fd =
      ((rs.filter fun r => r.surfaceId = s.id ∧ r.harness = harness).getLast?).or fd := by
  induction rs generalizing fd with
  | nil => rfl
  | cons r rs ih =>
    rw [foldl_cons, ih]
    by_cases hm : r.surfaceId = s.id ∧ r.harness = harness
    · rw [filter_cons_of_pos (by simpa using hm), getLast?_cons]
      have hr : matchRecord s harness fd r = some r := by
        simp [matchRecord, hm.1, hm.2]
      rw [hr]
      cases (rs.filter fun r => r.surfaceId = s.id ∧ r.harness = harness).getLast? <;> rfl
    · rw [filter_cons_of_neg (by simpa using hm)]
      have hr : matchRecord s harness fd r = fd := by
        rw [matchRecord, if_pos (not_and_or.mp hm)]
      rw [hr]

theorem SidecarRecord.usable_eq (record : SidecarRecord) (pid : Option UInt32) :
    record.usable pid = if (record.pid.isSome ∧ record.pid ≠ pid) ∨ isBlank record.sessionId then none
      else some record.sessionId := by
  rw [usable]
  by_cases hp : record.pid.isSome ∧ record.pid ≠ pid
  · rw [if_pos hp, if_pos (.inl hp)]
  · rw [if_neg hp]
    simp only [hp, false_or]

/-- **Authority of the last record** about the surface and the harness that reached the file, as long as no write
has left a part of a line. There is no session id if that record has another process id than the surface or a
blank session id. -/
theorem session_id_of_last_record (serde : Serde) (path : String) (calls : Nat → List AppendCall)
    (round : Nat) (hwhole : ∀ call ∈ calls round, call.torn = false) (surface : SurfaceRecord) (harness : String) :
    (sidecarStateProvider serde path fun round => readFile (afterCalls path (calls round))).sessionId
        round surface harness =
      .ok (((appendedRecords (calls round)).filter fun r =>
          r.surfaceId = surface.id ∧ r.harness = harness).getLast?.bind fun r =>
        if (r.pid.isSome ∧ r.pid ≠ surfacePid surface) ∨ isBlank r.sessionId then none
        else some r.sessionId) := by
  simp only [sidecarStateProvider, sidecarSessionId, records_afterCalls _ hwhole, foldl_matchRecord,
    Option.or_none, usable_eq]

/-- A launch in the surface `s` without a process id. -/
def codexRecord (sessionId : String) : SidecarRecord := ⟨"s", "codex", sessionId, none⟩

def launchSurface : SurfaceRecord := ⟨"s", "ghostty", none, "/work", none⟩

def launchSerde : Serde := ⟨fun _ => true, fun _ => "", fun _ => ""⟩

theorem session_id_of_second_launch :
    (sidecarStateProvider launchSerde "state" fun _ => readFile (afterCalls "state"
      [⟨codexRecord "1", none⟩, ⟨codexRecord "2", none⟩,
        ⟨codexRecord "3", some (.write 0, "no space")⟩])).sessionId 0 launchSurface "codex" = .ok (some "2") :=
  session_id_of_last_record launchSerde "state" (fun _ =>
    [⟨codexRecord "1", none⟩, ⟨codexRecord "2", none⟩, ⟨codexRecord "3", some (.write 0, "no space")⟩]) 0 (by decide)
    launchSurface "codex"

/-- One byte of the second line is left in the file. From then on the records cannot be read, though the third one
was appended without an error. -/
theorem torn_line_hides_last_record :
    let file := afterCalls "state"
      [⟨codexRecord "1", none⟩, ⟨codexRecord "2", some (.write 1, "no space")⟩, ⟨codexRecord "3", none⟩]
    (appendRecord "state" (codexRecord "3") none (afterCalls "state"
        [⟨codexRecord "1", none⟩, ⟨codexRecord "2", some (.write 1, "no space")⟩])).2 = .ok () ∧
      (sidecarSessionId launchSerde "state" (readFile file) launchSurface "codex").isOk = false := by
  decide +kernel

end ShareCli.Session
