import ShareCli.Foundation.Delimited
import ShareCli.Foundation.Proofs.SerdeProofs
import ShareCli.Foundation.StableSort

/-!
# The journal of operations (`src/commands/undo.rs`)

Every operation appends a line of JSON; the file is the list of its lines. `read_recent` sorts what it can read
by the second it was written in: the sort keeps records of one second in the order of the file.
-/

namespace ShareCli.Commands

open Foundation Text Json List

/-- A line of the journal. -/
structure OperationRecord where
  id : String
  ts : UInt64
  kind : String
  target : String
  reversible : Bool
  note : Option String
deriving DecidableEq

namespace OperationRecord

def toJson (record : OperationRecord) : Json :=
  .object
    [("id", .string record.id.toList), ("ts", .nat record.ts.toNat), ("kind", .string record.kind.toList),
      ("target", .string record.target.toList), ("reversible", .bool record.reversible),
      ("note", record.note.elim .null fun note => .string note.toList)]

def text (record : OperationRecord) : List Char := record.toJson.render

def fieldNames : List String := ["id", "ts", "kind", "target", "reversible", "note"]

def decode {α : Type} (src : Source α) (fs : Fields α) : Option OperationRecord :=
  if fs.accepts fieldNames then
    (fs.required fieldNames "id" src.string).bind fun id =>
      (fs.required fieldNames "ts" (src.below (2 ^ 64))).bind fun ts =>
        (fs.required fieldNames "kind" src.string).bind fun kind =>
          (fs.required fieldNames "target" src.string).bind fun target =>
            (fs.required fieldNames "reversible" fun a => (src.value a).bind Value.asBool).bind
              fun reversible =>
                (fs.defaulted fieldNames "note" none (src.option src.string)).map fun note =>
                  { id, ts := .ofNat ts, kind, target, reversible, note }
  else none

end OperationRecord

def appendRecord (record : OperationRecord) (file : Option (List (List UInt8))) : Option (List (List UInt8)) :=
  some (file.getD [] ++ [encodeUtf8 record.text])

/-- Blank and corrupted lines are skipped. -/
def readRow (finite : List Char → Bool) (line : List Char) : Option OperationRecord :=
  let line := stripCr line
  if trim line = [] then none else fromStr finite OperationRecord.decode line

def sortRecent (out : List OperationRecord) : List OperationRecord :=
  sortByKey (fun r => OrderDual.toDual r.ts.toNat) out

/-- A line that is not UTF-8 is an error, whatever stands in the other lines. -/
def readRecent (finite : List Char → Bool) (file : Option (List (List UInt8))) (limit : Nat) :
    Except String (List OperationRecord) :=
  match file with
  | none => .ok []
  | some lines =>
    if lines.all fun line => (decodeUtf8 line).isSome then
      let out := lines.filterMap fun line => (decodeUtf8 line).bind (readRow finite)
      .ok ((sortRecent out).take limit)
    else .error "stream did not contain valid UTF-8"

namespace OperationRecord

variable (record : OperationRecord) (finite : List Char → Bool)

theorem printable_toJson : record.toJson.Printable := by
  refine printable_object ?_
  simp only [forall_mem_cons, printable_string, printable_nat, not_mem_nil,
    false_implies, implies_true, and_true, true_and]
  refine ⟨trivial, ?_⟩
  cases record.note with
  | none => trivial
  | some note => exact printable_string _

theorem fromStr_text : fromStr finite decode record.text = some record := by
  obtain ⟨id, ts, kind, target, reversible, note⟩ := record
  rw [text, fromStr, parse_render (printable_toJson _), Option.bind_some, toJson, fields_object,
    Option.bind_some, decode, if_pos (by rfl)]
  have hts := source_below finite (recursionLimit - 1) ts.toNat_lt (by decide)
  have hr : (source finite (recursionLimit - 1)).value (.bool reversible) = some (.bool reversible) := rfl
  have hn : (source finite (recursionLimit - 1)).option (source finite (recursionLimit - 1)).string
      (note.elim .null fun note => .string note.toList) = some note := by
    cases note with
    | none => rfl
    | some note =>
      rw [Option.elim_some, Source.option, source_string]
      rfl
  simp [Fields.required, Fields.defaulted, Fields.get, lookup_cons, source_string, hts, hr, hn, Value.asBool]

theorem readRow_text : readRow finite record.text = some record := by
  have hs : stripCr record.text = record.text :=
    stripCr_of_not_mem (not_mem_render record.printable_toJson (by decide))
  have ht : trim record.text ≠ [] := trim_render_object _
  rw [readRow, hs, if_neg ht, fromStr_text]

end OperationRecord

inductive JournalStep where
  | append (record : OperationRecord)
  | corrupted (line : List UInt8)

namespace JournalStep

def apply (file : Option (List (List UInt8))) : JournalStep → Option (List (List UInt8))
  | .append record => appendRecord record file
  | .corrupted line => some (file.getD [] ++ [line])

def record? : JournalStep → Option OperationRecord
  | .append record => some record
  | .corrupted _ => none

def line : JournalStep → List UInt8
  | .append record => encodeUtf8 record.text
  | .corrupted line => line

/-- A corrupted line is none that could be read as a record. -/
def Sound (finite : List Char → Bool) : JournalStep → Prop
  | .append _ => True
  | .corrupted line => (decodeUtf8 line).bind (readRow finite) = none

def IsUtf8 (step : JournalStep) : Prop := (decodeUtf8 step.line).isSome = true

end JournalStep

def journal (steps : List JournalStep) : Option (List (List UInt8)) := steps.foldl JournalStep.apply none

def appended (steps : List JournalStep) : List OperationRecord := steps.filterMap JournalStep.record?

section Journals

variable {finite : List Char → Bool} {steps : List JournalStep}

theorem journal_getD (steps : List JournalStep) : (journal steps).getD [] = steps.map JournalStep.line := by
  have h : ∀ file : Option (List (List UInt8)),
      (steps.foldl JournalStep.apply file).getD [] = file.getD [] ++ steps.map JournalStep.line := by
    induction steps with
    | nil => simp
    | cons step steps ih =>
      intro file
      rw [foldl_cons, ih]
      cases step <;> simp [JournalStep.apply, appendRecord, JournalStep.line]
  exact h none

theorem readRecent_eq (file : Option (List (List UInt8))) (limit : Nat) :
    readRecent finite file limit = readRecent finite (some (file.getD [])) limit := by
  cases file with
  | none => simp [readRecent, sortRecent, sortByKey]
  | some lines => rfl

theorem filterMap_line (h : ∀ step ∈ steps, step.Sound finite) :
    (steps.map JournalStep.line).filterMap (fun line => (decodeUtf8 line).bind (readRow finite)) =
      appended steps := by
  rw [filterMap_map, appended]
  refine filterMap_congr fun step hs => ?_
  cases step with
  | append record =>
    simp only [Function.comp_apply, JournalStep.line, JournalStep.record?, decodeUtf8_encodeUtf8,
      Option.bind_some, record.readRow_text]
  | corrupted line => exact h _ hs

theorem readRecent_journal (h : ∀ step ∈ steps, step.Sound finite) (hu : ∀ step ∈ steps, step.IsUtf8)
    (limit : Nat) : readRecent finite (journal steps) limit =
      .ok ((sortRecent (appended steps)).take limit) := by
  have ha : (steps.map JournalStep.line).all (fun line => (decodeUtf8 line).isSome) = true := by
    rw [all_map, all_eq_true]
    exact hu
  rw [readRecent_eq, journal_getD, readRecent, if_pos ha, filterMap_line h]

theorem isUtf8_of_readRecent {limit : Nat} {out : List OperationRecord}
    (h : readRecent finite (journal steps) limit = .ok out) : ∀ step ∈ steps, step.IsUtf8 := by
  by_contra hu
  have ha : ¬ (steps.map JournalStep.line).all (fun line => (decodeUtf8 line).isSome) = true := by
    rw [all_map, all_eq_true]
    exact hu
  rw [readRecent_eq, journal_getD, readRecent, if_neg ha] at h
  cases h

/-- As far as there is room for the records of a second behind the later ones, they read the same from behind. -/
def ReadsBack (records : List OperationRecord) (limit t : Nat) : Prop :=
  let room := limit - (records.filter fun r => t < r.ts.toNat).length
  let same := records.filter fun r => r.ts.toNat = t
  same.take room = same.reverse.take room

/-- **Recent operations.** The last records come out, the last one first, exactly if every line is UTF-8 and
the records of each second that is within the limit read the same from behind. -/
theorem read_recent_iff (limit : Nat) (h : ∀ step ∈ steps, step.Sound finite)
    (hts : (appended steps).Pairwise fun r r' => r.ts.toNat ≤ r'.ts.toNat) :
    readRecent finite (journal steps) limit = .ok ((appended steps).reverse.take limit) ↔
      (∀ step ∈ steps, step.IsUtf8) ∧ ∀ t, ReadsBack (appended steps) limit t := by
  let key (r : OperationRecord) := OrderDual.toDual r.ts.toNat
  have hfront (hu : ∀ step ∈ steps, step.IsUtf8) :
      readRecent finite (journal steps) limit = .ok ((appended steps).reverse.take limit) ↔
        (sortRecent (appended steps)).take limit = (appended steps).reverse.take limit := by
    rw [readRecent_journal h hu, Except.ok.injEq]
  have hback : (sortRecent (appended steps)).take limit = (appended steps).reverse.take limit ↔
      ∀ t, ReadsBack (appended steps) limit t := by
    refine (take_eq_take_iff_filter pairwise_sortByKey (pairwise_reverse.mpr hts) limit).trans ?_
    refine OrderDual.ofDual.forall_congr fun {t} => ?_
    have hsort : (sortByKey key (appended steps)).filter (fun r => key r = t) =
        (appended steps).filter fun r => key r = t := filter_sortByKey t
    have hlater : ((sortByKey key (appended steps)).filter (fun r => key r < t)).length =
        ((appended steps).filter fun r => key r < t).length := (sortByKey_perm.filter _).length_eq
    rw [hsort, hlater, filter_reverse, filter_reverse, length_reverse]
    rfl
  constructor
  · intro hr
    have hu := isUtf8_of_readRecent hr
    exact ⟨hu, hback.mp ((hfront hu).mp hr)⟩
  · rintro ⟨hu, ht⟩
    exact (hfront hu).mpr (hback.mpr ht)

end Journals

def started (id : String) (ts : UInt64) : OperationRecord :=
  { id, ts, kind := "start", target := "codex", reversible := true, note := none }

theorem isUtf8_append (record : OperationRecord) : (JournalStep.append record).IsUtf8 := by
  rw [JournalStep.IsUtf8, JournalStep.line, decodeUtf8_encodeUtf8]
  rfl

/-- Two operations of one second are beyond the limit, and a corrupted line is skipped. -/
theorem read_recent_two_of_four :
    readRecent (fun _ => true) (journal [.append (started "a" 1), .append (started "b" 1), .corrupted [120],
      .append (started "c" 2), .append (started "d" 3)]) 2 = .ok [started "d" 3, started "c" 2] := by
  refine (read_recent_iff 2 ?_ ?_).mpr ⟨?_, fun t => ?_⟩
  · simp only [forall_mem_cons, JournalStep.Sound, true_and]
    exact ⟨by decide +kernel, forall_mem_nil _⟩
  · decide
  · simp only [forall_mem_cons, isUtf8_append, true_and]
    exact ⟨rfl, forall_mem_nil _⟩
  · rcases t with _ | _ | _ | _ | t
    · rfl
    · rfl
    · rfl
    · rfl
    · show ReadsBack [started "a" 1, started "b" 1, started "c" 2, started "d" 3] 2 (t + 4)
      simp [ReadsBack, started]

/-- Of two operations of one second, the first one is the most recent. -/
theorem read_recent_ties :
    let steps := [JournalStep.append (started "a" 1), .append (started "b" 1)]
    readRecent (fun _ => true) (journal steps) 1 = .ok [started "a" 1] ∧
      (appended steps).reverse.take 1 = [started "b" 1] := by
  refine ⟨?_, rfl⟩
  rw [readRecent_journal (by simp [JournalStep.Sound]) (by simp [isUtf8_append])]
  rfl

end ShareCli.Commands
