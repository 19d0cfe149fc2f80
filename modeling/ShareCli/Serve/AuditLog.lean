import Mathlib.Data.List.Induction
import ShareCli.Foundation.Decimal

/-!
# The audit log (`src/audit_log.rs`)

Before a line is appended, a file that has reached the limit becomes the file number 1, and the older ones are
renumbered from the last one down. A line is what `serde_json` prints for a record.
-/

namespace ShareCli.Serve

open Foundation List Function

abbrev LogFiles := List Char → Option (List UInt8)

/-- The limits of the log. -/
structure Retention where
  maxBytes : Nat
  retain : Nat
  retain_pos : 0 < retain

def rotationPath (path : List Char) (index : Nat) : List Char := path ++ '.' :: Nat.toDigits 10 index

def removeFile (files : LogFiles) (path : List Char) : LogFiles := update files path none

/-- The error of a file that is not there is ignored. -/
def renameFile (files : LogFiles) (old new : List Char) : LogFiles :=
  match files old with
  | none => files
  | some body => update (update files old none) new (some body)

def renumber (path : List Char) : Nat → LogFiles → LogFiles
  | 0, files => files
  | i + 1, files => renumber path i (renameFile files (rotationPath path (i + 1)) (rotationPath path (i + 2)))

def rotateIfNeeded (r : Retention) (path : List Char) (files : LogFiles) : LogFiles :=
  match files path with
  | none => files
  | some body =>
    if body.length < r.maxBytes then files
    else
      let files := removeFile files (rotationPath path r.retain)
      renameFile (renumber path (r.retain - 1) files) path (rotationPath path 1)

def emitTo (r : Retention) (path : List Char) (files : LogFiles) (line : List UInt8) : LogFiles :=
  let files := rotateIfNeeded r path files
  update files path (some ((files path).getD [] ++ line ++ [0x0a]))

variable {path : List Char} {f : LogFiles}

/-- The current file has the number 0. -/
def slot (path : List Char) : Nat → List Char
  | 0 => path
  | i + 1 => rotationPath path (i + 1)

theorem slot_inj {i j : Nat} : slot path i = slot path j ↔ i = j := by
  refine ⟨fun h => ?_, congrArg _⟩
  cases i with
  | zero => cases j <;> simp [slot, rotationPath] at h ⊢
  | succ i =>
    cases j with
    | zero => simp [slot, rotationPath] at h
    | succ j =>
      have hd := (cons.inj (append_cancel_left h)).2
      exact Nat.ofDigitChars_ten_toDigits.symm.trans (hd ▸ Nat.ofDigitChars_ten_toDigits)

theorem renameFile_slot {a b : Nat} (hn : f (slot path b) = none) (j : Nat) :
    renameFile f (slot path a) (slot path b) (slot path j) =
      if j = b then f (slot path a) else if j = a then none else f (slot path j) := by
  unfold renameFile
  cases ho : f (slot path a) with
  | none => grind
  | some body => simp [update_apply, slot_inj]

theorem renumber_slot {k : Nat} (h : f (slot path (k + 1)) = none) (j : Nat) :
    renumber path k f (slot path j) =
      if j = 0 ∨ k + 1 < j then f (slot path j) else if j = 1 then none else f (slot path (j - 1)) := by
  induction k generalizing f with
  | zero =>
    rw [renumber]
    grind
  | succ k ih =>
    have hr := renameFile_slot (a := k + 1) h
    have hi := ih (f := renameFile f (slot path (k + 1)) (slot path (k + 2))) (by simp [hr])
    rw [renumber]
    refine hi.trans ?_
    rw [hr, hr]
    grind

theorem rotate_slot {n : Nat} (f : LogFiles) (j : Nat) :
    renameFile (renumber path n (removeFile f (slot path (n + 1)))) path (slot path 1) (slot path j) =
      if j = 0 then none else if j ≤ n + 1 then f (slot path (j - 1)) else f (slot path j) := by
  have h : removeFile f (slot path (n + 1)) (slot path (n + 1)) = none := by simp [removeFile]
  have hr := renumber_slot h
  refine (renameFile_slot (a := 0) (by simp [hr]) j).trans ?_
  rw [hr, hr]
  simp only [removeFile, update_apply, slot_inj]
  grind

def lineText (lines : List (List UInt8)) : List UInt8 := lines.flatMap (· ++ [0x0a])

/-- The file with the number `j` holds the lines of `blocks[j]`. -/
def Holds (r : Retention) (path : List Char) (f : LogFiles) (blocks : List (List (List UInt8))) : Prop :=
  ∀ j ≤ r.retain, (f (slot path j)).getD [] = lineText (blocks.getD j [])

variable {r : Retention} {b : List (List UInt8)} {bs : List (List (List UInt8))}

theorem holds_rotateIfNeeded (h : Holds r path f (b :: bs)) :
    Holds r path (rotateIfNeeded r path f) (b :: bs) ∨ Holds r path (rotateIfNeeded r path f) ([] :: b :: bs) := by
  unfold rotateIfNeeded
  cases hb : f path with
  | none => exact .inl h
  | some body =>
    by_cases hl : body.length < r.maxBytes
    · exact .inl (by simpa only [hl, if_true] using h)
    right
    obtain ⟨n, hn⟩ : ∃ n, r.retain = n + 1 := ⟨r.retain - 1, (Nat.succ_pred_eq_of_pos r.retain_pos).symm⟩
    simp only [hl, if_false, hn, Nat.add_sub_cancel]
    intro j hj
    refine (congrArg (·.getD []) (rotate_slot f j)).trans ?_
    cases j with
    | zero => rfl
    | succ j => simpa [show j ≤ n by omega] using h j (by omega)

theorem holds_emitTo (line : List UInt8) (h : Holds r path f (b :: bs)) :
    ∃ b' bs', (b' :: bs').reverse.flatten = (b :: bs).reverse.flatten ++ [line] ∧ b' ≠ [] ∧
      Holds r path (emitTo r path f line) (b' :: bs') := by
  have hw {f : LogFiles} {c cs} (hc : Holds r path f (c :: cs)) :
      Holds r path (update f path (some ((f path).getD [] ++ line ++ [0x0a]))) ((c ++ [line]) :: cs) := by
    intro j hj
    cases j with
    | zero => simpa [slot, lineText] using hc 0 hj
    | succ j =>
      have hne : slot path (j + 1) ≠ path := by simp [slot, rotationPath]
      simpa [update_of_ne hne] using hc (j + 1) hj
  rcases holds_rotateIfNeeded h with hr | hr <;> exact ⟨_, _, by simp, by simp, hw hr⟩

theorem flatMap_slots (h : Holds r path f bs) {n : Nat} (hn : n ≤ r.retain + 1) :
    (range n).reverse.flatMap (fun j => (f (slot path j)).getD []) =
      lineText (bs.take n).reverse.flatten := by
  induction n with
  | zero => rfl
  | succ n ih =>
    have ht : (bs.take (n + 1)).reverse.flatten = bs.getD n [] ++ (bs.take n).reverse.flatten := by
      cases hb : bs[n]? <;> simp [take_add_one, hb]
    rw [range_succ, reverse_append, ht, lineText, flatMap_append]
    simp [ih (by omega), h n (by omega), lineText]

/-- **Rotation.** What is left is the end of what was emitted. -/
theorem audit_log_suffix (r : Retention) (path : List Char) (lines : List (List UInt8)) :
    let files := lines.foldl (emitTo r path) fun _ => none
    ∃ dropped kept, dropped ++ kept = lines ∧ (lines ≠ [] → kept ≠ []) ∧
      ((range r.retain).reverse.flatMap fun i => (files (rotationPath path (i + 1))).getD []) ++
        (files path).getD [] = lineText kept := by
  intro files
  obtain ⟨b, bs, hl, hne, hh⟩ : ∃ b bs, (b :: bs).reverse.flatten = lines ∧ (lines ≠ [] → b ≠ []) ∧
      Holds r path files (b :: bs) := by
    induction lines using reverseRecOn with
    | nil => exact ⟨[], [], rfl, by simp, fun j _ => by cases j <;> rfl⟩
    | append_singleton ls line ih =>
      obtain ⟨b, bs, hl, -, hh⟩ := ih
      obtain ⟨b', bs', hl', hne, hh'⟩ := holds_emitTo line hh
      refine ⟨b', bs', hl'.trans (by rw [hl]), fun _ => hne, ?_⟩
      simpa only [files, foldl_append, foldl_cons, foldl_nil] using hh'
  refine ⟨((b :: bs).drop (r.retain + 1)).reverse.flatten, ((b :: bs).take (r.retain + 1)).reverse.flatten,
    ?_, fun hn => ?_, ?_⟩
  · rw [← flatten_append, ← reverse_append, take_append_drop, hl]
  · simp [hne hn]
  · rw [← flatMap_slots hh (Nat.le_refl _), range_succ_eq_map, reverse_cons, ← map_reverse,
      flatMap_append, flatMap_map, flatMap_singleton]
    rfl

end ShareCli.Serve
