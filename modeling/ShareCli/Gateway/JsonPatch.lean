import ShareCli.Foundation.Entries

/-!
# JSON patches (`crates/gateway/src/json_patch.rs`)

A list of patches is applied in place. A path is a slash and a key of the document, which must be an object. A
patch that succeeds on an object is an edit of its entries, so a list of them is folded over the map of the
object (`apply_refines_map`).
-/

namespace ShareCli.Gateway

open Foundation Entries

inductive JsValue where
  | null
  | bool (b : Bool)
  | number (n : Float)
  | string (s : String)
  | array (items : List JsValue)
  | object (entries : List (String × JsValue))

/-- An operation on a document. -/
inductive Patch where
  | add (path : String) (value : JsValue)
  | replace (path : String) (value : JsValue)
  | remove (path : String)

structure PatchError where
  message : String
deriving DecidableEq

namespace JsonPatch

abbrev Outcome : Type := JsValue × Except PatchError Unit

def keyFromPath (path : String) : Except PatchError String :=
  match path.toList with
  | '/' :: k =>
    if k = [] then .error ⟨"path `" ++ path ++ "` is empty"⟩ else .ok (String.ofList k)
  | _ => .error ⟨"unsupported path `" ++ path ++ "` (MVP supports `/<key>` only)"⟩

/-- The operations differ in what they do with the entries of an object, which they may refuse. -/
def editEntries (name : String) (doc : JsValue) (path : String)
    (edit : String → List (String × JsValue) → Except PatchError (List (String × JsValue))) : Outcome :=
  match keyFromPath path with
  | .error e => (doc, .error e)
  | .ok key =>
    match doc with
    | .object entries =>
      match edit key entries with
      | .error e => (.object entries, .error e)
      | .ok entries => (.object entries, .ok ())
    | doc => (doc, .error ⟨name ++ " target is not an object"⟩)

def notFound (name key : String) : PatchError := ⟨name ++ ": key `" ++ key ++ "` not found"⟩

def addEntry (value : JsValue) (key : String) (entries : List (String × JsValue)) :
    Except PatchError (List (String × JsValue)) :=
  match position key entries with
  | some pos => .ok (setValue pos value entries)
  | none => .ok (entries ++ [(key, value)])

def replaceEntry (value : JsValue) (key : String) (entries : List (String × JsValue)) :
    Except PatchError (List (String × JsValue)) :=
  match position key entries with
  | some pos => .ok (setValue pos value entries)
  | none => .error (notFound "replace" key)

def removeEntry (key : String) (entries : List (String × JsValue)) :
    Except PatchError (List (String × JsValue)) :=
  match position key entries with
  | some pos => .ok (entries.eraseIdx pos)
  | none => .error (notFound "remove" key)

def add (doc : JsValue) (path : String) (value : JsValue) : Outcome :=
  editEntries "add" doc path (addEntry value)

def replace (doc : JsValue) (path : String) (value : JsValue) : Outcome :=
  editEntries "replace" doc path (replaceEntry value)

def remove (doc : JsValue) (path : String) : Outcome := editEntries "remove" doc path removeEntry

def applyOne (doc : JsValue) : Patch → Outcome
  | .add path value => add doc path value
  | .replace path value => replace doc path value
  | .remove path => remove doc path

def apply (doc : JsValue) : List Patch → Outcome
  | [] => (doc, .ok ())
  | patch :: patches =>
    match applyOne doc patch with
    | (doc, .ok ()) => apply doc patches
    | (doc, .error e) => (doc, .error e)

end JsonPatch

namespace Patch

def path : Patch → String
  | .add p _ => p
  | .replace p _ => p
  | .remove p => p

def key (patch : Patch) : String := String.ofList (patch.path.toList.drop 1)

def new : Patch → Option JsValue
  | .add _ value => some value
  | .replace _ value => some value
  | .remove _ => none

/-- What the patch does to the values of the keys. -/
def onMap (m : String → Option JsValue) (patch : Patch) : String → Option JsValue :=
  Function.update m patch.key patch.new

/-- What the patch does to the keys in their order. -/
def onKeys (ks : List String) (patch : Patch) : List String := editKeys patch.key patch.new ks

/-- The path is a slash and a key, and unless it is added, the key is there. -/
def applies (ks : List String) (patch : Patch) : Bool :=
  patch.path.toList.head? = some '/' && patch.path.toList.tail ≠ [] &&
    match patch with
    | .add _ _ => true
    | _ => patch.key ∈ ks

/-- The patches before the first one that does not apply. -/
def accepted (ks : List String) : List Patch → List Patch
  | [] => []
  | patch :: patches => if patch.applies ks then patch :: accepted (patch.onKeys ks) patches else []

end Patch

namespace JsonPatch

variable {doc doc' : JsValue} {patch : Patch} {patches : List Patch} {e : PatchError}

theorem keyFromPath_ok {p key : String} (h : keyFromPath p = .ok key) :
    key = String.ofList (p.toList.drop 1) := by
  unfold keyFromPath at h
  split at h
  · rename_i k hp
    split_ifs at h
    rw [hp]
    exact (Except.ok.inj h).symm
  · cases h

section Edit

variable {p : String}
  {edit : String → List (String × JsValue) → Except PatchError (List (String × JsValue))}

theorem editEntries_error (n : String) (h : editEntries n doc p edit = (doc', .error e)) : doc' = doc := by
  unfold editEntries at h
  split at h
  · exact (Prod.mk.inj h).1.symm
  · split at h
    · split at h
      · exact (Prod.mk.inj h).1.symm
      · cases h
    · exact (Prod.mk.inj h).1.symm

theorem editEntries_ok (n : String) {es : List (String × JsValue)}
    (h : editEntries n (.object es) p edit = (doc', .ok ())) :
    ∃ es', doc' = .object es' ∧ edit (String.ofList (p.toList.drop 1)) es = .ok es' := by
  simp only [editEntries] at h
  split at h
  · cases h
  · rename_i key hk
    obtain rfl := keyFromPath_ok hk
    split at h
    · cases h
    · rename_i es' he
      exact ⟨es', (Prod.mk.inj h).1.symm, he⟩

end Edit

section Entry

variable {es es' : List (String × JsValue)} {key : String}

theorem addEntry_edits {v : JsValue} (h : addEntry v key es = .ok es') : Edits key (some v) es es' := by
  unfold addEntry at h
  split at h
  · rename_i pos hp
    exact Except.ok.inj h ▸ edits_setValue hp v
  · rename_i hp
    exact Except.ok.inj h ▸ edits_push hp v

theorem replaceEntry_edits {v : JsValue} (h : replaceEntry v key es = .ok es') :
    Edits key (some v) es es' := by
  unfold replaceEntry at h
  split at h
  · rename_i pos hp
    exact Except.ok.inj h ▸ edits_setValue hp v
  · cases h

theorem removeEntry_edits (hnodup : (keys es).Nodup) (h : removeEntry key es = .ok es') : Edits key none es es' := by
  unfold removeEntry at h
  split at h
  · rename_i pos hp
    exact Except.ok.inj h ▸ edits_erase hnodup hp
  · cases h

theorem applyOne_ok (hnodup : (keys es).Nodup) (h : applyOne (.object es) patch = (doc', .ok ())) :
    ∃ es', doc' = .object es' ∧ Edits patch.key patch.new es es' := by
  cases patch with
  | add p v =>
    obtain ⟨es', rfl, he⟩ := editEntries_ok "add" h
    exact ⟨es', rfl, addEntry_edits he⟩
  | replace p v =>
    obtain ⟨es', rfl, he⟩ := editEntries_ok "replace" h
    exact ⟨es', rfl, replaceEntry_edits he⟩
  | remove p =>
    obtain ⟨es', rfl, he⟩ := editEntries_ok "remove" h
    exact ⟨es', rfl, removeEntry_edits hnodup he⟩

end Entry

theorem applyOne_error (h : applyOne doc patch = (doc', .error e)) : doc' = doc := by
  cases patch with
  | add p v => exact editEntries_error "add" h
  | replace p v => exact editEntries_error "replace" h
  | remove p => exact editEntries_error "remove" h

theorem apply_cons_ok (h : applyOne doc patch = (doc', .ok ())) :
    apply doc (patch :: patches) = apply doc' patches := by
  simp only [apply, h]

theorem apply_cons_error (h : applyOne doc patch = (doc', .error e)) :
    apply doc (patch :: patches) = (doc', .error e) := by
  simp only [apply, h]

theorem applyOne_cases (doc : JsValue) (patch : Patch) :
    (∃ doc', applyOne doc patch = (doc', .ok ())) ∨ ∃ e, applyOne doc patch = (doc, .error e) := by
  cases ho : applyOne doc patch with
  | mk doc' r =>
    cases r with
    | ok u => exact .inl ⟨doc', rfl⟩
    | error e => exact .inr ⟨e, by rw [applyOne_error ho]⟩

theorem editedBy_of_apply {es : List (String × JsValue)} (hnodup : (keys es).Nodup)
    (h : apply (.object es) patches = (doc', .ok ())) :
    ∃ es', doc' = .object es' ∧ EditedBy (patches.map fun p => (p.key, p.new)) es es' := by
  induction patches generalizing es with
  | nil =>
    cases h
    exact ⟨es, rfl, .nil es⟩
  | cons patch patches ih =>
    rcases applyOne_cases (.object es) patch with ⟨doc₁, ho⟩ | ⟨e₁, ho⟩
    · obtain ⟨es₁, rfl, he⟩ := applyOne_ok hnodup ho
      rw [apply_cons_ok ho] at h
      obtain ⟨es', rfl, hrest⟩ := ih (he.nodup hnodup) h
      exact ⟨es', rfl, .cons he hrest⟩
    · rw [apply_cons_error ho] at h
      cases h

/-- **Refinement.** The map of the result is the map of the document with the patches folded over it, and the keys
that no patch is about are in their old order. -/
theorem apply_refines_map {es : List (String × JsValue)} (hnodup : (keys es).Nodup)
    (h : apply (.object es) patches = (doc', .ok ())) :
    ∃ es', doc' = .object es' ∧ (keys es').Nodup ∧ toMap es' = patches.foldl Patch.onMap (toMap es) ∧
      (keys es').filter (fun k => patches.all fun p => p.key ≠ k) =
        (keys es).filter fun k => patches.all fun p => p.key ≠ k := by
  obtain ⟨es', rfl, he⟩ := editedBy_of_apply hnodup h
  refine ⟨es', rfl, he.nodup hnodup, ?_, ?_⟩
  · rw [he.toMap_eq, List.foldl_map]
    rfl
  · have ho := he.order hnodup
    simp only [List.all_map] at ho
    exact ho

theorem apply_refines_map_three_kinds :
    ∃ es', JsValue.object [("b", .bool true), ("c", .null)] = .object es' ∧ (keys es').Nodup ∧
      toMap es' = [Patch.add "/c" .null, .replace "/b" (.bool true), .remove "/a"].foldl Patch.onMap
        (toMap [("a", .null), ("b", .null)]) := by
  have ha : apply (.object [("a", .null), ("b", .null)])
      [.add "/c" .null, .replace "/b" (.bool true), .remove "/a"] =
      (.object [("b", .bool true), ("c", .null)], .ok ()) := rfl
  obtain ⟨es', hd, hnodup, hm, -⟩ := apply_refines_map (by decide) ha
  exact ⟨es', hd, hnodup, hm⟩

end JsonPatch

end ShareCli.Gateway
