import ShareCli.Foundation.Serde
import ShareCli.Foundation.Text

/-!
# Layout snapshots (`crates/sharecli-session/src/layout.rs`)

`validate` walks a tree of panes and binary splits in order and keeps the set of the surface ids it has met. What
it accepts is said by the splits of the tree (`BinarySplits`) and by the list of its surface ids from left to
right (`surfaceIds`).
-/

namespace ShareCli.Session

open Foundation List

inductive LayoutAxis where
  | horizontal
  | vertical
deriving DecidableEq

inductive LayoutNode where
  | pane (surfaceId : String)
  | split (axis : LayoutAxis) (ratioMillis : Nat) (children : List LayoutNode)

/-- The tree of a window. -/
structure LayoutSnapshot where
  id : String
  terminal : String
  capturedAt : String
  root : LayoutNode

def isBlank (s : String) : Bool := Text.trim s.toList = []

mutual

/-- `validate_node`: the surface ids met so far, or the first problem. -/
def validateNode : LayoutNode → List String → Except String (List String)
  | .pane surfaceId, surfaces =>
    if isBlank surfaceId then .error "layout surface id must not be empty"
    else if surfaceId ∈ surfaces then
      .error ("layout surface id appears more than once: " ++ surfaceId)
    else .ok (surfaceId :: surfaces)
  | .split _ ratioMillis children, surfaces =>
    if ¬ (1 ≤ ratioMillis ∧ ratioMillis ≤ 999) then
      .error "layout split ratio must be between 1 and 999"
    else if children.length ≠ 2 then .error "layout split must contain exactly two children"
    else validateChildren children surfaces

def validateChildren : List LayoutNode → List String → Except String (List String)
  | [], surfaces => .ok surfaces
  | child :: children, surfaces =>
    match validateNode child surfaces with
    | .error e => .error e
    | .ok surfaces => validateChildren children surfaces

end

def LayoutSnapshot.validate (snapshot : LayoutSnapshot) : Except String Unit :=
  if isBlank snapshot.id then .error "layout id must not be empty"
  else if isBlank snapshot.terminal then .error "layout terminal must not be empty"
  else (validateNode snapshot.root []).map fun _ => ()

/-! ### Deserialisation

A variant of an enum is an object with one entry whose name is the variant. -/

def LayoutAxis.ofName : String → Option LayoutAxis
  | "Horizontal" => some .horizontal
  | "Vertical" => some .vertical
  | _ => none

def LayoutAxis.decode : Value → Option LayoutAxis
  | .str name => ofName name
  | .obj [(name, .null)] => ofName name
  | _ => none

namespace LayoutNode

def paneFields : List String := ["surface_id"]

def splitFields : List String := ["axis", "ratio_millis", "children"]

mutual

def decode : Value → Option LayoutNode
  | .obj entries => decodeVariant entries
  | _ => none

def decodeVariant : List (String × Value) → Option LayoutNode
  | [(name, body)] =>
    if name = "Pane" then
      match body with
      | .obj entries =>
        if (Fields.map entries).accepts paneFields then
          ((Fields.map entries).required paneFields "surface_id" Value.source.string).map .pane
        else none
      | _ => none
    else if name = "Split" then decodeSplit body
    else none
  | _ => none

def decodeSplit : Value → Option LayoutNode
  | .obj entries =>
    if (Fields.map entries).accepts splitFields then
      ((Fields.map entries).required splitFields "axis" LayoutAxis.decode).bind fun axis =>
        ((Fields.map entries).required splitFields "ratio_millis" (Value.source.below (2 ^ 16))).bind
          fun ratioMillis => (decodeChildren entries).map fun children =>
            .split axis ratioMillis children
    else none
  | _ => none

def decodeChildren : List (String × Value) → Option (List LayoutNode)
  | [] => none
  | (name, v) :: entries => if name = "children" then decodeItems v else decodeChildren entries

def decodeItems : Value → Option (List LayoutNode)
  | .arr items => decodeAll items
  | _ => none

def decodeAll : List Value → Option (List LayoutNode)
  | [] => some []
  | v :: vs => (decode v).bind fun node => (decodeAll vs).map (node :: ·)

end

end LayoutNode

def LayoutSnapshot.fieldNames : List String := ["id", "terminal", "captured_at", "root"]

def LayoutSnapshot.decode (v : Value) : Option LayoutSnapshot :=
  v.fields.bind fun fs =>
    if fs.accepts fieldNames then
      (fs.required fieldNames "id" Value.source.string).bind fun id =>
        (fs.required fieldNames "terminal" Value.source.string).bind fun terminal =>
          (fs.required fieldNames "captured_at" Value.source.string).bind fun capturedAt =>
            (fs.required fieldNames "root" LayoutNode.decode).map fun root =>
              { id, terminal, capturedAt, root }
    else none

namespace LayoutNode

mutual

def surfaceIds : LayoutNode → List String
  | .pane surfaceId => [surfaceId]
  | .split _ _ children => surfaceIdsOf children

def surfaceIdsOf : List LayoutNode → List String
  | [] => []
  | child :: children => child.surfaceIds ++ surfaceIdsOf children

end

/-- `In node root`: the node is the root of the tree or lies below it. -/
inductive In : LayoutNode → LayoutNode → Prop where
  | self (node : LayoutNode) : In node node
  | child {node child : LayoutNode} {axis : LayoutAxis} {ratioMillis : Nat} {children : List LayoutNode}
      (hmem : child ∈ children) (h : In node child) : In node (.split axis ratioMillis children)

def BinarySplits (root : LayoutNode) : Prop :=
  ∀ axis ratioMillis children, In (.split axis ratioMillis children) root →
    children.length = 2 ∧ 1 ≤ ratioMillis ∧ ratioMillis ≤ 999

theorem binarySplits_pane (sid : String) : BinarySplits (.pane sid) := by
  intro ax rm chs h
  cases h

theorem binarySplits_split {ax : LayoutAxis} {rm : Nat} {chs : List LayoutNode} :
    BinarySplits (.split ax rm chs) ↔ (chs.length = 2 ∧ 1 ≤ rm ∧ rm ≤ 999) ∧
        ∀ child ∈ chs, BinarySplits child := by
  constructor
  · intro h
    refine ⟨h ax rm chs (.self _), ?_⟩
    intro child hc ax' rm' chs' hin
    exact h ax' rm' chs' (.child hc hin)
  · rintro ⟨hroot, hch⟩ ax' rm' chs' hin
    cases hin with
    | self => exact hroot
    | child hm hin => exact hch _ hm _ _ _ hin

/-- The ids may follow those already met: no blank one, and none that occurs twice. -/
structure Fresh (surfaces ids : List String) : Prop where
  notBlank : ∀ id ∈ ids, isBlank id = false
  nodup : ids.Nodup
  notMet : ∀ id ∈ ids, id ∉ surfaces

theorem fresh_nil (s : List String) : Fresh s [] := ⟨by simp, nodup_nil, by simp⟩

theorem fresh_singleton {s : List String} {id : String} :
    Fresh s [id] ↔ isBlank id = false ∧ id ∉ s := by
  constructor
  · intro h
    exact ⟨h.notBlank id (by simp), h.notMet id (by simp)⟩
  · rintro ⟨hb, hm⟩
    exact ⟨by simpa using hb, by simp, by simpa using hm⟩

theorem fresh_append {s ids ids' : List String} :
    Fresh s (ids ++ ids') ↔ Fresh s ids ∧ Fresh (ids.reverse ++ s) ids' := by
  constructor
  · rintro ⟨hb, hn, hm⟩
    obtain ⟨hi, hi', hd⟩ := nodup_append.mp hn
    refine ⟨⟨fun id h => hb id (mem_append_left _ h), hi,
      fun id h => hm id (mem_append_left _ h)⟩,
      ⟨fun id h => hb id (mem_append_right _ h), hi', fun id h => ?_⟩⟩
    rw [mem_append, mem_reverse, not_or]
    exact ⟨fun hid => hd id hid id h rfl, hm id (mem_append_right _ h)⟩
  · rintro ⟨⟨hb, hi, hm⟩, ⟨hb', hi', hm'⟩⟩
    have hnw : ∀ id ∈ ids', id ∉ ids ∧ id ∉ s := fun id h => by
      simpa [not_or] using hm' id h
    refine ⟨fun id h => ?_, nodup_append.mpr ⟨hi, hi', ?_⟩, fun id h => ?_⟩
    · exact (mem_append.mp h).elim (hb id) (hb' id)
    · rintro id hid id' hid' rfl
      exact (hnw id hid').1 hid
    · exact (mem_append.mp h).elim (hm id) fun h' => (hnw id h').2

-- Induction over the tree, the children of a split being a second kind of tree.
mutual

theorem validateNode_ok_iff : ∀ (node : LayoutNode) (s s' : List String),
    validateNode node s = .ok s' ↔ BinarySplits node ∧ Fresh s node.surfaceIds ∧
      s' = node.surfaceIds.reverse ++ s
  | .pane sid, s, s' => by
    rw [validateNode, surfaceIds, fresh_singleton]
    by_cases hb : isBlank sid = true
    · simp [hb]
    · by_cases hm : sid ∈ s
      · simp [hb, hm]
      · simp [hb, hm, binarySplits_pane, eq_comm]
  | .split ax rm chs, s, s' => by
    rw [validateNode, surfaceIds, binarySplits_split]
    by_cases hr : 1 ≤ rm ∧ rm ≤ 999
    · by_cases hl : chs.length = 2
      · simp only [hr, hl, and_self, not_true_eq_false, if_false, ne_eq, true_and]
        exact validateChildren_ok_iff chs s s'
      · simp [hr, hl]
    · simp [hr]

theorem validateChildren_ok_iff : ∀ (chs : List LayoutNode) (s s' : List String),
    validateChildren chs s = .ok s' ↔ (∀ child ∈ chs, BinarySplits child) ∧ Fresh s (surfaceIdsOf chs) ∧
      s' = (surfaceIdsOf chs).reverse ++ s
  | [], s, s' => by
    simp [validateChildren, surfaceIdsOf, fresh_nil, eq_comm]
  | child :: chs, s, s' => by
    rw [validateChildren, surfaceIdsOf, fresh_append, forall_mem_cons]
    have hc := validateNode_ok_iff child s
    cases hn : validateNode child s with
    | error e =>
      have hnt : ¬ (BinarySplits child ∧ Fresh s child.surfaceIds) := by
        intro h
        have hok := (hc _).mpr ⟨h.1, h.2, rfl⟩
        rw [hn] at hok
        cases hok
      constructor
      · intro h
        cases h
      · rintro ⟨⟨hs, -⟩, ⟨hf, -⟩, -⟩
        exact absurd ⟨hs, hf⟩ hnt
    | ok met =>
      obtain ⟨hs, hf, rfl⟩ := (hc met).mp hn
      dsimp only
      rw [validateChildren_ok_iff chs, reverse_append, append_assoc]
      simp only [hs, hf, true_and]

end

end LayoutNode

open LayoutNode

/-- **Accepted layouts.** Each of the splits has two children and a ratio between 1 and 999, and the panes have
surface ids that are not blank and differ from each other. -/
theorem layout_validate_ok_iff (snapshot : LayoutSnapshot) : snapshot.validate = .ok () ↔
      isBlank snapshot.id = false ∧ isBlank snapshot.terminal = false ∧ snapshot.root.BinarySplits ∧
        (∀ id ∈ snapshot.root.surfaceIds, isBlank id = false) ∧ snapshot.root.surfaceIds.Nodup := by
  have hroot : (validateNode snapshot.root []).map (fun _ => ()) = .ok () ↔
      snapshot.root.BinarySplits ∧ Fresh [] snapshot.root.surfaceIds := by
    constructor
    · intro h
      cases hn : validateNode snapshot.root [] with
      | error e =>
        rw [hn] at h
        cases h
      | ok met =>
        obtain ⟨hs, hf, -⟩ := (validateNode_ok_iff _ _ _).mp hn
        exact ⟨hs, hf⟩
    · rintro ⟨hs, hf⟩
      rw [(validateNode_ok_iff _ _ _).mpr ⟨hs, hf, rfl⟩]
      rfl
  have hf : Fresh [] snapshot.root.surfaceIds ↔
      (∀ id ∈ snapshot.root.surfaceIds, isBlank id = false) ∧ snapshot.root.surfaceIds.Nodup :=
    ⟨fun h => ⟨h.notBlank, h.nodup⟩, fun h => ⟨h.1, h.2, fun _ _ => not_mem_nil⟩⟩
  rw [LayoutSnapshot.validate, ← hf, ← hroot]
  by_cases hid : isBlank snapshot.id = true
  · simp [hid]
  · by_cases ht : isBlank snapshot.terminal = true
    · simp [hid, ht]
    · simp [hid, ht]

end ShareCli.Session
