import Mathlib.Data.List.Nodup
import Mathlib.Logic.Function.Basic

/-!
# Maps as lists of entries

An edit looks for the position of a key and sets the value, removes the entry, or puts a new one at the end. With
distinct keys it is an update of the function that looks a key up, and the other keys stay in their order.
-/

namespace ShareCli.Foundation.Entries

open Function List

variable {κ α : Type*} [DecidableEq κ]

def keys (es : List (κ × α)) : List κ := es.map Prod.fst

def position (key : κ) (es : List (κ × α)) : Option Nat := es.findIdx? fun e => e.1 = key

def setValue (pos : Nat) (a : α) (es : List (κ × α)) : List (κ × α) := es.modify pos fun e => (e.1, a)

def toMap (es : List (κ × α)) (key : κ) : Option α := es.lookup key

/-- The keys after an edit: a new key comes last, and one that is removed is gone. -/
def editKeys (key : κ) (new : Option α) (ks : List κ) : List κ :=
  if new.isNone then ks.erase key else if key ∈ ks then ks else ks ++ [key]

/-- One edit: the key has the new value, or none, and nothing else happened. -/
structure Edits (key : κ) (new : Option α) (es es' : List (κ × α)) : Prop where
  map_eq : toMap es' = Function.update (toMap es) key new
  keys_eq : keys es' = editKeys key new (keys es)

/-- The edits, each a key and what it has then, lead from the first list to the second. -/
inductive EditedBy : List (κ × Option α) → List (κ × α) → List (κ × α) → Prop where
  | nil (es : List (κ × α)) : EditedBy [] es es
  | cons {key : κ} {new : Option α} {edits : List (κ × Option α)} {es es₁ es₂ : List (κ × α)}
      (h : Edits key new es es₁) (hrest : EditedBy edits es₁ es₂) : EditedBy ((key, new) :: edits) es es₂

section Position

variable {key : κ} {es : List (κ × α)} {pos : Nat}

theorem not_mem_of_position (h : position key es = none) : key ∉ keys es := by
  intro hm
  obtain ⟨e, he, hk⟩ := mem_map.mp hm
  have hno := findIdx?_eq_none_iff.mp h e he
  simp [hk] at hno

theorem mem_of_position (h : position key es = some pos) : key ∈ keys es := by
  obtain ⟨hlt, hk, -⟩ := findIdx?_eq_some_iff_getElem.mp h
  exact mem_map.mpr ⟨es[pos], getElem_mem hlt, by simpa using hk⟩

theorem split_of_position (h : position key es = some pos) :
    ∃ front a back, es = front ++ (key, a) :: back ∧ key ∉ keys front ∧ front.length = pos := by
  obtain ⟨hlt, hk, hb⟩ := findIdx?_eq_some_iff_getElem.mp h
  have hen : es[pos].1 = key := by simpa using hk
  refine ⟨es.take pos, es[pos].2, es.drop (pos + 1), ?_, ?_, ?_⟩
  · rw [← hen]
    exact ((drop_eq_getElem_cons hlt).symm ▸ take_append_drop pos es).symm
  · intro hm
    obtain ⟨e, he, hf⟩ := mem_map.mp hm
    obtain ⟨i, hi, rfl⟩ := getElem_of_mem he
    rw [length_take] at hi
    rw [getElem_take] at hf
    exact absurd (decide_eq_true hf) (hb i (by omega))
  · rw [length_take]
    omega

end Position

section Middle

variable {key : κ} {front back es : List (κ × α)}

theorem toMap_of_not_mem (h : key ∉ keys es) : toMap es key = none := by
  refine lookup_eq_none_iff.mpr fun e he => ?_
  have hne : key ≠ e.1 := fun heq => h (heq ▸ mem_map_of_mem he)
  exact bne_iff_ne.mpr hne

theorem toMap_middle (hf : key ∉ keys front) (a : α) :
    toMap (front ++ (key, a) :: back) = update (toMap (front ++ back)) key (some a) := by
  funext k
  by_cases hk : k = key
  · subst hk
    have hn : front.lookup k = none := toMap_of_not_mem hf
    rw [update_self, toMap, lookup_append, hn, Option.none_or, lookup_cons_self]
  · have hb : (k == key) = false := beq_false_of_ne hk
    rw [update_of_ne hk, toMap, toMap, lookup_append, lookup_append, lookup_cons, hb]

end Middle

section Edit

variable {key : κ} {new : Option α} {ks : List κ} {es es' : List (κ × α)} {pos : Nat}

theorem edits_setValue (h : position key es = some pos) (a : α) :
    Edits key (some a) es (setValue pos a es) := by
  have hmem := mem_of_position h
  obtain ⟨front, b, back, rfl, hf, rfl⟩ := split_of_position h
  have hs : setValue front.length a (front ++ (key, b) :: back) = front ++ (key, a) :: back := by
    simp [setValue, modify_eq_take_cons_drop]
  rw [hs]
  constructor
  · rw [toMap_middle hf, toMap_middle hf, update_idem]
  · rw [editKeys, if_neg (by simp), if_pos hmem]
    simp [keys]

theorem edits_push (h : position key es = none) (a : α) : Edits key (some a) es (es ++ [(key, a)]) := by
  have hn : key ∉ keys es := not_mem_of_position h
  constructor
  · rw [toMap_middle hn, append_nil]
  · rw [editKeys, if_neg (by simp), if_neg hn]
    simp [keys]

theorem edits_erase (hnodup : (keys es).Nodup) (h : position key es = some pos) :
    Edits key none es (es.eraseIdx pos) := by
  obtain ⟨front, b, back, rfl, hf, rfl⟩ := split_of_position h
  have he : (front ++ (key, b) :: back).eraseIdx front.length = front ++ back := by
    simp [eraseIdx_append_of_length_le]
  have hk : keys (front ++ (key, b) :: back) = keys front ++ key :: keys back := by simp [keys]
  have hrest : keys (front ++ back) = keys front ++ keys back := by simp [keys]
  rw [hk] at hnodup
  have hg : key ∉ keys (front ++ back) := hrest ▸ (nodup_cons.mp (nodup_middle.mp hnodup)).1
  rw [he]
  constructor
  · have hn : toMap (front ++ back) key = none := toMap_of_not_mem hg
    rw [toMap_middle hf, update_idem, ← hn, update_eq_self]
  · rw [hrest, hk, editKeys, if_pos Option.isNone_none, erase_append_right _ hf, erase_cons_head]

theorem nodup_editKeys (h : ks.Nodup) : (editKeys key new ks).Nodup := by
  unfold editKeys
  split_ifs with hn hm
  · exact h.erase key
  · exact h
  · exact nodup_append_comm.mp (nodup_cons.mpr ⟨hm, h⟩)

theorem filter_editKeys (h : ks.Nodup) : (editKeys key new ks).filter (key ≠ ·) = ks.filter (key ≠ ·) := by
  unfold editKeys
  split_ifs with hn hm
  · rw [h.erase_eq_filter, filter_filter]
    refine filter_congr fun k _ => ?_
    by_cases hk : key = k
    · simp [hk]
    · simp [hk, Ne.symm hk]
  · rfl
  · simp [filter_append]

theorem Edits.nodup (h : Edits key new es es') (hnodup : (keys es).Nodup) : (keys es').Nodup := by
  rw [h.keys_eq]
  exact nodup_editKeys hnodup

end Edit

namespace EditedBy

variable {edits : List (κ × Option α)} {es es' : List (κ × α)}

theorem nodup (h : EditedBy edits es es') (hnodup : (keys es).Nodup) : (keys es').Nodup := by
  induction h with
  | nil => exact hnodup
  | cons he _ ih => exact ih (he.nodup hnodup)

theorem toMap_eq (h : EditedBy edits es es') :
    toMap es' = edits.foldl (fun m e => update m e.1 e.2) (toMap es) := by
  induction h with
  | nil => rfl
  | cons he _ ih => rw [ih, foldl_cons, he.map_eq]

theorem order (h : EditedBy edits es es') (hnodup : (keys es).Nodup) :
    (keys es').filter (fun k => edits.all fun e => e.1 ≠ k) =
      (keys es).filter fun k => edits.all fun e => e.1 ≠ k := by
  induction h with
  | nil => rfl
  | @cons key new edits es es₁ es₂ he _ ih =>
    have hs : ∀ ks : List κ, (ks.filter fun k => ((key, new) :: edits).all fun e => e.1 ≠ k) =
        (ks.filter (key ≠ ·)).filter fun k => edits.all fun e => e.1 ≠ k := by
      intro ks
      rw [filter_filter]
      refine filter_congr fun k _ => ?_
      rw [all_cons, Bool.and_comm]
    rw [hs, hs, filter_comm, ih (he.nodup hnodup), filter_comm, he.keys_eq, filter_editKeys hnodup]

end EditedBy

end ShareCli.Foundation.Entries
