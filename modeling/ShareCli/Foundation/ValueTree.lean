import Mathlib.Data.List.Basic
import ShareCli.Foundation.Serde

/-!
# Values as trees

What is at a path of names, and an assignment to it, which makes the objects that are missing on the way.
-/

namespace ShareCli.Foundation

open Value List Option

def setEntry {α : Type} (name : String) (a : α) : List (String × α) → List (String × α)
  | [] => [(name, a)]
  | e :: es => if e.1 = name then (name, a) :: es else e :: setEntry name a es

namespace Value

def lookup (v : Value) : List String → Option Value
  | [] => some v
  | name :: path => (v.get name).bind fun w => w.lookup path

/-- It fails where the path leads through a value that is no object. -/
def assign (refusal : String → String) (path : List String) (new : Value) (v : Value) :
    Except String Unit × Value :=
  match path, v with
  | [], _ => (.ok (), new)
  | name :: path, .obj entries =>
    let below := assign refusal path new ((entries.lookup name).getD (.obj []))
    (below.1, .obj (setEntry name below.2 entries))
  | name :: _, v => (.error (refusal name), v)

end Value

section SetEntry

variable {α : Type} {es : List (String × α)} {name other : String} {a : α}

theorem lookup_setEntry_self : (setEntry name a es).lookup name = some a := by
  induction es with
  | nil => rw [setEntry, lookup_cons_self]
  | cons e es ih =>
    obtain ⟨k, b⟩ := e
    rw [setEntry]
    split
    · exact lookup_cons_self
    · rename_i hk
      have hb : (name == k) = false := beq_false_of_ne (Ne.symm hk)
      rw [lookup_cons, hb]
      exact ih

theorem lookup_setEntry_of_ne (h : other ≠ name) : (setEntry name a es).lookup other = es.lookup other := by
  induction es with
  | nil =>
    have hb : (other == name) = false := beq_false_of_ne h
    rw [setEntry, lookup_cons, hb]
  | cons e es ih =>
    obtain ⟨k, b⟩ := e
    rw [setEntry]
    split
    · rename_i hk
      have hk' : k = name := hk
      have hb : (other == name) = false := beq_false_of_ne h
      rw [lookup_cons, lookup_cons, hk', hb]
    · rw [lookup_cons, lookup_cons, ih]

theorem setEntry_of_lookup (h : es.lookup name = some a) : setEntry name a es = es := by
  induction es with
  | nil => cases h
  | cons e es ih =>
    obtain ⟨k, b⟩ := e
    rw [lookup_cons] at h
    rw [setEntry]
    by_cases hk : k = name
    · subst hk
      rw [beq_self_eq_true] at h
      rw [if_pos rfl, some.inj h]
    · rw [beq_false_of_ne (Ne.symm hk)] at h
      rw [if_neg hk, ih h]

end SetEntry

namespace Value

section Assign

variable {refusal : String → String} {path : List String} {new v w : Value}

theorem lookup_nil_obj (q : List String) (h : q ≠ []) : (obj []).lookup q = none := by
  cases q with
  | nil => exact absurd rfl h
  | cons name q => rfl

theorem assign_cons_obj (name : String) (e : List (String × Value)) :
    assign refusal (name :: path) new (.obj e) =
      ((assign refusal path new ((e.lookup name).getD (.obj []))).1,
        .obj (setEntry name (assign refusal path new ((e.lookup name).getD (.obj []))).2 e)) := rfl

theorem obj_of_assign_cons {name : String} (h : (assign refusal (name :: path) new v).1 = .ok ()) :
    ∃ e, v = .obj e := by
  cases v with
  | obj e => exact ⟨e, rfl⟩
  | _ => cases h

theorem lookup_assign (h : (assign refusal path new v).1 = .ok ()) :
    (assign refusal path new v).2.lookup path = some new := by
  induction path generalizing v with
  | nil => rfl
  | cons name path ih =>
    obtain ⟨e, rfl⟩ := obj_of_assign_cons h
    rw [assign_cons_obj] at h ⊢
    rw [lookup, get, lookup_setEntry_self, bind_some]
    exact ih h

theorem lookup_assign_apart {q : List String} (hq : ¬ q <+: path) (hp : ¬ path <+: q)
    (h : (assign refusal path new v).1 = .ok ()) : (assign refusal path new v).2.lookup q = v.lookup q := by
  induction path generalizing v q with
  | nil => exact absurd nil_prefix hp
  | cons name path ih =>
    obtain ⟨e, rfl⟩ := obj_of_assign_cons h
    cases q with
    | nil => exact absurd nil_prefix hq
    | cons other q =>
      rw [assign_cons_obj] at h ⊢
      rw [lookup, lookup, get, get]
      by_cases hn : other = name
      · subst hn
        rw [cons_prefix_cons, not_and] at hq hp
        rw [lookup_setEntry_self, bind_some, ih (hq rfl) (hp rfl) h]
        -- An object that was missing is empty before the assignment goes on below it.
        cases e.lookup other with
        | some w => rfl
        | none =>
          rw [getD_none, bind_none]
          refine lookup_nil_obj q ?_
          rintro rfl
          exact hq rfl nil_prefix
      · rw [lookup_setEntry_of_ne hn]

theorem isObject_of_lookup_nil {q : List String} {w : Value} (h : (obj []).lookup q = some w) :
    w.isObject = true := by
  cases q with
  | nil =>
    cases h
    rfl
  | cons name q => cases h

/-- An assignment goes through exactly if it meets objects only; what is missing is made as it goes. -/
theorem assign_ok_iff : (assign refusal path new v).1 = .ok () ↔
    ∀ q w, q <+: path → q ≠ path → v.lookup q = some w → w.isObject = true := by
  induction path generalizing v with
  | nil =>
    refine ⟨fun _ q w hq hne => absurd (prefix_nil.mp hq) hne, fun _ => rfl⟩
  | cons name path ih =>
    constructor
    · intro h q w hq hne hw
      obtain ⟨e, rfl⟩ := obj_of_assign_cons h
      cases q with
      | nil =>
        cases hw
        rfl
      | cons other q =>
        obtain ⟨rfl, hp⟩ := cons_prefix_cons.mp hq
        obtain ⟨c, hc, hw⟩ := bind_eq_some_iff.mp hw
        have hc' : e.lookup other = some c := hc
        rw [assign_cons_obj, hc'] at h
        exact ih.mp h q w hp (fun he => hne (he ▸ rfl)) hw
    · intro h
      have hv : v.isObject = true := h [] v nil_prefix (cons_ne_nil name path).symm rfl
      cases v with
      | obj e =>
        rw [assign_cons_obj]
        refine ih.mpr fun q w hq hne hw => ?_
        cases hc : e.lookup name with
        | some c =>
          rw [hc] at hw
          refine h (name :: q) w (cons_prefix_cons.mpr ⟨rfl, hq⟩) ?_ ?_
          · rintro ⟨⟩
            exact hne rfl
          · rw [lookup, get, hc]
            exact hw
        | none =>
          rw [hc] at hw
          exact isObject_of_lookup_nil hw
      | _ => cases hv

theorem assign_failed (h : (assign refusal path new v).1 ≠ .ok ()) : (assign refusal path new v).2 = v := by
  induction path generalizing v with
  | nil => exact absurd rfl h
  | cons name path ih =>
    cases v with
    | obj e =>
      rw [assign_cons_obj] at h ⊢
      cases hc : e.lookup name with
      | some c =>
        rw [hc, getD_some] at h
        rw [getD_some, ih h, setEntry_of_lookup hc]
      | none =>
        -- Below an object that was made on the way nothing is met.
        rw [hc] at h
        exact absurd (assign_ok_iff.mpr fun q w _ _ hw => isObject_of_lookup_nil hw) h
    | _ => rfl

theorem assign_lookup (h : v.lookup path = some new) : assign refusal path new v = (.ok (), v) := by
  induction path generalizing v with
  | nil => exact congrArg (Prod.mk _) (some.inj h).symm
  | cons name path ih =>
    obtain ⟨c, hc, hl⟩ := bind_eq_some_iff.mp h
    cases v with
    | obj e =>
      have hc' : e.lookup name = some c := hc
      rw [assign_cons_obj, hc', getD_some, ih hl, setEntry_of_lookup hc']
    | _ => cases hc

end Assign

end Value

end ShareCli.Foundation
