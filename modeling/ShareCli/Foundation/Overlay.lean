import Mathlib.Data.List.Nodup
import Mathlib.Logic.Function.Basic

/-!
# Values that are overridden for a while

`overlay base overrides` is the table with some keys overridden, the later overrides before the earlier ones.
-/

namespace ShareCli.Foundation

open Function List

variable {κ ν : Type*} [DecidableEq κ]

def overlay (base : κ → Option ν) (overrides : List (κ × ν)) : κ → Option ν :=
  overrides.foldl (fun table o => Function.update table o.1 (some o.2)) base

variable {base : κ → Option ν} {overrides : List (κ × ν)} {o : κ × ν} {key : κ}

theorem overlay_concat : overlay base (overrides ++ [o]) = update (overlay base overrides) o.1 (some o.2) :=
  foldl_concat _ _ _ _

theorem overlay_cons : overlay base (o :: overrides) = overlay (update base o.1 (some o.2)) overrides := rfl

theorem overlay_of_not_mem (h : key ∉ overrides.map Prod.fst) : overlay base overrides key = base key := by
  induction overrides generalizing base with
  | nil => rfl
  | cons o overrides ih =>
    rw [map_cons, mem_cons, not_or] at h
    rw [overlay_cons, ih h.2, update_of_ne h.1]

theorem update_overlay {v : Option ν} (h : key ∉ overrides.map Prod.fst) :
    update (overlay base overrides) key v = overlay (update base key v) overrides := by
  induction overrides generalizing base with
  | nil => rfl
  | cons o overrides ih =>
    rw [map_cons, mem_cons, not_or] at h
    rw [overlay_cons, overlay_cons, ih h.2, update_comm h.1]

theorem overlay_restore (h : o.1 ∉ overrides.map Prod.fst) :
    update (overlay base (o :: overrides)) o.1 (base o.1) = overlay base overrides := by
  rw [overlay_cons, update_overlay h, update_idem, update_eq_self]

end ShareCli.Foundation
