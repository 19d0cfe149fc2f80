import Mathlib.Data.List.Basic

/-!
# Streams that announce their losses

The reader gets a stream of some of the elements, in order, among markers. A loss is announced if there is a
marker between the elements that arrived before it and after it.
-/

namespace ShareCli.Foundation

open List

variable {α : Type*}

/-- The Boolean is whether an element lost at this point is announced: nothing has been delivered since the start
or since the last marker. -/
inductive LossyPath (marker : α → Bool) : Bool → List α → List α → Bool → Prop where
  | nil (announced : Bool) : LossyPath marker announced [] [] announced
  | deliver {announced announced' : Bool} {x : α} {sent stream : List α} (hx : marker x = false)
      (h : LossyPath marker false sent stream announced') :
      LossyPath marker announced (x :: sent) (x :: stream) announced'
  | mark {announced announced' : Bool} {m : α} {sent stream : List α} (hm : marker m = true)
      (h : LossyPath marker true sent stream announced') :
      LossyPath marker announced sent (m :: stream) announced'
  | lose {announced' : Bool} {x : α} {sent stream : List α}
      (h : LossyPath marker true sent stream announced') :
      LossyPath marker true (x :: sent) stream announced'

/-- What was sent after the last element of the stream may still arrive. -/
def AnnouncesLosses (marker : α → Bool) (sent stream : List α) : Prop :=
  ∃ seen unseen announced, sent = seen ++ unseen ∧ LossyPath marker true seen stream announced

namespace LossyPath

variable {marker : α → Bool} {a b c : Bool} {sent sent' stream stream' : List α} {x m : α}

theorem append (h : LossyPath marker a sent stream b) (h' : LossyPath marker b sent' stream' c) :
    LossyPath marker a (sent ++ sent') (stream ++ stream') c := by
  induction h with
  | nil => exact h'
  | deliver hx _ ih => exact .deliver hx (ih h')
  | mark hm _ ih => exact .mark hm (ih h')
  | lose _ ih => exact .lose (ih h')

theorem split (h : LossyPath marker a sent (stream ++ stream') c) :
    ∃ sent₁ sent₂ b, sent = sent₁ ++ sent₂ ∧ LossyPath marker a sent₁ stream b ∧
      LossyPath marker b sent₂ stream' c := by
  generalize hw : stream ++ stream' = whole at h
  induction h generalizing stream with
  | nil announced =>
    obtain ⟨rfl, rfl⟩ := append_eq_nil_iff.mp hw
    exact ⟨[], [], announced, rfl, .nil _, .nil _⟩
  | @deliver announced a' x sent rs hx h ih =>
    rcases append_eq_cons_iff.mp hw with ⟨rfl, rfl⟩ | ⟨tail, rfl, rfl⟩
    · exact ⟨[], x :: sent, announced, rfl, .nil _, .deliver hx h⟩
    · obtain ⟨sent₁, sent₂, b, rfl, h₁, h₂⟩ := ih rfl
      exact ⟨x :: sent₁, sent₂, b, rfl, .deliver hx h₁, h₂⟩
  | @mark announced a' m sent rs hm h ih =>
    rcases append_eq_cons_iff.mp hw with ⟨rfl, rfl⟩ | ⟨tail, rfl, rfl⟩
    · exact ⟨[], sent, announced, rfl, .nil _, .mark hm h⟩
    · obtain ⟨sent₁, sent₂, b, rfl, h₁, h₂⟩ := ih rfl
      exact ⟨sent₁, sent₂, b, rfl, .mark hm h₁, h₂⟩
  | @lose a' x sent rs h ih =>
    obtain ⟨sent₁, sent₂, b, rfl, h₁, h₂⟩ := ih hw
    exact ⟨x :: sent₁, sent₂, b, rfl, .lose h₁, h₂⟩

theorem lose_all (sent : List α) : LossyPath marker true sent [] true := by
  induction sent with
  | nil => exact .nil true
  | cons x sent ih => exact .lose ih

theorem announce (h : LossyPath marker a sent stream b) : ∃ b', LossyPath marker true sent stream b' := by
  cases h with
  | nil => exact ⟨true, .nil true⟩
  | deliver hx h => exact ⟨b, .deliver hx h⟩
  | mark hm h => exact ⟨b, .mark hm h⟩
  | lose h => exact ⟨b, .lose h⟩

theorem tail (h : LossyPath marker a sent (x :: stream) b) : ∃ b', LossyPath marker true sent stream b' := by
  generalize hw : x :: stream = whole at h
  induction h with
  | nil => cases hw
  | deliver _ h =>
    obtain ⟨rfl, rfl⟩ := cons.inj hw
    obtain ⟨b', h'⟩ := h.announce
    exact ⟨b', .lose h'⟩
  | mark _ h =>
    obtain ⟨rfl, rfl⟩ := cons.inj hw
    exact ⟨_, h⟩
  | lose _ ih =>
    obtain ⟨b', h'⟩ := ih hw
    exact ⟨b', .lose h'⟩

theorem announced_of_nil (h : LossyPath marker true sent [] b) : b = true := by
  generalize hs : ([] : List α) = stream at h
  induction sent with
  | nil =>
    subst hs
    cases h
    rfl
  | cons x sent ih =>
    cases h with
    | deliver => cases hs
    | mark => cases hs
    | lose h => exact ih h

theorem announced_of_mark (h : LossyPath marker a sent (stream ++ [m]) b) (hm : marker m = true) :
    b = true := by
  obtain ⟨_, sent₂, c, -, -, hl⟩ := h.split
  clear h
  generalize hs : [m] = single at hl
  induction hl with
  | nil => cases hs
  | deliver hx =>
    obtain ⟨rfl, -⟩ := cons.inj hs
    rw [hm] at hx
    cases hx
  | mark _ h' =>
    obtain ⟨-, rfl⟩ := cons.inj hs
    exact announced_of_nil h'
  | lose _ ih => exact ih hs

theorem next_of_deliver (h : LossyPath marker false sent (x :: stream) b) (hx : marker x = false) :
    ∃ rs, sent = x :: rs ∧ LossyPath marker false rs stream b := by
  cases h with
  | deliver _ h => exact ⟨_, rfl, h⟩
  | mark hm => exact absurd (hm.symm.trans hx) (by simp)

theorem deliver_split (h : LossyPath marker a sent (x :: stream) b) (hx : marker x = false) :
    ∃ lost rs, sent = lost ++ x :: rs ∧ LossyPath marker false rs stream b := by
  generalize hw : x :: stream = whole at h
  induction h with
  | nil => cases hw
  | @deliver announced a' y sent rs _ h =>
    obtain ⟨rfl, rfl⟩ := cons.inj hw
    exact ⟨[], sent, rfl, h⟩
  | mark hm =>
    obtain ⟨rfl, -⟩ := cons.inj hw
    rw [hm] at hx
    cases hx
  | @lose a' y sent rs _ ih =>
    obtain ⟨lost, rs, rfl, h⟩ := ih hw
    exact ⟨y :: lost, rs, rfl, h⟩

end LossyPath

theorem AnnouncesLosses.adjacent {marker : α → Bool} {sent stream : List α} {x y : α}
    (h : AnnouncesLosses marker sent stream) (hx : marker x = false) (hy : marker y = false)
    (had : [x, y] <:+: stream) : [x, y] <:+: sent := by
  obtain ⟨seen, unseen, announced, rfl, hp⟩ := h
  obtain ⟨before, after, rfl⟩ := had
  rw [append_assoc] at hp
  obtain ⟨sent₁, sent₂, b, rfl, -, hrest⟩ := hp.split
  rw [cons_append, singleton_append] at hrest
  obtain ⟨lost, rs, rfl, ha⟩ := hrest.deliver_split hx
  obtain ⟨rs, rfl, -⟩ := ha.next_of_deliver hy
  exact ⟨sent₁ ++ lost, rs ++ unseen, by simp⟩

end ShareCli.Foundation
