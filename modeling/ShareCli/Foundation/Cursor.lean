import Mathlib.Data.List.Basic

/-!
# Reading with a cursor

A reader that holds a whole input and a position in it is described by what it leaves behind: `Spans` says
which part of the input lies between two positions.
-/

namespace ShareCli.Foundation

variable {α : Type*} {input front rest : List α} {cur mid stop : Nat}

theorem drop_behind (h : input.drop cur = front ++ rest) : input.drop (cur + front.length) = rest := by
  rw [← List.drop_drop, h, List.drop_left]

theorem length_of_drop (h : input.drop cur = front ++ rest) (hne : front ≠ []) :
    input.length = cur + front.length + rest.length := by
  have hl : input.length - cur = front.length + rest.length := by
    rw [← List.length_drop, h, List.length_append]
  have hp : 0 < front.length := List.length_pos_iff.mpr hne
  omega

theorem getElem?_of_drop {b : α} (h : input.drop cur = b :: rest) : input[cur]? = some b := by
  rw [← Nat.add_zero cur, ← List.getElem?_drop, h, List.getElem?_cons_zero]

theorem drop_of_getElem? {b : α} (h : input[cur]? = some b) : input.drop cur = b :: input.drop (cur + 1) := by
  obtain ⟨hlt, rfl⟩ := List.getElem?_eq_some_iff.mp h
  exact List.drop_eq_getElem_cons hlt

structure Spans (input : List α) (cur : Nat) (front : List α) (stop : Nat) : Prop where
  drop : input.drop cur = front ++ input.drop stop
  stop : stop = cur + front.length

namespace Spans

theorem nil : Spans input cur [] cur := ⟨rfl, rfl⟩

theorem of_drop (h : input.drop cur = front ++ rest) : Spans input cur front (cur + front.length) :=
  ⟨by rw [drop_behind h, h], rfl⟩

theorem one {b : α} (h : input[cur]? = some b) : Spans input cur [b] (cur + 1) := ⟨drop_of_getElem? h, rfl⟩

theorem take {n : Nat} (h : cur + n ≤ input.length) : Spans input cur ((input.drop cur).take n) (cur + n) := by
  have hl : ((input.drop cur).take n).length = n := by
    rw [List.length_take, List.length_drop]
    omega
  exact ⟨by rw [← List.drop_drop, List.take_append_drop], by rw [hl]⟩

theorem append {back : List α} (h : Spans input cur front mid) (h' : Spans input mid back stop) :
    Spans input cur (front ++ back) stop :=
  ⟨by rw [h.drop, h'.drop, List.append_assoc], by rw [h'.stop, h.stop, List.length_append, Nat.add_assoc]⟩

theorem split {back : List α} (h : Spans input cur (front ++ back) stop) :
    Spans input cur front (cur + front.length) ∧ Spans input (cur + front.length) back stop := by
  have hd := h.drop
  rw [List.append_assoc] at hd
  refine ⟨of_drop hd, drop_behind hd, ?_⟩
  rw [h.stop, List.length_append, Nat.add_assoc]

theorem le (h : Spans input cur front stop) : cur ≤ stop := h.stop ▸ Nat.le_add_right cur _

theorem take_eq (h : Spans input cur front stop) : (input.drop cur).take (stop - cur) = front := by
  rw [h.drop, h.stop, Nat.add_sub_cancel_left, List.take_left]

theorem le_length (h : Spans input cur front stop) (hc : cur ≤ input.length) : stop ≤ input.length := by
  have hl := congrArg List.length h.drop
  rw [List.length_append, List.length_drop, List.length_drop] at hl
  have hs := h.stop
  omega

end Spans

end ShareCli.Foundation
