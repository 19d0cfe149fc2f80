import Mathlib.Data.List.Nodup
import Mathlib.Data.List.Count

/-!
# Reading a changing list page by page

A reader asks for one page after the other and says how many entries it has received so far. An entry that is in
all these lists is received exactly once if it never moves over the reader's position (`Pager.Steady`).
-/

namespace ShareCli.Foundation

open List

/-- The pages read so far. -/
structure Pager (α : Type*) where
  lists : List (List α) := []
  offset : Nat := 0
  returned : List α := []
  finished : Bool := false

namespace Pager

variable {α : Type*}

def receive (p : Pager α) (list entries : List α) : Pager α where
  lists := p.lists ++ [list]
  offset := p.offset + entries.length
  returned := p.returned ++ entries
  finished := entries.isEmpty

def page (p : Pager α) (list : List α) (capacity : Nat) : List α := (list.drop p.offset).take capacity

/-- What stands before the reader's position in the next list is what stood there in the last, as far as it is
in both. -/
def Steady (p : Pager α) (list : List α) : Prop :=
  ∀ last ∈ p.lists.getLast?, ∀ x ∈ last, x ∈ list → (x ∈ last.take p.offset ↔ x ∈ list.take p.offset)

theorem take_page (p : Pager α) (list : List α) (capacity : Nat) :
    list.take (p.offset + (p.page list capacity).length) = list.take p.offset ++ p.page list capacity := by
  have hp : p.page list capacity = (list.drop p.offset).take (p.page list capacity).length :=
    prefix_iff_eq_take.mp (List.take_prefix _ _)
  rw [take_add]
  exact congrArg (list.take p.offset ++ ·) hp.symm

variable [BEq α] {p : Pager α} {list : List α} {capacity : Nat}

structure Sound (p : Pager α) : Prop where
  start : p.lists = [] → p.offset = 0 ∧ p.returned = [] ∧ p.finished = false
  nodup : ∀ list ∈ p.lists, list.Nodup
  counts : ∀ last, p.lists.getLast? = some last → ∀ x, (∀ list ∈ p.lists, x ∈ list) →
    p.returned.count x = (last.take p.offset).count x
  ended : p.finished = true → ∀ last, p.lists.getLast? = some last → last.length ≤ p.offset

theorem sound_new : Sound ({} : Pager α) :=
  ⟨fun _ => ⟨rfl, rfl, rfl⟩, fun _ h => absurd h not_mem_nil, nofun, nofun⟩

variable [LawfulBEq α]

instance : Decidable (p.Steady list) :=
  inferInstanceAs (Decidable (∀ last ∈ p.lists.getLast?, ∀ x ∈ last, _ → (_ ↔ _)))

theorem Sound.receive (h : p.Sound) (hn : list.Nodup) (hs : p.Steady list)
    (hc : 1 ≤ capacity) : (p.receive list (p.page list capacity)).Sound where
  start hnl := by simp [Pager.receive] at hnl
  nodup l hl := by
    rcases mem_append.mp hl with hl | hl
    · exact h.nodup l hl
    · rw [mem_singleton.mp hl]
      exact hn
  counts last hls x hx := by
    have hlt : last = list := by simpa [Pager.receive, eq_comm] using hls
    subst hlt
    have hin : x ∈ last := hx last (by simp [Pager.receive])
    show (p.returned ++ p.page last capacity).count x =
      (last.take (p.offset + (p.page last capacity).length)).count x
    rw [take_page, count_append, count_append]
    congr 1
    cases hp : p.lists.getLast? with
    | none =>
      obtain ⟨ho, hr, -⟩ := h.start (getLast?_eq_none_iff.mp hp)
      rw [ho, hr]
      rfl
    | some previous =>
      have hm : previous ∈ p.lists := mem_of_getLast? hp
      have hi : x ∈ previous := hx previous (by simp [Pager.receive, hm])
      have hcn := h.counts previous hp x fun l hl => hx l (by simp [Pager.receive, hl])
      -- Both lists are without duplicates, so that being there before the position is all that counts.
      have hsm := hs previous hp x hi hin
      rw [hcn, ((h.nodup previous hm).sublist (take_sublist _ _)).count,
        (hn.sublist (take_sublist _ _)).count]
      exact if_congr hsm rfl rfl
  ended hf last hls := by
    have hlt : last = list := by simpa [Pager.receive, eq_comm] using hls
    subst hlt
    have he : p.page last capacity = [] := isEmpty_iff.mp hf
    have hln := congrArg length he
    simp only [page, length_take, length_drop, length_nil] at hln
    show last.length ≤ p.offset + (p.page last capacity).length
    omega

theorem Sound.count_eq_one (h : p.Sound) (hf : p.finished = true) {x : α}
    (hx : ∀ list ∈ p.lists, x ∈ list) : p.returned.count x = 1 := by
  cases hls : p.lists.getLast? with
  | none =>
    obtain ⟨-, -, hn⟩ := h.start (getLast?_eq_none_iff.mp hls)
    rw [hf] at hn
    cases hn
  | some l =>
    have hm : l ∈ p.lists := mem_of_getLast? hls
    have ha : l.take p.offset = l := take_of_length_le (h.ended hf l hls)
    rw [h.counts l hls x hx, ha]
    exact count_eq_one_of_mem (h.nodup l hm) (hx l hm)

end Pager

end ShareCli.Foundation
