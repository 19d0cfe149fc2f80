import Mathlib.Data.List.Basic

/-!
# Words that end with a separator

A list of words is written down by putting a separator after each. It can be read back when no word contains
the separator and what follows the last word cannot be taken for another one. So can the lines of a text.
-/

namespace ShareCli.Foundation

open List

variable {α : Type*} {sep : α}

def terminated (sep : α) (words : List (List α)) : List α := words.flatMap fun word => word ++ [sep]

theorem terminated_cons (w : List α) (words : List (List α)) (rs : List α) :
    terminated sep (w :: words) ++ rs = w ++ sep :: (terminated sep words ++ rs) := by
  simp [terminated]

theorem append_sep_inj {w w' rs rs' : List α} (hw : sep ∉ w) (hw' : sep ∉ w')
    (h : w ++ sep :: rs = w' ++ sep :: rs') : w = w' ∧ rs = rs' := by
  induction w generalizing w' with
  | nil =>
    cases w' with
    | nil => exact ⟨rfl, (cons.inj h).2⟩
    | cons c w' => exact absurd ((cons.inj h).1 ▸ mem_cons_self) hw'
  | cons c w ih =>
    cases w' with
    | nil => exact absurd ((cons.inj h).1.symm ▸ mem_cons_self) hw
    | cons c' w' =>
      obtain ⟨rfl, ht⟩ := cons.inj h
      obtain ⟨rfl, hrest⟩ := ih (not_mem_of_not_mem_cons hw) (not_mem_of_not_mem_cons hw') ht
      exact ⟨rfl, hrest⟩

variable {words words' : List (List α)}

theorem terminated_append_inj (IsWord : List α → Prop) (hs : ∀ w, IsWord w → sep ∉ w) {rs rs' : List α}
    (hw : ∀ w ∈ words, IsWord w) (hw' : ∀ w ∈ words', IsWord w)
    (hrest : ∀ w after, IsWord w → rs ≠ w ++ sep :: after)
    (hrest' : ∀ w after, IsWord w → rs' ≠ w ++ sep :: after)
    (h : terminated sep words ++ rs = terminated sep words' ++ rs') :
    words = words' ∧ rs = rs' := by
  induction words generalizing words' with
  | nil =>
    cases words' with
    | nil => exact ⟨rfl, h⟩
    | cons w' words' =>
      rw [terminated_cons] at h
      exact absurd h (hrest w' _ (hw' w' mem_cons_self))
  | cons w words ih =>
    obtain ⟨hwr, hl⟩ := forall_mem_cons.mp hw
    rw [terminated_cons] at h
    cases words' with
    | nil => exact absurd h.symm (hrest' w _ hwr)
    | cons w' words' =>
      obtain ⟨hwr', hl'⟩ := forall_mem_cons.mp hw'
      rw [terminated_cons] at h
      obtain ⟨rfl, ht⟩ := append_sep_inj (hs w hwr) (hs w' hwr') h
      obtain ⟨rfl, hrest⟩ := ih hl hl' ht
      exact ⟨rfl, hrest⟩

theorem terminated_inj (hw : ∀ w ∈ words, sep ∉ w)
    (hw' : ∀ w ∈ words', sep ∉ w) (h : terminated sep words = terminated sep words') :
    words = words' := by
  have hn : terminated sep words ++ [] = terminated sep words' ++ [] := by rw [h]
  exact (terminated_append_inj (fun w => sep ∉ w) (fun _ hwr => hwr) hw hw' (by simp) (by simp) hn).1

theorem not_mem_intercalate {x : α} (hx : x ≠ sep) (h : ∀ w ∈ words, x ∉ w) :
    x ∉ [sep].intercalate words := by
  induction words with
  | nil => exact not_mem_nil
  | cons w words ih =>
    obtain ⟨hw, hwr⟩ := forall_mem_cons.mp h
    cases words with
    | nil => simpa using hw
    | cons next words => simpa [intercalate_cons_cons, hx, hw] using ih hwr

section Split

variable [BEq α] [LawfulBEq α]

theorem not_mem_of_mem_splitOn {xs pc : List α} (h : pc ∈ xs.splitOn sep) : sep ∉ pc := by
  induction xs generalizing pc with
  | nil =>
    rw [splitOn_nil, mem_singleton] at h
    simp [h]
  | cons x xs ih =>
    rw [splitOn_cons_eq_if_modifyHead] at h
    obtain ⟨head, tail, hp⟩ := exists_cons_of_ne_nil (splitOn_ne_nil sep xs)
    rw [hp] at h ih
    split_ifs at h with hx
    · rcases mem_cons.mp h with rfl | h
      · simp
      · exact ih h
    · rw [modifyHead_cons] at h
      rcases mem_cons.mp h with rfl | h
      · have hne : sep ≠ x := fun heq => hx (heq ▸ BEq.rfl)
        exact not_mem_cons_of_ne_of_not_mem hne (ih mem_cons_self)
      · exact ih (mem_cons_of_mem head h)

theorem splitOn_terminated {words : List (List α)} (h : ∀ w ∈ words, sep ∉ w) :
    (terminated sep words).splitOn sep = words ++ [[]] := by
  induction words with
  | nil => exact splitOn_nil sep
  | cons w words ih =>
    obtain ⟨hw, hwr⟩ := forall_mem_cons.mp h
    have hc : terminated sep (w :: words) = w ++ sep :: terminated sep words := by
      simp [terminated]
    rw [hc, splitOn_append_cons_self_of_not_mem hw, ih hwr, cons_append]

end Split

namespace Text

/-- A carriage return before the line feed belongs to the end of the line. -/
def stripCr (cs : List Char) : List Char := if cs.getLast? = some '\r' then cs.dropLast else cs

/-- `str::lines`. What follows the last line feed is a line unless it is empty. -/
def lines (cs : List Char) : List (List Char) :=
  let pieces := cs.splitOn '\n'
  pieces.dropLast.map stripCr ++ (pieces.getLast?.filter (· ≠ [])).toList

variable {cs : List Char}

theorem stripCr_of_not_mem (h : '\r' ∉ cs) : stripCr cs = cs := by
  rw [stripCr, if_neg]
  exact fun hl => h (mem_of_getLast? hl)

theorem newline_not_mem_lines {row : List Char} (h : row ∈ lines cs) : '\n' ∉ row := by
  simp only [lines, mem_append, mem_map, Option.mem_toList, Option.filter_eq_some_iff] at h
  rcases h with ⟨pc, hp, rfl⟩ | ⟨hl, -⟩
  · have hn := not_mem_of_mem_splitOn (dropLast_subset _ hp)
    unfold stripCr
    split_ifs
    · exact fun hm => hn (dropLast_subset _ hm)
    · exact hn
  · exact not_mem_of_mem_splitOn (mem_of_getLast? hl)

theorem lines_nil : lines [] = [] := rfl

theorem lines_append_cons (h : '\n' ∉ cs) (rs : List Char) :
    lines (cs ++ '\n' :: rs) = stripCr cs :: lines rs := by
  have hne : rs.splitOn '\n' ≠ [] := splitOn_ne_nil '\n' rs
  simp only [lines, splitOn_append_cons_self_of_not_mem h]
  rw [dropLast_cons_of_ne_nil hne, map_cons, cons_append, getLast?_cons]
  cases hl : (rs.splitOn '\n').getLast? with
  | none => exact absurd (getLast?_eq_none_iff.mp hl) hne
  | some last => rfl

theorem lines_terminated_append {ws : List (List Char)} (h : ∀ word ∈ ws, '\n' ∉ word) (rs : List Char) :
    lines (terminated '\n' ws ++ rs) = ws.map stripCr ++ lines rs := by
  induction ws with
  | nil => rfl
  | cons word ws ih =>
    rw [terminated_cons, lines_append_cons (h word mem_cons_self),
      ih fun w hw => h w (mem_cons_of_mem word hw)]
    rfl

end Text

end ShareCli.Foundation
