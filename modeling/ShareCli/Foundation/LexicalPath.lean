import Mathlib.Data.List.Infix
import ShareCli.Foundation.Delimited
import ShareCli.Foundation.Path

/-!
# Lexically normalised paths

`.` is dropped, and `..` takes the name before it away. Where there is none, `..` stays at the root of an
absolute path and is kept in a relative one.
-/

namespace ShareCli.Foundation

namespace FilePath

def parts (text : List Char) : FilePath := (text.splitOn '/').filter (· ≠ [])

def IsPart (component : List Char) : Prop := component ≠ [] ∧ '/' ∉ component

variable {component : List Char}

theorem IsPart.ne_root (h : IsPart component) : component ≠ ['/'] := by
  intro heq
  exact h.2 (heq ▸ List.mem_singleton_self '/')

theorem parts_append (path text : List Char) : parts (path ++ '/' :: text) = parts path ++ parts text := by
  rw [parts, List.splitOn_append_cons_self, List.filter_append]
  rfl

variable {text path : List Char}

@[simp] theorem parts_nil : parts [] = [] := by
  simp [parts]

theorem parts_of_isPart (h : IsPart text) : parts text = [text] := by
  simp [parts, List.splitOn_eq_singleton h.2, h.1]

theorem parts_ne_nil (hne : text ≠ []) (hr : text.head? ≠ some '/') : parts text ≠ [] := by
  cases text with
  | nil => exact absurd rfl hne
  | cons c text =>
    have hc : c ≠ '/' := by simpa using hr
    obtain ⟨first, rest, hs⟩ := List.exists_cons_of_ne_nil (List.splitOn_ne_nil '/' text)
    simp [parts, List.splitOn_cons_eq_if_modifyHead, hc, hs]

theorem isPart_of_mem_parts (h : component ∈ parts text) : IsPart component := by
  obtain ⟨hm, hne⟩ := List.mem_filter.mp h
  exact ⟨by simpa using hne, not_mem_of_mem_splitOn hm⟩

theorem components_of_absolute (h : text.head? = some '/') :
    components text = ['/'] :: (parts text).filter (· ≠ ['.']) := by
  rw [components, if_pos h]
  rfl

theorem components_of_relative {first : List Char} {rs : FilePath} (h : text.head? ≠ some '/')
    (hp : parts text = first :: rs) : components text = first :: rs.filter (· ≠ ['.']) := by
  delta parts at hp
  simp only [components, h, if_false, hp]

@[simp] theorem components_nil : components [] = [] := by
  simp [components]

theorem components_cases (text : List Char) : text = [] ∨ ∃ first rs, components text = first :: rs ∧
      (text.head? = some '/' ∧ first = ['/'] ∨ text.head? ≠ some '/' ∧ IsPart first) ∧
      ∀ c ∈ rs, IsPart c ∧ c ≠ ['.'] := by
  have hrest {f : FilePath} (hf : ∀ c ∈ f, c ∈ parts text) :
      ∀ c ∈ f.filter (· ≠ ['.']), IsPart c ∧ c ≠ ['.'] := by
    intro c hc
    obtain ⟨hm, hd⟩ := List.mem_filter.mp hc
    exact ⟨isPart_of_mem_parts (hf c hm), by simpa using hd⟩
  by_cases ha : text.head? = some '/'
  · exact .inr ⟨_, _, components_of_absolute ha, .inl ⟨ha, rfl⟩, hrest fun _ hc => hc⟩
  cases hp : parts text with
  | nil =>
    by_cases he : text = []
    · exact .inl he
    · exact absurd hp (parts_ne_nil he ha)
  | cons first rs =>
    have hfr : IsPart first := isPart_of_mem_parts (hp ▸ List.mem_cons_self)
    refine .inr ⟨_, _, components_of_relative ha hp, .inr ⟨ha, hfr⟩, hrest ?_⟩
    intro c hc
    rw [hp]
    exact List.mem_cons_of_mem _ hc

theorem components_of_isPart (h : IsPart text) : components text = [text] := by
  have hr : text.head? ≠ some '/' := fun hh => h.2 (List.mem_of_mem_head? hh)
  exact components_of_relative hr (parts_of_isPart h)

theorem filter_components (h : text.head? ≠ some '/') :
    (components text).filter (· ≠ ['.']) = (parts text).filter (· ≠ ['.']) := by
  cases hp : parts text with
  | nil =>
    by_cases he : text = []
    · rw [he, components_nil]
    · exact absurd hp (parts_ne_nil he h)
  | cons first rs =>
    rw [components_of_relative h hp]
    simp [List.filter_cons]

theorem parts_joinPath (hp : path ≠ []) (ht : text.head? ≠ some '/') :
    parts (joinPath path text) = parts path ++ parts text := by
  unfold joinPath
  rw [if_neg ht]
  by_cases hsl : path.getLast? = some '/'
  · obtain ⟨f, rfl⟩ := List.getLast?_eq_some_iff.mp hsl
    rw [if_pos (.inr hsl), List.append_assoc, List.singleton_append, parts_append, parts_append, parts_nil,
      List.append_nil]
  · rw [if_neg (not_or.mpr ⟨hp, hsl⟩), parts_append]

theorem head?_joinPath (hp : path ≠ []) (ht : text.head? ≠ some '/') :
    (joinPath path text).head? = path.head? := by
  obtain ⟨c, path, rfl⟩ := List.exists_cons_of_ne_nil hp
  unfold joinPath
  rw [if_neg ht]
  split <;> rfl

theorem components_joinPath (hp : path ≠ []) (ht : text.head? ≠ some '/') :
    components (joinPath path text) = components path ++ (components text).filter (· ≠ ['.']) := by
  have hh := head?_joinPath hp ht
  have hj := parts_joinPath hp ht
  rw [filter_components ht]
  by_cases ha : path.head? = some '/'
  · rw [components_of_absolute ha, components_of_absolute (hh.trans ha), hj,
      List.filter_append]
    rfl
  · obtain ⟨first, rest, hpr⟩ := List.exists_cons_of_ne_nil (parts_ne_nil hp ha)
    rw [hpr, List.cons_append] at hj
    rw [components_of_relative ha hpr, components_of_relative (hh ▸ ha) hj, List.filter_append]
    rfl

theorem components_foldl_joinPath {pushed : FilePath} (hp : path ≠ [])
    (hps : ∀ c ∈ pushed, IsPart c ∧ c ≠ ['.']) :
    components (pushed.foldl joinPath path) = components path ++ pushed := by
  induction pushed generalizing path with
  | nil => simp
  | cons c pushed ih =>
    obtain ⟨hpr, hdt⟩ := hps c List.mem_cons_self
    have hh : c.head? ≠ some '/' := fun h => hpr.2 (List.mem_of_mem_head? h)
    have hne : joinPath path c ≠ [] := by
      intro hn
      have hc := components_joinPath hp hh
      rw [hn, components_of_isPart hpr] at hc
      simp [hdt] at hc
    rw [List.foldl_cons, ih hne fun d hd => hps d (List.mem_cons_of_mem _ hd),
      components_joinPath hp hh, components_of_isPart hpr]
    simp [hdt]

end FilePath

open FilePath List

/-- `ups` is the number of `..` that a relative path begins with. -/
structure LexicalPath where
  absolute : Bool
  ups : Nat
  names : FilePath
deriving DecidableEq

namespace LexicalPath

def push (path : LexicalPath) (component : List Char) : LexicalPath :=
  if component = ['/'] then { absolute := true, ups := 0, names := [] }
  else if component = ['.'] then path
  else if component = ['.', '.'] then
    if path.names ≠ [] then { path with names := path.names.dropLast }
    else if path.absolute then path
    else { path with ups := path.ups + 1 }
  else { path with names := path.names ++ [component] }

def follow (path : LexicalPath) (route : FilePath) : LexicalPath := route.foldl push path

/-- Where a route leads from nowhere in particular: so many `..`, and then these names. -/
def net (route : FilePath) : LexicalPath := follow { absolute := false, ups := 0, names := [] } route

def lexical (text : List Char) : LexicalPath := net (components text)

def Within (dir path : LexicalPath) : Prop :=
  path.absolute = dir.absolute ∧ path.ups = dir.ups ∧ dir.names <+: path.names
deriving Decidable

/-- Going up from `dir` and down again leads through `dir`: it has the names that are gone up, unless it ends at
the root, and these are the first ones on the way down. -/
def Returns (dir route : LexicalPath) : Prop :=
  (dir.absolute = true ∨ route.ups ≤ dir.names.length) ∧
    dir.names.drop (dir.names.length - route.ups) <+: route.names
deriving Decidable

/-- Up from `dir` and down again. The root has nothing above it. -/
def join (dir route : LexicalPath) : LexicalPath where
  absolute := dir.absolute
  ups := dir.ups + if dir.absolute then 0 else route.ups - dir.names.length
  names := dir.names.take (dir.names.length - route.ups) ++ route.names

section Normalising

variable {component : List Char} {route : FilePath} {text : List Char}

theorem follow_append (path : LexicalPath) (f back : FilePath) :
    follow path (f ++ back) = follow (follow path f) back := by
  exact foldl_append

theorem follow_filter_dot (path : LexicalPath) (route : FilePath) :
    follow path (route.filter (· ≠ ['.'])) = follow path route := by
  induction route generalizing path with
  | nil => rfl
  | cons component rs ih =>
    by_cases hd : component = ['.']
    · subst hd
      exact ih path
    · rw [filter_cons_of_pos (by simpa using hd)]
      exact ih (push path component)

theorem lexical_joinPath (path : List Char) (ht : text.head? ≠ some '/') :
    lexical (joinPath path text) = follow (lexical path) (components text) := by
  by_cases he : path = []
  · subst he
    simp [joinPath, ht, lexical, net, follow]
  · rw [lexical, net, components_joinPath he ht, follow_append, follow_filter_dot]
    rfl

theorem push_absolute (path : LexicalPath) (h : component ≠ ['/']) :
    (push path component).absolute = path.absolute := by
  unfold push
  rw [if_neg h]
  split_ifs <;> rfl

theorem push_join (dir : LexicalPath) {route : LexicalPath} (hr : route.absolute = false)
    (h : component ≠ ['/']) : push (join dir route) component = join dir (push route component) := by
  by_cases hd : component = ['.']
  · subst hd
    rfl
  by_cases hup : component = ['.', '.']
  · subst hup
    by_cases hn : route.names = []
    · -- one more name of `dir` is gone up, if there is one
      have hroute : push route ['.', '.'] = { route with ups := route.ups + 1 } := by
        simp [push, hn, hr]
      rw [hroute]
      by_cases hl : dir.names.length ≤ route.ups
      · have h₀ : dir.names.length - route.ups = 0 := by omega
        have h₁ : dir.names.length - (route.ups + 1) = 0 := by omega
        have h₂ : route.ups + 1 - dir.names.length = route.ups - dir.names.length + 1 := by omega
        cases ha : dir.absolute <;> simp [push, join, hn, ha, h₀, h₁, h₂, Nat.add_assoc]
      · have hne : dir.names.take (dir.names.length - route.ups) ≠ [] := by
          rw [ne_eq, ← length_eq_zero_iff, length_take]
          omega
        have h₀ : route.ups - dir.names.length = 0 := by omega
        have h₁ : route.ups + 1 - dir.names.length = 0 := by omega
        have h₂ : dir.names.length - (route.ups + 1) = dir.names.length - route.ups - 1 := by omega
        have hjoin : (join dir route).names ≠ [] := by simpa [join, hn] using hne
        rw [push, if_neg h, if_neg hd, if_pos rfl, if_pos hjoin]
        simp only [join, hn, append_nil, h₀, h₁, h₂]
        rw [dropLast_eq_take, length_take, take_take]
        congr 2
        omega
    · have hjoin : (join dir route).names ≠ [] := by simp [join, hn]
      rw [push, push, if_neg h, if_neg h, if_neg hd, if_neg hd, if_pos rfl, if_pos rfl, if_pos hjoin, if_pos hn]
      simp [join, dropLast_append_of_ne_nil hn]
  · simp [push, join, h, hd, hup]

theorem follow_join (dir : LexicalPath) {start : LexicalPath} (hs : start.absolute = false) (h : ['/'] ∉ route) :
    follow (join dir start) route = join dir (follow start route) := by
  induction route generalizing start with
  | nil => rfl
  | cons component rest ih =>
    rw [mem_cons, not_or] at h
    have hc : component ≠ ['/'] := fun heq => h.1 heq.symm
    have hstep := ih ((push_absolute start hc).trans hs) h.2
    rw [← push_join dir hs hc] at hstep
    exact hstep

theorem follow_eq_join (dir : LexicalPath) (h : ['/'] ∉ route) : follow dir route = join dir (net route) := by
  have hstart : join dir { absolute := false, ups := 0, names := [] } = dir := by simp [join]
  rw [net, ← follow_join dir rfl h, hstart]

theorem within_join_iff (dir route : LexicalPath) : Within dir (join dir route) ↔ Returns dir route := by
  have hnames : dir.names <+: dir.names.take (dir.names.length - route.ups) ++ route.names ↔
      dir.names.drop (dir.names.length - route.ups) <+: route.names := by
    nth_rewrite 1 [← take_append_drop (dir.names.length - route.ups) dir.names]
    exact prefix_append_right_inj _
  simp only [Within, Returns, join, true_and, hnames]
  refine and_congr_left fun _ => ?_
  cases dir.absolute with
  | true => simp
  | false =>
    simp
    omega

theorem within_follow_iff (dir : LexicalPath) (h : ['/'] ∉ route) :
    Within dir (follow dir route) ↔ Returns dir (net route) := by
  rw [follow_eq_join dir h, within_join_iff]

/-- Of an absolute path only the names are left. -/
theorem lexical_of_absolute (ha : text.head? = some '/') :
    lexical text = { absolute := true, ups := 0, names := (lexical text).names } := by
  have hroot : ['/'] ∉ (parts text).filter (· ≠ ['.']) := fun hm =>
    (isPart_of_mem_parts (mem_filter.mp hm).1).ne_root rfl
  have hl : lexical text = follow { absolute := true, ups := 0, names := [] } ((parts text).filter (· ≠ ['.'])) := by
    rw [lexical, components_of_absolute ha]
    rfl
  rw [hl, follow_eq_join _ hroot]
  rfl

theorem follow_of_not_mem (path : LexicalPath) (h : ∀ c ∈ route, IsPart c ∧ c ≠ ['.'])
    (hup : ['.', '.'] ∉ route) : (follow path route).names = path.names ++ route := by
  induction route generalizing path with
  | nil => simp [follow]
  | cons component rest ih =>
    rw [mem_cons, not_or] at hup
    obtain ⟨hpart, hdot⟩ := h component mem_cons_self
    have hrest := ih (push path component) (fun c hc => h c (mem_cons_of_mem _ hc)) hup.2
    have hpush : push path component = { path with names := path.names ++ [component] } := by
      simp [push, hpart.ne_root, hdot, Ne.symm hup.1]
    rw [hpush] at hrest
    have hstep : follow path (component :: rest) = follow (push path component) rest := rfl
    rw [hstep, hpush, hrest]
    simp

theorem lexical_of_not_mem (ha : text.head? = some '/') (hup : ['.', '.'] ∉ components text) :
    components text = ['/'] :: (lexical text).names := by
  have hc := components_of_absolute ha
  have hl : lexical text = follow { absolute := true, ups := 0, names := [] } ((parts text).filter (· ≠ ['.'])) := by
    rw [lexical, hc]
    rfl
  rw [hc, mem_cons, not_or] at hup
  rw [hl, follow_of_not_mem _ ?_ hup.2, hc]
  · rfl
  · intro c hm
    obtain ⟨hm, hd⟩ := mem_filter.mp hm
    exact ⟨isPart_of_mem_parts hm, by simpa using hd⟩

end Normalising

end LexicalPath

end ShareCli.Foundation
