import ShareCli.Foundation.Decimal
import ShareCli.Foundation.Json
import Mathlib.Tactic.Common
import Mathlib.Tactic.IntervalCases

/-!
# The JSON reader: fuel and round trip

What `render` writes is read back with two units of fuel for each character.
-/

namespace ShareCli.Foundation

open List Option

def StrUnit.Printable : StrUnit → Prop
  | .char c => 0x20 ≤ c.toNat ∨ StrUnit.hasShortEscape c
  | .code u => u < 0x10000

namespace Json

variable {d n : Nat}

theorem hexVal_digitChar (h : d < 16) : hexVal (Nat.digitChar d) = some d := by
  revert d
  decide

variable {c : Char}

theorem stringBody_char (hq : c ≠ '"') (hb : c ≠ '\\') (hc : 0x20 ≤ c.toNat) (r : List Char) :
    stringBody (c :: r) = (stringBody r).map (pushUnit (.char c)) := by
  rw [stringBody.eq_5 c r hq (fun _ _ _ _ _ h => absurd h hb) (fun _ _ h => absurd h hb),
    if_neg (Nat.not_lt.mpr hc)]

theorem stringBody_code {u : Nat} (hu : u < 0x10000) (r : List Char) :
    stringBody ((StrUnit.code u).render ++ r) = (stringBody r).map (pushUnit (.code u)) := by
  have h0 := hexVal_digitChar (d := u / 4096 % 16) (by omega)
  have h1 := hexVal_digitChar (d := u / 256 % 16) (by omega)
  have h2 := hexVal_digitChar (d := u / 16 % 16) (by omega)
  have h3 := hexVal_digitChar (d := u % 16) (by omega)
  have hs : ((u / 4096 % 16 * 16 + u / 256 % 16) * 16 + u / 16 % 16) * 16 + u % 16 = u := by omega
  simp only [StrUnit.render, cons_append, nil_append]
  rw [stringBody]
  simp [h0, h1, h2, h3, hs]

theorem stringBody_unit {u : StrUnit} (hu : u.Printable) (r : List Char) :
    stringBody (u.render ++ r) = (stringBody r).map (pushUnit u) := by
  cases u with
  | code u => exact stringBody_code hu r
  | char c =>
    simp only [StrUnit.render]
    split_ifs with h1 h2 h3 h4 h5 h6 h7
    all_goals try (subst c; simp [stringBody, unescape])
    refine stringBody_char h1 h2 ?_ r
    simpa [StrUnit.Printable, StrUnit.hasShortEscape, h3, h4, h5, h6, h7] using hu

variable {s k : List StrUnit}

theorem stringBody_render (hs : ∀ u ∈ s, u.Printable) (r : List Char) :
    stringBody (s.flatMap StrUnit.render ++ '"' :: r) = some (s, r) := by
  induction s with
  | nil => rfl
  | cons u s ih =>
    rw [flatMap_cons, append_assoc, stringBody_unit (hs u mem_cons_self),
      ih fun v hv => hs v (mem_cons_of_mem _ hv)]
    rfl

def EndsNumber (r : List Char) : Prop := ∀ c ∈ r.head?, c.isDigit = false ∧ c ≠ '.' ∧ c ≠ 'e' ∧ c ≠ 'E'

theorem head_toDigits (hn : n ≠ 0) : ∃ c ds, Nat.toDigits 10 n = c :: ds ∧ c ≠ '0' := by
  induction n using Nat.strong_induction_on with
  | _ n ih =>
    by_cases hlt : n < 10
    · refine ⟨n.digitChar, [], Nat.toDigits_of_lt_base hlt, ?_⟩
      interval_cases n <;> first | omega | decide
    · obtain ⟨c, ds, hds, hc⟩ := ih (n / 10) (by omega) (by omega)
      refine ⟨c, ds ++ [(n % 10).digitChar], ?_, hc⟩
      rw [Nat.toDigits_of_base_le (by decide) (by omega), hds]
      rfl

variable {ds r cs : List Char}

theorem scanDigits_append (hd : ∀ c ∈ ds, c.isDigit) (hne : ds ≠ [])
    (hr : EndsNumber r) : scanDigits (ds ++ r) = some (ds, r) := by
  have hrest : r.takeWhile Char.isDigit = [] ∧ r.dropWhile Char.isDigit = r := by
    cases r with
    | nil => simp
    | cons c r =>
      have := (hr c (by simp)).1
      simp [this]
  unfold scanDigits
  rw [takeWhile_append_of_pos hd, dropWhile_append_of_pos hd, hrest.1, hrest.2, append_nil]
  cases ds with
  | nil => exact absurd rfl hne
  | cons d ds => rfl

theorem scanInt_toDigits (n : Nat) (hr : EndsNumber r) :
    scanInt (Nat.toDigits 10 n ++ r) = some (Nat.toDigits 10 n, r) := by
  have hd := scanDigits_append (Decimal.isDigit_toDigits n) Nat.toDigits_ne_nil hr
  by_cases hn : n = 0
  · subst hn
    cases r with
    | nil => rfl
    | cons c r =>
      have := (hr c (by simp)).1
      simp [scanInt, this]
  · obtain ⟨c, ds, hds, hc⟩ := head_toDigits hn
    rw [hds] at hd ⊢
    unfold scanInt
    split
    · simp_all
    · exact hd

theorem scanNumber_toDigits (n : Nat) (hr : EndsNumber r) :
    scanNumber (Nat.toDigits 10 n ++ r) = some (Nat.toDigits 10 n, r) := by
  have hm : scanMinus (Nat.toDigits 10 n ++ r) = ([], Nat.toDigits 10 n ++ r) := by
    unfold scanMinus
    split
    · rename_i heq
      have := Decimal.isDigit_toDigits n
      rcases hds : Nat.toDigits 10 n with _ | ⟨c, ds⟩
      · exact absurd hds Nat.toDigits_ne_nil
      · rw [hds] at heq this
        have hc := this c mem_cons_self
        obtain rfl : c = '-' := (cons.inj heq).1
        simp at hc
    · rfl
  have hf : scanFraction r = some ([], r) := by
    unfold scanFraction
    split
    · have := (hr '.' (by simp)).2.1
      simp at this
    · rfl
  have he : scanExponent r = some ([], r) := by
    unfold scanExponent
    split
    · rfl
    · rename_i c r
      have := hr c (by simp)
      simp [this]
  unfold scanNumber
  simp [hm, scanInt_toDigits n hr, hf, he]

mutual

/-- Trees whose numbers are natural numbers and whose strings are made of printable units. -/
def Printable : Json → Prop
  | .null => True
  | .bool _ => True
  | .num literal => ∃ n, literal = Nat.toDigits 10 n
  | .str s => ∀ u ∈ s, u.Printable
  | .arr i => PrintableItems i
  | .obj members => PrintableMembers members

def PrintableItems : List Json → Prop
  | [] => True
  | v :: vs => Printable v ∧ PrintableItems vs

def PrintableMembers : List (List StrUnit × Json) → Prop
  | [] => True
  | (k, v) :: ms => (∀ u ∈ k, u.Printable) ∧ Printable v ∧ PrintableMembers ms

end

theorem skip_cons (h : isSpace c = false) (r : List Char) : skip (c :: r) = c :: r := by
  simp [skip, h]

theorem isSpace_of_isDigit (h : c.isDigit) : isSpace c = false := by
  simp only [isSpace, Bool.or_eq_false_iff, decide_eq_false_iff_not]
  refine ⟨⟨⟨?_, ?_⟩, ?_⟩, ?_⟩ <;> rintro rfl <;> simp at h

theorem value_digits {f : Nat} (hr : EndsNumber r) :
    value (f + 1) (Nat.toDigits 10 n ++ r) = some (.num (Nat.toDigits 10 n), r) := by
  have hs := scanNumber_toDigits n hr
  have hd := Decimal.isDigit_toDigits n
  rcases hds : Nat.toDigits 10 n with _ | ⟨c, ds⟩
  · exact absurd hds Nat.toDigits_ne_nil
  · rw [hds] at hs hd
    have hc := hd c mem_cons_self
    rw [value, valueWith, cons_append, skip_cons (isSpace_of_isDigit hc)]
    rw [cons_append] at hs
    split
    all_goals try (rename_i heq; obtain ⟨rfl, -⟩ := cons.inj heq; simp at hc)
    unfold Reader.map
    rw [hs]
    rfl

theorem value_string (hs : ∀ u ∈ s, u.Printable) (f : Nat) (r : List Char) :
    value (f + 1) (renderString s ++ r) = some (.str s, r) := by
  have hr := stringBody_render hs r
  have ht : renderString s ++ r = '"' :: (s.flatMap StrUnit.render ++ '"' :: r) := by
    simp [renderString]
  rw [ht, value, valueWith, skip_cons (by decide)]
  simp only [Reader.map, hr]
  rfl

theorem endsNumber_cons (r : List Char) (h : c = ',' ∨ c = ']' ∨ c = '}') : EndsNumber (c :: r) := by
  intro d hd
  obtain rfl : c = d := by simpa using hd
  rcases h with rfl | rfl | rfl <;> decide

variable {j v : Json}

theorem head_render (h : Printable j) : ∃ c cs, render j = c :: cs ∧ isSpace c = false ∧ c ≠ ']' := by
  cases j with
  | num l =>
    obtain ⟨n, rfl⟩ := h
    rcases hds : Nat.toDigits 10 n with _ | ⟨c, ds⟩
    · exact absurd hds Nat.toDigits_ne_nil
    · have hc := Decimal.isDigit_toDigits n c (hds ▸ mem_cons_self)
      refine ⟨c, ds, rfl, isSpace_of_isDigit hc, ?_⟩
      rintro rfl
      simp at hc
  | null => exact ⟨_, _, rfl, by decide, by decide⟩
  | bool b => cases b <;> exact ⟨_, _, rfl, by decide, by decide⟩
  | str s | arr i | obj members => exact ⟨_, _, rfl, by decide, by decide⟩

section Items

variable {α : Type} {i : Reader (List α)} {v : α} {vs : List α} {close c : Char} {cs r : List Char}

theorem contents_items (hs : isSpace c = false) (hc : c ≠ close) :
    contents close i (c :: cs) = i (c :: cs) := by
  simp [contents, skip_cons hs, hc]

theorem itemsAfter_comma (h : i r = some (vs, cs)) :
    itemsAfter close i v (',' :: r) = some (v :: vs, cs) := by
  simp [itemsAfter, skip_cons (show isSpace ',' = false by decide), Reader.map, h]

theorem itemsAfter_close (hs : isSpace close = false) (hc : close ≠ ',') :
    itemsAfter close i v (close :: r) = some ([v], r) := by
  simp [itemsAfter, skip_cons hs, hc]

end Items

theorem membersWith_string {value : Reader Json} {members : Reader (List (List StrUnit × Json))}
    (hk : ∀ u ∈ k, u.Printable) (r : List Char) :
    membersWith value members (renderString k ++ ':' :: r) =
      (value r).bind fun v => itemsAfter '}' members (k, v.1) v.2 := by
  have hr := stringBody_render hk (':' :: r)
  have ht : renderString k ++ ':' :: r = '"' :: (k.flatMap StrUnit.render ++ '"' :: ':' :: r) := by
    simp [renderString]
  rw [ht, membersWith, skip_cons (by decide)]
  simp only [hr, bind_some, skip_cons (show isSpace ':' = false by decide)]

/-- A value is one level above its items, and an item one below the items behind it. -/
def ReadsAs (cs : List Char) (j : Json) (r : List Char) : Prop :=
  ∀ fuel, 2 * cs.length ≤ fuel + 1 → value fuel cs = some (j, r)

/-- The same for the items of an array or the members of an object. -/
def ReadsItems {α : Type} (read : Nat → Reader (List α)) (cs : List Char) (items : List α) (r : List Char) : Prop :=
  ∀ fuel, 2 * cs.length ≤ fuel → read fuel cs = some (items, r)

theorem ReadsAs.of_succ (hne : cs ≠ [])
    (h : ∀ fuel, 2 * cs.length ≤ fuel + 2 → value (fuel + 1) cs = some (j, r)) : ReadsAs cs j r := by
  intro fuel hf
  have hpos : 0 < cs.length := length_pos_iff.mpr hne
  obtain ⟨fuel, rfl⟩ := Nat.exists_eq_add_of_le' (show 1 ≤ fuel by omega)
  exact h fuel hf

theorem ReadsItems.of_succ {α : Type} {read : Nat → Reader (List α)} {items : List α} (hne : cs ≠ [])
    (h : ∀ fuel, 2 * cs.length ≤ fuel + 1 → read (fuel + 1) cs = some (items, r)) :
    ReadsItems read cs items r := by
  intro fuel hf
  have hpos : 0 < cs.length := length_pos_iff.mpr hne
  obtain ⟨fuel, rfl⟩ := Nat.exists_eq_add_of_le' (show 1 ≤ fuel by omega)
  exact h fuel hf

theorem ReadsAs.elements_last (h : ReadsAs (ds ++ ']' :: r) v (']' :: r)) :
    ReadsItems elements (ds ++ ']' :: r) [v] r := by
  refine .of_succ (by simp) fun fuel hf => ?_
  rw [elements, elementsWith, h fuel hf, bind_some]
  exact itemsAfter_close (by decide) (by decide)

theorem ReadsAs.elements_cons {vs : List Json} (hv : ReadsAs (ds ++ ',' :: cs) v (',' :: cs))
    (hvs : ReadsItems elements cs vs r) : ReadsItems elements (ds ++ ',' :: cs) (v :: vs) r := by
  refine .of_succ (by simp) fun fuel hf => ?_
  rw [elements, elementsWith, hv fuel hf, bind_some]
  refine itemsAfter_comma (hvs fuel ?_)
  rw [length_append, length_cons] at hf
  omega

theorem ReadsAs.members_last (hk : ∀ u ∈ k, u.Printable) (h : ReadsAs cs v ('}' :: r)) :
    ReadsItems members (renderString k ++ ':' :: cs) [(k, v)] r := by
  refine .of_succ (by simp) fun fuel hf => ?_
  rw [length_append, length_cons] at hf
  rw [members, membersWith_string hk, h fuel (by omega), bind_some]
  exact itemsAfter_close (by decide) (by decide)

variable {ms : List (List StrUnit × Json)}

theorem ReadsAs.members_cons (hk : ∀ u ∈ k, u.Printable) (hv : ReadsAs (ds ++ ',' :: cs) v (',' :: cs))
    (hms : ReadsItems members cs ms r) :
    ReadsItems members (renderString k ++ ':' :: (ds ++ ',' :: cs)) ((k, v) :: ms) r := by
  refine .of_succ (by simp) fun fuel hf => ?_
  rw [length_append, length_cons] at hf
  rw [members, membersWith_string hk, hv fuel (by omega), bind_some]
  refine itemsAfter_comma (hms fuel ?_)
  rw [length_append, length_cons] at hf
  omega

theorem ReadsItems.arr {vs : List Json} (hs : isSpace c = false) (hc : c ≠ ']')
    (h : ReadsItems elements (c :: cs) vs r) : ReadsAs ('[' :: c :: cs) (.arr vs) r := by
  refine .of_succ (cons_ne_nil _ _) fun fuel hf => ?_
  rw [length_cons] at hf
  rw [value, valueWith, skip_cons (by decide)]
  simp only [Reader.map, contents_items hs hc, h fuel (by omega), map_some]

theorem ReadsItems.obj (h : ReadsItems members ('"' :: cs) ms r) :
    ReadsAs ('{' :: '"' :: cs) (.obj ms) r := by
  refine .of_succ (cons_ne_nil _ _) fun fuel hf => ?_
  rw [length_cons] at hf
  rw [value, valueWith, skip_cons (by decide)]
  simp only [Reader.map, contents_items (show isSpace '"' = false by decide) (show '"' ≠ '}' by decide),
    h fuel (by omega), map_some]

theorem renderItems_cons_cons (v w : Json) (vs : List Json) :
    renderItems (v :: w :: vs) = render v ++ ',' :: renderItems (w :: vs) := rfl

theorem renderMembers_cons_cons (k : List StrUnit) (v : Json) (m : List StrUnit × Json)
    (ms : List (List StrUnit × Json)) : renderMembers ((k, v) :: m :: ms) =
      renderString k ++ ':' :: (render v ++ ',' :: renderMembers (m :: ms)) := rfl

theorem head_renderItems (vs : List Json) (h : Printable v) :
    ∃ c cs, renderItems (v :: vs) = c :: cs ∧ isSpace c = false ∧ c ≠ ']' := by
  obtain ⟨c, cs, hcs, hs, hc⟩ := head_render h
  cases vs with
  | nil => exact ⟨c, cs, hcs, hs, hc⟩
  | cons w vs =>
    rw [renderItems_cons_cons, hcs]
    exact ⟨c, _, rfl, hs, hc⟩

theorem head_renderMembers (m : List StrUnit × Json) (ms : List (List StrUnit × Json)) :
    ∃ cs, renderMembers (m :: ms) = '"' :: cs := by
  cases ms with
  | nil => exact ⟨_, rfl⟩
  | cons m' ms => exact ⟨_, rfl⟩

mutual

theorem value_render : ∀ (j : Json) (r : List Char), Printable j → EndsNumber r → ReadsAs (render j ++ r) j r
  | .null, r, _, _ => .of_succ (cons_ne_nil _ _) fun _ _ => rfl
  | .bool true, r, _, _ => .of_succ (cons_ne_nil _ _) fun _ _ => rfl
  | .bool false, r, _, _ => .of_succ (cons_ne_nil _ _) fun _ _ => rfl
  | .num l, r, hp, hr => by
    obtain ⟨n, rfl⟩ := hp
    exact .of_succ (append_ne_nil_of_left_ne_nil Nat.toDigits_ne_nil _) fun _ _ => value_digits hr
  | .str s, r, hp, _ => .of_succ (cons_ne_nil _ _) fun fuel _ => value_string hp fuel r
  | .arr [], r, _, _ => .of_succ (cons_ne_nil _ _) fun _ _ => rfl
  | .arr (v :: vs), r, hp, _ => by
    have hi := elements_render (v :: vs) r (by simp) hp
    obtain ⟨c, cs, hcs, hs, hc⟩ := head_renderItems vs hp.1
    rw [hcs] at hi
    rw [render, hcs, cons_append, append_assoc]
    exact hi.arr hs hc
  | .obj [], r, _, _ => .of_succ (cons_ne_nil _ _) fun _ _ => rfl
  | .obj (m :: ms), r, hp, _ => by
    have hi := members_render (m :: ms) r (by simp) hp
    obtain ⟨cs, hcs⟩ := head_renderMembers m ms
    rw [hcs] at hi
    rw [render, hcs, cons_append, append_assoc]
    exact hi.obj

theorem elements_render : ∀ (vs : List Json) (r : List Char), vs ≠ [] → PrintableItems vs →
    ReadsItems elements (renderItems vs ++ ']' :: r) vs r
  | [], _, h, _ => absurd rfl h
  | [v], r, _, hp => (value_render v (']' :: r) hp.1 (endsNumber_cons r (by simp))).elements_last
  | v :: w :: vs, r, _, hp => by
    have hi := elements_render (w :: vs) r (by simp) hp.2
    rw [renderItems_cons_cons, append_assoc]
    exact (value_render v _ hp.1 (endsNumber_cons _ (by simp))).elements_cons hi

theorem members_render : ∀ (ms : List (List StrUnit × Json)) (r : List Char), ms ≠ [] →
    PrintableMembers ms → ReadsItems members (renderMembers ms ++ '}' :: r) ms r
  | [], _, h, _ => absurd rfl h
  | [(k, v)], r, _, hp => by
    rw [renderMembers, append_assoc]
    exact (value_render v ('}' :: r) hp.2.1 (endsNumber_cons r (by simp))).members_last hp.1
  | (k, v) :: m :: ms, r, _, hp => by
    have hi := members_render (m :: ms) r (by simp) hp.2.2
    rw [renderMembers_cons_cons, append_assoc, cons_append, append_assoc]
    exact (value_render v _ hp.2.1 (endsNumber_cons _ (by simp))).members_cons hp.1 hi

end

/-- **Round trip.** What `render` writes is read back. -/
theorem parse_render (h : Printable j) : parse (render j) = some j := by
  have hv := value_render j [] h (by simp [EndsNumber]) (2 * (render j).length + 1)
  rw [append_nil] at hv
  rw [parse, hv (by omega)]
  rfl

/-! ## One line -/

def NoControl (cs : List Char) : Prop := ∀ c ∈ cs, 0x20 ≤ c.toNat

theorem noControl_nil : NoControl [] := fun _ h => absurd h not_mem_nil

theorem noControl_cons : NoControl (c :: cs) ↔ 0x20 ≤ c.toNat ∧ NoControl cs := forall_mem_cons

theorem noControl_append : NoControl (cs ++ ds) ↔ NoControl cs ∧ NoControl ds := forall_mem_append

theorem toNat_digitChar_ge (h : d < 16) : 0x20 ≤ (Nat.digitChar d).toNat := by
  revert d
  decide

theorem noControl_unit {u : StrUnit} (hu : u.Printable) : NoControl u.render := by
  cases u with
  | code u =>
    have hd : ∀ n, 0x20 ≤ (Nat.digitChar (n % 16)).toNat := fun n =>
      toNat_digitChar_ge (Nat.mod_lt n (by decide))
    simp only [StrUnit.render, noControl_cons, hd, noControl_nil, and_true]
    decide
  | char a =>
    simp only [StrUnit.render]
    split_ifs with h1 h2 h3 h4 h5 h6 h7
    all_goals simp only [noControl_cons, noControl_nil, and_true]
    all_goals try decide
    simpa [StrUnit.Printable, StrUnit.hasShortEscape, h3, h4, h5, h6, h7] using hu

theorem noControl_string (hs : ∀ u ∈ s, u.Printable) : NoControl (renderString s) := by
  simp only [renderString, noControl_cons, noControl_append, noControl_nil, and_true]
  refine ⟨by decide, ?_, by decide⟩
  intro c hc
  obtain ⟨u, hu, hm⟩ := mem_flatMap.mp hc
  exact noControl_unit (hs u hu) c hm

theorem noControl_digits (n : Nat) : NoControl (Nat.toDigits 10 n) := by
  intro c hc
  have hd := Decimal.isDigit_toDigits n c hc
  simp only [Char.isDigit, Bool.and_eq_true, decide_eq_true_eq] at hd
  exact Nat.le_trans (by decide) hd.1

mutual

theorem noControl_render : ∀ j : Json, Printable j → NoControl (render j)
  | .null, _ => by simp [render, NoControl]
  | .bool true, _ => by simp [render, NoControl]
  | .bool false, _ => by simp [render, NoControl]
  | .num l, hp => by
    obtain ⟨n, rfl⟩ := hp
    exact noControl_digits n
  | .str s, hp => noControl_string hp
  | .arr i, hp => by
    simp only [render, noControl_cons, noControl_append, noControl_nil, and_true]
    exact ⟨by decide, noControl_items i hp, by decide⟩
  | .obj members, hp => by
    simp only [render, noControl_cons, noControl_append, noControl_nil, and_true]
    exact ⟨by decide, noControl_members members hp, by decide⟩

theorem noControl_items : ∀ vs : List Json, PrintableItems vs → NoControl (renderItems vs)
  | [], _ => noControl_nil
  | [v], hp => noControl_render v hp.1
  | v :: w :: vs, hp => by
    rw [renderItems_cons_cons, noControl_append, noControl_cons]
    exact ⟨noControl_render v hp.1, by decide, noControl_items (w :: vs) hp.2⟩

theorem noControl_members : ∀ ms : List (List StrUnit × Json), PrintableMembers ms →
    NoControl (renderMembers ms)
  | [], _ => noControl_nil
  | [(k, v)], hp => by
    simp only [renderMembers, noControl_append, noControl_cons]
    exact ⟨noControl_string hp.1, by decide, noControl_render v hp.2.1⟩
  | (k, v) :: m :: ms, hp => by
    simp only [renderMembers_cons_cons, noControl_append, noControl_cons]
    exact ⟨noControl_string hp.1, by decide, noControl_render v hp.2.1, by decide,
      noControl_members (m :: ms) hp.2.2⟩

end

theorem not_mem_render (h : Printable j) (hc : c.toNat < 0x20) : c ∉ render j :=
  fun hm => absurd (noControl_render j h c hm) (Nat.not_le.mpr hc)

end Json

end ShareCli.Foundation
