import Mathlib.Data.List.Forall2
import Mathlib.Data.List.Nodup
import ShareCli.Foundation.Serde
import ShareCli.Foundation.Text
import ShareCli.Foundation.Proofs.JsonProofs

/-!
# Deserialisation: round trip, and two readings of one text

A derived deserialiser that reads the tree of a text and one that reads the `Value` of the same text yield the
same struct, unless a field occurs twice in the text (`Derived.decode_tree`).
-/

namespace ShareCli.Foundation

open Json StrUnit List Option

theorem StrUnit.ofChar_printable (c : Char) : (ofChar c).Printable := by
  unfold ofChar
  split_ifs with h
  · show c.toNat < 0x10000
    omega
  · by_cases hc : c.toNat < 0x20
    · right
      simpa [hc] using h
    · left
      omega

theorem StrUnit.decode_code {u : Nat} (hu : u < 0xd800) (s : List StrUnit) :
    decode (.code u :: s) = (decode s).map (Char.ofNat u :: ·) := by
  have hh : isHighSurrogate u = false := by simp [isHighSurrogate]; omega
  have hl : isLowSurrogate u = false := by simp [isLowSurrogate]; omega
  cases s with
  | nil => simp [decode, hh, hl]
  | cons v s =>
    cases v with
    | char c => simp [decode, hh, hl]
    | code v => rw [decode]; simp [hh, hl]

theorem StrUnit.decode_ofChar (cs : List Char) : decode (cs.map ofChar) = some cs := by
  induction cs with
  | nil => rfl
  | cons c cs ih =>
    rw [map_cons, ofChar]
    split_ifs with h
    · rw [decode_code (by omega), ih, Char.ofNat_toNat]
      rfl
    · rw [decode, ih]
      rfl

theorem StrUnit.decodeString_ofChar (s : String) : decodeString (s.toList.map ofChar) = some s := by
  rw [decodeString, decode_ofChar, map_some, String.ofList_toList]

theorem Number.digits?_toDigits (n : Nat) : digits? (Nat.toDigits 10 n) = some n := by
  have hd : (Nat.toDigits 10 n).all Char.isDigit := all_eq_true.mpr (Decimal.isDigit_toDigits n)
  rw [digits?, if_pos hd, Nat.ofDigitChars_ten_toDigits]

theorem Json.source_string (fin : List Char → Bool) (d : Nat) (s : String) :
    (source fin d).string (.string s.toList) = some s :=
  decodeString_ofChar s

theorem Json.source_below (fin : List Char → Bool) (d : Nat) {n bound : Nat} (hn : n < bound)
    (hb : bound ≤ 2 ^ 64) : (source fin d).below bound (.nat n) = some n := by
  have hu64 : (source fin d).unsigned (.nat n) = some n := by
    show ((Number.digits? (Nat.toDigits 10 n)).bind fun n => if n < 2 ^ 64 then some n else none) = some n
    rw [Number.digits?_toDigits, bind_some, if_pos (by omega)]
  rw [Source.below, hu64, bind_some, if_pos hn]

theorem Json.toValue_string (fin : List Char → Bool) (d : Nat) (s : String) :
    (string s.toList).toValue fin d = some (.str s) := by
  rw [string, toValue, decodeString_ofChar, map_some]

theorem Json.printable_nat (n : Nat) : (nat n).Printable := ⟨n, rfl⟩

theorem Json.printable_string (cs : List Char) : (string cs).Printable := by
  intro u hu
  obtain ⟨c, -, rfl⟩ := mem_map.mp hu
  exact ofChar_printable c

theorem Json.printable_object {ms : List (String × Json)} (h : ∀ m ∈ ms, m.2.Printable) :
    (object ms).Printable := by
  induction ms with
  | nil => trivial
  | cons m ms ih =>
    have hm := ih fun m' hm' => h m' (mem_cons_of_mem _ hm')
    exact ⟨printable_string m.1.toList, h m mem_cons_self, hm⟩

theorem Json.trim_render_object (ms : List (String × Json)) : Text.trim (object ms).render ≠ [] := by
  obtain ⟨cs, hcs⟩ : ∃ cs, (object ms).render = '{' :: (cs ++ ['}']) := ⟨_, rfl⟩
  rw [hcs, Text.trim_eq_self (by simp [Text.isWhitespace]) ?_]
  · simp
  · have hl : ('{' :: (cs ++ ['}'])).getLast? = some '}' := by
      rw [← cons_append, getLast?_concat]
    simp [hl, Text.isWhitespace]

theorem Json.fields_object (ms : List (String × Json)) : (object ms).fields = some (.map ms) := by
  have hn : decodeNames (ms.map fun m => (m.1.toList.map ofChar, m.2)) = some ms := by
    induction ms with
    | nil => rfl
    | cons m ms ih => rw [map_cons, decodeNames, decodeString_ofChar, bind_some, ih]; rfl
  rw [object, fields, hn]
  rfl

section LastWins

variable {α : Type} {es : List (String × α)} {n : String}

theorem keys_lastWins_subset : (lastWins es).map Prod.fst ⊆ es.map Prod.fst := by
  induction es with
  | nil => simp [lastWins]
  | cons e es ih =>
    rw [lastWins]
    split
    · exact subset_cons_of_subset _ ih
    · rw [map_cons, map_cons]
      exact cons_subset_cons _ ih

theorem nodup_lastWins : ((lastWins es).map Prod.fst).Nodup := by
  induction es with
  | nil => simp [lastWins]
  | cons e es ih =>
    rw [lastWins]
    split_ifs with hn
    · exact ih
    · rw [map_cons, nodup_cons]
      exact ⟨fun h => hn (keys_lastWins_subset h), ih⟩

theorem lookup_lastWins (h : (es.map Prod.fst).count n ≤ 1) : (lastWins es).lookup n = es.lookup n := by
  induction es with
  | nil => rfl
  | cons e es ih =>
    obtain ⟨k, a⟩ := e
    rw [map_cons, count_cons] at h
    have ht := ih (by omega)
    rw [lastWins]
    by_cases hk : n = k
    · subst hk
      have hn : n ∉ es.map Prod.fst := count_eq_zero.mp (by simpa using h)
      rw [if_neg hn, lookup_cons_self, lookup_cons_self]
    · have hb : (n == k) = false := by simpa using hk
      rw [lookup_cons, hb]
      split
      · exact ht
      · rw [lookup_cons, hb]
        exact ht

end LastWins

inductive Fields.Related {α β : Type} (R : α → β → Prop) (names : List String) :
    Fields α → Fields β → Prop where
  | map {es : List (String × α)} {fs : List (String × β)}
      (h : ∀ n ∈ names, Rel R (es.lookup n) (fs.lookup n)) :
      Related R names (.map es) (.map fs)
  | seq {xs : List α} {ys : List β} (h : Forall₂ R xs ys) : Related R names (.seq xs) (.seq ys)

structure Source.Agrees {α β : Type} (R : α → β → Prop) (src : Source α) (src' : Source β) : Prop where
  isNull {a : α} {b : β} (h : R a b) : src.isNull a = src'.isNull b
  string {a : α} {b : β} (h : R a b) : src.string a = src'.string b
  unsigned {a : α} {b : β} (h : R a b) : src.unsigned a = src'.unsigned b
  value {a : α} {b : β} (h : R a b) : src.value a = src'.value b

section Related

variable {α β γ : Type} {R : α → β → Prop} {names : List String} {f : Fields α} {g : Fields β}
  {decode : α → Option γ} {decode' : β → Option γ}

theorem getElem?_forall₂ {xs : List α} {ys : List β} (h : Forall₂ R xs ys) (i : Nat) :
    Rel R (xs[i]? : Option α) (ys[i]? : Option β) := by
  induction h generalizing i with
  | nil => exact .none
  | cons hxy _ ih =>
    cases i with
    | zero => exact .some hxy
    | succ i => exact ih i

variable {es : List (String × α)} {fs : List (String × β)}

theorem keys_forall₂ {S : String × α → String × β → Prop} (hS : ∀ e f, S e f → e.1 = f.1)
    (h : Forall₂ S es fs) :
    es.map Prod.fst = fs.map Prod.fst := by
  induction h with
  | nil => rfl
  | cons hef _ ih => rw [map_cons, map_cons, hS _ _ hef, ih]

theorem lookup_forall₂ (h : Forall₂ (fun e f => e.1 = f.1 ∧ R e.2 f.2) es fs) (n : String) :
    Rel R (es.lookup n) (fs.lookup n) := by
  induction h with
  | nil => exact .none
  | @cons e f es fs hef _ ih =>
    obtain ⟨k, a⟩ := e
    obtain ⟨k', b⟩ := f
    obtain ⟨rfl, hab⟩ := hef
    by_cases hk : n = k
    · subst hk
      rw [lookup_cons_self, lookup_cons_self]
      exact .some hab
    · have hb : (n == k) = false := by simpa using hk
      simp only [lookup_cons, hb]
      exact ih

theorem Fields.Related.get (h : Related R names f g) {n : String} (hn : n ∈ names) :
    Rel R (f.get names n) (g.get names n) := by
  cases h with
  | map h => exact h n hn
  | seq h => exact getElem?_forall₂ h _

theorem Fields.Related.required (h : Related R names f g) (n : String) (hn : n ∈ names)
    (hd : ∀ {a b}, R a b → decode a = decode' b) :
    f.required names n decode = g.required names n decode' := by
  have hg := h.get hn
  unfold Fields.required
  revert hg
  generalize f.get names n = a
  generalize g.get names n = b
  intro hg
  cases hg with
  | some hab => exact hd hab
  | none => rfl

theorem Fields.Related.defaulted (h : Related R names f g) (n : String) (hn : n ∈ names)
    (default : γ) (hd : ∀ {a b}, R a b → decode a = decode' b) :
    f.defaulted names n default decode = g.defaulted names n default decode' := by
  have hg := h.get hn
  unfold Fields.defaulted
  revert hg
  generalize f.get names n = a
  generalize g.get names n = b
  intro hg
  cases hg with
  | some hab => exact hd hab
  | none => rfl

theorem Fields.Related.optional {decode : α → Option (Option γ)} {decode' : β → Option (Option γ)}
    (h : Related R names f g) (n : String) (hn : n ∈ names)
    (hd : ∀ {a b}, R a b → decode a = decode' b) :
    f.optional names n decode = g.optional names n decode' := by
  cases h with
  | map hm => exact Fields.Related.defaulted (.map hm) n hn none hd
  | seq hs => exact Fields.Related.required (.seq hs) n hn hd

theorem Source.Agrees.option {src : Source α} {src' : Source β} (h : Agrees R src src')
    (hd : ∀ {a b}, R a b → decode a = decode' b) {a : α} {b : β} (hab : R a b) :
    src.option decode a = src'.option decode' b := by
  rw [Source.option, Source.option, h.isNull hab, hd hab]

end Related

section Tree

variable {fin : List Char → Bool} {d : Nat}

inductive Json.Denotes (fin : List Char → Bool) (d : Nat) : Json → Value → Prop where
  | null : Denotes fin d .null .null
  | bool (b : Bool) : Denotes fin d (.bool b) (.bool b)
  | num {literal : List Char} {n : Number} (h : Number.ofLiteral fin literal = some n) :
      Denotes fin d (.num literal) (.num n)
  | str {s : List StrUnit} {t : String} (h : decodeString s = some t) :
      Denotes fin d (.str s) (.str t)
  | arr {items : List Json} {vs : List Value} (h : toValues fin (d - 1) items = some vs) :
      Denotes fin d (.arr items) (.arr vs)
  | obj {members : List (List StrUnit × Json)} {es : List (String × Value)}
      (h : toEntries fin (d - 1) members = some es) :
      Denotes fin d (.obj members) (.obj (lastWins es))

theorem Json.Denotes.of_eq {j : Json} {v : Value} (h : j.toValue fin d = some v) : Denotes fin d j v := by
  cases j with
  | null =>
    cases h
    exact .null
  | bool b =>
    cases h
    exact .bool b
  | num l =>
    obtain ⟨n, hn, rfl⟩ := map_eq_some_iff.mp h
    exact .num hn
  | str s =>
    obtain ⟨t, ht, rfl⟩ := map_eq_some_iff.mp h
    exact .str ht
  | arr items =>
    rw [toValue, ite_none_left_eq_some] at h
    obtain ⟨vs, hvs, rfl⟩ := map_eq_some_iff.mp h.2
    exact .arr hvs
  | obj ms =>
    rw [toValue, ite_none_left_eq_some] at h
    obtain ⟨es, hes, rfl⟩ := map_eq_some_iff.mp h.2
    exact .obj hes

theorem Number.unsigned_ofLiteral {l : List Char} {n : Number} (h : ofLiteral fin l = some n) :
    ((digits? l).bind fun n => if n < 2 ^ 64 then some n else none) = Value.source.unsigned (.num n) := by
  have hf : ∀ {l}, ofFloat fin l = some n → Value.source.unsigned (.num n) = none := by
    intro l hn
    obtain ⟨-, hn⟩ := ite_none_right_eq_some.mp hn
    cases hn
    rfl
  unfold ofLiteral at h
  split at h
  · rename_i ds
    have hno : digits? ('-' :: ds) = none := by simp [digits?]
    rw [hno, bind_none]
    split at h
    · split at h
      · cases h
        rfl
      · exact (hf h).symm
    · exact (hf h).symm
  · split at h
    · rename_i m hm
      rw [hm, bind_some]
      split_ifs at h with hlt
      · cases h
        rw [if_pos hlt]
        rfl
      · rw [if_neg hlt, hf h]
    · rename_i hm
      rw [hm, hf h, bind_none]

theorem Json.source_agrees (fin : List Char → Bool) (d : Nat) :
    Source.Agrees (fun j v => toValue fin d j = some v) (source fin d)
      Value.source where
  value h := h
  isNull h := by cases Denotes.of_eq h <;> rfl
  string h := by
    cases Denotes.of_eq h with
    | str hs => exact hs
    | _ => rfl
  unsigned h := by
    cases Denotes.of_eq h with
    | num hn => exact Number.unsigned_ofLiteral hn
    | _ => rfl

theorem Json.forall₂_toValues {js : List Json} {vs : List Value} (h : toValues fin d js = some vs) :
    Forall₂ (fun j v => toValue fin d j = some v) js vs := by
  induction js generalizing vs with
  | nil =>
    cases h
    exact .nil
  | cons j js ih =>
    obtain ⟨v, hv, h⟩ := bind_eq_some_iff.mp h
    obtain ⟨vs, hvs, rfl⟩ := map_eq_some_iff.mp h
    exact .cons hv (ih hvs)

/-- A member with its name decoded and the entry it becomes. -/
def Json.IsEntry (fin : List Char → Bool) (d : Nat) (n : String × Json) (e : String × Value) : Prop :=
  n.1 = e.1 ∧ toValue fin d n.2 = some e.2

theorem Json.decodeNames_of_toEntries {ms : List (List StrUnit × Json)} {es : List (String × Value)}
    (h : toEntries fin d ms = some es) :
    ∃ ns, decodeNames ms = some ns ∧ Forall₂ (IsEntry fin d) ns es := by
  induction ms generalizing es with
  | nil =>
    cases h
    exact ⟨[], rfl, .nil⟩
  | cons m ms ih =>
    obtain ⟨k, j⟩ := m
    obtain ⟨n, hn, h⟩ := bind_eq_some_iff.mp h
    obtain ⟨v, hv, h⟩ := bind_eq_some_iff.mp h
    obtain ⟨es, hes, rfl⟩ := map_eq_some_iff.mp h
    obtain ⟨ns, hns, ha⟩ := ih hes
    refine ⟨(n, j) :: ns, ?_, .cons ⟨rfl, hv⟩ ha⟩
    rw [decodeNames, hn, bind_some, hns, map_some]

variable {ns : List (String × Json)} {es : List (String × Value)}

theorem Json.keys_eq (h : Forall₂ (IsEntry fin d) ns es) : ns.map Prod.fst = es.map Prod.fst :=
  keys_forall₂ (fun _ _ he => he.1) h

theorem Json.lookup_rel (h : Forall₂ (IsEntry fin d) ns es) (n : String) :
    Rel (fun j v => toValue fin d j = some v) (ns.lookup n) (es.lookup n) :=
  lookup_forall₂ h n

theorem count_le_one_of_accepts {α : Type} {names : List String} {e : List (String × α)}
    (h : (Fields.map e).accepts names) {n : String} (hn : n ∈ names) :
    (e.map Prod.fst).count n ≤ 1 := by
  have hnd : ((e.map Prod.fst).filter (· ∈ names)).Nodup := of_decide_eq_true h
  have hc := nodup_iff_count_le_one.mp hnd n
  rwa [count_filter (by simpa using hn)] at hc

theorem accepts_lastWins {α : Type} (names : List String) (e : List (String × α)) :
    (Fields.map (lastWins e)).accepts names :=
  decide_eq_true (nodup_lastWins.filter _)

/-- It refuses what is not accepted, and depends on nothing but what its input offers at the fields `names`. -/
structure Derived {σ : Type} (names : List String)
    (decode : {α : Type} → Source α → Fields α → Option σ) : Prop where
  refuses {α : Type} {src : Source α} {f : Fields α} (h : f.accepts names = false) : decode src f = none
  congr {α β : Type} {R : α → β → Prop} {src : Source α} {src' : Source β} {f : Fields α}
    {g : Fields β} (hsrc : Source.Agrees R src src') (hrel : Fields.Related R names f g)
    (haccepts : f.accepts names = g.accepts names) : decode src f = decode src' g

variable {σ : Type} {names : List String} {decode : {α : Type} → Source α → Fields α → Option σ}
  {j : Json} {v : Value}

/-- **Two readings of one text** agree, unless a field occurs twice: then it cannot be read from the tree. -/
theorem Derived.decode_tree (hd : Derived names decode) (h : j.toValue fin d = some v) :
    j.fields.bind (decode (source fin (d - 1))) =
      if j.repeatsField names then none else v.fields.bind (decode Value.source) := by
  have hs := source_agrees fin (d - 1)
  cases Denotes.of_eq h with
  | @arr items vs hvs =>
    have hal := forall₂_toValues hvs
    have ha : (Fields.seq items).accepts names = (Fields.seq vs).accepts names := by
      rw [Fields.accepts, Fields.accepts, hal.length_eq]
    exact hd.congr hs (.seq hal) ha
  | @obj ms es hes =>
    obtain ⟨ns, hns, hal⟩ := decodeNames_of_toEntries hes
    have hf : (obj ms).fields = some (.map ns) := by rw [fields, hns, map_some]
    have hr : (obj ms).repeatsField names = !(Fields.map ns).accepts names := by
      rw [repeatsField, hf]
    rw [hr, hf, bind_some]
    cases ha : (Fields.map ns).accepts names with
    | false => exact hd.refuses ha
    | true =>
      have hrl : Fields.Related (fun j v => toValue fin (d - 1) j = some v) names
          (.map ns) (.map (lastWins es)) := by
        refine .map fun n hn => ?_
        have hc := count_le_one_of_accepts ha hn
        rw [keys_eq hal] at hc
        rw [lookup_lastWins hc]
        exact lookup_rel hal n
      exact hd.congr hs hrl (ha.trans (accepts_lastWins names es).symm)
  | _ => rfl

end Tree

end ShareCli.Foundation
