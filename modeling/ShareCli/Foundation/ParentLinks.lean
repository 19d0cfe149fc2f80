import Mathlib.Data.Finset.Card
import Mathlib.Data.List.Nodup

/-!
# Parent links

Each of finitely many nodes names a parent, which need not be a node itself. `preorder` lists what lies below a
node by recursion over the children, to a given depth of calls: at the depth of the number of nodes it has no
result exactly when the node is its own ancestor.
-/

namespace ShareCli.Foundation

open List

def collect {α β : Type} (f : α → Option (List β)) : List α → Option (List β)
  | [] => some []
  | a :: as =>
    match f a with
    | none => none
    | some bs => (collect f as).map (bs ++ ·)

section Collect

variable {α β γ : Type} {f : α → Option (List β)} {as : List α} {bs : List β}

theorem collect_eq_none_iff : collect f as = none ↔ ∃ a ∈ as, f a = none := by
  induction as with
  | nil => simp [collect]
  | cons a as ih =>
    rw [collect]
    cases hfa : f a with
    | none => simp [hfa]
    | some bs => simp [hfa, ih]

theorem collect_eq_some (h : collect f as = some bs) : bs = as.flatMap fun a => (f a).getD [] := by
  induction as generalizing bs with
  | nil => exact (Option.some.inj h).symm
  | cons a as ih =>
    rw [collect] at h
    cases hfa : f a with
    | none =>
      rw [hfa] at h
      cases h
    | some cs =>
      rw [hfa] at h
      obtain ⟨ds, hds, rfl⟩ := Option.map_eq_some_iff.mp h
      rw [flatMap_cons, hfa, Option.getD_some, ← ih hds]

theorem mem_collect {b : β} (h : collect f as = some bs) : b ∈ bs ↔ ∃ a ∈ as, ∃ cs, f a = some cs ∧ b ∈ cs := by
  rw [collect_eq_some h, mem_flatMap]
  constructor
  · rintro ⟨a, ha, hb⟩
    cases hfa : f a with
    | none =>
      rw [hfa] at hb
      exact absurd hb not_mem_nil
    | some cs =>
      rw [hfa] at hb
      exact ⟨a, ha, cs, hfa, hb⟩
  · rintro ⟨a, ha, cs, hfa, hb⟩
    refine ⟨a, ha, ?_⟩
    rw [hfa]
    exact hb

theorem map_collect {g : List β → List γ} (hn : g [] = []) (ha : ∀ bs cs, g (bs ++ cs) = g bs ++ g cs)
    (f : α → Option (List β)) (as : List α) : (collect f as).map g = collect (fun a => (f a).map g) as := by
  induction as with
  | nil => simp [collect, hn]
  | cons a as ih =>
    rw [collect, collect, ← ih]
    cases f a with
    | none => rfl
    | some bs =>
      simp only [Option.map_some, Option.map_map, Function.comp_def, ha]

theorem collect_congr {g : α → Option (List β)} (h : ∀ a ∈ as, f a = g a) : collect f as = collect g as := by
  induction as with
  | nil => rfl
  | cons a as ih =>
    rw [collect, collect, h a mem_cons_self, ih fun b hb => h b (mem_cons_of_mem a hb)]

end Collect

structure ParentLinks (α : Type) where
  nodes : List α
  parent : α → Option α
  children : α → List α
  mem_nodes : ∀ {a p}, parent a = some p → a ∈ nodes
  mem_children : ∀ {a p}, a ∈ children p ↔ parent a = some p
  nodup_children : ∀ p, (children p).Nodup

namespace ParentLinks

variable {α : Type} (L : ParentLinks α) {a b p q r x : α} {d i j k : Nat}

/-- The node itself for 0, its parent for 1 and so on. -/
def ancestor : Nat → α → Option α
  | 0, a => some a
  | k + 1, a => (ancestor k a).bind L.parent

def Acyclic : Prop := ∀ a k, L.ancestor (k + 1) a ≠ some a

/-- The recursion is given up where it needs more than `d` calls inside each other. -/
def preorder : Nat → α → Option (List α)
  | 0, _ => none
  | d + 1, a => (collect (preorder d) (L.children a)).map (a :: ·)

variable {L}

theorem ancestor_add : L.ancestor (i + j) a = (L.ancestor i a).bind (L.ancestor j) := by
  induction j with
  | zero =>
    rw [Nat.add_zero]
    cases L.ancestor i a <;> rfl
  | succ j ih =>
    rw [← Nat.add_assoc, ancestor, ih, Option.bind_assoc]
    rfl

theorem ancestor_succ' : L.ancestor (k + 1) a = (L.parent a).bind (L.ancestor k) := by
  rw [Nat.add_comm, ancestor_add]
  rfl

theorem ancestor_sub (hij : i ≤ j) (hp : L.ancestor i x = some p) (hq : L.ancestor j x = some q) :
    L.ancestor (j - i) p = some q := by
  have ha : L.ancestor (i + (j - i)) x = (L.ancestor i x).bind (L.ancestor (j - i)) := ancestor_add
  rw [Nat.add_sub_cancel' hij, hq, hp] at ha
  exact ha.symm

theorem mem_nodes_of_ancestor (hk : k < d) (h : L.ancestor d b = some a) :
    ∃ x ∈ L.nodes, L.ancestor k b = some x := by
  have hs : L.ancestor (k + 1 + (d - (k + 1))) b = (L.ancestor (k + 1) b).bind (L.ancestor (d - (k + 1))) :=
    ancestor_add
  rw [Nat.add_sub_cancel' hk, h] at hs
  obtain ⟨y, hy, -⟩ := Option.bind_eq_some_iff.mp hs.symm
  obtain ⟨x, hx, hp⟩ := Option.bind_eq_some_iff.mp hy
  exact ⟨x, L.mem_nodes hp, hx⟩

/-- On a path upwards that is as long as there are nodes, one node comes twice. -/
theorem exists_cycle_of_long_path (hd : L.nodes.length ≤ d) (ha : a ∈ L.nodes) (h : L.ancestor d b = some a) :
    ∃ k, L.ancestor (k + 1) a = some a := by
  classical
  have hm : ∀ k ∈ Finset.range (d + 1), L.ancestor k b ∈ (L.nodes.map some).toFinset := by
    intro k hk
    rw [mem_toFinset, mem_map]
    rcases Nat.lt_or_eq_of_le (Nat.le_of_lt_succ (Finset.mem_range.mp hk)) with hlt | rfl
    · obtain ⟨x, hx, han⟩ := mem_nodes_of_ancestor hlt h
      exact ⟨x, hx, han.symm⟩
    · exact ⟨a, ha, h.symm⟩
  have hc : (L.nodes.map some).toFinset.card < (Finset.range (d + 1)).card := by
    have hle := (L.nodes.map some).toFinset_card_le
    rw [length_map] at hle
    rw [Finset.card_range]
    omega
  -- from the earlier of the two places the path goes on as from the later one, so it is at `a` earlier
  have hs : ∀ i j, i < j → j ≤ d → L.ancestor i b = L.ancestor j b → ∃ k, L.ancestor (k + 1) a = some a := by
    intro i j hij hjd heq
    have he : L.ancestor (i + (d - j)) b = some a := by
      rw [ancestor_add, heq, ← ancestor_add, Nat.add_sub_cancel' hjd, h]
    have hr := ancestor_sub (show i + (d - j) ≤ d by omega) he h
    exact ⟨d - (i + (d - j)) - 1, by rwa [Nat.sub_add_cancel (by omega)]⟩
  obtain ⟨i, hi, j, hj, hne, heq⟩ := Finset.exists_ne_map_eq_of_card_lt_of_maps_to hc hm
  rw [Finset.mem_range] at hi hj
  rcases Nat.lt_or_gt_of_ne hne with hij | hji
  · exact hs i j hij (by omega) heq
  · exact hs j i hji (by omega) heq.symm

theorem exists_top (hac : L.Acyclic) {P : α → Prop} (ha : P a) :
    ∃ k r, L.ancestor k a = some r ∧ P r ∧ ∀ p, L.parent r = some p → ¬ P p := by
  have he : ∃ m, L.ancestor m a = none := by
    refine ⟨L.nodes.length + 1, ?_⟩
    rw [Option.eq_none_iff_forall_ne_some]
    intro p hp
    obtain ⟨x, hx, han⟩ := mem_nodes_of_ancestor (Nat.lt_succ_self _) hp
    obtain ⟨k, hk⟩ := exists_cycle_of_long_path (Nat.le_refl _) hx han
    exact hac x k hk
  obtain ⟨m, hm⟩ := he
  induction m generalizing a with
  | zero => cases hm
  | succ m ih =>
    by_cases hup : ∃ p, L.parent a = some p ∧ P p
    · obtain ⟨p, hpr, hp⟩ := hup
      rw [ancestor_succ', hpr] at hm
      obtain ⟨k, r, han, ht⟩ := ih hp hm
      refine ⟨k + 1, r, ?_, ht⟩
      rw [ancestor_succ', hpr]
      exact han
    · exact ⟨0, a, rfl, ha, fun p hpr hp => hup ⟨p, hpr, hp⟩⟩

theorem acyclic_of_lt (rank : α → Nat) (h : ∀ a p, L.parent a = some p → rank p < rank a) : L.Acyclic := by
  have hlt : ∀ k a b, L.ancestor (k + 1) a = some b → rank b < rank a := by
    intro k
    induction k with
    | zero => exact fun a b hb => h a b hb
    | succ k ih =>
      intro a b hb
      obtain ⟨c, hc, hp⟩ := Option.bind_eq_some_iff.mp hb
      exact Nat.lt_trans (h c b hp) (ih a c hc)
  exact fun a k hk => Nat.lt_irrefl (rank a) (hlt k a a hk)

theorem preorder_eq_none_iff : L.preorder d a = none ↔ ∃ b, L.ancestor d b = some a := by
  induction d generalizing a with
  | zero => exact ⟨fun _ => ⟨a, rfl⟩, fun _ => rfl⟩
  | succ d ih =>
    rw [preorder, Option.map_eq_none_iff, collect_eq_none_iff]
    constructor
    · rintro ⟨c, hc, hn⟩
      obtain ⟨b, hb⟩ := ih.mp hn
      refine ⟨b, ?_⟩
      rw [ancestor, hb]
      exact L.mem_children.mp hc
    · rintro ⟨b, hb⟩
      obtain ⟨c, hc, hp⟩ := Option.bind_eq_some_iff.mp hb
      exact ⟨c, L.mem_children.mpr hp, ih.mpr ⟨b, hc⟩⟩

theorem exists_path_of_cycle (h : L.ancestor (k + 1) a = some a) (d : Nat) : ∃ b, L.ancestor d b = some a := by
  have hr : ∀ n, L.ancestor (n * (k + 1)) a = some a := by
    intro n
    induction n with
    | zero => rw [Nat.zero_mul]; rfl
    | succ n ih =>
      rw [Nat.succ_mul, ancestor_add, ih]
      exact h
  have hl : d ≤ d * (k + 1) := Nat.le_mul_of_pos_right d (Nat.succ_pos k)
  have hs : L.ancestor (d * (k + 1) - d + d) a = (L.ancestor (d * (k + 1) - d) a).bind (L.ancestor d) :=
    ancestor_add
  rw [Nat.sub_add_cancel hl, hr] at hs
  obtain ⟨b, -, hb⟩ := Option.bind_eq_some_iff.mp hs.symm
  exact ⟨b, hb⟩

theorem preorder_eq_none_iff_cycle (hd : L.nodes.length ≤ d) (ha : a ∈ L.nodes) :
    L.preorder d a = none ↔ ∃ k, L.ancestor (k + 1) a = some a := by
  rw [preorder_eq_none_iff]
  constructor
  · rintro ⟨b, hb⟩
    exact exists_cycle_of_long_path hd ha hb
  · rintro ⟨k, hk⟩
    exact exists_path_of_cycle hk d

variable {l : List α}

theorem mem_preorder (h : L.preorder d a = some l) : x ∈ l ↔ ∃ k, L.ancestor k x = some a := by
  induction d generalizing a l with
  | zero => cases h
  | succ d ih =>
    obtain ⟨below, hb, rfl⟩ := Option.map_eq_some_iff.mp h
    rw [mem_cons, mem_collect hb]
    constructor
    · rintro (rfl | ⟨c, hc, cs, hcs, hx⟩)
      · exact ⟨0, rfl⟩
      · obtain ⟨k, hk⟩ := (ih hcs).mp hx
        refine ⟨k + 1, ?_⟩
        rw [ancestor, hk]
        exact L.mem_children.mp hc
    · rintro ⟨k, hk⟩
      cases k with
      | zero => exact .inl (Option.some.inj hk)
      | succ k =>
        obtain ⟨c, hc, hp⟩ := Option.bind_eq_some_iff.mp hk
        have hm : c ∈ L.children a := L.mem_children.mpr hp
        cases hcs : L.preorder d c with
        | none =>
          have hn : collect (L.preorder d) (L.children a) = none := collect_eq_none_iff.mpr ⟨c, hm, hcs⟩
          rw [hb] at hn
          cases hn
        | some cs => exact .inr ⟨c, hm, cs, hcs, (ih hcs).mpr ⟨k, hc⟩⟩

/-- Neither of two nodes is above the other. -/
def Apart (L : ParentLinks α) (p q : α) : Prop := ∀ k, L.ancestor k p ≠ some q ∧ L.ancestor k q ≠ some p

instance : Std.Symm L.Apart := ⟨fun _ _ h k => (h k).symm⟩

theorem disjoint_preorder_iff {m : List α} (hl : L.preorder d p = some l) (hm : L.preorder d q = some m) :
    l.Disjoint m ↔ L.Apart p q := by
  constructor
  · intro hd k
    constructor
    · intro han
      exact hd ((mem_preorder hl).mpr ⟨0, rfl⟩) ((mem_preorder hm).mpr ⟨k, han⟩)
    · intro han
      exact hd ((mem_preorder hl).mpr ⟨k, han⟩) ((mem_preorder hm).mpr ⟨0, rfl⟩)
  · intro ha x hxl hxm
    obtain ⟨i, hi⟩ := (mem_preorder hl).mp hxl
    obtain ⟨j, hj⟩ := (mem_preorder hm).mp hxm
    rcases Nat.le_total i j with hij | hji
    · exact (ha _).1 (ancestor_sub hij hi hj)
    · exact (ha _).2 (ancestor_sub hji hj hi)

/-- The lists of several nodes have no repetition together if each of them has none and the nodes are apart. -/
theorem nodup_collect_iff {rts : List α} (hl : collect (L.preorder d) rts = some l) :
    l.Nodup ↔ (∀ r ∈ rts, ∀ m, L.preorder d r = some m → m.Nodup) ∧ rts.Pairwise L.Apart := by
  have hs : ∀ r ∈ rts, ∃ m, L.preorder d r = some m := by
    intro r hr
    refine Option.ne_none_iff_exists'.mp fun hno => ?_
    rw [collect_eq_none_iff.mpr ⟨r, hr, hno⟩] at hl
    cases hl
  rw [collect_eq_some hl, nodup_flatMap]
  refine and_congr ?_ ?_
  · refine forall₂_congr fun r hr => ?_
    obtain ⟨m, hm⟩ := hs r hr
    simp [hm]
  · refine Pairwise.iff_of_mem fun {p q} hp hq => ?_
    obtain ⟨m, hm⟩ := hs p hp
    obtain ⟨n, hn⟩ := hs q hq
    rw [← disjoint_preorder_iff hm hn]
    simp [Function.onFun, hm, hn]

theorem apart_of_children (hac : L.Acyclic) (hp : L.parent p = some a) (hq : L.parent q = some a)
    (hne : p ≠ q) : L.Apart p q := by
  -- a child that is above another child of the same parent is above that parent
  have ha : ∀ {p q}, L.parent p = some a → L.parent q = some a → p ≠ q → ∀ k, L.ancestor k p ≠ some q := by
    intro p q hp hq hne k han
    cases k with
    | zero => exact hne (Option.some.inj han)
    | succ k =>
      rw [ancestor_succ', hp] at han
      refine hac a k ?_
      rw [ancestor, show L.ancestor k a = some q from han]
      exact hq
  exact fun k => ⟨ha hp hq hne k, ha hq hp hne.symm k⟩

theorem nodup_preorder (hac : L.Acyclic) (h : L.preorder d a = some l) : l.Nodup := by
  induction d generalizing a l with
  | zero => cases h
  | succ d ih =>
    obtain ⟨below, hb, rfl⟩ := Option.map_eq_some_iff.mp h
    have hs : a ∉ below := by
      intro hme
      obtain ⟨c, hc, cs, hcs, hx⟩ := (mem_collect hb).mp hme
      obtain ⟨k, hk⟩ := (mem_preorder hcs).mp hx
      refine hac a k ?_
      rw [ancestor, hk]
      exact L.mem_children.mp hc
    have ha : (L.children a).Pairwise L.Apart :=
      (L.nodup_children a).imp_of_mem fun {p q} hp hq hne =>
        apart_of_children hac (L.mem_children.mp hp) (L.mem_children.mp hq) hne
    exact nodup_cons.mpr ⟨hs, (nodup_collect_iff hb).mpr ⟨fun r _ m hm => ih hm, ha⟩⟩

end ParentLinks

end ShareCli.Foundation
