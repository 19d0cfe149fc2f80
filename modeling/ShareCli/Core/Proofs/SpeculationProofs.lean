import ShareCli.Core.Speculation

/-!
# What the tracker returns

Beside the tracker a history keeps, for each command, the times of all its hits and of those counted since
the command was last returned.
-/

namespace ShareCli.Core

open Foundation Ipc List AList

/-- A call of the tracker, at the time that it reads off the clock. -/
inductive TrackerCall where
  | recordHit (now : Nat) (key : CommandKey) (argv : List String) (cwd : String)
      (env : List (String × String))
  | drainCandidates (now : Nat)

/-- The tracker, with the times of the hits of each command: all of them, and those since it was last returned. -/
structure TrackerHistory where
  tracker : SpeculationTracker
  hitTimes : String → List Nat
  counted : String → List Nat
  /-- The time of the last call. -/
  clock : Nat

/-- The clock never goes back. -/
def trackerMachine : Machine TrackerHistory TrackerCall where
  init := { tracker := .new, hitTimes := fun _ => [], counted := fun _ => [], clock := 0 }
  step s
    | .recordHit now key argv cwd env =>
      if now < s.clock then none
      else some
        { tracker := s.tracker.recordHit now key argv cwd env
          hitTimes := Function.update s.hitTimes key.hex (s.hitTimes key.hex ++ [now])
          counted := Function.update s.counted key.hex (s.counted key.hex ++ [now])
          clock := now }
    | .drainCandidates now =>
      let drained := s.tracker.drainCandidates now
      if now < s.clock then none
      else some
        { s with
          tracker := drained.1
          counted := fun k => if k ∈ drained.2.map fun c => c.key.hex then [] else s.counted k
          clock := now }

namespace SpeculationTracker

section Hit

variable (t : SpeculationTracker) (now : Nat) (key : CommandKey) (argv : List String) (cwd : String)
  (env : List (String × String))

theorem hits_recordHit : (t.recordHit now key argv cwd env).hits = t.hits.insert key.hex
      ((((t.hits.lookup key.hex).map Prod.fst).getD 0 + 1) % UInt32.size, now) := by
  unfold recordHit
  cases t.hits.lookup key.hex <;> rfl

theorem lookup_requests_recordHit (k : String) : (t.recordHit now key argv cwd env).requests.lookup k =
      if k = key.hex then some ((t.requests.lookup k).getD ⟨key, argv, cwd, env⟩)
      else t.requests.lookup k := by
  unfold recordHit
  by_cases hk : k = key.hex
  · subst hk
    cases h : t.requests.lookup key.hex <;> simp [h]
  · cases t.requests.lookup key.hex
    · simp [hk, lookup_insert_ne hk]
    · simp [hk]

end Hit

section Drain

variable {t : SpeculationTracker} {now : Nat}

/-- The keys leave both tables, and their requests are returned in their order. -/
theorem foldl_drainKey {ks : List String} (hnd : ks.Nodup) (t : SpeculationTracker)
    (cs : List SpeculationCandidate) :
    (∀ k, (ks.foldl drainKey (t, cs)).1.hits.lookup k =
      if k ∈ ks then none else t.hits.lookup k) ∧
    (∀ k, (ks.foldl drainKey (t, cs)).1.requests.lookup k =
      if k ∈ ks then none else t.requests.lookup k) ∧
    (ks.foldl drainKey (t, cs)).2 = cs ++ ks.filterMap t.requests.lookup := by
  induction ks generalizing t cs with
  | nil => simp
  | cons key ks ih =>
    obtain ⟨hky, hnd⟩ := nodup_cons.mp hnd
    obtain ⟨hh, hr, hcs⟩ := ih hnd (drainKey (t, cs) key).1 (drainKey (t, cs) key).2
    refine ⟨fun k => ?_, fun k => ?_, ?_⟩
    · rw [foldl_cons, hh k]
      by_cases hk : k = key
      · subst hk
        simp [drainKey]
      · simp [drainKey, hk, lookup_erase_ne hk]
    · rw [foldl_cons, hr k]
      by_cases hk : k = key
      · subst hk
        simp [drainKey]
      · simp [drainKey, hk, lookup_erase_ne hk]
    · -- what is left to return was not touched by the first round
      have hrest : ks.filterMap (drainKey (t, cs) key).1.requests.lookup =
          ks.filterMap t.requests.lookup := by
        refine filterMap_congr fun k hk => ?_
        have hne : k ≠ key := fun h => hky (h ▸ hk)
        simp [drainKey, lookup_erase_ne hne]
      rw [foldl_cons, hcs, hrest]
      cases hl : t.requests.lookup key <;> simp [drainKey, hl]

theorem before_trans {a b c : Nat × String} (hab : before a b) (hbc : before b c) : before a c := by
  rcases hab with hab | ⟨hab, hky⟩ <;> rcases hbc with hbc | ⟨hbc, hky'⟩
  · exact .inl (hbc.trans hab)
  · exact .inl (hbc ▸ hab)
  · exact .inl (hab ▸ hbc)
  · exact .inr ⟨hbc.trans hab, String.le_trans hky hky'⟩

theorem before_total (a b : Nat × String) : before a b ∨ before b a := by
  rcases Nat.lt_trichotomy a.1 b.1 with h | h | h
  · exact .inr (.inl h)
  · rcases String.le_total a.2 b.2 with hky | hky
    · exact .inl (.inr ⟨h.symm, hky⟩)
    · exact .inr (.inr ⟨h, hky⟩)
  · exact .inl (.inl h)

instance : IsTrans (Nat × String) before := ⟨fun _ _ _ => before_trans⟩

instance : Std.Total before := ⟨before_total⟩

theorem pairwise_scored : (t.scored now).Pairwise before :=
  (pairwise_insertionSort before _).sublist (take_sublist _ _)

theorem length_scored_le : (t.scored now).length ≤ speculationMaxCandidates := length_take_le _ _

theorem lookup_of_mem_scored {e : Nat × String} (h : e ∈ t.scored now) :
    ∃ last, t.hits.lookup e.2 = some (e.1, last) ∧ speculationThreshold ≤ e.1 ∧ now - last ≤ speculationWindow := by
  have hm := mem_of_mem_take h
  simp only [mem_insertionSort, mem_map, mem_filter, decide_eq_true_eq] at hm
  obtain ⟨entry, ⟨he, hc, hl⟩, rfl⟩ := hm
  exact ⟨entry.2.2, mem_lookup_iff.mpr he, hc, hl⟩

theorem nodup_scored : ((t.scored now).map Prod.snd).Nodup := by
  have hk : (t.hits.entries.map Sigma.fst).Nodup := t.hits.nodupKeys
  refine Nodup.sublist ((take_sublist _ _).map Prod.snd) ?_
  refine (((perm_insertionSort before _).map Prod.snd).nodup_iff).mpr ?_
  rw [map_map]
  exact hk.sublist (filter_sublist.map _)

theorem drainCandidates_snd :
    (t.drainCandidates now).2 = ((t.scored now).map Prod.snd).filterMap t.requests.lookup := by
  rw [drainCandidates, (foldl_drainKey nodup_scored t []).2.2, nil_append]

end Drain

end SpeculationTracker

namespace TrackerHistory

open SpeculationTracker

def entryOf (times : List Nat) : Option (Nat × Nat) :=
  times.getLast?.map fun last => (times.length % UInt32.size, last)

/-- The tables hold the commands with counted hits. -/
structure Tracks (s : TrackerHistory) : Prop where
  hits : ∀ k, s.tracker.hits.lookup k = entryOf (s.counted k)
  requests : ∀ k, s.tracker.requests.lookup k = none ↔ s.counted k = []
  key : ∀ k, ∀ c ∈ s.tracker.requests.lookup k, c.key.hex = k
  counted : ∀ k, s.counted k <:+ s.hitTimes k

theorem entryOf_eq_none {ts : List Nat} : entryOf ts = none ↔ ts = [] := by
  simp [entryOf]

theorem entryOf_snoc (ts : List Nat) (now : Nat) :
    entryOf (ts ++ [now]) = some ((ts.length + 1) % UInt32.size, now) := by
  simp [entryOf]

variable {s : TrackerHistory} {now : Nat}

theorem Tracks.mem_hits_iff (h : s.Tracks) (k : String) : k ∈ s.tracker.hits ↔ k ∈ s.tracker.requests := by
  rw [← not_iff_not, ← lookup_eq_none, ← lookup_eq_none, h.hits, h.requests, entryOf_eq_none]

theorem count_entryOf (ts : List Nat) : ((entryOf ts).map Prod.fst).getD 0 = ts.length % UInt32.size := by
  cases hl : ts.getLast? with
  | none =>
    rw [getLast?_eq_none_iff] at hl
    subst hl
    rfl
  | some last => simp [entryOf, hl]

theorem tracks_init : trackerMachine.init.Tracks where
  hits _ := rfl
  requests _ := by simp [trackerMachine, new]
  key _ _ hc := by simp [trackerMachine, new] at hc
  counted _ := suffix_rfl

variable {s' : TrackerHistory}

theorem Tracks.recordHit (h : s.Tracks) (key : CommandKey) (argv : List String) (cwd : String)
    (env : List (String × String)) (hs : trackerMachine.step s (.recordHit now key argv cwd env) = some s') :
    s'.Tracks := by
  obtain ⟨-, ⟨⟩⟩ := Option.ite_none_left_eq_some.mp hs
  refine ⟨fun k => ?_, fun k => ?_, fun k c hc => ?_, fun k => ?_⟩
  · by_cases hk : k = key.hex
    · subst hk
      rw [hits_recordHit, lookup_insert, h.hits, count_entryOf, Nat.mod_add_mod]
      simp [entryOf_snoc]
    · rw [hits_recordHit, lookup_insert_ne hk, h.hits]
      simp [hk]
  · by_cases hk : k = key.hex
    · subst hk
      simp [lookup_requests_recordHit]
    · simp [lookup_requests_recordHit, hk, h.requests]
  · rw [lookup_requests_recordHit] at hc
    by_cases hk : k = key.hex
    · cases hold : s.tracker.requests.lookup k with
      | none =>
        rw [if_pos hk, hold, Option.getD_none, Option.mem_some_iff] at hc
        rw [← hc, hk]
      | some old =>
        rw [if_pos hk, hold, Option.getD_some, Option.mem_some_iff] at hc
        exact h.key k c (hc ▸ hold)
    · rw [if_neg hk] at hc
      exact h.key k c hc
  · by_cases hk : k = key.hex
    · subst hk
      simpa using suffix_append_self_iff.mpr (h.counted key.hex)
    · simpa [hk] using h.counted k

theorem Tracks.keys_drained (h : s.Tracks) (now : Nat) :
    (s.tracker.drainCandidates now).2.map (fun c => c.key.hex) = (s.tracker.scored now).map Prod.snd := by
  have hf : ∀ ks : List String, (∀ k ∈ ks, k ∈ s.tracker.hits) →
      (ks.filterMap s.tracker.requests.lookup).map (fun c => c.key.hex) = ks := by
    intro ks
    induction ks with
    | nil => simp
    | cons k ks ih =>
      intro hky
      have hk : k ∈ s.tracker.requests := (h.mem_hits_iff k).mp (hky k mem_cons_self)
      obtain ⟨c, hc⟩ := Option.isSome_iff_exists.mp (lookup_isSome.mpr hk)
      rw [filterMap_cons_some (f := fun k => s.tracker.requests.lookup k) hc, map_cons, h.key k c hc,
        ih fun k' hk' => hky k' (mem_cons_of_mem k hk')]
  rw [drainCandidates_snd]
  refine hf _ fun k hk => ?_
  obtain ⟨e, he, rfl⟩ := mem_map.mp hk
  obtain ⟨last, hl, -⟩ := lookup_of_mem_scored he
  exact lookup_isSome.mp (hl ▸ rfl)

theorem Tracks.drain (h : s.Tracks) (hs : trackerMachine.step s (.drainCandidates now) = some s') :
    s'.Tracks := by
  obtain ⟨-, ⟨⟩⟩ := Option.ite_none_left_eq_some.mp hs
  have hn : ((s.tracker.scored now).map Prod.snd).Nodup := nodup_scored
  obtain ⟨hh, hr, -⟩ := foldl_drainKey hn s.tracker []
  rw [← drainCandidates, ← h.keys_drained now] at hh hr
  refine ⟨fun k => ?_, fun k => ?_, fun k c hc => ?_, fun k => ?_⟩
  · dsimp only
    rw [hh k, h.hits k]
    split <;> rfl
  · dsimp only
    rw [hr k]
    split
    · simp
    · exact h.requests k
  · rw [hr k] at hc
    split at hc
    · cases hc
    · exact h.key k c hc
  · dsimp only
    split
    · exact nil_suffix
    · exact h.counted k

theorem tracks_reachable (h : trackerMachine.Reachable s) : s.Tracks := by
  refine Machine.invariant tracks_init ?_ h
  intro s c s' ht hs
  cases c with
  | recordHit now key argv cwd env => exact ht.recordHit key argv cwd env hs
  | drainCandidates now => exact ht.drain hs

/-- The times of hits are in order, and past. -/
structure Timed (s : TrackerHistory) : Prop where
  sorted : ∀ k, (s.hitTimes k).Pairwise (· ≤ ·)
  le_clock : ∀ k, ∀ t ∈ s.hitTimes k, t ≤ s.clock

theorem timed_reachable (h : trackerMachine.Reachable s) : s.Timed := by
  refine Machine.invariant ⟨fun _ => .nil, fun _ _ h => absurd h not_mem_nil⟩ ?_ h
  intro s c s' ht hs
  cases c with
  | recordHit now key argv cwd env =>
    obtain ⟨hnow, ⟨⟩⟩ := Option.ite_none_left_eq_some.mp hs
    have hle (k : String) : ∀ t ∈ s.hitTimes k, t ≤ now := fun t htm =>
      (ht.le_clock k t htm).trans (Nat.le_of_not_lt hnow)
    constructor <;> intro k <;> by_cases hk : k = key.hex
    · subst hk
      simpa [pairwise_append] using ⟨ht.sorted key.hex, hle key.hex⟩
    · simpa [hk] using ht.sorted k
    · subst hk
      simpa [or_imp, forall_and] using hle key.hex
    · simpa [hk] using hle k
  | drainCandidates now =>
    obtain ⟨hnow, ⟨⟩⟩ := Option.ite_none_left_eq_some.mp hs
    exact ⟨ht.sorted, fun k t htm => (ht.le_clock k t htm).trans (Nat.le_of_not_lt hnow)⟩

/-- The number of the hits of a command in the last 300 seconds. -/
def recentHits (s : TrackerHistory) (now : Nat) (key : CommandKey) : Nat :=
  ((s.hitTimes key.hex).filter fun t => now - t ≤ speculationWindow).length

def hitCount (s : TrackerHistory) (key : CommandKey) : Nat := (s.counted key.hex).length

/-- The time of the third-last hit. -/
def thirdLast (times : List Nat) : Option Nat := times.reverse[2]?

/-- If the last hit is in the window, then so is the third-last. -/
def Close (times : List Nat) (now : Nat) : Prop :=
  ∀ last ∈ times.getLast?, ∀ third ∈ thirdLast times, now - last ≤ speculationWindow →
    now - third ≤ speculationWindow
deriving Decidable

theorem three_le_length_filter_iff {p : Nat → Bool} {ts : List Nat}
    (h : ts.Pairwise fun a b => p b = true → p a = true) :
    3 ≤ (ts.filter p).length ↔ ∃ t ∈ ts[2]?, p t = true := by
  rcases ts with _ | ⟨a, _ | ⟨b, _ | ⟨c, ts⟩⟩⟩
  · simp
  · have := length_filter_le p [a]
    simp at this ⊢
    omega
  · have := length_filter_le p [a, b]
    simp at this ⊢
    omega
  · obtain ⟨ha, hb, hc, -⟩ : _ ∧ _ ∧ _ ∧ _ := by simpa only [pairwise_cons] using h
    by_cases hp : p c = true
    · have hpa : p a = true := ha c (by simp) hp
      have hpb : p b = true := hb c (by simp) hp
      simp [hp, hpa, hpb]
    · -- the ones before the third are the only candidates
      have hn : (c :: ts).filter p = [] := by
        refine filter_eq_nil_iff.mpr fun t ht hpt => hp ?_
        rcases mem_cons.mp ht with rfl | ht
        · exact hpt
        · exact hc t ht hpt
      have hl := length_filter_le p [a, b]
      have hsplit : (a :: b :: c :: ts).filter p = [a, b].filter p ++ (c :: ts).filter p :=
        filter_append [a, b] (c :: ts)
      rw [hsplit, hn, append_nil]
      simp at hl ⊢
      simp [hp]
      omega

theorem Timed.recentHits_iff (h : s.Timed) (now : Nat) (key : CommandKey) :
    speculationThreshold ≤ s.recentHits now key ↔
      ∃ t ∈ thirdLast (s.hitTimes key.hex), now - t ≤ speculationWindow := by
  have hs : (s.hitTimes key.hex).reverse.Pairwise fun a b =>
      decide (now - b ≤ speculationWindow) = true → decide (now - a ≤ speculationWindow) = true := by
    rw [pairwise_reverse]
    refine (h.sorted key.hex).imp fun hle hb => ?_
    have hb := of_decide_eq_true hb
    exact decide_eq_true (by omega)
  have hl := three_le_length_filter_iff hs
  rw [filter_reverse, length_reverse] at hl
  simp only [decide_eq_true_eq] at hl
  exact hl

theorem Tracks.length_drained (h : s.Tracks) :
    (s.tracker.drainCandidates now).2.length ≤ speculationMaxCandidates := by
  have hl := congrArg length (h.keys_drained now)
  rw [length_map, length_map] at hl
  exact hl ▸ length_scored_le

theorem Tracks.scored_count (h : s.Tracks) {e : Nat × String} (he : e ∈ s.tracker.scored now) :
    e.1 = (s.counted e.2).length % UInt32.size := by
  obtain ⟨last, hl, -⟩ := lookup_of_mem_scored he
  rw [← count_entryOf, ← h.hits, hl]
  rfl

/-- All that the tracker makes sure of: three hits since the command was last returned, the last one recent. -/
theorem Tracks.drained (h : s.Tracks) {c : SpeculationCandidate} (hc : c ∈ (s.tracker.drainCandidates now).2) :
    speculationThreshold ≤ s.hitCount c.key ∧
      ∃ last ∈ (s.hitTimes c.key.hex).getLast?, now - last ≤ speculationWindow := by
  have hky : c.key.hex ∈ (s.tracker.scored now).map Prod.snd := h.keys_drained now ▸ mem_map_of_mem hc
  obtain ⟨e, he, hh⟩ := mem_map.mp hky
  obtain ⟨last, hl, ht, hw⟩ := lookup_of_mem_scored he
  rw [h.hits, hh] at hl
  obtain ⟨t, hlast, heq⟩ := Option.map_eq_some_iff.mp hl
  obtain ⟨hcount, rfl⟩ := Prod.mk.inj heq
  refine ⟨?_, t, ?_, hw⟩
  · rw [← hcount] at ht
    exact ht.trans (Nat.mod_le _ _)
  · obtain ⟨front, hsuffix⟩ := h.counted c.key.hex
    rw [← hsuffix, getLast?_append, hlast]
    rfl

theorem Tracks.ordered (h : s.Tracks) (hc : ∀ k, (s.hitTimes k).length < UInt32.size) :
    (s.tracker.drainCandidates now).2.Pairwise fun l r => s.hitCount r.key ≤ s.hitCount l.key := by
  -- the order of the sorted entries is an order of their keys
  have hk : ((s.tracker.scored now).map Prod.snd).Pairwise fun k k' =>
      (s.counted k').length % UInt32.size ≤ (s.counted k).length % UInt32.size := by
    rw [pairwise_map]
    refine pairwise_scored.imp_of_mem fun he he' hb => ?_
    rw [← h.scored_count he, ← h.scored_count he']
    exact hb.elim Nat.le_of_lt fun heq => Nat.le_of_eq heq.1
  rw [← h.keys_drained now, pairwise_map] at hk
  have hlt (k : String) : (s.counted k).length < UInt32.size :=
    Nat.lt_of_le_of_lt (h.counted k).length_le (hc k)
  refine hk.imp fun hle => ?_
  rwa [Nat.mod_eq_of_lt (hlt _), Nat.mod_eq_of_lt (hlt _)] at hle

end TrackerHistory

open TrackerHistory

/-- **Candidates.** In every history a drain returns at most five commands, and the two tables have the same keys.
A command that is returned has had three hits since it was last returned, the last one in the window; it had three
in the window exactly if the third-last is. The commands are in the order of their hits while none has had 2³². -/
theorem drain_candidates_frequent {s : TrackerHistory} (h : trackerMachine.Reachable s) (now : Nat) :
    (s.tracker.drainCandidates now).2.length ≤ speculationMaxCandidates ∧
    (∀ k, k ∈ s.tracker.hits ↔ k ∈ s.tracker.requests) ∧
    (∀ c ∈ (s.tracker.drainCandidates now).2, speculationThreshold ≤ s.hitCount c.key ∧
      (speculationThreshold ≤ s.recentHits now c.key ↔
        ∃ third ∈ thirdLast (s.hitTimes c.key.hex), now - third ≤ speculationWindow)) ∧
    ((∀ k, Close (s.hitTimes k) now) →
      ∀ c ∈ (s.tracker.drainCandidates now).2, speculationThreshold ≤ s.recentHits now c.key) ∧
    ((∀ k, (s.hitTimes k).length < UInt32.size) →
      (s.tracker.drainCandidates now).2.Pairwise fun l r => s.hitCount r.key ≤ s.hitCount l.key) := by
  have ht := tracks_reachable h
  have hiff (key : CommandKey) := (timed_reachable h).recentHits_iff now key
  refine ⟨ht.length_drained, ht.mem_hits_iff, fun c hc => ⟨(ht.drained hc).1, hiff c.key⟩, ?_, ht.ordered⟩
  intro hclose c hc
  obtain ⟨hcount, last, hlast, hw⟩ := ht.drained hc
  have hlen : 2 < (s.hitTimes c.key.hex).reverse.length := by
    rw [length_reverse]
    exact hcount.trans (ht.counted c.key.hex).length_le
  exact (hiff c.key).mpr ⟨_, getElem?_eq_getElem hlen, hclose _ last hlast _ (getElem?_eq_getElem hlen) hw⟩

def hitsAt (secs : List Nat) : List TrackerCall :=
  secs.map fun sec => .recordHit (Duration.fromSecs sec) ⟨"lint"⟩ ["lint"] "/" []

theorem drain_candidates_after_burst :
    ∃ s, trackerMachine.Reachable s ∧ ∃ c ∈ (s.tracker.drainCandidates (Duration.fromSecs 300)).2,
      speculationThreshold ≤ s.recentHits (Duration.fromSecs 300) c.key := by
  obtain ⟨s, hr, c, hc, ht⟩ : ∃ s, trackerMachine.Reachable s ∧
      ∃ c ∈ (s.tracker.drainCandidates (Duration.fromSecs 300)).2,
        ∃ third ∈ thirdLast (s.hitTimes c.key.hex), Duration.fromSecs 300 - third ≤ speculationWindow :=
    Machine.exists_reachable (hitsAt [0, 1, 2]) (by decide +kernel)
  exact ⟨s, hr, c, hc, (((drain_candidates_frequent hr _).2.2.1 c hc).2).mpr ht⟩

/-- Hits 250 seconds apart are counted together. -/
theorem drain_candidates_returns_rare : ∃ s, trackerMachine.Reachable s ∧
      ∃ c ∈ (s.tracker.drainCandidates (Duration.fromSecs 510)).2,
        s.recentHits (Duration.fromSecs 510) c.key = 2 :=
  Machine.exists_reachable (hitsAt [0, 250, 500]) (by decide +kernel)

end ShareCli.Core
