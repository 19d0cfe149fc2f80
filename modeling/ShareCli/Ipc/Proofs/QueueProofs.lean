import Mathlib.Data.Prod.Lex
import Mathlib.Data.Set.Finite.Lemmas
import ShareCli.Ipc.Queue

/-!
# Whose turn it is: progress, order and orphans

`isMyTurn_iff` says what `is_my_turn` computes without its scan, and the ranks are `agedRank` of a priority
and an age in whole seconds.
-/

namespace ShareCli.Ipc

open Foundation Duration Decimal Ticket Waiter List

/-! ## Reading a ticket name -/

section Names

variable (priority : QueuePriority) (s pid seq ns : Nat)

theorem splitOn_ticketName : (ticketName priority s pid seq).toList.splitOn '.' =
    [pad2 priority.asU8, Nat.toDigits 10 s, Nat.toDigits 10 pid, Nat.toDigits 10 seq] := by
  have hp : '.' ∉ pad2 priority.asU8 :=
    not_mem_of_digits (fun _ hc => isDigit_of_mem_pad2 hc) rfl
  have hd : ∀ n, '.' ∉ Nat.toDigits 10 n := not_mem_toDigits rfl
  rw [ticketName, String.toList_ofList, splitOn_append_cons_self_of_not_mem hp,
    splitOn_append_cons_self_of_not_mem (hd s),
    splitOn_append_cons_self_of_not_mem (hd pid)]
  rw [splitOn_eq_singleton (hd seq)]

theorem ticketPriority_name : ticketPriority (ticketName priority s pid seq) = priority.asU8 := by
  have hlt : priority.asU8 < 256 := by cases priority <;> decide
  simp [ticketPriority, ticketSegment, splitOn_ticketName, parseUnsigned_pad2 hlt]

theorem ticketSecs_name (h : s < 2 ^ 64) : ticketSecs (ticketName priority s pid seq) ns = s := by
  rw [ticketSecs, ticketSegment, splitOn_ticketName]
  show (parseUnsigned (2 ^ 64) (Nat.toDigits 10 s)).getD ns = s
  rw [parseUnsigned_toDigits h]
  rfl

theorem head_ticketName : (ticketName priority s pid seq).toList.head? ≠ some '.' := by
  rw [ticketName, String.toList_ofList]
  cases priority <;> simp [pad2, QueuePriority.asU8]

end Names

theorem peerBasePriority_asU8 (priority : QueuePriority) : peerBasePriority priority.asU8 = priority := by
  cases priority <;> rfl

/-! ## Ranks -/

def agedRank (priority : QueuePriority) (age : Nat) : Nat := min (priority.asU8 + age % 256) 255

theorem effectiveRank_eq (priority : QueuePriority) (waited : Nat) :
    effectiveRank priority waited = agedRank priority (asSecs waited) := by
  simp [effectiveRank, agedRank, agingStepMs, asMillis_div_thousand]

variable {ns now : Nat} {w : Waiter} {s : List String} {acc : Nat × List String}
  {entries : List WaitingEntry} {tickets : List Ticket} {orphan : Ticket}

theorem peerEffective_name (t : Ticket) (h : ns ≤ t.secs + clockLimit) :
    peerEffective ns t.name = agedRank t.priority (ns - t.secs) := by
  have hs := t.inRange
  rw [peerEffective, name, ticketPriority_name, peerBasePriority_asU8, ticketSecs_name,
    effectiveRank_eq]
  · congr 1
    unfold peerWaitedMs
    unfold clockLimit at h
    split
    · rw [if_neg (by omega)]
      simp only [asSecs, fromMillis]
      omega
    · simp only [asSecs, fromMillis]
      omega
  · unfold clockLimit at hs
    omega

theorem effectiveRank_le (priority : QueuePriority) (waited : Nat) : effectiveRank priority waited ≤ 255 := by
  rw [effectiveRank_eq]
  exact Nat.min_le_right _ _

/-! ### Aging

The number of seconds is truncated to a byte: in a round of 256 seconds a rank grows from the priority to the
last rank, and then it starts again. -/

theorem asU8_le (priority : QueuePriority) : priority.asU8 ≤ 4 := by cases priority <;> decide

theorem agedRank_of_lt (priority : QueuePriority) {age : Nat} (h : age < 256) :
    agedRank priority age = min (priority.asU8 + age) 255 := by
  rw [agedRank, Nat.mod_eq_of_lt h]

theorem asSecs_lt {w s : Nat} (h : w < fromSecs s) : asSecs w < s :=
  Nat.div_lt_of_lt_mul (by rwa [Nat.mul_comm])

theorem le_asSecs {w s : Nat} (h : fromSecs s ≤ w) : s ≤ asSecs w :=
  (Nat.le_div_iff_mul_le (by decide)).mpr h

theorem effectiveRank_mono (priority : QueuePriority) {w w' : Nat} (h : w ≤ w')
    (hw' : w' < fromSecs 256) : effectiveRank priority w ≤ effectiveRank priority w' := by
  have ha' : asSecs w' < 256 := asSecs_lt hw'
  have hle : asSecs w ≤ asSecs w' := Nat.div_le_div_right h
  rw [effectiveRank_eq, effectiveRank_eq, agedRank_of_lt _ ha', agedRank_of_lt _ (by omega)]
  omega

theorem effectiveRank_saturated (priority : QueuePriority) {w : Nat}
    (h : fromSecs (255 - priority.asU8) ≤ w) (hw : w < fromSecs 256) :
    effectiveRank priority w = 255 := by
  have ha : 255 - priority.asU8 ≤ asSecs w := le_asSecs h
  rw [effectiveRank_eq, agedRank_of_lt _ (asSecs_lt hw)]
  omega

theorem effectiveRank_new_round (priority : QueuePriority) (round : Nat) :
    effectiveRank priority (fromSecs (256 * round)) = priority.asU8 := by
  have hle := asU8_le priority
  rw [effectiveRank_eq, asSecs_fromSecs, agedRank, Nat.mul_mod_right]
  omega

/-- **Aging.** A rank never falls as time passes exactly within the first 256 seconds. -/
theorem effective_rank_aging_iff (priority : QueuePriority) (limit : Nat) :
    ((∀ w w', w ≤ w' → w' ≤ limit → effectiveRank priority w ≤ effectiveRank priority w') ∧
      ∀ w, fromSecs (255 - priority.asU8) ≤ w → w ≤ limit → effectiveRank priority w = 255) ↔
    limit < fromSecs 256 := by
  constructor
  · rintro ⟨-, hs⟩
    by_contra hl
    have hls : effectiveRank priority (fromSecs (256 * 1)) = 255 :=
      hs _ (Nat.mul_le_mul_right _ (by omega)) (Nat.le_of_not_lt hl)
    have hle := asU8_le priority
    rw [effectiveRank_new_round] at hls
    omega
  · intro hl
    refine ⟨fun w w' h hw' => ?_, fun w h hw => ?_⟩
    · exact effectiveRank_mono priority h (Nat.lt_of_le_of_lt hw' hl)
    · exact effectiveRank_saturated priority h (Nat.lt_of_le_of_lt hw hl)

/-- A critical waiter is at the last rank after 255 seconds and at the first one a second later. -/
theorem effective_rank_falls : fromSecs 255 ≤ fromSecs 256 ∧ effectiveRank .critical (fromSecs 255) = 255 ∧
      effectiveRank .critical (fromSecs 256) = 0 := by
  decide

/-! ## The scan -/

def peerTickets (entries : List WaitingEntry) : List String :=
  (entries.filter fun e => e.isFile ∧ e.name.toList.head? ≠ some '.').map WaitingEntry.name

/-- The best rank, 255 if there is no better one, and the tickets that have it. -/
structure Scanned (ns : Nat) (s : List String) (acc : Nat × List String) : Prop where
  best_le : ∀ t ∈ s, acc.1 ≤ peerEffective ns t
  attained : acc.1 = 255 ∨ ∃ t ∈ s, peerEffective ns t = acc.1
  mem_iff : ∀ t, t ∈ acc.2 ↔ t ∈ s ∧ peerEffective ns t = acc.1

theorem scanned_nil (ns : Nat) : Scanned ns [] (255, []) := ⟨by simp, .inl rfl, by simp⟩

theorem Scanned.ticket (h : Scanned ns s acc) {e : WaitingEntry} (hf : e.isFile = true)
    (hd : e.name.toList.head? ≠ some '.') :
    Scanned ns (s ++ [e.name]) (scanEntry ns acc e) := by
  rw [scanEntry, if_neg (by simp [hf]), if_neg hd]
  rcases lt_trichotomy (peerEffective ns e.name) acc.1 with hlt | heq | hgt
  · -- a new best rank: nobody seen before has it
    rw [if_pos hlt]
    have hle : ∀ t ∈ s, peerEffective ns e.name < peerEffective ns t :=
      fun t ht => lt_of_lt_of_le hlt (h.best_le t ht)
    refine ⟨forall_mem_append.mpr ⟨fun t ht => le_of_lt (hle t ht), by simp⟩,
      .inr ⟨e.name, by simp, rfl⟩, fun t => ⟨?_, ?_⟩⟩
    · intro ht
      obtain rfl := mem_singleton.mp ht
      simp
    · rintro ⟨ht, hr⟩
      exact (mem_append.mp ht).resolve_left fun ht => (hle t ht).ne' hr
  · rw [if_neg (by omega), if_pos heq]
    refine ⟨forall_mem_append.mpr ⟨h.best_le, by simp [heq]⟩,
      .inr ⟨e.name, by simp, heq⟩, fun t => ?_⟩
    simp only [mem_append, mem_singleton, h.mem_iff t, or_and_right]
    refine or_congr Iff.rfl ⟨?_, And.left⟩
    rintro rfl
    exact ⟨rfl, heq⟩
  · rw [if_neg (by omega), if_neg (by omega)]
    refine ⟨forall_mem_append.mpr ⟨h.best_le, by simp [hgt.le]⟩, ?_, fun t => ?_⟩
    · exact h.attained.imp_right fun ⟨t, ht, hr⟩ => ⟨t, mem_append_left _ ht, hr⟩
    · rw [h.mem_iff t]
      refine and_congr_left fun hr => ⟨mem_append_left _, fun ht => ?_⟩
      refine (mem_append.mp ht).resolve_right fun hn => ?_
      rw [mem_singleton.mp hn] at hr
      omega

theorem Scanned.foldl (entries : List WaitingEntry) (h : Scanned ns s acc) :
    Scanned ns (s ++ peerTickets entries) (entries.foldl (scanEntry ns) acc) := by
  induction entries generalizing s acc with
  | nil => simpa [peerTickets] using h
  | cons e es ih =>
    by_cases hv : e.isFile = true ∧ e.name.toList.head? ≠ some '.'
    · have hstep := ih (h.ticket hv.1 hv.2)
      have hp : peerTickets (e :: es) = [e.name] ++ peerTickets es := by
        simp [peerTickets, hv]
      rw [hp, ← append_assoc]
      exact hstep
    · have hs : scanEntry ns acc e = acc := by
        unfold scanEntry
        by_cases hf : e.isFile = true
        · have hd : e.name.toList.head? = some '.' := by
            by_contra hne
            exact hv ⟨hf, hne⟩
          simp [hf, hd]
        · simp [hf]
      have hp : peerTickets (e :: es) = peerTickets es := by
        rw [peerTickets, filter_cons_of_neg (by simpa using hv)]
        rfl
      rw [foldl_cons, hs, hp]
      exact ih h

theorem Scanned.exists_least {best : Nat} {ab : List String} (h : Scanned ns s (best, ab))
    (ha : ∃ t ∈ s, peerEffective ns t = best) :
    ∃ m, ab.min? = some m ∧ m ∈ s ∧ peerEffective ns m = best ∧
      ∀ t ∈ s, peerEffective ns t = best → m ≤ t := by
  obtain ⟨t₀, ht₀, hr₀⟩ := ha
  have hne : ab ≠ [] := ne_nil_of_mem ((h.mem_iff t₀).mpr ⟨ht₀, hr₀⟩)
  obtain ⟨m, hm⟩ := Option.isSome_iff_exists.mp (isSome_min?_of_ne_nil hne)
  obtain ⟨hme, hle⟩ := min?_eq_some_iff.mp hm
  obtain ⟨hs, hr⟩ := (h.mem_iff m).mp hme
  refine ⟨m, hm, hs, hr, ?_⟩
  intro t ht hb
  exact hle t ((h.mem_iff t).mpr ⟨ht, hb⟩)

/-- **What `is_my_turn` decides.** -/
theorem isMyTurn_iff (entries : List WaitingEntry) (ns : Nat) (priority : QueuePriority)
    (ticket : String) (waited : Nat) :
    isMyTurn (some entries) ns priority ticket waited = true ↔
      (∀ t ∈ peerTickets entries, peerEffective ns t = 255) ∨
      (∀ t ∈ peerTickets entries, effectiveRank priority waited < peerEffective ns t) ∨
      (ticket ∈ peerTickets entries ∧ peerEffective ns ticket = effectiveRank priority waited ∧
        ∀ t ∈ peerTickets entries, effectiveRank priority waited < peerEffective ns t ∨
          (peerEffective ns t = effectiveRank priority waited ∧ ticket ≤ t)) := by
  have hs := (scanned_nil ns).foldl entries
  rw [nil_append] at hs
  simp only [isMyTurn]
  generalize entries.foldl (scanEntry ns) (255, []) = acc at hs
  obtain ⟨best, atBest⟩ := acc
  have hle : ∀ t ∈ peerTickets entries, best ≤ peerEffective ns t := hs.best_le
  generalize hmy : effectiveRank priority waited = my
  have hr : ∀ t, peerEffective ns t ≤ 255 := fun t => effectiveRank_le _ _
  by_cases hb : best = 255
  · rw [if_pos hb]
    refine iff_of_true rfl (.inl ?_)
    intro t ht
    have h1 := hle t ht
    have h2 := hr t
    omega
  · obtain ⟨t₀, ht₀, hr₀⟩ := hs.attained.resolve_left hb
    rw [if_neg hb]
    rcases lt_trichotomy best my with hlt | heq | hgt
    · -- somebody is strictly better
      rw [if_pos hlt]
      refine iff_of_false (by simp) ?_
      rintro (ha | ha | ⟨-, -, ha⟩)
      all_goals
        have := ha t₀ ht₀
        omega
    · -- a tie: the least name among the best decides
      rw [if_neg (by omega), if_neg (by omega)]
      obtain ⟨m, hm, hsn, hmr, hl⟩ := hs.exists_least ⟨t₀, ht₀, hr₀⟩
      rw [hm, Option.getD_some, decide_eq_true_iff]
      constructor
      · rintro rfl
        refine .inr (.inr ⟨hsn, hmr.trans heq, ?_⟩)
        intro t ht
        rcases Nat.lt_or_eq_of_le (hle t ht) with h | h
        · exact .inl (by omega)
        · exact .inr ⟨by omega, hl t ht h.symm⟩
      · rintro (ha | ha | ⟨hin, ho, ha⟩)
        · have := ha t₀ ht₀
          omega
        · have := ha t₀ ht₀
          omega
        · have hle' : m ≤ ticket := hl ticket hin (ho.trans heq.symm)
          rcases ha m hsn with h | ⟨-, h⟩
          · omega
          · exact le_antisymm hle' h
    · rw [if_neg (by omega), if_pos hgt]
      refine iff_of_true rfl (.inr (.inl ?_))
      intro t ht
      have := hle t ht
      omega

/-! ## A lane of tickets -/

theorem mem_peerTickets (hl : Lists entries tickets) {n : String} :
    n ∈ peerTickets entries ↔ ∃ t ∈ tickets, n = t.name := by
  simp only [peerTickets, mem_map, mem_filter]
  constructor
  · rintro ⟨e, ⟨he, -⟩, rfl⟩
    obtain ⟨t, ht, rfl⟩ := mem_map.mp ((hl e).mp he)
    exact ⟨t, ht, rfl⟩
  · rintro ⟨t, ht, rfl⟩
    refine ⟨⟨t.name, true⟩, ⟨(hl _).mpr (mem_map.mpr ⟨t, ht, rfl⟩), ?_⟩, rfl⟩
    simp [name, head_ticketName]

theorem forall_peerTickets (hl : Lists entries tickets) {P : String → Prop} :
    (∀ n ∈ peerTickets entries, P n) ↔ ∀ t ∈ tickets, P t.name := by
  constructor
  · intro h t ht
    exact h _ ((mem_peerTickets hl).mpr ⟨t, ht, rfl⟩)
  · intro h n hn
    obtain ⟨t, ht, rfl⟩ := (mem_peerTickets hl).mp hn
    exact h t ht

def Ticket.wallRank (t : Ticket) (now : Nat) : Nat := agedRank t.priority (asSecs now - t.secs)

def Waiter.ownRank (w : Waiter) (now : Nat) : Nat := agedRank w.ticket.priority (asSecs (now - w.enqueuedAt))

theorem isTurn_iff (hl : Lists entries tickets) (hw : w.ticket ∈ tickets)
    (hn : ∀ t ∈ tickets, asSecs now ≤ t.secs + clockLimit) :
    w.isTurn entries now = true ↔ (∀ t ∈ tickets, t.wallRank now = 255) ∨
      (∀ t ∈ tickets, w.ownRank now < t.wallRank now) ∨
      (w.ticket.wallRank now = w.ownRank now ∧ ∀ t ∈ tickets, w.ownRank now < t.wallRank now ∨
          (t.wallRank now = w.ownRank now ∧ w.ticket.name ≤ t.name)) := by
  have hr : ∀ t ∈ tickets, peerEffective (asSecs now) t.name = t.wallRank now :=
    fun t ht => peerEffective_name t (hn t ht)
  have hin : w.ticket.name ∈ peerTickets entries := (mem_peerTickets hl).mpr ⟨w.ticket, hw, rfl⟩
  rw [isTurn, isMyTurn_iff, effectiveRank_eq, hr _ hw]
  simp only [forall_peerTickets hl, hin, true_and]
  refine or_congr ?_ (or_congr ?_ (and_congr Iff.rfl ?_))
  · exact forall₂_congr fun t ht => by rw [hr t ht]
  · exact forall₂_congr fun t ht => by rw [hr t ht]; rfl
  · exact forall₂_congr fun t ht => by rw [hr t ht]; rfl

/-! ## Progress -/

section Lane

variable {lane : List Waiter} {first : Waiter}

/-- `w` has the least ticket of the lane by rank and then by name. -/
def Leads (lane : List Waiter) (now : Nat) (w : Waiter) : Prop :=
  ∀ v ∈ lane, w.ticket.wallRank now < v.ticket.wallRank now ∨
    (v.ticket.wallRank now = w.ticket.wallRank now ∧ w.ticket.name ≤ v.ticket.name)
deriving Decidable

theorem isTurn_lane_iff (hl : Lists entries (lane.map (·.ticket))) (hw : w ∈ lane)
    (hn : asSecs now ≤ clockLimit) :
    w.isTurn entries now = true ↔ (∀ v ∈ lane, v.ticket.wallRank now = 255) ∨
      (∀ v ∈ lane, w.ownRank now < v.ticket.wallRank now) ∨
      (w.ticket.wallRank now = w.ownRank now ∧ Leads lane now w) := by
  rw [isTurn_iff hl (mem_map_of_mem hw) (fun t _ => by omega)]
  simp only [forall_mem_map, Leads]
  refine or_congr Iff.rfl (or_congr Iff.rfl (and_congr_right fun heq => ?_))
  rw [heq]

theorem exists_leads (hne : lane ≠ []) (now : Nat) : ∃ w ∈ lane, Leads lane now w := by
  let order : Waiter → ℕ ×ₗ String := fun w => toLex (w.ticket.wallRank now, w.ticket.name)
  obtain ⟨w, hw, hmin⟩ := Set.exists_min_image {w | w ∈ lane} order lane.finite_toSet
    (exists_mem_of_ne_nil lane hne)
  refine ⟨w, hw, fun v hv => ?_⟩
  have h := hmin v hv
  rw [Prod.Lex.le_iff] at h
  exact h.imp_right fun h => ⟨h.1.symm, h.2⟩

/-- Somebody's own clock puts it ahead of all tickets, or the least ticket is not ahead of its owner's clock. -/
def Admits (lane : List Waiter) (now : Nat) : Prop :=
  ∃ w ∈ lane, (∀ v ∈ lane, w.ownRank now < v.ticket.wallRank now) ∨
    (Leads lane now w ∧ w.ownRank now ≤ w.ticket.wallRank now)
deriving Decidable

theorem exists_isTurn_iff (hne : lane ≠ []) (hl : Lists entries (lane.map (·.ticket)))
    (hn : asSecs now ≤ clockLimit) : (∃ w ∈ lane, w.isTurn entries now = true) ↔ Admits lane now := by
  constructor
  · rintro ⟨w, hw, ht⟩
    rcases (isTurn_lane_iff hl hw hn).mp ht with hlast | hahead | ⟨heq, hw'⟩
    · -- everybody is at the last rank, so the least ticket is not ahead of its owner
      obtain ⟨v, hv, hlead⟩ := exists_leads hne now
      refine ⟨v, hv, .inr ⟨hlead, ?_⟩⟩
      rw [hlast v hv]
      exact Nat.min_le_right _ _
    · exact ⟨w, hw, .inl hahead⟩
    · exact ⟨w, hw, .inr ⟨hw', heq.ge⟩⟩
  · rintro ⟨w, hw, hahead | ⟨hlead, hle⟩⟩
    · exact ⟨w, hw, (isTurn_lane_iff hl hw hn).mpr (.inr (.inl hahead))⟩
    · refine ⟨w, hw, (isTurn_lane_iff hl hw hn).mpr (.inr ?_)⟩
      rcases Nat.lt_or_eq_of_le hle with hlt | heq
      · refine .inl fun v hv => ?_
        have := hlead v hv
        omega
      · exact .inr ⟨heq.symm, hlead⟩

theorem asSecs_mono {a b : Nat} (h : a ≤ b) : asSecs a ≤ asSecs b := Nat.div_le_div_right h

theorem asSecs_sub_le (a b : Nat) : asSecs (a - b) ≤ asSecs a - asSecs b := by
  simp only [asSecs]
  omega

/-- Until the count of seconds of its ticket wraps, a waiter does not rank itself behind its own ticket. -/
theorem ownRank_le_wallRank (h : asSecs now ≤ w.ticket.secs + 255) : w.ownRank now ≤ w.ticket.wallRank now := by
  have hs := w.stamp_le
  rw [w.secs_eq] at h
  have hw : asSecs (now - w.enqueuedAt) ≤ asSecs now - asSecs w.stamp :=
    le_trans (asSecs_mono (by omega)) (asSecs_sub_le now w.stamp)
  simp only [ownRank, wallRank, agedRank, w.secs_eq]
  omega

theorem admits_of_young (hne : lane ≠ []) (h : ∀ w ∈ lane, asSecs now ≤ w.ticket.secs + 255) :
    Admits lane now := by
  obtain ⟨w, hw, hlead⟩ := exists_leads hne now
  exact ⟨w, hw, .inr ⟨hlead, ownRank_le_wallRank (h w hw)⟩⟩

/-- **Progress.** When exactly somebody has its turn; always while no ticket is of a second more than 255 back. -/
theorem is_my_turn_progress_iff (lane : List Waiter) (hne : lane ≠ []) (entries : List WaitingEntry)
    (hl : Lists entries (lane.map (·.ticket))) (now : Nat) (hn : asSecs now ≤ clockLimit) :
    ((∃ w ∈ lane, w.isTurn entries now = true) ↔ Admits lane now) ∧
      ((∀ w ∈ lane, asSecs now ≤ w.ticket.secs + 255) → ∃ w ∈ lane, w.isTurn entries now = true) :=
  ⟨exists_isTurn_iff hne hl hn, fun h => (exists_isTurn_iff hne hl hn).mpr (admits_of_young hne h)⟩

def waiterAt (priority : QueuePriority) (stamp pid seq : Nat) (h : asSecs stamp + 512 ≤ clockLimit) : Waiter where
  ticket := { priority, secs := asSecs stamp, pid, seq, inRange := h }
  stamp := stamp
  secs_eq := rfl
  enqueuedAt := stamp
  stamp_le := le_rfl
  inRange := h

theorem is_my_turn_progress_two :
    ∃ w ∈ [waiterAt .normal 10000000000 1 0 (by decide), waiterAt .low 11000000000 2 0 (by decide)],
      w.isTurn (ticketFiles [(waiterAt .normal 10000000000 1 0 (by decide)).ticket,
        (waiterAt .low 11000000000 2 0 (by decide)).ticket]) (fromSecs 13) = true :=
  (is_my_turn_progress_iff _ (cons_ne_nil _ _) _ (fun _ => Iff.rfl) (fromSecs 13) (by decide)).2 (by decide)

/-- It was stamped at the end of a second and read the monotonic clock two nanoseconds later. -/
def lateWaiter : Waiter where
  ticket := { priority := .normal, secs := 10, pid := 2, seq := 0, inRange := by decide }
  stamp := 10999999999
  secs_eq := by decide
  enqueuedAt := 11000000001
  stamp_le := by decide
  inRange := by decide

/-- The only waiter of a lane is refused before it has waited for 255 seconds: its ticket's count has wrapped. -/
theorem is_my_turn_refuses_only_waiter :
    fromSecs 266 - lateWaiter.enqueuedAt < fromSecs 255 ∧ lateWaiter.enqueuedAt ≤ fromSecs 266 ∧
      ¬ ∃ w ∈ [lateWaiter], w.isTurn (ticketFiles [lateWaiter.ticket]) (fromSecs 266) = true := by
  decide +kernel

/-! ## Order of enqueuing -/

/-- The lane holds tickets of one priority, and `first` was stamped before the others. -/
structure SamePriorityLane (first : Waiter) (lane : List Waiter) : Prop where
  mem : first ∈ lane
  priority : ∀ w ∈ lane, w.ticket.priority = first.ticket.priority
  first_le : ∀ w ∈ lane, first.stamp ≤ w.stamp

/-- Seconds since the second in the ticket's name, as far as a byte counts them. -/
def Ticket.age (t : Ticket) (now : Nat) : Nat := (asSecs now - t.secs) % 256

/-- Whole seconds the waiter has counted itself, as far as a byte counts them. -/
def Waiter.ownAge (w : Waiter) (now : Nat) : Nat := asSecs (now - w.enqueuedAt) % 256

/-- Nobody else is in the lane; or the youngest ticket `y` is not yet at the last rank, every other waiter has
counted at least `y`'s age, and where its count and its ticket's age are `y`'s age, a lesser name has that age. -/
def ServesFirst (first : Waiter) (lane : List Waiter) (now : Nat) : Prop :=
  (∀ w ∈ lane, w.ticket = first.ticket) ∨
    ∃ y ∈ lane, (∀ v ∈ lane, y.ticket.age now ≤ v.ticket.age now) ∧
      first.ticket.priority.asU8 + y.ticket.age now < 255 ∧
      ∀ w ∈ lane, w.ticket ≠ first.ticket → y.ticket.age now ≤ w.ownAge now ∧
        (w.ownAge now = y.ticket.age now → w.ticket.age now = y.ticket.age now →
          ∃ v ∈ lane, v.ticket.age now = y.ticket.age now ∧ v.ticket.name < w.ticket.name)
deriving Decidable

theorem SamePriorityLane.exists_youngest (h : SamePriorityLane first lane) (now : Nat) :
    ∃ y ∈ lane, ∀ v ∈ lane, y.ticket.age now ≤ v.ticket.age now :=
  Set.exists_min_image {w | w ∈ lane} (fun w => w.ticket.age now) lane.finite_toSet ⟨first, h.mem⟩

/-- In such a lane ages decide instead of ranks, as long as the youngest ticket is not at the last rank. -/
theorem SamePriorityLane.isTurn_iff_age (h : SamePriorityLane first lane)
    (hl : Lists entries (lane.map (·.ticket))) (hn : asSecs now ≤ clockLimit) {y : Waiter} (hy : y ∈ lane)
    (hmin : ∀ v ∈ lane, y.ticket.age now ≤ v.ticket.age now)
    (hlast : first.ticket.priority.asU8 + y.ticket.age now < 255) (hw : w ∈ lane) :
    w.isTurn entries now = true ↔ w.ownAge now < y.ticket.age now ∨
      (w.ownAge now = y.ticket.age now ∧ w.ticket.age now = y.ticket.age now ∧
        ∀ v ∈ lane, v.ticket.age now = y.ticket.age now → w.ticket.name ≤ v.ticket.name) := by
  have hwall : ∀ v ∈ lane, v.ticket.wallRank now = min (first.ticket.priority.asU8 + v.ticket.age now) 255 := by
    intro v hv
    rw [wallRank, agedRank, h.priority v hv, age]
  have hown : w.ownRank now = min (first.ticket.priority.asU8 + w.ownAge now) 255 := by
    rw [ownRank, agedRank, h.priority w hw, ownAge]
  rw [isTurn_lane_iff hl hw hn]
  constructor
  · rintro (hall | hahead | ⟨heq, hlead⟩)
    · have := hall y hy
      have := hwall y hy
      omega
    · have := hahead y hy
      have := hwall y hy
      exact .inl (by omega)
    · -- `w` is not behind `y`, so both counts of `w` are the age of `y`
      have hwy := hwall w hw
      have hyy := hwall y hy
      have hmw := hmin w hw
      have hly := hlead y hy
      refine .inr ⟨by omega, by omega, fun v hv hva => ?_⟩
      have hvv := hwall v hv
      rcases hlead v hv with hlt | ⟨-, hname⟩
      · omega
      · exact hname
  · rintro (hlt | ⟨ho, ha, hname⟩)
    · refine .inr (.inl fun v hv => ?_)
      have := hwall v hv
      have := hmin v hv
      omega
    · have hwy := hwall w hw
      refine .inr (.inr ⟨by omega, fun v hv => ?_⟩)
      have hvv := hwall v hv
      have hmv := hmin v hv
      by_cases hva : v.ticket.age now = y.ticket.age now
      · exact .inr ⟨by omega, hname v hv hva⟩
      · exact .inl (by omega)

/-- **Order of enqueuing.** Whoever has its turn now enqueued first, exactly in these constellations of ages. -/
theorem is_my_turn_fifo_iff (first : Waiter) (lane : List Waiter) (hlane : SamePriorityLane first lane)
    {entries : List WaitingEntry} (hl : Lists entries (lane.map (·.ticket))) {now : Nat}
    (hn : asSecs now ≤ clockLimit) :
    (∀ w ∈ lane, w.isTurn entries now = true → w.ticket = first.ticket) ↔ ServesFirst first lane now := by
  obtain ⟨y, hy, hmin⟩ := hlane.exists_youngest now
  by_cases hlast : first.ticket.priority.asU8 + y.ticket.age now < 255
  · have hturn {w : Waiter} (hw : w ∈ lane) := hlane.isTurn_iff_age hl hn hy hmin hlast hw
    constructor
    · intro hfifo
      refine .inr ⟨y, hy, hmin, hlast, fun w hw hne => ?_⟩
      have hnot := mt (hfifo w hw) hne
      rw [hturn hw] at hnot
      push Not at hnot
      refine ⟨hnot.1, fun ho ha => ?_⟩
      obtain ⟨v, hv, hva, hname⟩ := hnot.2 ho ha
      exact ⟨v, hv, hva, hname⟩
    · rintro (hsingle | ⟨z, hz, hminz, -, hrest⟩) w hw ht
      · exact hsingle w hw
      · have hzy : z.ticket.age now = y.ticket.age now := le_antisymm (hminz y hy) (hmin z hz)
        rw [hzy] at hrest
        by_contra hne
        obtain ⟨hle, hless⟩ := hrest w hw hne
        rcases (hturn hw).mp ht with hlt | ⟨ho, ha, hname⟩
        · omega
        · obtain ⟨v, hv, hva, hlt⟩ := hless ho ha
          exact not_le_of_gt hlt (hname v hv hva)
  · -- every ticket is at the last rank, and everybody has its turn
    have hall : ∀ w ∈ lane, w.isTurn entries now = true := by
      intro w hw
      refine (isTurn_lane_iff hl hw hn).mpr (.inl fun v hv => ?_)
      have := hmin v hv
      rw [wallRank, agedRank, hlane.priority v hv]
      change min (_ + v.ticket.age now) 255 = 255
      omega
    constructor
    · exact fun hfifo => .inl fun w hw => hfifo w hw (hall w hw)
    · rintro (hsingle | ⟨z, hz, hminz, hz255, -⟩) w hw -
      · exact hsingle w hw
      · have := hmin z hz
        omega

/-- Two tickets of one second, two and a half seconds on. -/
theorem is_my_turn_fifo_same_second :
    let first := waiterAt .normal 10000000000 1 0 (by decide)
    let second := waiterAt .normal 10200000000 2 0 (by decide)
    first.isTurn (ticketFiles [first.ticket, second.ticket]) 12500000000 = true ∧
      ∀ w ∈ [first, second], w.isTurn (ticketFiles [first.ticket, second.ticket]) 12500000000 = true →
        w.ticket = first.ticket :=
  ⟨by decide +kernel, (is_my_turn_fifo_iff (waiterAt .normal 10000000000 1 0 (by decide))
    [waiterAt .normal 10000000000 1 0 (by decide), waiterAt .normal 10200000000 2 0 (by decide)]
    ⟨by simp, by decide, by decide⟩ (fun _ => Iff.rfl) (by decide)).mpr (by decide +kernel)⟩

/-- When the second ticket is created it has the turn, and the first one does not. -/
theorem is_my_turn_second_before_first :
    let first := waiterAt .normal 10000000000 1 0 (by decide)
    let second := waiterAt .normal 11000000000 1 1 (by decide)
    let entries := ticketFiles [first.ticket, second.ticket]
    first.stamp < second.stamp ∧ first.isTurn entries second.enqueuedAt = false ∧
      second.isTurn entries second.enqueuedAt = true := by
  decide +kernel

end Lane

/-! ## Orphans -/

/-- With the priorities `o` and `p` of the orphan and the waiter, `d` is the number of seconds, modulo 256, from the
orphan's second to the one in which the waiter enqueued, and `δ` that from the second in the waiter's own ticket. -/
def PassesOrphan (orphan : Ticket) (w : Waiter) : Prop :=
  let o := orphan.priority.asU8
  let p := w.ticket.priority.asU8
  let d := ((asSecs w.enqueuedAt : Int) - orphan.secs) % 256
  let δ := ((asSecs w.enqueuedAt : Int) - w.ticket.secs) % 256
  p < o + d ∨ δ ≤ o + d ∨ 256 + d ≤ p + δ ∨ (p = o + d ∧ w.enqueuedAt % 1000000000 ≠ 0)
deriving Decidable

theorem isTurn_orphan_iff (hl : Lists entries [orphan, w.ticket]) (hn : asSecs now ≤ clockLimit) :
    w.isTurn entries now = true ↔ (orphan.wallRank now = 255 ∧ w.ticket.wallRank now = 255) ∨
      (w.ownRank now < orphan.wallRank now ∧ w.ownRank now < w.ticket.wallRank now) ∨
      (w.ticket.wallRank now = w.ownRank now ∧ (w.ownRank now < orphan.wallRank now ∨
        (orphan.wallRank now = w.ownRank now ∧ w.ticket.name ≤ orphan.name))) := by
  rw [isTurn_iff hl (by simp) (fun t _ => by omega)]
  simp only [mem_cons, not_mem_nil, or_false, forall_eq_or_imp, forall_eq, le_refl, and_true]
  refine or_congr Iff.rfl (or_congr Iff.rfl (and_congr_right fun heq => and_iff_left ?_))
  exact .inr heq

theorem passesOrphan_of_isTurn (hl : Lists entries [orphan, w.ticket]) {waited : Nat}
    (hn : asSecs (w.enqueuedAt + waited) ≤ clockLimit) (h : w.isTurn entries (w.enqueuedAt + waited) = true) :
    PassesOrphan orphan w := by
  rw [isTurn_orphan_iff hl hn] at h
  have hs : w.ticket.secs ≤ asSecs w.enqueuedAt := by
    rw [w.secs_eq]; exact asSecs_mono w.stamp_le
  simp only [wallRank, ownRank, agedRank, Nat.add_sub_cancel_left] at h
  unfold PassesOrphan
  generalize orphan.priority.asU8 = o at *
  generalize w.ticket.priority.asU8 = p at *
  generalize w.ticket.secs = S at *
  generalize orphan.secs = s at *
  -- the wall clock is ahead of the waiter's own count by its start, and at most by one second more
  have hc : asSecs (w.enqueuedAt + waited) = asSecs w.enqueuedAt + asSecs waited ∨
      (asSecs (w.enqueuedAt + waited) = asSecs w.enqueuedAt + asSecs waited + 1 ∧
        w.enqueuedAt % 1000000000 ≠ 0) := by
    simp only [asSecs]
    omega
  generalize asSecs (w.enqueuedAt + waited) = N at *
  generalize asSecs waited = m at *
  generalize asSecs w.enqueuedAt = E at *
  generalize w.enqueuedAt % 1000000000 = φ at *
  -- both tickets are at the last rank, the waiter is ahead of the orphan, or it is level with its own
  -- ticket and not behind the orphan
  rcases h with hls | ha | ht <;> rcases hc with hN | ⟨hN, hφ⟩ <;> omega

/-- After enough rounds the orphan's second has passed, and the next round is still within the range of the clock. -/
theorem exists_round (orphan : Ticket) (w : Waiter) : ∃ k, orphan.secs ≤ asSecs w.enqueuedAt + 256 * k ∧
      asSecs w.enqueuedAt + 256 * k + 256 ≤ clockLimit := by
  have ho := orphan.inRange
  have hw := w.inRange
  exact ⟨(orphan.secs - asSecs w.enqueuedAt + 255) / 256, by omega, by omega⟩

theorem isTurn_of_passesOrphan (hl : Lists entries [orphan, w.ticket]) (h : PassesOrphan orphan w) :
    ∃ waited, asSecs (w.enqueuedAt + waited) ≤ clockLimit ∧ w.isTurn entries (w.enqueuedAt + waited) = true := by
  obtain ⟨k, hps, hlm⟩ := exists_round orphan w
  have hp := asU8_le w.ticket.priority
  have hs : w.ticket.secs ≤ asSecs w.enqueuedAt := by
    rw [w.secs_eq]; exact asSecs_mono w.stamp_le
  obtain ⟨d, hd⟩ := Int.eq_ofNat_of_zero_le
    (Int.emod_nonneg ((asSecs w.enqueuedAt : Int) - orphan.secs) (by decide : (256 : Int) ≠ 0))
  obtain ⟨δ, hδ⟩ := Int.eq_ofNat_of_zero_le
    (Int.emod_nonneg ((asSecs w.enqueuedAt : Int) - w.ticket.secs) (by decide : (256 : Int) ≠ 0))
  -- whole seconds of the wall clock `j` seconds into the round
  have hc : ∀ j, asSecs (w.enqueuedAt + fromSecs (256 * k + j)) = asSecs w.enqueuedAt + 256 * k + j := by
    intro j; simp only [asSecs, fromSecs]; omega
  by_cases hst : w.ticket.priority.asU8 < orphan.priority.asU8 + d
  · -- at the start of the round the waiter's rank is its priority, and the orphan's is worse
    have hle : asSecs (w.enqueuedAt + fromSecs (256 * k + 0)) ≤ clockLimit := by
      rw [hc]; omega
    refine ⟨_, hle, (isTurn_orphan_iff hl hle).mpr ?_⟩
    simp only [wallRank, ownRank, agedRank, Nat.add_sub_cancel_left, asSecs_fromSecs, hc]
    omega
  · rcases h with h | h | h | ⟨h, hφ⟩
    · omega
    · -- both tickets are at the last rank just before the older one of them wraps
      have hle : asSecs (w.enqueuedAt + fromSecs (256 * k + (255 - max d δ))) ≤ clockLimit := by
        rw [hc]; omega
      refine ⟨_, hle, (isTurn_orphan_iff hl hle).mpr (.inl ?_)⟩
      simp only [wallRank, agedRank, hc]
      omega
    · -- the waiter's own ticket has wrapped once more and is at the last rank with the orphan's
      have hle : asSecs (w.enqueuedAt + fromSecs (256 * k + (255 - d))) ≤ clockLimit := by
        rw [hc]; omega
      refine ⟨_, hle, (isTurn_orphan_iff hl hle).mpr (.inl ?_)⟩
      simp only [wallRank, agedRank, hc]
      omega
    · -- the wall clock is one second ahead of the waiter's own count
      have hn : asSecs (w.enqueuedAt + (fromSecs (256 * k) + (1000000000 - w.enqueuedAt % 1000000000))) =
          asSecs w.enqueuedAt + 256 * k + 1 := by
        simp only [asSecs, fromSecs]; omega
      have hcn : asSecs (fromSecs (256 * k) + (1000000000 - w.enqueuedAt % 1000000000)) = 256 * k := by
        simp only [asSecs, fromSecs]; omega
      have hle := hn.trans_le (show _ ≤ clockLimit by omega)
      refine ⟨_, hle, (isTurn_orphan_iff hl hle).mpr ?_⟩
      simp only [wallRank, ownRank, agedRank, Nat.add_sub_cancel_left, hcn, hn]
      omega

/-- **Passing an orphan.** A live waiter has its turn at some time exactly in these constellations. -/
theorem is_my_turn_passes_orphan_iff (orphan : Ticket) (w : Waiter) (entries : List WaitingEntry)
    (hl : Lists entries [orphan, w.ticket]) :
    (∃ waited, asSecs (w.enqueuedAt + waited) ≤ clockLimit ∧
      w.isTurn entries (w.enqueuedAt + waited) = true) ↔ PassesOrphan orphan w := by
  constructor
  · rintro ⟨waited, hn, ht⟩
    exact passesOrphan_of_isTurn hl hn ht
  · exact isTurn_of_passesOrphan hl

/-- The ticket of a killed process. -/
def freshOrphan : Ticket := { priority := .critical, secs := 11, pid := 1, seq := 0, inRange := by decide }

theorem is_my_turn_passes_old_orphan :
    ∃ waited, asSecs ((waiterAt .normal 14000000000 2 0 (by decide)).enqueuedAt + waited) ≤ clockLimit ∧
      (waiterAt .normal 14000000000 2 0 (by decide)).isTurn
        (ticketFiles [freshOrphan, (waiterAt .normal 14000000000 2 0 (by decide)).ticket])
        ((waiterAt .normal 14000000000 2 0 (by decide)).enqueuedAt + waited) = true :=
  (is_my_turn_passes_orphan_iff freshOrphan (waiterAt .normal 14000000000 2 0 (by decide)) _
    (fun _ => Iff.rfl)).mpr (by decide)

theorem is_my_turn_starved_by_orphan : ¬ ∃ waited, asSecs (lateWaiter.enqueuedAt + waited) ≤ clockLimit ∧
      lateWaiter.isTurn (ticketFiles [freshOrphan, lateWaiter.ticket])
        (lateWaiter.enqueuedAt + waited) = true := by
  rintro ⟨waited, hn, ht⟩
  have hp : PassesOrphan freshOrphan lateWaiter := passesOrphan_of_isTurn (fun _ => Iff.rfl) hn ht
  exact absurd hp (by decide)

end ShareCli.Ipc
