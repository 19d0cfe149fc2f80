import ShareCli.Teamcomm.Listener
import Mathlib.Tactic.Ring

/-!
# What the listener keeps in memory

The handles of connections that have ended stay in `inflight`, and a line is compared with `MAX_LINE_BYTES` only
after all of it has been read.
-/

namespace ShareCli.Teamcomm

open Foundation Option List

namespace Connections

variable {parse : List Char → ParsedLine} {s s' : Connections} {ev : ConnEvent}

def endedCount (s : Connections) : Nat := s.inflight.countP isNone

/-- Lines are at most half as long as the limit. -/
def lineFits (s : Connections) : ConnEvent → Bool
  | .read index chunk =>
    (s.task index).all fun task => decide (2 * (task.line.bytes.length + chunk.length) ≤ maxLineBytes)
  | _ => true

def ends (parse : List Char → ParsedLine) (s : Connections) (ev : ConnEvent) : Bool :=
  ev != .shutdown && (s.step parse ev).any fun s' => decide (s'.openCount < s.openCount)

/-- Lines fit, and at most `limit` connections end before the listener does. -/
def Modest (parse : List Char → ParsedLine) (limit : Nat) (s : Connections) (ev : ConnEvent) : Prop :=
  s.lineFits ev = true ∧ (s.ends parse ev = true → s.endedCount < limit)
deriving Decidable

theorem step_cases (h : s.step parse ev = some s') :
    (ev = .accept ∧ s' = { s with inflight := s.inflight ++ [some {}] }) ∨
      (ev = .shutdown ∧ s' = { running := false }) ∨
      ∃ index task next, ev ≠ .shutdown ∧ (∀ i c, ev = .read i c → i = index) ∧
        s.inflight[index]? = some (some task) ∧ taskStep parse task ev = some next ∧
        s' = s.setTask index next := by
  have ht : ∀ index, (s.task index).bind (fun task => (taskStep parse task ev).map (s.setTask index)) =
      some s' → ∃ task next, s.inflight[index]? = some (some task) ∧ taskStep parse task ev = some next ∧
        s' = s.setTask index next := by
    intro index hb
    obtain ⟨task, ht, hm⟩ := bind_eq_some_iff.mp hb
    obtain ⟨next, hnext, rfl⟩ := map_eq_some_iff.mp hm
    exact ⟨task, next, join_eq_some_iff.mp ht, hnext, rfl⟩
  cases ev with
  | accept =>
    simp only [step, ite_none_right_eq_some, some.injEq] at h
    exact .inl ⟨rfl, h.2.symm⟩
  | shutdown =>
    simp only [step, ite_none_right_eq_some, some.injEq] at h
    exact .inr (.inl ⟨rfl, h.2.symm⟩)
  | read index c =>
    obtain ⟨task, next, hstep⟩ := ht index h
    refine .inr (.inr ⟨index, task, next, nofun, ?_, hstep⟩)
    rintro i c' ⟨⟩
    rfl
  | eof index | close index | answered index ok =>
    obtain ⟨task, next, hstep⟩ := ht index h
    exact .inr (.inr ⟨index, task, next, nofun, nofun, hstep⟩)

theorem counts_setTask {index : Nat} {t : ConnTask} (h : s.inflight[index]? = some (some t)) :
    (∀ next, (s.setTask index (some next)).endedCount = s.endedCount) ∧
      (s.setTask index none).endedCount = s.endedCount + 1 ∧
      (s.setTask index none).openCount < s.openCount := by
  obtain ⟨hlt, hg⟩ := List.getElem?_eq_some_iff.mp h
  have hm : some t ∈ s.inflight := hg ▸ getElem_mem hlt
  have hp : 0 < s.inflight.countP isSome := countP_pos_iff.mpr ⟨_, hm, rfl⟩
  simp only [setTask, endedCount, openCount, countP_set hlt, hg]
  refine ⟨fun _ => ?_, ?_, ?_⟩
  · simp
  · simp
  · simp only [isSome_some, isSome_none, Bool.false_eq_true, if_true, if_false]
    omega

end Connections

/-- The buffer of a task has not grown beyond the limit. -/
def ConnTask.Fits (task : ConnTask) : Prop := task.line.capacity ≤ maxLineBytes

theorem capacity_push {buf : LineBuffer} {c : List UInt8} (h : buf.capacity ≤ maxLineBytes)
    (hl : 2 * (buf.bytes.length + c.length) ≤ maxLineBytes) :
    (buf.push c).capacity ≤ maxLineBytes := by
  have hmin : 8 ≤ maxLineBytes := by decide
  simp only [LineBuffer.push, growCapacity]
  split <;> omega

theorem fits_endLine {parse : List Char → ParsedLine} {buf : LineBuffer} {next : ConnTask}
    (hl : buf.capacity ≤ maxLineBytes) (h : endLine parse buf = some next) : next.Fits := by
  unfold endLine at h
  split at h
  · cases h
  · cases h
    exact hl
  · cases h
    exact hl

namespace Connections

variable {parse : List Char → ParsedLine} {s s' : Connections} {ev : ConnEvent}

theorem fits_taskStep {t next : ConnTask} (h : t.Fits) (hl : ∀ index c, ev = .read index c →
      2 * (t.line.bytes.length + c.length) ≤ maxLineBytes)
    (hstep : taskStep parse t ev = some (some next)) : next.Fits := by
  cases ev with
  | accept => cases hstep
  | shutdown => cases hstep
  | read index c =>
    simp only [taskStep, ite_none_right_eq_some] at hstep
    have hp := capacity_push h (hl index c rfl)
    obtain ⟨-, hstep⟩ := hstep
    split at hstep
    · exact fits_endLine hp (some.inj hstep)
    · obtain rfl := some.inj (some.inj hstep)
      exact hp
  | eof index =>
    simp only [taskStep, ite_none_right_eq_some] at hstep
    obtain ⟨-, hstep⟩ := hstep
    split at hstep
    · cases hstep
    · exact fits_endLine h (some.inj hstep)
  | close index => simp [taskStep] at hstep
  | answered index ok =>
    simp only [taskStep, ite_none_right_eq_some] at hstep
    obtain ⟨-, hstep⟩ := hstep
    cases ok with
    | false => cases hstep
    | true =>
      obtain rfl := some.inj (some.inj hstep)
      exact h

structure Within (limit : Nat) (s : Connections) : Prop where
  ended : s.endedCount ≤ limit
  fits : ∀ task, some task ∈ s.inflight → task.Fits

theorem Within.step {lim : Nat} (h : s.Within lim) (hm : s.Modest parse lim ev)
    (hstep : s.step parse ev = some s') : s'.Within lim := by
  rcases step_cases hstep with ⟨rfl, rfl⟩ | ⟨rfl, rfl⟩ | ⟨index, task, next, hg, hi, hgt, hnext, rfl⟩
  · refine ⟨?_, fun task hme => ?_⟩
    · simpa [endedCount, countP_append] using h.ended
    · rcases mem_append.mp hme with hme | hme
      · exact h.fits task hme
      · obtain rfl : task = {} := by simpa using hme
        exact Nat.zero_le _
  · exact ⟨Nat.zero_le _, fun task hme => absurd hme not_mem_nil⟩
  · obtain ⟨hgo, hr, hf⟩ := counts_setTask hgt
    have hft : task.Fits := h.fits task (mem_of_getElem? hgt)
    have hl : ∀ i c, ev = .read i c → 2 * (task.line.bytes.length + c.length) ≤ maxLineBytes := by
      rintro i c rfl
      obtain rfl := hi i c rfl
      have hft := hm.1
      simpa [lineFits, Connections.task, hgt] using hft
    refine ⟨?_, fun t' hme => ?_⟩
    · cases next with
      | some next => exact (hgo next).trans_le h.ended
      | none =>
        have he : s.ends parse ev = true := by simp [ends, hg, hstep, hf]
        have hlt := hm.2 he
        omega
    · rcases mem_or_eq_of_mem_set hme with hme | rfl
      · exact h.fits t' hme
      · exact fits_taskStep hft hl hnext

theorem retained_le_of_fits (sizes : Sizes) (h : ∀ t, some t ∈ s.inflight → t.Fits) :
    s.retained sizes ≤ sizes.handle * s.inflight.length + s.openCount * (sizes.task + maxLineBytes) := by
  unfold retained openCount
  generalize s.inflight = inflight at h
  induction inflight with
  | nil => exact Nat.zero_le _
  | cons first rs ih =>
    have hrest := ih fun t hm => h t (mem_cons_of_mem _ hm)
    rw [map_cons, sum_cons, length_cons, countP_cons, Nat.mul_succ]
    cases first with
    | none =>
      simp only [map_none, getD_none, isSome_none, Bool.false_eq_true, if_false, Nat.add_zero]
      omega
    | some t =>
      have hc : t.line.capacity ≤ maxLineBytes := h t mem_cons_self
      simp only [map_some, getD_some, isSome_some, if_true, Nat.succ_mul]
      omega

theorem length_eq_counts (s : Connections) : s.inflight.length = s.openCount + s.endedCount := by
  rw [length_eq_countP_add_countP isSome, openCount, endedCount]
  congr 1
  exact countP_congr fun t _ => by cases t <;> simp

end Connections

/-- With modest clients the listener keeps at most a constant, and for each open connection at most `MAX_LINE_BYTES`
and another constant. -/
theorem retained_bounded (parse : List Char → ParsedLine) (sizes : Sizes) (limit : Nat) (s : Connections)
    (h : (connectionTasks parse).ReachableWhen (Connections.Modest parse limit) s) :
    s.retained sizes ≤ sizes.handle * limit + s.openCount * (maxLineBytes + (sizes.task + sizes.handle)) := by
  have hw : s.Within limit := by
    refine Machine.invariantWhen (M := connectionTasks parse) ?_ ?_ h
    · exact ⟨Nat.zero_le _, fun task hme => absurd hme not_mem_nil⟩
    · intro s ev s' hs hm hstep
      exact hs.step hm hstep
  calc s.retained sizes
      ≤ sizes.handle * s.inflight.length + s.openCount * (sizes.task + maxLineBytes) :=
        Connections.retained_le_of_fits sizes hw.fits
    _ = sizes.handle * s.endedCount + s.openCount * (maxLineBytes + (sizes.task + sizes.handle)) := by
        rw [s.length_eq_counts]
        ring
    _ ≤ sizes.handle * limit + s.openCount * (maxLineBytes + (sizes.task + sizes.handle)) :=
        Nat.add_le_add_right (Nat.mul_le_mul_left _ hw.ended) _

theorem retained_after_one_end : ∃ s,
    (connectionTasks fun _ => .malformed).ReachableWhen (Connections.Modest (fun _ => .malformed) 1) s ∧
      s.endedCount = 1 ∧ s.openCount = 1 ∧
      s.retained ⟨8, bufReaderBytes, by decide⟩ ≤ 8 * 1 + 1 * (maxLineBytes + (bufReaderBytes + 8)) := by
  obtain ⟨s, hm, he, ho⟩ : ∃ s, (connectionTasks fun _ => .malformed).ReachableWhen
      (Connections.Modest (fun _ => .malformed) 1) s ∧ s.endedCount = 1 ∧ s.openCount = 1 :=
    Machine.exists_reachable [.accept, .read 0 [91, 34], .close 0, .accept, .read 1 [123]] (by decide +kernel)
  have hb := retained_bounded (fun _ => .malformed) ⟨8, bufReaderBytes, by decide⟩ 1 s hm
  rw [ho] at hb
  exact ⟨s, hm, he, ho, hb⟩

/-- Any number of connections come one after the other and end. -/
theorem reachable_ended (parse : List Char → ParsedLine) (n : Nat) :
    (connectionTasks parse).Reachable { inflight := replicate n none } := by
  induction n with
  | zero => exact .init
  | succ n ih =>
    have ha : (connectionTasks parse).Reachable { inflight := replicate n none ++ [some {}] } :=
      ih.step (l := .accept) trivial rfl
    refine ha.step (l := .close n) trivial ?_
    simp [connectionTasks, Connections.step, Connections.task, Connections.taskStep, Connections.setTask,
      replicate_succ']

theorem reachable_longLine (parse : List Char → ParsedLine) (n : Nat) :
    ∃ buf : LineBuffer, buf.bytes = replicate n 97 ∧ n ≤ buf.capacity ∧
      (connectionTasks parse).Reachable { inflight := [some { line := buf }] } := by
  induction n with
  | zero => exact ⟨{}, rfl, Nat.zero_le _, Machine.ReachableWhen.step .init (l := .accept) trivial rfl⟩
  | succ n ih =>
    obtain ⟨buf, hb, hc, hr⟩ := ih
    refine ⟨buf.push [97], ?_, ?_, hr.step (l := .read 0 [97]) trivial rfl⟩
    · simp [LineBuffer.push, hb, replicate_succ']
    · simp only [LineBuffer.push, growCapacity, hb, length_replicate, length_singleton]
      split <;> omega

/-- No constants bound what is kept: neither with no connection open, nor with one and no other before it. -/
theorem retention_unbounded :
    (¬ ∃ parse sizes c d, ∀ s, (connectionTasks parse).Reachable s → s.openCount = 0 →
        s.retained sizes ≤ c + s.openCount * (maxLineBytes + d)) ∧
      ¬ ∃ parse sizes c d, ∀ s, (connectionTasks parse).Reachable s → s.openCount = 1 → s.endedCount = 0 →
        s.retained sizes ≤ c + s.openCount * (maxLineBytes + d) := by
  constructor
  · rintro ⟨parse, sizes, c, d, hb⟩
    have ho : ({ inflight := replicate (c + 1) none } : Connections).openCount = 0 := by
      simp [Connections.openCount]
    have hle := hb _ (reachable_ended parse (c + 1)) ho
    rw [ho] at hle
    simp only [Connections.retained, map_replicate, sum_replicate_nat, map_none,
      getD_none, Nat.add_zero, Nat.zero_mul] at hle
    have hm : c + 1 ≤ (c + 1) * sizes.handle := Nat.le_mul_of_pos_right _ sizes.handle_pos
    omega
  · rintro ⟨parse, sizes, c, d, hb⟩
    obtain ⟨buf, -, hc, hr⟩ := reachable_longLine parse (c + maxLineBytes + d)
    have hle := hb _ hr rfl rfl
    have hrt : Connections.retained { inflight := [some { line := buf }] } sizes =
        sizes.handle + (sizes.task + buf.capacity) := by simp [Connections.retained]
    have ho : Connections.openCount { inflight := [some { line := buf }] } = 1 := rfl
    have hp := sizes.handle_pos
    rw [hrt, ho] at hle
    omega

end ShareCli.Teamcomm
