import ShareCli.Foundation.Machine
import ShareCli.Foundation.Serde

/-!
# The log buffer and `log.tail` (`crates/sharecli-ipc/src/log_buffer.rs`, `handler.rs`)

The buffer keeps the latest log entries and numbers them. `log.tail` answers with the entries whose id is
greater than the client's `since_id`, as many as the limit allows beginning with the oldest one, and with
the highest id in the buffer.
-/

namespace ShareCli.Ipc

open Foundation

structure LogEntry where
  id : Nat
  ts : Nat
  level : String
  subsystem : String
  msg : String
deriving DecidableEq

/-- The last entries of the log. -/
structure LogBuffer where
  entries : List LogEntry
  nextId : Nat
  lastId : Nat
deriving DecidableEq

namespace LogBuffer

def capacity : Nat := 1000

def new : LogBuffer := { entries := [], nextId := 1, lastId := 0 }

/-- The counter is a `u64` and wraps around. -/
def push (buffer : LogBuffer) (ts : Nat) (level subsystem msg : String) : Nat × LogBuffer :=
  let id := buffer.nextId
  let kept := if buffer.entries.length = capacity then buffer.entries.tail else buffer.entries
  (id, { entries := kept ++ [{ id, ts, level, subsystem, msg }]
         nextId := (buffer.nextId + 1) % 2 ^ 64
         lastId := id })

def tail (buffer : LogBuffer) (sinceId limit : Nat) : List LogEntry × Nat :=
  let cap := min limit capacity
  let out := buffer.entries.filter fun e => sinceId < e.id
  (if cap < out.length then out.take cap else out, buffer.lastId)

end LogBuffer

/-- The answer to a poll. -/
structure LogTailResult where
  lines : List LogEntry
  lastId : Nat
deriving DecidableEq

def logTailLines : Nat := 200

/-- `req.params["since_id"].as_u64().unwrap_or(0)`. -/
def sinceIdOf (params : Value) : Nat := ((params.get "since_id").bind Value.source.unsigned).getD 0

def logTail (buffer : LogBuffer) (params : Value) : LogTailResult :=
  let (lines, lastId) := buffer.tail (sinceIdOf params) logTailLines
  { lines, lastId }

/-- A buffer and a client that resumes at the `last_id` of its previous answer. -/
structure TailState where
  buffer : LogBuffer
  watermark : Option Nat
  received : List LogEntry
  fresh : List LogEntry
  earlier : List LogEntry

def TailState.pushed (s : TailState) : List LogEntry := s.earlier ++ s.fresh

/-- What the client sends: no `since_id` the first time. -/
def pollParams : Option Nat → Value
  | none => .obj []
  | some lastId => .obj [("since_id", .num (.posInt lastId))]

inductive TailLabel where
  | push (ts : Nat) (level subsystem msg : String)
  | poll
deriving DecidableEq

def tailMachine : Machine TailState TailLabel where
  init := { buffer := .new, watermark := none, received := [], fresh := [], earlier := [] }
  step s
    | .push ts level subsystem msg =>
      let (id, buffer) := s.buffer.push ts level subsystem msg
      some { s with buffer, fresh := s.fresh ++ [{ id, ts, level, subsystem, msg }] }
    | .poll =>
      let answer := logTail s.buffer (pollParams s.watermark)
      some { s with watermark := some answer.lastId, received := s.received ++ answer.lines
                    earlier := s.earlier ++ s.fresh, fresh := [] }

open List

/-- At a poll the client receives what has been pushed since the poll before, once and in order. -/
def TailState.Received (s : TailState) : Prop := s.received ++ s.fresh = s.pushed

def PushesBelowCapacity (s : TailState) : TailLabel → Prop
  | .push _ _ _ _ => s.fresh.length + 1 < LogBuffer.capacity
  | .poll => True

def PushesFitAnswer (s : TailState) : TailLabel → Prop
  | .push _ _ _ _ => s.fresh.length < logTailLines ∧ s.buffer.nextId + 1 < 2 ^ 64
  | .poll => True

instance (s : TailState) (l : TailLabel) : Decidable (PushesBelowCapacity s l) := by
  cases l <;> unfold PushesBelowCapacity <;> infer_instance

instance (s : TailState) (l : TailLabel) : Decidable (PushesFitAnswer s l) := by
  cases l <;> unfold PushesFitAnswer <;> infer_instance

structure TailInv (s : TailState) : Prop where
  received : s.received = s.earlier
  fits : s.fresh.length ≤ logTailLines
  nextId : s.buffer.nextId = s.buffer.lastId + 1
  watermark_le : s.watermark.getD 0 ≤ s.buffer.lastId
  fresh_gt : ∀ e ∈ s.fresh, s.watermark.getD 0 < e.id
  ids_le : ∀ e ∈ s.buffer.entries, e.id ≤ s.buffer.lastId
  split : ∃ old, s.buffer.entries = old ++ s.fresh ∧ ∀ e ∈ old, e.id ≤ s.watermark.getD 0

theorem sinceIdOf_pollParams (w : Option Nat) : sinceIdOf (pollParams w) = w.getD 0 := by
  cases w <;> rfl

theorem LogBuffer.tail_of_split {b : LogBuffer} {old f : List LogEntry} {sid lim : Nat}
    (hs : b.entries = old ++ f) (hold : ∀ e ∈ old, e.id ≤ sid)
    (hf : ∀ e ∈ f, sid < e.id) (hl : f.length ≤ lim)
    (hc : f.length ≤ capacity) : b.tail sid lim = (f, b.lastId) := by
  have hn : old.filter (fun e => sid < e.id) = [] := by
    rw [filter_eq_nil_iff]
    intro e he
    simpa using hold e he
  have ha : f.filter (fun e => sid < e.id) = f := by
    rw [filter_eq_self]
    intro e he
    simpa using hf e he
  have hsh : ¬ min lim capacity < f.length := by omega
  simp only [tail, hs, filter_append, hn, ha, nil_append, if_neg hsh]

theorem tailInv_init : TailInv tailMachine.init where
  received := rfl
  fits := Nat.zero_le _
  nextId := rfl
  watermark_le := Nat.le_refl _
  fresh_gt := by simp [tailMachine]
  ids_le := by simp [tailMachine, LogBuffer.new]
  split := ⟨[], rfl, by simp⟩

variable {s : TailState}

theorem TailInv.push (h : TailInv s) (hf : s.fresh.length < logTailLines)
    (hid : s.buffer.nextId + 1 < 2 ^ 64) (ts : Nat) (l subscriber msg : String) :
    TailInv { s with buffer := (s.buffer.push ts l subscriber msg).2
                     fresh := s.fresh ++ [⟨s.buffer.nextId, ts, l, subscriber, msg⟩] } := by
  obtain ⟨old, hs, hold⟩ := h.split
  have hnext := h.nextId
  have hm := h.watermark_le
  -- the entry that is evicted is an old one, because the fresh ones do not fill the buffer
  obtain ⟨kept, hk, hsb⟩ : ∃ kept, (if s.buffer.entries.length = LogBuffer.capacity then s.buffer.entries.tail
        else s.buffer.entries) = kept ++ s.fresh ∧ ∀ e ∈ kept, e ∈ old := by
    split
    · rename_i hfl
      cases old with
      | nil =>
        rw [hs, nil_append] at hfl
        simp only [logTailLines, LogBuffer.capacity] at hf hfl
        omega
      | cons e es =>
        refine ⟨es, by rw [hs]; rfl, ?_⟩
        intro e' he'
        exact mem_cons_of_mem _ he'
    · exact ⟨old, hs, fun _ he => he⟩
  constructor
  · exact h.received
  · rw [length_append]
    exact hf
  · simp only [LogBuffer.push]
    exact Nat.mod_eq_of_lt hid
  · simp only [LogBuffer.push]
    omega
  · intro e he
    rcases mem_append.mp he with he | he
    · exact h.fresh_gt e he
    · rw [mem_singleton.mp he]
      simp only
      omega
  · intro e he
    simp only [LogBuffer.push, hk, append_assoc, mem_append, mem_singleton] at he ⊢
    have hin : ∀ e ∈ old ++ s.fresh, e.id ≤ s.buffer.lastId := by
      rw [← hs]
      exact h.ids_le
    rcases he with he | he | rfl
    · have := hin e (mem_append_left _ (hsb e he))
      omega
    · have := hin e (mem_append_right _ he)
      omega
    · exact Nat.le_refl _
  · refine ⟨kept, ?_, fun e he => hold e (hsb e he)⟩
    simp only [LogBuffer.push, hk, append_assoc]

theorem TailInv.poll (h : TailInv s) : ∃ s', tailMachine.step s .poll = some s' ∧ TailInv s' := by
  obtain ⟨old, hs, hold⟩ := h.split
  have hf := h.fits
  have ht : logTail s.buffer (pollParams s.watermark) = ⟨s.fresh, s.buffer.lastId⟩ := by
    rw [logTail, sinceIdOf_pollParams]
    rw [LogBuffer.tail_of_split hs hold h.fresh_gt hf]
    simp only [logTailLines, LogBuffer.capacity] at hf ⊢
    omega
  refine ⟨_, rfl, ?_⟩
  simp only [ht]
  constructor
  · simp only [h.received]
  · exact Nat.zero_le _
  · exact h.nextId
  · exact Nat.le_refl _
  · simp
  · exact h.ids_le
  · exact ⟨s.buffer.entries, (append_nil _).symm, h.ids_le⟩

theorem tailInv_step {s' : TailState} {l : TailLabel} (h : TailInv s) (hc : PushesFitAnswer s l)
    (hs : tailMachine.step s l = some s') : TailInv s' := by
  cases l with
  | push ts level subscriber msg =>
    obtain rfl := Option.some.inj hs
    exact h.push hc.1 hc.2 ts level subscriber msg
  | poll =>
    obtain ⟨s'', hs'', hi⟩ := h.poll
    obtain rfl := Option.some.inj (hs''.symm.trans hs)
    exact hi

/-- **Resuming**, if no more entries than one answer holds are pushed between two polls. -/
theorem log_tail_resumes {s : TailState} (h : tailMachine.ReachableWhen PushesFitAnswer s) : s.Received := by
  have hi : TailInv s := by
    refine Machine.invariantWhen tailInv_init ?_ h
    intro s l s' hs hc hstep
    exact tailInv_step hs hc hstep
  rw [TailState.Received, TailState.pushed, hi.received]

def pushesThenPoll (n : Nat) : List TailLabel := replicate n (.push 0 "INFO" "ipc" "m") ++ [.poll]

theorem log_tail_resumes_full_answer :
    ∃ s, tailMachine.ReachableWhen PushesFitAnswer s ∧ s.received.length = 200 ∧ s.Received :=
  Machine.exists_reachable_and (pushesThenPoll 200) (by decide +kernel) fun _ hs _ => log_tail_resumes hs

/-- Of 201 entries the poll returns 200, and its `last_id` skips the last one. -/
theorem log_tail_skips_entries :
    ∃ s, tailMachine.ReachableWhen PushesBelowCapacity s ∧ s.watermark = some 201 ∧ ¬ s.Received := by
  obtain ⟨s, hs, hm, hl⟩ : ∃ s, tailMachine.ReachableWhen PushesBelowCapacity s ∧
      s.watermark = some 201 ∧ (s.received ++ s.fresh).length ≠ s.pushed.length :=
    Machine.exists_reachable (pushesThenPoll 201) (by decide +kernel)
  exact ⟨s, hs, hm, fun hr => hl (congrArg length hr)⟩

end ShareCli.Ipc
