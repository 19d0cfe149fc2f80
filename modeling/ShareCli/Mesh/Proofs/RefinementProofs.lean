import ShareCli.Mesh.Proofs.OperationProofs

/-!
# The queue refines the pool

One operation after the other: whatever they return, the pool can return, as long as ids are plain, payloads can
be read again, and no task has been claimed so often that its count stands still.
-/

namespace ShareCli.Mesh

open Foundation TaskPool List Option

variable {β : Type}

def pendingTasks (queue : MaildirQueue) (format : EnvelopeFormat β) (fs : FileSystem β) : List TaskEnvelope :=
  (fs.entries queue.new).filterMap (entryEnvelope format fs queue.new)

def HasRoom (queue : MaildirQueue) (format : EnvelopeFormat β) (fs : FileSystem β) : TaskOp → Prop
  | .claim _ => ∀ task ∈ pendingTasks queue format fs, task.attempts.toNat < 2 ^ 32 - 1
  | _ => True

instance (queue : MaildirQueue) (format : EnvelopeFormat β) (fs : FileSystem β) (op : TaskOp) :
    Decidable (HasRoom queue format fs op) :=
  match op with
  | .claim _ => inferInstanceAs (Decidable (∀ task ∈ pendingTasks queue format fs, _ < _))
  | .enqueue .. | .ack _ | .nack _ | .reclaimOwner _ | .listPending | .status => .isTrue trivial

def TaskOp.IsProper (op : TaskOp) : Prop := op.hasPlainId = true ∧ op.hasShallowPayload = true
deriving Decidable

theorem TaskPool.Step.exact {reread : TaskEnvelope → TaskEnvelope} {p p' : TaskPool} {op : TaskOp}
    {r : TaskResult} (hstep : p.Step reread saturatingBump op r p')
    (hr : ∀ owner, op = .claim owner → ∀ t task, p.pending t = some task → task.attempts.toNat < 2 ^ 32 - 1) :
    p.Step reread (· + 1) op r p' := by
  cases hstep with
  | claim hp hm ha =>
    refine .claim hp hm ?_
    have hl := hr _ rfl _ _ hp
    rw [ha, saturatingBump]
    omega
  | enqueue hp hif => exact .enqueue hp hif
  | claimNothing hn => exact .claimNothing hn
  | ack hif => exact .ack hif
  | ackUnknown hif => exact .ackUnknown hif
  | nack hif => exact .nack hif
  | nackUnknown hif => exact .nackUnknown hif
  | reclaim hc => exact .reclaim hc
  | listPending hrd hif => exact .listPending hrd hif
  | status hrd hif hp => exact .status hrd hif hp

section Runs

variable [FileContents β] {queue : MaildirQueue} {format : EnvelopeFormat β} {s s' : SequentialState β}
  {op : TaskOp} {listings : List (List DirEntry)}

structure Ordered (queue : MaildirQueue) (format : EnvelopeFormat β) (s : SequentialState β) : Prop where
  tidy : Tidy queue format s.fs
  issued : ∀ taskId, (poolOf queue format s.fs).Knows taskId → taskId ∈ s.issued

theorem poolOf_openIn (queue : MaildirQueue) (format : EnvelopeFormat β) :
    poolOf queue format (queue.openIn .empty) = .empty := by
  unfold poolOf empty
  congr 1
  · funext taskId
    rw [envelopeIn, queue.file_openIn, bind_none]
  · funext taskId
    rw [envelopeIn, queue.file_openIn, bind_none]

theorem ordered_init : Ordered queue format (sequentialMachine queue format).init := by
  refine ⟨⟨queue.opened_openIn, queue.sole_openIn, ?_⟩, ?_⟩
  · intro d x i _ hf
    change (queue.openIn .empty).file d x = some i at hf
    rw [queue.file_openIn] at hf
    cases hf
  · intro t hk
    change (poolOf queue format (queue.openIn .empty)).Knows t at hk
    rw [poolOf_openIn] at hk
    exact hk.elim (absurd rfl) (absurd rfl)

theorem exec_of_step (hstep : (sequentialMachine queue format).step s (op, listings) = some s') :
    op.isFresh s.issued = true ∧ ∃ result, s'.trace = (op, result) :: s.trace ∧
      (op.program queue format).exec s.fs listings = some (result, s'.fs, []) := by
  simp only [sequentialMachine, ite_none_right_eq_some] at hstep
  obtain ⟨hf, he⟩ := hstep
  split at he
  next result fs hr =>
    cases he
    exact ⟨hf, result, rfl, hr⟩
  next => cases he

theorem Ordered.step (hf : format.Lawful) (h : Ordered queue format s) (hp : op.IsProper)
    (hstep : (sequentialMachine queue format).step s (op, listings) = some s') :
    Ordered queue format s' ∧ ∃ result, s'.trace = (op, result) :: s.trace ∧
      (poolOf queue format s.fs).Step format.reread saturatingBump op result (poolOf queue format s'.fs) := by
  obtain ⟨hfr, result, ht, he⟩ := exec_of_step hstep
  have hnw : ∀ t, op.issues = some t → (poolOf queue format s.fs).pending t = none ∧
        (poolOf queue format s.fs).inFlight t = none := by
    intro t hi
    have hn : t ∉ s.issued := by
      simp only [TaskOp.isFresh, hi, all_some, Bool.and_eq_true] at hfr
      simpa using hfr.2
    have hk : ¬ (poolOf queue format s.fs).Knows t := fun hk =>
      hn (h.issued t hk)
    simpa only [Knows, not_or, not_not] using hk
  obtain ⟨htd, hpl⟩ := program_yields hf h.tidy op hp.1 hp.2 hnw _ _ _ _ he
  refine ⟨⟨htd, ?_⟩, result, ht, hpl⟩
  intro t hk
  rw [SequentialState.issued, ht]
  rcases hpl.knows hk with hi | hold
  · rw [filterMap_cons_some (f := fun e : TaskOp × TaskResult => e.1.issues) hi]
    exact mem_cons_self
  · have hin := h.issued t hold
    rw [filterMap_cons]
    split
    next => exact hin
    next => exact mem_cons_of_mem _ hin

theorem exists_step (s : SequentialState β) (op : TaskOp) (hf : op.isFresh s.issued = true) :
    ∃ listings s', (sequentialMachine queue format).step s (op, listings) = some s' := by
  obtain ⟨listings, result, fs', he⟩ := (op.program queue format).exists_exec s.fs
  refine ⟨listings, { fs := fs', trace := (op, result) :: s.trace }, ?_⟩
  simp only [sequentialMachine, hf, if_true, he]

/-- **Refinement**; and no operation gets stuck. -/
theorem queue_refines_pool (hformat : format.Lawful) (h : (sequentialMachine queue format).ReachableWhen
      (fun s label => label.1.IsProper ∧ HasRoom queue format s.fs label.1) s) :
    TaskPool.Trace format.reread (· + 1) s.trace (poolOf queue format s.fs) ∧
      ∀ op, op.isFresh s.issued = true →
        ∃ listings s', (sequentialMachine queue format).step s (op, listings) = some s' := by
  refine ⟨?_, exists_step s⟩
  have hi : Ordered queue format s ∧
      Trace format.reread (· + 1) s.trace (poolOf queue format s.fs) := by
    refine Machine.invariantWhen ⟨ordered_init, ?_⟩ ?_ h
    · change Trace _ _ [] (poolOf queue format (queue.openIn .empty))
      rw [poolOf_openIn]
      exact .nil
    · rintro s ⟨op, listings⟩ s' ⟨ho, ht⟩ ⟨hp, hr⟩ hstep
      obtain ⟨ho', result, hc, hpl⟩ := ho.step hformat hp hstep
      refine ⟨ho', ?_⟩
      rw [hc]
      refine .cons ht (hpl.exact ?_)
      rintro owner rfl t task hpn
      have hl := ho.tidy.lists (.inl rfl) (Perm.refl (s.fs.entries queue.new))
      exact hr task ((hl.mem_iff t task).mp hpn).1
  exact hi.2

end Runs

theorem queue_refines_pool_claim : ∃ s, (sequentialMachine exampleQueue directFormat).ReachableWhen
        (fun s label => label.1.IsProper ∧ HasRoom exampleQueue directFormat s.fs label.1) s ∧
      s.trace.length = 3 ∧
      TaskPool.Trace directFormat.reread (· + 1) s.trace (poolOf exampleQueue directFormat s.fs) :=
  Machine.exists_reachable_and
    [(.enqueue "t" 5 .null 3, []), (.enqueue "u" 6 .null 1, []),
      (.claim none, [[⟨"t".toList, true⟩, ⟨"u".toList, true⟩]])] (by decide +kernel)
    fun _ hr _ => (queue_refines_pool directFormat_lawful hr).1

/-- `ack` is called with an id that is no task: the path leads to a task that waits in `new`. -/
theorem ack_removes_pending_task :
    directFormat.Lawful ∧ ∃ s, (sequentialMachine exampleQueue directFormat).Reachable s ∧
      s.trace.map Prod.fst = [.ack "../new/t", .enqueue "t" 5 .null 3] ∧
      (poolOf exampleQueue directFormat s.fs).pending "t" = none ∧
      ¬ TaskPool.Trace directFormat.reread (· + 1) s.trace (poolOf exampleQueue directFormat s.fs) := by
  obtain ⟨s, hrn, ht⟩ : ∃ s, (sequentialMachine exampleQueue directFormat).run
      (sequentialMachine exampleQueue directFormat).init
      [(.enqueue "t" 5 .null 3, []), (.ack "../new/t", [])] = some s ∧
      ((poolOf exampleQueue directFormat s.fs).pending "t").isNone := Machine.exists_run (by decide +kernel)
  have hg := isNone_iff_eq_none.mp ht
  have hr := Machine.reachable_of_run hrn
  obtain ⟨s₁, hstep₁, hrest⟩ := bind_eq_some_iff.mp hrn
  obtain ⟨s₂, hstep₂, hl⟩ := bind_eq_some_iff.mp hrest
  obtain rfl : s₂ = s := some.inj hl
  obtain ⟨-, result₁, htr₁, -⟩ := exec_of_step hstep₁
  obtain ⟨-, result₂, htr₂, -⟩ := exec_of_step hstep₂
  have htr : s₂.trace = [(.ack "../new/t", result₂), (.enqueue "t" 5 .null 3, result₁)] := by
    rw [htr₂, htr₁]
    rfl
  refine ⟨directFormat_lawful, s₂, hr, by rw [htr]; rfl, hg, ?_⟩
  -- in the pool the task is still pending
  rw [htr]
  intro hpl
  rcases hpl with _ | ⟨hf, ha⟩
  rcases hf with _ | ⟨hn, he⟩
  cases hn
  cases he
  generalize poolOf exampleQueue directFormat s₂.fs = pool at ha hg
  cases ha with
  | ack hif => cases hif
  | ackUnknown => simp [add] at hg

end ShareCli.Mesh
