import ShareCli.Mesh.Proofs.RefinementProofs

/-!
# Whose task it is

The owner in the file of a task in flight is the one its latest claim was made by, as long as a claim
without an owner takes no task that still has one.
-/

namespace ShareCli.Mesh

open Foundation TaskPool Option Function

variable {β : Type}

/-- The trace has the latest operation first. -/
def lastClaim (taskId : String) : List (TaskOp × TaskResult) → Option (Option String)
  | [] => none
  | (.claim owner, .ok (.claimed (some task))) :: trace =>
    if task.id = taskId then some owner else lastClaim taskId trace
  | _ :: trace => lastClaim taskId trace

/-- A claim without an owner is made only when the tasks it can take have no owner. -/
def TakesOwnerless (queue : MaildirQueue) (format : EnvelopeFormat β) (fs : FileSystem β) : TaskOp → Prop
  | .claim none => ∀ task ∈ pendingTasks queue format fs,
      (∀ other ∈ pendingTasks queue format fs, task.before other) → task.owner = none
  | _ => True

instance (queue : MaildirQueue) (format : EnvelopeFormat β) (fs : FileSystem β) (op : TaskOp) :
    Decidable (TakesOwnerless queue format fs op) :=
  match op with
  | .claim none => inferInstanceAs (Decidable (∀ task ∈ pendingTasks queue format fs,
      (∀ other ∈ pendingTasks queue format fs, task.before other) → task.owner = none))
  | .claim (some _) => .isTrue trivial
  | .enqueue .. | .ack _ | .nack _ | .reclaimOwner _ | .listPending | .status => .isTrue trivial

def Attributed (trace : List (TaskOp × TaskResult)) (pool : TaskPool) : Prop :=
  ∀ taskId task, pool.inFlight taskId = some task → lastClaim taskId trace = some task.owner

theorem Attributed.step {t : List (TaskOp × TaskResult)} {reread : TaskEnvelope → TaskEnvelope}
    {bump : Nat → Nat} {p p' : TaskPool} {op : TaskOp} {r : TaskResult}
    (h : Attributed t p) (hstep : p.Step reread bump op r p')
    (hr : ∀ task a w, p.pending task.id = some task →
      (reread { task with attempts := a, owner := w }).owner = w)
    (ho : op = .claim none → ∀ task, p.pending task.id = some task →
      (∀ tid o, p.pending tid = some o → task.before o) → task.owner = none) :
    Attributed ((op, r) :: t) p' := by
  cases hstep with
  | enqueue => exact h
  | claimNothing => exact h
  | @claim w ta a hp hm _ =>
    intro tid task ht
    rw [lastClaim]
    by_cases heq : ta.id = tid
    · -- the task is stored with the owner that the claim was made with
      subst heq
      rw [if_pos rfl]
      simp only [take, update_self, some.injEq] at ht
      rw [← ht, hr ta a _ hp]
      cases w with
      | none =>
        rw [none_or, ho rfl ta hp hm]
      | some w => rw [some_or]
    · rw [if_neg heq]
      simp only [take, update_of_ne (Ne.symm heq)] at ht
      exact h tid task ht
  | @ack ai _ _ =>
    intro tid task ht
    by_cases heq : tid = ai
    · simp [remove, heq] at ht
    · simp only [remove, update_of_ne heq] at ht
      exact h tid task ht
  | ackUnknown => exact h
  | @nack ni _ _ =>
    intro tid task ht
    by_cases heq : tid = ni
    · simp [putBack, heq] at ht
    · simp only [putBack, update_of_ne heq] at ht
      exact h tid task ht
  | nackUnknown => exact h
  | @reclaim w _ _ =>
    intro tid task ht
    simp only [reclaim] at ht
    split at ht
    next => cases ht
    next => exact h tid task ht
  | listPending => exact h
  | status => exact h

section Runs

variable [FileContents β] {queue : MaildirQueue} {format : EnvelopeFormat β} {s s' : SequentialState β}
  {op : TaskOp} {listings : List (List DirEntry)}

theorem Ordered.attributed_step (hf : format.Lawful) (h : Ordered queue format s)
    (ha : Attributed s.trace (poolOf queue format s.fs)) (hp : op.IsProper)
    (ho : TakesOwnerless queue format s.fs op)
    (hstep : (sequentialMachine queue format).step s (op, listings) = some s') :
    Attributed s'.trace (poolOf queue format s'.fs) := by
  obtain ⟨-, result, ht, hpl⟩ := h.step hf hp hstep
  have hl := h.tidy.lists (.inl rfl) (List.Perm.refl (s.fs.entries queue.new))
  rw [ht]
  refine ha.step hpl ?_ ?_
  · intro task a w hpn
    obtain ⟨i, -, hr, -⟩ := h.tidy.exists_file (.inl rfl) hpn
    have hn : task.payload.nesting ≤ payloadLimit := hf.shallow _ task hr
    obtain ⟨-, -, -, -, how⟩ := hf.fromStr_toVecPretty { task with attempts := a, owner := w } hn
    exact how
  · rintro rfl task hpn hm
    refine ho task ((hl.mem_iff _ task).mp hpn).1 ?_
    intro o hot
    exact hm o.id o ((hl.mem_iff o.id o).mpr ⟨hot, rfl⟩)

/-- **Ownership.** `reclaim_owner` puts back the tasks in flight whose latest claim was made by the owner, and
changes nothing for any other task. -/
theorem reclaim_takes_own_tasks (hformat : format.Lawful) (h : (sequentialMachine queue format).ReachableWhen
      (fun s label => label.1.IsProper ∧ TakesOwnerless queue format s.fs label.1) s)
    (owner : String) :
    (∃ listings s', (sequentialMachine queue format).step s (.reclaimOwner owner, listings) = some s') ∧
      ∀ listings s', (sequentialMachine queue format).step s (.reclaimOwner owner, listings) = some s' →
        ∀ taskId, ((poolOf queue format s.fs).inFlight taskId ≠ none ∧
              lastClaim taskId s.trace = some (some owner) →
            (poolOf queue format s'.fs).pending taskId = (poolOf queue format s.fs).inFlight taskId ∧
              (poolOf queue format s'.fs).inFlight taskId = none) ∧
          (¬ ((poolOf queue format s.fs).inFlight taskId ≠ none ∧
              lastClaim taskId s.trace = some (some owner)) →
            (poolOf queue format s'.fs).pending taskId = (poolOf queue format s.fs).pending taskId ∧
              (poolOf queue format s'.fs).inFlight taskId = (poolOf queue format s.fs).inFlight taskId) := by
  have hi : Ordered queue format s ∧ Attributed s.trace (poolOf queue format s.fs) := by
    refine Machine.invariantWhen ⟨ordered_init, ?_⟩ ?_ h
    · change Attributed [] (poolOf queue format (queue.openIn .empty))
      rw [poolOf_openIn]
      intro taskId task ht
      cases ht
    · rintro s ⟨op, listings⟩ s' ⟨ho, ha⟩ ⟨hp, how⟩ hstep
      exact ⟨(ho.step hformat hp hstep).1, ho.attributed_step hformat ha hp how hstep⟩
  obtain ⟨ho, ha⟩ := hi
  refine ⟨exists_step s (.reclaimOwner owner) rfl, ?_⟩
  intro listings s' hstep taskId
  obtain ⟨-, result, -, hpl⟩ := ho.step hformat ⟨rfl, rfl⟩ hstep
  -- a task is owned in the files exactly when the latest claim of it was made by the owner
  have hon : (poolOf queue format s.fs).isOwned owner taskId = true ↔
      (poolOf queue format s.fs).inFlight taskId ≠ none ∧ lastClaim taskId s.trace = some (some owner) := by
    rw [isOwned_iff]
    constructor
    · rintro ⟨task, ht, hor⟩
      rw [ha taskId task ht, ht, hor]
      exact ⟨by simp, rfl⟩
    · rintro ⟨hs, hl⟩
      obtain ⟨task, ht⟩ := ne_none_iff_exists'.mp hs
      rw [ha taskId task ht, some.injEq] at hl
      exact ⟨task, ht, hl⟩
  rw [← hon]
  generalize poolOf queue format s'.fs = pool' at hpl
  cases hpl with
  | reclaim =>
    refine ⟨?_, ?_⟩
    · intro ho1
      simp [reclaim, ho1]
    · intro hn
      simp [reclaim, hn]

end Runs

theorem reclaim_takes_own_tasks_claim :
    ∃ s listings s', (sequentialMachine exampleQueue directFormat).ReachableWhen
        (fun s label => label.1.IsProper ∧ TakesOwnerless exampleQueue directFormat s.fs label.1) s ∧
      lastClaim "t" s.trace = some (some "a") ∧
      (sequentialMachine exampleQueue directFormat).step s (.reclaimOwner "a", listings) = some s' ∧
      (poolOf exampleQueue directFormat s'.fs).inFlight "t" = none := by
  obtain ⟨s, hrn, hs, hl⟩ : ∃ s, (sequentialMachine exampleQueue directFormat).ReachableWhen
          (fun s label => label.1.IsProper ∧ TakesOwnerless exampleQueue directFormat s.fs label.1) s ∧
        ((poolOf exampleQueue directFormat s.fs).inFlight "t").isSome = true ∧
        lastClaim "t" s.trace = some (some "a") :=
    Machine.exists_reachable
      [(.enqueue "t" 5 .null 3, []), (.claim (some "a"), [[⟨"t".toList, true⟩]])] (by decide +kernel)
  obtain ⟨⟨listings, s', hstep⟩, ha⟩ := reclaim_takes_own_tasks directFormat_lawful hrn "a"
  have hr := (ha listings s' hstep "t").1 ⟨isSome_iff_ne_none.mp hs, hl⟩
  exact ⟨s, listings, s', hrn, hl, hstep, hr.2⟩

/-- A task is claimed by `a`, returned, and claimed again without an owner. -/
theorem reclaim_takes_task_of_another : directFormat.Lawful ∧ ∃ s listings s',
      (sequentialMachine exampleQueue directFormat).ReachableWhen (fun _ label => label.1.IsProper) s ∧
      lastClaim "t" s.trace = some none ∧
      (sequentialMachine exampleQueue directFormat).step s (.reclaimOwner "a", listings) = some s' ∧
      ((poolOf exampleQueue directFormat s.fs).inFlight "t").isSome = true ∧
      (poolOf exampleQueue directFormat s'.fs).inFlight "t" = none := by
  obtain ⟨s, hrn, hl, hs, s', hstep, hn⟩ :
      ∃ s, (sequentialMachine exampleQueue directFormat).ReachableWhen (fun _ label => label.1.IsProper) s ∧
        lastClaim "t" s.trace = some none ∧
        ((poolOf exampleQueue directFormat s.fs).inFlight "t").isSome = true ∧
        ∃ s' ∈ (sequentialMachine exampleQueue directFormat).step s
          (.reclaimOwner "a", [[⟨"t".toList, true⟩]]),
          ((poolOf exampleQueue directFormat s'.fs).inFlight "t").isNone = true :=
    Machine.exists_reachable
      [(.enqueue "t" 5 .null 3, []), (.claim (some "a"), [[⟨"t".toList, true⟩]]), (.nack "t", []),
        (.claim none, [[⟨"t".toList, true⟩]])] (by decide +kernel)
  exact ⟨directFormat_lawful, s, _, s', hrn, hl, hstep, hs, isNone_iff_eq_none.mp hn⟩

end ShareCli.Mesh
