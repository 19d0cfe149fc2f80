import ShareCli.Mesh.Proofs.ConservationProofs

/-!
# What a crash leaves

Every file in `new` and `cur` can be read as the task it is named after (`Stored`), but for the file of a claim
that has opened it and not yet written.
-/

namespace ShareCli.Mesh

open Foundation Function Running Option AList FilePath

variable {β : Type}

def EnvelopeFormat.Reads (format : EnvelopeFormat β) (tid : String) (contents : β) : Prop :=
  ∃ env, format.fromStr contents = some env ∧ env.id = tid

structure Stored [FileContents β] (queue : MaildirQueue) (format : EnvelopeFormat β)
    (fs : FileSystem β) (op : TaskOp) (p : Phase) : Prop where
  sole : fs.Sole
  reads : ∀ d tid i, d = queue.new ∨ d = queue.cur → fs.file d tid.toList = some i →
    (∀ tid', p ≠ .reopened tid' i) → format.Reads tid (fs.data i)
  staging : ∀ tid i, op.issues = some tid → p = .staging i →
    fs.file queue.tmp tid.toList = some i ∧ fs.data i = FileContents.empty
  staged : ∀ tid i j, op.issues = some tid → p = .staged i →
    fs.file queue.tmp tid.toList = some j → format.Reads tid (fs.data j)
  reopened : ∀ tid i, p = .reopened tid i →
    fs.file queue.cur tid.toList = some i ∧ fs.data i = FileContents.empty

/-- No file of the operation is open or waits in `tmp`. -/
def Phase.isSettled : Phase → Bool
  | .free | .delivered | .claimed _ => true
  | _ => false

def TaskOp.hasShallowPayload : TaskOp → Bool
  | .enqueue _ _ payload _ => payload.nesting ≤ payloadLimit
  | _ => true

section Stored

variable [FileContents β] {queue : MaildirQueue} {format : EnvelopeFormat β} {op : TaskOp}
  {fs fs' : FileSystem β} {p p' : Phase} {prog : FsProgram β TaskResult} {ch : Choice}
  {enqueued acked : List String} {env : TaskEnvelope} {tid : String} {ino : Nat}

theorem EnvelopeFormat.Lawful.reads_write (hf : format.Lawful) {old : β}
    (he : old = FileContents.empty) (hn : env.payload.nesting ≤ payloadLimit) :
    format.Reads env.id (FileContents.overwrite old (format.toVecPretty env)) := by
  rw [he, FileContents.overwrite_empty]
  obtain ⟨env', hr, hid, -⟩ := hf.readable env hn
  exact ⟨env', hr, hid⟩

theorem Stored.of_settled (hs : fs.Sole) (hp : p.isSettled = true)
    (hr : ∀ d tid i, d = queue.new ∨ d = queue.cur → fs.file d tid.toList = some i →
      format.Reads tid (fs.data i)) : Stored queue format fs op p := by
  refine ⟨hs, fun d tid i hd hf _ => hr d tid i hd hf, ?_, ?_, ?_⟩
  · rintro tid i - rfl
    cases hp
  · rintro tid i j - rfl
    cases hp
  · rintro tid i rfl
    cases hp

theorem Stored.free (h : Stored queue format fs op p) (hp : ∀ tid i, p ≠ .reopened tid i) (op' : TaskOp) :
    Stored queue format fs op' .free := by
  refine .of_settled h.sole rfl ?_
  intro d tid i hd hf
  exact h.reads d tid i hd hf fun t' => hp t' i

theorem Stored.moveFile {d d' : FilePath} {i : Nat} (h : Stored queue format fs op p)
    (hp : ∀ tid i, p ≠ .reopened tid i) (hf : fs.file d tid.toList = some i)
    (hr : format.Reads tid (fs.data i)) (hp' : p'.isSettled = true) :
    Stored queue format (moveFile fs d d' tid i) op p' := by
  refine .of_settled (h.sole.relink hf _ _) hp' ?_
  intro e o j he ho
  rw [file_moveFile] at ho
  split at ho
  next hpl =>
    obtain rfl := String.toList_inj.mp hpl.2
    cases ho
    exact hr
  next =>
    split_ifs at ho
    exact h.reads e o j he ho fun t' => hp t' j

theorem Stored.stage (h : Stored queue format fs op .free) (ho : queue.Opened fs)
    (hi : op.issues = some tid) (hp : isPlain tid.toList = true)
    (hc : fs.create (queue.tmp.join tid) = .ok (ino, fs')) :
    Stored queue format fs' op (.staging ino) := by
  obtain ⟨-, hdt, hf⟩ := create_spec ho ho.tmp hp hc
  refine ⟨h.sole.create ho.tmp hp hc, ?_, ?_, by simp, by simp⟩
  · intro d o i hd hot _
    have hdm := MaildirQueue.ne_tmp hd
    rw [hf, if_neg fun hpl => hdm hpl.1] at hot
    have hne := ne_created h.sole ho.tmp hp hc hdm hot
    rw [hdt, update_of_ne hne]
    exact h.reads d o i hd hot (by simp)
  · intro o i hot hph
    obtain rfl := Phase.staging.inj hph
    obtain rfl := some.inj (hi.symm.trans hot)
    rw [hf, hdt, if_pos ⟨rfl, rfl⟩, update_self]
    exact ⟨rfl, rfl⟩

theorem Stored.fill (hf : format.Lawful) (h : Stored queue format fs op (.staging ino))
    (hi : op.issues = some env.id) (hn : env.payload.nesting ≤ payloadLimit) :
    Stored queue format (fs.write ino (format.toVecPretty env)) op (.staged ino) := by
  obtain ⟨ht, he⟩ := h.staging env.id ino hi rfl
  refine ⟨h.sole.setData _ _, ?_, by simp, ?_, by simp⟩
  · intro d o i hd ho _
    have hne : i ≠ ino := by
      rintro rfl
      exact MaildirQueue.ne_tmp hd (h.sole.injective _ _ _ _ _ ho ht).1
    show format.Reads o (update fs.data ino _ i)
    rw [update_of_ne hne]
    exact h.reads d o i hd ho (by simp)
  · intro o i j ho _ hfl
    obtain rfl := some.inj (hi.symm.trans ho)
    obtain rfl : ino = j := some.inj (ht.symm.trans hfl)
    show format.Reads env.id (update fs.data ino _ ino)
    rw [update_self]
    exact hf.reads_write he hn

theorem Stored.reopen (h : Stored queue format fs op (.claimed tid)) (ho : queue.Opened fs)
    (hp : isPlain tid.toList = true)
    (hc : fs.create (queue.cur.join tid) = .ok (ino, fs')) :
    Stored queue format fs' op (.reopened tid ino) := by
  obtain ⟨-, hdt, hf⟩ := create_spec ho ho.cur hp hc
  refine ⟨h.sole.create ho.cur hp hc, ?_, by simp, by simp, ?_⟩
  · intro d o i hd hot hph
    have hne : i ≠ ino := by
      rintro rfl
      exact hph tid rfl
    rw [hf] at hot
    split_ifs at hot
    · exact absurd (some.inj hot).symm hne
    · rw [hdt, update_of_ne hne]
      exact h.reads d o i hd hot (by simp)
  · intro o i hph
    obtain ⟨rfl, rfl⟩ := Phase.reopened.inj hph
    rw [hf, hdt, if_pos ⟨rfl, rfl⟩, update_self]
    exact ⟨rfl, rfl⟩

theorem Stored.rewrite (hf : format.Lawful) (h : Stored queue format fs op (.reopened env.id ino))
    (hn : env.payload.nesting ≤ payloadLimit) :
    Stored queue format (fs.write ino (format.toVecPretty env)) op .free := by
  obtain ⟨hc, he⟩ := h.reopened env.id ino rfl
  refine .of_settled (h.sole.setData _ _) rfl ?_
  intro d o i hd ho
  show format.Reads o (update fs.data ino _ i)
  by_cases hi : i = ino
  · -- the only name of the file that was open is that of the task
    subst hi
    obtain ⟨-, hnm⟩ := h.sole.injective _ _ _ _ _ ho hc
    obtain rfl := String.toList_inj.mp hnm
    rw [update_self]
    exact hf.reads_write he hn
  · rw [update_of_ne hi]
    refine h.reads d o i hd ho ?_
    intro t' hp
    exact hi (Phase.reopened.inj hp).2.symm

/-- **What a system call of an operation does to the files.** -/
theorem Move.stored (hf : format.Lawful) (hm : Move queue format op fs prog ch p p' fs' enqueued acked)
    (ho : queue.Opened fs) (h : Stored queue format fs op p)
    (hs : op.hasShallowPayload = true)
    (hw : ∀ tid i, p = .reopened tid i → ch ≠ .fail) :
    Stored queue format fs' op p' := by
  cases hm with
  | quiet hq =>
    refine h.free ?_ op
    intro tid i hp
    exact hw tid i hp (hq tid i hp)
  | stage hop hpl hc => exact h.stage ho (by rw [hop]; rfl) hpl hc
  | fill hop _ hid hpy =>
    subst hop
    refine h.fill hf (by rw [hid]; rfl) ?_
    rw [hpy]
    exact of_decide_eq_true hs
  | @deliver tid _ _ _ ino _ hop _ hfl =>
    have hr := h.staged tid ino _ (by rw [hop]; rfl) rfl hfl
    exact h.moveFile (by simp) hfl hr rfl
  | take _ _ hfl => exact h.moveFile (by simp) hfl (h.reads _ _ _ (.inl rfl) hfl (by simp)) rfl
  | reopen hpl hc => exact h.reopen ho hpl hc
  | rewrite hid hrg =>
    subst hid
    exact h.rewrite hf hrg.2
  | putBack _ _ hfl =>
    exact h.moveFile (by simp) hfl (h.reads _ _ _ (.inr rfl) hfl (by simp)) rfl
  | discard =>
    refine .of_settled (h.sole.unlink _ _) rfl ?_
    intro d o i hd hot
    rw [FileSystem.file_unlink] at hot
    split_ifs at hot
    exact h.reads d o i hd hot (by simp)

end Stored

/-- One worker: an operation begins when none is in progress. -/
def SingleWorker (s : MeshState β) : MeshLabel → Prop
  | .start _ _ => s.workers.entries.isEmpty = true
  | _ => True

def Running.rewrites (r : Running β) : Bool :=
  match r.op, r.program with
  | .claim _, .call (.write _ _) _ => true
  | _, _ => false

/-- Payloads can be read again, and once the file of a claimed task is open it gets written. -/
def Careful (s : MeshState β) : MeshLabel → Prop
  | .start _ op => op.hasPlainId = true ∧ op.hasShallowPayload = true
  | .call k ch => ch = .fail → (s.workers.lookup k).any rewrites = false
  | .crash k => (s.workers.lookup k).any rewrites = false

instance (s : MeshState β) (label : MeshLabel) : Decidable (SingleWorker s label) :=
  match label with
  | .start _ _ => inferInstanceAs (Decidable (s.workers.entries.isEmpty = true))
  | .call _ _ => isTrue trivial
  | .crash _ => isTrue trivial

instance (s : MeshState β) (label : MeshLabel) : Decidable (Careful s label) :=
  match label with
  | .start _ op => inferInstanceAs (Decidable (op.hasPlainId = true ∧ op.hasShallowPayload = true))
  | .call k ch =>
    inferInstanceAs (Decidable (ch = .fail → (s.workers.lookup k).any rewrites = false))
  | .crash k => inferInstanceAs (Decidable ((s.workers.lookup k).any rewrites = false))

def recoverable (queue : MaildirQueue) (format : EnvelopeFormat β) (fs : FileSystem β)
    (tid : String) : Bool :=
  [queue.new, queue.cur].any fun d =>
    match fs.read (d.join tid) with
    | .error _ => false
    | .ok contents => (format.fromStr contents).any fun env => env.id = tid

structure Intact [FileContents β] (queue : MaildirQueue) (format : EnvelopeFormat β)
    (s : MeshState β) : Prop where
  conserving : Conserving queue format s
  alone : ∀ k worker' r running', s.workers.lookup k = some r →
    s.workers.lookup worker' = some running' → k = worker'
  idle : (∀ k, s.workers.lookup k = none) → ∀ op, Stored queue format s.fs op .free
  busy : ∀ k r, s.workers.lookup k = some r → r.op.hasShallowPayload = true ∧
      ∃ p, Disciplined queue format r.op p r.program ∧ Stored queue format s.fs r.op p

section Recovery

variable [FileContents β] {queue : MaildirQueue} {format : EnvelopeFormat β}

theorem intact_init (hf : format.Lawful) : Intact queue format (meshMachine queue format).init := by
  refine ⟨conserving_init hf, ?_, ?_, ?_⟩
  · intro k k' r r' hl
    cases hl
  · intro _ op
    refine .of_settled queue.sole_openIn rfl ?_
    intro d tid i hd hfl
    change (queue.openIn .empty).file d _ = some i at hfl
    rw [queue.file_openIn] at hfl
    cases hfl
  · intro k r hl
    cases hl

variable {s : MeshState β}

theorem Intact.idle_of_isEmpty (h : Intact queue format s) (he : s.workers.entries.isEmpty = true)
    (op : TaskOp) : Stored queue format s.fs op .free := by
  refine h.idle ?_ op
  intro k
  have hw : s.workers = ∅ := ext (List.isEmpty_iff.mp he)
  rw [hw]
  rfl

variable {label : MeshLabel}

theorem Intact.orderly (h : Intact queue format s) (hc : Careful s label) : Orderly queue s label := by
  cases label with
  | start k op => exact hc.1
  | crash k => trivial
  | call k ch =>
    -- the one worker cannot move a task back and open a file at once
    intro p hb e he ho
    obtain ⟨r, hl, hp⟩ := bind_eq_some_iff.mp (mem_def.mp hb)
    have hot : s.workers.lookup e.1 = some e.2 := mem_lookup_iff.mpr he
    have hs := h.alone _ _ _ _ hl hot
    rw [hs, hot] at hl
    cases hl
    unfold putsBack at hp
    unfold opens at ho
    split at ho
    next hpr =>
      rw [hpr] at hp
      cases hp
    next => cases ho

variable {r : Running β} {p : Phase} {k : Nat}

theorem Intact.erase (h : Intact queue format s)
    (hl : s.workers.lookup k = some r) (hs : Stored queue format s.fs r.op p)
    (hp : ∀ tid i, p ≠ .reopened tid i) :
    Intact queue format { s with workers := s.workers.erase k } := by
  have hn : ∀ w, (s.workers.erase k).lookup w = none := by
    intro w
    by_cases hw : w = k
    · rw [hw, lookup_erase]
    · rw [lookup_erase_ne hw, eq_none_iff_forall_ne_some]
      intro r' ho
      exact hw (h.alone w k r' r ho hl)
  refine ⟨h.conserving.erase k, ?_, fun _ op => hs.free hp op, ?_⟩
  · intro w w' r₁ r₂ hw
    rw [hn w] at hw
    cases hw
  · intro w r₁ hw
    rw [hn w] at hw
    cases hw

omit [FileContents β] in
theorem Disciplined.rewrites {tid : String} {i : Nat}
    (h : Disciplined queue format r.op (.reopened tid i) r.program) :
    r.rewrites = true := by
  obtain ⟨op, prog⟩ := r
  cases h with
  | rewrite hop _ _ _ =>
    subst hop
    rfl

theorem Conserving.intact_of_single (h : Conserving queue format s) (k : Nat) (r : Running β)
    (hwr : ∀ w r', s.workers.lookup w = some r' → w = k ∧ r' = r)
    (hs : r.op.hasShallowPayload = true)
    (hd : Disciplined queue format r.op p r.program)
    (hst : Stored queue format s.fs r.op p) (hb : s.workers.lookup k = some r) :
    Intact queue format s := by
  refine ⟨h, ?_, ?_, ?_⟩
  · intro w w' r₁ r₂ hw hw'
    rw [(hwr w r₁ hw).1, (hwr w' r₂ hw').1]
  · intro hi
    rw [hi k] at hb
    cases hb
  · intro w r' hw
    obtain ⟨-, rfl⟩ := hwr w r' hw
    exact ⟨hs, p, hd, hst⟩

variable {s' : MeshState β}

theorem Intact.call {ch : Choice} (hf : format.Lawful)
    (h : Intact queue format s) (hc : Careful s (.call k ch))
    (hstep : s.call k ch = some s') : Intact queue format s' := by
  have hcn := h.conserving.call hf (h.orderly hc) hstep
  rcases MeshState.call_cases hstep with ⟨op, result, hl, rfl⟩ |
    ⟨op, γ, request, next, answer, fs', hl, hr, rfl⟩
  · obtain ⟨-, p, hd, hs⟩ := h.busy k _ hl
    refine h.erase hl hs ?_
    rintro tid i rfl
    cases hd
  obtain ⟨hsh, p, hd, hs⟩ := h.busy k _ hl
  obtain ⟨p', hnext, hm⟩ := hd.move h.conserving.opened h.conserving.named h.conserving.plainNames hr
  have hs' := hm.stored hf h.conserving.opened hs hsh (by
    rintro tid i rfl hfl
    have hq := hc hfl
    rw [hl, any_some, hd.rewrites] at hq
    cases hq)
  refine hcn.intact_of_single k ⟨op, next answer⟩ ?_ hsh hnext hs' (lookup_insert _)
  intro w r hw
  rcases lookup_insert_eq_some_iff.mp hw with hw | ⟨hne, hw⟩
  · exact hw
  · exact absurd (h.alone _ _ _ _ hw hl) hne

theorem Intact.step (hf : format.Lawful) (h : Intact queue format s)
    (hs : SingleWorker s label) (hc : Careful s label)
    (hstep : (meshMachine queue format).step s label = some s') : Intact queue format s' := by
  have hcn := h.conserving.step hf (h.orderly hc) hstep
  cases label with
  | start k op =>
    simp only [meshMachine, ite_none_right_eq_some] at hstep
    obtain ⟨-, hst⟩ := hstep
    cases hst
    have hwr : s.workers = ∅ := ext (List.isEmpty_iff.mp hs)
    refine hcn.intact_of_single k ⟨op, op.program queue format⟩ ?_ hc.2
      (program_disciplined op hc.1) (h.idle_of_isEmpty hs op) (lookup_insert _)
    intro w r hw
    rcases lookup_insert_eq_some_iff.mp hw with hw | ⟨-, hw⟩
    · exact hw
    · rw [hwr] at hw
      cases hw
  | call k ch => exact h.call hf hc hstep
  | crash k =>
    simp only [meshMachine] at hstep
    split at hstep
    next => cases hstep
    next r hl =>
      cases hstep
      obtain ⟨-, p, hd, hsr⟩ := h.busy k r hl
      refine h.erase hl hsr ?_
      rintro tid i rfl
      change (s.workers.lookup k).any rewrites = false at hc
      rw [hl, any_some, hd.rewrites] at hc
      cases hc

theorem Stored.recoverable {fs : FileSystem β} {op : TaskOp} {tid : String}
    (h : Stored queue format fs op .free) (ho : queue.Opened fs)
    (hp : isPlain tid.toList = true)
    (hf : occupied fs queue.new tid = true ∨ occupied fs queue.cur tid = true) :
    recoverable queue format fs tid = true := by
  have hr : ∀ d, d = queue.new ∨ d = queue.cur → fs.Flat d → occupied fs d tid = true →
      Mesh.recoverable queue format fs tid = true := by
    intro d hd hfl hoc
    obtain ⟨i, hi⟩ := isSome_iff_exists.mp hoc
    obtain ⟨env, hfr, hid⟩ := h.reads d tid i hd hi (by simp)
    refine List.any_eq_true.mpr ⟨d, by simpa using hd, ?_⟩
    rw [FilePath.join, FileSystem.read_plain hfl hp, hi]
    simp [hfr, hid]
  rcases hf with hf | hf
  · exact hr queue.new (.inl rfl) ho.new hf
  · exact hr queue.cur (.inr rfl) ho.cur hf

/-- **Crash recovery.** Every task that was enqueued and not removed can be read from its file. -/
theorem tasks_recoverable {s : MeshState β} (hformat : format.Lawful)
    (h : (meshMachine queue format).ReachableWhen (fun s label => SingleWorker s label ∧ Careful s label) s)
    (hidle : s.workers = ∅) (taskId : String) (hmem : taskId ∈ s.enqueued)
    (hacked : taskId ∉ s.acked) : recoverable queue format s.fs taskId = true := by
  have hi : Intact queue format s :=
    Machine.invariantWhen (intact_init hformat)
      (fun _ _ _ hs hc hstep => hs.step hformat hc.1 hc.2 hstep) h
  have hcn := hi.conserving
  have hst : Stored queue format s.fs .status .free := by
    refine hi.idle ?_ .status
    intro k
    rw [hidle]
    rfl
  refine hst.recoverable hcn.opened (hcn.plain _ (hcn.issued _ hmem)) ?_
  have ho := hcn.conserved taskId hmem hacked
  cases hn : occupied s.fs queue.new taskId with
  | true => exact .inl rfl
  | false =>
    rw [hn] at ho
    exact .inr (Bool.eq_true_of_not_eq_false ho.symm)

end Recovery

theorem tasks_recoverable_claim : ∃ s, (meshMachine exampleQueue directFormat).ReachableWhen
        (fun s label => SingleWorker s label ∧ Careful s label) s ∧
      s.workers = ∅ ∧ "t" ∈ s.enqueued ∧ "t" ∉ s.acked ∧
      recoverable exampleQueue directFormat s.fs "t" = true := by
  obtain ⟨s, hr, he, hm, ha⟩ : ∃ s, (meshMachine exampleQueue directFormat).ReachableWhen
        (fun s label => SingleWorker s label ∧ Careful s label) s ∧
      s.workers.entries = [] ∧ "t" ∈ s.enqueued ∧ "t" ∉ s.acked :=
    Machine.exists_reachable ([.start 0 (.enqueue "t" 5 .null 3)] ++ callsOf 0 4 ++
      [.start 0 (.claim none)] ++ callsOf 0 3 ++ [.crash 0]) (by decide +kernel)
  have hi : s.workers = ∅ := ext he
  exact ⟨s, hr, hi, hm, ha, tasks_recoverable directFormat_lawful hr hi "t" hm ha⟩

/-- A worker crashes when it has opened the file of a task it has claimed. -/
theorem task_lost_in_claim :
    directFormat.Lawful ∧ ∃ s, (meshMachine exampleQueue directFormat).ReachableWhen SingleWorker s ∧
      s.workers = ∅ ∧ "t" ∈ s.enqueued ∧ "t" ∉ s.acked ∧
      recoverable exampleQueue directFormat s.fs "t" = false := by
  obtain ⟨s, hr, he, hrest⟩ : ∃ s, (meshMachine exampleQueue directFormat).ReachableWhen SingleWorker s ∧
        s.workers.entries = [] ∧ "t" ∈ s.enqueued ∧ "t" ∉ s.acked ∧
        recoverable exampleQueue directFormat s.fs "t" = false :=
    Machine.exists_reachable ([.start 0 (.enqueue "t" 5 .null 3)] ++ callsOf 0 4 ++
      [.start 0 (.claim none)] ++ callsOf 0 4 ++ [.crash 0]) (by decide +kernel)
  exact ⟨directFormat_lawful, s, hr, ext he, hrest⟩

end ShareCli.Mesh
