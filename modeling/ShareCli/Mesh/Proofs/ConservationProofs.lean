import ShareCli.Foundation.TwoWayMap
import ShareCli.Mesh.Proofs.DisciplineProofs

/-!
# No task is lost or doubled

For the question which of `new` and `cur` a task is in, a system call is one of six shifts, which keep
`Conserving` as long as a task is not moved out of `cur` while a claim that has just moved it there has yet to
open its file.
-/

namespace ShareCli.Mesh

open Foundation Function List

variable {β : Type}

def occupied (fs : FileSystem β) (directory : FilePath) (t : String) : Bool :=
  (fs.file directory t.toList).isSome

variable (queue : MaildirQueue) (op : TaskOp) (prog : FsProgram β TaskResult) in
/-- What a call does to the sets of tasks in `new` and in `cur`. -/
inductive Shift : Phase → Phase → (String → Bool) → (String → Bool) → (String → Bool) → (String → Bool) →
      List String → List String → Prop where
  | still {p p' : Phase} {new cur : String → Bool}
      (hclaimed : ∀ t, p' ≠ .claimed t) (hdelivered : p' ≠ .delivered) :
      Shift p p' new cur new cur [] []
  | deliver {t : String} {inode : Nat} {new cur : String → Bool} (hop : op.issues = some t) :
      Shift (.staged inode) .delivered new cur (update new t true) cur
        [t] []
  | take {t : String} {new cur : String → Bool} (hop : op.issues = none)
      (hnew : new t = true) :
      Shift .free (.claimed t) new cur (update new t false)
        (update cur t true) [] []
  | reopen {t : String} {inode : Nat} {new cur : String → Bool} :
      Shift (.claimed t) (.reopened t inode) new cur new
        (update cur t true) [] []
  | putBack {t : String} {new cur : String → Bool}
      {next : Except IoError Unit → FsProgram β TaskResult}
      (hprogram : prog = .call (.rename (queue.cur.join t) (queue.new.join t)) next)
      (hcur : cur t = true) :
      Shift .free .free new cur (update new t true)
        (update cur t false) [] []
  | discard {t : String} {new cur : String → Bool} (hop : op.issues = none)
      (hcur : cur t = true) :
      Shift .free .free new cur new (update cur t false) [] [t]

section Shifts

variable {queue : MaildirQueue} {format : EnvelopeFormat β} {op : TaskOp} {fs fs' : FileSystem β}

theorem occupied_set {d : FilePath} {t : String} {file : Option Nat}
    (hf : ∀ e y, fs'.file e y = if e = d ∧ y = t.toList then file else fs.file e y) (e : FilePath) :
    occupied fs' e =
      if e = d then update (occupied fs e) t file.isSome else occupied fs e := by
  funext other
  simp only [occupied, hf, String.toList_inj]
  by_cases he : e = d <;> by_cases ho : other = t <;> simp [he, ho, occupied]

theorem occupied_unlink (fs : FileSystem β) (d : FilePath) (t : String) (e : FilePath) :
    occupied (fs.unlink (d ++ [t.toList])) e =
      if e = d then update (occupied fs e) t false else occupied fs e :=
  occupied_set (fs.file_unlink d t.toList) e

theorem occupied_moveFile (fs : FileSystem β) {d d' : FilePath} (hne : d ≠ d') (e : FilePath)
    (t : String) (i : Nat) :
    occupied (moveFile fs d d' t i) e =
      if e = d' then update (occupied fs e) t true
      else if e = d then update (occupied fs e) t false else occupied fs e := by
  rw [moveFile, occupied_set (FileSystem.file_link _ d' t.toList i), occupied_unlink]
  by_cases he : e = d'
  · rw [if_pos he, if_pos he, if_neg fun hd => hne (hd.symm.trans he)]
    rfl
  · rw [if_neg he, if_neg he]

theorem Move.shift [FileContents β] {prog : FsProgram β TaskResult} {ch : Choice}
    {p p' : Phase} {enq acked : List String}
    (hm : Move queue format op fs prog ch p p' fs' enq acked)
    (ho : queue.Opened fs) :
    Shift queue op prog p p' (occupied fs queue.new) (occupied fs queue.cur)
      (occupied fs' queue.new) (occupied fs' queue.cur) enq acked := by
  have htn := queue.tmp_ne_new
  have htc := queue.tmp_ne_cur
  have hnc := queue.new_ne_cur
  cases hm with
  | quiet | fill | rewrite => exact .still (by simp) (by simp)
  | stage _ hp hc =>
    have hf := (create_spec ho ho.tmp hp hc).2.2
    rw [occupied_set hf, occupied_set hf, if_neg htn.symm, if_neg htc.symm]
    exact .still (by simp) (by simp)
  | deliver hop hp hf =>
    rw [occupied_moveFile _ htn, occupied_moveFile _ htn, if_pos rfl, if_neg hnc.symm, if_neg htc.symm]
    exact .deliver (by rw [hop]; rfl)
  | take hop hp hf =>
    rw [occupied_moveFile _ hnc, occupied_moveFile _ hnc, if_neg hnc, if_pos rfl, if_pos rfl]
    exact .take (by rw [hop]; rfl) (by simp [occupied, hf])
  | reopen hp hc =>
    have hf := (create_spec ho ho.cur hp hc).2.2
    rw [occupied_set hf, occupied_set hf, if_neg hnc, if_pos rfl]
    exact .reopen
  | putBack hpr hp hf =>
    rw [occupied_moveFile _ hnc.symm, occupied_moveFile _ hnc.symm, if_pos rfl, if_neg hnc.symm, if_pos rfl]
    exact .putBack hpr (by simp [occupied, hf])
  | discard hop hp hf =>
    rw [occupied_unlink, occupied_unlink, if_neg hnc, if_pos rfl]
    exact .discard (by rw [hop]; rfl) (by simp [occupied, hf])

end Shifts

/-- The file that a worker opens next. -/
def Running.opens (running : Running β) : Option JoinedPath :=
  match running.program with
  | .call (.create path) _ => some path
  | _ => none

def Running.putsBack (queue : MaildirQueue) (running : Running β) : Option JoinedPath :=
  match running.program with
  | .call (.rename source _) _ => if source.directory = queue.cur then some source else none
  | _ => none

/-- Nobody moves a task out of `cur` whose file a claim is about to open. -/
def Orderly (queue : MaildirQueue) (s : MeshState β) : MeshLabel → Prop
  | .start _ op => op.hasPlainId = true
  | .call worker _ =>
    ∀ path ∈ (s.workers.lookup worker).bind (Running.putsBack queue),
      ∀ entry ∈ s.workers.entries, entry.2.opens ≠ some path
  | .crash _ => True

instance (queue : MaildirQueue) (s : MeshState β) (label : MeshLabel) : Decidable (Orderly queue s label) :=
  match label with
  | .start _ op => inferInstanceAs (Decidable (op.hasPlainId = true))
  | .call worker _ =>
    inferInstanceAs (Decidable (∀ path ∈ (s.workers.lookup worker).bind (Running.putsBack queue),
      ∀ entry ∈ s.workers.entries, entry.2.opens ≠ some path))
  | .crash _ => isTrue trivial

/-- Every task that was enqueued and not removed is in exactly one of `new` and `cur`. -/
def Conserved (queue : MaildirQueue) (s : MeshState β) : Prop :=
  ∀ t ∈ s.enqueued, t ∉ s.acked → occupied s.fs queue.new t ≠ occupied s.fs queue.cur t

structure Fits (queue : MaildirQueue) (s : MeshState β) (op : TaskOp) (p : Phase) : Prop where
  issued : ∀ t, op.issues = some t → t ∈ s.issued
  unborn : ∀ t, op.issues = some t → p = .delivered ∨ t ∉ s.enqueued
  claimed : ∀ t, p = .claimed t → t ∈ s.enqueued ∧ (t ∉ s.acked → occupied s.fs queue.cur t = true)

structure Conserving [FileContents β] (queue : MaildirQueue) (format : EnvelopeFormat β)
    (s : MeshState β) : Prop where
  opened : queue.Opened s.fs
  named : ∀ i, format.WellNamed (s.fs.data i)
  plain : ∀ t ∈ s.issued, FilePath.isPlain t.toList = true
  issued : ∀ t ∈ s.enqueued, t ∈ s.issued
  unborn : ∀ t, t ∉ s.enqueued → occupied s.fs queue.new t = false ∧ occupied s.fs queue.cur t = false
  conserved : Conserved queue s
  workers : ∀ worker running, s.workers.lookup worker = some running →
    ∃ p, Disciplined queue format running.op p running.program ∧ Fits queue s running.op p
  distinct : ∀ worker worker' running running' t, s.workers.lookup worker = some running →
    s.workers.lookup worker' = some running' → running.op.issues = some t →
    running'.op.issues = some t → worker = worker'

theorem MeshState.call_cases [FileContents β] {s s' : MeshState β} {w : Nat} {ch : Choice}
    (hstep : s.call w ch = some s') :
    (∃ op result, s.workers.lookup w = some ⟨op, .done result⟩ ∧
      s' = { s with workers := s.workers.erase w }) ∨
    ∃ op γ, ∃ (request : FsCall β γ), ∃ next answer fs', s.workers.lookup w = some ⟨op, .call request next⟩ ∧
      request.respond s.fs ch = some (answer, fs') ∧
      s' = { s with
        fs := fs'
        workers := s.workers.insert w ⟨op, next answer⟩
        enqueued := enqueuedBy op request answer ++ s.enqueued
        acked := ackedBy op request answer ++ s.acked } := by
  unfold MeshState.call at hstep
  cases hl : s.workers.lookup w with
  | none => simp [hl] at hstep
  | some running =>
    simp only [hl] at hstep
    obtain ⟨op, prog⟩ := running
    cases prog with
    | done result => exact .inl ⟨op, result, rfl, (Option.some.inj hstep).symm⟩
    | call request next =>
      obtain ⟨⟨answer, fs'⟩, hr, rfl⟩ := Option.map_eq_some_iff.mp hstep
      exact .inr ⟨op, _, request, next, answer, fs', rfl, hr, rfl⟩

section Invariant

variable [FileContents β] {queue : MaildirQueue} {format : EnvelopeFormat β} {s s' : MeshState β}

theorem Conserving.plainNames (h : Conserving queue format s) : PlainNames queue s.fs := by
  intro x hx
  have hs : (String.ofList x).toList = x := String.toList_ofList
  by_contra hp
  have hb : String.ofList x ∉ s.enqueued := by
    intro hm
    have hn := h.plain _ (h.issued _ hm)
    rw [hs] at hn
    exact hp hn
  obtain ⟨hnw, hc⟩ := h.unborn _ hb
  simp only [occupied, hs] at hnw hc
  rw [hnw, hc] at hx
  simp at hx

theorem conserving_init (hf : format.Lawful) : Conserving queue format (meshMachine queue format).init := by
  refine ⟨queue.opened_openIn, ?_, by simp [meshMachine], by simp [meshMachine], ?_, by rintro _ ⟨⟩,
    by rintro _ _ ⟨⟩, by rintro _ _ _ _ _ ⟨⟩⟩
  · intro i
    have hd : (queue.openIn (.empty : FileSystem β)).data i = FileContents.empty := by
      simp [MaildirQueue.openIn, FileSystem.empty]
    exact hd ▸ hf.wellNamed_empty
  · intro t _
    have hn : ∀ d, occupied (queue.openIn (.empty : FileSystem β)) d t = false := by
      intro d
      rw [occupied, queue.file_openIn]
      rfl
    exact ⟨hn queue.new, hn queue.cur⟩

theorem Conserving.start {worker : Nat} {op : TaskOp} (h : Conserving queue format s)
    (hi : s.workers.lookup worker = none) (hf : op.isFresh s.issued = true)
    (hp : op.hasPlainId = true) :
    Conserving queue format
      { s with
        workers := s.workers.insert worker ⟨op, op.program queue format⟩
        issued := op.issues.toList ++ s.issued } := by
  have hnw : ∀ t, op.issues = some t → FilePath.isPlain t.toList = true ∧ t ∉ s.issued := by
    intro t his
    simpa [TaskOp.isFresh, his] using hf
  refine ⟨h.opened, h.named, ?_, ?_, h.unborn, h.conserved, ?_, ?_⟩
  · intro t hm
    rcases mem_append.mp hm with hm | hm
    · exact (hnw t (by simpa using hm)).1
    · exact h.plain t hm
  · intro t hm
    exact mem_append_right _ (h.issued t hm)
  · intro o running hl
    rcases lookup_insert_eq_some_iff.mp hl with ⟨rfl, rfl⟩ | ⟨-, hl⟩
    · refine ⟨.free, program_disciplined op hp, ?_, ?_, by simp⟩
      · intro t his
        exact mem_append_left _ (by simp [show op.issues = some t from his])
      · intro t his
        exact .inr fun hm => (hnw t his).2 (h.issued t hm)
    · obtain ⟨p, hd, hft⟩ := h.workers o running hl
      refine ⟨p, hd, ?_, hft.unborn, hft.claimed⟩
      intro t his
      exact mem_append_right _ (hft.issued t his)
  · -- the new id is not among those that other workers have
    intro w w' running running' t hl hl' his his'
    have hc : ∀ v (r : Running β), (s.workers.insert worker ⟨op, op.program queue format⟩).lookup v = some r →
          r.op.issues = some t → v = worker ∧ t ∉ s.issued ∨ s.workers.lookup v = some r ∧ t ∈ s.issued := by
      intro v r hv hr
      rcases lookup_insert_eq_some_iff.mp hv with ⟨rfl, rfl⟩ | ⟨-, hv⟩
      · exact .inl ⟨rfl, (hnw t hr).2⟩
      · obtain ⟨p, -, hft⟩ := h.workers v r hv
        exact .inr ⟨hv, hft.issued t hr⟩
    rcases hc w running hl his with ⟨rfl, hfr⟩ | ⟨hw, hu⟩
    · rcases hc w' running' hl' his' with ⟨rfl, -⟩ | ⟨-, hu⟩
      · rfl
      · exact absurd hu hfr
    · rcases hc w' running' hl' his' with ⟨-, hfr⟩ | ⟨hw', -⟩
      · exact absurd hu hfr
      · exact h.distinct w w' running running' t hw hw' his his'

theorem Conserving.erase (h : Conserving queue format s) (worker : Nat) :
    Conserving queue format { s with workers := s.workers.erase worker } := by
  have hl : ∀ w running, (s.workers.erase worker).lookup w = some running →
      s.workers.lookup w = some running := fun _ _ hw => (lookup_erase_eq_some_iff.mp hw).2
  refine ⟨h.opened, h.named, h.plain, h.issued, h.unborn, h.conserved, ?_, ?_⟩
  · intro w running hw
    obtain ⟨p, hd, hft⟩ := h.workers w running (hl w running hw)
    exact ⟨p, hd, hft.issued, hft.unborn, hft.claimed⟩
  · intro w w' running running' t hw hw'
    exact h.distinct w w' running running' t (hl w running hw) (hl w' running' hw')

omit [FileContents β] in
variable {born go : List String} {t : String}

theorem mem_enqueued {new cur : String → Bool} {enq : List String}
    (hu : ∀ t, t ∉ enq → new t = false ∧ cur t = false)
    (h : new t = true ∨ cur t = true) : t ∈ enq := by
  by_contra hm
  obtain ⟨hnw, hc⟩ := hu t hm
  rw [hnw, hc] at h
  simp at h

section Shifted

variable {op : TaskOp} {prog : FsProgram β TaskResult} {p p' : Phase}
  {new cur new' cur' : String → Bool} {born go enq acked : List String}

omit [FileContents β]

variable (hshift : Shift queue op prog p p' new cur new' cur' born go)

include hshift

theorem Shift.born_eq :
    born = [] ∨ ∃ taskId, op.issues = some taskId ∧ born = [taskId] ∧ p' = .delivered := by
  cases hshift with
  | deliver hop => exact .inr ⟨_, hop, rfl, rfl⟩
  | _ => exact .inl rfl

theorem Shift.at (t : String) : (t ∉ born ∧ new' t = new t ∧ cur' t = cur t) ∨
    (op.issues = some t ∧ p ≠ .delivered ∧ t ∈ born ∧ new' t = true ∧ cur' t = cur t) ∨
    (new t = true ∧ new' t = false ∧ cur' t = true) ∨
    (p = .claimed t ∧ new' t = new t ∧ cur' t = true) ∨
    ((∃ next, prog = .call (.rename (queue.cur.join t) (queue.new.join t)) next) ∧
      cur t = true ∧ new' t = true ∧ cur' t = false) ∨
    (t ∈ go ∧ cur t = true ∧ cur' t = false) := by
  cases hshift with
  | still => exact .inl ⟨not_mem_nil, rfl, rfl⟩
  | @deliver o _ _ _ | @take o _ _ _ | @reopen o _ _ _ | @putBack o _ _ _ _ _
    | @discard o _ _ _ _ =>
    by_cases ht : t = o
    · simp [*]
    · simp [ht]

theorem Shift.unborn (hu : ∀ t, t ∉ enq → new t = false ∧ cur t = false)
    (hc : ∀ t, p = .claimed t → t ∈ enq) (t : String)
    (hm : t ∉ born ++ enq) : new' t = false ∧ cur' t = false := by
  rw [mem_append, not_or] at hm
  have hold := hu t hm.2
  rcases hshift.at t with ⟨-, hnw, hcr⟩ | ⟨-, -, hb, -⟩ | ⟨hnw, -⟩ | ⟨hp, -⟩ |
    ⟨-, hcr, -⟩ | ⟨-, hcr, -⟩
  · rw [hnw, hcr]
    exact hold
  · exact absurd hb hm.1
  · exact absurd (mem_enqueued hu (.inl hnw)) hm.2
  · exact absurd (hc t hp) hm.2
  · exact absurd (mem_enqueued hu (.inr hcr)) hm.2
  · exact absurd (mem_enqueued hu (.inr hcr)) hm.2

theorem Shift.conserved (hu : ∀ t, t ∉ enq → new t = false ∧ cur t = false)
    (hn : ∀ t, op.issues = some t → p = .delivered ∨ t ∉ enq)
    (hc : ∀ t, p = .claimed t → t ∉ acked → cur t = true)
    (hcn : ∀ t ∈ enq, t ∉ acked → new t ≠ cur t) (t : String)
    (hm : t ∈ born ++ enq) (ha : t ∉ go ++ acked) :
    new' t ≠ cur' t := by
  rw [mem_append, not_or] at ha
  rcases hshift.at t with ⟨hb, hnw, hcr⟩ | ⟨hop, hp, -, hnw, hcr⟩ | ⟨-, hnw, hcr⟩ |
    ⟨hp, hnw, hcr⟩ | ⟨-, -, hnw, hcr⟩ | ⟨hg, -⟩
  · rw [hnw, hcr]
    exact hcn t ((mem_append.mp hm).resolve_left hb) ha.2
  · -- the id is new, so `cur` has no file for it
    have hf := (hn t hop).resolve_left hp
    rw [hnw, hcr, (hu t hf).2]
    simp
  · simp [hnw, hcr]
  · -- opening the file makes none, for it is still there
    have ht := hc t hp ha.2
    rw [hnw, hcr, ← ht]
    exact hcn t (mem_enqueued hu (.inr ht)) ha.2
  · simp [hnw, hcr]
  · exact absurd hg ha.1

theorem Shift.stays {t : String} (hc : cur t = true) (hg : t ∉ go)
    (hb : ∀ next, prog ≠ .call (.rename (queue.cur.join t) (queue.new.join t)) next) :
    cur' t = true := by
  rcases hshift.at t with ⟨-, -, h⟩ | ⟨-, -, -, -, h⟩ | ⟨-, -, h⟩ | ⟨-, -, h⟩ | ⟨⟨next, h⟩, -⟩ | ⟨h, -⟩
  iterate 2 exact h.trans hc
  iterate 2 exact h
  · exact absurd h (hb next)
  · exact absurd h hg

theorem Shift.taken {t : String} (hp : p' = .claimed t) : new t = true ∧ cur' t = true := by
  cases hshift with
  | still hc _ => exact absurd hp (hc t)
  | take _ hnw =>
    obtain rfl := Phase.claimed.inj hp
    exact ⟨hnw, update_self ..⟩
  | _ => cases hp

end Shifted

omit [FileContents β] in
theorem Disciplined.opens {running : Running β}
    (h : Disciplined queue format running.op (.claimed t) running.program) :
    running.opens = some (queue.cur.join t) := by
  unfold Running.opens
  generalize running.program = prog at h
  cases h
  rfl

variable {prog : FsProgram β TaskResult} {fs' : FileSystem β} {op : TaskOp} {p p' : Phase}

theorem Fits.next (hft : Fits queue s op p)
    (hshift : Shift queue op prog p p' (occupied s.fs queue.new) (occupied s.fs queue.cur)
      (occupied fs' queue.new) (occupied fs' queue.cur) born go)
    (h : Conserving queue format s) (hp : p ≠ .delivered) (ws : AList fun _ => Running β) :
    Fits queue
      { fs := fs', workers := ws, issued := s.issued, enqueued := born ++ s.enqueued, acked := go ++ s.acked }
      op p' := by
  refine ⟨hft.issued, ?_, ?_⟩
  · intro t hop
    rcases hshift.born_eq with hb | ⟨-, -, -, hd⟩
    · refine .inr ?_
      rw [hb]
      exact (hft.unborn t hop).resolve_left hp
    · exact .inl hd
  · intro t hc
    obtain ⟨hnw, hcr⟩ := hshift.taken hc
    exact ⟨mem_append_right _ (mem_enqueued h.unborn (.inl hnw)), fun _ => hcr⟩

omit [FileContents β] in
theorem Fits.other {op' : TaskOp} {o : Phase} (hft : Fits queue s op' o)
    (hshift : Shift queue op prog p p' (occupied s.fs queue.new) (occupied s.fs queue.cur)
      (occupied fs' queue.new) (occupied fs' queue.cur) born go)
    (hd : ∀ t, op.issues = some t → op'.issues ≠ some t)
    (hb : ∀ t, o = .claimed t → ∀ next, prog ≠ .call (.rename (queue.cur.join t) (queue.new.join t)) next)
    (ws : AList fun _ => Running β) :
    Fits queue
      { fs := fs', workers := ws, issued := s.issued, enqueued := born ++ s.enqueued, acked := go ++ s.acked }
      op' o := by
  refine ⟨hft.issued, ?_, ?_⟩
  · intro t hop'
    refine (hft.unborn t hop').imp_right ?_
    intro hu hm
    rcases hshift.born_eq with hbr | ⟨n, hop, hbr, -⟩
    · rw [hbr] at hm
      exact hu hm
    · -- the new task was enqueued by the worker that moves
      rw [hbr] at hm
      rcases mem_cons.mp hm with rfl | hm
      · exact hd t hop hop'
      · exact hu hm
  · intro t hc
    obtain ⟨hm, ht⟩ := hft.claimed t hc
    refine ⟨mem_append_right _ hm, ?_⟩
    intro ha
    rw [mem_append, not_or] at ha
    exact hshift.stays (ht ha.2) ha.1 (hb t hc)

theorem Conserving.call {worker : Nat} {ch : Choice} (hf : format.Lawful)
    (h : Conserving queue format s) (ho : Orderly queue s (.call worker ch))
    (hstep : s.call worker ch = some s') : Conserving queue format s' := by
  rcases MeshState.call_cases hstep with ⟨op, result, hl, rfl⟩ |
    ⟨op, γ, request, next, answer, fs', hl, hrs, rfl⟩
  · exact h.erase worker
  obtain ⟨p, hd, hft⟩ := h.workers worker _ hl
  obtain ⟨p', hnext, hm⟩ := hd.move h.opened h.named h.plainNames hrs
  have hshift := hm.shift h.opened
  have hp : p ≠ .delivered := by
    rintro rfl
    cases hd
  refine ⟨hm.opened h.opened, hm.named hf h.opened h.named, h.plain, ?_, ?_, ?_, ?_, ?_⟩
  · intro t hme
    rcases mem_append.mp hme with hme | hme
    · rcases hshift.born_eq with hb | ⟨n, hop, hb, -⟩
      · rw [hb] at hme
        cases hme
      · rw [hb, mem_singleton] at hme
        exact hft.issued t (hme ▸ hop)
    · exact h.issued t hme
  · exact hshift.unborn h.unborn fun t hc => (hft.claimed t hc).1
  · exact hshift.conserved h.unborn hft.unborn
      (fun t hc => (hft.claimed t hc).2) h.conserved
  · intro w running hw
    rcases lookup_insert_eq_some_iff.mp hw with ⟨rfl, rfl⟩ | ⟨hne, hw⟩
    · exact ⟨p', hnext, hft.next hshift h hp _⟩
    · obtain ⟨o, hd', hft'⟩ := h.workers w running hw
      refine ⟨o, hd', hft'.other hshift ?_ ?_ _⟩
      · intro t hop hop'
        exact hne (h.distinct w worker running _ t hw hl hop' hop)
      · -- the other worker is about to open the file, so it is not moved back
        rintro t rfl next' hpr
        have hbc : Running.putsBack queue ⟨op, .call request next⟩ = some (queue.cur.join t) := by
          rw [hpr]
          simp [Running.putsBack, FilePath.join]
        refine ho (queue.cur.join t) ?_ ⟨w, running⟩ (AList.mem_lookup_iff.mp hw) hd'.opens
        rw [hl]
        exact hbc
  · intro w w' running₁ running₂ t hw hw' hop hop'
    have hold : ∀ v running, (s.workers.insert worker ⟨op, next answer⟩).lookup v = some running →
        running.op.issues = some t →
          ∃ r, s.workers.lookup v = some r ∧ r.op.issues = some t := by
      intro v running hv his
      rcases lookup_insert_eq_some_iff.mp hv with ⟨rfl, rfl⟩ | ⟨-, hv⟩
      · exact ⟨_, hl, his⟩
      · exact ⟨_, hv, his⟩
    obtain ⟨r, hr, his⟩ := hold w running₁ hw hop
    obtain ⟨r', hr', his'⟩ := hold w' running₂ hw' hop'
    exact h.distinct w w' r r' t hr hr' his his'

theorem Conserving.step {l : MeshLabel} (hf : format.Lawful)
    (h : Conserving queue format s) (ho : Orderly queue s l)
    (hstep : (meshMachine queue format).step s l = some s') : Conserving queue format s' := by
  cases l with
  | start w op =>
    simp only [meshMachine, Option.ite_none_right_eq_some] at hstep
    obtain ⟨⟨hi, hfr⟩, hs⟩ := hstep
    cases hs
    exact h.start hi hfr ho
  | call w ch => exact h.call hf ho hstep
  | crash w =>
    simp only [meshMachine] at hstep
    split at hstep <;> cases hstep
    exact h.erase w

theorem conserving_of_orderly (hf : format.Lawful)
    (h : (meshMachine queue format).ReachableWhen (Orderly queue) s) : Conserving queue format s :=
  Machine.invariantWhen (conserving_init hf) (fun _ _ _ hs hc hstep => hs.step hf hc hstep) h

/-- **Conservation.** However the system calls of the workers interleave, fail and crash. -/
theorem tasks_conserved {s : MeshState β} (hformat : format.Lawful)
    (h : (meshMachine queue format).ReachableWhen (Orderly queue) s) : Conserved queue s :=
  (conserving_of_orderly hformat h).conserved

end Invariant

def exampleQueue : MaildirQueue := ⟨["q".toList]⟩

def callsOf (worker count : Nat) : List MeshLabel := replicate count (.call worker .regular)

theorem tasks_conserved_claim_nack :
    ∃ s, (meshMachine exampleQueue directFormat).ReachableWhen (Orderly exampleQueue) s ∧
      s.enqueued = ["t"] ∧ s.acked = [] ∧ Conserved exampleQueue s := by
  obtain ⟨s, hr, he, ha⟩ :
      ∃ s, (meshMachine exampleQueue directFormat).ReachableWhen (Orderly exampleQueue) s ∧
        s.enqueued = ["t"] ∧ s.acked = [] :=
    Machine.exists_reachable ([.start 0 (.enqueue "t" 5 .null 3)] ++ callsOf 0 4 ++
      [.start 0 (.claim none)] ++ callsOf 0 6 ++ [.start 1 (.nack "t")] ++ callsOf 1 2) (by decide +kernel)
  exact ⟨s, hr, he, ha, tasks_conserved directFormat_lawful hr⟩

/-- A task is returned between the two calls of the claim that move it and open its file. -/
theorem task_in_new_and_cur : directFormat.Lawful ∧ ∃ s, (meshMachine exampleQueue directFormat).Reachable s ∧
      s.workers = ∅ ∧ "t" ∈ s.enqueued ∧ "t" ∉ s.acked ∧
      occupied s.fs exampleQueue.new "t" = true ∧ occupied s.fs exampleQueue.cur "t" = true := by
  obtain ⟨s, hr, hi, hrest⟩ : ∃ s, (meshMachine exampleQueue directFormat).Reachable s ∧
      s.workers.entries = [] ∧ "t" ∈ s.enqueued ∧ "t" ∉ s.acked ∧
      occupied s.fs exampleQueue.new "t" = true ∧ occupied s.fs exampleQueue.cur "t" = true :=
    Machine.exists_reachable ([.start 0 (.enqueue "t" 5 .null 3)] ++ callsOf 0 4 ++
      [.start 0 (.claim none)] ++ callsOf 0 3 ++ [.start 1 (.nack "t")] ++ callsOf 1 2 ++ callsOf 0 3)
      (by decide +kernel)
  exact ⟨directFormat_lawful, s, hr, AList.ext hi, hrest⟩

end ShareCli.Mesh
