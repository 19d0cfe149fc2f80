import ShareCli.Mesh.Proofs.RecoveryProofs
import ShareCli.Mesh.TaskPool

/-!
# Operations that run alone

The pool of a file system is what can be read from the files in `new` and `cur`. As long as every file
there holds the task it is named after (`Tidy`), an operation that runs alone makes a step of the pool.
-/

namespace ShareCli.Mesh

open Foundation FsProgram TaskEnvelope TaskPool FilePath MaildirQueue

variable {β : Type}

def envelopeIn (fmt : EnvelopeFormat β) (fs : FileSystem β) (d : FilePath) (t : String) :
    Option TaskEnvelope :=
  (fs.file d t.toList).bind fun i => fmt.fromStr (fs.data i)

def poolOf (q : MaildirQueue) (fmt : EnvelopeFormat β) (fs : FileSystem β) : TaskPool :=
  ⟨envelopeIn fmt fs q.new, envelopeIn fmt fs q.cur⟩

def EnvelopeFormat.reread (fmt : EnvelopeFormat β) (envelope : TaskEnvelope) : TaskEnvelope :=
  (fmt.fromStr (fmt.toVecPretty envelope)).getD envelope

section View

variable {q : MaildirQueue} {fmt : EnvelopeFormat β} {fs : FileSystem β} {d d' : FilePath}
  {t : String} {i : Nat}

theorem EnvelopeFormat.Lawful.fromStr_toVecPretty [FileContents β] (hf : fmt.Lawful)
    (env : TaskEnvelope) (hn : env.payload.nesting ≤ payloadLimit) :
    fmt.fromStr (fmt.toVecPretty env) = some (fmt.reread env) ∧ (fmt.reread env).SameHeader env := by
  obtain ⟨env', hr, hh⟩ := hf.readable env hn
  have hrd : fmt.reread env = env' := by
    rw [EnvelopeFormat.reread, hr]
    rfl
  rw [hrd]
  exact ⟨hr, hh⟩

theorem envelopeIn_moveFile (fmt : EnvelopeFormat β) (fs : FileSystem β) (d d' e : FilePath)
    (t o : String) (i : Nat) :
    envelopeIn fmt (moveFile fs d d' t i) e o =
      if e = d' ∧ o = t then fmt.fromStr (fs.data i)
      else if e = d ∧ o = t then none else envelopeIn fmt fs e o := by
  unfold envelopeIn
  rw [file_moveFile]
  simp only [String.toList_inj]
  split_ifs <;> rfl

theorem envelopeIn_unlink (fmt : EnvelopeFormat β) (fs : FileSystem β) (d e : FilePath) (t o : String) :
    envelopeIn fmt (fs.unlink (d ++ [t.toList])) e o =
      if e = d ∧ o = t then none else envelopeIn fmt fs e o := by
  unfold envelopeIn
  rw [FileSystem.file_unlink]
  simp only [String.toList_inj]
  split_ifs <;> rfl

theorem envelopeIn_setData (hs : fs.Sole) (hf : fs.file d t.toList = some i) (cs : β)
    (e : FilePath) (o : String) :
    envelopeIn fmt (fs.setData i cs) e o =
      if e = d ∧ o = t then fmt.fromStr cs else envelopeIn fmt fs e o := by
  unfold envelopeIn
  rw [FileSystem.file_setData]
  split_ifs with hp
  · rw [hp.1, hp.2, hf]
    simp [FileSystem.setData]
  · cases ho : fs.file e o.toList with
    | none => rfl
    | some j =>
      have hne : j ≠ i := by
        rintro rfl
        obtain ⟨hd, hn⟩ := hs.injective _ _ _ _ _ ho hf
        exact hp ⟨hd, String.toList_inj.mp hn⟩
      simp [FileSystem.setData, hne]

structure Tidy (q : MaildirQueue) (fmt : EnvelopeFormat β) (fs : FileSystem β) : Prop where
  opened : q.Opened fs
  sole : fs.Sole
  reads : ∀ d x i, d = q.new ∨ d = q.cur → fs.file d x = some i →
    isPlain x = true ∧ ∃ task, fmt.fromStr (fs.data i) = some task ∧ task.id.toList = x

theorem Tidy.exists_file (h : Tidy q fmt fs) (hd : d = q.new ∨ d = q.cur)
    {k : TaskEnvelope} (ht : envelopeIn fmt fs d t = some k) :
    ∃ i, fs.file d t.toList = some i ∧ fmt.fromStr (fs.data i) = some k ∧
      k.id = t ∧ isPlain t.toList = true := by
  obtain ⟨i, hf, hr⟩ := Option.bind_eq_some_iff.mp ht
  obtain ⟨hp, k', hr', hid⟩ := h.reads d _ i hd hf
  obtain rfl : k = k' := Option.some.inj (hr.symm.trans hr')
  exact ⟨i, hf, hr, String.toList_inj.mp hid, hp⟩

theorem Tidy.mem_entries (h : Tidy q fmt fs) (hd : d = q.new ∨ d = q.cur)
    {k : TaskEnvelope} (ht : envelopeIn fmt fs d t = some k) :
    ⟨t.toList, true⟩ ∈ fs.entries d := by
  obtain ⟨i, hf, -⟩ := h.exists_file hd ht
  rw [FileSystem.mem_entries (h.opened.flat hd), hf]
  exact ⟨rfl, rfl⟩

theorem Tidy.file_eq_none (h : Tidy q fmt fs) (hd : d = q.new ∨ d = q.cur)
    (hn : envelopeIn fmt fs d t = none) : fs.file d t.toList = none := by
  cases hf : fs.file d t.toList with
  | none => rfl
  | some i =>
    obtain ⟨-, task, hr, -⟩ := h.reads d _ i hd hf
    rw [envelopeIn, hf, Option.bind_some, hr] at hn
    cases hn

theorem Tidy.unlink (h : Tidy q fmt fs) (t : String) : Tidy q fmt (fs.unlink (q.cur ++ [t.toList])) := by
  refine ⟨h.opened.imp fun _ hf => hf.unlink h.opened.cur _, h.sole.unlink _ _, ?_⟩
  intro e x j he hfl
  rw [FileSystem.file_unlink] at hfl
  split_ifs at hfl
  exact h.reads e x j he hfl

theorem Tidy.moveFile (h : Tidy q fmt fs) (hd : d = q.new ∨ d = q.cur)
    (hd' : d' = q.new ∨ d' = q.cur) (hf : fs.file d t.toList = some i) :
    Tidy q fmt (moveFile fs d d' t i) := by
  refine ⟨h.opened.moveFile (h.opened.flat hd) (h.opened.flat hd') _ _, h.sole.relink hf _ _, ?_⟩
  intro e x j he ho
  rw [file_moveFile] at ho
  split_ifs at ho with hp
  · cases ho
    rw [hp.2]
    exact h.reads d _ _ hd hf
  · exact h.reads e x j he ho

theorem Tidy.setData (h : Tidy q fmt fs) (hf : fs.file d t.toList = some i)
    {cs : β} {task : TaskEnvelope} (hr : fmt.fromStr cs = some task)
    (hid : task.id = t) (hp : isPlain t.toList = true) :
    Tidy q fmt (fs.setData i cs) := by
  refine ⟨h.opened.setData _ _, h.sole.setData _ _, ?_⟩
  intro e x j he ho
  rw [FileSystem.file_setData] at ho
  by_cases hj : j = i
  · subst hj
    obtain ⟨-, rfl⟩ := h.sole.injective _ _ _ _ _ ho hf
    refine ⟨hp, task, ?_, by rw [hid]⟩
    simp [FileSystem.setData, hr]
  · obtain ⟨hp', task', hr', hid'⟩ := h.reads e x j he ho
    refine ⟨hp', task', ?_, hid'⟩
    simp [FileSystem.setData, hj, hr']

theorem poolOf_putBack (hf : fs.file q.cur t.toList = some i) : poolOf q fmt (moveFile fs q.cur q.new t i) =
      (poolOf q fmt fs).putBack t := by
  have hne := q.new_ne_cur
  have hr : envelopeIn fmt fs q.cur t = fmt.fromStr (fs.data i) := by
    rw [envelopeIn, hf, Option.bind_some]
  unfold poolOf putBack
  congr 1
  · funext other
    rw [envelopeIn_moveFile]
    by_cases ho : other = t <;> simp [ho, hr]
  · funext other
    rw [envelopeIn_moveFile]
    by_cases ho : other = t <;> simp [ho, hne.symm]

theorem poolOf_unlink (q : MaildirQueue) (fmt : EnvelopeFormat β) (fs : FileSystem β) (t : String) :
    poolOf q fmt (fs.unlink (q.cur ++ [t.toList])) = (poolOf q fmt fs).remove t := by
  have hne := q.new_ne_cur
  unfold poolOf remove
  congr 1
  · funext other
    rw [envelopeIn_unlink, if_neg fun hp => hne hp.1]
  · funext other
    rw [envelopeIn_unlink]
    by_cases ho : other = t <;> simp [ho]

end View

def entryEnvelope (fmt : EnvelopeFormat β) (fs : FileSystem β) (d : FilePath) (entry : DirEntry) :
    Option TaskEnvelope :=
  if entry.isFile then
    match fs.read ⟨d, entry.name⟩ with
    | .error _ => none
    | .ok contents => fmt.fromStr contents
  else none

section Reading

variable [FileContents β] {q : MaildirQueue} {fmt : EnvelopeFormat β} {fs : FileSystem β}
  {d : FilePath}

theorem readEnvelopes_yields (es : List DirEntry) (rs : List TaskEnvelope) :
    (readEnvelopes fmt d none es rs).Yields fs fun r fs' =>
      r = .ok (rs ++ es.filterMap (entryEnvelope fmt fs d)) ∧ fs' = fs := by
  induction es generalizing rs with
  | nil =>
    refine yields_done ⟨?_, rfl⟩
    rw [List.filterMap_nil, List.append_nil]
  | cons entry es ih =>
    rw [readEnvelopes, List.filterMap_cons, entryEnvelope]
    split_ifs
    · refine yields_read ?_
      cases fs.read ⟨d, entry.name⟩ with
      | error e => exact ih rs
      | ok cs =>
        cases hp : fmt.fromStr cs with
        | none =>
          simp only [hp]
          exact ih rs
        | some task =>
          simp only [hp]
          rw [List.append_cons rs task (es.filterMap _)]
          exact ih (rs ++ [task])
    · exact ih rs

omit [FileContents β] in
theorem Tidy.entryEnvelope_eq_some (h : Tidy q fmt fs) (hd : d = q.new ∨ d = q.cur)
    {entry : DirEntry} (he : entry ∈ fs.entries d) {k : TaskEnvelope} :
    entryEnvelope fmt fs d entry = some k ↔ envelopeIn fmt fs d k.id = some k ∧ k.id.toList = entry.name := by
  obtain ⟨hif, hs⟩ := (FileSystem.mem_entries (h.opened.flat hd) entry).mp he
  obtain ⟨i, hf⟩ := Option.isSome_iff_exists.mp hs
  obtain ⟨hp, task', hr, hid⟩ := h.reads d _ i hd hf
  have heq : entryEnvelope fmt fs d entry = some task' := by
    simp [entryEnvelope, hif, FileSystem.read_plain (h.opened.flat hd) hp, hf, hr]
  rw [heq, Option.some.injEq]
  constructor
  · rintro rfl
    refine ⟨?_, hid⟩
    rw [envelopeIn, hid, hf, Option.bind_some, hr]
  · rintro ⟨ht, hn⟩
    rw [envelopeIn, hn, hf, Option.bind_some, hr] at ht
    exact Option.some.inj ht

omit [FileContents β] in
theorem Tidy.lists (h : Tidy q fmt fs) (hd : d = q.new ∨ d = q.cur)
    {l : List DirEntry} (hp : l.Perm (fs.entries d)) :
    Lists (l.filterMap (entryEnvelope fmt fs d)) (envelopeIn fmt fs d) := by
  refine ⟨?_, ?_⟩
  · -- the ids are some of the names in the listing
    have hn := (hp.map _).nodup_iff.mpr (FileSystem.nodup_entries fs d)
    rw [List.Nodup, List.pairwise_map] at hn ⊢
    rw [List.pairwise_filterMap]
    refine hn.imp_of_mem ?_
    intro entry entry' he he' hne k ht k' ht' hid
    refine hne ?_
    rw [← ((h.entryEnvelope_eq_some hd (hp.mem_iff.mp he)).mp ht).2, hid,
      ((h.entryEnvelope_eq_some hd (hp.mem_iff.mp he')).mp ht').2]
  · intro t k
    rw [List.mem_filterMap]
    constructor
    · intro ht
      obtain ⟨-, -, -, hid, -⟩ := h.exists_file hd ht
      have he := h.mem_entries hd ht
      refine ⟨⟨_, hp.mem_iff.mpr he, ?_⟩, hid⟩
      rw [h.entryEnvelope_eq_some hd he, hid]
      exact ⟨ht, rfl⟩
    · rintro ⟨⟨entry, he, ht⟩, rfl⟩
      exact ((h.entryEnvelope_eq_some hd (hp.mem_iff.mp he)).mp ht).1

theorem listEnvelopes_yields (h : Tidy q fmt fs) (hd : d = q.new ∨ d = q.cur) :
    (listEnvelopes fmt d).Yields fs fun r fs' =>
      ∃ envs, r = .ok envs ∧ fs' = fs ∧ Lists envs (envelopeIn fmt fs d) := by
  refine yields_readDir (FileSystem.readDir_flat (h.opened.flat hd)) ?_
  intro l hp
  refine (readEnvelopes_yields l []).mono ?_
  rintro r fs' ⟨rfl, rfl⟩
  exact ⟨_, rfl, rfl, h.lists hd hp⟩

end Reading

def saturatingBump (attempts : Nat) : Nat := min (attempts + 1) (2 ^ 32 - 1)

theorem TaskEnvelope.attempts_claimedBy (k : TaskEnvelope) (owner : Option String) :
    (k.claimedBy owner).attempts.toNat = saturatingBump k.attempts.toNat := by
  have hlt := k.attempts.toNat_lt
  unfold claimedBy saturatingBump
  by_cases hm : k.attempts = UInt32.ofNat (2 ^ 32 - 1)
  · rw [if_pos hm, hm]
    rfl
  · have hne : k.attempts.toNat ≠ 2 ^ 32 - 1 := by
      intro heq
      exact hm (UInt32.toNat_inj.mp heq)
    simp only [if_neg hm, UInt32.toNat_add]
    have ho : (1 : UInt32).toNat = 1 := rfl
    rw [ho]
    omega

theorem TaskEnvelope.before_iff (a b : TaskEnvelope) : a.before b ↔ a.priority.toNat < b.priority.toNat ∨
      a.priority.toNat = b.priority.toNat ∧ a.createdAt.toNat ≤ b.createdAt.toNat := by
  rw [before, UInt8.lt_iff_toNat_lt, UInt64.le_iff_toNat_le, UInt8.toNat_inj]

instance : Std.Total before where
  total a b := by
    rw [before_iff, before_iff]
    omega

instance : IsTrans TaskEnvelope before where
  trans a b c := by
    rw [before_iff, before_iff, before_iff]
    omega

section Operations

/-- Run alone on these files, the operation makes a step of the pool. -/
abbrev Simulates [FileContents β] (q : MaildirQueue) (fmt : EnvelopeFormat β) (fs : FileSystem β)
    (op : TaskOp) : Prop :=
  (op.program q fmt).Yields fs fun result fs' =>
    Tidy q fmt fs' ∧ (poolOf q fmt fs).Step fmt.reread saturatingBump op result (poolOf q fmt fs')

variable [FileContents β] {q : MaildirQueue} {fmt : EnvelopeFormat β} {fs : FileSystem β}
  {t : String}

theorem Tidy.staged {i : Nat} {fs₁ : FileSystem β} (h : Tidy q fmt fs) (hp : isPlain t.toList = true)
    (hc : fs.create (q.tmp.join t) = .ok (i, fs₁)) (cs : β) :
    q.Opened (fs₁.write i cs) ∧ (fs₁.write i cs).Sole ∧ (fs₁.write i cs).file q.tmp t.toList = some i ∧
      (fs₁.write i cs).data i = cs ∧
      ∀ d x, d = q.new ∨ d = q.cur → (fs₁.write i cs).file d x = fs.file d x ∧
        ∀ j, fs.file d x = some j → (fs₁.write i cs).data j = fs.data j := by
  obtain ⟨ho, hdt, hf⟩ := create_spec h.opened h.opened.tmp hp hc
  have hs := h.sole.create h.opened.tmp hp hc
  have hw : fs₁.write i cs = fs₁.setData i cs := by
    rw [FileSystem.write, hdt, Function.update_self, FileContents.overwrite_empty]
  rw [hw]
  refine ⟨ho.setData _ _, hs.setData _ _, ?_, by simp [FileSystem.setData], ?_⟩
  · rw [FileSystem.file_setData, hf, if_pos ⟨rfl, rfl⟩]
  · intro d x hd
    have hdm := ne_tmp hd
    refine ⟨?_, ?_⟩
    · rw [FileSystem.file_setData, hf, if_neg fun hpl => hdm hpl.1]
    · intro j hold
      have hne := ne_created h.sole h.opened.tmp hp hc hdm hold
      simp [FileSystem.setData, hdt, hne]

theorem enqueue_yields (hf : fmt.Lawful) (h : Tidy q fmt fs) {now : UInt64} {p : Value}
    {priority : UInt8} (hp : isPlain t.toList = true)
    (hn : p.nesting ≤ payloadLimit) :
    (q.enqueue fmt t now p priority).Yields fs fun r fs' =>
      r = .ok t ∧ Tidy q fmt fs' ∧ poolOf q fmt fs' = (poolOf q fmt fs).add t
          (fmt.reread (newTask t now p priority)) := by
  obtain ⟨hr, hid, -⟩ := hf.fromStr_toVecPretty (newTask t now p priority) hn
  obtain ⟨i, fs₁, hc⟩ := exists_create_eq h.opened.tmp hp
  obtain ⟨ho, hs, hfl, hdt, hrest⟩ := h.staged hp hc (fmt.toVecPretty (newTask t now p priority))
  have hv : ∀ d, d = q.new ∨ d = q.cur → ∀ o,
      envelopeIn fmt (fs₁.write i (fmt.toVecPretty (newTask t now p priority))) d
        o = envelopeIn fmt fs d o := by
    intro d hd o
    obtain ⟨hold, hsm⟩ := hrest d o.toList hd
    unfold envelopeIn
    rw [hold]
    cases hot : fs.file d o.toList with
    | none => rfl
    | some j => exact congrArg fmt.fromStr (hsm j hot)
  have hrn := answer_rename ho.tmp ho.new q.tmp_ne_new hp
  rw [hfl] at hrn
  refine yields_create hc ?_
  refine yields_write ?_
  refine yields_rename hrn ?_
  refine yields_done ⟨rfl, ?_, ?_⟩
  · refine ⟨ho.moveFile ho.tmp ho.new _ _,
      hs.relink hfl _ _, ?_⟩
    intro e x j he hot
    rw [file_moveFile] at hot
    split_ifs at hot with hpl
    · cases hot
      refine ⟨hpl.2 ▸ hp, _, (congrArg fmt.fromStr hdt).trans hr, ?_⟩
      rw [hid, hpl.2]
      rfl
    · obtain ⟨hold, hsm⟩ := hrest e x he
      rw [hold] at hot
      obtain ⟨hp', task, hr', hid'⟩ := h.reads e x j he hot
      exact ⟨hp', task, (congrArg fmt.fromStr (hsm j hot)).trans hr', hid'⟩
  · have htc := q.tmp_ne_cur
    have hnc := q.new_ne_cur
    unfold poolOf add
    congr 1
    · funext o
      rw [envelopeIn_moveFile, hdt, hr]
      by_cases hot : o = t <;> simp [hot, hv q.new (.inl rfl)]
    · funext o
      rw [envelopeIn_moveFile]
      by_cases hot : o = t <;>
        simp [hot, hnc.symm, htc.symm, hv q.cur (.inr rfl)]

theorem claimFirst_yields (hf : fmt.Lawful) (h : Tidy q fmt fs) {k : TaskEnvelope}
    (ht : envelopeIn fmt fs q.new k.id = some k) (owner : Option String)
    (rs : List TaskEnvelope) :
    (q.claimFirst fmt owner (k :: rs)).Yields fs fun r fs' =>
      r = .ok (some (k.claimedBy owner)) ∧ Tidy q fmt fs' ∧ poolOf q fmt fs' =
          (poolOf q fmt fs).take k.id (fmt.reread (k.claimedBy owner)) := by
  obtain ⟨i, hfl, hold, -, hp⟩ := h.exists_file (.inl rfl) ht
  have hn : k.payload.nesting ≤ payloadLimit := hf.shallow _ k hold
  obtain ⟨hr, hid, -⟩ := hf.fromStr_toVecPretty (k.claimedBy owner) hn
  have hm := h.moveFile (.inl rfl) (.inr rfl) hfl
  have hcr : (moveFile fs q.new q.cur k.id i).file q.cur k.id.toList = some i := by
    rw [file_moveFile, if_pos ⟨rfl, rfl⟩]
  have hc := FileSystem.create_plain hm.opened.cur hp
  rw [hcr] at hc
  have hrn := answer_rename h.opened.new h.opened.cur q.new_ne_cur hp
  rw [hfl] at hrn
  refine yields_rename hrn ?_
  refine yields_create hc ?_
  refine yields_write ?_
  have hw : ((moveFile fs q.new q.cur k.id i).setData i FileContents.empty).write i
      (fmt.toVecPretty (k.claimedBy owner)) = (moveFile fs q.new q.cur k.id i).setData i
          (fmt.toVecPretty (k.claimedBy owner)) := by
    simp [FileSystem.write, FileSystem.setData, FileContents.overwrite_empty]
  rw [hw]
  refine yields_done ⟨rfl, hm.setData hcr hr hid hp, ?_⟩
  have hne := q.new_ne_cur
  unfold poolOf take
  congr 1
  · funext other
    rw [envelopeIn_setData hm.sole hcr, envelopeIn_moveFile]
    by_cases ho : other = k.id <;> simp [ho, hne]
  · funext other
    rw [envelopeIn_setData hm.sole hcr, envelopeIn_moveFile]
    by_cases ho : other = k.id <;> simp [ho, hr]

omit [FileContents β] in
theorem TaskPool.Lists.eq_none_of_nil {tasks : String → Option TaskEnvelope}
    (h : Lists [] tasks) (t : String) : tasks t = none := by
  rw [Option.eq_none_iff_forall_ne_some]
  intro k ht
  cases ((h.mem_iff t k).mp ht).1

theorem claim_yields (hf : fmt.Lawful) (h : Tidy q fmt fs) (owner : Option String) :
    Simulates q fmt fs (.claim owner) := by
  refine yields_bind (yields_bind ?_)
  refine (listEnvelopes_yields h (.inl rfl)).mono ?_
  rintro _ _ ⟨envs, rfl, rfl, hl⟩
  have hs := List.pairwise_insertionSort before envs
  have hm : ∀ k, k ∈ envs.insertionSort before ↔ k ∈ envs :=
    fun k => List.mem_insertionSort _
  show Yields (q.claimFirst fmt owner (envs.insertionSort before)) _ _
  cases hc : envs.insertionSort before with
  | nil =>
    have hp := List.perm_insertionSort before envs
    rw [hc] at hp
    obtain rfl := hp.nil_eq
    refine yields_done (yields_done ⟨h, ?_⟩)
    exact .claimNothing hl.eq_none_of_nil
  | cons k rs =>
    rw [hc] at hs hm
    have ht := (hl.mem_iff k.id k).mpr ⟨(hm k).mp List.mem_cons_self, rfl⟩
    refine (claimFirst_yields hf h ht owner rs).mono ?_
    rintro _ fs' ⟨rfl, htd, hpl⟩
    refine yields_done ⟨htd, ?_⟩
    rw [hpl]
    refine .claim ht ?_ (k.attempts_claimedBy owner)
    -- the first of the sorted candidates comes before all of them
    intro t o ho
    have hin := (hm o).mpr ((hl.mem_iff t o).mp ho).1
    rcases List.mem_cons.mp hin with rfl | hin
    · exact (total_of before o o).elim id id
    · exact List.rel_of_pairwise_cons hs hin

theorem ack_yields (h : Tidy q fmt fs) (hp : isPlain t.toList = true) : Simulates q fmt fs (.ack t) := by
  have hr := answer_remove h.opened.cur hp
  cases hpl : envelopeIn fmt fs q.cur t with
  | none =>
    rw [h.file_eq_none (.inr rfl) hpl] at hr
    refine yields_remove hr ?_
    exact yields_done ⟨h, .ackUnknown hpl⟩
  | some k =>
    obtain ⟨i, hf, -⟩ := h.exists_file (.inr rfl) hpl
    rw [hf] at hr
    refine yields_remove hr ?_
    refine yields_done ⟨h.unlink t, ?_⟩
    rw [poolOf_unlink]
    exact .ack hpl

theorem nack_yields (h : Tidy q fmt fs) (hp : isPlain t.toList = true) : Simulates q fmt fs (.nack t) := by
  have hrn := answer_rename h.opened.cur h.opened.new q.new_ne_cur.symm hp
  cases hpl : envelopeIn fmt fs q.cur t with
  | none =>
    rw [h.file_eq_none (.inr rfl) hpl] at hrn
    refine yields_rename hrn ?_
    exact yields_done ⟨h, .nackUnknown hpl⟩
  | some k =>
    obtain ⟨i, hf, -⟩ := h.exists_file (.inr rfl) hpl
    rw [hf] at hrn
    refine yields_rename hrn ?_
    refine yields_done ⟨h.moveFile (.inr rfl) (.inl rfl) hf, ?_⟩
    rw [poolOf_putBack hf]
    exact .nack hpl

theorem reclaimEntries_yields (owner : String) (es : List DirEntry) (n : Nat)
    (h : Tidy q fmt fs) (hn : (es.map DirEntry.name).Nodup)
    (he : ∀ entry ∈ es, entry ∈ fs.entries q.cur) :
    (q.reclaimEntries fmt owner none es n).Yields fs fun r fs' =>
      ∃ ts : List String, ts.Nodup ∧ (∀ t, t ∈ ts ↔ t.toList ∈ es.map DirEntry.name ∧
          (poolOf q fmt fs).isOwned owner t = true) ∧
        r = .ok (n + ts.length) ∧ Tidy q fmt fs' ∧
        poolOf q fmt fs' = ts.foldl putBack (poolOf q fmt fs) := by
  induction es generalizing fs n with
  | nil =>
    refine yields_done ⟨[], List.nodup_nil, ?_, rfl, h, rfl⟩
    intro t
    simp
  | cons entry es ih =>
    obtain ⟨hen, hrest⟩ := List.forall_mem_cons.mp he
    obtain ⟨hnt, hn'⟩ := List.nodup_cons.mp hn
    obtain ⟨hif, hs⟩ := (FileSystem.mem_entries h.opened.cur entry).mp hen
    obtain ⟨i, hf⟩ := Option.isSome_iff_exists.mp hs
    obtain ⟨hp, task, hr, hid⟩ := h.reads q.cur _ i (.inr rfl) hf
    have ht : (poolOf q fmt fs).inFlight task.id = some task := by
      show envelopeIn fmt fs q.cur task.id = some task
      rw [envelopeIn, hid, hf, Option.bind_some, hr]
    have ho : ∀ t : String, t.toList = entry.name →
        ((poolOf q fmt fs).isOwned owner t = true ↔ task.owner = some owner) := by
      intro t hnm
      obtain rfl : t = task.id := String.toList_inj.mp (hnm.trans hid.symm)
      rw [isOwned, ht, Option.any_some, decide_eq_true_iff]
    rw [reclaimEntries, if_pos hif]
    refine yields_read ?_
    rw [FileSystem.read_plain h.opened.cur hp, hf]
    simp only [hr]
    by_cases how : task.owner = some owner
    · rw [if_pos how]
      rw [← hid] at hf hp hnt
      have hrn := answer_rename h.opened.cur h.opened.new q.new_ne_cur.symm hp
      rw [hf, join, join, hid] at hrn
      refine yields_rename hrn ?_
      have hm := h.moveFile (.inr rfl) (.inl rfl) hf
      refine (ih (n + 1) hm hn' ?_).mono ?_
      · -- the entries that follow are still in `cur`
        intro o hot
        have hne : o.name ≠ task.id.toList := fun heq => hnt (heq ▸ List.mem_map_of_mem hot)
        rw [FileSystem.mem_entries hm.opened.cur, file_moveFile,
          if_neg fun hpl => hne hpl.2, if_neg fun hpl => hne hpl.2]
        exact (FileSystem.mem_entries h.opened.cur o).mp (hrest o hot)
      · rintro r fs' ⟨ts, hi, hme, hrs, htd, hpo⟩
        rw [poolOf_putBack hf] at hme hpo
        have hfr : task.id ∉ ts := fun hin => hnt ((hme task.id).mp hin).1
        refine ⟨task.id :: ts, List.nodup_cons.mpr ⟨hfr, hi⟩, ?_, ?_, htd, hpo⟩
        · intro t
          rw [List.map_cons, List.mem_cons, List.mem_cons, hme]
          by_cases heq : t = task.id
          · subst heq
            simp [hid, (ho _ hid).mpr how]
          · have hnm : t.toList ≠ entry.name := by
              intro hnm
              exact heq (String.toList_inj.mp (hnm.trans hid.symm))
            simp only [heq, hnm, false_or, isOwned_putBack_of_ne heq]
        · rw [hrs, List.length_cons]
          congr 1
          omega
    · rw [if_neg how]
      refine (ih n h hn' hrest).mono ?_
      rintro r fs' ⟨ts, hi, hme, hrs, htd, hpo⟩
      refine ⟨ts, hi, ?_, hrs, htd, hpo⟩
      intro t
      rw [hme, List.map_cons, List.mem_cons]
      constructor
      · rintro ⟨hin, hon⟩
        exact ⟨.inr hin, hon⟩
      · rintro ⟨hnm | hin, hon⟩
        · exact absurd ((ho t hnm).mp hon) how
        · exact ⟨hin, hon⟩

theorem reclaimOwner_yields (h : Tidy q fmt fs) (owner : String) : Simulates q fmt fs (.reclaimOwner owner) := by
  refine yields_bind ?_
  refine yields_readDir (FileSystem.readDir_flat h.opened.cur) ?_
  intro l hp
  have hn : (l.map DirEntry.name).Nodup := (hp.map _).nodup_iff.mpr (FileSystem.nodup_entries fs q.cur)
  refine (reclaimEntries_yields owner l 0 h hn fun entry => hp.mem_iff.mp).mono ?_
  rintro _ fs' ⟨ts, hi, hm, rfl, htd, hpl⟩
  have hm' : ∀ t, t ∈ ts ↔ (poolOf q fmt fs).isOwned owner t = true := by
    intro t
    rw [hm]
    refine ⟨And.right, fun hon => ⟨?_, hon⟩⟩
    -- a task in flight has an entry in the listing
    obtain ⟨k, ht, -⟩ := (isOwned_iff _ _ _).mp hon
    exact List.mem_map.mpr ⟨_, hp.mem_iff.mpr (h.mem_entries (.inr rfl) ht), rfl⟩
  refine yields_done ⟨htd, ?_⟩
  rw [hpl, foldl_putBack hi hm', Nat.zero_add]
  exact .reclaim (encard_of_nodup hi fun t => (hm' t).symm)

/-- **An operation that runs alone makes a step of the pool.** -/
theorem program_yields (hf : fmt.Lawful) (h : Tidy q fmt fs) (op : TaskOp)
    (hp : op.hasPlainId = true) (hs : op.hasShallowPayload = true)
    (hfr : ∀ t, op.issues = some t →
      (poolOf q fmt fs).pending t = none ∧ (poolOf q fmt fs).inFlight t = none) :
    Simulates q fmt fs op := by
  cases op with
  | enqueue t now p priority =>
    obtain ⟨hpn, hif⟩ := hfr t rfl
    refine yields_bind ?_
    refine (enqueue_yields hf h hp (of_decide_eq_true hs)).mono ?_
    rintro _ fs' ⟨rfl, htd, hpl⟩
    refine yields_done ⟨htd, ?_⟩
    rw [hpl]
    exact .enqueue hpn hif
  | claim owner => exact claim_yields hf h owner
  | ack t => exact ack_yields h hp
  | nack t => exact nack_yields h hp
  | reclaimOwner owner => exact reclaimOwner_yields h owner
  | listPending | status =>
    refine yields_bind (yields_bind ?_)
    refine (listEnvelopes_yields h (.inl rfl)).mono ?_
    rintro _ _ ⟨ready, rfl, rfl, hr⟩
    refine yields_bind ?_
    refine (listEnvelopes_yields h (.inr rfl)).mono ?_
    rintro _ _ ⟨il, rfl, rfl, hif⟩
    refine yields_done (yields_done ⟨h, ?_⟩)
    first
    | exact .listPending hr hif
    | exact .status hr.encard hif.encard rfl

end Operations

end ShareCli.Mesh
