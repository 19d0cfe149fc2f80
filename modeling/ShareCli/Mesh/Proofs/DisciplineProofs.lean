import ShareCli.Mesh.TaskRuns

/-!
# What the operations of the task queue do to its files

A new task is written in `tmp` and then moved to `new`; a task is moved to `cur` and then opened and written
again; apart from that tasks are only moved back and removed (`Disciplined`).
-/

namespace ShareCli.Mesh

open Foundation FilePath FsCall MaildirQueue List

variable {β : Type}

namespace MaildirQueue

variable {q : MaildirQueue} {fs : FileSystem β}

theorem tmp_ne_new (q : MaildirQueue) : q.tmp ≠ q.new := by
  simp [tmp, new]

theorem new_ne_cur (q : MaildirQueue) : q.new ≠ q.cur := by
  simp [new, cur]

theorem tmp_ne_cur (q : MaildirQueue) : q.tmp ≠ q.cur := by
  simp [tmp, cur]

structure Opened (q : MaildirQueue) (fs : FileSystem β) : Prop where
  tmp : fs.Flat q.tmp
  new : fs.Flat q.new
  cur : fs.Flat q.cur

variable {d : FilePath}

theorem Opened.flat (h : q.Opened fs) (hd : d = q.new ∨ d = q.cur) : fs.Flat d := by
  rcases hd with rfl | rfl
  · exact h.new
  · exact h.cur

theorem ne_tmp (hd : d = q.new ∨ d = q.cur) : d ≠ q.tmp := by
  rintro rfl
  exact hd.elim q.tmp_ne_new q.tmp_ne_cur

theorem Opened.imp {fs' : FileSystem β} (h : q.Opened fs) (hf : ∀ d, fs.Flat d → fs'.Flat d) : q.Opened fs' :=
  ⟨hf _ h.tmp, hf _ h.new, hf _ h.cur⟩

theorem Opened.setData (h : q.Opened fs) (i : Nat) (cs : β) : q.Opened (fs.setData i cs) :=
  h.imp fun _ hf => hf.setData i cs

section Open

variable [FileContents β]

theorem node_openIn (q : MaildirQueue) (r : FilePath) : (q.openIn (.empty : FileSystem β)).node r =
      if r <+: q.tmp ∨ r <+: q.new ∨ r <+: q.cur then some .dir else none := by
  have he : (FileSystem.empty : FileSystem β).node r = if r = [] then some .dir else none := rfl
  simp only [openIn, foldl_cons, foldl_nil, FileSystem.node_createDirAll, he]
  by_cases hr : r = []
  · subst hr
    simp
  · by_cases ht : r <+: q.tmp <;> by_cases hn : r <+: q.new <;>
      by_cases hc : r <+: q.cur <;> simp [hr, ht, hn, hc]

theorem length_le_of_isPrefix {r : FilePath} (h : r <+: q.tmp ∨ r <+: q.new ∨ r <+: q.cur) :
    r.length ≤ q.path.length + 1 := by
  rcases h with h | h | h
  · simpa [tmp] using h.length_le
  · simpa [new] using h.length_le
  · simpa [cur] using h.length_le

theorem flat_openIn (q : MaildirQueue) {d : FilePath} (hd : d.length = q.path.length + 1)
    (hdr : d <+: q.tmp ∨ d <+: q.new ∨ d <+: q.cur) :
    (q.openIn (.empty : FileSystem β)).Flat d := by
  refine ⟨by rw [node_openIn, if_pos hdr], fun x => ?_⟩
  rw [node_openIn, if_neg]
  · simp
  · intro hp
    have hl := length_le_of_isPrefix hp
    rw [length_append, length_singleton] at hl
    omega

theorem opened_openIn (q : MaildirQueue) : q.Opened (q.openIn (.empty : FileSystem β)) :=
  ⟨flat_openIn q (by simp [tmp]) (.inl (prefix_refl _)),
    flat_openIn q (by simp [new]) (.inr (.inl (prefix_refl _))),
    flat_openIn q (by simp [cur]) (.inr (.inr (prefix_refl _)))⟩

theorem file_openIn (q : MaildirQueue) (d : FilePath) (x : List Char) :
    (q.openIn (.empty : FileSystem β)).file d x = none := by
  unfold FileSystem.file
  rw [node_openIn]
  split_ifs <;> rfl

theorem sole_openIn (q : MaildirQueue) : (q.openIn (.empty : FileSystem β)).Sole := by
  refine ⟨fun d x d' x' i hf => ?_, fun d x i hf => ?_⟩ <;>
    simp [file_openIn] at hf

end Open

end MaildirQueue

/-- An envelope with a plain id, whose payload can be written and read again. -/
def TaskEnvelope.Regular (ev : TaskEnvelope) : Prop :=
  isPlain ev.id.toList = true ∧ ev.payload.nesting ≤ payloadLimit

def EnvelopeFormat.WellNamed (fmt : EnvelopeFormat β) (contents : β) : Prop :=
  ∀ ev, fmt.fromStr contents = some ev → ev.Regular

/-- How far an operation has come with the task it writes. -/
inductive Phase where
  | free
  /-- The file in `tmp` is open. -/
  | staging (inode : Nat)
  | staged (inode : Nat)
  /-- The new task is in `new`; nothing is left to do. -/
  | delivered
  /-- The task has been moved to `cur`; its file is opened next. -/
  | claimed (t : String)
  /-- The file in `cur` is open and empty. -/
  | reopened (t : String) (inode : Nat)

variable (q : MaildirQueue) (fmt : EnvelopeFormat β) (op : TaskOp) in
/-- The programs that keep to the protocol of the queue, by the phase they are in. -/
inductive Disciplined : Phase → FsProgram β TaskResult → Prop where
  | done (result : TaskResult) : Disciplined .free (.done result)
  | returned (result : TaskResult) : Disciplined .delivered (.done result)
  | readDir {directory : FilePath} {next : Except IoError Listing → FsProgram β TaskResult}
      (hdir : directory = q.new ∨ directory = q.cur)
      (h : ∀ a, (∀ listing, a = .ok listing → listing.isPlain = true) → Disciplined .free (next a)) :
      Disciplined .free (.call (.readDir directory) next)
  | read {path : JoinedPath} {next : Except IoError β → FsProgram β TaskResult}
      (h : ∀ a, (∀ contents, a = .ok contents → fmt.WellNamed contents) → Disciplined .free (next a)) :
      Disciplined .free (.call (.read path) next)
  | stage {t : String} {now : UInt64} {payload : Value} {prio : UInt8}
      {next : Except IoError Nat → FsProgram β TaskResult}
      (hop : op = .enqueue t now payload prio) (hplain : isPlain t.toList = true)
      (herror : ∀ e, Disciplined .free (next (.error e)))
      (hok : ∀ inode, Disciplined (.staging inode) (next (.ok inode))) :
      Disciplined .free (.call (.create (q.tmp.join t)) next)
  | fill {t : String} {now : UInt64} {payload : Value} {prio : UInt8} {ev : TaskEnvelope}
      {inode : Nat} {next : Except IoError Unit → FsProgram β TaskResult}
      (hop : op = .enqueue t now payload prio) (hplain : isPlain t.toList = true)
      (hid : ev.id = t) (hpayload : ev.payload = payload)
      (herror : ∀ e, Disciplined .free (next (.error e)))
      (hok : Disciplined (.staged inode) (next (.ok ()))) :
      Disciplined (.staging inode)
        (.call (.write inode (fmt.toVecPretty ev)) next)
  | deliver {t : String} {now : UInt64} {payload : Value} {prio : UInt8} {inode : Nat}
      {next : Except IoError Unit → FsProgram β TaskResult}
      (hop : op = .enqueue t now payload prio) (hplain : isPlain t.toList = true)
      (herror : ∀ e, Disciplined .free (next (.error e)))
      (hok : Disciplined .delivered (next (.ok ()))) :
      Disciplined (.staged inode)
        (.call (.rename (q.tmp.join t) (q.new.join t)) next)
  | take {owner : Option String} {t : String} {next : Except IoError Unit → FsProgram β TaskResult}
      (hop : op = .claim owner) (hplain : isPlain t.toList = true)
      (herror : ∀ e, Disciplined .free (next (.error e)))
      (hok : Disciplined (.claimed t) (next (.ok ()))) :
      Disciplined .free
        (.call (.rename (q.new.join t) (q.cur.join t)) next)
  | reopen {owner : Option String} {t : String} {next : Except IoError Nat → FsProgram β TaskResult}
      (hop : op = .claim owner) (hplain : isPlain t.toList = true)
      (herror : ∀ e, Disciplined .free (next (.error e)))
      (hok : ∀ inode, Disciplined (.reopened t inode) (next (.ok inode))) :
      Disciplined (.claimed t) (.call (.create (q.cur.join t)) next)
  | rewrite {owner : Option String} {t : String} {inode : Nat} {ev : TaskEnvelope}
      {next : Except IoError Unit → FsProgram β TaskResult}
      (hop : op = .claim owner) (hid : ev.id = t) (hregular : ev.Regular)
      (h : ∀ a, Disciplined .free (next a)) :
      Disciplined (.reopened t inode)
        (.call (.write inode (fmt.toVecPretty ev)) next)
  | putBack {t : String} {next : Except IoError Unit → FsProgram β TaskResult}
      (hop : op.issues = none) (hplain : isPlain t.toList = true)
      (h : ∀ a, Disciplined .free (next a)) :
      Disciplined .free
        (.call (.rename (q.cur.join t) (q.new.join t)) next)
  | discard {t : String} {next : Except IoError Unit → FsProgram β TaskResult}
      (hop : op = .ack t) (hplain : isPlain t.toList = true)
      (h : ∀ a, Disciplined .free (next a)) :
      Disciplined .free (.call (.remove (q.cur.join t)) next)

section Programs

variable {q : MaildirQueue} {fmt : EnvelopeFormat β} {op : TaskOp} {error : Option IoError}
  {rs : Except TaskError (List TaskEnvelope) → FsProgram β TaskResult}

theorem readEnvelopes_disciplined {directory : FilePath}
    (he : ∀ e, Disciplined q fmt op .free (rs (.error e)))
    (hok : ∀ envs : List TaskEnvelope, (∀ env ∈ envs, env.Regular) →
      Disciplined q fmt op .free (rs (.ok envs)))
    (es : List DirEntry) (res : List TaskEnvelope)
    (hr : ∀ env ∈ res, env.Regular) :
    Disciplined q fmt op .free
      ((readEnvelopes fmt directory error es res).bind rs) := by
  induction es generalizing res with
  | nil =>
    cases error with
    | none => exact hok res hr
    | some e => exact he _
  | cons entry es ih =>
    rw [readEnvelopes]
    split
    next =>
      refine .read ?_
      rintro (e | cs) hn
      · exact ih res hr
      · cases hrd : fmt.fromStr cs with
        | none =>
          simp only [hrd]
          exact ih res hr
        | some env =>
          simp only [hrd]
          refine ih _ (forall_mem_append.mpr ⟨hr, ?_⟩)
          exact forall_mem_singleton.mpr (hn cs rfl env hrd)
    next => exact ih res hr

theorem listEnvelopes_disciplined {α : Type} {directory : FilePath}
    {b : Except TaskError (List TaskEnvelope) → FsProgram β α} {rs : α → FsProgram β TaskResult}
    (hdr : directory = q.new ∨ directory = q.cur)
    (he : ∀ e, Disciplined q fmt op .free ((b (.error e)).bind rs))
    (hok : ∀ envs : List TaskEnvelope, (∀ env ∈ envs, env.Regular) →
      Disciplined q fmt op .free ((b (.ok envs)).bind rs)) :
    Disciplined q fmt op .free
      (((listEnvelopes fmt directory).bind b).bind rs) := by
  rw [FsProgram.bind_assoc]
  refine .readDir hdr ?_
  rintro (e | l) -
  · cases e with
    | notFound => exact hok [] (by simp)
    | other => exact he _
  · exact readEnvelopes_disciplined he hok _ [] (by simp)

theorem claimFirst_disciplined {o : Option String}
    {rs : Except TaskError (Option TaskEnvelope) → FsProgram β TaskResult} (hop : op = .claim o)
    (hrest : ∀ r, Disciplined q fmt op .free (rs r))
    (c : List TaskEnvelope) (hr : ∀ env ∈ c, env.Regular) :
    Disciplined q fmt op .free
      ((q.claimFirst fmt o c).bind rs) := by
  induction c with
  | nil => exact hrest _
  | cons env c ih =>
    obtain ⟨he, hc⟩ := forall_mem_cons.mp hr
    refine .take hop he.1 ?_ (.reopen hop he.1 ?_ ?_)
    · intro e
      cases e with
      | notFound => exact ih hc
      | other => exact hrest _
    · exact fun _ => hrest _
    · intro ino
      refine .rewrite hop rfl he ?_
      rintro (e | _)
      all_goals exact hrest _

theorem Disciplined.putBack_entry {n : List Char} {next : Except IoError Unit → FsProgram β TaskResult}
    (hop : op.issues = none) (hp : isPlain n = true)
    (h : ∀ a, Disciplined q fmt op .free (next a)) :
    Disciplined q fmt op .free (.call (.rename ⟨q.cur, n⟩ ⟨q.new, n⟩) next) := by
  have hn : (String.ofList n).toList = n := String.toList_ofList
  have hb : Disciplined q fmt op .free
      (.call (.rename (q.cur.join (String.ofList n)) (q.new.join (String.ofList n))) next) :=
    .putBack hop (by rw [hn]; exact hp) h
  simp only [join, hn] at hb
  exact hb

theorem reclaimEntries_disciplined {o : String} {rs : Except TaskError Nat → FsProgram β TaskResult}
    (hop : op.issues = none) (hrest : ∀ r, Disciplined q fmt op .free (rs r))
    (es : List DirEntry) (hp : ∀ entry ∈ es, isPlain entry.name = true) (n : Nat) :
    Disciplined q fmt op .free
      ((q.reclaimEntries fmt o error es n).bind rs) := by
  induction es generalizing n with
  | nil => cases error <;> exact hrest _
  | cons entry es ih =>
    obtain ⟨he, hen⟩ := forall_mem_cons.mp hp
    rw [reclaimEntries]
    split
    next =>
      refine .read ?_
      rintro (e | cs) -
      · exact ih hen n
      · cases hrd : fmt.fromStr cs with
        | none =>
          simp only [hrd]
          exact ih hen n
        | some env =>
          simp only [hrd]
          split
          next =>
            refine .putBack_entry hop he ?_
            rintro ((_ | _) | _)
            · exact ih hen n
            · exact hrest _
            · exact ih hen (n + 1)
          next => exact ih hen n
    next => exact ih hen n

def TaskOp.hasPlainId : TaskOp → Bool
  | .enqueue t _ _ _ => isPlain t.toList
  | .ack t => isPlain t.toList
  | .nack t => isPlain t.toList
  | _ => true

/-- **Every operation keeps to the protocol.** -/
theorem program_disciplined (op : TaskOp) (hp : op.hasPlainId = true) :
    Disciplined q fmt op .free (op.program q fmt) := by
  cases op with
  | enqueue t now payload priority =>
    refine .stage rfl hp ?_ ?_
    · exact fun e => .done _
    · intro ino
      refine .fill rfl hp rfl rfl ?_ (.deliver rfl hp ?_ (.returned _)) <;> exact fun e => .done _
  | claim o =>
    refine listEnvelopes_disciplined (.inl rfl) ?_ ?_
    · exact fun e => .done _
    · intro envs hr
      refine claimFirst_disciplined rfl (fun _ => .done _) _ ?_
      intro env hm
      exact hr env ((mem_insertionSort _).mp hm)
  | ack t =>
    refine .discard rfl hp ?_
    rintro ((_ | _) | _) <;> exact .done _
  | nack t =>
    refine .putBack rfl hp ?_
    rintro ((_ | _) | _) <;> exact .done _
  | reclaimOwner o =>
    refine .readDir (.inr rfl) ?_
    rintro (e | l) hn
    · exact .done _
    · refine reclaimEntries_disciplined rfl (fun _ => .done _) _ ?_ 0
      exact all_eq_true.mp (hn l rfl)
  | listPending | status =>
    refine listEnvelopes_disciplined (.inl rfl) (fun e => .done _) ?_
    intro ready _
    exact listEnvelopes_disciplined (.inr rfl) (fun e => .done _) (fun _ _ => .done _)

end Programs

def moveFile (fs : FileSystem β) (d d' : FilePath) (t : String) (inode : Nat) : FileSystem β :=
  (fs.unlink (d ++ [t.toList])).link (d' ++ [t.toList]) inode

variable [FileContents β] (q : MaildirQueue) (fmt : EnvelopeFormat β) (op : TaskOp)
  (fs : FileSystem β) (prog : FsProgram β TaskResult) (ch : Choice) in
/-- With the phase after it and the ids of the tasks it enqueues and removes. -/
inductive Move : Phase → Phase → FileSystem β → List String → List String → Prop where
  /-- Nothing, because the call only reads or because it fails. -/
  | quiet {phase : Phase} (hwrite : ∀ t inode, phase = .reopened t inode → ch = .fail) : Move phase .free fs [] []
  | stage {t : String} {now : UInt64} {payload : Value} {prio : UInt8} {inode : Nat}
      {fs' : FileSystem β} (hop : op = .enqueue t now payload prio)
      (hplain : isPlain t.toList = true)
      (hcreate : fs.create (q.tmp.join t) = .ok (inode, fs')) :
      Move .free (.staging inode) fs' [] []
  | fill {t : String} {now : UInt64} {payload : Value} {prio : UInt8} {ev : TaskEnvelope}
      {inode : Nat} (hop : op = .enqueue t now payload prio)
      (hplain : isPlain t.toList = true) (hid : ev.id = t)
      (hpayload : ev.payload = payload) :
      Move (.staging inode) (.staged inode)
        (fs.write inode (fmt.toVecPretty ev)) [] []
  | deliver {t : String} {now : UInt64} {payload : Value} {prio : UInt8} {inode file : Nat}
      (hop : op = .enqueue t now payload prio) (hplain : isPlain t.toList = true)
      (hfile : fs.file q.tmp t.toList = some file) :
      Move (.staged inode) .delivered
        (moveFile fs q.tmp q.new t file) [t] []
  | take {owner : Option String} {t : String} {file : Nat} (hop : op = .claim owner)
      (hplain : isPlain t.toList = true)
      (hfile : fs.file q.new t.toList = some file) :
      Move .free (.claimed t)
        (moveFile fs q.new q.cur t file) [] []
  | reopen {t : String} {inode : Nat} {fs' : FileSystem β}
      (hplain : isPlain t.toList = true)
      (hcreate : fs.create (q.cur.join t) = .ok (inode, fs')) :
      Move (.claimed t) (.reopened t inode) fs' [] []
  | rewrite {t : String} {inode : Nat} {ev : TaskEnvelope} (hid : ev.id = t)
      (hregular : ev.Regular) :
      Move (.reopened t inode) .free
        (fs.write inode (fmt.toVecPretty ev)) [] []
  | putBack {t : String} {file : Nat} {next : Except IoError Unit → FsProgram β TaskResult}
      (hprogram : prog = .call (.rename (q.cur.join t) (q.new.join t)) next)
      (hplain : isPlain t.toList = true)
      (hfile : fs.file q.cur t.toList = some file) :
      Move .free .free
        (moveFile fs q.cur q.new t file) [] []
  | discard {t : String} {file : Nat} (hop : op = .ack t)
      (hplain : isPlain t.toList = true)
      (hfile : fs.file q.cur t.toList = some file) :
      Move .free .free
        (fs.unlink (q.cur ++ [t.toList])) [] [t]

section Moves

variable {q : MaildirQueue} {fmt : EnvelopeFormat β} {op : TaskOp} {γ : Type} {fs : FileSystem β}
  {d : FilePath} {t : String}

theorem enqueuedBy_error (req : FsCall β γ) (e : IoError) : enqueuedBy op req (.error e) = [] := by
  cases op <;> cases req <;> rfl

theorem ackedBy_error (req : FsCall β γ) (e : IoError) : ackedBy op req (.error e) = [] := by
  cases op <;> cases req <;> rfl

theorem Disciplined.error {phase : Phase} {req : FsCall β γ} {next : Except IoError γ → FsProgram β TaskResult}
    (h : Disciplined q fmt op phase (.call req next)) (e : IoError) :
    Disciplined q fmt op .free (next (.error e)) := by
  cases h with
  | readDir _ h | read h => exact h _ (by simp)
  | stage _ _ h _ | fill _ _ _ _ h _ | deliver _ _ h _ | take _ _ h _ | reopen _ _ h _ => exact h e
  | rewrite _ _ _ h | putBack _ _ h | discard _ _ h => exact h _

def PlainNames (q : MaildirQueue) (fs : FileSystem β) : Prop :=
  ∀ x, (fs.file q.new x).isSome = true ∨ (fs.file q.cur x).isSome = true → isPlain x = true

theorem exists_data_of_read {p : JoinedPath} {cs : β} (h : fs.read p = .ok cs) : ∃ i, fs.data i = cs := by
  unfold FileSystem.read at h
  cases hp : fs.locate p with
  | error e => simp [hp, Except.bind] at h
  | ok payload =>
    simp only [hp, Except.bind] at h
    split at h
    next i _ => exact ⟨i, Except.ok.inj h⟩
    next => cases h
    next => cases h

theorem isPlain_entries (ho : q.Opened fs) (hn : PlainNames q fs)
    (hdr : d = q.new ∨ d = q.cur) (error : Option IoError) :
    Listing.isPlain ⟨fs.entries d, error⟩ = true := by
  refine all_eq_true.mpr ?_
  intro entry hm
  rcases hdr with rfl | rfl
  · exact hn _ (.inl ((FileSystem.mem_entries ho.new entry).mp hm).2)
  · exact hn _ (.inr ((FileSystem.mem_entries ho.cur entry).mp hm).2)

variable [FileContents β]

theorem exists_create_eq (h : fs.Flat d) (hp : isPlain t.toList = true) :
    ∃ ino fs', fs.create (d.join t) = .ok (ino, fs') := by
  rw [join, FileSystem.create_plain h hp]
  cases fs.file d t.toList <;> exact ⟨_, _, rfl⟩

theorem answer_rename {d' : FilePath} (h : fs.Flat d) (h' : fs.Flat d') (hne : d ≠ d')
    (hp : isPlain t.toList = true) :
    (rename (d.join t) (d'.join t)).answer fs =
      match fs.file d t.toList with
      | some i => (.ok (), moveFile fs d d' t i)
      | none => (.error .notFound, fs) := by
  simp only [answer, perform, join, FileSystem.rename_plain h h' hne hp]
  cases fs.file d t.toList <;> rfl

theorem answer_remove (h : fs.Flat d) (hp : isPlain t.toList = true) : (remove (d.join t)).answer fs =
      match fs.file d t.toList with
      | some _ => (.ok (), fs.unlink (d ++ [t.toList]))
      | none => (.error .notFound, fs) := by
  simp only [answer, perform, join, FileSystem.remove_plain h hp]
  cases fs.file d t.toList <;> rfl

omit [FileContents β] in
theorem answer_cases {fs' : FileSystem β} {fd : Option Nat} {changed : Nat → FileSystem β}
    {a : Except IoError Unit}
    (h : (match fd with | some i => (.ok (), changed i) | none => (.error .notFound, fs)) = (a, fs')) :
    fd = none ∧ a = .error .notFound ∧ fs' = fs ∨ ∃ i, fd = some i ∧ a = .ok () ∧ fs' = changed i := by
  cases fd with
  | none => cases h; exact .inl ⟨rfl, rfl, rfl⟩
  | some i => cases h; exact .inr ⟨i, rfl, rfl, rfl⟩

section Move

variable {fs fs' : FileSystem β} {phase : Phase} {γ : Type} {req : FsCall β γ}
  {next : Except IoError γ → FsProgram β TaskResult} {a : Except IoError γ}

theorem Disciplined.quiet_move {ch : Choice} {prog : FsProgram β TaskResult}
    (hnext : Disciplined q fmt op .free (next a))
    (hw : ∀ t ino, phase = .reopened t ino → ch = .fail)
    (he : enqueuedBy op req a = []) (ha : ackedBy op req a = []) :
    ∃ phase', Disciplined q fmt op phase' (next a) ∧ Move q fmt op fs prog ch phase phase' fs
        (enqueuedBy op req a) (ackedBy op req a) := by
  rw [he, ha]
  exact ⟨.free, hnext, .quiet hw⟩

theorem Disciplined.move_regular (ho : q.Opened fs)
    (hn : ∀ i, fmt.WellNamed (fs.data i)) (hnm : PlainNames q fs)
    (h : Disciplined q fmt op phase (.call req next))
    (ha : req.answer fs = (a, fs')) :
    ∃ phase', Disciplined q fmt op phase' (next a) ∧ Move q fmt op fs (.call req next) .regular phase phase' fs'
        (enqueuedBy op req a) (ackedBy op req a) := by
  cases h with
  | @readDir d _ hdr h =>
    rw [answer_readDir (FileSystem.readDir_flat (ho.flat hdr))] at ha
    cases ha
    have hnext := h (.ok ⟨fs.entries d, none⟩) (by
      rintro _ ⟨⟩
      exact isPlain_entries ho hnm hdr none)
    exact Disciplined.quiet_move hnext (by simp) (by cases op <;> rfl) (by cases op <;> rfl)
  | @read p _ h =>
    rw [answer_read] at ha
    cases ha
    have hnext := h (fs.read p) (by
      intro cs hrd
      obtain ⟨i, rfl⟩ := exists_data_of_read hrd
      exact hn i)
    exact Disciplined.quiet_move hnext (by simp) (by cases op <;> rfl) (by cases op <;> rfl)
  | stage hop hp he hok =>
    obtain ⟨ino, created, hc⟩ := exists_create_eq ho.tmp hp
    rw [answer_create hc] at ha
    cases ha
    subst hop
    exact ⟨.staging ino, hok ino, .stage rfl hp hc⟩
  | fill hop hp hid hpy he hok =>
    cases ha
    subst hop
    exact ⟨_, hok, .fill rfl hp hid hpy⟩
  | @deliver t _ _ _ _ _ hop hp he hok =>
    rw [answer_rename ho.tmp ho.new q.tmp_ne_new hp] at ha
    subst hop
    rcases answer_cases ha with ⟨-, rfl, rfl⟩ | ⟨i, hf, rfl, rfl⟩
    · exact ⟨.free, he _, .quiet (by simp)⟩
    · exact ⟨.delivered, hok, .deliver rfl hp hf⟩
  | @take o t _ hop hp he hok =>
    rw [answer_rename ho.new ho.cur q.new_ne_cur hp] at ha
    subst hop
    rcases answer_cases ha with ⟨-, rfl, rfl⟩ | ⟨i, hf, rfl, rfl⟩
    · exact ⟨.free, he _, .quiet (by simp)⟩
    · exact ⟨.claimed t, hok, .take rfl hp hf⟩
  | reopen hop hp he hok =>
    obtain ⟨ino, created, hc⟩ := exists_create_eq ho.cur hp
    rw [answer_create hc] at ha
    cases ha
    subst hop
    exact ⟨_, hok ino, .reopen hp hc⟩
  | rewrite hop hid hr h =>
    cases ha
    subst hop
    exact ⟨.free, h _, .rewrite hid hr⟩
  | @putBack t _ hop hp h =>
    rw [answer_rename ho.cur ho.new q.new_ne_cur.symm hp] at ha
    rcases answer_cases ha with ⟨-, rfl, rfl⟩ | ⟨i, hf, rfl, rfl⟩
    · exact Disciplined.quiet_move (h _) (by simp) (enqueuedBy_error _ _) (ackedBy_error _ _)
    · refine ⟨.free, h _, ?_⟩
      cases op with
      | enqueue => cases hop
      | _ => exact .putBack rfl hp hf
  | @discard t _ hop hp h =>
    rw [answer_remove ho.cur hp] at ha
    subst hop
    rcases answer_cases ha with ⟨-, rfl, rfl⟩ | ⟨i, hf, rfl, rfl⟩
    · exact ⟨.free, h _, .quiet (by simp)⟩
    · exact ⟨.free, h _, .discard rfl hp hf⟩

/-- **What a system call of an operation does.** -/
theorem Disciplined.move {ch : Choice} (ho : q.Opened fs)
    (hn : ∀ i, fmt.WellNamed (fs.data i)) (hnm : PlainNames q fs)
    (h : Disciplined q fmt op phase (.call req next))
    (hr : req.respond fs ch = some (a, fs')) :
    ∃ phase', Disciplined q fmt op phase' (next a) ∧ Move q fmt op fs (.call req next) ch phase phase' fs'
        (enqueuedBy op req a) (ackedBy op req a) := by
  cases ch with
  | fail =>
    obtain ⟨rfl, rfl⟩ := hr
    exact Disciplined.quiet_move (h.error .other) (fun _ _ _ => rfl) (enqueuedBy_error _ _)
      (ackedBy_error _ _)
  | listing l =>
    cases h with
    | readDir hdr h =>
      simp only [respond, Option.ite_none_right_eq_some, Option.some.injEq, Prod.mk.injEq] at hr
      obtain ⟨⟨-, hp⟩, rfl, rfl⟩ := hr
      have hnext := h (.ok l) (by rintro _ ⟨⟩; exact hp)
      exact Disciplined.quiet_move hnext (by simp) (by cases op <;> rfl) (by cases op <;> rfl)
    | _ => simp [respond] at hr
  | regular =>
    simp only [respond, Option.some.injEq] at hr
    exact h.move_regular ho hn hnm hr

end Move

omit [FileContents β] in
theorem file_moveFile (fs : FileSystem β) (d d' : FilePath) (t : String) (i : Nat) (e : FilePath)
    (y : List Char) :
    (moveFile fs d d' t i).file e y =
      if e = d' ∧ y = t.toList then some i
      else if e = d ∧ y = t.toList then none else fs.file e y := by
  rw [moveFile, FileSystem.file_link, FileSystem.file_unlink]

omit [FileContents β] in
theorem MaildirQueue.Opened.moveFile {d' : FilePath} (h : q.Opened fs) (hd : fs.Flat d) (hd' : fs.Flat d')
    (t : String) (i : Nat) : q.Opened (moveFile fs d d' t i) :=
  h.imp fun _ hf => (hf.unlink hd _).link (hd'.unlink hd _) _ _

variable {fs fs' : FileSystem β} {prog : FsProgram β TaskResult}

theorem create_spec {d : FilePath} {t : String} {i : Nat} (ho : q.Opened fs) (hd : fs.Flat d)
    (hp : isPlain t.toList = true) (hc : fs.create (d.join t) = .ok (i, fs')) :
    q.Opened fs' ∧ fs'.data = Function.update fs.data i FileContents.empty ∧
      ∀ e y, fs'.file e y = if e = d ∧ y = t.toList then some i else fs.file e y := by
  rw [join, FileSystem.create_plain hd hp] at hc
  cases hf : fs.file d t.toList with
  | some j =>
    rw [hf] at hc
    cases hc
    refine ⟨ho.setData _ _, rfl, ?_⟩
    intro e y
    rw [FileSystem.file_setData]
    split_ifs with h
    · rw [h.1, h.2, hf]
    · rfl
  | none =>
    rw [hf] at hc
    cases hc
    refine ⟨ho.imp fun _ hfl => ⟨(hfl.link hd _ _).isDir, (hfl.link hd _ _).noSubdir⟩, rfl, ?_⟩
    intro e y
    exact FileSystem.file_link fs d t.toList fs.next e y

theorem ne_created {d e : FilePath} {t : String} {y : List Char} {i j : Nat} (hs : fs.Sole)
    (hd : fs.Flat d) (hp : isPlain t.toList = true)
    (hc : fs.create (d.join t) = .ok (i, fs')) (hne : e ≠ d) (hf : fs.file e y = some j) :
    j ≠ i := by
  rintro rfl
  rw [join, FileSystem.create_plain hd hp] at hc
  split at hc
  next k hold =>
    simp only [Except.ok.injEq, Prod.mk.injEq] at hc
    exact hne (hs.injective _ _ _ _ _ hf (hc.1 ▸ hold)).1
  next =>
    simp only [Except.ok.injEq, Prod.mk.injEq] at hc
    exact Nat.lt_irrefl _ (hc.1 ▸ hs.below _ _ _ hf)

theorem Move.opened {ch : Choice} {phase phase' : Phase} {e acked : List String}
    (hm : Move q fmt op fs prog ch phase phase' fs' e acked) (ho : q.Opened fs) :
    q.Opened fs' := by
  cases hm with
  | quiet => exact ho
  | stage _ hp hc => exact (create_spec ho ho.tmp hp hc).1
  | fill | rewrite => exact ho.setData _ _
  | deliver => exact ho.moveFile ho.tmp ho.new _ _
  | take => exact ho.moveFile ho.new ho.cur _ _
  | reopen hp hc => exact (create_spec ho ho.cur hp hc).1
  | putBack => exact ho.moveFile ho.cur ho.new _ _
  | discard => exact ho.imp fun _ hf => hf.unlink ho.cur _

theorem EnvelopeFormat.Lawful.wellNamed_empty (hf : fmt.Lawful) : fmt.WellNamed FileContents.empty := by
  intro env hrd
  rw [hf.empty] at hrd
  cases hrd

theorem EnvelopeFormat.Lawful.wellNamed_write (hf : fmt.Lawful) {env : TaskEnvelope}
    (hp : isPlain env.id.toList = true) (old : β) :
    fmt.WellNamed (FileContents.overwrite old (fmt.toVecPretty env)) := by
  intro env' hrd
  refine ⟨?_, hf.shallow _ _ hrd⟩
  rw [hf.overwritten old env env' hrd]
  exact hp

theorem Move.named {ch : Choice} {phase phase' : Phase} {e acked : List String}
    (hf : fmt.Lawful) (hm : Move q fmt op fs prog ch phase phase' fs' e acked)
    (ho : q.Opened fs) (hn : ∀ i, fmt.WellNamed (fs.data i)) (i : Nat) :
    fmt.WellNamed (fs'.data i) := by
  have hu : ∀ j cs, fmt.WellNamed cs → fmt.WellNamed (Function.update fs.data j cs i) := by
    intro j cs hc
    rw [Function.update_apply]
    split_ifs
    · exact hc
    · exact hn i
  cases hm with
  | quiet | deliver | take | putBack | discard => exact hn i
  | stage _ hp hcr =>
    rw [(create_spec ho ho.tmp hp hcr).2.1]
    exact hu _ _ hf.wellNamed_empty
  | fill _ hp hid _ =>
    subst hid
    exact hu _ _ (hf.wellNamed_write hp _)
  | reopen hp hcr =>
    rw [(create_spec ho ho.cur hp hcr).2.1]
    exact hu _ _ hf.wellNamed_empty
  | rewrite _ hr => exact hu _ _ (hf.wellNamed_write hr.1 _)

end Moves

instance : FileContents (Option TaskEnvelope) where
  empty := none
  overwrite _ new := new
  overwrite_empty _ := rfl

/-- One that nests too deep is not read. -/
def directFormat : EnvelopeFormat (Option TaskEnvelope) where
  toVecPretty := some
  fromStr contents := contents.filter fun ev => ev.payload.nesting ≤ payloadLimit

theorem directFormat_fromStr (cs : Option TaskEnvelope) (env : TaskEnvelope) :
    directFormat.fromStr cs = some env ↔ cs = some env ∧ env.payload.nesting ≤ payloadLimit := by
  simp [directFormat, Option.filter_eq_some_iff]

theorem directFormat_lawful : directFormat.Lawful where
  empty := rfl
  readable ev hn := ⟨ev, (directFormat_fromStr _ _).mpr ⟨rfl, hn⟩, rfl, rfl, rfl, rfl⟩
  overwritten old ev ev' hrd := by
    have hs : some ev = some ev' := ((directFormat_fromStr _ _).mp hrd).1
    rw [Option.some.inj hs]
  shallow contents ev hrd := ((directFormat_fromStr contents ev).mp hrd).2

end ShareCli.Mesh
