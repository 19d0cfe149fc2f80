import ShareCli.Foundation.TwoWayMap
import ShareCli.Fuse.Proofs.AgentCowProofs

/-!
# What calls of the store do

The effect of a call on the disk is bounded by a footprint.
-/

namespace ShareCli.Fuse

open Foundation DiskM FileTree WriteSerialize List AList

/-- A character that `sanitizeAgentId` keeps. -/
def isIdChar (c : Char) : Bool := c.isAlphanum || c = '_' || c = '-'

theorem isWhitespace_of_isIdChar {c : Char} (h : isIdChar c = true) : Text.isWhitespace c = false := by
  have hr : 45 = c.toNat ∨ 48 ≤ c.toNat ∧ c.toNat ≤ 57 ∨ 65 ≤ c.toNat ∧ c.toNat ≤ 90 ∨
      95 = c.toNat ∨ 97 ≤ c.toNat ∧ c.toNat ≤ 122 := by
    delta isIdChar Char.isAlphanum Char.isAlpha Char.isUpper Char.isLower Char.isDigit at h
    simp only [Bool.or_eq_true, Bool.and_eq_true, decide_eq_true_eq, ge_iff_le, UInt32.le_iff_toNat_le] at h
    rcases h with (((h | h) | h) | rfl) | rfl
    · exact .inr (.inr (.inl h))
    · exact .inr (.inr (.inr (.inr h)))
    · exact .inr (.inl h)
    · decide
    · decide
  simp only [Text.isWhitespace, Bool.or_eq_false_iff, Bool.and_eq_false_iff, decide_eq_false_iff_not]
  omega

theorem sanitizeAgentId_of_idChars {g : List Char} (hne : g ≠ [])
    (h : ∀ c ∈ g, isIdChar c = true) : sanitizeAgentId g = g := by
  have ht : Text.trim g = g := by
    apply Text.trim_eq_self
    · intro c hc
      exact isWhitespace_of_isIdChar (h c (mem_of_mem_head? hc))
    · intro c hc
      exact isWhitespace_of_isIdChar (h c (mem_of_getLast? hc))
  unfold sanitizeAgentId
  simp only [ht, if_neg hne]
  refine (map_congr_left fun c hc => ?_).trans (map_id _)
  exact if_pos (h c hc)

theorem sanitizeAgentId_idChars (g : List Char) :
    sanitizeAgentId g ≠ [] ∧ ∀ c ∈ sanitizeAgentId g, isIdChar c = true := by
  unfold sanitizeAgentId
  dsimp only
  split_ifs with hne
  · exact ⟨by decide, all_eq_true.mp (by decide)⟩
  · refine ⟨by simpa using hne, fun c hc => ?_⟩
    obtain ⟨c', -, rfl⟩ := mem_map.mp hc
    split_ifs with hid
    · exact hid
    · decide

theorem sanitizeAgentId_sanitizeAgentId (g : List Char) :
    sanitizeAgentId (sanitizeAgentId g) = sanitizeAgentId g :=
  sanitizeAgentId_of_idChars (sanitizeAgentId_idChars g).1 (sanitizeAgentId_idChars g).2

def AgentCowStore.setAgent (st : AgentCowStore) (g : List Char) (ws : WriteSerialize) :
    AgentCowStore :=
  { st with agents := st.agents.insert g ws }

theorem staged_setAgent (st : AgentCowStore) (g : List Char) (ws : WriteSerialize) (a : List Char)
    (path : FilePath) :
    (st.setAgent g ws).staged a path =
      if a = g then ws.pending.lookup path else st.staged a path := by
  unfold AgentCowStore.staged AgentCowStore.setAgent
  rcases eq_or_ne a g with rfl | hne
  · simp [lookup_insert]
  · simp [lookup_insert_ne hne, hne]

theorem agentKey_agentKey (st st1 : AgentCowStore) (who : Option (List Char)) :
    st1.agentKey (some (st.agentKey who)) = st.agentKey who :=
  sanitizeAgentId_sanitizeAgentId _

theorem mem_pendingForAgent_iff_staged (st : AgentCowStore) (who : Option (List Char)) (p : FilePath) :
    p ∈ st.pendingForAgent who ↔ st.staged (st.agentKey who) p ≠ none := by
  unfold AgentCowStore.pendingForAgent AgentCowStore.staged
  cases st.agents.lookup (st.agentKey who) with
  | none => simp
  | some ws =>
    simp only [pendingBackingPaths, Option.bind_some, ne_eq, AList.lookup_eq_none, not_not, AList.mem_keys]

theorem nodup_pendingForAgent (st : AgentCowStore) (who : Option (List Char)) :
    (st.pendingForAgent who).Nodup := by
  unfold AgentCowStore.pendingForAgent
  split
  · exact keys_nodup _
  · exact nodup_nil

section Footprints

variable {w a : Set FilePath} {ts : Set Nat} {d : Disk} {st : AgentCowStore}
  {staging back path : FilePath}

theorem writeStaging_footprint (cs : List UInt8) (hw : staging ∈ w) (ha : ∀ p, p <+: staging → p ∈ a) :
    Footprint w a ts (writeStaging staging cs) :=
  .bind (.createDirAll fun p hp => ha p (hp.trans (List.dropLast_prefix staging))) fun _ =>
    .bind (.createFile hw (ha staging (prefix_refl staging))) fun _ =>
    .bind (.writeAll hw _ _) fun _ => .touch

theorem dropStaging_footprint : Footprint w a ts (dropStaging staging) := by
  have hr : ∀ d, (dropStaging staging d).2 = (removeFile staging d.tick).2 ∨
      (dropStaging staging d).2 = d.tick := by
    intro d
    rw [dropStaging, pathExists_spec]
    cases decide (d.fates.head.failure = none ∧ d.tree.node staging ≠ none) with
    | true => exact .inl rfl
    | false => exact .inr rfl
  have ht : ∀ d : Disk, d.Precedes d.tick := fun d => .tick d d.tree
  constructor
  · intro d
    rcases hr d with h | h <;> rw [h]
    · exact (ht d).trans (Advances.change _ d.tick)
    · exact ht d
  · intro d hd
    rcases hr d with h | h <;> rw [h]
    · exact Footprint.removeFile.within d.tick ((ht d).nows_subset.trans hd)
    · exact .refl d.tree

/-- A staging file brings its time along when it is renamed. -/
theorem promote_within (hd : d.nows ⊆ ts) {b : FileBody}
    (hb : d.tree.file staging = some b) (hs : b.mtime ∈ ts)
    (hw : back ∈ w) (ha : ∀ p, p <+: back → p ∈ a) :
    Within w a ts d.tree (promote staging back d).2.tree := by
  have hm : ∀ ps : List FilePath, (∀ p ∈ ps, p <+: back.dropLast) →
      Within w a ts d.tree (d.tree.mkdirs ps).2 :=
    fun ps hpt => .of_mkdirs fun p hp =>
      ha p ((hpt p hp).trans (List.dropLast_prefix back))
  have hmd := hm back.dropLast.inits fun p hp => (mem_inits _ _).mp hp
  have hnw : (d.fates.get 2).now ∈ ts := hd ⟨2, rfl⟩
  have hap : back ∈ a := ha back (prefix_refl back)
  have hf : (d.tree.mkdirs back.dropLast.inits).2.file staging = some b := by
    rw [mkdirs_file, hb]
  have hsp := promote_spec staging back d
  generalize promote staging back d = outcome at hsp
  cases hsp with
  | stopped e d' ps hpt ht =>
    rw [ht]
    exact hm ps hpt
  | torn n b' d' h0 h1 hfl hdv h2 hb' ht =>
    exact hmd.trans (Footprint.of_writeFile hw hap (fun _ => hnw) ht)
  | renamed d' ht =>
    by_cases hne : staging = back
    · obtain ⟨-, ⟨-, hsm⟩ | ⟨hbl, -⟩⟩ := rename_eq_ok ht
      · rw [hsm]
        exact hmd
      · exact absurd (hne ▸ prefix_refl staging) hbl
    · have hn := rename_eq_ok_of_file ht hf hne
      exact hmd.trans (.of_moved_file hap hw hs hn)
  | copied b' d' hpr hdv hb' ht =>
    have hc : Within w a ts d.tree d'.tree := hmd.trans (Footprint.of_writeFile hw hap (fun _ => hnw) ht)
    exact hc.trans (Footprint.removeFile.within d' (hpr.nows_subset.trans hd))

theorem promote_there {u : Unit} {d' : Disk} (h : promote staging back d = (.ok u, d')) :
    d'.tree.node back ≠ none := by
  have hsp := promote_spec staging back d
  rw [h] at hsp
  cases hsp with
  | renamed _ ht =>
    obtain ⟨hold, ⟨heq, hsm⟩ | ⟨-, -, hn⟩⟩ := rename_eq_ok ht
    · rw [hsm]
      exact heq ▸ hold
    · rw [hn, if_pos (prefix_refl back)]
      simpa using hold
  | copied b mid hpr hdv hb ht =>
    have hne : back ≠ staging := by
      rintro rfl
      exact hdv rfl
    have hn := (writeFile_eq_ok ht).2.2 back
    rw [if_pos rfl] at hn
    have hsp := change_spec (fun _ tree => tree.unlink staging) mid
    show (change _ mid).2.tree.node back ≠ none
    generalize change _ mid = outcome at hsp
    cases hsp with
    | failed _ | refused _ _ _ => simp [Disk.tick, hn]
    | done _ tree hu =>
      rw [(unlink_eq_ok hu).2, if_neg hne, hn]
      simp

def AgentCowStore.stagingRootFor (st : AgentCowStore) (key : List Char) : FilePath :=
  match st.agents.lookup key with
  | some ws => ws.stagingRoot
  | none => st.cowRoot ++ [key]

def AgentCowStore.newDirs (st : AgentCowStore) (key : List Char) : Set FilePath :=
  {p | st.agents.lookup key = none ∧ p <+: st.cowRoot ++ [key]}

structure StoreReady (st : AgentCowStore) (key : List Char) (d : Disk) (ws : WriteSerialize)
    (st' : AgentCowStore) (d' : Disk) : Prop where
  lookup : st'.agents.lookup key = some ws
  pending : ∀ path, ws.pending.lookup path = st.staged key path
  root : ws.stagingRoot = st.stagingRootFor key
  staged : ∀ a path, st'.staged a path = st.staged a path
  cowRoot : st'.cowRoot = st.cowRoot
  defaultAgent : st'.defaultAgent = st.defaultAgent
  agents : ∀ a ws', st'.agents.lookup a = some ws' →
    st.agents.lookup a = some ws' ∨ a = key ∧ ws'.stagingRoot = st.cowRoot ++ [key]
  precedes : d.Precedes d'
  tree : ∃ paths : List FilePath, (∀ p ∈ paths, p ∈ st.newDirs key) ∧ d'.tree = (d.tree.mkdirs paths).2

theorem storeFor_ready (store : AgentCowStore) (key : List Char) (d : Disk) :
    ∃ ws st' d', store.storeFor key d = (ws, st', d') ∧ StoreReady store key d ws st' d' := by
  unfold AgentCowStore.storeFor
  cases hl : store.agents.lookup key with
  | some ws =>
    refine ⟨ws, store, d, rfl, hl, fun path => ?_, ?_, fun _ _ => rfl, rfl, rfl,
      fun _ _ h => .inl h, .refl d, [], by simp, rfl⟩
    · simp [AgentCowStore.staged, hl]
    · simp [AgentCowStore.stagingRootFor, hl]
  | none =>
    obtain ⟨ps, hpt, ht⟩ := createDirAll_tree (store.cowRoot ++ [key]) d
    refine ⟨_, _, _, rfl, lookup_insert _, fun path => ?_, ?_, fun a path => ?_, rfl, rfl,
      fun a ws h => ?_, ⟨rfl, 1, rfl⟩, ps, fun p hp => ⟨hl, hpt p hp⟩, ht⟩
    · simp [AgentCowStore.staged, hl]
    · simp [AgentCowStore.stagingRootFor, hl]
    · rcases eq_or_ne a key with rfl | ha
      · simp [AgentCowStore.staged, hl]
      · simp [AgentCowStore.staged, lookup_insert_ne ha]
    · rcases lookup_insert_eq_some_iff.mp h with ⟨ha, hws⟩ | ⟨-, h⟩
      · exact .inr ⟨ha, congrArg stagingRoot hws⟩
      · exact .inl h

structure CowEffect (w a : Set FilePath) (ts : Set Nat) (d d' : Disk) : Prop where
  within : Within w a ts d.tree d'.tree
  precedes : d.Precedes d'

namespace StoreReady

variable {key : List Char} {ws : WriteSerialize} {st' : AgentCowStore} {d' : Disk}

theorem within (h : StoreReady st key d ws st' d') (hd : st.newDirs key ⊆ a) :
    Within w a ts d.tree d'.tree := by
  obtain ⟨ps, hpt, ht⟩ := h.tree
  rw [ht]
  exact .of_mkdirs fun p hp => hd (hpt p hp)

theorem file (h : StoreReady st key d ws st' d') (p : FilePath) : d'.tree.file p = d.tree.file p := by
  obtain ⟨ps, -, ht⟩ := h.tree
  rw [ht, mkdirs_file]

theorem tree_eq (h : StoreReady st key d ws st' d') (hs : st.staged key path = some staging) :
    d'.tree = d.tree := by
  obtain ⟨ps, hpt, ht⟩ := h.tree
  obtain rfl : ps = [] := by
    refine eq_nil_iff_forall_not_mem.mpr fun p hp => ?_
    have hn := (hpt p hp).1
    simp [AgentCowStore.staged, hn] at hs
  exact ht

theorem effect (h : StoreReady st key d ws st' d') (hd : st.newDirs key ⊆ a) : CowEffect w a ts d d' :=
  ⟨h.within hd, h.precedes⟩

end StoreReady

theorem CowEffect.refl (d : Disk) : CowEffect w a ts d d := ⟨.refl d.tree, .refl d⟩

theorem CowEffect.trans {d' d'' : Disk} (h : CowEffect w a ts d d')
    (h' : CowEffect w a ts d' d'') : CowEffect w a ts d d'' :=
  ⟨h.within.trans h'.within, h.precedes.trans h'.precedes⟩

theorem CowEffect.of_footprint {α : Type} {prog : DiskM α} (h : Footprint w a ts prog) (hd : d.nows ⊆ ts) :
    CowEffect w a ts d (prog d).2 :=
  ⟨h.within d hd, h.advances d⟩

section Calls

variable {g : Option (List Char)}

theorem stageBytes_effect {n : FilePath → List Char} {cs : List UInt8} (hd : d.nows ⊆ ts)
    (hw : st.stagingRootFor (st.agentKey g) ++ [n path] ∈ w)
    (ha : ∀ p, p <+: st.stagingRootFor (st.agentKey g) ++ [n path] →
      p ∈ a) (hdr : st.newDirs (st.agentKey g) ⊆ a) :
    CowEffect w a ts d (st.stageBytes n g path cs d).2.2 := by
  obtain ⟨ws, store1, d1, hsf, hr⟩ := storeFor_ready st (st.agentKey g) d
  have hs : ws.stagingPathFor n path = st.stagingRootFor (st.agentKey g) ++ [n path] := by
    rw [stagingPathFor, hr.root]
  have hrn : (st.stageBytes n g path cs d).2.2 = (writeStaging (ws.stagingPathFor n path) cs d1).2 := by
    simp only [AgentCowStore.stageBytes, AgentCowStore.onStore, hsf, stageBytes]
    split <;> next heq => rw [heq]
  rw [hrn, hs]
  exact (hr.effect hdr).trans (.of_footprint (writeStaging_footprint cs hw ha)
      (hr.precedes.nows_subset.trans hd))

variable (d st path g) in
inductive Committed : Except WriteSerializeError Unit → AgentCowStore → Disk → Prop where
  | nothing (ws : WriteSerialize) (store1 : AgentCowStore) (d1 d' : Disk) (ws' : WriteSerialize)
      (hready : StoreReady st (st.agentKey g) d ws store1 d1) (hprecedes : d1.Precedes d')
      (htree : d'.tree = d1.tree) (hws : ws' = ws ∨ ws' = ws.forget path) :
      Committed (.error (.noPending path))
        { store1 with agents := store1.agents.insert (st.agentKey g) ws' } d'
  | failed (ws : WriteSerialize) (store1 : AgentCowStore) (d1 : Disk) (staging : FilePath) (e : Errno)
      (d' : Disk) (hready : StoreReady st (st.agentKey g) d ws store1 d1)
      (hstaged : st.staged (st.agentKey g) path = some staging)
      (hthere : d1.tree.node staging ≠ none) (hrun : promote staging path d1.tick = (.error e, d')) :
      Committed (.error (.io e))
        { store1 with agents := store1.agents.insert (st.agentKey g) ws } d'
  | done (ws : WriteSerialize) (store1 : AgentCowStore) (d1 : Disk) (staging : FilePath) (d' : Disk)
      (hready : StoreReady st (st.agentKey g) d ws store1 d1)
      (hstaged : st.staged (st.agentKey g) path = some staging)
      (hthere : d1.tree.node staging ≠ none) (hrun : promote staging path d1.tick = (.ok (), d')) :
      Committed (.ok ())
        { store1 with agents := store1.agents.insert (st.agentKey g) (ws.forget path) } d'

variable (d st path g) in
theorem commitPending_committed : ∃ r st' d', st.commitPending g path d = (r, st', d') ∧
    Committed d st path g r st' d' := by
  obtain ⟨ws, store1, d1, hsf, hr⟩ := storeFor_ready st (st.agentKey g) d
  simp only [AgentCowStore.commitPending, AgentCowStore.onStore, hsf, commitPending]
  cases hp : ws.pending.lookup path with
  | none => exact ⟨_, _, _, rfl, .nothing ws store1 d1 d1 ws hr (.refl d1) rfl (.inl rfl)⟩
  | some staging =>
    have hs : st.staged (st.agentKey g) path = some staging := by
      rw [← hr.pending, hp]
    simp only [pathExists_spec]
    by_cases he : d1.fates.head.failure = none ∧ d1.tree.node staging ≠ none
    · simp only [he, ne_eq, not_false_eq_true, and_self, decide_true]
      rcases hrn : promote staging path d1.tick with ⟨e | u, d'⟩
      · exact ⟨_, _, _, rfl, .failed ws store1 d1 staging e d' hr hs he.2 hrn⟩
      · exact ⟨_, _, _, rfl, .done ws store1 d1 staging d' hr hs he.2 hrn⟩
    · simp only [he, decide_false]
      exact ⟨_, _, _, rfl, .nothing ws store1 d1 _ (ws.forget path) hr (.tick d1 d1.tree) rfl (.inr rfl)⟩

variable {key : List Char}

theorem commitPending_staged (hk : st.agentKey g = key) {q : FilePath}
    (hp : (st.commitPending g path d).2.1.staged key q = some staging) :
    st.staged key q = some staging := by
  obtain ⟨ws, ws', st1, d1, hr, hws, hs⟩ : ∃ ws ws' st1 d1,
      StoreReady st key d ws st1 d1 ∧ (ws' = ws ∨ ws' = ws.forget path) ∧
        (st.commitPending g path d).2.1 = st1.setAgent key ws' := by
    subst hk
    obtain ⟨r, st', d', h, hsp⟩ := commitPending_committed d st path g
    rw [h]
    cases hsp with
    | nothing ws st1 d1 _ ws' hr hpr ht hws =>
      exact ⟨ws, ws', st1, d1, hr, hws, rfl⟩
    | failed ws st1 d1 staging e _ hr hst hth hrn =>
      exact ⟨ws, ws, st1, d1, hr, .inl rfl, rfl⟩
    | done ws st1 d1 staging _ hr hst hth hrn =>
      exact ⟨ws, ws.forget path, st1, d1, hr, .inr rfl, rfl⟩
  rw [hs, staged_setAgent, if_pos rfl] at hp
  rw [← hr.pending]
  rcases hws with rfl | rfl
  · exact hp
  · rw [ws.lookup_forget_of_ne] at hp
    · exact hp
    · rintro rfl
      simp at hp

/-- The staging file must be no directory, and brings its time along. -/
theorem commitPending_effect (hd : d.nows ⊆ ts)
    (he : ∀ staging, st.staged (st.agentKey g) path = some staging →
      d.tree.node staging ≠ some .dir ∧ (∀ c, d.tree.content staging = some c → c.2 ∈ ts) ∧
      path ∈ w ∧ ∀ p, p <+: path → p ∈ a)
    (hdr : st.newDirs (st.agentKey g) ⊆ a) :
    CowEffect w a ts d (st.commitPending g path d).2.2 := by
  -- The promotion of a staging file, whatever its result.
  have hp : ∀ ws st1 d1 staging, StoreReady st (st.agentKey g) d ws st1 d1 →
      st.staged (st.agentKey g) path = some staging → d1.tree.node staging ≠ none →
      CowEffect w a ts d (promote staging path d1.tick).2 := by
    intro ws st1 d1 staging hr hs hth
    obtain ⟨hn, hst, hw, ha⟩ := he staging hs
    rw [← hr.tree_eq hs] at hn hst
    obtain ⟨entry, hnd⟩ := Option.ne_none_iff_exists'.mp hth
    cases entry with
    | dir => exact absurd hnd hn
    | file b =>
      have hb := file_eq_some_iff.mpr hnd
      have ht := Disk.Precedes.tick d1 d1.tree
      have hd1 : d1.tick.nows ⊆ ts := ht.nows_subset.trans (hr.precedes.nows_subset.trans hd)
      have hm : b.mtime ∈ ts := hst (b.bytes, b.mtime) (by
        simp [content, hb])
      exact (hr.effect hdr).trans ⟨promote_within hd1 hb hm hw ha,
        ht.trans (promote_advances staging path d1.tick)⟩
  obtain ⟨r, st', d', h, hsp⟩ := commitPending_committed d st path g
  rw [h]
  cases hsp with
  | nothing ws st1 d1 _ ws' hr hpr htr hws =>
    refine (hr.effect hdr).trans ⟨?_, hpr⟩
    rw [htr]
    exact .refl _
  | failed ws st1 d1 staging e _ hr hs hth hrn
  | done ws st1 d1 staging _ hr hs hth hrn =>
    have hef := hp ws st1 d1 staging hr hs hth
    rw [hrn] at hef
    exact hef

section

variable {r : Except WriteSerializeError Unit} {st' : AgentCowStore} {d' : Disk}
  (h : st.commitPending g path d = (r, st', d'))

include h

theorem commitPending_precedes : d.Precedes d' := by
  obtain ⟨_, _, _, h', hsp⟩ := commitPending_committed d st path g
  cases h.symm.trans h'
  cases hsp with
  | nothing ws st1 d1 _ ws' hr hpr ht hws => exact hr.precedes.trans hpr
  | failed ws st1 d1 staging e _ hr hs hth hrn
  | done ws st1 d1 staging _ hr hs hth hrn =>
    have ha := promote_advances staging path d1.tick
    rw [hrn] at ha
    exact hr.precedes.trans ((Disk.Precedes.tick d1 d1.tree).trans ha)

/-- If no call is made to fail, a commit that fails leaves all files as they are. -/
theorem commitPending_regular (hd : d.Regular) : (∃ e, r = .error e ∧ ∀ p, d'.tree.file p = d.tree.file p) ∨
      r = .ok () ∧ d'.tree.node path ≠ none := by
  obtain ⟨_, _, _, h', hsp⟩ := commitPending_committed d st path g
  cases h.symm.trans h'
  cases hsp with
  | nothing ws st1 d1 _ ws' hr hpr ht hws =>
    refine .inl ⟨_, rfl, fun p => ?_⟩
    rw [ht, hr.file]
  | failed ws st1 d1 staging e _ hr hs hth hrn =>
    refine .inl ⟨_, rfl, fun p => ?_⟩
    have hp := promote_spec staging path d1.tick
    rw [hrn] at hp
    cases hp with
    | stopped _ _ ps hpt ht =>
      rw [ht, mkdirs_file]
      exact hr.file p
    | torn n b _ h0 h1 hfl hdv h2 hb ht =>
      have hrg := (Disk.Precedes.tick d1 d1.tree).regular (hr.precedes.regular hd)
      cases h2.symm.trans (hrg 2)
  | done ws st1 d1 staging _ hr hs hth hrn =>
    exact .inr ⟨rfl, promote_there hrn⟩

end

theorem discardPending_effect (hd : d.nows ⊆ ts) (hdr : st.newDirs (st.agentKey g) ⊆ a) :
    CowEffect w a ts d (st.discardPending g path d).2.2 := by
  obtain ⟨ws, store1, d1, hsf, hr⟩ := storeFor_ready st (st.agentKey g) d
  have hf : CowEffect w a ts d d1 := hr.effect hdr
  simp only [AgentCowStore.discardPending, AgentCowStore.onStore, hsf]
  cases hp : ws.pending.lookup path with
  | none =>
    simp only [discardPending, hp]
    exact hf
  | some staging =>
    rw [discardPending_eq hp]
    exact hf.trans (.of_footprint dropStaging_footprint (hr.precedes.nows_subset.trans hd))

theorem forEach_rule
    {op : AgentCowStore → FilePath → Disk → Except WriteSerializeError Unit × AgentCowStore × Disk}
    (dn : Disk → Disk → Prop) (hr : ∀ d, dn d d)
    (ht : ∀ {d d' d''}, dn d d' → dn d' d'' → dn d d'') (n : AgentCowStore → Disk → Prop)
    (hop : ∀ st path d, n st d → dn d (op st path d).2.2 ∧ n (op st path d).2.1 (op st path d).2.2)
    (ps : List FilePath) (h : n st d) :
    dn d (AgentCowStore.forEach op ps st d).2.2 := by
  induction ps generalizing st d with
  | nil => exact hr d
  | cons path ps ih =>
    obtain ⟨hdn, hn⟩ := hop st path d h
    rw [AgentCowStore.forEach]
    rcases hrn : op st path d with ⟨e | u, st', d'⟩ <;> rw [hrn] at hdn hn
    · exact hdn
    · exact ht hdn (ih hn)

theorem newDirs_subset {ws : WriteSerialize} (h : st.agents.lookup key = some ws) : st.newDirs key ⊆ a := by
  rintro p ⟨hn, -⟩
  cases h.symm.trans hn

theorem onStore_newDirs (h : st.agentKey g = key)
    (op : WriteSerialize → Disk → Except WriteSerializeError Unit × WriteSerialize × Disk) :
    (st.onStore g op d).2.1.newDirs key ⊆ a := by
  subst h
  exact newDirs_subset (lookup_insert _)

structure Promotable (w a : Set FilePath) (ts : Set Nat) (key : List Char)
    (st : AgentCowStore) (d : Disk) : Prop where
  nows : d.nows ⊆ ts
  staging : ∀ path staging, st.staged key path = some staging → d.tree.node staging ≠ some .dir ∧ staging ∉ a
  stamp : ∀ path staging, st.staged key path = some staging → ∀ c, d.tree.content staging = some c → c.2 ∈ ts
  target : ∀ path staging, st.staged key path = some staging → path ∈ w ∧ ∀ p, p <+: path → p ∈ a

theorem Promotable.of_effect {st' : AgentCowStore} {d' : Disk}
    (h : Promotable w a ts key st d) (hef : CowEffect w a ts d d')
    (hs : ∀ path staging, st'.staged key path = some staging → st.staged key path = some staging) :
    Promotable w a ts key st' d' where
  nows := hef.precedes.nows_subset.trans h.nows
  staging path staging hp := by
    obtain ⟨hn, hnw⟩ := h.staging path staging (hs path staging hp)
    refine ⟨fun hd => ?_, hnw⟩
    rcases hef.within.dirs staging hd with hd | ha
    · exact hn hd
    · exact hnw ha
  stamp path staging hp c hc := by
    rcases hef.within.content staging c hc with hc | ⟨-, hst⟩
    · exact h.stamp path staging (hs path staging hp) c hc
    · exact hst
  target path staging hp := h.target path staging (hs path staging hp)

theorem commitAllForAgent_effect (ps : List FilePath) (h : Promotable w a ts (st.agentKey g) st d)
    (hd : st.newDirs (st.agentKey g) ⊆ a) :
    CowEffect w a ts d (st.commitAllForAgent g ps d).2.2 := by
  obtain ⟨ws, store1, d1, hsf, hr⟩ := storeFor_ready st (st.agentKey g) d
  have hf : CowEffect w a ts d d1 := hr.effect hd
  simp only [AgentCowStore.commitAllForAgent, hsf]
  refine hf.trans (forEach_rule _ .refl .trans (fun st' d' =>
    st'.newDirs (st.agentKey g) ⊆ a ∧ Promotable w a ts (st.agentKey g) st' d') ?_ ps
    ⟨newDirs_subset hr.lookup, h.of_effect hf fun path staging hp => hr.staged _ path ▸ hp⟩)
  rintro st' path d' ⟨hn, hpr⟩
  have hk := agentKey_agentKey st st' g
  have hef : CowEffect w a ts d' (st'.commitPending (some (st.agentKey g)) path d').2.2 := by
    refine commitPending_effect hpr.nows ?_ ?_
    · rw [hk]
      intro staging hp
      exact ⟨(hpr.staging path staging hp).1, hpr.stamp path staging hp, hpr.target path staging hp⟩
    · rwa [hk]
  exact ⟨hef, onStore_newDirs hk _, hpr.of_effect hef fun _ _ => commitPending_staged hk⟩

theorem commitAllForAgent_precedes {ps : List FilePath} {outcome}
    (h : st.commitAllForAgent g ps d = outcome) : d.Precedes outcome.2.2 := by
  subst h
  obtain ⟨ws, store1, d1, hsf, hr⟩ := storeFor_ready st (st.agentKey g) d
  simp only [AgentCowStore.commitAllForAgent, hsf]
  exact hr.precedes.trans (forEach_rule Disk.Precedes .refl .trans (fun _ _ => True)
    (fun _ _ _ _ => ⟨commitPending_precedes rfl, trivial⟩) ps trivial)

theorem discardAllForAgent_effect (ps : List FilePath) (hd : d.nows ⊆ ts)
    (hdr : st.newDirs (st.agentKey g) ⊆ a) :
    CowEffect w a ts d (st.discardAllForAgent g ps d).2.2 := by
  obtain ⟨ws, store1, d1, hsf, hr⟩ := storeFor_ready st (st.agentKey g) d
  have hf : CowEffect w a ts d d1 := hr.effect hdr
  simp only [AgentCowStore.discardAllForAgent, hsf]
  refine hf.trans (forEach_rule _ .refl .trans (fun st' d' =>
    st'.newDirs (st.agentKey g) ⊆ a ∧ d'.nows ⊆ ts) ?_ ps
    ⟨newDirs_subset hr.lookup, hr.precedes.nows_subset.trans hd⟩)
  rintro st' path d' ⟨hnd, hn⟩
  have hk := agentKey_agentKey st st' g
  have hef : CowEffect w a ts d' (st'.discardPending (some (st.agentKey g)) path d').2.2 :=
    discardPending_effect hn (by rwa [hk])
  exact ⟨hef, onStore_newDirs hk _, hef.precedes.nows_subset.trans hn⟩

theorem withLockedPath_effect {α : Type} {f : DiskM α} (hf : Footprint w a ts f) (hd : d.nows ⊆ ts)
    (hdr : st.serialize = true → st.newDirs (st.agentKey g) ⊆ a) :
    CowEffect w a ts d (st.withLockedPath g f d).2.2 := by
  unfold AgentCowStore.withLockedPath
  split_ifs with hs
  · obtain ⟨ws, store1, d1, hsf, hr⟩ := storeFor_ready st (st.agentKey g) d
    simp only [hsf]
    exact (hr.effect (hdr hs)).trans (.of_footprint hf (hr.precedes.nows_subset.trans hd))
  · exact .of_footprint hf hd

end Calls

end Footprints

end ShareCli.Fuse
