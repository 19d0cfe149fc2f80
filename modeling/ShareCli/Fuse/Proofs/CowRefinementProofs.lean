import ShareCli.Fuse.CowRuns
import ShareCli.Fuse.Proofs.CowStoreProofs

/-!
# The store is an overlay

The store does what `Overlay` says as long as nobody stages a path in the root of the store: a commit to such a
path may replace a staging file of another agent.
-/

namespace ShareCli.Fuse

open Foundation FileTree DiskM Function WriteSerialize List Option

namespace Overlay

variable (o : Overlay) (agent : List Char)

theorem pending_setPending (path : FilePath) (bs : Option (List UInt8)) (a : List Char) (q : FilePath) :
    (o.setPending agent path bs).pending a q =
      if a = agent ∧ q = path then bs else o.pending a q := by
  simp only [setPending, update_apply]
  by_cases ha : a = agent
  · subst ha
    by_cases hq : q = path <;> simp [hq]
  · simp [ha]

theorem pending_commit (path : FilePath) (a : List Char) (q : FilePath) :
    (o.commit agent path).pending a q = if a = agent ∧ q = path then none else o.pending a q := by
  unfold commit
  split
  · rename_i hn
    split
    · rename_i heq
      rw [heq.1, heq.2, hn]
    · rfl
  · exact pending_setPending o agent path none a q

theorem files_commit (path q : FilePath) : (o.commit agent path).files q =
      if q = path then (o.pending agent path).or (o.files path) else o.files q := by
  unfold commit
  split
  · rename_i hn
    split
    · rename_i heq
      rw [heq, hn, none_or]
    · rfl
  · rename_i bs hb
    rw [hb, some_or]
    exact update_apply _ _ _ _

theorem pending_foldl {g : FilePath → Overlay → Overlay}
    (hg : ∀ p o a q, (g p o).pending a q = if a = agent ∧ q = p then none else o.pending a q)
    (ps : List FilePath) (h : ∀ p, o.pending agent p ≠ none → p ∈ ps) :
    (ps.foldl (fun o p => g p o) o).pending = update o.pending agent fun _ => none := by
  have hgn : ∀ o : Overlay, ∀ a q, (ps.foldl (fun o p => g p o) o).pending a q =
      if a = agent ∧ q ∈ ps then none else o.pending a q := by
    clear h
    induction ps with
    | nil => simp
    | cons path ps ih =>
      intro o a q
      rw [foldl_cons, ih (g path o) a q, hg]
      by_cases ha : a = agent
      · by_cases hq : q = path
        · simp [ha, hq]
        · simp [ha, hq]
      · simp [ha]
  funext a q
  rw [hgn o a q, update_apply]
  by_cases ha : a = agent
  · subst ha
    by_cases hq : o.pending a q = none
    · simp [hq]
    · simp [h q hq]
  · simp [ha]

theorem foldl_commit (ps : List FilePath) (h : ∀ p, o.pending agent p ≠ none → p ∈ ps) :
    ps.foldl (fun o p => o.commit agent p) o = o.commitAll agent := by
  have hf : ∀ o : Overlay, ∀ q, (ps.foldl (fun o p => o.commit agent p) o).files q =
      if q ∈ ps then (o.pending agent q).or (o.files q) else o.files q := by
    clear h
    induction ps with
    | nil => simp
    | cons path ps ih =>
      intro o q
      rw [foldl_cons, ih (o.commit agent path) q, pending_commit, files_commit]
      by_cases hq : q = path <;> simp [hq]
  refine Overlay.ext (pending_foldl o agent (fun p o => pending_commit o agent p) ps h) ?_
  funext q
  rw [hf o q]
  simp only [commitAll]
  by_cases hq : o.pending agent q = none
  · simp [hq]
  · simp [h q hq]

theorem foldl_discard (ps : List FilePath) (h : ∀ p, o.pending agent p ≠ none → p ∈ ps) :
    ps.foldl (fun o p => o.discard agent p) o = o.discardAll agent := by
  have hf : ∀ o : Overlay, (ps.foldl (fun o p => o.discard agent p) o).files = o.files := by
    clear h
    induction ps with
    | nil => exact fun _ => rfl
    | cons path ps ih => exact fun o => ih (o.discard agent path)
  exact Overlay.ext (pending_foldl o agent (fun p o => pending_setPending o agent p none) ps h) (hf o)

end Overlay

section Calls

variable {staging back : FilePath} {cs : List UInt8} {d d' : Disk} {u : Unit}

theorem writeStaging_eq_ok (h : writeStaging staging cs d = (.ok u, d')) :
    ∃ b : FileBody, b.bytes = cs ∧ ∀ p, d'.tree.node p =
      if p = staging then some (.file b)
      else (d.tree.mkdirs staging.dropLast.inits).2.node p := by
  obtain ⟨_, d1, hdr, h⟩ := bind_eq_ok h
  obtain ⟨_, d2, hc, h⟩ := bind_eq_ok h
  obtain ⟨_, d3, hw, ht⟩ := bind_eq_ok h
  have hm := createDirAll_spec staging.dropLast d
  rw [hdr] at hm
  have hcr := (writeFile_eq_ok (change_eq_ok hc)).2.2
  obtain ⟨b, hb, hwr⟩ := modify_eq_ok (writeAll_eq_ok hw)
  have hd3 : d'.tree = d3.tree := by
    have hs := ask_spec (fun _ _ => .ok ()) d3
    rw [show ask (fun _ _ => .ok ()) d3 = _ from ht] at hs
    cases hs with
    | answered h => rfl
  have he : b.bytes = [] := by
    have hn := file_eq_some_iff.mp hb
    rw [hcr, if_pos rfl] at hn
    obtain rfl := Entry.file.inj (some_inj.mp hn)
    rfl
  refine ⟨b.writeAt 0 cs d2.now, ?_, fun p => ?_⟩
  · unfold FileBody.writeAt
    split
    · rename_i hnl
      rw [he, hnl]
    · simp [FileBody.overwrite, he]
  · rw [hd3, hwr]
    by_cases heq : p = staging
    · rw [if_pos heq, if_pos heq]
    · rw [if_neg heq, if_neg heq, hcr, if_neg heq]
      cases hm with
      | done _ _ => rfl

theorem promote_eq_ok (hd : d.Regular) {b : FileBody} (hb : d.tree.file staging = some b)
    (hne : staging ≠ back) (h : promote staging back d = (.ok u, d')) :
    ∃ b' : FileBody, b'.bytes = b.bytes ∧ ∀ p, d'.tree.node p =
      if p = back then some (.file b')
      else if p = staging then none
      else (d.tree.mkdirs back.dropLast.inits).2.node p := by
  have hm : (d.tree.mkdirs back.dropLast.inits).2.file staging = some b := by
    rw [mkdirs_file, hb]
  have hs := promote_spec staging back d
  rw [h] at hs
  cases hs with
  | renamed _ ht => exact ⟨b, rfl, rename_eq_ok_of_file ht hm hne⟩
  | copied b' mid hpr hdv hb' ht =>
    obtain rfl := some_inj.mp (hb.symm.trans hb')
    have hn := (writeFile_eq_ok ht).2.2
    -- The staging file is still there, so it can be removed.
    have hs := change_spec (fun _ tree => tree.unlink staging) mid
    have hth : mid.tree.file staging = some b := by
      rw [← hm]
      exact file_congr (by rw [hn, if_neg hne])
    show ∃ b' : FileBody, _ ∧ ∀ p, (change _ mid).2.tree.node p = _
    generalize change _ mid = outcome at hs
    cases hs with
    | failed hf => exact absurd (hpr.regular hd).head hf
    | refused _ e he =>
      have hst := file_eq_some_iff.mp hth
      rcases unlink_eq_error he with hno | hdr
      · simp [hno] at hst
      · simp [hdr] at hst
    | done _ tree hu =>
      refine ⟨.replaced ((d.tree.mkdirs back.dropLast.inits).2.file back) b.bytes
        (d.fates.get 2).now, rfl, fun p => ?_⟩
      rw [(unlink_eq_ok hu).2, hn]
      by_cases hp : p = staging
      · rw [if_pos hp, if_neg (hp ▸ hne), if_pos hp]
      · rw [if_neg hp, if_neg hp]

theorem dropStaging_eq_ok (hd : d.Regular) {b : FileBody} (hb : d.tree.file staging = some b) :
    ∃ d', dropStaging staging d = (.ok (), d') ∧ d.Precedes d' ∧
      ∀ p, d'.tree.node p = if p = staging then none else d.tree.node p := by
  have hn := file_eq_some_iff.mp hb
  have hes : pathExists staging d = (true, d.tick) := by
    rw [pathExists_spec]
    simp [hd.head, hn]
  have hs := change_spec (fun _ tree => tree.unlink staging) d.tick
  have hdr : dropStaging staging d = change (fun _ tree => tree.unlink staging) d.tick := by
    simp only [dropStaging, hes]
    rfl
  rw [hdr]
  generalize change _ d.tick = outcome at hs
  cases hs with
  | failed hf => exact absurd (hd 1) hf
  | refused _ e he =>
    rcases unlink_eq_error he with hno | hdi
    · cases hn.symm.trans hno
    · cases hn.symm.trans hdi
  | done _ tree hu =>
    exact ⟨_, rfl, (Disk.Precedes.tick d d.tree).trans (.tick _ tree), (unlink_eq_ok hu).2⟩

end Calls

section Store

variable (n : FilePath → List Char)

/-- Every pending path has its own staging file and is not in the root of the store. -/
structure CowInv (store : AgentCowStore) (tree : FileTree FileBody) : Prop where
  root : ∀ agent ws, store.agents.lookup agent = some ws → ws.stagingRoot = store.cowRoot ++ [agent]
  staging : ∀ agent path staging, store.staged agent path = some staging → staging = store.cowRoot ++ [agent, n path]
  outside : ∀ agent path staging, store.staged agent path = some staging → ¬ store.cowRoot <+: path
  file : ∀ agent path staging, store.staged agent path = some staging → ∃ body, tree.file staging = some body

/-- Outside the root of the store nothing is new but directories on the way to it. -/
def DirsOnly (cowRoot : FilePath) (t t' : FileTree FileBody) : Prop :=
  ∀ p, ¬ cowRoot <+: p → t'.node p = t.node p ∨ p <+: cowRoot ∧ t.node p = none ∧ t'.node p = some .dir

/-- The overlay becomes what `f` says, and of the files outside the store's root only those at `touched` change. -/
structure Refined (f : Overlay → Overlay) (touched : List FilePath) (store : AgentCowStore) (d : Disk)
    (st' : AgentCowStore) (d' : Disk) : Prop where
  inv : CowInv n st' d'.tree
  overlay : overlayOf st' d'.tree = f (overlayOf store d.tree)
  cowRoot : st'.cowRoot = store.cowRoot
  defaultAgent : st'.defaultAgent = store.defaultAgent
  precedes : d.Precedes d'
  file : ∀ p, ¬ store.cowRoot <+: p → p ∉ touched → d'.tree.file p = d.tree.file p
  node : touched = [] → DirsOnly store.cowRoot d.tree d'.tree

variable {n}

namespace DirsOnly

variable {cowRoot : FilePath} {t t' t'' : FileTree FileBody}

theorem refl (t : FileTree FileBody) : DirsOnly cowRoot t t := fun _ _ => .inl rfl

theorem trans (h : DirsOnly cowRoot t t') (h' : DirsOnly cowRoot t' t'') : DirsOnly cowRoot t t'' := by
  intro p hp
  rcases h p hp with hs | ⟨ha, hn, hdr⟩
  · rcases h' p hp with hs' | ⟨ha, hn, hdr⟩
    · exact .inl (hs'.trans hs)
    · exact .inr ⟨ha, hs ▸ hn, hdr⟩
  · rcases h' p hp with hs' | ⟨-, hn', -⟩
    · exact .inr ⟨ha, hn, hs'.trans hdr⟩
    · simp [hdr] at hn'

theorem of_node_eq (h : ∀ p, ¬ cowRoot <+: p → t'.node p = t.node p) : DirsOnly cowRoot t t' :=
  fun p hp => .inl (h p hp)

theorem of_mkdirs {ps : List FilePath} {path : FilePath} (hpt : cowRoot <+: path)
    (hph : ∀ p ∈ ps, p <+: path) : DirsOnly cowRoot t (t.mkdirs ps).2 := by
  intro p hp
  rcases mkdirs_node (t := t) ps p with hs | ⟨hn, hdr, hm⟩
  · exact .inl hs
  · have ha : p <+: cowRoot :=
      (List.prefix_or_prefix_of_prefix (hph p hm) hpt).resolve_right hp
    exact .inr ⟨ha, hn, hdr⟩

end DirsOnly

namespace Refined

variable {f g : Overlay → Overlay} {touched tc' : List FilePath}
  {store st' st'' : AgentCowStore} {d d' d'' : Disk}

theorem trans (h : Refined n f touched store d st' d') (h' : Refined n g tc' st' d' st'' d'') :
    Refined n (g ∘ f) (touched ++ tc') store d st'' d'' where
  inv := h'.inv
  overlay := by rw [h'.overlay, h.overlay]; rfl
  cowRoot := h'.cowRoot.trans h.cowRoot
  defaultAgent := h'.defaultAgent.trans h.defaultAgent
  precedes := h.precedes.trans h'.precedes
  file p hp ht := by
    rw [mem_append, not_or] at ht
    rw [h'.file p (h.cowRoot ▸ hp) ht.2, h.file p hp ht.1]
  node hnl := by
    obtain ⟨hnl, hnl'⟩ := append_eq_nil_iff.mp hnl
    exact (h.node hnl).trans (h.cowRoot ▸ h'.node hnl')

end Refined

variable {store : AgentCowStore} {d d' : Disk} {agent : List Char} {ws ws' : WriteSerialize}

theorem bytesAt_congr {t t' : FileTree FileBody} {p : FilePath} (h : t'.file p = t.file p) :
    bytesAt t' p = bytesAt t p := by
  simp [bytesAt, h]

section Entries

variable {tree tree' : FileTree FileBody}

theorem CowInv.of_entries
    (hroot : ∀ agent ws, store.agents.lookup agent = some ws → ws.stagingRoot = store.cowRoot ++ [agent])
    (h : ∀ agent path staging, store.staged agent path = some staging →
      staging = store.cowRoot ++ [agent, n path] ∧ ¬ store.cowRoot <+: path ∧
        ∃ b, tree.file staging = some b) : CowInv n store tree :=
  ⟨hroot, fun a p q hq => (h a p q hq).1, fun a p q hq => (h a p q hq).2.1, fun a p q hq => (h a p q hq).2.2⟩

theorem CowInv.of_staged (hinv : CowInv n store tree) {path staging : FilePath}
    (h : store.staged agent path = some staging) :
    staging = store.cowRoot ++ [agent, n path] ∧ ¬ store.cowRoot <+: path ∧ ∃ b, tree.file staging = some b :=
  ⟨hinv.staging _ _ _ h, hinv.outside _ _ _ h, hinv.file _ _ _ h⟩

theorem CowInv.setAgent (hinv : CowInv n store tree) (hroot : ws.stagingRoot = store.cowRoot ++ [agent])
    (hp : ∀ path staging, ws.pending.lookup path = some staging →
      staging = store.cowRoot ++ [agent, n path] ∧ ¬ store.cowRoot <+: path ∧ ∃ body, tree'.file staging = some body)
    (ho : ∀ a, a ≠ agent → ∀ path staging, store.staged a path = some staging →
      tree'.file staging = tree.file staging) :
    CowInv n (store.setAgent agent ws) tree' := by
  refine .of_entries (fun a ws' hlk => ?_) fun a path staging h => ?_
  · rcases lookup_insert_eq_some_iff.mp hlk with ⟨rfl, rfl⟩ | ⟨-, hlk⟩
    · exact hroot
    · exact hinv.root a ws' hlk
  · rw [staged_setAgent] at h
    split_ifs at h with heq
    · subst heq
      exact hp path staging h
    · obtain ⟨hst, hot, body, hb⟩ := hinv.of_staged h
      exact ⟨hst, hot, body, (ho a heq path staging h).trans hb⟩

end Entries

theorem storeFor_refined (hinv : CowInv n store d.tree) (agent : List Char) :
    ∃ ws st' d', store.storeFor agent d = (ws, st', d') ∧
      st'.agents.lookup agent = some ws ∧ Refined n id [] store d st' d' := by
  obtain ⟨ws, st', d', hrn, hr⟩ := storeFor_ready store agent d
  refine ⟨ws, st', d', hrn, hr.lookup, .of_entries (fun a ws' h => ?_) fun a path staging h => ?_,
    ?_, hr.cowRoot, hr.defaultAgent, hr.precedes, fun p _ _ => hr.file p, fun _ => ?_⟩
  · rw [hr.cowRoot]
    rcases hr.agents a ws' h with h | ⟨rfl, hroot⟩
    · exact hinv.root a ws' h
    · exact hroot
  · rw [hr.staged] at h
    rw [hr.cowRoot, hr.file]
    exact hinv.of_staged h
  · have hb : bytesAt d'.tree = bytesAt d.tree := funext fun p => bytesAt_congr (hr.file p)
    unfold overlayOf
    rw [hb, hr.cowRoot]
    simp only [hr.staged]
    rfl
  · obtain ⟨ps, hph, ht⟩ := hr.tree
    rw [ht]
    exact .of_mkdirs (prefix_append _ _) fun p hp => (hph p hp).2

section Change

variable {path : FilePath} {touched : List FilePath} (hinj : Injective n)
  (hinv : CowInv n store d.tree) (hlk : store.agents.lookup agent = some ws)

variable {tree : FileTree FileBody}

theorem CowInv.staging_ne (hinj : Injective n)
    (hinv : CowInv n store tree) {a : List Char} {q staging : FilePath}
    (h : store.staged a q = some staging) (hne : ¬ (a = agent ∧ q = path)) :
    staging ≠ store.cowRoot ++ [agent, n path] := by
  rw [hinv.staging a q staging h]
  intro heq
  have hb := append_cancel_left heq
  simp only [cons.injEq, and_true] at hb
  exact hne ⟨hb.1, hinj hb.2⟩

/-- The entry changes with its staging file, and with it perhaps files outside the root of the store. -/
structure EntryChange (n : FilePath → List Char) (store : AgentCowStore) (agent : List Char)
    (path : FilePath) (touched : List FilePath) (ws ws' : WriteSerialize) (d d' : Disk) : Prop where
  root : ws'.stagingRoot = ws.stagingRoot
  other : ∀ q, q ≠ path → ws'.pending.lookup q = ws.pending.lookup q
  entry : ∀ staging, ws'.pending.lookup path = some staging →
    staging = store.cowRoot ++ [agent, n path] ∧ ∃ body, d'.tree.file staging = some body
  file : ∀ p, p ≠ store.cowRoot ++ [agent, n path] → p ∉ touched → d'.tree.file p = d.tree.file p
  outside : ∀ p ∈ touched, ¬ store.cowRoot <+: p
  node : touched = [] → DirsOnly store.cowRoot d.tree d'.tree
  precedes : d.Precedes d'

namespace EntryChange

variable (h : EntryChange n store agent path touched ws ws' d d')
include h

theorem files (p : FilePath) : (overlayOf (store.setAgent agent ws') d'.tree).files p =
      if p ∈ touched then bytesAt d'.tree p else (overlayOf store d.tree).files p := by
  simp only [overlayOf]
  by_cases hroot : store.cowRoot <+: p
  · have hn : p ∉ touched := fun hm => h.outside p hm hroot
    simp only [if_neg hn, if_pos hroot]
    exact if_pos hroot
  · by_cases hm : p ∈ touched
    · simp only [if_pos hm]
      exact if_neg hroot
    · simp only [if_neg hm, if_neg hroot]
      have hne : p ≠ store.cowRoot ++ [agent, n path] := by
        rintro rfl
        exact hroot (prefix_append _ _)
      exact (if_neg hroot).trans (bytesAt_congr (h.file p hne hm))

include hinj hinv in
theorem file_staging {a : List Char} {q staging : FilePath} (hne : ¬ (a = agent ∧ q = path))
    (hs : store.staged a q = some staging) :
    d'.tree.file staging = d.tree.file staging := by
  refine h.file staging (hinv.staging_ne hinj hs hne) fun hm => h.outside staging hm ?_
  rw [hinv.staging a q staging hs]
  exact prefix_append _ _

include hlk in
theorem staged {a : List Char} {q : FilePath} (hne : ¬ (a = agent ∧ q = path)) :
    (store.setAgent agent ws').staged a q = store.staged a q := by
  rw [staged_setAgent]
  split
  · rename_i heq
    subst heq
    rw [h.other q fun hq => hne ⟨rfl, hq⟩]
    simp [AgentCowStore.staged, hlk]
  · rfl

include hinj hinv hlk

theorem pending (a : List Char) (q : FilePath) : ((store.setAgent agent ws').staged a q).bind (bytesAt d'.tree) =
      if a = agent ∧ q = path then (ws'.pending.lookup path).bind (bytesAt d'.tree)
      else (store.staged a q).bind (bytesAt d.tree) := by
  by_cases he : a = agent ∧ q = path
  · rw [if_pos he, staged_setAgent, if_pos he.1, he.2]
  · rw [if_neg he, h.staged hlk he]
    cases hs : store.staged a q with
    | none => rfl
    | some staging => exact bytesAt_congr (h.file_staging hinj hinv he hs)

theorem inv (hpt : ¬ store.cowRoot <+: path) : CowInv n (store.setAgent agent ws') d'.tree := by
  refine hinv.setAgent (h.root.trans (hinv.root agent ws hlk)) ?_ ?_
  · intro q staging hq
    by_cases heq : q = path
    · subst heq
      obtain ⟨hst, hf⟩ := h.entry staging hq
      exact ⟨hst, hpt, hf⟩
    · have hs : store.staged agent q = some staging := by
        rw [h.other q heq] at hq
        simp [AgentCowStore.staged, hlk, hq]
      obtain ⟨hst, hot, body, hb⟩ := hinv.of_staged hs
      exact ⟨hst, hot, body, (h.file_staging hinj hinv (fun hbt => heq hbt.2) hs).trans hb⟩
  · intro a hne q staging hs
    exact h.file_staging hinj hinv (fun hbt => hne hbt.1) hs

theorem refined (hpt : ¬ store.cowRoot <+: path) : Refined n
      (fun o => { o.setPending agent path ((ws'.pending.lookup path).bind (bytesAt d'.tree)) with
        files := fun p => if p ∈ touched then bytesAt d'.tree p else o.files p })
      touched store d (store.setAgent agent ws') d' := by
  refine ⟨h.inv hinj hinv hlk hpt, Overlay.ext ?_ ?_, rfl, rfl, h.precedes, ?_, h.node⟩
  · funext a q
    refine (h.pending hinj hinv hlk a q).trans ?_
    exact (Overlay.pending_setPending (overlayOf store d.tree) agent path _ a q).symm
  · funext p
    exact h.files p
  · intro p hroot hm
    refine h.file p ?_ hm
    rintro rfl
    exact hroot (prefix_append _ _)

end EntryChange

variable {f : Overlay → Overlay} {st' : AgentCowStore}

theorem Refined.congr {g : Overlay → Overlay} (h : Refined n f touched store d st' d')
    (hfg : f (overlayOf store d.tree) = g (overlayOf store d.tree)) :
    Refined n g touched store d st' d' :=
  { h with overlay := h.overlay.trans hfg }

include hlk in
theorem overlayOf_pending (path : FilePath) (tree : FileTree FileBody) :
    (overlayOf store tree).pending agent path = (ws.pending.lookup path).bind (bytesAt tree) := by
  simp [overlayOf, AgentCowStore.staged, hlk]

theorem CowInv.entry (hinv : CowInv n store tree)
    (hlk : store.agents.lookup agent = some ws) {staging : FilePath}
    (hp : ws.pending.lookup path = some staging) :
    staging = store.cowRoot ++ [agent, n path] ∧ ¬ store.cowRoot <+: path ∧
      ∃ body, tree.file staging = some body ∧ (overlayOf store tree).pending agent path = some body.bytes := by
  have hs : store.staged agent path = some staging := by
    simpa [AgentCowStore.staged, hlk] using hp
  obtain ⟨hst, hot, body, hb⟩ := hinv.of_staged hs
  refine ⟨hst, hot, body, hb, ?_⟩
  rw [overlayOf_pending hlk path tree, hp]
  simp [bytesAt, hb]

variable (n) in
/-- A call that does not end with an I/O error answers as `reply` says and changes the overlay as `f` does. -/
def Acts (f : Overlay → Overlay) (touched : List FilePath)
    (reply : Overlay → Except WriteSerializeError Unit) (store : AgentCowStore) (d : Disk)
    (outcome : Except WriteSerializeError Unit × AgentCowStore × Disk) : Prop :=
  isIo outcome.1 = false → outcome.1 = reply (overlayOf store d.tree) ∧
    Refined n f touched store d outcome.2.1 outcome.2.2

def AgentCowStore.setOutcome (store : AgentCowStore) (agent : List Char)
    (outcome : Except WriteSerializeError Unit × WriteSerialize × Disk) :
    Except WriteSerializeError Unit × AgentCowStore × Disk :=
  (outcome.1, store.setAgent agent outcome.2.1, outcome.2.2)

include hinj hinv hlk

theorem stageBytes_acts (hpt : ¬ store.cowRoot <+: path) (cs : List UInt8) :
    Acts n (·.stage agent path cs) [] (fun _ => .ok ()) store d
      (store.setOutcome agent (ws.stageBytes n path cs d)) := by
  have hst : ws.stagingPathFor n path = store.cowRoot ++ [agent, n path] := by
    simp [stagingPathFor, hinv.root agent ws hlk]
  have hpr : (store.cowRoot ++ [agent, n path]).dropLast = store.cowRoot ++ [agent] := by
    rw [show store.cowRoot ++ [agent, n path] = (store.cowRoot ++ [agent]) ++ [n path] by simp, dropLast_concat]
  simp only [stageBytes, hst]
  have hpc : d.Precedes (writeStaging (store.cowRoot ++ [agent, n path]) cs d).2 := writeStaging_advances _ _ d
  generalize hw : writeStaging (store.cowRoot ++ [agent, n path]) cs d = written
    at hpc ⊢
  obtain ⟨out, mid⟩ := written
  intro hio
  cases out with
  | error e => cases hio
  | ok _ =>
    refine ⟨rfl, ?_⟩
    obtain ⟨body, hb, hn⟩ := writeStaging_eq_ok hw
    have hsg : mid.tree.file (store.cowRoot ++ [agent, n path]) = some body := by
      rw [file_eq_some_iff, hn, if_pos rfl]
    have hc : EntryChange n store agent path [] ws
        { ws with pending := ws.pending.insert path (store.cowRoot ++ [agent, n path]) }
        d mid := by
      refine ⟨rfl, fun q hq => AList.lookup_insert_ne hq, fun staging hs => ?_, fun p hp _ => ?_, by simp,
        fun _ => ?_, hpc⟩
      · obtain rfl := some_inj.mp ((AList.lookup_insert _).symm.trans hs)
        exact ⟨rfl, body, hsg⟩
      · rw [← mkdirs_file (t := d.tree)]
        exact file_congr ((hn p).trans (if_neg hp))
      · have hdr : DirsOnly store.cowRoot d.tree
            (d.tree.mkdirs (store.cowRoot ++ [agent, n path]).dropLast.inits).2 := by
          refine .of_mkdirs (prefix_append store.cowRoot [agent]) fun p hp => ?_
          rw [← hpr]
          exact (mem_inits _ _).mp hp
        refine hdr.trans (.of_node_eq fun p hp => ?_)
        rw [hn, if_neg]
        rintro rfl
        exact hp (prefix_append _ _)
    refine (hc.refined hinj hinv hlk hpt).congr ?_
    simp [Overlay.stage, AList.lookup_insert, bytesAt, hsg, hb, Overlay.setPending]

omit hinj in
theorem setAgent_refined : Refined n id [] store d (store.setAgent agent ws) d := by
  have hs : ∀ a q, (store.setAgent agent ws).staged a q = store.staged a q := by
    intro a q
    rw [staged_setAgent]
    split_ifs with heq
    · subst heq
      simp [AgentCowStore.staged, hlk]
    · rfl
  have hi' : CowInv n (store.setAgent agent ws) d.tree := by
    refine hinv.setAgent (hinv.root agent ws hlk) (fun q staging hq => ?_) (fun _ _ _ _ _ => rfl)
    obtain ⟨hst, hpt, body, hb, -⟩ := hinv.entry hlk hq
    exact ⟨hst, hpt, body, hb⟩
  have ho : overlayOf (store.setAgent agent ws) d.tree = overlayOf store d.tree := by
    unfold overlayOf
    simp only [hs]
    rfl
  exact ⟨hi', ho, rfl, rfl, .refl d, fun _ _ _ => rfl, fun _ => .refl d.tree⟩

omit hinj hinv hlk in
theorem Refined.touch (h : Refined n f [] store d st' d') : Refined n f touched store d st' d' :=
  { h with
    file := fun p hp _ => h.file p hp not_mem_nil
    node := fun _ => h.node rfl }

theorem commitPending_acts (hd : d.Regular) : Acts n (·.commit agent path) [path] (·.answer agent path) store d
      (store.setOutcome agent (ws.commitPending path d)) := by
  have hpa := overlayOf_pending hlk path d.tree
  unfold commitPending
  cases hpn : ws.pending.lookup path with
  | none =>
    rw [hpn, bind_none] at hpa
    refine fun _ => ⟨by simp [Overlay.answer, hpa]; rfl, ?_⟩
    refine ((setAgent_refined hinv hlk).touch).congr ?_
    simp [Overlay.commit, hpa]
  | some staging =>
    obtain ⟨hs, hpt, body, hb, hby⟩ := hinv.entry hlk hpn
    have hne : staging ≠ path := by
      rintro rfl
      rw [hs] at hpt
      exact hpt (prefix_append _ _)
    have hes : pathExists staging d = (true, d.tick) := by
      rw [pathExists_spec]
      simp [hd.head, file_eq_some_iff.mp hb]
    simp only [hes]
    have hpr : d.Precedes (promote staging path d.tick).2 :=
      (Disk.Precedes.tick d d.tree).trans (promote_advances staging path d.tick)
    generalize hpm : promote staging path d.tick = promoted at hpr ⊢
    obtain ⟨out, mid⟩ := promoted
    intro hio
    cases out with
    | error e => cases hio
    | ok _ =>
      refine ⟨by simp [Overlay.answer, hby]; rfl, ?_⟩
      have hd' : d.tick.Regular := (Disk.Precedes.tick d d.tree).regular hd
      obtain ⟨b', hb', hn⟩ := promote_eq_ok hd' hb hne hpm
      have hnw : bytesAt mid.tree path = some body.bytes := by
        have hf : mid.tree.file path = some b' := by
          rw [file_eq_some_iff, hn, if_pos rfl]
        simp [bytesAt, hf, hb']
      have hc : EntryChange n store agent path [path] ws (ws.forget path) d mid := by
        refine ⟨rfl, fun q hq => ws.lookup_forget_of_ne hq, fun st hst => ?_, fun p hp ht => ?_,
          by simpa using hpt, nofun, hpr⟩
        · simp at hst
        · rw [← hs] at hp
          rw [mem_singleton] at ht
          rw [← mkdirs_file (t := d.tree) path.dropLast.inits]
          refine file_congr ?_
          rw [hn, if_neg ht, if_neg hp]
          rfl
      refine (hc.refined hinj hinv hlk hpt).congr ?_
      simp only [Overlay.commit, hby, ws.lookup_forget, bind_none, mem_singleton]
      refine Overlay.ext rfl ?_
      funext p
      by_cases hp : p = path
      · simp [hp, hnw]
      · simp [hp]

theorem discardPending_acts (hd : d.Regular) : Acts n (·.discard agent path) [] (·.answer agent path) store d
      (store.setOutcome agent (ws.discardPending path d)) := by
  intro _
  have hpa := overlayOf_pending hlk path d.tree
  unfold discardPending
  cases hpn : ws.pending.lookup path with
  | none =>
    rw [hpn, bind_none] at hpa
    refine ⟨by simp [Overlay.answer, hpa]; rfl, ?_⟩
    refine (setAgent_refined hinv hlk).congr ?_
    refine Overlay.ext ?_ rfl
    funext a q
    rw [Overlay.discard, Overlay.pending_setPending]
    split
    · rename_i heq
      rw [heq.1, heq.2]
      exact hpa
    · rfl
  | some staging =>
    obtain ⟨hs, hpt, body, hb, hby⟩ := hinv.entry hlk hpn
    obtain ⟨mid, hdr, hpr, hn⟩ := dropStaging_eq_ok hd hb
    simp only [hdr]
    refine ⟨by simp [Overlay.answer, hby]; rfl, ?_⟩
    have hc : EntryChange n store agent path [] ws (ws.forget path) d mid := by
      refine ⟨rfl, fun q hq => ws.lookup_forget_of_ne hq, fun st hst => ?_, fun p hp _ => ?_,
        by simp, fun _ => .of_node_eq fun p hp => ?_, hpr⟩
      · simp at hst
      · rw [← hs] at hp
        exact file_congr ((hn p).trans (if_neg hp))
      · refine (hn p).trans (if_neg ?_)
        rintro rfl
        rw [hs] at hp
        exact hp (prefix_append _ _)
    refine (hc.refined hinj hinv hlk hpt).congr ?_
    simp only [Overlay.discard, ws.lookup_forget, bind_none, not_mem_nil, if_false]
    rfl

end Change

section Calls

variable {f : Overlay → Overlay} {touched : List FilePath} {who : Option (List Char)}
  {reply : Overlay → Except WriteSerializeError Unit}

theorem Refined.acts {st1 : AgentCowStore} {d1 : Disk}
    {out : Except WriteSerializeError Unit × AgentCowStore × Disk}
    (h : Refined n id [] store d st1 d1)
    (h' : Acts n f touched reply st1 d1 out) :
    Acts n f touched reply store d out := by
  intro hio
  obtain ⟨hr, hrf⟩ := h' hio
  rw [h.overlay] at hr
  exact ⟨hr, h.trans hrf⟩

variable (hinj : Injective n) (hd : d.Regular) (hinv : CowInv n store d.tree)
include hd hinv

theorem onStore_acts {op : WriteSerialize → Disk → Except WriteSerializeError Unit × WriteSerialize × Disk}
    (hop : ∀ st1 d1 ws, CowInv n st1 d1.tree → d1.Regular →
      st1.cowRoot = store.cowRoot → st1.agents.lookup (store.agentKey who) = some ws →
      Acts n f touched reply st1 d1 (st1.setOutcome (store.agentKey who) (op ws d1))) :
    Acts n f touched reply store d (store.onStore who op d) := by
  obtain ⟨ws, st1, d1, hsf, hlk, hf⟩ := storeFor_refined hinv (store.agentKey who)
  have hrn : store.onStore who op d = st1.setOutcome (store.agentKey who) (op ws d1) := by
    simp only [AgentCowStore.onStore, hsf]
    rfl
  rw [hrn]
  exact hf.acts (hop st1 d1 ws hf.inv (hf.precedes.regular hd) hf.cowRoot hlk)

variable {touch : FilePath → List FilePath}

theorem forEach_acts (agent : List Char)
    {op : AgentCowStore → FilePath → Disk → Except WriteSerializeError Unit × AgentCowStore × Disk}
    {g : FilePath → Overlay → Overlay}
    (hop : ∀ store path d, CowInv n store d.tree → d.Regular →
      Acts n (g path) (touch path) (·.answer agent path) store d (op store path d))
    (hg : ∀ path q o, q ≠ path → (g path o).pending agent q = o.pending agent q)
    (ps : List FilePath) (hn : ps.Nodup)
    (hpn : ∀ p ∈ ps, (overlayOf store d.tree).pending agent p ≠ none) :
    Acts n (fun o => ps.foldl (fun o p => g p o) o) (ps.flatMap touch) (fun _ => .ok ())
      store d (AgentCowStore.forEach op ps store d) := by
  induction ps generalizing store d with
  | nil => exact fun _ => ⟨rfl, hinv, rfl, rfl, rfl, .refl d, fun _ _ _ => rfl, fun _ => .refl d.tree⟩
  | cons path ps ih =>
    obtain ⟨hf, hn⟩ := nodup_cons.mp hn
    obtain ⟨bs, hb⟩ := ne_none_iff_exists'.mp (hpn path mem_cons_self)
    have hfr := hop store path d hinv hd
    rw [AgentCowStore.forEach]
    generalize op store path d = outcome at hfr ⊢
    obtain ⟨r, store1, d1⟩ := outcome
    simp only [Acts, Overlay.answer, hb] at hfr
    intro hio
    cases r with
    | error e => cases (hfr hio).1
    | ok _ =>
      obtain ⟨-, hrf⟩ := hfr rfl
      have hrest : ∀ p ∈ ps, (overlayOf store1 d1.tree).pending agent p ≠ none := by
        intro p hp
        have hne : p ≠ path := by
          rintro rfl
          exact hf hp
        rw [hrf.overlay, hg path p _ hne]
        exact hpn p (mem_cons_of_mem _ hp)
      obtain ⟨hr, ht⟩ := ih (hrf.precedes.regular hd) hrf.inv hn hrest hio
      exact ⟨hr, hrf.trans ht⟩

include hinj in
theorem store_commitPending_acts (who : Option (List Char)) (path : FilePath) :
    Acts n (·.commit (store.agentKey who) path) [path] (·.answer (store.agentKey who) path) store d
      (store.commitPending who path d) :=
  onStore_acts hd hinv fun _ _ _ hi' hd' _ hlk => commitPending_acts hinj hi' hlk hd'

include hinj in
theorem store_discardPending_acts (who : Option (List Char)) (path : FilePath) :
    Acts n (·.discard (store.agentKey who) path) [] (·.answer (store.agentKey who) path) store d
      (store.discardPending who path d) :=
  onStore_acts hd hinv fun _ _ _ hi' hd' _ hlk => discardPending_acts hinj hi' hlk hd'

omit hd in
theorem mem_pendingForAgent (who : Option (List Char)) (p : FilePath) :
    p ∈ store.pendingForAgent who ↔ (overlayOf store d.tree).pending (store.agentKey who) p ≠ none := by
  rw [mem_pendingForAgent_iff_staged]
  cases hp : store.staged (store.agentKey who) p with
  | none => simp [overlayOf, hp]
  | some staging =>
    obtain ⟨b, hb⟩ := hinv.file _ p staging hp
    simp [overlayOf, hp, bytesAt, hb]

theorem forAll_acts {c : AgentCowStore → Option (List Char) → FilePath → Disk →
      Except WriteSerializeError Unit × AgentCowStore × Disk}
    {g : List Char → FilePath → Overlay → Overlay}
    (hc : ∀ {store : AgentCowStore} {d : Disk}, d.Regular → CowInv n store d.tree → ∀ who path,
      Acts n (g (store.agentKey who) path) (touch path) (·.answer (store.agentKey who) path) store d
        (c store who path d))
    (hg : ∀ o agent p a q, (g agent p o).pending a q = if a = agent ∧ q = p then none else o.pending a q)
    {ps : List FilePath} (hph : ps.Perm (store.pendingForAgent who))
    (hf : (∀ p, (overlayOf store d.tree).pending (store.agentKey who) p ≠ none → p ∈ ps) →
      ps.foldl (fun o p => g (store.agentKey who) p o) (overlayOf store d.tree) = f (overlayOf store d.tree))
    (ht : ps.flatMap touch = touched) :
    Acts n f touched (fun _ => .ok ()) store d
      (AgentCowStore.forEach (fun st1 path => c st1 (some (store.agentKey who)) path) ps
        (store.storeFor (store.agentKey who) d).2.1 (store.storeFor (store.agentKey who) d).2.2) := by
  obtain ⟨ws, st1, d1, hsf, -, hfr⟩ := storeFor_refined hinv (store.agentKey who)
  have hm := fun p => hph.mem_iff.trans (mem_pendingForAgent hinv who p)
  have hn : ps.Nodup := hph.nodup_iff.mpr (nodup_pendingForAgent store who)
  have he := hfr.acts (forEach_acts (hfr.precedes.regular hd) hfr.inv (store.agentKey who)
    (fun st2 path d2 hi2 hd2 => by
      have ho := hc hd2 hi2 (some (store.agentKey who)) path
      rw [agentKey_agentKey] at ho
      exact ho)
    (fun path q o hne => by
      rw [hg, if_neg]
      exact fun hb => hne hb.2) ps hn fun p hp => by
        rw [hfr.overlay]
        exact (hm p).mp hp)
  rw [hsf, ← ht]
  exact fun hio => ⟨(he hio).1, (he hio).2.congr (hf fun p => (hm p).mpr)⟩

end Calls

section Runs

variable {s s' : CowState} {op : CowOp} {clock : Stream' Nat}

variable (n s op clock) in
def Performs (outcome : Except WriteSerializeError Unit × CowState) : Prop :=
  isIo outcome.1 = false → outcome.1 = s.overlay.reply s.store.agentKey op ∧ ∃ d', outcome.2.tree = d'.tree ∧
    Refined n (·.step s.store.agentKey op) op.touched s.store (s.disk clock) outcome.2.store d'

theorem Acts.after {α : Type} {out : Except WriteSerializeError α × AgentCowStore × Disk}
    (h : Acts n (·.step s.store.agentKey op) op.touched (·.reply s.store.agentKey op) s.store
      (s.disk clock) (out.1.map fun _ => (), out.2)) :
    Performs n s op clock (s.after out) :=
  fun hio => ⟨(h hio).1, _, rfl, (h hio).2⟩

theorem perform_refined (hinj : Injective n) (hinv : CowInv n s.store s.tree)
    (he : s.Enabled op) (hot : op.Outside s.store.cowRoot) :
    Performs n s op clock (s.perform n op clock) := by
  have hd : (s.disk clock).Regular := fun _ => rfl
  have hu : ∀ r : Except WriteSerializeError Unit, (r.map fun _ => ()) = r := by
    rintro (_ | _) <;> rfl
  have hl : ∀ (r : Except WriteSerializeError Unit) (ps : List FilePath),
      ((r.map fun _ => ps).map fun _ => ()) = r := by
    rintro (_ | _) _ <;> rfl
  cases op with
  | stage who path cs =>
    refine Acts.after ?_
    rw [hu]
    exact onStore_acts hd hinv fun _ _ _ hi' _ hroot hlk =>
      stageBytes_acts hinj hi' hlk (hroot ▸ hot) cs
  | commit who path =>
    refine Acts.after ?_
    rw [hu]
    exact store_commitPending_acts hinj hd hinv who path
  | discard who path =>
    refine Acts.after ?_
    rw [hu]
    exact store_discardPending_acts hinj hd hinv who path
  | commitAll who ps =>
    refine Acts.after ?_
    simp only [AgentCowStore.commitAllForAgent, hl]
    exact forAll_acts hd hinv (store_commitPending_acts hinj) Overlay.pending_commit he
      (Overlay.foldl_commit _ _ ps) (flatMap_singleton' ps)
  | discardAll who ps =>
    refine Acts.after ?_
    simp only [AgentCowStore.discardAllForAgent, hl]
    exact forAll_acts hd hinv (store_discardPending_acts hinj)
      (fun o agent p => Overlay.pending_setPending o agent p none) he (Overlay.foldl_discard _ _ ps)
      (flatMap_eq_nil_iff.mpr fun _ _ => rfl)

variable {cowRoot : FilePath} {defaultAgent : List Char} {serialize : Bool} {tree : FileTree FileBody}
  {device : FilePath → Nat}

theorem cowInv_init : CowInv n (cowMachine n cowRoot defaultAgent serialize tree device).init.store
    (cowMachine n cowRoot defaultAgent serialize tree device).init.tree := by
  refine ⟨fun a ws h => ?_, fun a path staging h => ?_, fun a path staging h => ?_,
    fun a path staging h => ?_⟩
  all_goals simp [cowMachine, AgentCowStore.new, AgentCowStore.staged] at h

theorem cowMachine_step {l : CowOp × Stream' Nat}
    (h : (cowMachine n cowRoot defaultAgent serialize tree device).step s l = some s') :
    s.Enabled l.1 ∧ isIo (s.perform n l.1 l.2).1 = false ∧ (s.perform n l.1 l.2).2 = s' := by
  simp only [cowMachine] at h
  split_ifs at h with he hio
  exact ⟨he, Bool.eq_false_iff.mpr hio, some_inj.mp h⟩

theorem run_refined (hinj : Injective n) (ls : List (CowOp × Stream' Nat))
    (hinv : CowInv n s.store s.tree) (hls : ∀ l ∈ ls, l.1.Outside s.store.cowRoot)
    (hrn : (cowMachine n cowRoot defaultAgent serialize tree device).run s ls = some s') :
    CowInv n s'.store s'.tree ∧ s'.store.cowRoot = s.store.cowRoot ∧
      s'.store.defaultAgent = s.store.defaultAgent ∧
      s'.overlay = ls.foldl (fun o l => o.step s.store.agentKey l.1) s.overlay := by
  induction ls generalizing s with
  | nil =>
    obtain rfl : s = s' := by simpa [Machine.run] using hrn
    exact ⟨hinv, rfl, rfl, rfl⟩
  | cons l ls ih =>
    obtain ⟨mid, hstep, hrest⟩ := bind_eq_some_iff.mp hrn
    obtain ⟨he, hio, rfl⟩ := cowMachine_step hstep
    obtain ⟨-, d', ht, hrf⟩ := perform_refined hinj hinv he (hls l mem_cons_self) hio
    have hls' : ∀ l' ∈ ls, l'.1.Outside (s.perform n l.1 l.2).2.store.cowRoot := by
      intro l' hl'
      rw [hrf.cowRoot]
      exact hls l' (mem_cons_of_mem _ hl')
    obtain ⟨hi', hroot, ha, hf⟩ := ih (ht ▸ hrf.inv) hls' hrest
    refine ⟨hi', hroot.trans hrf.cowRoot, ha.trans hrf.defaultAgent, ?_⟩
    have hk : (s.perform n l.1 l.2).2.store.agentKey = s.store.agentKey := by
      funext who
      simp [AgentCowStore.agentKey, hrf.defaultAgent]
    have hm : (s.perform n l.1 l.2).2.overlay = s.overlay.step s.store.agentKey l.1 := by
      rw [CowState.overlay, ht, hrf.overlay]
      rfl
    rw [hf, hk, hm, foldl_cons]

end Runs

end Store

/-- In a run without I/O errors in which nobody stages a path in the root of the store, each call answers and acts
like the one on the overlay. It changes only the backing files that it commits. -/
theorem cow_store_refines_overlay (stagingName : FilePath → List Char)
    (hinj : Function.Injective stagingName) (cowRoot : FilePath) (defaultAgent : List Char)
    (serialize : Bool) (tree : FileTree FileBody) (device : FilePath → Nat)
    (ls : List (CowOp × Stream' Nat)) (hls : ∀ l ∈ ls, l.1.Outside cowRoot) (s : CowState)
    (hrun : (cowMachine stagingName cowRoot defaultAgent serialize tree device).run
      (cowMachine stagingName cowRoot defaultAgent serialize tree device).init ls = some s) :
    s.overlay = ls.foldl (fun o l => o.step s.store.agentKey l.1)
        (cowMachine stagingName cowRoot defaultAgent serialize tree device).init.overlay ∧
      s.store.defaultAgent = sanitizeAgentId defaultAgent ∧
      ∀ op clock result s', op.Outside cowRoot → s.Enabled op →
        s.perform stagingName op clock = (result, s') → isIo result = false →
        result = s.overlay.reply s.store.agentKey op ∧ s'.overlay = s.overlay.step s.store.agentKey op ∧
          (∀ p, ¬ cowRoot <+: p → p ∉ op.touched → s'.tree.file p = s.tree.file p) ∧
          (op.touched = [] → ∀ p, ¬ cowRoot <+: p → ¬ p <+: cowRoot → s'.tree.node p = s.tree.node p) := by
  have hroot0 : (cowMachine stagingName cowRoot defaultAgent serialize tree device).init.store.cowRoot =
      cowRoot := rfl
  obtain ⟨hinv, hroot, ha, ho⟩ := run_refined hinj ls cowInv_init (fun l hl => hls l hl) hrun
  have hk : (cowMachine stagingName cowRoot defaultAgent serialize tree device).init.store.agentKey =
      s.store.agentKey := by
    funext who
    simp [AgentCowStore.agentKey, ha]
  refine ⟨hk ▸ ho, ha, fun op clock result s' hot he hpr hio => ?_⟩
  have hc : s.store.cowRoot = cowRoot := hroot.trans hroot0
  have hpf : Performs stagingName s op clock _ := perform_refined hinj hinv he (hc ▸ hot)
  rw [hpr] at hpf
  obtain ⟨hr, d', ht, hrf⟩ := hpf hio
  have ho' := hrf.overlay
  have hf := hrf.file
  have hn := hrf.node
  rw [← ht, hc] at hf hn
  rw [← ht] at ho'
  refine ⟨hr, ho', hf, fun htc p hp hab => ?_⟩
  exact (hn htc p hp).resolve_right fun h => hab h.1

def spelledName : FilePath → List Char
  | [] => []
  | name :: path => (name.flatMap fun c => ['x', c]) ++ '.' :: spelledName path

theorem spelledName_injective : Injective spelledName := by
  have hn : ∀ a b rs rs' : List Char, (a.flatMap fun c => ['x', c]) ++ '.' :: rs =
      (b.flatMap fun c => ['x', c]) ++ '.' :: rs' → a = b ∧ rs = rs' := by
    intro a
    induction a with
    | nil =>
      rintro (_ | ⟨c, b⟩) rs rs' h
      · simpa using h
      · simp at h
    | cons c a ih =>
      rintro (_ | ⟨c', b⟩) rs rs' h
      · simp at h
      · simp only [flatMap_cons, cons_append, nil_append, cons.injEq, true_and] at h
        obtain ⟨rfl, hrest⟩ := h
        obtain ⟨rfl, rfl⟩ := ih b rs rs' hrest
        exact ⟨rfl, rfl⟩
  intro p
  induction p with
  | nil =>
    rintro (_ | ⟨n, q⟩) h
    · rfl
    · simp [spelledName] at h
  | cons n p ih =>
    rintro (_ | ⟨n', q⟩) h
    · simp [spelledName] at h
    · obtain ⟨rfl, hrest⟩ := hn _ _ _ _ h
      rw [ih hrest]

theorem cow_store_refines_overlay_two_agents :
    let M := cowMachine spelledName [['c']] [] true .empty fun _ => 0
    let ls : List (CowOp × Stream' Nat) :=
      [(.stage (some ['a']) [['f']] [1, 2], fun _ => 0), (.stage (some ['b']) [['f']] [3], fun _ => 0),
        (.commit (some ['a']) [['f']], fun _ => 0)]
    ∃ s, M.run M.init ls = some s ∧ bytesAt s.tree [['f']] = some [1, 2] ∧
      s.overlay = ls.foldl (fun o l => o.step s.store.agentKey l.1) M.init.overlay := by
  intro M ls
  obtain ⟨s, hrn, hb⟩ : ∃ s, M.run M.init ls = some s ∧ bytesAt s.tree [['f']] = some [1, 2] :=
    Machine.exists_run (by decide +kernel)
  have hls : ∀ l ∈ ls, l.1.Outside [['c']] := by
    simp [ls, CowOp.Outside]
  exact ⟨s, hrn, hb,
    (cow_store_refines_overlay spelledName spelledName_injective [['c']] [] true .empty (fun _ => 0)
      ls hls s hrn).1⟩

/-- Agent `a` stages and commits the staging file of agent `b`, whose commit then writes the bytes of `a`. -/
theorem commit_writes_bytes_of_other_agent :
    ∃ stagingName : FilePath → List Char, Function.Injective stagingName ∧
      ∃ (ls : List (CowOp × Stream' Nat)) (s : CowState),
        let M := cowMachine stagingName [['c']] [] true .empty fun _ => 0
        M.run M.init ls = some s ∧ s.overlay.files [['f']] = some [2] ∧
          (ls.foldl (fun o l => o.step s.store.agentKey l.1) M.init.overlay).files [['f']] = some [1] := by
  refine ⟨spelledName, spelledName_injective, [(.stage (some ['b']) [['f']] [1], fun _ => 0),
      (.stage (some ['a']) [['c'], ['b'], spelledName [['f']]] [2], fun _ => 0),
      (.commit (some ['a']) [['c'], ['b'], spelledName [['f']]], fun _ => 0),
      (.commit (some ['b']) [['f']], fun _ => 0)], ?_⟩
  exact Machine.exists_run (by decide +kernel)

/-! ### Isolation -/

def CowOp.agent : CowOp → Option (List Char)
  | .stage agent _ _ | .commit agent _ | .discard agent _ | .commitAll agent _ | .discardAll agent _ => agent

def CowOp.commits : CowOp → Bool
  | .commit _ _ | .commitAll _ _ => true
  | _ => false

namespace Overlay

/-- Overlays that differ at most in what the agent has pending. -/
def AgreeBut (agent : List Char) (o o' : Overlay) : Prop :=
  o.files = o'.files ∧ ∀ other, other ≠ agent → o.pending other = o'.pending other

variable {agent : List Char} {o o' : Overlay} {key : Option (List Char) → List Char} {op : CowOp}

theorem pending_step_of_ne {other : List Char} (ho : other ≠ key op.agent) :
    (o.step key op).pending other = o.pending other := by
  cases op with
  | commit who path =>
    have ho : other ≠ key who := ho
    show (o.commit (key who) path).pending other = o.pending other
    cases hb : o.pending (key who) path with
    | none => simp [commit, hb]
    | some bs => simp [commit, hb, setPending, update_of_ne ho]
  | stage => exact update_of_ne ho _ _
  | discard => exact update_of_ne ho _ _
  | commitAll => exact update_of_ne ho _ _
  | discardAll => exact update_of_ne ho _ _

theorem files_step (hc : op.commits = false) : (o.step key op).files = o.files := by
  cases op with
  | commit => cases hc
  | commitAll => cases hc
  | stage => rfl
  | discard => rfl
  | discardAll => rfl

/-- What a call does depends on the files and on what its own agent has pending. -/
theorem step_congr (hf : o.files = o'.files) (hw : o.pending (key op.agent) = o'.pending (key op.agent)) :
    (o.step key op).files = (o'.step key op).files ∧
      (o.step key op).pending (key op.agent) = (o'.step key op).pending (key op.agent) := by
  cases op with
  | commit who path =>
    show (o.commit (key who) path).files = (o'.commit (key who) path).files ∧
      (o.commit (key who) path).pending (key who) = (o'.commit (key who) path).pending (key who)
    have hw : o.pending (key who) = o'.pending (key who) := hw
    cases hb : o'.pending (key who) path with
    | none => simp [commit, hw, hb, hf]
    | some bs => simp [commit, setPending, hw, hb, hf]
  | stage who path bs =>
    have hw : o.pending (key who) = o'.pending (key who) := hw
    simp [step, stage, setPending, CowOp.agent, hf, hw]
  | discard who path =>
    have hw : o.pending (key who) = o'.pending (key who) := hw
    simp [step, discard, setPending, CowOp.agent, hf, hw]
  | commitAll who ps =>
    have hw : o.pending (key who) = o'.pending (key who) := hw
    simp [step, commitAll, CowOp.agent, hf, hw]
  | discardAll who ps => simp [step, discardAll, CowOp.agent, hf]

theorem AgreeBut.step_other (h : AgreeBut agent o o') (hne : key op.agent ≠ agent) :
    AgreeBut agent (o.step key op) (o'.step key op) := by
  obtain ⟨hf, hw⟩ := step_congr h.1 (h.2 _ hne)
  refine ⟨hf, fun other ho => ?_⟩
  by_cases hk : other = key op.agent
  · rw [hk, hw]
  · rw [pending_step_of_ne hk, pending_step_of_ne hk, h.2 other ho]

theorem AgreeBut.step_self (h : AgreeBut agent o o') (ha : key op.agent = agent) (hc : op.commits = false) :
    AgreeBut agent (o.step key op) o' := by
  subst ha
  refine ⟨(files_step hc).trans h.1, fun other ho => ?_⟩
  rw [pending_step_of_ne ho, h.2 other ho]

theorem AgreeBut.foldl {ls : List (CowOp × Stream' Nat)} (h : AgreeBut agent o o')
    (hc : ∀ l ∈ ls, key l.1.agent = agent → l.1.commits = false) :
    AgreeBut agent (ls.foldl (fun o l => o.step key l.1) o)
      ((ls.filter fun l => key l.1.agent ≠ agent).foldl (fun o l => o.step key l.1) o') := by
  induction ls generalizing o o' with
  | nil => exact h
  | cons l ls ih =>
    obtain ⟨hl, hc⟩ := forall_mem_cons.mp hc
    by_cases ha : key l.1.agent = agent
    · rw [filter_cons_of_neg (by simpa using ha), foldl_cons]
      exact ih (h.step_self ha (hl ha)) hc
    · rw [filter_cons_of_pos (by simpa using ha), foldl_cons, foldl_cons]
      exact ih (h.step_other ha) hc

end Overlay

/-- **Staged writes are invisible.** The backing files and what the other agents have pending are as if an agent
that commits nothing had made none of its calls. -/
theorem staged_writes_invisible (stagingName : FilePath → List Char) (hinj : Function.Injective stagingName)
    (cowRoot : FilePath) (defaultAgent : List Char) (serialize : Bool) (tree : FileTree FileBody)
    (device : FilePath → Nat) (agent : List Char) (ls : List (CowOp × Stream' Nat)) (s s' : CowState) :
    let M := cowMachine stagingName cowRoot defaultAgent serialize tree device
    let key := M.init.store.agentKey
    (∀ l ∈ ls, l.1.Outside cowRoot) → (∀ l ∈ ls, key l.1.agent = agent → l.1.commits = false) →
      M.run M.init ls = some s → M.run M.init (ls.filter fun l => key l.1.agent ≠ agent) = some s' →
        s.overlay.files = s'.overlay.files ∧
          ∀ other, other ≠ agent → s.overlay.pending other = s'.overlay.pending other := by
  intro M key hls hc hrun hrun'
  obtain ⟨-, -, -, ho⟩ := run_refined hinj ls cowInv_init (fun l hl => hls l hl) hrun
  obtain ⟨-, -, -, ho'⟩ := run_refined hinj _ cowInv_init (fun l hl => hls l (mem_filter.mp hl).1) hrun'
  have hself : M.init.overlay.AgreeBut agent M.init.overlay := ⟨rfl, fun _ _ => rfl⟩
  rw [ho, ho']
  exact hself.foldl hc

theorem staged_writes_invisible_two_agents :
    let M := cowMachine spelledName [['c']] [] true .empty fun _ => 0
    let ls : List (CowOp × Stream' Nat) :=
      [(.stage (some ['a']) [['f']] [1, 2], fun _ => 0), (.stage (some ['b']) [['f']] [3], fun _ => 0),
        (.commit (some ['b']) [['f']], fun _ => 0)]
    ∃ s s', M.run M.init ls = some s ∧ M.run M.init (ls.drop 1) = some s' ∧
      s.overlay.files = s'.overlay.files := by
  intro M ls
  obtain ⟨s, hrn, -⟩ : ∃ s, M.run M.init ls = some s ∧ bytesAt s.tree [['f']] = some [3] :=
    Machine.exists_run (by decide +kernel)
  obtain ⟨s', hrn', -⟩ : ∃ s, M.run M.init (ls.drop 1) = some s ∧ bytesAt s.tree [['f']] = some [3] :=
    Machine.exists_run (by decide +kernel)
  refine ⟨s, s', hrn, hrn', ?_⟩
  exact (staged_writes_invisible spelledName spelledName_injective [['c']] [] true .empty (fun _ => 0) ['a'] ls
    s s' (by simp [ls, CowOp.Outside]) (by decide) hrn hrn').1

end ShareCli.Fuse
