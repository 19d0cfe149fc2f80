import ShareCli.Fleet.ProcScan

/-!
# Agent forests

The recursion that builds the forests ends exactly when no top agent is its own ancestor. In a table without
cycles the forests list each process under an agent once, except where a top agent has another agent above it,
or where the walk upwards stops at the parent number 0.
-/

namespace ShareCli.Fleet

open Foundation ParentLinks List AList

variable {pats : List RuntimePattern} {procs : List ProcSnapshot} {p : ProcSnapshot} {pid : UInt32}

theorem lookup_foldl_insert (tb : ProcTable) (pid : UInt32) :
    (procs.foldl (fun tb p => tb.insert p.pid p) tb).lookup pid =
      (procs.reverse.find? (·.pid = pid)).or (tb.lookup pid) := by
  induction procs generalizing tb with
  | nil => rfl
  | cons p procs ih =>
    have hi : (tb.insert p.pid p).lookup pid = ([p].find? (·.pid = pid)).or (tb.lookup pid) := by
      by_cases hp : p.pid = pid
      · subst hp
        simp [lookup_insert]
      · simp [lookup_insert_ne (Ne.symm hp), hp]
    rw [foldl_cons, ih, hi, reverse_cons, find?_append, Option.or_assoc]

theorem lookup_byPid : (byPid procs).lookup pid = procs.reverse.find? (·.pid = pid) := by
  rw [byPid, lookup_foldl_insert, lookup_empty, Option.or_none]

theorem pid_of_lookup (h : (byPid procs).lookup pid = some p) : p.pid = pid := by
  rw [lookup_byPid] at h
  simpa using find?_some h

theorem mem_of_lookup (h : (byPid procs).lookup pid = some p) : p ∈ procs := by
  rw [lookup_byPid] at h
  exact mem_reverse.mp (mem_of_find?_eq_some h)

theorem exists_lookup (hp : p ∈ procs) : ∃ q, (byPid procs).lookup p.pid = some q := by
  rw [lookup_byPid]
  refine Option.isSome_iff_exists.mp (find?_isSome.mpr ⟨p, mem_reverse.mpr hp, ?_⟩)
  simp

theorem lookup_of_mem (hd : (procs.map (·.pid)).Nodup) (hp : p ∈ procs) :
    (byPid procs).lookup p.pid = some p := by
  obtain ⟨q, hq⟩ := exists_lookup hp
  have hs : q = p := inj_on_of_nodup_map hd (mem_of_lookup hq) hp (pid_of_lookup hq)
  rw [hq, hs]

theorem length_keys_le : (byPid procs).keys.length ≤ procs.length := by
  have hs : (byPid procs).keys ⊆ procs.map (·.pid) := by
    intro pid hp
    obtain ⟨q, hq⟩ := Option.isSome_iff_exists.mp (lookup_isSome.mpr hp)
    exact mem_map.mpr ⟨q, mem_of_lookup hq, pid_of_lookup hq⟩
  have hle := (subperm_of_subset (byPid procs).keys_nodup hs).length_le
  rwa [length_map] at hle

theorem mem_childPids_iff {parent : UInt32} :
    pid ∈ childPids (byPid procs) parent ↔ ((byPid procs).lookup pid).map (·.ppid) = some parent := by
  rw [childPids, mem_insertionSort, mem_map, Option.map_eq_some_iff]
  constructor
  · rintro ⟨⟨key, p⟩, hp, rfl⟩
    obtain ⟨hm, hpr⟩ := mem_filter.mp hp
    have hl : (byPid procs).lookup key = some p := mem_lookup_iff.mpr hm
    obtain rfl := pid_of_lookup hl
    exact ⟨p, hl, of_decide_eq_true hpr⟩
  · rintro ⟨p, hl, hpr⟩
    refine ⟨⟨pid, p⟩, mem_filter.mpr ⟨mem_lookup_iff.mp hl, ?_⟩, pid_of_lookup hl⟩
    exact decide_eq_true hpr

theorem nodup_childPids (procs : List ProcSnapshot) (parent : UInt32) : (childPids (byPid procs) parent).Nodup := by
  have hk : ∀ e ∈ (byPid procs).entries.filter (fun e => e.2.ppid = parent), e.2.pid = e.1 := by
    rintro ⟨key, p⟩ he
    exact pid_of_lookup (mem_lookup_iff.mpr (mem_of_mem_filter he))
  rw [childPids, (perm_insertionSort _ _).nodup_iff, map_congr_left hk]
  exact (byPid procs).keys_nodup.sublist (filter_sublist.map _)

theorem mem_keys_of_ppid {parent : UInt32} (h : ((byPid procs).lookup pid).map (·.ppid) = some parent) :
    pid ∈ (byPid procs).keys := by
  obtain ⟨p, hp, -⟩ := Option.map_eq_some_iff.mp h
  exact lookup_isSome.mp (Option.isSome_of_eq_some hp)

def links (procs : List ProcSnapshot) : ParentLinks UInt32 where
  nodes := (byPid procs).keys
  parent pid := ((byPid procs).lookup pid).map (·.ppid)
  children := childPids (byPid procs)
  mem_nodes := mem_keys_of_ppid
  mem_children := mem_childPids_iff
  nodup_children := nodup_childPids procs

theorem parent_of_lookup (h : (byPid procs).lookup pid = some p) : (links procs).parent pid = some p.ppid := by
  show ((byPid procs).lookup pid).map (·.ppid) = some p.ppid
  rw [h, Option.map_some]

theorem mem_nodes_of_lookup (h : (byPid procs).lookup pid = some p) : pid ∈ (links procs).nodes :=
  lookup_isSome.mp (Option.isSome_of_eq_some h)

theorem collectForestPids_append (nodes more : List AgentTreeNode) :
    collectForestPids (nodes ++ more) = collectForestPids nodes ++ collectForestPids more := by
  induction nodes with
  | nil => rfl
  | cons node nodes ih => rw [cons_append, collectForestPids, ih, collectForestPids, append_assoc]

theorem subtree_pids (apart : List UInt32) (depth : Nat) (h : (byPid procs).lookup pid = some p) :
    ((buildAgentSubtree pats (byPid procs) apart depth pid).map Option.toList).map collectForestPids =
      (links procs).preorder depth pid := by
  induction depth generalizing pid p with
  | zero => rfl
  | succ depth ih =>
    have hc : ∀ ch ∈ childPids (byPid procs) pid,
        ((buildAgentSubtree pats (byPid procs) apart depth ch).map Option.toList).map
          collectForestPids = (links procs).preorder depth ch := by
      intro ch hch
      obtain ⟨q, hq, -⟩ := Option.map_eq_some_iff.mp (mem_childPids_iff.mp hch)
      exact ih hq
    have hb := (map_collect rfl collectForestPids_append _ _).trans (collect_congr hc)
    rw [preorder]
    show _ = (collect ((links procs).preorder depth) (childPids (byPid procs) pid)).map (pid :: ·)
    rw [← hb, buildAgentSubtree, h]
    simp only [Option.map_map, Function.comp_def, Option.toList_some, collectForestPids, nodePids,
      append_nil]

variable {agent : DetectedAgent}

theorem exists_of_mem_scanAgents (h : agent ∈ scanAgents pats procs) : ∃ p ∈ procs, detect pats p = some agent := by
  rw [scanAgents, mem_insertionSort] at h
  exact mem_filterMap.mp h

theorem pid_of_detect (h : detect pats p = some agent) : agent.pid = p.pid := by
  obtain ⟨f, -, rfl⟩ := Option.map_eq_some_iff.mp h
  rfl

def topAgents (pats : List RuntimePattern) (procs : List ProcSnapshot) : List UInt32 :=
  agentRoots (byPid procs) (scanAgents pats procs)

theorem exists_lookup_of_mem_topAgents (h : pid ∈ topAgents pats procs) :
    ∃ p, (byPid procs).lookup pid = some p := by
  rw [topAgents, agentRoots, mem_insertionSort] at h
  obtain ⟨agent, ha, rfl⟩ := mem_map.mp h
  obtain ⟨p, hp, hd⟩ := exists_of_mem_scanAgents (mem_of_mem_filter ha)
  rw [pid_of_detect hd]
  exact exists_lookup hp

theorem forest_pids (pats : List RuntimePattern) (procs : List ProcSnapshot) (depth : Nat) :
    (buildAgentForests pats depth procs procs).map collectForestPids =
      collect ((links procs).preorder depth) (topAgents pats procs) := by
  have hr : ∀ r ∈ topAgents pats procs,
      ((buildAgentSubtree pats (byPid procs) ((scanAgents pats procs).map (·.pid)) depth r).map
        Option.toList).map collectForestPids = (links procs).preorder depth r := by
    intro r hroot
    obtain ⟨p, hp⟩ := exists_lookup_of_mem_topAgents hroot
    exact subtree_pids _ depth hp
  rw [← collect_congr hr, ← map_collect rfl collectForestPids_append]
  unfold buildAgentForests
  dsimp only
  split
  · rename_i he
    rw [topAgents, isEmpty_iff.mp he]
    rfl
  · rfl

def OwnAncestor (procs : List ProcSnapshot) (pid : UInt32) : Prop :=
  ∃ k, (links procs).ancestor (k + 1) pid = some pid

theorem forests_none_of_ownAncestor (ht : pid ∈ topAgents pats procs) (h : OwnAncestor procs pid)
    (depth : Nat) : buildAgentForests pats depth procs procs = none := by
  obtain ⟨k, hk⟩ := h
  have hroot : (links procs).preorder depth pid = none :=
    preorder_eq_none_iff.mpr (exists_path_of_cycle hk depth)
  have hf : (buildAgentForests pats depth procs procs).map collectForestPids = none := by
    rw [forest_pids]
    exact collect_eq_none_iff.mpr ⟨pid, ht, hroot⟩
  exact Option.map_eq_none_iff.mp hf

theorem exists_forests (hr : ∀ r ∈ topAgents pats procs, ¬ OwnAncestor procs r) :
    ∃ fs, buildAgentForests pats procs.length procs procs = some fs := by
  refine Option.ne_none_iff_exists'.mp fun hn => ?_
  have hpd := forest_pids pats procs procs.length
  rw [hn, Option.map_none] at hpd
  obtain ⟨r, hroot, hpr⟩ := collect_eq_none_iff.mp hpd.symm
  obtain ⟨p, hp⟩ := exists_lookup_of_mem_topAgents hroot
  exact hr r hroot ((preorder_eq_none_iff_cycle length_keys_le (mem_nodes_of_lookup hp)).mp hpr)

/-- Cycles elsewhere and processes that are their own parents do no harm. -/
theorem build_agent_forests_ends_iff (patterns : List RuntimePattern) (procs : List ProcSnapshot) :
    (∃ forests, buildAgentForests patterns procs.length procs procs = some forests) ↔
      ∀ root ∈ topAgents patterns procs, ¬ OwnAncestor procs root := by
  constructor
  · rintro ⟨forests, hf⟩ root hroot hc
    rw [forests_none_of_ownAncestor hroot hc] at hf
    cases hf
  · exact exists_forests

def agentInCycle : List ProcSnapshot :=
  [{ pid := 1, ppid := 2, comm := "claude", cmdline := [] }, { pid := 2, ppid := 1, comm := "bash", cmdline := [] }]

theorem build_agent_forests_never_ends :
    ¬ ∃ depth forests, buildAgentForests [] depth agentInCycle agentInCycle = some forests := by
  rintro ⟨depth, forests, hf⟩
  have ht : 1 ∈ topAgents [] agentInCycle := by decide +kernel
  have hc : OwnAncestor agentInCycle 1 := ⟨1, by decide +kernel⟩
  rw [forests_none_of_ownAncestor ht hc] at hf
  cases hf

def AgentAt (pats : List RuntimePattern) (procs : List ProcSnapshot) (pid : UInt32) : Prop :=
  ∃ p, (byPid procs).lookup pid = some p ∧ (detect pats p).isSome

theorem mem_agentPids_iff (hd : (procs.map (·.pid)).Nodup) :
    pid ∈ (scanAgents pats procs).map (·.pid) ↔ AgentAt pats procs pid := by
  rw [mem_map]
  constructor
  · rintro ⟨agent, ha, rfl⟩
    obtain ⟨p, hp, hdt⟩ := exists_of_mem_scanAgents ha
    rw [pid_of_detect hdt]
    exact ⟨p, lookup_of_mem hd hp, Option.isSome_of_eq_some hdt⟩
  · rintro ⟨p, hp, hdt⟩
    obtain ⟨agent, ha⟩ := Option.isSome_iff_exists.mp hdt
    refine ⟨agent, ?_, (pid_of_detect ha).trans (pid_of_lookup hp)⟩
    rw [scanAgents, mem_insertionSort]
    exact mem_filterMap.mpr ⟨p, mem_of_lookup hp, ha⟩

theorem mem_topAgents_iff (hd : (procs.map (·.pid)).Nodup) :
    pid ∈ topAgents pats procs ↔
      AgentAt pats procs pid ∧ ∀ q, (links procs).parent pid = some q → ¬ AgentAt pats procs q := by
  rw [topAgents, agentRoots, mem_insertionSort, mem_map]
  constructor
  · rintro ⟨agent, hm, rfl⟩
    obtain ⟨ha, hpr⟩ := mem_filter.mp hm
    refine ⟨(mem_agentPids_iff hd).mp (mem_map_of_mem ha), fun q hq hat => ?_⟩
    have hl : ((byPid procs).lookup agent.pid).map (·.ppid) = some q := hq
    rw [hl, Option.getD_some] at hpr
    simp only [Bool.not_eq_true', contains_eq_mem, decide_eq_false_iff_not] at hpr
    exact hpr ((mem_agentPids_iff hd).mpr hat)
  · rintro ⟨hat, hpr⟩
    obtain ⟨agent, ha, rfl⟩ := mem_map.mp ((mem_agentPids_iff hd).mpr hat)
    obtain ⟨p, hp, -⟩ := hat
    have ho := hpr p.ppid (parent_of_lookup hp)
    rw [← mem_agentPids_iff hd] at ho
    refine ⟨agent, mem_filter.mpr ⟨ha, ?_⟩, rfl⟩
    rw [hp, Option.map_some, Option.getD_some]
    simpa using ho

theorem nodup_topAgents (hd : (procs.map (·.pid)).Nodup) : (topAgents pats procs).Nodup := by
  have hpd : ((scanAgents pats procs).map (·.pid)).Nodup := by
    rw [scanAgents, ((perm_insertionSort _ _).map _).nodup_iff, Nodup, pairwise_map,
      pairwise_filterMap]
    refine (pairwise_map.mp hd).imp fun {p q} hne a ha b hb => ?_
    rw [pid_of_detect ha, pid_of_detect hb]
    exact hne
  rw [topAgents, agentRoots, (perm_insertionSort _ _).nodup_iff]
  exact hpd.sublist (filter_sublist.map _)

theorem exists_topAgent (hd : (procs.map (·.pid)).Nodup) (ha : (links procs).Acyclic)
    (hat : AgentAt pats procs pid) :
    ∃ k root, (links procs).ancestor k pid = some root ∧ root ∈ topAgents pats procs := by
  obtain ⟨k, root, han, ht⟩ := exists_top ha hat
  exact ⟨k, root, han, (mem_topAgents_iff hd).mpr ht⟩

def AgentAbove (pats : List RuntimePattern) (procs : List ProcSnapshot) (pid : UInt32) : Prop :=
  ∃ k a, (links procs).ancestor k pid = some a ∧ AgentAt pats procs a

/-- No process that is not an agent and has the parent number 0 has an agent above it. -/
def ZeroIsTop (pats : List RuntimePattern) (procs : List ProcSnapshot) : Prop :=
  ∀ pid p, (byPid procs).lookup pid = some p → detect pats p = none → p.ppid = 0 → ¬ AgentAbove pats procs pid

section Walk

variable {rds k : Nat} {seen : List UInt32} {cur a : UInt32}

theorem walkFrom_of_lookup (hc : cur ∉ seen) (hp : (byPid procs).lookup cur = some p) :
    walkFrom pats (byPid procs) (rds + 1) seen cur = (detect pats p).or
        (if p.ppid = 0 || p.ppid = p.pid then none
          else walkFrom pats (byPid procs) rds (cur :: seen) p.ppid) := by
  rw [walkFrom, if_neg (by simpa using hc), hp]
  dsimp only
  cases detect pats p <;> rfl

/-- The walk stops at agents only, and passes nothing but ancestors. -/
theorem agentAbove_of_walk (h : (walkFrom pats (byPid procs) rds seen cur).isSome) :
    AgentAbove pats procs cur := by
  induction rds generalizing seen cur with
  | zero => cases h
  | succ rds ih =>
    by_cases hc : cur ∈ seen
    · rw [walkFrom, if_pos (by simpa using hc)] at h
      cases h
    · cases hp : (byPid procs).lookup cur with
      | none =>
        rw [walkFrom, hp] at h
        split at h <;> cases h
      | some p =>
        rw [walkFrom_of_lookup hc hp] at h
        cases hd : detect pats p with
        | some agent => exact ⟨0, cur, rfl, p, hp, Option.isSome_of_eq_some hd⟩
        | none =>
          rw [hd, Option.none_or] at h
          split at h
          · cases h
          · obtain ⟨k, a, han, ha⟩ := ih h
            refine ⟨k + 1, a, ?_, ha⟩
            rw [ancestor_succ', parent_of_lookup hp]
            exact han

/-- The processes that the walk has seen are below the current one, so that it does not meet them again. -/
theorem not_mem_seen (ha : (links procs).Acyclic)
    (hs : ∀ s ∈ seen, ∃ j, (links procs).ancestor (j + 1) s = some cur) : cur ∉ seen := by
  intro hm
  obtain ⟨j, hj⟩ := hs cur hm
  exact ha cur j hj

theorem walk_of_ancestor (ha : (links procs).Acyclic) (hz : ZeroIsTop pats procs)
    (han : (links procs).ancestor k cur = some a) (hag : AgentAt pats procs a) (hr : k < rds)
    (hsn : ∀ s ∈ seen, ∃ j, (links procs).ancestor (j + 1) s = some cur) :
    (walkFrom pats (byPid procs) rds seen cur).isSome := by
  induction k generalizing rds seen cur with
  | zero =>
    cases han
    obtain ⟨p, hp, hd⟩ := hag
    obtain ⟨rds, rfl⟩ := Nat.exists_eq_add_one_of_ne_zero (Nat.ne_of_gt hr)
    rw [walkFrom_of_lookup (not_mem_seen ha hsn) hp, Option.isSome_or, hd, Bool.true_or]
  | succ k ih =>
    obtain ⟨rds, rfl⟩ := Nat.exists_eq_add_one_of_ne_zero (show rds ≠ 0 by omega)
    have hab : AgentAbove pats procs cur := ⟨k + 1, a, han, hag⟩
    rw [ancestor_succ'] at han
    obtain ⟨q, hq, han⟩ := Option.bind_eq_some_iff.mp han
    obtain ⟨p, hp, rfl⟩ := Option.map_eq_some_iff.mp hq
    rw [walkFrom_of_lookup (not_mem_seen ha hsn) hp]
    cases hd : detect pats p with
    | some agent => rfl
    | none =>
      have hpd : p.ppid ≠ 0 := fun h0 => hz cur p hp hd h0 hab
      have hsl : p.ppid ≠ p.pid := by
        intro hsl
        refine ha cur 0 ?_
        rw [ancestor_succ', parent_of_lookup hp, hsl, pid_of_lookup hp]
        rfl
      have hb : ∀ s ∈ cur :: seen, ∃ j, (links procs).ancestor (j + 1) s = some p.ppid := by
        intro s hs
        cases hs with
        | head => exact ⟨0, hq⟩
        | tail _ hs =>
          obtain ⟨j, hj⟩ := hsn s hs
          refine ⟨j + 1, ?_⟩
          rw [ancestor, hj]
          exact hq
      simpa [hpd, hsl] using ih han (by omega) hb

end Walk

/-- The walk from a process finds an agent above it, except where the parent number 0 stops it. -/
theorem isUnderAgent_iff_agentAbove_iff (ha : (links procs).Acyclic) :
    (∀ pid, AgentAbove pats procs pid ↔ isUnderAgent pats procs pid) ↔ ZeroIsTop pats procs := by
  constructor
  · intro hal pid p hp hd h0 hab
    have hw := (hal pid).mp hab
    rw [isUnderAgent, walkAgentAncestors, walkFrom_of_lookup not_mem_nil hp, hd, h0] at hw
    cases hw
  · intro hz pid
    refine ⟨?_, agentAbove_of_walk⟩
    rintro ⟨k, a, han, hag⟩
    have hsh : k < procs.length + 1 := by
      by_contra hl
      obtain ⟨p, hp, -⟩ := hag
      have hn : (links procs).nodes.length ≤ k := by
        have hle : (links procs).nodes.length ≤ procs.length := length_keys_le
        omega
      obtain ⟨j, hj⟩ := exists_cycle_of_long_path hn (mem_nodes_of_lookup hp) han
      exact ha a j hj
    exact walk_of_ancestor ha hz han hag hsh (fun s hs => absurd hs not_mem_nil)

/-- No top agent has another agent above it. -/
def TopAgentsAlone (pats : List RuntimePattern) (procs : List ProcSnapshot) : Prop :=
  ∀ root ∈ topAgents pats procs, ∀ k a, (links procs).ancestor (k + 1) root = some a → ¬ AgentAt pats procs a

section Forests

variable {pids : List UInt32} {depth : Nat}

theorem mem_forest_iff (hd : (procs.map (·.pid)).Nodup) (ha : (links procs).Acyclic)
    (h : collect ((links procs).preorder depth) (topAgents pats procs) = some pids) :
    pid ∈ pids ↔ AgentAbove pats procs pid := by
  rw [mem_collect h]
  constructor
  · rintro ⟨root, hroot, below, hb, hpd⟩
    obtain ⟨k, han⟩ := (mem_preorder hb).mp hpd
    exact ⟨k, root, han, ((mem_topAgents_iff hd).mp hroot).1⟩
  · rintro ⟨k, a, han, hag⟩
    obtain ⟨j, root, ht, hroot⟩ := exists_topAgent hd ha hag
    have hp : (links procs).ancestor (k + j) pid = some root := by
      rw [ancestor_add, han]
      exact ht
    cases hb : (links procs).preorder depth root with
    | none =>
      rw [collect_eq_none_iff.mpr ⟨root, hroot, hb⟩] at h
      cases h
    | some below => exact ⟨root, hroot, below, hb, (mem_preorder hb).mpr ⟨k + j, hp⟩⟩

/-- The trees of two top agents overlap exactly when one of the agents is above the other. -/
theorem nodup_forest_iff (hd : (procs.map (·.pid)).Nodup) (ha : (links procs).Acyclic)
    (h : collect ((links procs).preorder depth) (topAgents pats procs) = some pids) :
    pids.Nodup ↔ TopAgentsAlone pats procs := by
  rw [nodup_collect_iff h]
  constructor
  · rintro ⟨-, hap⟩ r hroot k a han hag
    obtain ⟨j, top, ht, hme⟩ := exists_topAgent hd ha hag
    have hp : (links procs).ancestor (k + j + 1) r = some top := by
      rw [Nat.add_right_comm, ancestor_add, han]
      exact ht
    have hne : r ≠ top := by
      rintro rfl
      exact ha r (k + j) hp
    exact ((hap.forall hroot hme hne) (k + j + 1)).1 hp
  · intro hal
    have hab : ∀ r ∈ topAgents pats procs, ∀ top ∈ topAgents pats procs, r ≠ top →
        ∀ k, (links procs).ancestor k r ≠ some top := by
      intro r hroot top ht hne k han
      cases k with
      | zero => exact hne (Option.some.inj han)
      | succ k => exact hal r hroot k top han ((mem_topAgents_iff hd).mp ht).1
    refine ⟨fun _ _ _ hm => nodup_preorder ha hm,
      (nodup_topAgents hd).pairwise_of_forall_ne fun r hroot top ht hne k => ?_⟩
    exact ⟨hab r hroot top ht hne k, hab top ht r hroot hne.symm k⟩

end Forests

/-- In a table without cycles the forests are built. They list exactly the processes under an agent, each once,
unless a top agent has another agent above it or the walk stops at the parent number 0. -/
theorem forest_pids_exact_iff (patterns : List RuntimePattern) (procs : List ProcSnapshot)
    (hdistinct : (procs.map (·.pid)).Nodup) (hacyclic : (links procs).Acyclic) :
    ∃ forests, buildAgentForests patterns procs.length procs procs = some forests ∧
      (((collectForestPids forests).Nodup ∧
          ∀ pid, pid ∈ collectForestPids forests ↔ isUnderAgent patterns procs pid) ↔
        TopAgentsAlone patterns procs ∧ ZeroIsTop patterns procs) := by
  obtain ⟨forests, hf⟩ : ∃ forests, buildAgentForests patterns procs.length procs procs = some forests := by
    refine exists_forests fun r _ hc => ?_
    obtain ⟨k, hk⟩ := hc
    exact hacyclic r k hk
  have hpd := forest_pids patterns procs procs.length
  rw [hf, Option.map_some] at hpd
  refine ⟨forests, hf, ?_⟩
  rw [nodup_forest_iff hdistinct hacyclic hpd.symm, ← isUnderAgent_iff_agentAbove_iff hacyclic]
  simp only [mem_forest_iff hdistinct hacyclic hpd.symm]

theorem acyclic_of_ppid_lt (h : ∀ p ∈ procs, p.ppid < p.pid) : (links procs).Acyclic := by
  refine acyclic_of_lt UInt32.toNat fun pid parent hpr => ?_
  obtain ⟨p, hp, rfl⟩ := Option.map_eq_some_iff.mp hpr
  have hlt := h p (mem_of_lookup hp)
  rwa [pid_of_lookup hp] at hlt

def agentUnderAgent : List ProcSnapshot :=
  [{ pid := 10, ppid := 0, comm := "claude", cmdline := ["claude"] },
    { pid := 20, ppid := 10, comm := "codex", cmdline := [] },
    { pid := 21, ppid := 20, comm := "bash", cmdline := ["bash"] }]

theorem forest_pids_exact_agent_under_agent :
    ∃ forests, buildAgentForests [] 3 agentUnderAgent agentUnderAgent = some forests ∧
      (collectForestPids forests).Nodup ∧
        ∀ pid, pid ∈ collectForestPids forests ↔ isUnderAgent [] agentUnderAgent pid := by
  obtain ⟨forests, hf, hi⟩ := forest_pids_exact_iff [] agentUnderAgent (by decide)
    (acyclic_of_ppid_lt (by decide))
  refine ⟨forests, hf, hi.mpr ⟨?_, ?_⟩⟩
  · intro r hroot k a han ha
    have hr : topAgents [] agentUnderAgent = [10] := by decide +kernel
    have hz : (links agentUnderAgent).ancestor k 0 = some a := by
      rw [hr, mem_singleton] at hroot
      rw [hroot, ancestor_succ'] at han
      exact han
    cases k with
    | zero =>
      obtain ⟨p, hp, -⟩ := ha
      cases hz
      have hm : (byPid agentUnderAgent).lookup 0 = none := by decide
      rw [hm] at hp
      cases hp
    | succ k =>
      rw [ancestor_succ'] at hz
      cases hz
  · intro pid p hp hd h0
    have hn : ∀ p ∈ agentUnderAgent, detect [] p = none → p.ppid ≠ 0 := by decide +kernel
    exact absurd h0 (hn p (mem_of_lookup hp) hd)

def agentUnderShell : List ProcSnapshot :=
  [{ pid := 1, ppid := 0, comm := "claude", cmdline := [] }, { pid := 2, ppid := 1, comm := "bash", cmdline := [] },
    { pid := 3, ppid := 2, comm := "codex", cmdline := [] }]

/-- An agent that is started from the shell of another agent is listed twice. -/
theorem forest_pids_repeat_agent : (agentUnderShell.map (·.pid)).Nodup ∧ (links agentUnderShell).Acyclic ∧
      (buildAgentForests [] 3 agentUnderShell agentUnderShell).map collectForestPids = some [1, 2, 3, 3] :=
  ⟨by decide, acyclic_of_ppid_lt (by decide), by decide +kernel⟩

end ShareCli.Fleet
