import ShareCli.Foundation.FileSystem
import ShareCli.Mesh.WorktreePool

/-!
# Where the pool works

All commands of a call are given the directory of its slot. A slot id can name a directory outside of the pool or
in another's.
-/

namespace ShareCli.Mesh

open Foundation FilePath DirWorld WorktreePool FileTree List

/-- The directory that a slot id names, from the root of the pool. -/
def slotDirectory (poolRoot : AbsolutePath) (slotId : String) : FilePath :=
  resolve (resolve [] poolRoot.val.toList) slotId.toList

/-- The pools have the same root and the same leases of other slots. -/
structure SameBut (slotId : String) (pool pool' : WorktreePool) : Prop where
  poolRoot : pool'.poolRoot = pool.poolRoot
  lookup : ∀ other, other ≠ slotId → pool'.leases.lookup other = pool.leases.lookup other

theorem SameBut.refl (slotId : String) (pool : WorktreePool) : SameBut slotId pool pool :=
  ⟨rfl, fun _ _ => rfl⟩

theorem SameBut.trans {slotId : String} {pool pool' pool'' : WorktreePool}
    (h : SameBut slotId pool pool') (h' : SameBut slotId pool' pool'') : SameBut slotId pool pool'' where
  poolRoot := h'.poolRoot.trans h.poolRoot
  lookup other ho := (h'.lookup other ho).trans (h.lookup other ho)

namespace WorktreePool

variable (pool : WorktreePool) (w : DirWorld) (slotId : String) (fates : Fates)

theorem forget_sameBut : SameBut slotId pool (pool.forget slotId) :=
  ⟨rfl, fun _ ho => AList.lookup_erase_ne ho⟩

theorem remember_sameBut : SameBut slotId pool (pool.remember slotId) :=
  ⟨rfl, fun _ ho => AList.lookup_insert_ne ho⟩

theorem directory_slotLease (poolRoot : AbsolutePath) :
    directory (slotLease poolRoot slotId).path = slotDirectory poolRoot slotId := by
  simp only [directory, slotLease, String.toList_ofList]
  exact resolve_joinPath _ _ _

theorem clearPath_changes (path : String) : Changes (directory path) w (clearPath w path fates).2 := by
  have hr := fates.removeWorktree.changes (directory path) w
  unfold clearPath
  split
  · dsimp only
    split
    · exact hr.trans (removeDirAll_changes _ _)
    · exact hr
  · exact .refl

/-- What a call for the slot does: it keeps the other leases and works at the slot's directory. -/
def Works (pool : WorktreePool) (w : DirWorld) (slotId : String) (pool' : WorktreePool) (w' : DirWorld) : Prop :=
  SameBut slotId pool pool' ∧ Changes (slotDirectory pool.poolRoot slotId) w w'

theorem createLease_works :
    Works pool w slotId (pool.createLease w slotId fates).2.1 (pool.createLease w slotId fates).2.2 := by
  have hc := clearPath_changes w fates (slotLease pool.poolRoot slotId).path
  rw [directory_slotLease] at hc
  unfold createLease
  dsimp only
  generalize clearPath w (slotLease pool.poolRoot slotId).path fates = cleared at hc ⊢
  obtain ⟨r, w'⟩ := cleared
  cases r with
  | error e => exact ⟨.refl slotId pool, hc⟩
  | ok _ =>
    cases pool.ensureBranch (slotLease pool.poolRoot slotId).branch fates with
    | error e => exact ⟨.refl slotId pool, hc⟩
    | ok _ =>
      rw [directory_slotLease]
      have ha := hc.trans (fates.addWorktree.changes (slotDirectory pool.poolRoot slotId) w')
      dsimp only
      generalize fates.addWorktree.run (slotDirectory pool.poolRoot slotId) w' = added at ha ⊢
      obtain ⟨r, w''⟩ := added
      cases r with
      | error e => exact ⟨.refl slotId pool, ha⟩
      | ok _ => exact ⟨pool.remember_sameBut slotId, ha⟩

theorem allocate_works :
    Works pool w slotId (pool.allocate w slotId fates).2.1 (pool.allocate w slotId fates).2.2 := by
  unfold allocate
  cases pool.leases.lookup slotId with
  | none => exact pool.createLease_works w slotId fates
  | some existing =>
    dsimp only
    split
    · exact ⟨.refl slotId pool, .refl⟩
    · obtain ⟨hs, hc⟩ := (pool.forget slotId).createLease_works w slotId fates
      exact ⟨(pool.forget_sameBut slotId).trans hs, hc⟩

theorem release_works :
    Works pool w slotId (pool.release w slotId fates).2.1 (pool.release w slotId fates).2.2 := by
  unfold release
  cases hl : pool.leases.lookup slotId with
  | none => exact ⟨.refl slotId pool, .refl⟩
  | some lease =>
    have hf := pool.forget_sameBut slotId
    obtain rfl := pool.lease_eq slotId lease hl
    have hr := fates.removeWorktree.changes (slotDirectory pool.poolRoot slotId) w
    simp only [directory_slotLease]
    generalize fates.removeWorktree.run (slotDirectory pool.poolRoot slotId) w = removed at hr ⊢
    obtain ⟨r, w'⟩ := removed
    cases r with
    | ok _ => exact ⟨hf, hr⟩
    | error e =>
      have ha := hr.trans (removeDirAll_changes w' fates.removeDirAll)
      dsimp only
      split
      · generalize w'.removeDirAll (slotDirectory pool.poolRoot slotId) fates.removeDirAll = gone at ha ⊢
        obtain ⟨r, w''⟩ := gone
        cases r with
        | error e => exact ⟨hf, ha⟩
        | ok _ => exact ⟨hf, ha⟩
      · exact ⟨hf, hr⟩

end WorktreePool

theorem PoolState.call_works (s : PoolState) (c : PoolCall) :
    Works s.pool { s.world with events := [] } c.slotId (s.call c).pool (s.call c).world := by
  cases c with
  | allocate slotId fates => exact s.pool.allocate_works { s.world with events := [] } slotId fates
  | release slotId fates => exact s.pool.release_works { s.world with events := [] } slotId fates

/-- Git cannot be started, and the standard library removes what it is asked to remove. -/
def withoutGit : Fates where
  removeWorktree := .failing (.spawn "No such file or directory (os error 2)")
  removeDirAll := .done
  branchList := .error (.spawn "No such file or directory (os error 2)")
  createBranch := .error (.spawn "No such file or directory (os error 2)")
  addWorktree := .failing (.spawn "No such file or directory (os error 2)")

/-- A pool with one lease, whose directory is there. -/
def leasedState (poolRoot : AbsolutePath) (slotId : String) : PoolState where
  pool := ({ poolRoot, baseRef := "HEAD", leases := ∅, lease_eq := lease_eq_empty poolRoot } :
    WorktreePool).remember slotId
  world := { tree := ofDirs [resolve [] poolRoot.val.toList, slotDirectory poolRoot slotId], events := [] }

theorem release_leasedState (poolRoot : AbsolutePath) (slotId : String) :
    ((leasedState poolRoot slotId).call (.release slotId withoutGit)).world.events =
      [.removed (slotDirectory poolRoot slotId)] := by
  have hl : (leasedState poolRoot slotId).pool.leases.lookup slotId = some (slotLease poolRoot slotId) :=
    AList.lookup_insert _
  have hd : (leasedState poolRoot slotId).world.tree.isDir (slotDirectory poolRoot slotId) = true :=
    isDir_ofDirs (mem_cons_of_mem _ mem_cons_self)
  have ht : (leasedState poolRoot slotId).world.tree.isMissing (slotDirectory poolRoot slotId) = false := by
    rw [Bool.eq_false_iff, ne_eq, isMissing_iff]
    exact node_ne_none_of_isDir hd
  simp [PoolState.call, release, hl, directory_slotLease, withoutGit, DirCommand.failing, pathExists, ht,
    removeDirAll, hd, remove]

/-- The calls for a slot create and remove only directories strictly below the root of the pool exactly if the
directory that the id names is strictly below it. -/
theorem pool_calls_contained_iff (poolRoot : AbsolutePath) (slotId : String) :
    (∀ s : PoolState, s.pool.poolRoot = poolRoot →
      s.world.tree.isDir (FilePath.resolve [] poolRoot.val.toList) = true →
      ∀ call : PoolCall, call.slotId = slotId → ∀ e ∈ (s.call call).world.events,
        FilePath.Below (FilePath.resolve [] poolRoot.val.toList) e.dir) ↔
      FilePath.Below (FilePath.resolve [] poolRoot.val.toList) (slotDirectory poolRoot slotId) := by
  constructor
  · intro h
    refine h (leasedState poolRoot slotId) rfl (isDir_ofDirs mem_cons_self) (.release slotId withoutGit) rfl
      (.removed (slotDirectory poolRoot slotId)) ?_
    rw [release_leasedState]
    exact mem_singleton.mpr rfl
  · rintro hb s rfl hroot call rfl
    exact (s.call_works call).2.events_below hb hroot (by simp)

/-! ## A directory outside -/

def examplePool : AbsolutePath := ⟨"/pool", by decide⟩

def exampleWorld (ds : List FilePath) : DirWorld where
  tree := ofDirs (["pool".toList] :: ds)
  events := []

def exampleState : PoolState where
  pool := { poolRoot := examplePool, baseRef := "HEAD", leases := ∅, lease_eq := lease_eq_empty examplePool }
  world := exampleWorld [["victim".toList, "data".toList]]

/-- Git knows no working tree at the path, and makes one where it is asked to. -/
def smooth : Fates where
  removeWorktree := .failing (.exit "exit status: 128" "fatal: not a working tree")
  removeDirAll := .done
  branchList := .ok ""
  createBranch := .ok ()
  addWorktree := .making

def refusing (stderr : String) : Fates :=
  { smooth with createBranch := .error (.exit "exit status: 128" stderr) }

/-- An id that goes up from the pool. What is there is removed before git refuses the branch. -/
def upwards : PoolCall :=
  .allocate "../victim" (refusing "fatal: 'sharecli/pool/../victim' is not a valid branch name")

theorem allocate_removes_directory_outside : exampleState.world.tree.isDir ["pool".toList] = true ∧
      exampleState.world.tree.isDir ["victim".toList, "data".toList] = true ∧
      (exampleState.call upwards).world.events = [.removed ["victim".toList]] ∧
      ¬ FilePath.Below ["pool".toList] ["victim".toList] ∧
      (exampleState.call upwards).world.tree.node ["victim".toList, "data".toList] = none := by
  decide +kernel

/-! ## Leases -/

/-- The ids name directories neither of which is at or below the other. -/
def SlotsApart (poolRoot : AbsolutePath) (slotId other : String) : Prop :=
  Apart (slotDirectory poolRoot slotId) (slotDirectory poolRoot other)

/-- What a run with slot ids of `ids` keeps. -/
structure PoolInv (poolRoot : AbsolutePath) (ids : Set String) (s : PoolState) : Prop where
  poolRoot : s.pool.poolRoot = poolRoot
  slots : ∀ slotId lease, s.pool.leases.lookup slotId = some lease → slotId ∈ ids

section Runs

variable {poolRoot : AbsolutePath} {baseRef : String} {w : DirWorld} {ids : Set String} {s : PoolState}

theorem PoolInv.call (h : PoolInv poolRoot ids s) {c : PoolCall} (hc : c.slotId ∈ ids) :
    PoolInv poolRoot ids (s.call c) := by
  obtain ⟨hs, -⟩ := s.call_works c
  refine ⟨hs.poolRoot.trans h.poolRoot, ?_⟩
  intro slotId lease hl
  by_cases hsl : slotId = c.slotId
  · rw [hsl]
    exact hc
  · rw [hs.lookup slotId hsl] at hl
    exact h.slots slotId lease hl

theorem poolInv_of_reachable
    (hs : (poolMachine poolRoot baseRef w).ReachableWhen (fun _ c => c.slotId ∈ ids) s) :
    PoolInv poolRoot ids s := by
  refine Machine.invariantWhen ⟨rfl, ?_⟩ ?_ hs
  · intro slotId lease hl
    simp [poolMachine] at hl
  · intro s c s' hi hc hstep
    cases hstep
    exact hi.call hc

theorem PoolInv.directory (h : PoolInv poolRoot ids s) {slotId : String} {lease : WorktreeLease}
    (hl : s.pool.leases.lookup slotId = some lease) :
    WorktreePool.directory lease.path = slotDirectory poolRoot slotId := by
  rw [s.pool.lease_eq slotId lease hl, directory_slotLease, h.poolRoot]

end Runs

/-- In a run whose slot ids name directories that are apart a call leaves the directories of the other leases as
they are. -/
theorem pool_leases_isolated (poolRoot : AbsolutePath) (baseRef : String) (w : DirWorld) (ids : Set String)
    (hids : ids.Pairwise (SlotsApart poolRoot)) (s : PoolState)
    (hs : (poolMachine poolRoot baseRef w).ReachableWhen (fun _ call => call.slotId ∈ ids) s) :
    (∀ slotId lease slotId' lease', s.pool.leases.lookup slotId = some lease →
      s.pool.leases.lookup slotId' = some lease' → slotId ≠ slotId' →
      FilePath.Apart (directory lease.path) (directory lease'.path)) ∧
    ∀ call : PoolCall, call.slotId ∈ ids → ∀ slotId lease, s.pool.leases.lookup slotId = some lease →
      slotId ≠ call.slotId →
        (∀ removed, .removed removed ∈ (s.call call).world.events →
          FilePath.Apart removed (directory lease.path)) ∧
        ∀ path, directory lease.path <+: path →
          (s.call call).world.tree.node path = s.world.tree.node path := by
  have hi := poolInv_of_reachable hs
  constructor
  · intro slotId lease slotId' lease' hl hl' hne
    rw [hi.directory hl, hi.directory hl']
    exact hids (hi.slots slotId lease hl) (hi.slots slotId' lease' hl') hne
  · intro call hc slotId lease hl hne
    rw [hi.directory hl]
    obtain ⟨-, hch⟩ := s.call_works call
    rw [hi.poolRoot] at hch
    have ha : Apart (slotDirectory poolRoot call.slotId) (slotDirectory poolRoot slotId) :=
      hids hc (hi.slots slotId lease hl) hne.symm
    constructor
    · intro removed hr
      rw [hch.eq_of_removed (by simp) hr]
      exact ha
    · intro path hp
      exact hch.node_of_apart (ha.mono hp)

theorem slotsApart_of_plain {poolRoot : AbsolutePath} {ids : Set String}
    (hp : ∀ slotId ∈ ids, isPlain slotId.toList = true) : ids.Pairwise (SlotsApart poolRoot) := by
  have hd (slotId : String) (hs : slotId ∈ ids) :
      slotDirectory poolRoot slotId = resolve [] poolRoot.val.toList ++ [slotId.toList] := by
    have hn := hp slotId hs
    simp only [isPlain, Bool.and_eq_true, Bool.not_eq_true', bne_iff_ne, ne_eq] at hn
    obtain ⟨⟨⟨hsl, hnl⟩, hdo⟩, hdt⟩ := hn
    have hsl' : '/' ∉ slotId.toList := by simpa using hsl
    exact resolve_of_not_mem hsl' ⟨hnl, hdo, hdt⟩
  intro slotId hs other ho hne
  rw [SlotsApart, hd slotId hs, hd other ho]
  have hnq : slotId.toList ≠ other.toList := fun h => hne (String.toList_injective h)
  constructor <;> simp [prefix_append_right_inj, hnq, hnq.symm]

theorem pool_leases_isolated_two_slots :
    ∃ s, (poolMachine examplePool "HEAD" (exampleWorld [])).ReachableWhen
        (fun _ call => call.slotId ∈ ({"a", "b"} : Set String)) s ∧
      s.pool.leases.lookup "a" = some (slotLease examplePool "a") ∧
      s.pool.leases.lookup "b" = some (slotLease examplePool "b") ∧
      FilePath.Apart (directory (slotLease examplePool "a").path) (directory (slotLease examplePool "b").path) := by
  obtain ⟨s, hrn, ha, hb⟩ : ∃ s, (poolMachine examplePool "HEAD" (exampleWorld [])).run
        (poolMachine examplePool "HEAD" (exampleWorld [])).init
        [.allocate "a" smooth, .allocate "b" smooth] = some s ∧
      s.pool.leases.lookup "a" = some (slotLease examplePool "a") ∧
      s.pool.leases.lookup "b" = some (slotLease examplePool "b") := Machine.exists_run (by decide +kernel)
  have hr : (poolMachine examplePool "HEAD" (exampleWorld [])).ReachableWhen
      (fun _ call => call.slotId ∈ ({"a", "b"} : Set String)) s := by
    refine Machine.ReachableWhen.of_run .init ?_ hrn
    intro call hc _
    rcases mem_pair.mp hc with rfl | rfl
    · exact .inl rfl
    · exact .inr rfl
  have hp : ∀ slotId ∈ ({"a", "b"} : Set String), isPlain slotId.toList = true := by
    rintro slotId (rfl | rfl) <;> decide
  refine ⟨s, hr, ha, hb, ?_⟩
  exact (pool_leases_isolated examplePool "HEAD" (exampleWorld []) {"a", "b"}
    (slotsApart_of_plain hp) s hr).1 "a" _ "b" _ ha hb (by decide)

def inTheWay : PoolCall := .allocate "a" (refusing "fatal: cannot lock ref 'refs/heads/sharecli/pool/a'")

/-- To make room for `a`, the directory of `a/b` is removed while its lease is active. -/
theorem allocate_removes_active_lease :
    (∀ slotId ∈ ["a/b", "a"], FilePath.Below ["pool".toList] (slotDirectory examplePool slotId)) ∧
    ∃ s, (poolMachine examplePool "HEAD" (exampleWorld [])).Reachable s ∧
      s.pool.leases.lookup "a/b" = some (slotLease examplePool "a/b") ∧
      s.world.tree.node ["pool".toList, "a".toList, "b".toList] = some .dir ∧
      (s.call inTheWay).pool.leases.lookup "a/b" = some (slotLease examplePool "a/b") ∧
      .removed ["pool".toList, "a".toList] ∈ (s.call inTheWay).world.events ∧
      (s.call inTheWay).world.tree.node ["pool".toList, "a".toList, "b".toList] = none :=
  ⟨by decide +kernel, Machine.exists_reachable [.allocate "a/b" smooth] (by decide +kernel)⟩

end ShareCli.Mesh
