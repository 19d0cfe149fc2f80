import Mathlib.Data.List.AList
import ShareCli.Foundation.DirWorld
import ShareCli.Foundation.Machine
import ShareCli.Foundation.Text

/-!
# The pool of worktrees (`crates/sharecli-mesh/src/worktree_pool.rs`)

A slot id is joined to the root of the pool: a directory that is in the way is removed, and a working tree is made
there. The root of the pool is an absolute path, so that git and the standard library find the same directory
there; git would take a relative one for the end of a working tree's path first. What `git worktree add` and
`git worktree remove` do to that directory is their `DirCommand`. Git's own files are not part of the tree.
-/

namespace ShareCli.Mesh

open Foundation AList

/-- Why a call for a slot fails. -/
inductive WorktreePoolError where
  | io (error : String)
  | git (text : String)
  | noAllocation (slotId : String)
deriving DecidableEq

/-- An allocated slot, with the path of its working tree and the branch checked out there. -/
structure WorktreeLease where
  slotId : String
  path : String
  branch : String
deriving DecidableEq

/-- A path that starts at the root of the file system. -/
abbrev AbsolutePath := { path : String // path.toList.head? = some '/' }

def slotLease (poolRoot : AbsolutePath) (slotId : String) : WorktreeLease where
  slotId := slotId
  path := String.ofList (FilePath.joinPath poolRoot.val.toList slotId.toList)
  branch := "sharecli/pool/" ++ slotId

theorem lease_eq_empty (poolRoot : AbsolutePath) (slotId : String) (lease : WorktreeLease)
    (h : (∅ : AList fun _ : String => WorktreeLease).lookup slotId = some lease) :
    lease = slotLease poolRoot slotId := by
  rw [lookup_empty] at h
  cases h

/-- A lease is held under the slot id that it was made for. -/
structure WorktreePool where
  poolRoot : AbsolutePath
  baseRef : String
  leases : AList fun _ : String => WorktreeLease
  lease_eq : ∀ slotId lease, leases.lookup slotId = some lease → lease = slotLease poolRoot slotId

/-- What the commands of one call come to. -/
structure Fates where
  removeWorktree : DirCommand
  removeDirAll : Removal
  branchList : Except CommandFailure String
  createBranch : Except CommandFailure Unit
  addWorktree : DirCommand

def gitError (args : List String) : CommandFailure → WorktreePoolError
  | .spawn error => .git error
  | .exit status stderr =>
    .git ("git " ++ " ".intercalate args ++ " => " ++ status ++ ": " ++
      String.ofList (Text.trim stderr.toList))

namespace WorktreePool

variable (pool : WorktreePool)

def directory (path : String) : FilePath := FilePath.resolve [] path.toList

def forget (slotId : String) : WorktreePool :=
  { pool with
    leases := pool.leases.erase slotId
    lease_eq := by
      intro slot lease hlease
      by_cases hslot : slot = slotId
      · subst hslot
        rw [lookup_erase] at hlease
        cases hlease
      · rw [lookup_erase_ne hslot] at hlease
        exact pool.lease_eq slot lease hlease }

def remember (slotId : String) : WorktreePool :=
  { pool with
    leases := pool.leases.insert slotId (slotLease pool.poolRoot slotId)
    lease_eq := by
      intro slot lease hlease
      by_cases hslot : slot = slotId
      · subst hslot
        rw [lookup_insert, Option.some_inj] at hlease
        exact hlease.symm
      · rw [lookup_insert_ne hslot] at hlease
        exact pool.lease_eq slot lease hlease }

/-- By git, and if something is still there, by the standard library. -/
def clearPath (w : DirWorld) (path : String) (fates : Fates) : Except WorktreePoolError Unit × DirWorld :=
  if w.pathExists (directory path) then
    let w := (fates.removeWorktree.run (directory path) w).2
    if w.pathExists (directory path) then
      let (result, w) := w.removeDirAll (directory path) fates.removeDirAll
      (result.mapError .io, w)
    else (.ok (), w)
  else (.ok (), w)

def ensureBranch (branch : String) (fates : Fates) : Except WorktreePoolError Unit :=
  match fates.branchList with
  | .error e => .error (gitError ["branch", "--list", branch] e)
  | .ok list =>
    if Text.trim list.toList = [] then
      fates.createBranch.mapError (gitError ["branch", branch, pool.baseRef])
    else .ok ()

def createLease (w : DirWorld) (slotId : String) (fates : Fates) :
    Except WorktreePoolError WorktreeLease × WorktreePool × DirWorld :=
  let lease := slotLease pool.poolRoot slotId
  match clearPath w lease.path fates with
  | (.error e, w) => (.error e, pool, w)
  | (.ok (), w) =>
    match pool.ensureBranch lease.branch fates with
    | .error e => (.error e, pool, w)
    | .ok () =>
      match fates.addWorktree.run (directory lease.path) w with
      | (.error e, w) => (.error (gitError ["worktree", "add", lease.path, lease.branch] e), pool, w)
      | (.ok (), w) => (.ok lease, pool.remember slotId, w)

def allocate (w : DirWorld) (slotId : String) (fates : Fates) :
    Except WorktreePoolError WorktreeLease × WorktreePool × DirWorld :=
  match pool.leases.lookup slotId with
  | none => pool.createLease w slotId fates
  | some existing =>
    if w.tree.isDir (directory existing.path) then (.ok existing, pool, w)
    else (pool.forget slotId).createLease w slotId fates

/-- The branch is deleted if git can, and git forgets what has been removed; this is nothing the tree shows. -/
def release (w : DirWorld) (slotId : String) (fates : Fates) :
    Except WorktreePoolError Unit × WorktreePool × DirWorld :=
  match pool.leases.lookup slotId with
  | none => (.error (.noAllocation slotId), pool, w)
  | some lease =>
    match fates.removeWorktree.run (directory lease.path) w with
    | (.ok (), w) => (.ok (), pool.forget slotId, w)
    | (.error e, w) =>
      if w.pathExists (directory lease.path) then
        match w.removeDirAll (directory lease.path) fates.removeDirAll with
        | (.error e, w) => (.error (.io e), pool.forget slotId, w)
        | (.ok (), w) => (.ok (), pool.forget slotId, w)
      else
        (.error (gitError ["worktree", "remove", "--force", lease.path] e), pool.forget slotId, w)

end WorktreePool

/-- A pool and the directories it works on. -/
structure PoolState where
  pool : WorktreePool
  world : DirWorld

/-- A call, with what its commands come to. -/
inductive PoolCall where
  | allocate (slotId : String) (fates : Fates)
  | release (slotId : String) (fates : Fates)

def PoolCall.slotId : PoolCall → String
  | .allocate slotId _ => slotId
  | .release slotId _ => slotId

def PoolState.call (s : PoolState) : PoolCall → PoolState
  | .allocate slotId fates =>
    let (_, pool, world) := s.pool.allocate { s.world with events := [] } slotId fates
    { pool, world }
  | .release slotId fates =>
    let (_, pool, world) := s.pool.release { s.world with events := [] } slotId fates
    { pool, world }

/-- The events are those of the last call. -/
def poolMachine (poolRoot : AbsolutePath) (baseRef : String) (w : DirWorld) : Machine PoolState PoolCall where
  init := { pool := { poolRoot, baseRef, leases := ∅, lease_eq := lease_eq_empty poolRoot }, world := w }
  step s call := some (s.call call)

end ShareCli.Mesh
