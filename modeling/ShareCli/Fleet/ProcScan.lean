import Mathlib.Data.List.AList
import Mathlib.Data.List.Sort
import ShareCli.Fleet.Detect
import ShareCli.Foundation.ParentLinks

/-!
# Agents in the process tree (`crates/sharecli-fleet/src/proc_scan.rs`)

The rows of the process list are read while processes start and end, so a parent may be missing, a process
number may come twice, where the last one counts, and the parent links may form cycles.
-/

namespace ShareCli.Fleet

open Foundation

/-- A process of the scan. -/
structure ProcSnapshot where
  pid : UInt32
  ppid : UInt32
  comm : String
  cmdline : List String
deriving DecidableEq

/-- A process that is an agent. -/
structure DetectedAgent where
  pid : UInt32
  family : String
  comm : String
deriving DecidableEq

/-- An agent and those below it. -/
structure AgentTreeNode where
  pid : UInt32
  ppid : UInt32
  comm : String
  family : Option String
  children : List AgentTreeNode

abbrev ProcTable : Type := AList fun _ : UInt32 => ProcSnapshot

def byPid (procs : List ProcSnapshot) : ProcTable := procs.foldl (fun table p => table.insert p.pid p) ∅

variable (patterns : List RuntimePattern)

def agentFamily (p : ProcSnapshot) : Option String :=
  matchKnownAgent patterns p.comm p.cmdline

def detect (p : ProcSnapshot) : Option DetectedAgent :=
  (agentFamily patterns p).map fun family => { pid := p.pid, family, comm := p.comm }

def scanAgents (procs : List ProcSnapshot) : List DetectedAgent :=
  (procs.filterMap (detect patterns)).insertionSort fun a b => a.pid ≤ b.pid

/-- Each round but the last puts another process of the table into `seen`, so that a round for each process and
one more are enough. -/
def walkFrom (patterns : List RuntimePattern) (table : ProcTable) :
    (rounds : Nat) → (seen : List UInt32) → UInt32 → Option DetectedAgent
  | 0, _, _ => none
  | rounds + 1, seen, cur =>
    if seen.contains cur then none
    else
      match table.lookup cur with
      | none => none
      | some proc =>
        match detect patterns proc with
        | some agent => some agent
        | none =>
          if proc.ppid = 0 || proc.ppid = proc.pid then none
          else walkFrom patterns table rounds (cur :: seen) proc.ppid

def walkAgentAncestors (procs : List ProcSnapshot) (pid : UInt32) :
    Option DetectedAgent :=
  walkFrom patterns (byPid procs) (procs.length + 1) [] pid

def isUnderAgent (procs : List ProcSnapshot) (pid : UInt32) : Bool :=
  (walkAgentAncestors patterns procs pid).isSome

def childPids (table : ProcTable) (pid : UInt32) : List UInt32 :=
  ((table.entries.filter fun e => e.2.ppid = pid).map fun e => e.2.pid).insertionSort (· ≤ ·)

/-- The recursion does not look out for cycles. It has no result where it needs more than `depth` calls inside each
other. -/
def buildAgentSubtree (patterns : List RuntimePattern) (table : ProcTable) (agentPids : List UInt32) :
    (depth : Nat) → UInt32 → Option (Option AgentTreeNode)
  | 0, _ => none
  | depth + 1, pid =>
    match table.lookup pid with
    | none => some none
    | some proc =>
      let family := if agentPids.contains pid then agentFamily patterns proc else none
      (collect (fun child => (buildAgentSubtree patterns table agentPids depth child).map Option.toList)
          (childPids table pid)).map fun children =>
        some { pid, ppid := proc.ppid, comm := proc.comm, family, children }

/-- The agents whose parent is not an agent, where 0 stands for the parent of an agent that is not in the table. -/
def agentRoots (table : ProcTable) (agents : List DetectedAgent) : List UInt32 :=
  let agentPids := agents.map (·.pid)
  ((agents.filter fun a => !agentPids.contains (((table.lookup a.pid).map (·.ppid)).getD 0)).map
    (·.pid)).insertionSort (· ≤ ·)

/-- The trees below the top agents of the list `scanned`, built from the list `procs`. -/
def buildAgentForests (depth : Nat) (procs scanned : List ProcSnapshot) :
    Option (List AgentTreeNode) :=
  let table := byPid procs
  let agents := scanAgents patterns scanned
  if agents.isEmpty then some []
  else
    collect (fun root => (buildAgentSubtree patterns table (agents.map (·.pid)) depth root).map Option.toList)
      (agentRoots table agents)

mutual

def nodePids : AgentTreeNode → List UInt32
  | ⟨pid, _, _, _, children⟩ => pid :: collectForestPids children

def collectForestPids : List AgentTreeNode → List UInt32
  | [] => []
  | node :: nodes => nodePids node ++ collectForestPids nodes

end

end ShareCli.Fleet
