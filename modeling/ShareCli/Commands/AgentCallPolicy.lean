import ShareCli.Foundation.LexicalPath
import ShareCli.Foundation.Text

/-!
# Admission of agent calls (`src/agent_call_policy.rs`)

A recursive `grep` is rewritten, a command with a hazardous root among its words is refused, and the others are
counted against the limits. A word is compared with the roots by its components.
-/

namespace ShareCli.Commands

open Foundation

inductive PauseCode where
  | hazardousRoot
  | projectLimit
  | thermal
  | buildSlot
deriving DecidableEq

structure AgentCallDecision where
  command : List Char
  pauseCode : Option PauseCode
  resumeCondition : Option String
  /-- In seconds. -/
  deadline : Nat
deriving DecidableEq

def usizeMax : Nat := 0xffffffffffffffff

/-- The limits and what was admitted. -/
structure AgentCallPolicy where
  projectRoot : List Char
  projectLimit : Nat
  admittedCalls : Nat
  thermalHeadroom : Bool
  buildSlots : Nat
  admittedBuilds : Nat

def splitWhitespace (text : List Char) : List (List Char) := (text.splitOnP Text.isWhitespace).filter (· ≠ [])

def hazardousRoots : List (List Char) :=
  ["/", "/Applications", "/Library", "/System", "/Users", "/bin", "/dev", "/etc", "/opt", "/private", "/proc",
    "/sys", "/tmp", "/usr", "/var", "/Volumes"].map String.toList

def isHazardousRoot (path : List Char) : Bool :=
  hazardousRoots.any fun root => FilePath.components path = FilePath.components root

def targetsHazardousRoot (command : List Char) : Bool := (splitWhitespace command).any isHazardousRoot

def isBuildCommand (command : List Char) : Bool :=
  (splitWhitespace command).head?.any (· ∈ ["cargo".toList, "make".toList, "just".toList])

def hasRecursiveFlag (words : List (List Char)) : Bool :=
  words.any fun word => word = "--recursive".toList ||
    (word.head? = some '-' && word.tail.any fun flag => flag = 'r' || flag = 'R')

namespace AgentCallPolicy

def new (projectRoot : List Char) : AgentCallPolicy := ⟨projectRoot, usizeMax, 0, true, usizeMax, 0⟩

def normalize (policy : AgentCallPolicy) (command : List Char) : List Char :=
  match splitWhitespace command with
  | [] => command
  | program :: args =>
    if program ∉ ["grep".toList, "egrep".toList] || !hasRecursiveFlag args then command
    else
      let positional := args.filter (·.head? ≠ some '-')
      let pattern := positional.head?.getD []
      let target := match positional.tail.head? with
        | none | some ['.'] => policy.projectRoot
        | some target => target
      "rg --hidden --glob '!target' --glob '!node_modules' ".toList ++ pattern ++ ' ' :: target

def paused (command : List Char) (pauseCode : PauseCode) (resumeCondition : String) : AgentCallDecision :=
  ⟨command, some pauseCode, some resumeCondition, 30⟩

/-- `admit`: the decision, and the policy with its counters after it. -/
def admitCall (policy : AgentCallPolicy) (command : List Char) : AgentCallDecision × AgentCallPolicy :=
  let normalized := policy.normalize command
  let build := isBuildCommand normalized
  if targetsHazardousRoot normalized then
    (paused normalized .hazardousRoot "use a path inside the project root", policy)
  else if !policy.thermalHeadroom then (paused normalized .thermal "wait for thermal headroom", policy)
  else if policy.projectLimit ≤ policy.admittedCalls then
    (paused normalized .projectLimit "wait for an active project call to finish", policy)
  else if build && policy.buildSlots ≤ policy.admittedBuilds then
    (paused normalized .buildSlot "wait for an available build slot", policy)
  else
    let admittedBuilds := policy.admittedBuilds
    (⟨normalized, none, none, 30⟩, { policy with
        admittedCalls := min (policy.admittedCalls + 1) usizeMax
        admittedBuilds := if build then min (admittedBuilds + 1) usizeMax else admittedBuilds })

end AgentCallPolicy

open FilePath LexicalPath

theorem admitCall_command (p : AgentCallPolicy) (c : List Char) : (p.admitCall c).1.command = p.normalize c := by
  simp only [AgentCallPolicy.admitCall]
  split_ifs <;> rfl

theorem not_targetsHazardousRoot {p : AgentCallPolicy} {c : List Char}
    (h : (p.admitCall c).1.pauseCode = none) : targetsHazardousRoot (p.admitCall c).1.command = false := by
  rw [admitCall_command]
  by_contra hz
  rw [Bool.not_eq_false] at hz
  simp [AgentCallPolicy.admitCall, hz, AgentCallPolicy.paused] at h

theorem absolute_of_hazardous : ∀ root ∈ hazardousRoots, root.head? = some '/' ∧ ['.', '.'] ∉ components root := by
  decide

/-- An absolute path is a hazardous root by the names that are left of it. -/
theorem lexical_eq_root_iff {word root : List Char} (hw : word.head? = some '/') (hr : root ∈ hazardousRoots) :
    lexical word = lexical root ↔ (lexical word).names = (components root).tail := by
  obtain ⟨ha, hup⟩ := absolute_of_hazardous root hr
  rw [lexical_of_not_mem ha hup, List.tail_cons]
  constructor
  · intro h
    rw [h]
  · intro h
    rw [lexical_of_absolute hw, lexical_of_absolute ha, h]

/-- **No hazardous root.** An absolute word of an admitted command is none, unless it has a `..` and resolving it
leaves the names of one. -/
theorem admitted_word_not_hazardous_iff (policy : AgentCallPolicy) (command word : List Char)
    (hadmitted : (policy.admitCall command).1.pauseCode = none)
    (hword : word ∈ splitWhitespace (policy.admitCall command).1.command) (habsolute : word.head? = some '/') :
    (∀ root ∈ hazardousRoots, lexical word ≠ lexical root) ↔
      (['.', '.'] ∈ components word → ∀ root ∈ hazardousRoots, (lexical word).names ≠ (components root).tail) := by
  constructor
  · intro h _ root hr hn
    exact h root hr ((lexical_eq_root_iff habsolute hr).mpr hn)
  · intro h root hr heq
    have hn := (lexical_eq_root_iff habsolute hr).mp heq
    by_cases hup : ['.', '.'] ∈ components word
    · exact h hup root hr hn
    · -- without `..` the word has the components of the root, and was compared with them
      have hc : components word = components root := by
        obtain ⟨ha, hur⟩ := absolute_of_hazardous root hr
        rw [lexical_of_not_mem habsolute hup, lexical_of_not_mem ha hur, heq]
      have hnot := List.any_eq_false.mp (not_targetsHazardousRoot hadmitted) word hword
      exact hnot (List.any_eq_true.mpr ⟨root, hr, by simpa using hc⟩)

theorem admitted_word_dotted :
    ((AgentCallPolicy.new "/p".toList).admitCall "cat /p/../q/f".toList).1.pauseCode = none ∧
    ∀ root ∈ hazardousRoots, lexical "/p/../q/f".toList ≠ lexical root := by
  refine ⟨by decide, ?_⟩
  exact (admitted_word_not_hazardous_iff (.new "/p".toList) "cat /p/../q/f".toList _ (by decide) (by decide)
    (by decide)).mpr fun _ => by decide

/-- The word `/usr/..` is the root. -/
theorem dotted_root_admitted :
    let decision := ((AgentCallPolicy.new "/p".toList).admitCall "ls /usr/..".toList).1
    decision.pauseCode = none ∧ "/usr/..".toList ∈ splitWhitespace decision.command ∧
      lexical "/usr/..".toList = lexical "/".toList ∧ "/".toList ∈ hazardousRoots := by
  decide

end ShareCli.Commands
