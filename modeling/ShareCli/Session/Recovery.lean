import ShareCli.Foundation.Bytes
import ShareCli.Session.Ledger

/-!
# Recovery of sessions (`crates/sharecli-session/src/recovery.rs`)

`execute` starts the recipes of the sessions in batches, with a thread for each session of a batch, and joins the
threads in their order. `dry_run` is the preview of it. Whether a process can be started is answered for each
position in the list of the sessions (`spawn`).
-/

namespace ShareCli.Session

open Foundation List

inductive RecoveryOutcome where
  | resumed
  | dryRun
  | skippedAmbiguous
  | unsupportedSurface
  | launchFailed (message : String)
deriving DecidableEq

/-- The outcome for one session. -/
structure RecoveryResult where
  sessionId : String
  outcome : RecoveryOutcome
deriving DecidableEq

structure Command where
  program : String
  args : List String
  currentDir : String
deriving DecidableEq

def validateRecipe (recipe : ResumeRecipe) : Except String Unit :=
  if recipe.argv.isEmpty || recipe.argv.any (·.toList.contains '\x00') then
    .error "resume recipe has no safe argv"
  else if recipe.cwd.toList.head? ≠ some '/' then .error "resume recipe cwd must be absolute"
  else .ok ()

/-- None for a panic at `argv[0]`; and the command that the thread tries to start. -/
def launch (spawn : Command → Except String Unit) (session : AgentSession) :
    Option RecoveryOutcome × Option Command :=
  if !session.autoResumable then (some .skippedAmbiguous, none)
  else if !(session.state matches .active | .exited | .pending) then (some .unsupportedSurface, none)
  else match validateRecipe session.resume with
    | .error error => (some (.launchFailed error), none)
    | .ok () => match session.resume.argv with
      | [] => (none, none)
      | program :: args =>
        let command : Command := ⟨program, args, session.resume.cwd⟩
        match spawn command with
        | .ok () => (some .resumed, some command)
        | .error error => (some (.launchFailed error), some command)

/-- The batches of `chunks` are not empty. -/
structure RecoveryExecutor where
  maxParallel : Nat
  pos : 0 < maxParallel

namespace RecoveryExecutor

def new (maxParallel : Nat) : RecoveryExecutor := ⟨max maxParallel 1, by omega⟩

def dryRun (_ : RecoveryExecutor) (sessions : List AgentSession) : List RecoveryResult :=
  sessions.map fun session =>
    ⟨session.id, if session.autoResumable then .dryRun else .skippedAmbiguous⟩

def join (sessionId : String) (outcome : Option RecoveryOutcome) : RecoveryResult :=
  match outcome with
  | some outcome => ⟨sessionId, outcome⟩
  | none => ⟨"unknown", .launchFailed "worker panicked"⟩

/-- The results, each with the command that was tried for it. -/
def execute (executor : RecoveryExecutor) (spawn : Nat → Command → Except String Unit)
    (sessions : List AgentSession) : List (RecoveryResult × Option Command) :=
  (chunksOf executor.maxParallel sessions.zipIdx).flatMap fun batch =>
    let handles := batch.map fun (session, i) => (session.id, launch (spawn i) session)
    handles.map fun (sessionId, outcome, command) => (join sessionId outcome, command)

end RecoveryExecutor

/-- What `launch` checks and `dry_run` does not. -/
def AgentSession.launchable (session : AgentSession) : Bool :=
  session.state ≠ .unknown && (validateRecipe session.resume).isOk

theorem argv_ne_nil {s : AgentSession} (h : s.autoResumable = true) : s.resume.argv ≠ [] := by
  simp only [AgentSession.autoResumable, Bool.and_eq_true, decide_eq_true_eq] at h
  exact h.2

theorem launch_cases (spawn : Command → Except String Unit) (s : AgentSession) :
    (∃ o, (launch spawn s).1 = some o) ∧ (launch spawn s).2.isSome = (s.autoResumable && s.launchable) := by
  unfold launch AgentSession.launchable
  by_cases ha : s.autoResumable = true
  · cases hv : validateRecipe s.resume with
    | error e => cases s.state <;> simp [ha, Except.isOk, Except.toBool]
    | ok =>
      obtain ⟨p, as, hp⟩ := exists_cons_of_ne_nil (argv_ne_nil ha)
      cases s.state <;> cases hr : spawn ⟨p, as, s.resume.cwd⟩ <;>
        simp [ha, hp, hr, Except.isOk, Except.toBool]
  · simp [ha]

theorem execute_eq (e : RecoveryExecutor) (spawn : Nat → Command → Except String Unit)
    (ss : List AgentSession) :
    (e.execute spawn ss).map (·.1.sessionId) = ss.map (·.id) ∧
      (e.execute spawn ss).map (·.2.isSome) = ss.map fun s => s.autoResumable && s.launchable := by
  have he : e.execute spawn ss = ss.zipIdx.map fun (s, i) =>
      (RecoveryExecutor.join s.id (launch (spawn i) s).1, (launch (spawn i) s).2) := by
    simp only [RecoveryExecutor.execute, map_map, flatMap]
    rw [← map_flatten, flatten_chunksOf e.pos]
    rfl
  have hz : ss = ss.zipIdx.map (·.1) := by simp
  rw [he, map_map, map_map]
  nth_rewrite 2 4 [hz]
  rw [map_map, map_map]
  refine ⟨map_congr_left fun q _ => ?_, map_congr_left fun q _ => (launch_cases _ _).2⟩
  obtain ⟨o, ho⟩ := (launch_cases (spawn q.2) q.1).1
  simp [ho, RecoveryExecutor.join]

/-- **Preview.** It is right exactly if whatever may be resumed automatically passes the other checks of `launch`. -/
theorem recovery_preview_iff (maxParallel : Nat) (spawn : Nat → Command → Except String Unit)
    (sessions : List AgentSession) :
    let executor := RecoveryExecutor.new maxParallel
    let preview := executor.dryRun sessions
    let results := executor.execute spawn sessions
    preview.map (·.sessionId) = sessions.map (·.id) ∧ results.map (·.1.sessionId) = sessions.map (·.id) ∧
      (preview.map (·.outcome == .dryRun) = results.map (·.2.isSome) ↔
        ∀ s ∈ sessions, s.autoResumable = true → s.launchable = true) := by
  intro executor preview results
  obtain ⟨hi, hc⟩ := execute_eq executor spawn sessions
  refine ⟨by simp [preview, RecoveryExecutor.dryRun], hi, ?_⟩
  rw [hc]
  simp only [preview, RecoveryExecutor.dryRun, map_map, map_inj_left]
  refine forall₂_congr fun s _ => ?_
  cases ha : s.autoResumable <;> simp [ha]

/-- The state of the session is not known. -/
def strayed : AgentSession :=
  ⟨"codex:1", "codex", "1", "/tmp", ⟨"codex", "1", "/tmp", ["codex", "resume", "1"]⟩, .exact, .unknown⟩

theorem preview_of_unknown_state :
    let executor := RecoveryExecutor.new 2
    executor.dryRun [strayed] = [⟨"codex:1", .dryRun⟩] ∧
      executor.execute (fun _ _ => .ok ()) [strayed] = [(⟨"codex:1", .unsupportedSurface⟩, none)] := by
  decide

end ShareCli.Session
