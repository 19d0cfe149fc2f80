import ShareCli.Cast.Caster

/-!
# What `cast send` does

The first caster, the one for WezTerm, never answers `Unsupported`: without a `wezterm` its outcome is a failure.
-/

namespace ShareCli.Cast

open Foundation ShellProgram List

/-- The answer of the list command has the pane of the address. -/
def Offers (addr : PaneAddress) (answer : RunAnswer) : Prop :=
  ∃ output panes, answer = .ok output ∧ output.success = true ∧ parsePanes output.stdout = some panes ∧
    addr.pane.toNat < (panes.filter fun p => p.windowId = addr.window).length

variable {addr : PaneAddress}

theorem findPane_eq_some_iff {panes : List WeztermPane} : (∃ pid, findPane panes addr = some pid) ↔
      addr.pane.toNat < (panes.filter fun p => p.windowId = addr.window).length := by
  simp only [findPane, Option.map_eq_some_iff]
  constructor
  · rintro ⟨-, pane, hp, -⟩
    have hlt := (List.getElem?_eq_some_iff.mp hp).1
    rwa [length_mergeSort] at hlt
  · intro hlt
    rw [← length_mergeSort (panes.filter _)] at hlt
    exact ⟨_, _, getElem?_eq_getElem hlt, rfl⟩

theorem offers_iff {a : RunAnswer} : Offers addr a ↔ ∃ pid, resolvePaneId addr a = .ok (some pid) := by
  constructor
  · rintro ⟨o, p, rfl, hs, hp, hlt⟩
    obtain ⟨pid, hpn⟩ := findPane_eq_some_iff.mpr hlt
    refine ⟨pid, ?_⟩
    simp only [resolvePaneId, hs, if_true, hp, Option.bind_some, hpn]
  · rintro ⟨pid, hr⟩
    cases a with
    | error e => cases hr
    | ok o =>
      simp only [resolvePaneId] at hr
      by_cases hs : o.success = true
      · rw [if_pos hs] at hr
        obtain ⟨p, hp, hpn⟩ := Option.bind_eq_some_iff.mp (Except.ok.inj hr)
        exact ⟨o, p, rfl, hs, hp, findPane_eq_some_iff.mp ⟨pid, hpn⟩⟩
      · rw [if_neg hs] at hr
        cases hr

theorem sendTextOutcome_ne_unsupported (a : RunAnswer) (m : String) :
    sendTextOutcome a ≠ .unsupported m := by
  cases a with
  | error e => simp [sendTextOutcome]
  | ok o =>
    simp only [sendTextOutcome]
    split <;> simp

section Attempt

variable (shell : Shell) (hist : List Invocation) {addr : PaneAddress} (text : String)

theorem wezterm_exec_of_offers (h : Offers addr (shell.answer hist listCommand)) :
    ∃ outcome pid, (∀ m, outcome ≠ .unsupported m) ∧ (weztermCaster.send addr text).exec shell hist =
        (outcome, sendTextCommand pid text :: listCommand :: hist) := by
  obtain ⟨pid, hr⟩ := offers_iff.mp h
  refine ⟨sendTextOutcome (shell.answer (listCommand :: hist) (sendTextCommand pid text)), pid,
    sendTextOutcome_ne_unsupported _, ?_⟩
  simp only [weztermCaster, exec, hr]

theorem wezterm_exec_of_not_offers (h : ¬ Offers addr (shell.answer hist listCommand)) :
    ∃ m, (weztermCaster.send addr text).exec shell hist = (.failed m, listCommand :: hist) := by
  rw [offers_iff] at h
  cases hr : resolvePaneId addr (shell.answer hist listCommand) with
  | error e =>
    exact ⟨e, by simp only [weztermCaster, exec, hr]⟩
  | ok fd =>
    cases fd with
    | some pid => exact absurd ⟨pid, hr⟩ h
    | none =>
      simp only [weztermCaster, exec, hr]
      exact ⟨_, rfl⟩

theorem wezterm_ne_unsupported (m : String) :
    ((weztermCaster.send addr text).exec shell hist).1 ≠ .unsupported m := by
  by_cases h : Offers addr (shell.answer hist listCommand)
  · obtain ⟨outcome, paneId, ho, he⟩ := wezterm_exec_of_offers shell hist text h
    rw [he]
    exact ho m
  · obtain ⟨r, he⟩ := wezterm_exec_of_not_offers shell hist text h
    rw [he]
    simp

end Attempt

section Attempts

variable {shell : Shell} {prog : ShellProgram SendOutcome} {most b : Nat}

theorem retryLoop_exec_succ (left a : Nat) (l : Option SendOutcome) (hist : List Invocation) :
    (retryLoop prog most b (left + 1) a l).exec shell hist =
      match (prog.exec shell hist).1 with
      | .failed m =>
        (retryLoop prog most b left (a + 1) (some (.failed m))).exec shell (prog.exec shell hist).2
      | outcome => (outcome, (prog.exec shell hist).2) := by
  rw [retryLoop, exec_bind]
  generalize prog.exec shell hist = result
  obtain ⟨outcome, commands⟩ := result
  cases outcome with
  | failed m =>
    dsimp only
    split <;> rfl
  | delivered => rfl
  | needsFocus => rfl
  | unsupported m => rfl

theorem retryLoop_ne_unsupported (ha : ∀ hist m, (prog.exec shell hist).1 ≠ .unsupported m)
    (left a : Nat) {l : Option SendOutcome} (hist : List Invocation)
    (hl : ∀ m, l ≠ some (.unsupported m)) (m : String) :
    ((retryLoop prog most b left a l).exec shell hist).1 ≠ .unsupported m := by
  induction left generalizing a l hist with
  | zero =>
    cases l with
    | none => simp [retryLoop, exec]
    | some outcome =>
      intro hu
      exact hl m (congrArg some hu)
  | succ left ih =>
    rw [retryLoop_exec_succ]
    have hf := ha hist
    generalize prog.exec shell hist = result at hf ⊢
    obtain ⟨outcome, commands⟩ := result
    cases outcome with
    | failed r => exact ih (a + 1) commands fun _ => by simp
    | delivered => simp
    | needsFocus => simp
    | unsupported r => exact absurd rfl (hf r)

variable {outcome : SendOutcome}

theorem retryLoop_of_constant (ha : ∀ hist, (prog.exec shell hist).1 = outcome)
    (left a : Nat) (l : Option SendOutcome) (hist : List Invocation)
    (hl : left = 0 → l = some outcome) :
    ((retryLoop prog most b left a l).exec shell hist).1 = outcome := by
  induction left generalizing a l hist with
  | zero =>
    rw [hl rfl]
    rfl
  | succ left ih =>
    rw [retryLoop_exec_succ, ha hist]
    cases outcome with
    | failed m => exact ih (a + 1) _ _ fun _ => rfl
    | delivered => rfl
    | needsFocus => rfl
    | unsupported m => rfl

theorem retryCaster_of_constant {inn : Caster} {addr : PaneAddress} {text : String} (hp : most ≠ 0)
    (ha : ∀ hist, ((inn.send addr text).exec shell hist).1 = outcome) :
    (((retryCaster inn most b).send addr text).exec shell []).1 = outcome :=
  retryLoop_of_constant ha most 1 none [] fun hz => absurd hz hp

end Attempts

section Chain

variable (platform : Platform) (shell : Shell) (addr : PaneAddress) (text : String)

theorem castText_exec : (castText platform addr text).exec shell [] =
      ((retryCaster weztermCaster 3 200).send addr text).exec shell [] := by
  have hn (m : String) : (none : Option SendOutcome) ≠ some (.unsupported m) := by simp
  have hne (m : String) :
      (((retryCaster weztermCaster 3 200).send addr text).exec shell []).1 ≠ .unsupported m :=
    retryLoop_ne_unsupported (fun hist => wezterm_ne_unsupported shell hist text) 3 1 [] hn
      m
  rw [castText, casters, sendWithFallback, exec_bind]
  generalize ((retryCaster weztermCaster 3 200).send addr text).exec shell [] = result at hne ⊢
  obtain ⟨outcome, commands⟩ := result
  cases outcome with
  | unsupported m => exact absurd rfl (hne m)
  | delivered => rfl
  | needsFocus => rfl
  | failed m => rfl

theorem send_commands (n : String) (ht : text ≠ "") :
    ((send platform n (.ok (some addr)) (.ok text)).exec shell []).2 =
      ((castText platform addr text).exec shell []).2 := by
  simp only [send, if_neg ht, exec_bind, exec]

/-- The command types or pastes into a terminal of this machine. -/
def TypesText (command : Invocation) : Prop :=
  command.bin = "wezterm" ∧ command.args.take 2 = ["cli", "send-text"] ∨
    command.bin = "ghostty" ∧ command.args.take 2 = ["+action", "paste-from-clipboard"]
deriving Decidable

theorem not_typesText_listCommand : ¬ TypesText listCommand := by decide

theorem typesText_sendTextCommand (pid : UInt32) : TypesText (sendTextCommand pid text) := .inl ⟨rfl, rfl⟩

theorem retryLoop_types_nothing_iff (most b left a : Nat)
    (l : Option SendOutcome) (hist : List Invocation) :
    (∀ cmd ∈ ((retryLoop (weztermCaster.send addr text) most b left a
        l).exec shell hist).2, ¬ TypesText cmd) ↔
      (∀ cmd ∈ hist, ¬ TypesText cmd) ∧
        ∀ i < left, ¬ Offers addr (shell.answer (replicate i listCommand ++ hist) listCommand) := by
  induction left generalizing a l hist with
  | zero => simp [retryLoop, exec]
  | succ left ih =>
    by_cases ho : Offers addr (shell.answer hist listCommand)
    · -- The text is sent in this attempt, and what follows takes no command back.
      have ht : ∃ cmd ∈ ((retryLoop (weztermCaster.send addr text) most b
          (left + 1) a l).exec shell hist).2, TypesText cmd := by
        obtain ⟨outcome, paneId, -, he⟩ := wezterm_exec_of_offers shell hist text ho
        refine ⟨sendTextCommand paneId text, ?_, typesText_sendTextCommand text paneId⟩
        rw [retryLoop_exec_succ, he]
        cases outcome with
        | failed m =>
          exact (suffix_exec shell _ _).subset mem_cons_self
        | delivered => exact mem_cons_self
        | needsFocus => exact mem_cons_self
        | unsupported m => exact mem_cons_self
      obtain ⟨cmd, hc, hty⟩ := ht
      constructor
      · intro hn
        exact absurd hty (hn cmd hc)
      · rintro ⟨-, hn⟩
        exact absurd ho (hn 0 (Nat.succ_pos left))
    · obtain ⟨m, he⟩ := wezterm_exec_of_not_offers shell hist text ho
      rw [retryLoop_exec_succ, he, ih]
      simp only [forall_mem_cons, not_typesText_listCommand, not_false_eq_true, true_and]
      refine and_congr_right fun _ => ?_
      constructor
      · intro hn i hi
        cases i with
        | zero => exact ho
        | succ i =>
          have hi' := hn i (Nat.lt_of_succ_lt_succ hi)
          rwa [replicate_succ', append_assoc, singleton_append]
      · intro hn i hi
        have hi' := hn (i + 1) (Nat.succ_lt_succ hi)
        rwa [replicate_succ', append_assoc, singleton_append] at hi'

def StaysRemote (commands : List Invocation) : Prop :=
  addr.host ≠ .localHost → ∀ command ∈ commands, ¬ TypesText command
deriving Decidable

/-- The text for another machine is typed into a pane of this one, unless WezTerm never offers a pane with these
numbers. -/
theorem send_stays_remote_iff (name : String) :
    StaysRemote addr ((send platform name (.ok (some addr)) (.ok text)).exec shell []).2 ↔
      addr.host = .localHost ∨ text = "" ∨
        ∀ i < 3, ¬ Offers addr (shell.answer (replicate i listCommand) listCommand) := by
  by_cases ht : text = ""
  · simp [StaysRemote, send, ht, exec]
  · rw [StaysRemote, send_commands platform shell addr text name ht, castText_exec, retryCaster,
      retryLoop_types_nothing_iff]
    simp only [not_mem_nil, false_implies, implies_true, true_and, append_nil]
    constructor
    · intro h
      by_cases hh : addr.host = .localHost
      · exact .inl hh
      · exact .inr (.inr (h hh))
    · rintro (hh | he | hn) hr
      · exact absurd hh hr
      · exact absurd he ht
      · exact hn

end Chain

def oneWindow : Shell where
  installed := fun _ => true
  answer := fun _ command =>
    .ok { success := true
          status := "exit status: 0"
          stdout := if command = listCommand then "[\x7b\"window_id\":1,\"pane_id\":7\x7d]" else ""
          stderr := "" }
  not_started := by
    intro _ _ h
    cases h

theorem send_types_into_local_pane :
    ¬ StaysRemote { machine := "studio", host := .ssh "ana" "studio", window := 1, pane := 0 }
      ((send .other "build"
        (.ok (some { machine := "studio", host := .ssh "ana" "studio", window := 1, pane := 0 }))
        (.ok "make")).exec oneWindow []).2 := by
  decide +kernel

/-- A caster of the chain with the tool it needs and the addresses it can serve. -/
structure Link where
  caster : Caster
  ready : (String → Bool) → Bool
  accepts : PaneAddress → Bool

def clipboardReady (inst : String → Bool) : Platform → Bool
  | .macos => inst "pbcopy"
  | .windows => inst "clip"
  | .other => inst "wl-copy" || inst "xclip"

def links (platform : Platform) : List Link :=
  [{ caster := retryCaster weztermCaster 3 200
     ready := fun inst => inst "wezterm"
     accepts := fun _ => true },
   { caster := retryCaster ghosttyCaster 3 200
     ready := fun inst => inst "ghostty"
     accepts := fun _ => true },
   { caster := retryCaster sshWinTermCaster 2 1000
     ready := fun inst => inst "ssh"
     accepts := fun addr => addr.host ≠ .localHost },
   { caster := clipboardCaster platform
     ready := fun inst => clipboardReady inst platform
     accepts := fun _ => true }]

section Fallback

variable (platform : Platform) (addr : PaneAddress) (text : String)

/-- The outcome is that of the first caster of the chain that has its tool and accepts the address. -/
def FallsBack (shell : Shell) : Prop :=
  match (links platform).find? fun link => link.ready shell.installed && link.accepts addr with
  | some link =>
    ((castText platform addr text).exec shell []).1 = ((link.caster.send addr text).exec shell []).1
  | none => ∃ message, ((castText platform addr text).exec shell []).1 = .unsupported message

def obliging (inst : String → Bool) : Shell where
  installed := inst
  answer := fun _ command =>
    if inst command.bin then
      .ok { success := true, status := "exit status: 0", stdout := "", stderr := "" }
    else .error (.spawn "No such file or directory (os error 2)")
  not_started := by
    intro _ command h
    exact ⟨_, by rw [h]; rfl⟩

section Obliging

variable {inst : String → Bool} (hist : List Invocation)

theorem obliging_wezterm (h : inst "wezterm" = false) :
    ((weztermCaster.send addr text).exec (obliging inst) hist).1 =
      .failed "wezterm cli list failed to spawn: No such file or directory (os error 2)" := by
  simp [weztermCaster, exec, obliging, listCommand, command, h, resolvePaneId, RunError.text]

theorem obliging_ghostty (h : inst "ghostty" = true) :
    ((ghosttyCaster.send addr text).exec (obliging inst) hist).1 =
      if inst "pbcopy" then .delivered
      else .failed "pbcopy failed: No such file or directory (os error 2)" := by
  cases hc : inst "pbcopy" with
  | true =>
    simp [ghosttyCaster, exec, obliging, commandWithStdin, gotoWindowCommand, pasteCommand,
      command, h, hc, pasteOutcome]
  | false =>
    simp [ghosttyCaster, exec, obliging, commandWithStdin, h, hc, RunError.text]

theorem obliging_ssh (h : inst "ssh" = true) (hh : addr.host ≠ .localHost) :
    ((sshWinTermCaster.send addr text).exec (obliging inst) hist).1 = .needsFocus := by
  have ht : ∃ target, sshTarget addr = some target := by
    unfold sshTarget
    cases hk : addr.host with
    | localHost => exact absurd hk hh
    | tailscale => exact ⟨_, rfl⟩
    | ssh user host => exact ⟨_, rfl⟩
  obtain ⟨target, ht⟩ := ht
  simp [sshWinTermCaster, ht, exec, obliging, commandWithStdin, h, sshOutcome]

theorem obliging_copyWith {bin : String} (h : inst bin = true) (args : List String) :
    ((copyWith bin args text).exec (obliging inst) hist).1 = .delivered := by
  simp [copyWith, exec, obliging, commandWithStdin, h, clipboardOutcome]

theorem obliging_clipboard (h : clipboardReady inst platform = true) :
    (((clipboardCaster platform).send addr text).exec (obliging inst) hist).1 = .delivered := by
  cases platform with
  | macos | windows => exact obliging_copyWith text hist h []
  | other =>
    have hi : (obliging inst).installed = inst := rfl
    simp only [clipboardCaster, exec, hi]
    cases hc : inst "wl-copy" with
    | true => exact obliging_copyWith text hist hc []
    | false =>
      have hx : inst "xclip" = true := by
        simpa [clipboardReady, hc] using h
      simp only [hx, Bool.false_eq_true, if_false, if_true, exec, hi]
      exact obliging_copyWith text hist hx _

end Obliging

theorem not_fallsBack_obliging {inst : String → Bool} (h : inst "wezterm" = false) :
    ¬ FallsBack platform addr text (obliging inst) := by
  have hf : ((castText platform addr text).exec (obliging inst) []).1 =
      .failed "wezterm cli list failed to spawn: No such file or directory (os error 2)" := by
    rw [castText_exec]
    exact retryCaster_of_constant (by decide) fun hist => obliging_wezterm addr text hist h
  have hi : (obliging inst).installed = inst := rfl
  simp only [FallsBack, hf, hi, links, find?_cons, h, Bool.and_true]
  cases hg : inst "ghostty" with
  | true =>
    dsimp only
    rw [retryCaster_of_constant (by decide) fun hist => obliging_ghostty addr text hist hg]
    split <;> simp
  | false =>
    cases hs : inst "ssh" && decide (addr.host ≠ .localHost) with
    | true =>
      obtain ⟨hs, hh⟩ := Bool.and_eq_true_iff.mp hs
      dsimp only
      rw [retryCaster_of_constant (by decide) fun hist =>
        obliging_ssh addr text hist hs (of_decide_eq_true hh)]
      simp
    | false =>
      cases hc : clipboardReady inst platform with
      | true =>
        dsimp only
        rw [obliging_clipboard platform addr text [] hc]
        simp
      | false =>
        rintro ⟨m, hu⟩
        cases hu

end Fallback

/-- The chain falls back as it should exactly where WezTerm is installed. -/
theorem castText_falls_back_iff (platform : Platform) (installed : String → Bool) (addr : PaneAddress)
    (text : String) :
    (∀ shell : Shell, shell.installed = installed → FallsBack platform addr text shell) ↔
      installed "wezterm" = true := by
  constructor
  · intro h
    by_contra hw
    exact not_fallsBack_obliging platform addr text (eq_false_of_ne_true hw) (h (obliging installed) rfl)
  · rintro hw shell rfl
    simp only [FallsBack, links, find?_cons, hw, Bool.true_and]
    exact congrArg Prod.fst (castText_exec platform shell addr text)

/-- With `xclip` as its only tool the text does not reach the clipboard. -/
theorem castText_ends_without_wezterm :
    ¬ FallsBack .other { machine := "desk", host := .localHost, window := 1, pane := 0 } "make"
      (obliging fun bin => bin == "xclip") :=
  not_fallsBack_obliging .other _ "make" rfl

end ShareCli.Cast
