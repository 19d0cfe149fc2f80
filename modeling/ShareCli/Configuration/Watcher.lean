import ShareCli.Configuration.Store
import ShareCli.Foundation.Machine
import ShareCli.Foundation.Watch

/-!
# Hot reload

`ConfigWatcher` reloads the file at a change in its directory and sends the configuration through a watch
channel, from which a task copies it to the live configuration. A change is skipped if it comes too soon after
the last reload. A save empties the file and then writes it; each of the two raises an event that the watcher
handles at some later time.
-/

namespace ShareCli.Configuration

open Foundation Function

def debounce : Nat := 200 * 1000000

def watchedPath (env : ConfigEnv) : List Char :=
  match env.configDir with
  | some base => userConfigPath base
  | none => "config.toml".toList

/-- The kinds of `notify`. -/
inductive EventKind where
  | access
  | create
  | modify
  | remove
  | other
deriving DecidableEq

def EventKind.relevant : EventKind → Bool
  | .create | .modify => true
  | _ => false

/-- A save that has emptied the file and not yet written it. -/
structure Saving where
  config : Config
  path : FilePath
  text : String

/-- The file, the events that were raised and not yet handled, the watch channel and the live configuration. -/
structure HotReload where
  now : Nat := 0
  files : Files
  saving : Option Saving := none
  events : List EventKind := []
  lastEvent : Option Nat := none
  channel : Watch Config
  live : Config
  saved : Option Config := none
  /-- Whether an event was reloaded after the last write of the file. -/
  reloaded : Bool := false

/-- What happens next: time passes, a save goes on, the watcher handles an event or the task copies. -/
inductive ReloadLabel where
  | elapse (nanos : Nat)
  | beginSave (cfg : Config)
  | finishSave
  | handle
  | propagate

namespace HotReload

def debounced (s : HotReload) : Bool := s.lastEvent.any fun prev => s.now - prev < debounce

def settled (s : HotReload) : Bool := s.events.isEmpty && s.saving.isNone && !s.channel.ready

section Steps

variable (env : ConfigEnv) (toml : TomlFormat)

def reloadConfig (files : Files) : Option Config := (files (FilePath.components (watchedPath env))).bind toml.parse

/-- A configuration that cannot be read leaves the old one. -/
def reload (s : HotReload) : HotReload :=
  match reloadConfig env toml s.files with
  | some cfg => { s with lastEvent := some s.now, reloaded := true, channel := s.channel.apply (.send cfg) }
  | none => { s with lastEvent := some s.now, reloaded := true }

def onEvent (s : HotReload) (kind : EventKind) : HotReload :=
  if kind.relevant && !s.debounced then s.reload env toml else s

variable (watching : Bool)

/-- The watcher watches the directory of its file; `watching` says whether it could be started. -/
def raised (path : FilePath) : List EventKind :=
  if watching && path.dropLast = (FilePath.components (watchedPath env)).dropLast then [.modify] else []

/-- A save that fails does so before it empties the file. -/
def beginSave (s : HotReload) (cfg : Config) : HotReload :=
  match cfg.output env toml with
  | .error _ => s
  | .ok (path, text) =>
    { s with
      files := Function.update s.files path (some "")
      saving := some { config := cfg, path, text }
      reloaded := false
      events := s.events ++ raised env watching path }

def finishSave (s : HotReload) (saving : Saving) : HotReload :=
  { s with
    files := update s.files saving.path (some saving.text)
    saving := none
    reloaded := false
    events := s.events ++ raised env watching saving.path
    saved := some saving.config }

def propagate (s : HotReload) : Option HotReload :=
  match s.channel.changed with
  | (some .changed, channel) => some { s with channel, live := channel.value }
  | _ => none

def step (s : HotReload) : ReloadLabel → Option HotReload
  | .elapse nanos => some { s with now := s.now + nanos }
  | .beginSave cfg => if s.saving.isNone then some (s.beginSave env toml watching cfg) else none
  | .finishSave => s.saving.map (s.finishSave env watching)
  | .handle =>
    match s.events with
    | [] => none
    | kind :: events => some ({ s with events }.onEvent env toml kind)
  | .propagate => s.propagate

end Steps

end HotReload

def initialConfig (env : ConfigEnv) (toml : TomlFormat) (files : Files) : Config :=
  match Config.load env toml files with
  | .ok cfg => cfg
  | .error _ => {}

def hotReload (env : ConfigEnv) (toml : TomlFormat) (watching : Bool) (files : Files) :
    Machine HotReload ReloadLabel where
  init :=
    { files, channel := { value := initialConfig env toml files }, live := initialConfig env toml files }
  step := HotReload.step env toml watching

open FilePath Option

def Followed (env : ConfigEnv) : Prop :=
  ∃ path, Config.configPath env = .ok path ∧ components path = components (watchedPath env)

theorem followed_of_unset {env : ConfigEnv} {base : List Char} (he : env.explicit.filter (· ≠ []) = none)
    (hb : env.configDir = some base) : Followed env := by
  refine ⟨userConfigPath base, ?_, ?_⟩
  · rw [Config.configPath, he, hb]
  · rw [watchedPath, hb]

namespace HotReload

structure Consistent (env : ConfigEnv) (toml : TomlFormat) (s : HotReload) : Prop where
  channel : s.channel.Live
  seen : s.channel.ready = false → s.live = s.channel.value
  modify : ∀ kind ∈ s.events, kind = .modify
  saving : ∀ saving ∈ s.saving,
    saving.path = components (watchedPath env) ∧ toml.print saving.config = some saving.text
  file : s.saving.isNone = true → ∀ cfg ∈ s.saved, reloadConfig env toml s.files = some cfg
  /-- It was sent, if an event was reloaded after it was written. -/
  sent : s.saving.isNone = true → s.reloaded = true → ∀ cfg ∈ s.saved, s.channel.value = cfg

section Steps

variable {env : ConfigEnv} {toml : TomlFormat} {s s' : HotReload}

theorem raised_watched : raised env true (components (watchedPath env)) = [.modify] := by
  simp [raised]

theorem reloadConfig_written {saving : Saving} (hp : saving.path = components (watchedPath env))
    (hpr : toml.print saving.config = some saving.text) (fs : Files) :
    reloadConfig env toml (update fs saving.path (some saving.text)) = some saving.config := by
  rw [reloadConfig, hp, update_self, bind_some, toml.parse_print hpr]

theorem append_modify (h : ∀ k ∈ s.events, k = .modify) : ∀ k ∈ s.events ++ [.modify], k = .modify := by
  intro k hk
  rcases List.mem_append.mp hk with hold | hn
  · exact h k hold
  · exact List.mem_singleton.mp hn

theorem Consistent.beginSave (h : Consistent env toml s) (hf : Followed env) (cfg : Config) :
    Consistent env toml (s.beginSave env toml true cfg) := by
  unfold HotReload.beginSave
  split
  · exact h
  · rename_i p text ho
    obtain ⟨c, hc, rfl, hpr⟩ := Config.output_ok ho
    obtain ⟨f, hp, hs⟩ := hf
    obtain rfl : f = c := Except.ok.inj (hp.symm.trans hc)
    rw [hs, raised_watched]
    refine ⟨h.channel, h.seen, append_modify h.modify, ?_, ?_, ?_⟩
    · intro saving hsv
      rw [← some.inj hsv]
      exact ⟨rfl, hpr⟩
    · exact fun hn => absurd hn (by simp)
    · exact fun hn => absurd hn (by simp)

theorem Consistent.finishSave (h : Consistent env toml s) {saving : Saving} (hsv : s.saving = some saving) :
    Consistent env toml (s.finishSave env true saving) := by
  obtain ⟨hp, hpr⟩ := h.saving saving hsv
  have hr : raised env true saving.path = [.modify] := by rw [hp, raised_watched]
  unfold HotReload.finishSave
  rw [hr]
  refine ⟨h.channel, h.seen, append_modify h.modify, fun _ hn => absurd hn (not_mem_none _), ?_, ?_⟩
  · intro _ cfg hc
    rw [← some.inj hc]
    exact reloadConfig_written hp hpr s.files
  · exact fun _ hn => Bool.noConfusion hn

theorem Consistent.onEvent {kind : EventKind} {evs : List EventKind} (h : Consistent env toml s)
    (he : s.events = kind :: evs) : Consistent env toml ({ s with events := evs }.onEvent env toml kind) := by
  have hm : ∀ k ∈ evs, k = .modify := fun k hk => h.modify k (he ▸ List.mem_cons_of_mem kind hk)
  unfold HotReload.onEvent
  split
  · unfold HotReload.reload
    split
    · rename_i cfg hc
      obtain ⟨hl, hr, hv⟩ := h.channel.send cfg
      refine ⟨hl, fun hnt => absurd (hr.symm.trans hnt) (by decide), hm, h.saving, h.file, ?_⟩
      intro hn _ saved hs
      have hf := h.file hn saved hs
      exact hv.trans (some.inj (hc.symm.trans hf))
    · rename_i hc
      refine ⟨h.channel, h.seen, hm, h.saving, h.file, ?_⟩
      intro hn _ saved hs
      have hf := h.file hn saved hs
      cases hc.symm.trans hf
  · exact ⟨h.channel, h.seen, hm, h.saving, h.file, h.sent⟩

theorem Consistent.propagate (h : Consistent env toml s) (hstep : s.propagate = some s') :
    Consistent env toml s' := by
  unfold HotReload.propagate at hstep
  split at hstep
  · rename_i c hc
    obtain rfl := some.inj hstep
    obtain rfl := Watch.eq_of_changed hc
    obtain ⟨hl, -⟩ := h.channel.see
    exact ⟨hl, fun _ => rfl, h.modify, h.saving, h.file, h.sent⟩
  · cases hstep

theorem Consistent.step (h : Consistent env toml s) (hf : Followed env) {l : ReloadLabel}
    (hstep : s.step env toml true l = some s') : Consistent env toml s' := by
  cases l with
  | elapse n =>
    obtain rfl := some.inj hstep
    exact ⟨h.channel, h.seen, h.modify, h.saving, h.file, h.sent⟩
  | beginSave cfg =>
    obtain ⟨-, hstep⟩ := ite_none_right_eq_some.mp hstep
    obtain rfl := some.inj hstep
    exact h.beginSave hf cfg
  | finishSave =>
    obtain ⟨saving, hsv, rfl⟩ := map_eq_some_iff.mp hstep
    exact h.finishSave hsv
  | handle =>
    cases he : s.events with
    | nil => simp [HotReload.step, he] at hstep
    | cons k evs =>
      simp only [HotReload.step, he, some.injEq] at hstep
      rw [← hstep]
      exact h.onEvent he
  | propagate => exact h.propagate hstep

end Steps

end HotReload

/-- **Hot reload converges.** Once everything is settled, the live configuration is the last one saved, provided
that some event was handled outside the window after the last write. -/
theorem hot_reload_converges (env : ConfigEnv) (toml : TomlFormat) (files : Files) (hfollowed : Followed env)
    {s : HotReload} (h : (hotReload env toml true files).Reachable s) (hsettled : s.settled = true)
    (hreloaded : s.reloaded = true) (cfg : Config) (hsaved : s.saved = some cfg) : s.live = cfg := by
  have hc : s.Consistent env toml := by
    refine Machine.invariant ?_ ?_ h
    · refine ⟨⟨rfl, Nat.le_refl 0⟩, fun _ => rfl, List.forall_mem_nil _, ?_, ?_, ?_⟩
      · exact fun _ hn => absurd hn (not_mem_none _)
      · exact fun _ _ hn => absurd hn (not_mem_none _)
      · exact fun _ _ _ hn => absurd hn (not_mem_none _)
    · exact fun s l s' hs hstep => hs.step hfollowed hstep
  simp only [HotReload.settled, Bool.and_eq_true, List.isEmpty_iff, Bool.not_eq_true'] at hsettled
  obtain ⟨⟨-, hsv⟩, hr⟩ := hsettled
  rw [hc.seen hr]
  exact hc.sent hsv hreloaded cfg hsaved

def userReload (explicit : Option (List Char)) : Machine HotReload ReloadLabel :=
  hotReload { userEnv with explicit } (.knowing smallPool) true fun _ => none

/-- The two events of a save are handled 200 ms apart. -/
theorem hot_reload_converges_apart : ∃ s, (userReload none).Reachable s ∧ s.settled = true ∧
    s.saved = some smallPool ∧ s.live = smallPool := by
  obtain ⟨s, hr, hs, hrl, hsv⟩ : ∃ s, (userReload none).Reachable s ∧
      s.settled = true ∧ s.reloaded = true ∧ s.saved = some smallPool :=
    Machine.exists_reachable
      [.beginSave smallPool, .handle, .finishSave, .elapse debounce, .handle, .propagate] (by decide +kernel)
  exact ⟨s, hr, hs, hsv, hot_reload_converges userEnv (.knowing smallPool) (fun _ => none)
    (followed_of_unset rfl rfl) hr hs hrl smallPool hsv⟩

/-- Everything is settled after a save of `cfg`, which is not live. -/
def HotReload.Misses (s : HotReload) (cfg : Config) : Prop :=
  s.settled = true ∧ s.saved = some cfg ∧ s.live ≠ cfg
deriving Decidable

/-- The event of the first half of a save is handled before the second half. Or the saves go to another file. -/
theorem hot_reload_misses_save : (∃ s, (userReload none).Reachable s ∧ s.Misses smallPool) ∧
    ∃ s, (userReload (some "/srv/sharecli.toml".toList)).Reachable s ∧ s.Misses smallPool := by
  constructor
  · exact Machine.exists_reachable [.beginSave smallPool, .handle, .finishSave, .handle, .propagate]
      (by decide +kernel)
  · exact Machine.exists_reachable [.beginSave smallPool, .finishSave] (by decide +kernel)

end ShareCli.Configuration
