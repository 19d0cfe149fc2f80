import Mathlib.Data.List.Nodup
import Mathlib.Data.List.Pairwise
import Mathlib.Data.String.Basic
import ShareCli.Foundation.Delimited
import ShareCli.Foundation.Text
import ShareCli.Ipc.CoalesceCache

/-!
# Cache keys (`crates/sharecli-ipc/src/cache_key.rs`)

The key of a command is the SHA-256 digest of the arguments, each followed by a NUL, and then, depending on the
mode, the working directory between two bytes of value 1 and the environment in the order of its names.

In the mode `time` a key can be read back, up to the order of the environment, if no argument begins with
the character 1, the working directory does not contain it and no name of a variable contains an equals sign.
-/

namespace ShareCli.Ipc

open Foundation Text

inductive CacheKeyMode where
  | time
  | args
  | git
deriving DecidableEq

/-- The values of `cache_key=` in `rules.conf`. -/
def CacheKeyMode.parse (raw : String) : CacheKeyMode :=
  let value := toAsciiLowercase (String.ofList (trim raw.toList))
  if value = "args" then .args else if value = "git" then .git else .time

/-- A command and what its key reads. -/
structure KeyedCommand where
  argv : List String
  cwd : String
  envSubset : List (String × String)
deriving DecidableEq

/-- What `git status --porcelain` and `git rev-parse HEAD` print in a directory, if they succeed. -/
structure GitOutputs where
  porcelain : Option String
  head : Option String
deriving DecidableEq

def gitFingerprint (outputs : GitOutputs) : String := outputs.porcelain.getD "" ++ outputs.head.getD ""

def hashArgv (argv : List String) : List UInt8 := argv.flatMap fun arg => encodeUtf8 arg.toList ++ [0x00]

variable (envSubset : List (String × String))

/-- Entries of one name keep their order. -/
def sortedEnv : List (String × String) :=
  envSubset.mergeSort fun e e' => e.1 ≤ e'.1

def hashEnvSubset : List UInt8 :=
  (sortedEnv envSubset).flatMap fun (k, v) =>
    encodeUtf8 k.toList ++ [0x3d] ++ encodeUtf8 v.toList ++ [0x00]

def hasherInput (git : String → GitOutputs) (mode : CacheKeyMode) (command : KeyedCommand) : List UInt8 :=
  hashArgv command.argv ++
    match mode with
    | .args => []
    | .time =>
      [0x01] ++ encodeUtf8 command.cwd.toList ++ [0x01] ++ hashEnvSubset command.envSubset
    | .git =>
      [0x01] ++ encodeUtf8 command.cwd.toList ++ [0x01] ++
        encodeUtf8 (gitFingerprint (git command.cwd)).toList

def hexEncode (bytes : List UInt8) : String :=
  String.ofList (bytes.flatMap fun b => [Nat.digitChar (b.toNat / 16), Nat.digitChar (b.toNat % 16)])

def commandKeyWithMode (sha256 : List UInt8 → List UInt8) (git : String → GitOutputs) (mode : CacheKeyMode)
    (command : KeyedCommand) : CommandKey :=
  ⟨hexEncode (sha256 (hasherInput git mode command))⟩

def commandKey (sha256 : List UInt8 → List UInt8) (git : String → GitOutputs) (command : KeyedCommand) :
    CommandKey :=
  commandKeyWithMode sha256 git .time command

/-- The last value that is given under a name. -/
def effectiveEnv (name : String) : Option String :=
  (envSubset.filter fun e => e.1 = name).getLast?.map Prod.snd

open Text KeyedCommand List

theorem digitChar_inj {i j : Nat} (hi : i < 16) (hj : j < 16) (h : Nat.digitChar i = Nat.digitChar j) :
    i = j := by
  have ha : ∀ i < 16, ∀ j < 16, Nat.digitChar i = Nat.digitChar j → i = j := by decide
  exact ha i hi j hj h

theorem hexEncode_injective : Function.Injective hexEncode := by
  intro bs bs' h
  replace h := String.ofList_inj.mp h
  induction bs generalizing bs' with
  | nil =>
    cases bs' with
    | nil => rfl
    | cons b bs' => simp at h
  | cons b bs ih =>
    cases bs' with
    | nil => simp at h
    | cons b' bs' =>
      simp only [flatMap_cons, cons_append, nil_append, cons.injEq] at h
      obtain ⟨hh, hl, hrest⟩ := h
      have hb := b.toNat_lt
      have hb' := b'.toNat_lt
      have hh := digitChar_inj (by omega) (by omega) hh
      have hl := digitChar_inj (by omega) (by omega) hl
      have hby : b = b' := UInt8.toNat_inj.mp (by omega)
      rw [hby, ih hrest]

section Env

variable {env env' : List (String × String)}

theorem nameLe_trans (e e' e'' : String × String) (h : decide (e.1 ≤ e'.1) = true)
    (h' : decide (e'.1 ≤ e''.1) = true) : decide (e.1 ≤ e''.1) = true :=
  decide_eq_true (le_trans (of_decide_eq_true h) (of_decide_eq_true h'))

theorem nameLe_total (e e' : String × String) : (decide (e.1 ≤ e'.1) || decide (e'.1 ≤ e.1)) = true := by
  simpa using le_total e.1 e'.1

theorem sortedEnv_perm : (sortedEnv env).Perm env := mergeSort_perm env _

theorem sortedEnv_sorted : (sortedEnv env).Pairwise fun e e' => decide (e.1 ≤ e'.1) = true :=
  pairwise_mergeSort nameLe_trans nameLe_total env

theorem filter_sortedEnv (n : String) :
    (sortedEnv env).filter (fun e => e.1 = n) = env.filter fun e => e.1 = n := by
  have hs : (env.filter fun e => e.1 = n).Pairwise fun e e' => decide (e.1 ≤ e'.1) = true := by
    refine pairwise_of_forall_mem_list ?_
    intro e he e' he'
    have hn : e.1 = n := of_decide_eq_true (mem_filter.mp he).2
    have hn' : e'.1 = n := of_decide_eq_true (mem_filter.mp he').2
    exact decide_eq_true (hn.trans hn'.symm).le
  have hsb : (env.filter fun e => e.1 = n).Sublist (sortedEnv env) :=
    sublist_mergeSort nameLe_trans nameLe_total hs filter_sublist
  have hf := hsb.filter fun e => e.1 = n
  rw [filter_filter] at hf
  simp only [Bool.and_self] at hf
  exact (hf.eq_of_length (sortedEnv_perm.filter _).length_eq.symm).symm

theorem sortedEnv_eq_of_perm (hn : (env.map Prod.fst).Nodup) (h : env.Perm env') :
    sortedEnv env = sortedEnv env' := by
  refine Perm.eq_of_pairwise ?_ sortedEnv_sorted sortedEnv_sorted
    (sortedEnv_perm.trans (h.trans sortedEnv_perm.symm))
  intro e e' he he' hle hge
  have hnm : e.1 = e'.1 := le_antisymm (of_decide_eq_true hle) (of_decide_eq_true hge)
  exact inj_on_of_nodup_map hn (sortedEnv_perm.mem_iff.mp he)
    (h.mem_iff.mpr (sortedEnv_perm.mem_iff.mp he')) hnm

theorem effectiveEnv_eq_of_sortedEnv_eq (h : sortedEnv env = sortedEnv env') :
    effectiveEnv env = effectiveEnv env' := by
  funext name
  rw [effectiveEnv, effectiveEnv, ← filter_sortedEnv, h, filter_sortedEnv]

end Env

structure KeyedCommand.NulFree (cmd : KeyedCommand) : Prop where
  argv : ∀ arg ∈ cmd.argv, '\x00' ∉ arg.toList
  cwd : '\x00' ∉ cmd.cwd.toList
  env : ∀ e ∈ cmd.envSubset, '\x00' ∉ e.1.toList ∧ '\x00' ∉ e.2.toList

/-- The separators can be told from what they separate. -/
structure KeyedCommand.Unambiguous (cmd : KeyedCommand) : Prop where
  argv : ∀ arg ∈ cmd.argv, arg.toList.head? ≠ some '\x01'
  cwd : '\x01' ∉ cmd.cwd.toList
  names : ∀ e ∈ cmd.envSubset, '=' ∉ e.1.toList

def entryText (e : String × String) : List Char := e.1.toList ++ '=' :: e.2.toList

def timeText (cmd : KeyedCommand) : List Char :=
  terminated '\x00' (cmd.argv.map String.toList) ++ '\x01' ::
    (cmd.cwd.toList ++ '\x01' :: terminated '\x00' ((sortedEnv cmd.envSubset).map entryText))

theorem encodeUtf8_injective : Function.Injective encodeUtf8 := by
  intro cs cs' h
  have hd := congrArg decodeUtf8 h
  rw [decodeUtf8_encodeUtf8, decodeUtf8_encodeUtf8] at hd
  exact Option.some_inj.mp hd

theorem encodeUtf8_terminated (ws : List (List Char)) :
    encodeUtf8 (terminated '\x00' ws) = ws.flatMap fun w => encodeUtf8 w ++ [0x00] := by
  unfold terminated encodeUtf8
  rw [flatMap_assoc]
  refine congrArg (flatMap · ws) ?_
  funext w
  exact encodeUtf8_append w ['\x00']

theorem hashEnvSubset_eq (env : List (String × String)) :
    hashEnvSubset env = encodeUtf8 (terminated '\x00' ((sortedEnv env).map entryText)) := by
  rw [encodeUtf8_terminated, flatMap_map, hashEnvSubset]
  refine congrArg (flatMap · (sortedEnv env)) ?_
  funext e
  have he : encodeUtf8 (entryText e) =
      encodeUtf8 e.1.toList ++ (encodeUtf8 ['='] ++ encodeUtf8 e.2.toList) := by
    rw [entryText, ← singleton_append, encodeUtf8_append, encodeUtf8_append]
  have heq : encodeUtf8 ['='] = [0x3d] := rfl
  rw [he, heq, ← append_assoc]

theorem hashArgv_eq (argv : List String) :
    hashArgv argv = encodeUtf8 (terminated '\x00' (argv.map String.toList)) := by
  rw [encodeUtf8_terminated, flatMap_map, hashArgv]

theorem encodeUtf8_one (cs : List Char) : encodeUtf8 ('\x01' :: cs) = 0x01 :: encodeUtf8 cs :=
  encodeUtf8_append ['\x01'] cs

theorem hasherInput_time (git : String → GitOutputs) (cmd : KeyedCommand) :
    hasherInput git .time cmd = encodeUtf8 (timeText cmd) := by
  rw [hasherInput, hashArgv_eq, hashEnvSubset_eq, timeText, encodeUtf8_append, encodeUtf8_one, encodeUtf8_append,
    encodeUtf8_one]
  simp

theorem map_entryText_inj {env env' : List (String × String)} (hn : ∀ e ∈ env, '=' ∉ e.1.toList)
    (hn' : ∀ e ∈ env', '=' ∉ e.1.toList) (h : env.map entryText = env'.map entryText) : env = env' := by
  induction env generalizing env' with
  | nil => exact (map_eq_nil_iff.mp h.symm).symm
  | cons e env ih =>
    cases env' with
    | nil => cases h
    | cons e' env' =>
      obtain ⟨hnm, hl⟩ := forall_mem_cons.mp hn
      obtain ⟨hnm', hl'⟩ := forall_mem_cons.mp hn'
      obtain ⟨hen, hrest⟩ := cons.inj h
      obtain ⟨hk, hv⟩ := append_sep_inj hnm hnm' hen
      have he : e = e' := Prod.ext (String.toList_inj.mp hk) (String.toList_inj.mp hv)
      rw [he, ih hl hl' hrest]

def IsArgument (word : List Char) : Prop := '\x00' ∉ word ∧ word.head? ≠ some '\x01'

variable {cmd : KeyedCommand}

theorem KeyedCommand.isArgument (hn : cmd.NulFree) (h : cmd.Unambiguous) :
    ∀ w ∈ cmd.argv.map String.toList, IsArgument w := by
  intro w hw
  obtain ⟨arg, ha, rfl⟩ := mem_map.mp hw
  exact ⟨hn.argv arg ha, h.argv arg ha⟩

theorem ne_argument (rs w after : List Char) (hw : IsArgument w) : '\x01' :: rs ≠ w ++ '\x00' :: after := by
  intro h
  cases w with
  | nil => exact absurd (cons.inj h).1 (by decide)
  | cons c w =>
    cases h
    exact hw.2 rfl

theorem KeyedCommand.nul_not_mem_entries (hn : cmd.NulFree) :
    ∀ w ∈ (sortedEnv cmd.envSubset).map entryText, '\x00' ∉ w := by
  intro w hw
  obtain ⟨e, he, rfl⟩ := mem_map.mp hw
  obtain ⟨hk, hv⟩ := hn.env e (sortedEnv_perm.mem_iff.mp he)
  simp [entryText, hk, hv]

theorem timeText_inj {cmd' : KeyedCommand} (hn : cmd.NulFree) (hn' : cmd'.NulFree)
    (hc : cmd.Unambiguous) (hc' : cmd'.Unambiguous) (h : timeText cmd = timeText cmd') :
    cmd.argv = cmd'.argv ∧ cmd.cwd = cmd'.cwd ∧ sortedEnv cmd.envSubset = sortedEnv cmd'.envSubset := by
  obtain ⟨ha, hrest⟩ := terminated_append_inj IsArgument (fun _ hw => hw.1)
    (isArgument hn hc) (isArgument hn' hc')
    (ne_argument _) (ne_argument _) h
  obtain ⟨hcw, hev⟩ := append_sep_inj hc.cwd hc'.cwd (cons.inj hrest).2
  have hen := terminated_inj (nul_not_mem_entries hn) (nul_not_mem_entries hn') hev
  refine ⟨map_injective_iff.mpr (fun _ _ => String.toList_inj.mp) ha, String.toList_inj.mp hcw, ?_⟩
  refine map_entryText_inj ?_ ?_ hen
  · intro e he
    exact hc.names e (sortedEnv_perm.mem_iff.mp he)
  · intro e he
    exact hc'.names e (sortedEnv_perm.mem_iff.mp he)

/-- Without an environment the text ends with the directory, which is then behind the last NUL. -/
theorem timeText_inj_of_nil {cmd' : KeyedCommand} (hn : cmd.NulFree) (hn' : cmd'.NulFree)
    (he : cmd.envSubset = []) (h : timeText cmd = timeText cmd') :
    cmd.argv = cmd'.argv ∧ cmd.cwd = cmd'.cwd ∧ sortedEnv cmd.envSubset = sortedEnv cmd'.envSubset := by
  have hs : sortedEnv cmd.envSubset = [] := by simp [he, sortedEnv]
  have hs' : sortedEnv cmd'.envSubset = [] := by
    rcases eq_nil_or_concat (sortedEnv cmd'.envSubset) with hnil | ⟨es, e, hes⟩
    · exact hnil
    · have hl : timeText cmd =
          (terminated '\x00' (cmd.argv.map String.toList) ++ '\x01' :: cmd.cwd.toList) ++ ['\x01'] := by
        simp [timeText, hs, terminated]
      have hl' : timeText cmd' = (terminated '\x00' (cmd'.argv.map String.toList) ++ '\x01' ::
          (cmd'.cwd.toList ++ '\x01' :: (terminated '\x00' (es.map entryText) ++ entryText e))) ++ ['\x00'] := by
        simp [timeText, hes, terminated]
      rw [hl, hl'] at h
      exact absurd (append_inj' h rfl).2 (by decide)
  rw [timeText, timeText, hs, hs'] at h
  have hrest {cwd : String} (hc : '\x00' ∉ cwd.toList) (w after : List Char) (_ : '\x00' ∉ w) :
      '\x01' :: (cwd.toList ++ '\x01' :: terminated '\x00' (([] : List (String × String)).map entryText)) ≠
        w ++ '\x00' :: after := by
    intro heq
    have hm := heq.symm ▸ mem_append_right w (mem_cons_self (a := '\x00') (l := after))
    simp [terminated, hc] at hm
  have hnul {cmd : KeyedCommand} (hn : cmd.NulFree) : ∀ w ∈ cmd.argv.map String.toList, '\x00' ∉ w := by
    intro w hw
    obtain ⟨arg, ha, rfl⟩ := mem_map.mp hw
    exact hn.argv arg ha
  obtain ⟨ha, hd⟩ := terminated_append_inj (fun w => '\x00' ∉ w) (fun _ hw => hw) (hnul hn) (hnul hn')
    (hrest hn.cwd) (hrest hn'.cwd) h
  have hcwd := append_cancel_right (cons.inj hd).2
  exact ⟨map_injective_iff.mpr (fun _ _ => String.toList_inj.mp) ha, String.toList_inj.mp hcwd, by rw [hs, hs']⟩

/-- Commands that can be read back and share a key agree in all that a child gets to see. -/
theorem command_key_sound {sha256 : List UInt8 → List UInt8} (hsha : Function.Injective sha256)
    (git : String → GitOutputs) :
    (∀ command command' : KeyedCommand, command.NulFree → command'.NulFree →
      (command.Unambiguous ∧ command'.Unambiguous ∨ command.envSubset = []) →
      commandKey sha256 git command = commandKey sha256 git command' →
      command.argv = command'.argv ∧ command.cwd = command'.cwd ∧
        effectiveEnv command.envSubset = effectiveEnv command'.envSubset) ∧
    ∀ (command : KeyedCommand) (env : List (String × String)),
      (command.envSubset.map Prod.fst).Nodup → command.envSubset.Perm env →
      commandKey sha256 git { command with envSubset := env } = commandKey sha256 git command := by
  constructor
  · intro command command' hnl hnl' hc hk
    have hi := hsha (hexEncode_injective (CommandKey.mk.inj hk))
    rw [hasherInput_time, hasherInput_time] at hi
    have ht := encodeUtf8_injective hi
    obtain ⟨ha, hcw, hev⟩ : command.argv = command'.argv ∧ command.cwd = command'.cwd ∧
        sortedEnv command.envSubset = sortedEnv command'.envSubset := by
      rcases hc with ⟨hc, hc'⟩ | he
      · exact timeText_inj hnl hnl' hc hc' ht
      · exact timeText_inj_of_nil hnl hnl' he ht
    exact ⟨ha, hcw, effectiveEnv_eq_of_sortedEnv_eq hev⟩
  · intro command env hn hp
    have hev := sortedEnv_eq_of_perm hn hp
    simp only [commandKey, commandKeyWithMode, hasherInput, hashEnvSubset, hev]

theorem command_key_sound_make : Function.Injective (id : List UInt8 → List UInt8) ∧
    commandKey id (fun _ => ⟨none, none⟩) ⟨["make"], "/w", [("B", "2"), ("A", "1")]⟩ =
      commandKey id (fun _ => ⟨none, none⟩) ⟨["make"], "/w", [("A", "1"), ("B", "2")]⟩ ∧
    effectiveEnv [("B", "2"), ("A", "1")] = effectiveEnv [("A", "1"), ("B", "2")] := by
  have hs := command_key_sound Function.injective_id fun _ => ⟨none, none⟩
  have hk := hs.2 ⟨["make"], "/w", [("A", "1"), ("B", "2")]⟩ [("B", "2"), ("A", "1")] (by decide)
    (Perm.swap _ _ _)
  refine ⟨Function.injective_id, hk, (hs.1 _ _ ?_ ?_ (.inl ⟨?_, ?_⟩) hk).2.2⟩ <;>
    exact ⟨by decide, by decide, by decide⟩

/-- The character 1 in a working directory is taken for the end of the directory. -/
theorem keys_collide : ∃ command command' : KeyedCommand, command.NulFree ∧ command'.NulFree ∧
      (∀ sha256 git, commandKey sha256 git command = commandKey sha256 git command') ∧
      command.cwd ≠ command'.cwd ∧
      effectiveEnv command.envSubset "K" ≠ effectiveEnv command'.envSubset "K" := by
  refine ⟨⟨["make"], "/a\x01b", [("K", "V")]⟩, ⟨["make"], "/a", [("b\x01K", "V")]⟩, ?_, ?_, ?_, ?_, ?_⟩
  · exact ⟨by decide, by decide, by decide⟩
  · exact ⟨by decide, by decide, by decide⟩
  · intro sha256 git
    have ht : timeText ⟨["make"], "/a\x01b", [("K", "V")]⟩ =
        timeText ⟨["make"], "/a", [("b\x01K", "V")]⟩ := by
      simp only [timeText, sortedEnv, mergeSort_singleton]
      decide
    rw [commandKey, commandKeyWithMode, hasherInput_time, ht, ← hasherInput_time git]
    rfl
  · decide
  · decide

/-! ### The other modes -/

def gitText (git : String → GitOutputs) (cmd : KeyedCommand) : List Char :=
  terminated '\x00' (cmd.argv.map String.toList) ++ '\x01' ::
    (cmd.cwd.toList ++ '\x01' :: (gitFingerprint (git cmd.cwd)).toList)

theorem hasherInput_git (git : String → GitOutputs) (cmd : KeyedCommand) :
    hasherInput git .git cmd = encodeUtf8 (gitText git cmd) := by
  rw [hasherInput, hashArgv_eq, gitText, encodeUtf8_append, encodeUtf8_one, encodeUtf8_append, encodeUtf8_one]
  simp

theorem key_eq_iff {sha256 : List UInt8 → List UInt8} (hsha : Function.Injective sha256)
    {git git' : String → GitOutputs} {m m' : CacheKeyMode} {cmd cmd' : KeyedCommand} {cs cs' : List Char}
    (h : hasherInput git m cmd = encodeUtf8 cs) (h' : hasherInput git' m' cmd' = encodeUtf8 cs') :
    commandKeyWithMode sha256 git m cmd = commandKeyWithMode sha256 git' m' cmd' ↔ cs = cs' := by
  rw [commandKeyWithMode, commandKeyWithMode, CommandKey.mk.injEq, hexEncode_injective.eq_iff, hsha.eq_iff, h, h',
    encodeUtf8_injective.eq_iff]

/-- **What the keys of the modes `args` and `git` stand for**, between any two states of the repositories: the
arguments alone; or the arguments, the directory and what git prints there. A key of one is none of the other. -/
theorem mode_keys_exact {sha256 : List UInt8 → List UInt8} (hsha : Function.Injective sha256)
    (git git' : String → GitOutputs) (command command' : KeyedCommand)
    (hargv : ∀ word ∈ command.argv.map String.toList, IsArgument word)
    (hargv' : ∀ word ∈ command'.argv.map String.toList, IsArgument word) :
    (commandKeyWithMode sha256 git .args command = commandKeyWithMode sha256 git' .args command' ↔
      command.argv = command'.argv) ∧
    (commandKeyWithMode sha256 git .args command ≠ commandKeyWithMode sha256 git' .git command') ∧
    ('\x01' ∉ command.cwd.toList → '\x01' ∉ command'.cwd.toList →
      (commandKeyWithMode sha256 git .git command = commandKeyWithMode sha256 git' .git command' ↔
        command.argv = command'.argv ∧ command.cwd = command'.cwd ∧
          gitFingerprint (git command.cwd) = gitFingerprint (git' command'.cwd))) := by
  have hinj : Function.Injective (map String.toList) := map_injective_iff.mpr fun _ _ => String.toList_inj.mp
  have ha (git : String → GitOutputs) (cmd : KeyedCommand) :
      hasherInput git .args cmd = encodeUtf8 (terminated '\x00' (cmd.argv.map String.toList)) := by
    rw [hasherInput, hashArgv_eq, append_nil]
  have hnil (w after : List Char) (_ : IsArgument w) : ([] : List Char) ≠ w ++ '\x00' :: after := by simp
  refine ⟨?_, ?_, fun hcw hcw' => ?_⟩
  · rw [key_eq_iff hsha (ha git command) (ha git' command')]
    constructor
    · intro h
      exact hinj (terminated_inj (fun w hw => (hargv w hw).1) (fun w hw => (hargv' w hw).1) h)
    · intro h
      rw [h]
  · rw [Ne, key_eq_iff hsha (ha git command) (hasherInput_git git' command'), gitText]
    intro h
    have hrest := (terminated_append_inj IsArgument (fun _ hw => hw.1) hargv hargv' hnil (ne_argument _)
      ((append_nil _).trans h)).2
    cases hrest
  · rw [key_eq_iff hsha (hasherInput_git git command) (hasherInput_git git' command'), gitText, gitText]
    constructor
    · intro h
      obtain ⟨hav, hrest⟩ := terminated_append_inj IsArgument (fun _ hw => hw.1) hargv hargv' (ne_argument _)
        (ne_argument _) h
      obtain ⟨hd, hf⟩ := append_sep_inj hcw hcw' (cons.inj hrest).2
      exact ⟨hinj hav, String.toList_inj.mp hd, String.toList_inj.mp hf⟩
    · rintro ⟨hav, hd, hf⟩
      rw [hav, hf, hd]

theorem mode_keys_exact_make :
    let key := commandKeyWithMode id (fun _ => ⟨some " M a", some "0f"⟩)
    key .args ⟨["make"], "/v", [("K", "V")]⟩ = key .args ⟨["make"], "/w", []⟩ ∧
      key .git ⟨["make"], "/v", [("K", "V")]⟩ ≠ key .git ⟨["make"], "/w", []⟩ := by
  have hw : ∀ word ∈ ["make"].map String.toList, IsArgument word := by
    unfold IsArgument
    decide
  obtain ⟨ha, -, hg⟩ := mode_keys_exact Function.injective_id (fun _ => ⟨some " M a", some "0f"⟩)
    (fun _ => ⟨some " M a", some "0f"⟩) ⟨["make"], "/v", [("K", "V")]⟩ ⟨["make"], "/w", []⟩ hw hw
  refine ⟨ha.mpr rfl, fun h => ?_⟩
  exact absurd ((hg (by decide) (by decide)).mp h).2.1 (by decide)

end ShareCli.Ipc
