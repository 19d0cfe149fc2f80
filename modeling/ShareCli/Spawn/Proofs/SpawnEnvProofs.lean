import ShareCli.Foundation.Overlay
import ShareCli.Spawn.SpawnEnv

/-!
# Children see their own overrides only if calls do not overlap

As long as at most one thread is between its first step and its last, it leaves the environment as it found it.
-/

namespace ShareCli.Spawn

open Foundation Option List

namespace Env

def plus (env : Env) (ovs : List (List Char × List Char)) : Env :=
  overlay env (ovs.map fun o => (o.1, Text.encodeUtf8 o.2))

/-- The variable is not set, or its value is Unicode: what is read is what is there. -/
def Restorable (env : Env) (key : List Char) : Prop := (env.var key).map Text.encodeUtf8 = env key
deriving Decidable

variable {env : Env} {ovs : List (List Char × List Char)} {o : List Char × List Char} {key : List Char}

@[simp] theorem plus_nil : env.plus [] = env := rfl

theorem plus_concat : env.plus (ovs ++ [o]) = (env.plus ovs).setVar o.1 o.2 := by
  rw [plus, map_append]
  exact overlay_concat

theorem plus_of_not_mem (h : key ∉ ovs.map Prod.fst) : env.plus ovs key = env key := by
  refine overlay_of_not_mem ?_
  rw [List.map_map]
  exact h

theorem plus_restore (h : o.1 ∉ ovs.map Prod.fst) :
    Function.update (env.plus (o :: ovs)) o.1 (env o.1) = env.plus ovs := by
  refine overlay_restore (o := (o.1, Text.encodeUtf8 o.2)) ?_
  rw [List.map_map]
  exact h

end Env

theorem EnvGuard.drop_eq (gd : EnvGuard) (env : Env) :
    gd.drop env = Function.update env gd.key (gd.prev.map Text.encodeUtf8) := by
  unfold EnvGuard.drop
  cases gd.prev with
  | none => rfl
  | some v => rfl

def savedFrom (init : Env) (o : List Char × List Char) : EnvGuard := ⟨o.1, init.var o.1⟩

/-- The environment is the initial one but for the overrides in `made`, for each of which there is a guard. -/
structure Overridden (init env : Env) (guards : List EnvGuard) (made : List (List Char × List Char)) : Prop where
  guards_eq : guards = made.map (savedFrom init)
  restorable : ∀ o ∈ made, init.Restorable o.1
  env_eq : env = init.plus made

namespace Overridden

variable {init env : Env} {g : List EnvGuard} {m : List (List Char × List Char)}
  {o : List Char × List Char}

theorem nil (init : Env) : Overridden init init [] [] := ⟨rfl, fun _ h => absurd h not_mem_nil, rfl⟩

theorem apply_eq (h : Overridden init env g m) (hk : o.1 ∉ m.map Prod.fst) : env o.1 = init o.1 := by
  rw [h.env_eq, Env.plus_of_not_mem hk]

theorem set (h : Overridden init env g m) (hr : init.Restorable o.1) :
    Overridden init (env.setVar o.1 o.2) (g ++ [⟨o.1, init.var o.1⟩]) (m ++ [o]) := by
  refine ⟨?_, fun o' ho' => ?_, ?_⟩
  · rw [h.guards_eq, map_append]
    rfl
  · rcases mem_append.mp ho' with ho' | ho'
    · exact h.restorable o' ho'
    · rw [mem_singleton.mp ho']
      exact hr
  · rw [h.env_eq, Env.plus_concat]

theorem restore {gd : EnvGuard} (h : Overridden init env (gd :: g) m) (hk : (m.map Prod.fst).Nodup) :
    ∃ rs, (rs.map Prod.fst).Nodup ∧ Overridden init (gd.drop env) g rs := by
  obtain ⟨hg, hr, he⟩ := h
  cases m with
  | nil => cases hg
  | cons o rs =>
    obtain ⟨hgr, hrest⟩ := cons.inj hg
    rw [map_cons, nodup_cons] at hk
    refine ⟨rs, hk.2, hrest, fun o' ho' => hr o' (mem_cons_of_mem o ho'), ?_⟩
    have hv : gd.prev.map Text.encodeUtf8 = init o.1 := by
      rw [hgr]
      exact hr o mem_cons_self
    have hky : gd.key = o.1 := by rw [hgr]; rfl
    rw [EnvGuard.drop_eq, hv, hky, he, Env.plus_restore hk.1]

end Overridden

variable {init env env' : Env} {call c' : SpawnCall}

/-- Where a call is, if no other thread has touched the environment. -/
def At (init env : Env) (call : SpawnCall) : Prop :=
  match call.phase with
  | .saving todo => ∃ m, call.overrides = m ++ todo ∧ Overridden init env call.guards m
  | .setting prev next todo => ∃ m, call.overrides = m ++ next :: todo ∧
      prev = init.var next.1 ∧ init.Restorable next.1 ∧ Overridden init env call.guards m
  | .restoring g => ∃ m, (m.map Prod.fst).Nodup ∧ Overridden init env g m

structure Sound (init : Env) (call : SpawnCall) : Prop where
  keys : (call.overrides.map Prod.fst).Nodup
  fresh : call.phase = .saving call.overrides → call.guards = []
  child : ∀ child, call.child = some child → child = init.plus call.overrides

theorem outside_iff : call.outside ↔ call.phase = .restoring [] ∨ call.phase = .saving call.overrides := by
  simp [SpawnCall.outside, SpawnCall.finished]

theorem At.of_outside (hs : Sound init call) (h : call.outside) : At init init call := by
  rcases outside_iff.mp h with hp | hp
  · rw [At, hp]
    exact ⟨[], nodup_nil, Overridden.nil init⟩
  · rw [At, hp]
    refine ⟨[], rfl, ?_⟩
    rw [hs.fresh hp]
    exact Overridden.nil init

theorem At.eq_of_outside (hat : At init env call) (h : call.outside) : env = init := by
  rcases outside_iff.mp h with hp | hp
  · rw [At, hp] at hat
    obtain ⟨m, -, hm⟩ := hat
    obtain rfl : m = [] := map_eq_nil_iff.mp hm.guards_eq.symm
    exact hm.env_eq
  · rw [At, hp] at hat
    obtain ⟨m, ha, hm⟩ := hat
    obtain rfl : m = [] := self_eq_append_left.mp ha
    exact hm.env_eq

theorem At.fresh (hat : At init env call) (h : call.phase = .saving call.overrides) : call.guards = [] := by
  rw [At, h] at hat
  obtain ⟨m, ha, hm⟩ := hat
  obtain rfl : m = [] := self_eq_append_left.mp ha
  exact hm.guards_eq

def SpawnCall.savesNext (call : SpawnCall) : Option (List Char) :=
  match call.phase with
  | .saving (next :: _) => some next.1
  | _ => none

theorem At.proceed (hs : Sound init call) (hat : At init env call)
    (hsv : ∀ key ∈ call.savesNext, env.Restorable key) (hstep : call.proceed env = some (c', env')) :
    At init env' c' ∧ c'.overrides = call.overrides ∧
      ∀ ch, c'.child = some ch → ch = init.plus c'.overrides := by
  unfold SpawnCall.proceed at hstep
  unfold At at hat
  split at hstep
  · rename_i hp
    cases hstep
    rw [hp] at hat
    obtain ⟨m, ha, hm⟩ := hat
    rw [append_nil] at ha
    refine ⟨⟨m, ha ▸ hs.keys, hm⟩, rfl, fun ch hc => ?_⟩
    obtain rfl : env = ch := some_inj.mp hc
    rw [ha]
    exact hm.env_eq
  · rename_i next todo hp
    cases hstep
    rw [hp] at hat
    obtain ⟨m, ha, hm⟩ := hat
    -- The keys differ, so the variable still has its initial value.
    have hky : next.1 ∉ m.map Prod.fst := by
      have hk := hs.keys
      rw [ha, map_append, nodup_append] at hk
      exact fun hme => hk.2.2 next.1 hme next.1 mem_cons_self rfl
    have hv : env next.1 = init next.1 := hm.apply_eq hky
    have hvr : env.var next.1 = init.var next.1 := by rw [Env.var, Env.var, hv]
    have hr : init.Restorable next.1 := by
      have hn := hsv next.1 (by rw [SpawnCall.savesNext, hp]; rfl)
      rw [Env.Restorable, hvr, hv] at hn
      exact hn
    exact ⟨⟨m, ha, hvr, hr, hm⟩, rfl, hs.child⟩
  · rename_i previous next todo hp
    cases hstep
    rw [hp] at hat
    obtain ⟨m, ha, rfl, hr, hm⟩ := hat
    refine ⟨⟨m ++ [next], ?_, hm.set hr⟩, rfl, hs.child⟩
    rw [append_assoc]
    exact ha
  · cases hstep
  · rename_i gd g hp
    cases hstep
    rw [hp] at hat
    obtain ⟨m, hk, hm⟩ := hat
    exact ⟨hm.restore hk, rfl, hs.child⟩

theorem At.fail (hs : Sound init call) (hat : At init env call) (hstep : call.fail = some c') :
    At init env c' ∧ c'.overrides = call.overrides ∧ c'.child = call.child := by
  unfold SpawnCall.fail at hstep
  split_ifs at hstep with hp
  cases hstep
  rw [At, hp] at hat
  obtain ⟨m, ha, hm⟩ := hat
  rw [append_nil] at ha
  exact ⟨⟨m, ha ▸ hs.keys, hm⟩, rfl, rfl⟩

variable {s s' : SpawnState} {pool : ProcessPool}

/-- Only the thread of `owner` may be between its first and its last step. -/
structure Owned (init : Env) (s : SpawnState) (owner : Nat) : Prop where
  others : ∀ (j : Nat) call, j ≠ owner → s.calls[j]? = some call → call.outside
  here : ∀ call, s.calls[owner]? = some call → At init s.env call
  nobody : s.calls[owner]? = none → s.env = init

structure Isolated (init : Env) (s : SpawnState) : Prop where
  sound : ∀ call ∈ s.calls, Sound init call
  owned : ∃ owner, Owned init s owner

theorem Isolated.env_eq (h : Isolated init s) (ha : ∀ call ∈ s.calls, call.outside) : s.env = init := by
  obtain ⟨owner, ho⟩ := h.owned
  cases how : s.calls[owner]? with
  | none => exact ho.nobody how
  | some call => exact (ho.here call how).eq_of_outside (ha call (mem_of_getElem? how))

def SpawnState.othersOutside (s : SpawnState) (i : Nat) : Bool := (s.calls.eraseIdx i).all SpawnCall.outside

variable {i : Nat}

theorem outside_of_others {j : Nat} (h : s.othersOutside i) (hj : j ≠ i)
    (hg : s.calls[j]? = some call) : call.outside :=
  all_eq_true.mp h call (mem_eraseIdx_iff_getElem?.mpr ⟨j, hj, hg⟩)

/-- A thread begins only while no other is between its first and its last step, and a variable is overridden only
if its value can be put back. -/
def InTurn (s : SpawnState) : SpawnEvent → Prop
  | .spawn _ => True
  | .proceed i => ∀ call ∈ s.calls[i]?,
      (call.outside → s.othersOutside i) ∧ ∀ key ∈ call.savesNext, s.env.Restorable key
  | .fail i => ∀ call ∈ s.calls[i]?, call.outside → s.othersOutside i

instance : ∀ s event, Decidable (InTurn s event)
  | _, .spawn _ => isTrue trivial
  | s, .proceed i => inferInstanceAs (Decidable (∀ call ∈ s.calls[i]?,
      (call.outside → s.othersOutside i) ∧ ∀ key ∈ call.savesNext, s.env.Restorable key))
  | s, .fail i => inferInstanceAs (Decidable (∀ call ∈ s.calls[i]?, call.outside → s.othersOutside i))

theorem Isolated.turn (h : Isolated init s) (hg : s.calls[index]? = some call)
    (ht : call.outside → s.othersOutside index) :
    At init s.env call ∧ ∀ (j : Nat) o, j ≠ index → s.calls[j]? = some o → o.outside := by
  obtain ⟨owner, ho⟩ := h.owned
  by_cases how : index = owner
  · subst how
    exact ⟨ho.here call hg, ho.others⟩
  · have hou := ho.others index call how hg
    have hot : ∀ (j : Nat) o, j ≠ index → s.calls[j]? = some o → o.outside :=
      fun j o hj hoh => outside_of_others (ht hou) hj hoh
    have ha : ∀ o ∈ s.calls, o.outside := by
      intro o hme
      obtain ⟨j, hj⟩ := getElem?_of_mem hme
      by_cases hs : j = index
      · subst hs
        obtain rfl : call = o := some_inj.mp (hg ▸ hj)
        exact hou
      · exact hot j o hs hj
    rw [h.env_eq ha]
    exact ⟨At.of_outside (h.sound call (mem_of_getElem? hg)) hou, hot⟩

theorem Isolated.setCall (h : Isolated init s) (hg : s.calls[index]? = some call)
    (hot : ∀ (j : Nat) o, j ≠ index → s.calls[j]? = some o → o.outside)
    (hat : At init env' c') (ho : c'.overrides = call.overrides)
    (hc : ∀ ch, c'.child = some ch → ch = init.plus c'.overrides) :
    Isolated init { env := env', calls := s.calls.set index c' } := by
  obtain ⟨hlt, -⟩ := List.getElem?_eq_some_iff.mp hg
  have hs : Sound init c' := by
    refine ⟨?_, hat.fresh, hc⟩
    rw [ho]
    exact (h.sound call (mem_of_getElem? hg)).keys
  refine ⟨fun o hme => ?_, index, ?_, ?_, ?_⟩
  · rcases mem_or_eq_of_mem_set hme with hme | rfl
    · exact h.sound o hme
    · exact hs
  · intro j o hj hoh
    rcases getElem?_set_cases hoh with ⟨heq, -⟩ | ⟨-, hoh⟩
    · exact absurd heq.symm hj
    · exact hot j o hj hoh
  · intro o hoh
    rcases getElem?_set_cases hoh with ⟨-, rfl⟩ | ⟨hne, -⟩
    · exact hat
    · exact absurd rfl hne
  · intro hn
    rw [getElem?_set_self hlt] at hn
    cases hn

theorem nodup_extraEnv (req : SpawnRequest) (env : Env) : ((pool.extraEnv req env).map Prod.fst).Nodup := by
  have ht : ∀ o ∈ traceparentSpawnEnv pool.platform req.context env, o.1 = "TRACEPARENT".toList := by
    intro o ho
    unfold traceparentSpawnEnv at ho
    split at ho
    · cases ho
    · split at ho
      · cases ho
        rfl
      · obtain ⟨v, -, rfl⟩ := map_eq_some_iff.mp ho
        rfl
  unfold ProcessPool.extraEnv
  cases htr : traceparentSpawnEnv pool.platform req.context env with
  | none =>
    cases pool.policyFor req with
    | none => exact nodup_nil
    | some c =>
      simp only [elim_some, toList_none, append_nil, buildEnvOverrides]
      split_ifs <;> simp
  | some o =>
    have hk := ht o htr
    cases pool.policyFor req with
    | none => simp
    | some c =>
      simp only [elim_some, toList_some, buildEnvOverrides]
      split_ifs <;> simp [hk]

theorem Isolated.spawn (h : Isolated init s) (hs : Sound init call) (hou : call.outside) :
    Isolated init { s with calls := s.calls ++ [call] } := by
  obtain ⟨owner, ho⟩ := h.owned
  have hnw : ∀ (j : Nat) o, (s.calls ++ [call])[j]? = some o →
      s.calls[j]? = some o ∨ (s.calls[j]? = none ∧ o = call) := by
    intro j o hoh
    by_cases hj : j < s.calls.length
    · rw [getElem?_append_left hj] at hoh
      exact .inl hoh
    · have hn : s.calls[j]? = none := getElem?_eq_none_iff.mpr (by omega)
      rw [getElem?_append_right (by omega)] at hoh
      have hme := mem_of_getElem? hoh
      exact .inr ⟨hn, mem_singleton.mp hme⟩
  refine ⟨fun o hme => ?_, owner, ?_, ?_, ?_⟩
  · rcases mem_append.mp hme with hme | hme
    · exact h.sound o hme
    · rw [mem_singleton.mp hme]
      exact hs
  · intro j o hj hoh
    rcases hnw j o hoh with hold | ⟨-, rfl⟩
    · exact ho.others j o hj hold
    · exact hou
  · intro o hoh
    rcases hnw owner o hoh with hold | ⟨hn, rfl⟩
    · exact ho.here o hold
    · rw [show s.env = init from ho.nobody hn]
      exact At.of_outside hs hou
  · intro hn
    refine ho.nobody (getElem?_eq_none_iff.mpr ?_)
    have hl := getElem?_eq_none_iff.mp hn
    rw [length_append] at hl
    omega

theorem Isolated.step (h : Isolated init s) {ev : SpawnEvent} (ht : InTurn s ev)
    (hstep : s.step pool ev = some s') : Isolated init s' := by
  cases ev with
  | spawn req =>
    simp only [SpawnState.step, ite_none_right_eq_some, some_inj] at hstep
    obtain ⟨-, rfl⟩ := hstep
    refine h.spawn ⟨nodup_extraEnv req s.env, fun _ => rfl, fun ch hc => ?_⟩ ?_
    · cases hc
    · exact outside_iff.mpr (.inr rfl)
  | proceed i =>
    obtain ⟨call, hg, hstep⟩ := bind_eq_some_iff.mp hstep
    obtain ⟨⟨c', env'⟩, hp, rfl⟩ := map_eq_some_iff.mp hstep
    obtain ⟨hb, hsv⟩ := ht call hg
    obtain ⟨hat, hot⟩ := h.turn hg hb
    obtain ⟨hat', ho, hc⟩ := hat.proceed (h.sound call (mem_of_getElem? hg)) hsv hp
    exact h.setCall hg hot hat' ho hc
  | fail i =>
    obtain ⟨call, hg, hstep⟩ := bind_eq_some_iff.mp hstep
    obtain ⟨c', hf, rfl⟩ := map_eq_some_iff.mp hstep
    obtain ⟨hat, hot⟩ := h.turn hg (ht call hg)
    have hs := h.sound call (mem_of_getElem? hg)
    obtain ⟨hat', ho, hc⟩ := hat.fail hs hf
    refine h.setCall hg hot hat' ho ?_
    rw [hc, ho]
    exact hs.child

/-- **Calls that take turns.** Every child is started with the initial environment and the overrides of its own
call, and in the end the environment is the initial one. -/
theorem env_isolated_in_turn (pool : ProcessPool) (initial : Env) (s : SpawnState)
    (hs : (spawns pool initial).ReachableWhen InTurn s) :
    (∀ call ∈ s.calls, ∀ child, call.child = some child → child = initial.plus call.overrides) ∧
    ((∀ call ∈ s.calls, call.finished) → s.env = initial) := by
  have hi : Isolated initial s := by
    refine Machine.invariantWhen (M := spawns pool initial) ?_ ?_ hs
    · refine ⟨fun call h => absurd h not_mem_nil, 0, ?_, ?_, fun _ => rfl⟩
      · intro j call _ h
        cases h
      · intro call h
        cases h
    · intro s ev s' h ht hstep
      exact h.step ht hstep
  refine ⟨fun call hme => (hi.sound call hme).child, fun ha => ?_⟩
  exact hi.env_eq fun call hme => outside_iff.mpr (.inl (of_decide_eq_true (ha call hme)))

def defaultPool : ProcessPool where
  platform := { toStringLossy := fun _ => [], hasSccache := fun _ => false }
  spawnPolicy := some { maxConcurrentBuilds := 2, useSccache := false }

def cargoBuild : SpawnRequest := { cmd := "cargo".toList, harness := none, context := none }

theorem builds_in_turn : ∃ s, (spawns defaultPool fun _ => none).ReachableWhen InTurn s ∧ s.calls.length = 2 ∧
    (∀ call ∈ s.calls, call.finished ∧ call.child = some (Env.plus (fun _ => none) call.overrides)) ∧
    s.env = fun _ => none := by
  obtain ⟨s, ht, hl, he⟩ : ∃ s, (spawns defaultPool fun _ => none).ReachableWhen InTurn s ∧
      s.calls.length = 2 ∧ ∀ call ∈ s.calls, call.finished = true ∧ call.child.isSome = true :=
    Machine.exists_reachable ([.spawn cargoBuild, .spawn cargoBuild] ++ replicate 4 (.proceed 0) ++
      replicate 4 (.proceed 1)) (by decide +kernel)
  obtain ⟨hc, hen⟩ := env_isolated_in_turn defaultPool (fun _ => none) s ht
  refine ⟨s, ht, hl, fun call hme => ⟨(he call hme).1, ?_⟩, ?_⟩
  · obtain ⟨child, heq⟩ := isSome_iff_exists.mp (he call hme).2
    rw [heq, hc call hme child heq]
  · exact hen fun call hme => (he call hme).1

/-- The first build removes the override of the second before the child of the second is started. -/
theorem builds_overlap : ∃ s call child, (spawns defaultPool fun _ => none).Reachable s ∧
    (∀ call ∈ s.calls, call.finished) ∧ call ∈ s.calls ∧ call.child = some child ∧
    ("CARGO_BUILD_JOBS".toList, ['2']) ∈ call.overrides ∧ child "CARGO_BUILD_JOBS".toList = none ∧
    child ≠ Env.plus (fun _ => none) call.overrides ∧ s.env ≠ fun _ => none := by
  obtain ⟨s, hs, ha, he, call, hg, ho, hr⟩ :
      ∃ s, (spawns defaultPool fun _ => none).Reachable s ∧ (∀ call ∈ s.calls, call.finished = true) ∧
        s.env "CARGO_BUILD_JOBS".toList = some [50] ∧
        ∃ call ∈ s.calls[1]?, call.overrides = [("CARGO_BUILD_JOBS".toList, ['2'])] ∧
          call.child.map (fun env => env "CARGO_BUILD_JOBS".toList) = some none :=
    Machine.exists_reachable [.spawn cargoBuild, .spawn cargoBuild, .proceed 0, .proceed 0, .proceed 1,
      .proceed 1, .proceed 0, .proceed 0, .proceed 1, .proceed 1] (by decide +kernel)
  obtain ⟨child, hc, hv⟩ := map_eq_some_iff.mp hr
  refine ⟨s, call, child, hs, ha, mem_of_getElem? hg, hc, ?_, hv, ?_, ?_⟩
  · rw [ho]
    exact mem_cons_self
  · rw [ho]
    intro heq
    rw [heq] at hv
    exact absurd hv (by decide +kernel)
  · intro heq
    rw [heq] at he
    cases he

end ShareCli.Spawn
