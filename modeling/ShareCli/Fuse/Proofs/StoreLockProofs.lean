import ShareCli.Fuse.StoreLocks

/-!
# Sections of one path exclude each other

Every call takes the lock of the map of the agents, `locks`, the lock of a path and `pending` in this order.
-/

namespace ShareCli.Fuse

open Foundation List Option

namespace StoreLock

def rank : StoreLock → Nat
  | .agents => 0
  | .locks _ => 1
  | .path _ _ => 2
  | .pending _ => 3

def order : Discipline StoreLock where
  rank := rank
  gate := .agents
  gate_lt := by
    intro k hk
    cases k with
    | agents => exact absurd rfl hk
    | locks a => exact Nat.zero_lt_one
    | path a back => exact Nat.zero_lt_two
    | pending a => exact Nat.zero_lt_succ 2

def Safe (held : List StoreLock) (w : StoreWork) : Prop := ∀ back, w = .touch back → ∃ a, path a back ∈ held

/-- What may stand in a program where certain locks are held. -/
def Segment (held : List StoreLock) (b : Program) : Prop :=
  ∀ rest, order.Proper Safe held rest → order.Proper Safe held (b ++ rest)

variable {a : List Char} {back : FilePath} {b : Program} {held : List StoreLock} {w : StoreWork}

theorem Segment.append {b' : Program} (h : Segment held b) (h' : Segment held b') :
    Segment held (b ++ b') := by
  intro rs hrest
  rw [append_assoc]
  exact h _ (h' rs hrest)

theorem Segment.work (h : Safe held w) : Segment held [.work w] :=
  fun _ hrest => ⟨h, hrest⟩

theorem Segment.locked {k : StoreLock} (b : Program) (hm : order.MayLock held k)
    (h : Segment (k :: held) b) : Segment held (.lock k :: b ++ [.unlock k]) := by
  intro rs hrest
  rw [append_assoc]
  exact ⟨hm, h _ ⟨held, rfl, hrest⟩⟩

theorem safe_of_ne_touch (h : ∀ back, w ≠ .touch back) : Safe held w := fun back heq => absurd heq (h back)

theorem mayLock_of_agents (inn : List StoreLock) {k : StoreLock}
    (h : ∀ k' ∈ inn ++ [StoreLock.agents], rank k' < rank k) : order.MayLock (inn ++ [.agents]) k :=
  ⟨h, .inr (mem_append_right inn mem_cons_self)⟩

theorem segment_onPending (inn : List StoreLock) (hi : ∀ k ∈ inn ++ [StoreLock.agents], rank k < 3)
    (hw : ∀ back, w ≠ .touch back) :
    Segment (inn ++ [.agents]) (onPending a w) :=
  Segment.locked [.work w] (mayLock_of_agents inn hi) (.work (safe_of_ne_touch hw))

theorem segment_underPath (h : Segment [.path a back, .agents] b) : Segment [.agents] (underPath a back b) := by
  have hl : Segment [.agents] [.lock (.locks a), .work (.lockArc a back), .unlock (.locks a)] := by
    refine Segment.locked [.work (.lockArc a back)] (mayLock_of_agents [] ?_)
      (.work (safe_of_ne_touch fun _ => StoreWork.noConfusion))
    simp [rank]
  have hs : Segment [.agents] (.lock (.path a back) :: b ++ [.unlock (.path a back)]) := by
    refine Segment.locked b (mayLock_of_agents [] ?_) h
    simp [rank]
  exact hl.append hs

theorem proper_onStore (h : Segment [.agents] b) : order.Proper Safe [] (onStore a b) := by
  have hb : Segment [.agents] (.work (.storeFor a) :: b) :=
    (Segment.work (safe_of_ne_touch fun _ => StoreWork.noConfusion)).append h
  have hm : order.MayLock [] .agents := ⟨fun k hk => absurd hk not_mem_nil, .inl rfl⟩
  have hc := Segment.locked _ hm hb [] rfl
  rw [append_nil] at hc
  exact hc

theorem safe_touch : Safe [.path a back, .agents] (.touch back) := by
  intro tc heq
  obtain rfl : back = tc := StoreWork.touch.inj heq
  exact ⟨a, mem_cons_self⟩

theorem segment_onPending_underPath (hw : ∀ back, w ≠ .touch back) :
    Segment [.path a back, .agents] (onPending a w) := by
  refine segment_onPending [.path a back] ?_ hw
  simp [rank]

theorem proper_stageBytes : order.Proper Safe [] (stageBytes a back) :=
  proper_onStore <| segment_underPath <|
    (Segment.work safe_touch).append (segment_onPending_underPath fun _ => StoreWork.noConfusion)

theorem proper_commitPending : order.Proper Safe [] (commitPending a back) :=
  proper_onStore <| segment_underPath <|
    (segment_onPending_underPath fun _ => StoreWork.noConfusion).append <|
      (Segment.work safe_touch).append (segment_onPending_underPath fun _ => StoreWork.noConfusion)

theorem proper_discardPending : order.Proper Safe [] (discardPending a back) :=
  proper_onStore <| segment_underPath <|
    (segment_onPending_underPath fun _ => StoreWork.noConfusion).append (Segment.work safe_touch)

theorem proper_withLockedPath : order.Proper Safe [] (withLockedPath a back) :=
  proper_onStore (segment_underPath (Segment.work safe_touch))

theorem proper_listing (hw : ∀ back, w ≠ .touch back) : order.Proper Safe [] (onStore a (onPending a w)) := by
  refine proper_onStore (segment_onPending [] ?_ hw)
  simp [rank]

theorem proper_flatMap {c : FilePath → Program} (h : ∀ back, order.Proper Safe [] (c back))
    (ps : List FilePath) : order.Proper Safe [] (ps.flatMap c) := by
  induction ps with
  | nil => rfl
  | cons back ps ih =>
    rw [flatMap_cons]
    exact (h back).append ih

end StoreLock

open StoreLock

variable {store : AgentCowStore}

/-- Without serialization `with_locked_path` would touch a path without its lock. -/
theorem proper_program (hs : store.serialize = true) (c : StoreCall) :
    order.Proper Safe [] (store.program c) := by
  cases c with
  | stageBytes a back => exact proper_stageBytes
  | commitPending a back => exact proper_commitPending
  | discardPending a back => exact proper_discardPending
  | commitAllForAgent a ps | discardAllForAgent a ps =>
    exact proper_listing fun _ => StoreWork.noConfusion
  | withLockedPath a p =>
    simp only [AgentCowStore.program, hs, if_true]
    exact proper_withLockedPath

theorem proper_later {w : StoreWork} {staged s' : Staged} {last : Program}
    (h : store.perform w staged = (some last, s')) : order.Proper Safe [] last := by
  have hr := congrArg Prod.fst h
  cases w with
  | storeFor a | lockArc a back | touch back | insert a back
  | remove a back => exact some_inj.mp hr ▸ rfl
  | get a back | take a back =>
    simp only [AgentCowStore.perform, ite_none_right_eq_some, some_inj] at hr
    exact hr.2 ▸ rfl
  | commitEach a ps =>
    rw [← some_inj.mp hr]
    exact proper_flatMap (fun _ => proper_commitPending) _
  | discardEach a ps =>
    rw [← some_inj.mp hr]
    exact proper_flatMap (fun _ => proper_discardPending) _

theorem governs_system (hs : store.serialize = true) : order.Governs Safe store.system where
  program := proper_program hs
  later := fun _ _ _ _ h => proper_later h

theorem held_ne_nil_of_inside {back : FilePath} {t : LockThread StoreLock StoreWork}
    (h : order.Orderly Safe t) (hi : Inside back t) : t.held ≠ [] := by
  rcases hi with ⟨a, hh⟩ | ⟨rs, hp⟩
  · exact ne_nil_of_mem hh
  · have hpr := h.proper
    rw [hp] at hpr
    obtain ⟨a, hh⟩ := hpr.1 back rfl
    exact ne_nil_of_mem hh

/-- **Writes are serialized.** In every interleaving at most one thread is in a section that touches a path, no
threads wait for each other, and while a thread is in a call some thread can go on. -/
theorem writes_serialized (store : AgentCowStore) (hserialize : store.serialize = true) {count : Nat}
    {s : LockState StoreLock StoreWork Staged} (hs : (store.threads count).Reachable s) :
    (∀ (backing : FilePath) (i j : Nat) (t u : LockThread StoreLock StoreWork), i ≠ j →
      s.threads[i]? = some t → s.threads[j]? = some u → Inside backing t → ¬ Inside backing u) ∧
    (∀ among : Set Nat, ¬ s.Deadlock among) ∧
    ((∃ t ∈ s.threads, t.program ≠ []) →
      ∃ index s', (store.threads count).step s (.proceed index) = some s') := by
  have hh : order.Holds Safe s := Discipline.holds_of_reachable (governs_system hserialize) hs
  refine ⟨?_, hh.not_deadlock, hh.progress store.system⟩
  intro backing i j t u hij hi hj ht hu
  have ho := hh.orderly t (mem_of_getElem? hi)
  have ho' := hh.orderly u (mem_of_getElem? hj)
  have he := hh.alone hij hi hj (held_ne_nil_of_inside ho ht)
  exact held_ne_nil_of_inside ho' hu he

def emptyStore (serialize : Bool) : AgentCowStore :=
  { cowRoot := [], defaultAgent := ['a'], serialize, agents := ∅ }

/-- Two agents on one path: the first has staged it and is about to commit it, the second waits to stage it. -/
theorem second_agent_waits : ∃ s t u, ((emptyStore true).threads 2).Reachable s ∧
    s.threads[0]? = some t ∧ Inside [['f']] t ∧
    s.threads[1]? = some u ∧ u.wants = some .agents ∧ ¬ Inside [['f']] u ∧
    ∃ index s', ((emptyStore true).threads 2).step s (.proceed index) = some s' := by
  obtain ⟨s, hs, ⟨t, hf, hi⟩, u, hsc, hw⟩ : ∃ s, ((emptyStore true).threads 2).Reachable s ∧
        (∃ t ∈ s.threads[0]?, .path ['a'] [['f']] ∈ t.held) ∧ ∃ u ∈ s.threads[1]?, u.wants = some .agents :=
    Machine.exists_reachable ([.call 0 (.stageBytes none [['f']])] ++ replicate 12 (.proceed 0) ++
      [.call 0 (.commitAllForAgent none [])] ++ replicate 15 (.proceed 0) ++
      [.call 1 (.stageBytes (some ['b']) [['f']])]) (by decide +kernel)
  have hi : Inside [['f']] t := .inl ⟨['a'], hi⟩
  have hb : u.program ≠ [] := by
    intro hn
    rw [LockThread.wants, hn] at hw
    cases hw
  obtain ⟨he, -, hp⟩ := writes_serialized (emptyStore true) rfl hs
  exact ⟨s, t, u, hs, hf, hi, hsc, hw, he [['f']] 0 1 t u Nat.zero_ne_one hf hsc hi,
    hp ⟨u, mem_of_getElem? hsc, hb⟩⟩

end ShareCli.Fuse
