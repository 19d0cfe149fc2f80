import ShareCli.Session.Rpc
import ShareCli.Foundation.Proofs.SerdeProofs

/-!
# The token of a control request

The token check reads the same request as the dispatcher, except for a line in which a field occurs twice: it
cannot read that at all, and passes the line on unchecked.
-/

namespace ShareCli.Session

open Foundation SurfaceRequest SurfaceMethod Option

/-- The params pass all checks of the method; the hub's methods need a hub. -/
def SurfaceMethod.WellFormed (ps : Value) (hub : Bool) : SurfaceMethod → Prop
  | .list => True
  | .ioSend => ∃ p, ps.fields.bind SendParams.decode = some p ∧
      ∃ bytes, p.payload = some bytes ∧ bytes.length ≤ maxSurfaceSendBytes
  | .ioRead => ∃ p, ps.fields.bind ReadParams.decode = some p ∧ p.maxBytes ≤ maxSurfaceReadBytes
  | .ioResize => ∃ p, ps.fields.bind ResizeParams.decode = some p ∧ p.rows ≠ 0 ∧ p.cols ≠ 0
  | .ioCapabilities => ∃ surfaceId, ps.fields.bind decodeSurfaceIdParams = some surfaceId
  | .layoutSnapshot => isEmptyObject ps
  | .layoutRestore => ∃ snapshot, ps.fields.bind decodeRestoreParams = some snapshot ∧
      snapshot.validate = .ok ()
  | .ioSubscribe => hub ∧
      ∃ request, ps.fields.bind (SurfaceSubscribeRequest.decode Value.source) = some request
  | .ioUnsubscribe => hub ∧ ∃ subscriptionId, ps.fields.bind decodeUnsubscribeParams = some subscriptionId

section Calls

variable {serde : Serde} {control : SurfaceControl} {ps : Value} {evs : Option HubState}

theorem calls_refuse (code : Int) (m : String) : (MethodOutcome.refuse evs code m).calls = [] := rfl

theorem calls_answer (c : SurfaceCall) (r : Except String Value) :
    (MethodOutcome.answer evs c r).calls ≠ [] := List.cons_ne_nil _ _

theorem calls_decodeParams {β : Type} {d : Fields Value → Option β} {next : β → MethodOutcome} :
    (decodeParams serde ps evs d next).calls ≠ [] ↔
      ∃ p, ps.fields.bind d = some p ∧ (next p).calls ≠ [] := by
  unfold decodeParams
  cases ps.fields.bind d with
  | none => simp [calls_refuse]
  | some p => simp

theorem calls_dispatchMethod (method : String) :
    (dispatchSurfaceMethodWithEvents serde control method ps evs).calls ≠ [] ↔
      ∃ m, ofName method = some m ∧ m.WellFormed ps evs.isSome := by
  unfold dispatchSurfaceMethodWithEvents
  cases ofName method with
  | none => simp [calls_refuse]
  | some m =>
    simp only [some.injEq, exists_eq_left']
    cases m with
    | list => simp [calls_answer, WellFormed]
    | ioSend =>
      rw [calls_decodeParams]
      refine exists_congr fun p => and_congr_right fun _ => ?_
      cases p.payload with
      | none => simp [calls_refuse]
      | some bs =>
        by_cases hl : bs.length > maxSurfaceSendBytes
        · simp [calls_refuse, hl]
        · simp [if_neg hl, calls_answer, Nat.not_lt.mp hl]
    | ioRead =>
      rw [calls_decodeParams]
      refine exists_congr fun p => and_congr_right fun _ => ?_
      by_cases hl : p.maxBytes > maxSurfaceReadBytes
      · simp [calls_refuse, hl]
      · simp [if_neg hl, calls_answer, Nat.not_lt.mp hl]
    | ioResize =>
      rw [calls_decodeParams]
      refine exists_congr fun p => and_congr_right fun _ => ?_
      by_cases hz : p.rows = 0 ∨ p.cols = 0
      · simp [calls_refuse, ← not_or, hz]
      · simp [calls_answer, ← not_or, hz]
    | ioCapabilities =>
      rw [calls_decodeParams]
      simp [calls_answer, WellFormed]
    | layoutSnapshot =>
      simp only [WellFormed]
      split <;> simp_all [calls_answer, calls_refuse]
    | layoutRestore =>
      rw [calls_decodeParams]
      refine exists_congr fun sp => and_congr_right fun _ => ?_
      cases sp.validate with
      | error e => simp [calls_refuse]
      | ok _ => simp [calls_answer]
    | ioSubscribe =>
      cases evs with
      | none => simp [calls_refuse, WellFormed]
      | some hub =>
        simp only [WellFormed, isSome_some, true_and]
        rw [calls_decodeParams]
        refine exists_congr fun req => and_iff_left ?_
        cases hub.subscribe req <;> exact List.cons_ne_nil _ _
    | ioUnsubscribe =>
      cases evs with
      | none => simp [calls_refuse, WellFormed]
      | some hub =>
        simp only [WellFormed, isSome_some, true_and]
        rw [calls_decodeParams]
        exact exists_congr fun _ => and_iff_left (List.cons_ne_nil _ _)

def readRequest (serde : Serde) (line : String) : Option SurfaceRequest :=
  (Value.fromStr serde.finite line.toList).bind (fromValue decode)

def AsksOperation (serde : Serde) (hub : Bool) (line : String) : Prop :=
  ∃ raw ps request m, Value.fromStr serde.finite line.toList = some raw ∧
    paramsOf raw = some ps ∧ fromValue decode raw = some request ∧
    request.jsonrpc = jsonRpcVersion ∧ ofName request.method = some m ∧
    m.WellFormed ps hub

theorem AsksOperation.with_hub {hub : Bool} {line : String} (h : AsksOperation serde hub line) :
    AsksOperation serde true line := by
  obtain ⟨raw, ps, request, m, hrw, hp, hr, hv, hm, hwf⟩ := h
  refine ⟨raw, ps, request, m, hrw, hp, hr, hv, hm, ?_⟩
  cases m with
  | ioSubscribe => exact ⟨rfl, hwf.2⟩
  | ioUnsubscribe => exact ⟨rfl, hwf.2⟩
  | _ => exact hwf

theorem calls_dispatchInternal (line : String) :
    (dispatchSurfaceInternal serde control line evs).calls ≠ [] ↔ AsksOperation serde evs.isSome line := by
  have hr : ∀ id code mes, (Dispatched.refuse evs id code mes).calls = [] :=
    fun _ _ _ => rfl
  unfold dispatchSurfaceInternal
  constructor
  · intro h
    split at h
    · exact absurd (hr _ _ _) h
    · rename_i raw hrw
      split at h
      · exact absurd (hr _ _ _) h
      · rename_i ps hp
        split at h
        · exact absurd (hr _ _ _) h
        · rename_i request hrq
          split_ifs at h with hv
          · exact absurd (hr _ _ _) h
          · obtain ⟨m, hm, hwf⟩ := (calls_dispatchMethod request.method).mp h
            exact ⟨raw, ps, request, m, hrw, hp, hrq, not_not.mp hv, hm, hwf⟩
  · rintro ⟨raw, ps, request, m, hrw, hp, hrq, hv, hm, hwf⟩
    simp only [hrw, hp, hrq, hv, ne_eq, not_true_eq_false, if_false]
    exact (calls_dispatchMethod request.method).mpr ⟨m, hm, hwf⟩

end Calls

theorem surfaceRequest_derived : Derived fieldNames decode where
  refuses h := by
    rw [decode, h]
    rfl
  congr hs hr ha := by
    have hj := hr.required "jsonrpc" (by decide) hs.string
    have hid := hr.optional "id" (by decide) (hs.option hs.value)
    have hm := hr.required "method" (by decide) hs.string
    have ht := hr.defaulted "token" (by decide) none (hs.option hs.string)
    rw [decode, decode, ha, hj, hid, hm, ht]

def repeatsField (line : String) : Bool := (Json.parse line.toList).any (Json.repeatsField fieldNames)

/-- The token check reads the request that the dispatcher reads, or, if a field occurs twice, none. -/
theorem fromStr_eq {serde : Serde} {line : String} {raw : Value}
    (h : Value.fromStr serde.finite line.toList = some raw) :
    fromStr serde.finite decode line.toList =
      if repeatsField line then none else fromValue decode raw := by
  obtain ⟨j, hj, hrw⟩ := bind_eq_some_iff.mp h
  have ht := surfaceRequest_derived.decode_tree hrw
  rw [fromStr, hj, bind_some, ht, repeatsField, hj]
  rfl

section Token

variable {serde : Serde} {control : SurfaceControl} {line expected : String}
  {evs : Option HubState}

def tokenRead (serde : Serde) (line : String) : Option String := (readRequest serde line).bind token

theorem calls_checkToken {dispatch : Dispatched} {tok : Option String} (h : dispatch.calls = []) :
    (checkToken serde line tok evs dispatch).calls = [] := by
  unfold checkToken
  split
  · exact h
  · split
    · exact h
    · split
      · rfl
      · exact h

theorem calls_of_wrong_token (hr : repeatsField line = false) (ht : tokenRead serde line ≠ some expected) :
    (checkToken serde line (some expected) evs
      (dispatchSurfaceInternal serde control line evs)).calls = [] := by
  by_cases ha : AsksOperation serde evs.isSome line
  · obtain ⟨raw, ps, request, m, hrw, -, hrq, -⟩ := ha
    have hrd : tokenRead serde line = request.token := by
      rw [tokenRead, readRequest, hrw, bind_some, hrq, bind_some]
    have hc : fromStr serde.finite decode line.toList = some request := by
      rw [fromStr_eq hrw, hr]
      exact hrq
    rw [hrd] at ht
    simp only [checkToken, hc, ne_eq, ht, not_false_eq_true, if_true]
    rfl
  · apply calls_checkToken
    exact not_not.mp (mt (calls_dispatchInternal line).mp ha)

theorem checkToken_of_repeats (hr : repeatsField line = true)
    (ha : AsksOperation serde evs.isSome line) (dispatch : Dispatched) :
    checkToken serde line (some expected) evs dispatch = dispatch := by
  obtain ⟨raw, ps, request, m, hrw, -⟩ := ha
  have hc : fromStr serde.finite decode line.toList = none := by
    rw [fromStr_eq hrw, hr]
    rfl
  rw [checkToken, hc]

variable (serde control line expected evs) in
theorem guarded_iff : (tokenRead serde line ≠ some expected → (checkToken serde line (some expected) evs
      (dispatchSurfaceInternal serde control line evs)).calls = []) ↔
    tokenRead serde line = some expected ∨ repeatsField line = false ∨
      ¬ AsksOperation serde evs.isSome line := by
  constructor
  · intro h
    by_contra hn
    obtain ⟨ht, hr, ha⟩ := by simpa only [not_or, not_not] using hn
    have hc := h ht
    rw [checkToken_of_repeats (by simpa using hr) ha] at hc
    exact (calls_dispatchInternal line).mpr ha hc
  · rintro (ht | hr | ha) hne
    · exact absurd ht hne
    · exact calls_of_wrong_token hr hne
    · apply calls_checkToken
      exact not_not.mp (mt (calls_dispatchInternal line).mp ha)

end Token

/-- **Token authentication.** A line with another token makes no call, exactly if no field of the request occurs
twice in it, or it does not ask for an operation. -/
theorem dispatch_surface_token_iff (serde : Serde) (control : SurfaceControl) (hub : HubState)
    (line expected : String) :
    (tokenRead serde line ≠ some expected →
      (dispatchSurfaceWithToken serde control line (some expected)).calls = [] ∧
      (dispatchSurfaceWithTokenAndEvents serde control hub line (some expected)).calls = []) ↔
    tokenRead serde line = some expected ∨ repeatsField line = false ∨ ¬ AsksOperation serde true line := by
  have hp := guarded_iff serde control line expected none
  have he := guarded_iff serde control line expected (some hub)
  rw [forall_and]
  constructor
  · rintro ⟨-, h⟩
    exact he.mp h
  · intro h
    refine ⟨hp.mpr ?_, he.mpr h⟩
    rcases h with ht | hr | ha
    · exact .inl ht
    · exact .inr (.inl hr)
    · exact .inr (.inr fun hp => ha hp.with_hub)

def repeatedMethod : String :=
  "\x7b\"jsonrpc\":\"2.0\",\"id\":1,\"method\":\"surface.list\",\"method\":\"surface.list\"\x7d"

theorem dispatch_surface_unchecked :
    ∃ (serde : Serde) (control : SurfaceControl), tokenRead serde repeatedMethod = none ∧
      (dispatchSurfaceWithToken serde control repeatedMethod (some "secret")).calls ≠ [] ∧
      (dispatchSurfaceWithTokenAndEvents serde control .new repeatedMethod (some "secret")).calls ≠ [] := by
  have he : ∀ calls : List SurfaceCall, calls.isEmpty = false → calls ≠ [] := by
    rintro _ h rfl
    simp at h
  refine ⟨⟨fun _ => true, fun _ => "", fun _ => ""⟩,
    { list := .ok (.arr []), send := fun _ _ => .ok (), read := fun _ _ => .ok []
      resize := fun _ _ _ => .ok (), capabilities := fun _ => .ok .null, snapshotLayout := .ok .null
      restoreLayout := fun _ => .ok .null }, ?_, he _ ?_, he _ ?_⟩
  all_goals decide +kernel

end ShareCli.Session
