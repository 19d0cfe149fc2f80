import ShareCli.Teamcomm.Proofs.ReservationProofs

/-!
# How long a reservation lasts

The seconds of a claim are an unsigned number of 64 bits. The daemon reads it as a signed one and adds it to the
clock, which panics where the span or the sum is out of range.
-/

namespace ShareCli.Teamcomm

open Foundation DateTime AList

def claimedSeconds (payload : Value) : UInt64 := ((payload.get "ttl_sec").bind Value.asU64).getD 600

/-- The seconds are a span, and the clock does not run out before they have passed. -/
def InRange (now : DateTime) (ttl : UInt64) : Prop :=
  ttl.toNat ≤ 9223372036854775 ∧ now.nanos + ttl.toNat * 1000000000 ≤ maxNanos
deriving Decidable

theorem signed_seconds (ttl : UInt64) : ttl.toInt64.toInt = ttl.toNat ∧ ttl.toNat < 2 ^ 63 ∨
      ttl.toInt64.toInt = (ttl.toNat : Int) - 2 ^ 64 ∧ 2 ^ 63 ≤ ttl.toNat := by
  have hlt : ttl.toNat < 2 ^ 64 := ttl.toNat_lt
  have hs : ttl.toInt64.toInt = (ttl.toNat : Int).bmod (2 ^ 64) := BitVec.toInt_eq_toNat_bmod ttl.toBitVec
  rw [hs, Int.bmod_def]
  omega

variable {now : DateTime} {ttl : UInt64}

theorem expiry_of_inRange (h : InRange now ttl) : ∃ x, expiry now ttl = some x ∧
      x.nanos = now.nanos + ttl.toNat * 1000000000 := by
  obtain ⟨hs, hsm⟩ := h
  have hlw := now.inRange.1
  have hsc : ttl.toInt64.toInt = ttl.toNat := by
    rcases signed_seconds ttl with ⟨heq, -⟩ | ⟨-, hl⟩
    · exact heq
    · omega
  have hb : minNanos ≤ now.nanos + ttl.toNat * 1000000000 ∧
      now.nanos + ttl.toNat * 1000000000 ≤ maxNanos := ⟨by omega, hsm⟩
  refine ⟨⟨_, hb⟩, ?_, rfl⟩
  unfold expiry spanOfSeconds
  rw [hsc, if_pos (by omega)]
  exact dif_pos hb

theorem seconds_pos (h : ¬ InRange now ttl) : 0 < ttl.toNat := by
  by_contra hz
  have hh := now.inRange.2
  exact h ⟨by omega, by omega⟩

/-- Out of range, a reservation that is made nevertheless has expired before. -/
theorem expiry_of_not_inRange {x : DateTime} (h : ¬ InRange now ttl)
    (he : expiry now ttl = some x) : x.nanos < now.nanos := by
  obtain ⟨span, hs, hsm⟩ := Option.bind_eq_some_iff.mp he
  simp only [spanOfSeconds, Option.ite_none_right_eq_some, Option.some_inj] at hs
  obtain ⟨hb, rfl⟩ := hs
  unfold add at hsm
  split at hsm
  · rename_i hr
    cases hsm
    show now.nanos + ttl.toInt64.toInt * 1000000000 < now.nanos
    rcases signed_seconds ttl with ⟨heq, -⟩ | ⟨heq, hl⟩
    · rw [heq] at hb hr
      exact absurd ⟨by omega, hr.2⟩ h
    · have hlt : ttl.toNat < 2 ^ 64 := ttl.toNat_lt
      omega
  · cases hsm

/-- As long as the reservation is in the table, it is treated as active exactly before `endNanos`. -/
structure ActiveUntil (r : Reservation) (endNanos : Int) : Prop where
  listed : ∀ guard : AppStateInner, r ∈ guard.allReservations →
    ∀ path : Option String, (∀ start ∈ path, start.toList.isPrefixOf r.path.toList) →
      ∀ time : DateTime, r ∈ listedReservations path time guard ↔ time.nanos < endNanos
  reported : ∀ guard : AppStateInner, r ∈ guard.allReservations → ∀ claim : Reservation, claim.Excludes r →
    ∀ time : DateTime,
      r ∈ conflictsWith guard claim.sessionId claim.path claim.mode time ↔ time.nanos < endNanos

theorem activeUntil_expiresAt (r : Reservation) : ActiveUntil r r.expiresAt.nanos := by
  constructor
  · intro g hr p hp time
    cases p with
    | none => simp [listedReservations, hr]
    | some start =>
      have hs := hp start rfl
      simp [listedReservations, hr, hs]
  · intro g hr call he time
    rw [mem_conflictsWith]
    exact ⟨fun h => h.2.2, fun h => ⟨hr, he, h⟩⟩

theorem not_activeUntil {r : Reservation} {ends : Int} (he : r.expiresAt.nanos < r.acquiredAt.nanos)
    (hen : r.acquiredAt.nanos < ends) : ¬ ActiveUntil r ends := by
  intro h
  let guard : AppStateInner := { reservations := insert r.reservationId r ∅ }
  have hr : r ∈ guard.allReservations := mem_allReservations.mpr ⟨r.reservationId, lookup_insert _⟩
  have hl := (h.listed guard hr none (by simp) r.acquiredAt).mpr hen
  have hu := ((activeUntil_expiresAt r).listed guard hr none (by simp) r.acquiredAt).mp hl
  omega

/-- The claim does not panic, and its reservation is active for as many seconds as it asks for. -/
structure LifetimeKept (payload : Value) (now : DateTime) : Prop where
  returns : dispatch "reservation.claim" payload now ≠ .panicked
  active : ∀ request, dispatch "reservation.claim" payload now = .waiting request →
    ∀ clock uuid guard r conflicts,
      grantedBy request (request.perform clock uuid guard).1 = some (r, conflicts) →
        r ∈ (request.perform clock uuid guard).2.allReservations ∧
          ActiveUntil r (r.acquiredAt.nanos + (claimedSeconds payload).toNat * 1000000000)

def readable (payload : Value) : Bool :=
  (requiredText payload "session_id").isOk && (requiredText payload "path").isOk &&
    (parseReservationMode ((optionalText payload "mode").getD "write")).isOk

theorem claimRequest_spec (p : Value) (now : DateTime) :
    readable p = false ∧ (∃ error, claimRequest p now = .refused error) ∨
      readable p = true ∧ ∃ sessionId path m, claimRequest p now =
        match expiry now (claimedSeconds p) with
        | none => .panicked
        | some x => .waiting (.reservationClaim sessionId path m now x) := by
  unfold claimRequest readable
  cases requiredText p "session_id" with
  | error e => exact .inl ⟨rfl, e, rfl⟩
  | ok sessionId =>
    cases requiredText p "path" with
    | error e => exact .inl ⟨rfl, e, rfl⟩
    | ok path =>
      cases parseReservationMode ((optionalText p "mode").getD "write") with
      | error e => exact .inl ⟨rfl, e, rfl⟩
      | ok m => exact .inr ⟨rfl, sessionId, path, m, rfl⟩

theorem Performed.granted_mem {g g' : AppStateInner} {u : String} {req : Request}
    {rep : Reply} (h : Performed g u req rep g') {r : Reservation}
    {c : List Reservation} (hg : grantedBy req rep = some (r, c)) :
    r ∈ g'.allReservations := by
  cases h with
  | claimed hs =>
    cases hg
    exact mem_allReservations.mpr ⟨_, lookup_insert _⟩
  | other hr hc =>
    unfold grantedBy at hg
    split at hg
    · exact absurd rfl (hc _ _)
    · cases hg
  | _ => cases hg

theorem exists_granted (sid p : String) (m : ReservationMode) (now x clock : DateTime)
    (u : String) : ∃ g r c, grantedBy (.reservationClaim sid p m now x)
        ((Request.reservationClaim sid p m now x).perform clock u g).1 =
          some (r, c) ∧ r.acquiredAt = now ∧ r.expiresAt = x := by
  let session : Session :=
    { sessionId := sid, agentType := .forge, pid := 0, startedAt := now, workingDir := "/", capabilities := [],
      lastHeartbeat := now }
  let g : AppStateInner := { sessions := insert sid session ∅ }
  have hs : g.sessions.lookup sid = some session := lookup_insert _
  refine ⟨g, ?_⟩
  simp only [Request.perform, handleReservationClaim, hs]
  exact ⟨_, _, rfl, rfl, rfl⟩

/-- **Lifetime of a reservation**, kept exactly if its seconds are in range or another check refuses the claim. -/
theorem lifetime_kept_iff (payload : Value) (now : DateTime) :
    LifetimeKept payload now ↔ (readable payload = true → InRange now (claimedSeconds payload)) := by
  have hd : dispatch "reservation.claim" payload now = claimRequest payload now := rfl
  rcases claimRequest_spec payload now with ⟨hr, error, hc⟩ | ⟨hr, sessionId, path, m, hc⟩
  · rw [← hd] at hc
    constructor
    · intro _ hr'
      rw [hr] at hr'
      cases hr'
    · intro _
      constructor
      · rw [hc]
        exact Prepared.noConfusion
      · intro req hrq
        rw [hc] at hrq
        cases hrq
  · rw [← hd] at hc
    constructor
    · intro h _
      by_contra hrn
      cases he : expiry now (claimedSeconds payload) with
      | none =>
        rw [he] at hc
        exact h.returns hc
      | some x =>
        rw [he] at hc
        have hep := expiry_of_not_inRange hrn he
        have hp := seconds_pos hrn
        obtain ⟨g, r, c, hg, rfl, rfl⟩ := exists_granted sessionId path m now x now ""
        have ha := (h.active _ hc r.acquiredAt "" g r c hg).2
        exact not_activeUntil hep (by omega) ha
    · intro h
      obtain ⟨x, he, hn⟩ := expiry_of_inRange (h hr)
      rw [he] at hc
      constructor
      · rw [hc]
        exact Prepared.noConfusion
      · intro req hrq clock u g r c hg
        rw [hc] at hrq
        cases hrq
        refine ⟨(perform_spec _ clock u g).granted_mem hg, ?_⟩
        cases granted_request hg
        rw [← hn]
        exact activeUntil_expiresAt r

def claimFor (seconds : Nat) : Value :=
  .obj [("session_id", .str "sess_a"), ("path", .str "src/main.rs"), ("ttl_sec", .num (.posInt seconds))]

/-- A claim for `2 ^ 63` seconds panics, and a reservation for `2 ^ 64 - 1` seconds expired a second before. -/
theorem long_claims_not_kept :
    ¬ LifetimeKept (claimFor (2 ^ 63)) epoch ∧ ¬ LifetimeKept (claimFor (2 ^ 64 - 1)) epoch := by
  constructor
  · intro h
    exact h.returns rfl
  · intro h
    let expires : DateTime := ⟨-1000000000, by decide⟩
    have hw : dispatch "reservation.claim" (claimFor (2 ^ 64 - 1)) epoch =
        .waiting (.reservationClaim "sess_a" "src/main.rs" .write epoch expires) := rfl
    obtain ⟨g, r, conflicts, hg, ha, he⟩ :=
      exists_granted "sess_a" "src/main.rs" .write epoch expires epoch "b"
    have hac := (h.active _ hw epoch "b" g r conflicts hg).2
    refine not_activeUntil ?_ ?_ hac
    · rw [ha, he]
      decide
    · rw [ha]
      decide

end ShareCli.Teamcomm
