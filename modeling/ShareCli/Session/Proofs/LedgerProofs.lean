import Mathlib.Data.List.Induction
import Mathlib.Data.List.Sort
import Mathlib.Data.Prod.Lex
import Mathlib.Data.Set.Finite.Lemmas
import ShareCli.Session.Ledger

/-!
# Recovery plans and compaction

`IsNewest` says which observation speaks for a surface, and `Offered` which sessions come out when several
surfaces offer a session of the same id.
-/

namespace ShareCli.Session

open SessionObservation SessionStore List

theorem SessionStore.nodup_seq (st : SessionStore) : (st.observations.map seq).Nodup := by
  rw [Nodup, pairwise_map]
  exact st.ordered.imp fun hlt => Int.ne_of_lt hlt

section Window

variable (chr : Chrono) (now cut : Int)

/-- `o`, of time `t`, is the newest observation of the surface inside the window. -/
structure IsNewest (rws : List SessionObservation) (sfId : String) (t : Int)
    (o : SessionObservation) : Prop where
  mem : o ∈ rws
  surface : o.surface.id = sfId
  time : chr.timeInWindow now cut o = some t
  newest : ∀ o' ∈ rws, o'.surface.id = sfId → ∀ t', chr.timeInWindow now cut o' = some t' →
    newer (t', o') (t, o) = false

structure Tracks (rws : List SessionObservation) (l : Latest) : Prop where
  sound : ∀ (sfId : String) (p : Int × SessionObservation), l[sfId]? = some p →
    p.2 ∈ rws ∧ p.2.surface.id = sfId ∧ chr.timeInWindow now cut p.2 = some p.1
  best : ∀ o ∈ rws, ∀ t, chr.timeInWindow now cut o = some t →
    ∃ p, l[o.surface.id]? = some p ∧ newer (t, o) p = false

variable {chr now cut}

theorem newer_self (p : Int × SessionObservation) : newer p p = false := by
  simp [newer]

theorem newer_trans {p q r : Int × SessionObservation} (hqp : newer q p = true)
    (hrp : newer r p = false) : newer r q = false := by
  simp only [newer, Bool.or_eq_true, Bool.and_eq_true, decide_eq_true_eq, Bool.or_eq_false_iff,
    Bool.and_eq_false_iff, decide_eq_false_iff_not] at *
  omega

theorem tracks_nil : Tracks chr now cut [] ∅ := ⟨by simp, by simp⟩

variable {rws : List SessionObservation} {l : Latest} {o : SessionObservation}

theorem Tracks.keep (h : Tracks chr now cut rws l) (hb : ∀ t, chr.timeInWindow now cut o = some t →
      ∃ p, l[o.surface.id]? = some p ∧ newer (t, o) p = false) :
    Tracks chr now cut (rws ++ [o]) l := by
  constructor
  · intro sid p hp
    obtain ⟨hm, hrest⟩ := h.sound sid p hp
    exact ⟨mem_append_left _ hm, hrest⟩
  · intro o' ho' t ht
    rcases mem_append.mp ho' with ho' | ho'
    · exact h.best o' ho' t ht
    · rw [mem_singleton.mp ho'] at ht ⊢
      exact hb t ht

theorem Tracks.replace (h : Tracks chr now cut rws l) {t : Int} (ht : chr.timeInWindow now cut o = some t)
    (hn : ∀ c, l[o.surface.id]? = some c → newer (t, o) c = true) :
    Tracks chr now cut (rws ++ [o]) (l.insert o.surface.id (t, o)) := by
  constructor
  · intro sid p hp
    rw [Std.TreeMap.getElem?_insert] at hp
    split at hp
    · rename_i hs
      obtain rfl := Std.compare_eq_iff_eq.mp hs
      cases hp
      exact ⟨by simp, rfl, ht⟩
    · obtain ⟨hm, hrest⟩ := h.sound sid p hp
      exact ⟨mem_append_left _ hm, hrest⟩
  · intro o' ho' t' ht'
    rw [Std.TreeMap.getElem?_insert]
    rcases mem_append.mp ho' with ho' | ho'
    · obtain ⟨p, hp, hle⟩ := h.best o' ho' t' ht'
      split
      · rename_i hs
        rw [← Std.compare_eq_iff_eq.mp hs] at hp
        exact ⟨_, rfl, newer_trans (hn p hp) hle⟩
      · exact ⟨p, hp, hle⟩
    · rw [mem_singleton.mp ho'] at ht' ⊢
      obtain rfl : t = t' := by simpa [ht] using ht'
      exact ⟨(t, o), by simp, newer_self _⟩

theorem Tracks.considerObservation (h : Tracks chr now cut rws l) (o : SessionObservation) :
    Tracks chr now cut (rws ++ [o]) (chr.considerObservation now cut l o) := by
  unfold Chrono.considerObservation
  split
  · rename_i ht
    exact h.keep (by simp [ht])
  · rename_i t ht
    split
    · rename_i hn
      refine h.replace ht ?_
      intro c hc
      simp [hn] at hc
    · rename_i c hc
      split
      · rename_i hnw
        refine h.replace ht ?_
        intro c' hc'
        obtain rfl : c = c' := by simpa [hc] using hc'
        exact hnw
      · rename_i hnw
        refine h.keep ?_
        intro t' ht'
        obtain rfl : t = t' := by simpa [ht] using ht'
        exact ⟨c, hc, by simpa using hnw⟩

theorem tracks_foldl (rws : List SessionObservation) :
    Tracks chr now cut rws (rws.foldl (chr.considerObservation now cut) ∅) := by
  induction rws using reverseRecOn with
  | nil => exact tracks_nil
  | append_singleton rws o ih =>
    rw [foldl_append]
    exact ih.considerObservation o

theorem Tracks.getElem?_iff (h : Tracks chr now cut rws l)
    (hsq : (rws.map seq).Nodup) (sid : String) (t : Int) (o : SessionObservation) :
    l[sid]? = some (t, o) ↔ IsNewest chr now cut rws sid t o := by
  constructor
  · intro hl
    obtain ⟨hm, hs, ht⟩ := h.sound sid (t, o) hl
    refine ⟨hm, hs, ht, ?_⟩
    intro o' ho' hs' t' ht'
    obtain ⟨p, hp, hle⟩ := h.best o' ho' t' ht'
    rw [hs', hl] at hp
    cases hp
    exact hle
  · intro hn
    obtain ⟨p, hp, hle⟩ := h.best o hn.mem t hn.time
    rw [hn.surface] at hp
    obtain ⟨hm, hs, ht⟩ := h.sound sid p hp
    have hle' := hn.newest p.2 hm hs p.1 ht
    -- neither is newer than the other one, so they have the same number
    have hsm : p.1 = t ∧ p.2.seq = o.seq := by
      simp only [newer, Bool.or_eq_false_iff, Bool.and_eq_false_iff, decide_eq_false_iff_not] at hle hle'
      omega
    have ho : p.2 = o := inj_on_of_nodup_map hsq hm hn.mem hsm.2
    rw [hp, ← hsm.1, ← ho]

end Window

/-- When the observations in `speaks` speak for their surfaces, and no surface behind offers another session of its
id. -/
def Offered (speaks : String → SessionObservation → Prop) (x : AgentSession) : Prop :=
  ∃ sfId o, speaks sfId o ∧ o.offer = some x ∧
    ∀ sfId' o' session', speaks sfId' o' → o'.offer = some session' → session'.id = x.id → sfId' ≤ sfId

section Collect

variable {es : List (String × SessionObservation)} {e : String × SessionObservation}
  {session last : AgentSession}

theorem offered_append_none (he : e.2.offer = none) : Offered (fun sid o => (sid, o) ∈ es ++ [e]) session ↔
      Offered (fun sid o => (sid, o) ∈ es) session := by
  -- what offers a session is not the last one
  have hes : ∀ sid o s, (sid, o) ∈ es ++ [e] → o.offer = some s → (sid, o) ∈ es := by
    intro sid o s hm ho
    rcases mem_append.mp hm with hm | hm
    · exact hm
    · rw [← mem_singleton.mp hm, ho] at he
      simp at he
  constructor
  · rintro ⟨sid, o, hm, ho, hmx⟩
    refine ⟨sid, o, hes sid o session hm ho, ho, ?_⟩
    intro sid' o' session' hm' ho' hid
    exact hmx sid' o' session' (mem_append_left _ hm') ho' hid
  · rintro ⟨sid, o, hm, ho, hmx⟩
    refine ⟨sid, o, mem_append_left _ hm, ho, ?_⟩
    intro sid' o' session' hm' ho' hid
    exact hmx sid' o' session' (hes sid' o' session' hm' ho') ho' hid

theorem offered_append_some (hb : ∀ e' ∈ es, e'.1 < e.1) (he : e.2.offer = some last) :
    Offered (fun sid o => (sid, o) ∈ es ++ [e]) session ↔
      session = last ∨ (session.id ≠ last.id ∧ Offered (fun sid o => (sid, o) ∈ es) session) := by
  constructor
  · rintro ⟨sid, o, hm, ho, hmx⟩
    rcases mem_append.mp hm with hm | hm
    · refine .inr ⟨?_, sid, o, hm, ho, ?_⟩
      · intro hid
        have hle : e.1 ≤ sid := hmx e.1 e.2 last (by simp) he hid.symm
        exact absurd (hb _ hm) (not_lt.mpr hle)
      · intro sid' o' session' hm' ho' hid
        exact hmx sid' o' session' (mem_append_left _ hm') ho' hid
    · rw [← mem_singleton.mp hm, ho] at he
      exact .inl (Option.some.inj he)
  · rintro (rfl | ⟨hne, sid, o, hm, ho, hmx⟩)
    · refine ⟨e.1, e.2, by simp, he, ?_⟩
      intro sid' o' session' hm' _ _
      rcases mem_append.mp hm' with hm' | hm'
      · exact le_of_lt (hb _ hm')
      · rw [← mem_singleton.mp hm']
    · refine ⟨sid, o, mem_append_left _ hm, ho, ?_⟩
      intro sid' o' session' hm' ho' hid
      rcases mem_append.mp hm' with hm' | hm'
      · exact hmx sid' o' session' hm' ho' hid
      · rw [← mem_singleton.mp hm', ho'] at he
        exact absurd (Option.some.inj he ▸ hid).symm hne

theorem getElem?_foldl_collectSession (hs : es.Pairwise fun e e' => e.1 < e'.1) (sid : String)
    (session : AgentSession) :
    ((es.map Prod.snd).foldl collectSession ∅)[sid]? = some session ↔
      session.id = sid ∧ Offered (fun surface o => (surface, o) ∈ es) session := by
  induction es using reverseRecOn with
  | nil => simp [Offered]
  | append_singleton es e ih =>
    obtain ⟨hs', -, hl⟩ := pairwise_append.mp hs
    have hb : ∀ e' ∈ es, e'.1 < e.1 := fun e' he' => hl e' he' e (by simp)
    specialize ih hs'
    rw [map_append, foldl_append]
    simp only [map_cons, map_nil, foldl_cons, foldl_nil, collectSession]
    cases ho : e.2.offer with
    | none => rw [offered_append_none ho, ih]
    | some last =>
      rw [offered_append_some hb ho, Std.TreeMap.getElem?_insert]
      by_cases hid : last.id = sid
      · subst hid
        simp only [Std.compare_self, if_true, Option.some.injEq]
        constructor
        · rintro rfl
          exact ⟨rfl, .inl rfl⟩
        · rintro ⟨hid, rfl | ⟨hne, -⟩⟩
          · rfl
          · exact absurd hid hne
      · rw [if_neg (by simpa using hid), ih]
        constructor
        · rintro ⟨rfl, hof⟩
          exact ⟨rfl, .inr ⟨Ne.symm hid, hof⟩⟩
        · rintro ⟨rfl, rfl | ⟨-, hof⟩⟩
          · exact absurd rfl hid
          · exact ⟨rfl, hof⟩

end Collect

def SortedById (plan : List AgentSession) : Prop := plan.Pairwise fun s s' => s.id < s'.id

theorem SortedById.eq_of_mem_iff {p p' : List AgentSession} (h : SortedById p)
    (h' : SortedById p') (hm : ∀ s, s ∈ p ↔ s ∈ p') : p = p' := by
  have : Std.Irrefl fun s s' : AgentSession => s.id < s'.id := ⟨fun s => lt_irrefl s.id⟩
  have : Std.Antisymm fun s s' : AgentSession => s.id < s'.id :=
    ⟨fun _ _ hlt hgt => absurd hlt (lt_asymm hgt)⟩
  exact Pairwise.eq_of_mem_iff h h' hm

def planOf (chr : Chrono) (now cut : Int) (rws : List SessionObservation) : List AgentSession :=
  let l := rws.foldl (chr.considerObservation now cut) ∅
  let sessions := (l.toList.map fun e => e.2.2).foldl collectSession ∅
  sessions.toList.map Prod.snd

variable {rws : List SessionObservation}

theorem planOf_spec (chr : Chrono) (now cut : Int) (hsq : (rws.map seq).Nodup) :
    SortedById (planOf chr now cut rws) ∧ ∀ session, session ∈ planOf chr now cut rws ↔
      Offered (fun surface o => ∃ t, IsNewest chr now cut rws surface t o) session := by
  have ht : Tracks chr now cut rws _ := tracks_foldl rws
  unfold planOf
  dsimp only
  generalize rws.foldl (chr.considerObservation now cut) ∅ = l at ht
  have hes : (l.toList.map fun e => e.2.2) = (l.toList.map fun e => (e.1, e.2.2)).map Prod.snd := by
    rw [map_map]
    rfl
  have hs : (l.toList.map fun e => (e.1, e.2.2)).Pairwise fun e e' => e.1 < e'.1 := by
    rw [pairwise_map]
    exact Std.TreeMap.ordered_keys_toList.imp fun h => compare_lt_iff_lt.mp h
  have hsp : (fun surface o => (surface, o) ∈ l.toList.map fun e => (e.1, e.2.2)) =
      fun surface o => ∃ t, IsNewest chr now cut rws surface t o := by
    funext surface o
    simp only [← ht.getElem?_iff hsq, ← Std.TreeMap.mem_toList_iff_getElem?_eq_some,
      mem_map, Prod.mk.injEq, eq_iff_iff]
    constructor
    · rintro ⟨⟨_, t, _⟩, hm, rfl, rfl⟩
      exact ⟨t, hm⟩
    · rintro ⟨t, hm⟩
      exact ⟨_, hm, rfl, rfl⟩
  rw [hes]
  have hg := getElem?_foldl_collectSession hs
  generalize ((l.toList.map fun e => (e.1, e.2.2)).map Prod.snd).foldl collectSession ∅ = sessions
    at hg
  rw [hsp] at hg
  constructor
  · rw [SortedById, pairwise_map]
    refine Std.TreeMap.ordered_keys_toList.imp_of_mem ?_
    intro e e' he he' hlt
    have hid := ((hg e.1 e.2).mp (Std.TreeMap.mem_toList_iff_getElem?_eq_some.mp he)).1
    have hid' := ((hg e'.1 e'.2).mp (Std.TreeMap.mem_toList_iff_getElem?_eq_some.mp he')).1
    rw [hid, hid']
    exact compare_lt_iff_lt.mp hlt
  · intro session
    rw [mem_map]
    constructor
    · rintro ⟨⟨sid, _⟩, hm, rfl⟩
      exact ((hg _ _).mp (Std.TreeMap.mem_toList_iff_getElem?_eq_some.mp hm)).2
    · intro hof
      exact ⟨(session.id, session), Std.TreeMap.mem_toList_iff_getElem?_eq_some.mpr ((hg _ _).mpr ⟨rfl, hof⟩), rfl⟩

theorem recoveryPlan_eq (st : SessionStore) (chr : Chrono) {now maxAge : Int} (ha : 0 < maxAge)
    (hmin : chr.minUtc ≤ now - maxAge) :
    st.recoveryPlan chr now maxAge = .ok (planOf chr now (now - maxAge) st.observations) := by
  rw [recoveryPlan, if_neg (by omega), if_neg (by omega)]
  rfl

theorem planOf_perm (chr : Chrono) (now cut : Int) {rws' : List SessionObservation}
    (hsq : (rws.map seq).Nodup) (hp : rws'.Perm rws) :
    planOf chr now cut rws' = planOf chr now cut rws := by
  have hsq' : (rws'.map seq).Nodup := (hp.map _).nodup_iff.mpr hsq
  have hn (sid : String) (t : Int) (o : SessionObservation) :
      IsNewest chr now cut rws' sid t o ↔ IsNewest chr now cut rws sid t o := by
    constructor
    · rintro ⟨hm, hs, ht, hb⟩
      exact ⟨hp.mem_iff.mp hm, hs, ht, fun o' ho' => hb o' (hp.mem_iff.mpr ho')⟩
    · rintro ⟨hm, hs, ht, hb⟩
      exact ⟨hp.mem_iff.mpr hm, hs, ht, fun o' ho' => hb o' (hp.mem_iff.mp ho')⟩
  obtain ⟨hsr, hm⟩ := planOf_spec chr now cut hsq
  obtain ⟨hsr', hm'⟩ := planOf_spec chr now cut hsq'
  refine hsr'.eq_of_mem_iff hsr ?_
  intro session
  rw [hm', hm]
  simp only [hn]

section Plan

variable (chr : Chrono) (now maxAge : Int) (rws : List SessionObservation)

/-- The timestamp of the observation reads as `t`, which is neither in the future nor too old. -/
def ValidAt (o : SessionObservation) (t : Int) : Prop :=
  chr.parseFromRfc3339 o.observedAt = some t ∧ now - maxAge ≤ t ∧ t ≤ now

/-- The valid observation of the surface that is the greatest by its time and sequence number. -/
def SpeaksFor (sfId : String) (o : SessionObservation) : Prop :=
  o ∈ rws ∧ o.surface.id = sfId ∧ ∃ t, ValidAt chr now maxAge o t ∧
    ∀ o' ∈ rws, o'.surface.id = sfId → ∀ t', ValidAt chr now maxAge o' t' →
      toLex (t', o'.seq) ≤ toLex (t, o.seq)

/-- The session that a surface has by its greatest valid observation, which is not an exit. -/
def ResumesOn (sfId : String) (session : AgentSession) : Prop :=
  ∃ o, SpeaksFor chr now maxAge rws sfId o ∧ o.kind ≠ .exited ∧ o.session = some session ∧ session.autoResumable = true

/-- Each id once and in their order. Of several surfaces with a session of one id, the last one gives the session. -/
structure IsPlan (plan : List AgentSession) : Prop where
  sorted : plan.Pairwise fun s s' => s.id < s'.id
  sound : ∀ x ∈ plan, ∃ sfId, ResumesOn chr now maxAge rws sfId x ∧
    ∀ sfId' session', ResumesOn chr now maxAge rws sfId' session' → session'.id = x.id → sfId' ≤ sfId
  complete : ∀ sfId x, ResumesOn chr now maxAge rws sfId x → ∃ session' ∈ plan, session'.id = x.id

variable {chr now maxAge rws}

theorem timeInWindow_iff (o : SessionObservation) (t : Int) :
    chr.timeInWindow now (now - maxAge) o = some t ↔ ValidAt chr now maxAge o t := by
  unfold Chrono.timeInWindow ValidAt
  cases chr.parseFromRfc3339 o.observedAt with
  | none => simp
  | some observed =>
    simp only [Option.ite_none_left_eq_some, Option.some.injEq]
    constructor
    · rintro ⟨hf, hs, rfl⟩
      exact ⟨rfl, by omega, by omega⟩
    · rintro ⟨rfl, hs, hf⟩
      exact ⟨by omega, by omega, rfl⟩

theorem newer_eq_false_iff (p q : Int × SessionObservation) :
    newer p q = false ↔ toLex (p.1, p.2.seq) ≤ toLex (q.1, q.2.seq) := by
  simp only [newer, Bool.or_eq_false_iff, Bool.and_eq_false_iff, decide_eq_false_iff_not,
    Prod.Lex.toLex_le_toLex]
  omega

theorem isNewest_iff (sid : String) (o : SessionObservation) :
    (∃ t, IsNewest chr now (now - maxAge) rws sid t o) ↔ SpeaksFor chr now maxAge rws sid o := by
  constructor
  · rintro ⟨t, hm, hs, ht, hb⟩
    refine ⟨hm, hs, t, (timeInWindow_iff o t).mp ht, ?_⟩
    intro o' ho' hs' t' ht'
    exact (newer_eq_false_iff (t', o') (t, o)).mp (hb o' ho' hs' t' ((timeInWindow_iff o' t').mpr ht'))
  · rintro ⟨hm, hs, t, ht, hb⟩
    refine ⟨t, hm, hs, (timeInWindow_iff o t).mpr ht, ?_⟩
    intro o' ho' hs' t' ht'
    exact (newer_eq_false_iff (t', o') (t, o)).mpr (hb o' ho' hs' t' ((timeInWindow_iff o' t').mp ht'))

theorem offer_eq_some_iff (o : SessionObservation) (session : AgentSession) :
    o.offer = some session ↔ o.kind ≠ .exited ∧ o.session = some session ∧ session.autoResumable = true := by
  unfold offer
  cases o.session with
  | none => simp
  | some s =>
    simp only [Option.ite_none_left_eq_some, Option.ite_none_right_eq_some, Option.some.injEq]
    constructor
    · rintro ⟨hk, ha, rfl⟩
      exact ⟨hk, rfl, ha⟩
    · rintro ⟨hk, rfl, ha⟩
      exact ⟨hk, ha, rfl⟩

theorem offered_iff (session : AgentSession) :
    Offered (fun sid o => ∃ t, IsNewest chr now (now - maxAge) rws sid t o) session ↔
      ∃ sid, ResumesOn chr now maxAge rws sid session ∧ ∀ sid' session', ResumesOn chr now maxAge rws sid' session' →
          session'.id = session.id → sid' ≤ sid := by
  simp only [Offered, isNewest_iff, offer_eq_some_iff, ResumesOn]
  constructor
  · rintro ⟨sid, o, hsp, ho, hl⟩
    refine ⟨sid, ⟨o, hsp, ho⟩, ?_⟩
    rintro sid' session' ⟨o', hsp', ho'⟩ hid
    exact hl sid' o' session' hsp' ho' hid
  · rintro ⟨sid, ⟨o, hsp, ho⟩, hl⟩
    refine ⟨sid, o, hsp, ho, ?_⟩
    intro sid' o' session' hsp' ho' hid
    exact hl sid' session' ⟨o', hsp', ho'⟩ hid

theorem exists_last_surface {surface : String} {session : AgentSession}
    (h : ResumesOn chr now maxAge rws surface session) :
    ∃ last x', x'.id = session.id ∧ ResumesOn chr now maxAge rws last x' ∧
      ∀ surface' x'', ResumesOn chr now maxAge rws surface' x'' → x''.id = session.id → surface' ≤ last := by
  let surfaces := {sid | ∃ s, s.id = session.id ∧ ResumesOn chr now maxAge rws sid s}
  have hf : surfaces.Finite := by
    refine (rws.map fun o => o.surface.id).finite_toSet.subset ?_
    rintro sid ⟨s, -, o, ⟨hm, hsr, -⟩, -⟩
    exact mem_map.mpr ⟨o, hm, hsr⟩
  obtain ⟨last, ⟨x', hid, hr⟩, hl⟩ := Set.exists_max_image surfaces id hf ⟨surface, session, rfl, h⟩
  exact ⟨last, x', hid, hr, fun sid s hs hsd => hl sid ⟨s, hsd, hs⟩⟩

theorem isPlan_planOf (hsq : (rws.map seq).Nodup) :
    IsPlan chr now maxAge rws (planOf chr now (now - maxAge) rws) := by
  obtain ⟨hs, hm⟩ := planOf_spec chr now (now - maxAge) hsq
  simp only [offered_iff] at hm
  refine ⟨hs, fun x => (hm x).mp, ?_⟩
  intro sid x hr
  obtain ⟨last, session', hid, hl, hmx⟩ := exists_last_surface hr
  refine ⟨session', (hm session').mpr ⟨last, hl, ?_⟩, hid⟩
  intro sid' x'' hr' hid'
  exact hmx sid' x'' hr' (hid'.trans hid)

end Plan

/-- `o`, of time `t` inside the window, is the last appended observation of the surface. -/
structure IsLast (chr : Chrono) (now cut : Int) (rws : List SessionObservation)
    (sfId : String) (t : Int) (o : SessionObservation) : Prop where
  mem : o ∈ rws
  surface : o.surface.id = sfId
  time : chr.timeInWindow now cut o = some t
  last : ∀ o' ∈ rws, o'.surface.id = sfId → o'.seq ≤ o.seq

theorem isNewest_compactObservations (st : SessionStore) (chr : Chrono) (now cut : Int)
    (sid : String) (t : Int) (o : SessionObservation) :
    IsNewest chr now cut st.compactObservations.2.observations sid t o ↔
      IsLast chr now cut st.observations sid t o := by
  have hl : ∀ o, lastOfSurface st.observations o = true ↔
      ∀ o' ∈ st.observations, o'.surface.id = o.surface.id → o'.seq ≤ o.seq := by
    intro o
    simp [lastOfSurface, imp_iff_not_or]
  constructor
  · intro h
    obtain ⟨hm, hk⟩ := mem_filter.mp h.mem
    refine ⟨hm, h.surface, h.time, ?_⟩
    rw [← h.surface]
    exact (hl o).mp hk
  · intro h
    refine ⟨mem_filter.mpr ⟨h.mem, (hl o).mpr (h.surface ▸ h.last)⟩, h.surface, h.time, ?_⟩
    intro o' ho' hs t' ht'
    -- the surface has one row after compaction
    obtain ⟨hm', hk'⟩ := mem_filter.mp ho'
    have hle : o'.seq ≤ o.seq := h.last o' hm' hs
    have hge : o.seq ≤ o'.seq := (hl o').mp hk' o h.mem (h.surface.trans hs.symm)
    obtain rfl := inj_on_of_nodup_map st.nodup_seq hm' h.mem (Int.le_antisymm hle hge)
    obtain rfl : t = t' := by simpa [h.time] using ht'
    exact newer_self _

/-- When each surface speaks through its last appended observation, and through its newest one. -/
def SameOffers (store : SessionStore) (chr : Chrono) (now cut : Int) : Prop :=
  ∀ session, Offered (fun sfId o => ∃ t, IsLast chr now cut store.observations sfId t o) session ↔
      Offered (fun sfId o => ∃ t, IsNewest chr now cut store.observations sfId t o)
        session

/-- **Compaction and recovery.** Compaction leaves the plan as it is exactly if there is none, or if the last
appended observations offer the same sessions as the newest ones. -/
theorem compact_observations_recovery_iff (store : SessionStore) (chrono : Chrono) (now maxAge : Int) :
    store.compactObservations.2.recoveryPlan chrono now maxAge = store.recoveryPlan chrono now maxAge ↔
      maxAge ≤ 0 ∨ now - maxAge < chrono.minUtc ∨ SameOffers store chrono now (now - maxAge) := by
  by_cases ha : maxAge ≤ 0
  · simp [recoveryPlan, ha]
  by_cases hmin : now - maxAge < chrono.minUtc
  · simp [recoveryPlan, ha, hmin]
  have ha' := not_le.mp ha
  have hm' := not_lt.mp hmin
  obtain ⟨hs, hme⟩ := planOf_spec chrono now (now - maxAge) store.nodup_seq
  obtain ⟨hs', hme'⟩ := planOf_spec chrono now (now - maxAge) store.compactObservations.2.nodup_seq
  simp only [isNewest_compactObservations] at hme'
  rw [recoveryPlan_eq store chrono ha' hm', recoveryPlan_eq store.compactObservations.2 chrono ha' hm',
    Except.ok.injEq]
  constructor
  · intro hsm
    refine .inr (.inr ?_)
    intro session
    rw [← hme' session, hsm, hme session]
  · rintro (h | h | h)
    · exact absurd h ha
    · exact absurd h hmin
    · refine hs'.eq_of_mem_iff hs ?_
      intro session
      rw [hme' session, hme session]
      exact h session

def ledgerOf (observations : List SessionObservation) : SessionStore :=
  observations.foldl (fun store o => ((store.appendObservation o).map Prod.snd).getD store) .openMemory

def codexSession : AgentSession where
  id := "codex:abc"
  harness := "codex"
  sessionId := "abc"
  cwd := "/tmp"
  resume := { harness := "codex", sessionId := "abc", cwd := "/tmp", argv := ["codex", "resume", "abc"] }
  confidence := .exact
  state := .active

def codexObservedAt (observedAt : String) : SessionObservation where
  seq := 0
  observedAt := observedAt
  surface := { id := "s1", terminal := "ghostty", title := none, cwd := "/tmp", process := none }
  session := some codexSession
  capabilities := { read := true, write := true, resize := true, layout := true, durablePty := true }
  kind := .updated

def twoTimestamps : Chrono where
  parseFromRfc3339 text :=
    if text = "2026-01-01T12:00:00Z" then some 1767268800000000000
    else if text = "2026-01-01T06:00:00Z" then some 1767247200000000000
    else none
  minUtc := -8334601228800000000000

/-- An observation of noon is followed by one that is six hours older, which is not inside the window. -/
theorem compact_observations_drops_newest :
    let ledger := ledgerOf
      [codexObservedAt "2026-01-01T12:00:00Z", codexObservedAt "2026-01-01T06:00:00Z"]
    let now := 1767268801000000000
    let maxAge := 4 * 60 * 60 * 1000000000
    ledger.recoveryPlan twoTimestamps now maxAge = .ok [codexSession] ∧
      ledger.compactObservations.2.recoveryPlan twoTimestamps now maxAge = .ok [] := by
  constructor <;> rfl

/-- There is a plan, and it is the same one in whatever order the rows are read. -/
def PlansExactly (store : SessionStore) (chr : Chrono) (now maxAge : Int) : Prop :=
  ∃ plan, store.recoveryPlan chr now maxAge = .ok plan ∧ IsPlan chr now maxAge store.observations plan ∧
    ∀ rws, rws.Perm store.observations → planOf chr now (now - maxAge) rws = plan

/-- **The recovery plan.** An age that is not positive is an error, and one that reaches behind the first instant a
panic. -/
theorem recovery_plan_exact (store : SessionStore) (chrono : Chrono) (now maxAge : Int) :
    (maxAge ≤ 0 → store.recoveryPlan chrono now maxAge = .error .nonPositiveMaxAge) ∧
      (0 < maxAge → now - maxAge < chrono.minUtc → store.recoveryPlan chrono now maxAge = .error .overflow) ∧
      (0 < maxAge → chrono.minUtc ≤ now - maxAge → PlansExactly store chrono now maxAge) := by
  refine ⟨?_, ?_, ?_⟩
  · intro ha
    rw [recoveryPlan, if_pos ha]
  · intro ha hmin
    rw [recoveryPlan, if_neg (by omega), if_pos hmin]
  · intro ha hmin
    exact ⟨_, recoveryPlan_eq store chrono ha hmin, isPlan_planOf store.nodup_seq,
      fun rws hp => planOf_perm chrono now (now - maxAge) store.nodup_seq hp⟩

theorem recovery_plan_without_age :
    ¬ PlansExactly (ledgerOf [codexObservedAt "2026-01-01T12:00:00Z"]) twoTimestamps 1767268800000000000 0 := by
  rintro ⟨p, hp, -, -⟩
  have he : (ledgerOf [codexObservedAt "2026-01-01T12:00:00Z"]).recoveryPlan twoTimestamps
      1767268800000000000 0 = .error .nonPositiveMaxAge := rfl
  rw [he] at hp
  cases hp

end ShareCli.Session
