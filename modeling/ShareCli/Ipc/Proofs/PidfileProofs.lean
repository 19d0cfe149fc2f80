import ShareCli.Ipc.ServeLock
import ShareCli.Foundation.Proofs.SerdeProofs
import Mathlib.Tactic.ByContra

/-!
# What the pidfile says about its holder

The ipc crate reads the old pidfile before it truncates and rewrites it, and the cursor stays behind what it
has read; so the new record stands behind as many zero bytes (`tryAcquire_ipc`).
-/

namespace ShareCli.Ipc

open Foundation Json List Option Text

namespace ServeInfo

def members (info : ServeInfo) : List (String × Json) :=
  [("pid", .nat info.pid.toNat), ("service", .string info.service.toList),
    ("url", .string info.url.toList), ("started_at_unix", .nat info.startedAtUnix.toNat)]

theorem toJson_eq (info : ServeInfo) : info.toJson = .object info.members := rfl

theorem toJson_printable (info : ServeInfo) : info.toJson.Printable := by
  rw [toJson_eq]
  refine printable_object ?_
  simp only [members, forall_mem_cons]
  exact ⟨printable_nat _, printable_string _, printable_string _, printable_nat _, forall_mem_nil _⟩

theorem fields_toJson (info : ServeInfo) : info.toJson.fields = some (.map info.members) := by
  rw [toJson_eq, fields_object]

theorem decode_toJson (info : ServeInfo) (fin : List Char → Bool) (d : Nat) :
    info.toJson.fields.bind (decode (source fin d)) = some info := by
  have hp := source_below fin d info.pid.toNat_lt (by decide)
  have hs := source_below fin d info.startedAtUnix.toNat_lt (by decide)
  have hsr := source_string fin d info.service
  have hu := source_string fin d info.url
  have ha : Fields.accepts fieldNames (.map info.members) = true := rfl
  rw [fields_toJson, bind_some, decode, if_pos ha]
  -- Each field is looked up by its name.
  show ((source fin d).below (2 ^ 32) (.nat info.pid.toNat)).bind (fun pid =>
      ((source fin d).string (.string info.service.toList)).bind fun service =>
        ((source fin d).string (.string info.url.toList)).bind fun url =>
          ((source fin d).below (2 ^ 64) (.nat info.startedAtUnix.toNat)).map fun s =>
            ServeInfo.mk (.ofNat pid) service url (.ofNat s)) = some info
  rw [hp, hsr, hu, hs]
  simp

theorem render_toJson (info : ServeInfo) : ∃ b, info.toJson.render = '{' :: (b ++ ['}']) := ⟨_, rfl⟩

theorem fromStr_replicate (n : Nat) (info : ServeInfo) :
    fromStr (replicate n '\x00' ++ info.toJson.render) = if n = 0 then some info else none := by
  obtain ⟨b, hb⟩ := render_toJson info
  have ht : trim (replicate n '\x00' ++ info.toJson.render) =
      replicate n '\x00' ++ info.toJson.render := by
    rw [hb]
    apply trim_eq_self
    · intro c hc
      cases n with
      | zero =>
        obtain rfl : '{' = c := by simpa using hc
        decide
      | succ n =>
        obtain rfl : '\x00' = c := by simpa [replicate_succ] using hc
        decide
    · intro c hc
      rw [← cons_append, ← append_assoc, getLast?_concat] at hc
      obtain rfl : '}' = c := by simpa using hc
      decide
  rw [fromStr, ht, Foundation.fromStr]
  cases n with
  | zero =>
    rw [replicate_zero, nil_append, parse_render (toJson_printable info)]
    exact decode_toJson info _ _
  | succ n =>
    have hp : parse (replicate (n + 1) '\x00' ++ info.toJson.render) = none := by
      rw [replicate_succ, cons_append]
      rfl
    rw [hp]
    rfl

theorem decodeUtf8_replicate (n : Nat) (info : ServeInfo) :
    decodeUtf8 (replicate n 0 ++ info.toVec) =
      some (replicate n '\x00' ++ info.toJson.render) := by
  rw [toVec, ← encodeUtf8_replicate_nul, ← encodeUtf8_append, decodeUtf8_encodeUtf8]

theorem ofBytes_replicate (n : Nat) (info : ServeInfo) :
    ofBytes (replicate n 0 ++ info.toVec) = if n = 0 then some info else none := by
  rw [ofBytes, decodeUtf8_replicate]
  exact fromStr_replicate n info

end ServeInfo

section Takeover

variable {Caller : Type} [DecidableEq Caller] {service : String} {m : Server} {c : Caller}
  {live : UInt32 → Bool} {now : UInt64} {sidecarOk : Bool} {d d' : PidDir Caller} {i : Nat}
  {info : ServeInfo}

structure TakenOver (d' : PidDir Caller) (c : Caller) (i padding : Nat) (info : ServeInfo) : Prop where
  path : d'.files.path = some i
  locked : d'.locks i = some c
  contents : d'.files.contents i = replicate padding 0 ++ info.toVec

theorem tryAcquire_ipc (h : tryAcquire .ipc service m c live now sidecarOk d = (d', some (i, info))) :
    info = m.info service now ∧ TakenOver d' c i (d.pidfile.getD []).length info := by
  simp only [tryAcquire] at h
  split at h
  · simp at h
  · rename_i locks hl
    obtain ⟨-, rfl⟩ := Flock.tryLock_eq_some.mp hl
    split at h
    · simp at h
    · obtain ⟨rfl, rfl, rfl⟩ := h
      have hp : d.openPidfile.files.contents d.files.openFile = d.pidfile.getD [] :=
        d.files.openCreate_contents
      have hw : ∀ current data, ((d.openPidfile.setLenZero d.files.openFile).writePidfile
          d.files.openFile current data).files.contents d.files.openFile = replicate current 0 ++ data := by
        intro current data
        simp [PidDir.writePidfile, PidDir.setLenZero, Inode.Files.write, Inode.Files.truncate,
          Inode.writeAt_nil]
      refine ⟨rfl, ?_, ?_, ?_⟩
      · cases sidecarOk <;> exact d.files.openCreate_path
      · cases sidecarOk <;> exact Function.update_self ..
      · rw [← hp]
        cases sidecarOk <;> exact hw _ _

omit [DecidableEq Caller] in
theorem TakenOver.probe {p : Nat} (h : TakenOver d' c i p info) (dir service : String)
    (live : UInt32 → Bool) : probe dir service live d' =
      if p = 0 then .ok (.running info false)
      else .error ("parse pidfile " ++ pidfilePath dir service) := by
  rw [Ipc.probe, h.path]
  simp only [h.locked, isSome_some, probeText, h.contents, ServeInfo.decodeUtf8_replicate,
    ServeInfo.fromStr_replicate]
  split <;> simp_all

omit [DecidableEq Caller] in
theorem TakenOver.record {p : Nat} (h : TakenOver d' c i p info) :
    d'.pidfile.bind ServeInfo.ofBytes = if p = 0 then some info else none := by
  rw [PidDir.pidfile, h.path, map_some, bind_some, h.contents]
  exact ServeInfo.ofBytes_replicate p info

/-- **Pidfile identity.** The pidfile says who holds the lock exactly if it was absent or empty before. -/
theorem try_acquire_pidfile_iff (dir : String)
    (h : tryAcquire .ipc service m c live now sidecarOk d = (d', some (i, info))) :
    (d'.pidfile.bind ServeInfo.ofBytes = some (m.info service now) ∧
      ∀ live', probe dir service live' d' = .ok (.running (m.info service now) false)) ↔
    d.pidfile.getD [] = [] := by
  obtain ⟨rfl, ht⟩ := tryAcquire_ipc h
  rw [ht.record, ← length_eq_zero_iff]
  constructor
  · rintro ⟨hp, -⟩
    by_contra hne
    rw [if_neg hne] at hp
    simp at hp
  · intro he
    refine ⟨if_pos he, fun live' => ?_⟩
    rw [ht.probe, if_pos he]

end Takeover

def leftBehind (pidfile : Option (List UInt8)) : PidDir Unit := (serveInit pidfile fun _ => false).toPidDir

theorem try_acquire_pidfile_fresh :
    ∃ d' i, tryAcquire .ipc "svc" ⟨11, "u"⟩ () (fun _ => true) 2 true (leftBehind none) =
        (d', some (i, ⟨11, "svc", "u", 2⟩)) ∧
      d'.pidfile.bind ServeInfo.ofBytes = some ⟨11, "svc", "u", 2⟩ ∧
      probe "/run" "svc" (fun _ => true) d' = .ok (.running ⟨11, "svc", "u", 2⟩ false) := by
  have h : tryAcquire .ipc "svc" ⟨11, "u"⟩ () (fun _ => true) 2 true (leftBehind none) =
      (_, some (1, ⟨11, "svc", "u", 2⟩)) := rfl
  obtain ⟨hp, hpr⟩ := (try_acquire_pidfile_iff "/run" h).mpr rfl
  exact ⟨_, _, h, hp, hpr _⟩

theorem try_acquire_takeover_unreadable :
    ∃ d' i, tryAcquire .ipc "svc" ⟨11, "u"⟩ () (fun pid => pid == 11) 2 true
        (leftBehind (some (ServeInfo.mk 7 "svc" "u" 1).toVec)) = (d', some (i, ⟨11, "svc", "u", 2⟩)) ∧
      d'.pidfile.bind ServeInfo.ofBytes = none ∧
      probe "/run" "svc" (fun pid => pid == 11) d' = .error "parse pidfile /run/svc.serve.lock" := by
  have hg : (tryAcquire .ipc "svc" ⟨11, "u"⟩ () (fun pid => pid == 11) 2 true
      (leftBehind (some (ServeInfo.mk 7 "svc" "u" 1).toVec))).2 =
        some (0, ⟨11, "svc", "u", 2⟩) := by decide +kernel
  have hp : ∀ (p : PidDir Unit × Option (Nat × ServeInfo)) {r}, p.2 = r → ∃ d', p = (d', r) := by
    rintro ⟨d', _⟩ _ rfl
    exact ⟨d', rfl⟩
  obtain ⟨d', h⟩ := hp _ hg
  obtain ⟨-, ht⟩ := tryAcquire_ipc h
  have hpd : ((leftBehind (some (ServeInfo.mk 7 "svc" "u" 1).toVec)).pidfile.getD []).length ≠ 0 := by
    decide +kernel
  refine ⟨d', 0, h, ?_, ?_⟩
  · rw [ht.record, if_neg hpd]
  · rw [ht.probe, if_neg hpd]
    decide

end ShareCli.Ipc
