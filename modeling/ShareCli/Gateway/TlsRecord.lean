import ShareCli.Foundation.Bytes

/-!
# TLS records (`crates/gateway/src/tls_record.rs`)

A record is its type, its version, the length of its payload in two bytes, and the payload.
-/

namespace ShareCli.Gateway.Tls

open Foundation List

inductive ContentType where
  | changeCipherSpec
  | alert
  | handshake
  | applicationData
deriving DecidableEq

def ContentType.fromByte (b : UInt8) : Option ContentType :=
  if b = 20 then some .changeCipherSpec
  else if b = 21 then some .alert
  else if b = 22 then some .handshake
  else if b = 23 then some .applicationData
  else none

def ContentType.toByte : ContentType → UInt8
  | .changeCipherSpec => 20
  | .alert => 21
  | .handshake => 22
  | .applicationData => 23

structure ProtocolVersion where
  major : UInt8
  minor : UInt8
deriving DecidableEq

inductive TlsError where
  | tooShort (need got : Nat)
  | unknownContentType (b : UInt8)
  | badLength (declared available : Nat)
deriving DecidableEq

/-- A record of the stream. -/
structure TlsRecord where
  contentType : ContentType
  version : ProtocolVersion
  payload : List UInt8
deriving DecidableEq

def parseRecord : List UInt8 → Except TlsError TlsRecord
  | b :: major :: minor :: hi :: lo :: rest =>
    match ContentType.fromByte b with
    | none => .error (.unknownContentType b)
    | some contentType =>
      let len := (ofBeBytes hi lo).toNat
      if rest.length < len then .error (.badLength len rest.length)
      else .ok { contentType, version := { major, minor }, payload := rest.take len }
  | buf => .error (.tooShort 5 buf.length)

def writeRecord (kind : ContentType) (version : ProtocolVersion) (payload buf : List UInt8) : List UInt8 :=
  buf ++ [kind.toByte, version.major, version.minor] ++ toBeBytes (UInt16.ofNat payload.length) ++ payload

def writeRecords (records : List TlsRecord) : List UInt8 :=
  records.foldl (fun buf record => writeRecord record.contentType record.version record.payload buf) []

/-- Each record takes five bytes at least, so that the number of bytes is enough fuel. -/
def readRecords : Nat → List UInt8 → Except TlsError (List TlsRecord)
  | _, [] => .ok []
  | 0, buf => .error (.tooShort 5 buf.length)
  | fuel + 1, buf =>
    match parseRecord buf with
    | .error e => .error e
    | .ok record =>
      match readRecords fuel (buf.drop (5 + record.payload.length)) with
      | .error e => .error e
      | .ok records => .ok (record :: records)

def parseRecords (buf : List UInt8) : Except TlsError (List TlsRecord) := readRecords buf.length buf

theorem fromByte_toByte (k : ContentType) : ContentType.fromByte k.toByte = some k := by
  cases k <;> rfl

def wire (record : TlsRecord) : List UInt8 := writeRecord record.contentType record.version record.payload []

theorem length_wire (r : TlsRecord) : (wire r).length = 5 + r.payload.length := by
  simp [wire, writeRecord, toBeBytes]
  omega

theorem writeRecords_eq (records : List TlsRecord) : writeRecords records = records.flatMap wire := by
  have hw : ∀ (r : TlsRecord) buf,
      writeRecord r.contentType r.version r.payload buf = buf ++ wire r := by
    simp [wire, writeRecord]
  simp only [writeRecords, hw, foldl_append_eq_append, flatMap_def, nil_append]

theorem parseRecord_wire {r : TlsRecord} (h : r.payload.length < 65536) (rs : List UInt8) :
    parseRecord (wire r ++ rs) = .ok r := by
  have hl : (UInt16.ofNat r.payload.length).toNat = r.payload.length := by
    rw [UInt16.toNat_ofNat', Nat.mod_eq_of_lt h]
  have hw := congrArg UInt16.toNat (ofBeBytes_ofNat (UInt16.ofNat r.payload.length))
  rw [hl] at hw
  simp only [wire, writeRecord, toBeBytes, hl, nil_append, cons_append, parseRecord, fromByte_toByte,
    hw, length_append, take_left]
  rw [if_neg (by omega)]

theorem length_payload_lt {buf : List UInt8} {r : TlsRecord} (h : parseRecord buf = .ok r) :
    r.payload.length < 65536 := by
  unfold parseRecord at h
  split at h
  · next b m minor hi lo rs =>
    cases hk : ContentType.fromByte b with
    | none => simp [hk] at h
    | some k =>
      simp only [hk] at h
      split_ifs at h
      obtain rfl := Except.ok.inj h
      exact Nat.lt_of_le_of_lt (length_take_le _ _) (UInt16.toNat_lt _)
  · cases h

theorem readRecords_wire {records : List TlsRecord} (h : ∀ r ∈ records, r.payload.length < 65536)
    (f : Nat) (hf : (records.flatMap wire).length ≤ f) :
    readRecords f (records.flatMap wire) = .ok records := by
  induction records generalizing f with
  | nil => cases f <;> rfl
  | cons r records ih =>
    obtain ⟨hr, hrc⟩ := forall_mem_cons.mp h
    rw [flatMap_cons, length_append, length_wire] at hf
    obtain ⟨f, rfl⟩ := Nat.exists_eq_succ_of_ne_zero (by omega : f ≠ 0)
    have hne : wire r ++ records.flatMap wire ≠ [] := by simp [wire, writeRecord]
    rw [flatMap_cons, readRecords.eq_3 _ _ hne, parseRecord_wire hr]
    dsimp only
    rw [← length_wire, drop_left, ih hrc f (by omega)]

theorem payload_lt_of_readRecords {f : Nat} {buf : List UInt8} {records : List TlsRecord}
    (h : readRecords f buf = .ok records) : ∀ r ∈ records, r.payload.length < 65536 := by
  fun_induction readRecords f buf generalizing records with
  | case1 => cases h; simp
  | case2 => cases h
  | case3 => cases h
  | case4 => cases h
  | case5 f buf hne r hp rs hrest ih =>
    obtain rfl := Except.ok.inj h
    exact forall_mem_cons.mpr ⟨length_payload_lt hp, ih hrest⟩

/-- The stream is read back exactly if each payload has a length that two bytes can hold. -/
theorem parseRecords_writeRecords_iff (records : List TlsRecord) :
    parseRecords (writeRecords records) = .ok records ↔
      ∀ record ∈ records, record.payload.length < 65536 := by
  rw [writeRecords_eq, parseRecords]
  exact ⟨payload_lt_of_readRecords, fun h => readRecords_wire h _ (Nat.le_refl _)⟩

/-- Of `2 ^ 16` bytes none is left, and the bytes are taken for further records. -/
theorem long_payload_lost : parseRecord (writeRecords [⟨.applicationData, ⟨3, 3⟩, List.replicate 65536 0⟩]) =
      .ok ⟨.applicationData, ⟨3, 3⟩, []⟩ ∧
    parseRecords (writeRecords [⟨.applicationData, ⟨3, 3⟩, List.replicate 65536 0⟩]) ≠
      .ok [⟨.applicationData, ⟨3, 3⟩, List.replicate 65536 0⟩] := by
  have hz : UInt16.ofNat 65536 = 0 := rfl
  constructor
  · simp only [writeRecords, foldl_cons, foldl_nil, writeRecord, nil_append,
      length_replicate, hz]
    generalize replicate 65536 (0 : UInt8) = payload
    rfl
  · intro h
    have hlt := payload_lt_of_readRecords h _ (mem_singleton_self _)
    rw [length_replicate] at hlt
    exact Nat.lt_irrefl _ hlt

end ShareCli.Gateway.Tls
