import Mathlib.Data.List.Basic

/-!
# PKCS#7 padding (`crates/gateway/src/pkcs7_padding.rs`)

`pad` fills the last block with copies of the number of bytes it adds.
-/

namespace ShareCli.Gateway.Pkcs7

open List

def pkcs7Err : String := "invalid PKCS#7 padding"

def requiredPaddingLen (len block : Nat) : Nat :=
  if len % block = 0 then block else block - len % block

/-- `none` is the panic of the assertion on the block size. -/
def pad (data : List UInt8) (block : Nat) : Option (List UInt8) :=
  if block = 0 then none
  else
    let n := requiredPaddingLen data.length block
    some (data ++ List.replicate n (UInt8.ofNat n))

def unpad (data : List UInt8) (block : Nat) : Except String (List UInt8) :=
  if data.isEmpty || block = 0 then .error pkcs7Err
  else if data.length % block ≠ 0 then .error pkcs7Err
  else
    let n := (data.getLast?.getD 0).toNat
    if n = 0 || block < n || data.length < n then .error pkcs7Err
    else if data.drop (data.length - n) ≠ List.replicate n (UInt8.ofNat n) then .error pkcs7Err
    else .ok (data.take (data.length - n))

variable {data padded : List UInt8} {block n : Nat}

theorem requiredPaddingLen_pos (hb : 0 < block) : 0 < requiredPaddingLen n block := by
  have hr := Nat.mod_lt n hb
  unfold requiredPaddingLen
  split_ifs <;> omega

theorem requiredPaddingLen_le : requiredPaddingLen n block ≤ block := by
  unfold requiredPaddingLen
  split_ifs <;> omega

/-- The padding is the one number from 1 to the block size that fills the last block. -/
theorem requiredPaddingLen_eq_iff (hb : 0 < block) (len : Nat) :
    requiredPaddingLen len block = n ↔ 0 < n ∧ n ≤ block ∧ (len + n) % block = 0 := by
  have hr := Nat.mod_lt len hb
  have hs : (len + n) % block = (len % block + n) % block := by rw [Nat.mod_add_mod]
  constructor
  · rintro rfl
    refine ⟨requiredPaddingLen_pos hb, requiredPaddingLen_le, ?_⟩
    rw [hs, requiredPaddingLen]
    split_ifs with h
    · rw [h, Nat.zero_add, Nat.mod_self]
    · rw [Nat.add_sub_cancel' (Nat.le_of_lt hr), Nat.mod_self]
  · rintro ⟨hp, hle, hf⟩
    rw [hs] at hf
    -- what is in the last block and the padding make at least one and less than two blocks
    have ho : len % block + n = block := by
      obtain ⟨k, hk⟩ := Nat.dvd_of_mod_eq_zero hf
      rcases k with _ | _ | k
      · omega
      · omega
      · have : block * (k + 1 + 1) = block * k + block + block := by rw [Nat.mul_succ, Nat.mul_succ]
        omega
    unfold requiredPaddingLen
    split_ifs <;> omega

/-- What is accepted: some bytes that fill whole blocks together with copies of their number. -/
theorem unpad_eq_ok : unpad padded block = .ok data ↔ ∃ n, 0 < n ∧ n ≤ block ∧ n < 256 ∧
    (data.length + n) % block = 0 ∧ padded = data ++ replicate n (UInt8.ofNat n) := by
  constructor
  · intro h
    simp only [unpad, Bool.or_eq_true, decide_eq_true_eq, ne_eq, ite_not] at h
    split_ifs at h with he hb hn hc
    obtain rfl := Except.ok.inj h
    have hln : (padded.take (padded.length - (padded.getLast?.getD 0).toNat)).length
        + (padded.getLast?.getD 0).toNat = padded.length := by
      rw [length_take]
      omega
    refine ⟨(padded.getLast?.getD 0).toNat, by omega, by omega, UInt8.toNat_lt _, by rw [hln, hb], ?_⟩
    rw [← hc, take_append_drop]
  · rintro ⟨n, hn, hle, hby, hf, rfl⟩
    have hl : ((data ++ replicate n (UInt8.ofNat n)).getLast?.getD 0).toNat = n := by
      rw [getLast?_append, getLast?_replicate, if_neg (by omega), Option.some_or, Option.getD_some,
        UInt8.toNat_ofNat', Nat.mod_eq_of_lt hby]
    have hln : (data ++ replicate n (UInt8.ofNat n)).length = data.length + n := by simp
    have hne : (data ++ replicate n (UInt8.ofNat n)).isEmpty = false := by
      rw [isEmpty_eq_false_iff, ← length_pos_iff, hln]
      omega
    simp only [unpad, hl, hln, hne, hf, Nat.add_sub_cancel, drop_left, take_left]
    simp [show ¬ block = 0 by omega, show ¬ n = 0 by omega, show ¬ block < n by omega]

/-- A byte can count the padding of each of these blocks. -/
theorem unpad_eq_ok_iff (hpos : 1 ≤ block) (hbyte : block ≤ 255) :
    unpad padded block = .ok data ↔ some padded = pad data block := by
  rw [unpad_eq_ok, pad, if_neg (by omega)]
  simp only [Option.some.injEq]
  constructor
  · rintro ⟨n, hn, hle, -, hf, rfl⟩
    rw [(requiredPaddingLen_eq_iff hpos data.length).mpr ⟨hn, hle, hf⟩]
  · rintro rfl
    obtain ⟨hn, hle, hf⟩ := (requiredPaddingLen_eq_iff hpos data.length).mp rfl
    exact ⟨_, hn, hle, by omega, hf, rfl⟩

theorem unpad_eq_ok_four : (unpad [1, 2, 3, 4, 5, 3, 3, 3] 4 = .ok [1, 2, 3, 4, 5] ↔
      some [1, 2, 3, 4, 5, 3, 3, 3] = pad [1, 2, 3, 4, 5] 4) ∧
    pad [1, 2, 3, 4, 5] 4 = some [1, 2, 3, 4, 5, 3, 3, 3] :=
  ⟨unpad_eq_ok_iff (by decide) (by decide), by decide⟩

end ShareCli.Gateway.Pkcs7
