import ReplayFirmware.Card.Capacity

/-! Fields of a card's register, cut out by `extractValueFromBitstream`.

    The field's last byte is shifted down, the bytes before it are shifted up over it, and what is too much
    is masked away. For any field of at most 32 bits of a 16-byte register, on whatever bits it begins and
    ends, the bytes that are read are in the register and the value is the field. -/

namespace Card

/-- `<<` on 32 bits, 0 from 32 on as the ARM has it. -/
def shl (x n : UInt32) : UInt32 := if n < 32 then x <<< n else 0

/-- A byte of the buffer, if it is there. -/
def byteAt (buffer : Fin 16 → UInt8) (byte_offset : UInt32) : Option UInt32 :=
  if h : byte_offset.toNat < 16 then some (buffer ⟨byte_offset.toNat, h⟩).toUInt32 else none

/-- The loop over the bytes ahead of the last one. -/
def extractLoop (buffer : Fin 16 → UInt8) (bits_left : ℤ) (byte_offset bit_end value : UInt32) :
    Option UInt32 :=
  if 0 < bits_left then do
    let byte ← byteAt buffer byte_offset
    extractLoop buffer (bits_left - 8) (byte_offset - 1) (bit_end + 8) (value ||| shl byte bit_end)
  else some value
termination_by bits_left.toNat
decreasing_by omega

/-- `extractValueFromBitstream` on a register of 128 bits, `none` where it reads outside of it. -/
def extractValueFromBitstream (buffer : Fin 16 → UInt8) (bit_start bit_end : UInt32) : Option UInt32 := do
  let bit_length := bit_start - bit_end + 1
  let byte_offset := (128 - bit_end - 1) >>> 3
  let bit_end := bit_end &&& 7
  let byte ← byteAt buffer byte_offset
  let value := byte >>> bit_end
  let bit_end := 8 - bit_end
  let value ← extractLoop buffer ((bit_length.toNat : ℤ) - bit_end.toNat) (byte_offset - 1) bit_end value
  return value &&& (shl 1 bit_length - 1)

/-! ### The bytes -/

variable {buffer : Fin 16 → UInt8}

theorem byteAt_of_lt {byte_offset : UInt32} (h : byte_offset.toNat < 16) :
    byteAt buffer byte_offset = some (buffer ⟨byte_offset.toNat, h⟩).toUInt32 := dif_pos h

/-- A byte that is shifted up over the bits that are there goes on with them. -/
theorem or_shl {value byte n : UInt32} {reg lo s : ℕ} (hsn : n.toNat = s) (hs : s < 32)
    (hvalue : value.toNat = reg / 2 ^ lo % 2 ^ s) (hbyte : byte.toNat = reg / 2 ^ (lo + s) % 2 ^ 8) :
    (value ||| shl byte n).toNat = reg / 2 ^ lo % 2 ^ (s + 8) % 2 ^ 32 := by
  have hlt : n < 32 := by
    rw [UInt32.lt_iff_toNat_lt, hsn]
    exact hs
  have hpow : 2 ^ 32 = 2 ^ s * 2 ^ (32 - s) := by rw [← pow_add, Nat.add_sub_cancel' hs.le]
  have hlow : reg / 2 ^ lo % 2 ^ s < 2 ^ s := Nat.mod_lt _ (Nat.two_pow_pos s)
  rw [shl, if_pos hlt, UInt32.toNat_or, UInt32.toNat_shiftLeft, hsn, Nat.mod_eq_of_lt hs, Nat.shiftLeft_eq, hvalue,
    hbyte, field_append reg lo s 8, hpow, Nat.mul_comm _ (2 ^ s), Nat.mul_mod_mul_left, Nat.or_comm,
    ← Nat.two_pow_add_eq_or_of_lt hlow]
  generalize reg / 2 ^ (lo + s) % 2 ^ 8 = high
  have hmod := Nat.mod_lt high (Nat.two_pow_pos (32 - s))
  have hle : 2 ^ s * (high % 2 ^ (32 - s)) + 2 ^ s ≤ 2 ^ s * 2 ^ (32 - s) := by
    rw [← Nat.mul_succ]
    exact Nat.mul_le_mul_left _ hmod
  conv_rhs => rw [← Nat.div_add_mod high (2 ^ (32 - s)), Nat.mul_add, ← Nat.mul_assoc, Nat.add_assoc,
    Nat.mul_add_mod]
  exact (Nat.mod_eq_of_lt (by omega)).symm

/-- A byte on whose border the bits of a register are cut. -/
theorem byte_bits {byte_offset : UInt32} {n : ℕ} (hoffset : byte_offset.toNat + n / 8 = 15) (hn : n % 8 = 0) :
    ∃ byte, byteAt buffer byte_offset = some byte ∧ byte.toNat = register buffer / 2 ^ n % 2 ^ 8 := by
  have hlt : byte_offset.toNat < 16 := by omega
  refine ⟨_, byteAt_of_lt hlt, ?_⟩
  have hbyte := register_byte buffer ⟨byte_offset.toNat, hlt⟩
  have hpow : (256 : ℕ) ^ (15 - byte_offset.toNat) = 2 ^ n := by
    rw [show (256 : ℕ) = 2 ^ 8 from rfl, ← pow_mul]
    exact congrArg _ (by omega)
  rw [UInt8.toNat_toUInt32, ← hbyte, hpow]
  rfl

/-- The loop goes on with the byte in front of the bits that are there, until there are as many as are
    wanted; what it reads is in the register. -/
theorem extractLoop_bits {lo len : ℕ} (hlen : len ≤ 32) (hin : lo + len ≤ 128) : ∀ (n s : ℕ)
    (byte_offset bit_end value : UInt32), len ≤ s + 8 * n → (lo + s) % 8 = 0 →
    (s < len → byte_offset.toNat + (lo + s) / 8 = 15) → bit_end.toNat = s →
    value.toNat = register buffer / 2 ^ lo % 2 ^ s % 2 ^ 32 →
    ∃ r t, extractLoop buffer ((len : ℤ) - s) byte_offset bit_end value = some r ∧ len ≤ t ∧
      r.toNat = register buffer / 2 ^ lo % 2 ^ t % 2 ^ 32
  | 0, s, _, _, value, hn, _, _, _, hvalue => by
    refine ⟨value, s, ?_, by omega, hvalue⟩
    rw [extractLoop, if_neg (by omega)]
  | n + 1, s, byte_offset, bit_end, value, hn, hborder, hoffset, hend, hvalue => by
    rw [extractLoop]
    by_cases hmore : s < len
    · have hs : s < 32 := by omega
      have hoff := hoffset hmore
      obtain ⟨byte, hbyte, hbits⟩ := @byte_bits buffer _ _ hoff hborder
      have hlow : register buffer / 2 ^ lo % 2 ^ s < 2 ^ 32 :=
        (Nat.mod_lt _ (Nat.two_pow_pos s)).trans_le (Nat.pow_le_pow_right (by decide) hs.le)
      rw [Nat.mod_eq_of_lt hlow] at hvalue
      have hnext := or_shl hend hs hvalue hbits
      have hoffset' : s + 8 < len → (byte_offset - 1).toNat + (lo + (s + 8)) / 8 = 15 := by
        intro hlt
        rw [UInt32.toNat_sub, UInt32.toNat_one]
        omega
      have hend' : (bit_end + 8).toNat = s + 8 := by
        rw [UInt32.toNat_add, hend]
        show (s + 8) % 2 ^ 32 = _
        omega
      rw [if_pos (by omega), hbyte, Option.bind_eq_bind, Option.bind_some,
        show (len : ℤ) - s - 8 = (len : ℤ) - (s + 8 : ℕ) by push_cast; ring]
      exact extractLoop_bits hlen hin n (s + 8) _ _ _ (by omega) (by omega) hoffset' hend' hnext
    · rw [if_neg (by omega)]
      exact ⟨value, s, rfl, not_lt.mp hmore, hvalue⟩

/-- The mask leaves the bits that are wanted. -/
theorem and_shl (value : UInt32) {n : UInt32} {len : ℕ} (hn : n.toNat = len) (hlen : len ≤ 32) :
    (value &&& (shl 1 n - 1)).toNat = value.toNat % 2 ^ len := by
  have hmask : (shl 1 n - 1).toNat = 2 ^ len - 1 := by
    by_cases hlt : len < 32
    · have hn' : n < 32 := by
        rw [UInt32.lt_iff_toNat_lt, hn]
        exact hlt
      have hpow : 2 ^ len < 2 ^ 32 := Nat.pow_lt_pow_right (by decide) hlt
      have hpos := Nat.two_pow_pos len
      rw [shl, if_pos hn', UInt32.toNat_sub, UInt32.toNat_shiftLeft, hn, Nat.mod_eq_of_lt hlt, UInt32.toNat_one,
        Nat.one_shiftLeft, Nat.mod_eq_of_lt hpow]
      omega
    · obtain rfl : len = 32 := by omega
      rw [shl, if_neg (by rw [UInt32.lt_iff_toNat_lt, hn]; decide)]
      rfl
  rw [UInt32.toNat_and, hmask, Nat.and_two_pow_sub_one_eq_mod]

/-- Every field of at most 32 bits is cut out, wherever it begins and ends. -/
theorem extractValueFromBitstream_bits (buffer : Fin 16 → UInt8) (bit_start bit_end : UInt32)
    (horder : bit_end ≤ bit_start) (hstart : bit_start ≤ 127) (hlen : bit_start.toNat + 1 - bit_end.toNat ≤ 32) :
    ∃ value, extractValueFromBitstream buffer bit_start bit_end = some value ∧
      value.toNat = bits (register buffer) bit_start.toNat bit_end.toNat := by
  have horder' : bit_end.toNat ≤ bit_start.toNat := horder
  have hstart' : bit_start.toNat ≤ 127 := hstart
  set lo := bit_end.toNat with hlo
  set len := bit_start.toNat + 1 - lo with hlendef
  have hbitlen : (bit_start - bit_end + 1).toNat = len := by
    rw [UInt32.toNat_add, UInt32.toNat_sub, UInt32.toNat_one]
    omega
  have hoffset : ((128 - bit_end - 1) >>> 3 : UInt32).toNat + lo / 8 = 15 := by
    rw [UInt32.toNat_shiftRight, UInt32.toNat_sub, UInt32.toNat_sub, UInt32.toNat_one, Nat.shiftRight_eq_div_pow]
    show (2 ^ 32 - 1 + (2 ^ 32 - lo + 128) % 2 ^ 32) % 2 ^ 32 / 2 ^ 3 + lo / 8 = 15
    omega
  have hmod : (bit_end &&& 7).toNat = lo % 8 := by
    rw [UInt32.toNat_and]
    exact Nat.and_two_pow_sub_one_eq_mod lo 3
  have hrest : (8 - (bit_end &&& 7)).toNat = 8 - lo % 8 := by
    rw [UInt32.toNat_sub, hmod]
    show (2 ^ 32 - lo % 8 + 8) % 2 ^ 32 = _
    omega
  set byte_offset : UInt32 := (128 - bit_end - 1) >>> 3 with hbyteoff
  have hlt : byte_offset.toNat < 16 := by omega
  have hfirst : ((buffer ⟨byte_offset.toNat, hlt⟩).toUInt32 >>> (bit_end &&& 7)).toNat =
      register buffer / 2 ^ lo % 2 ^ (8 - lo % 8) % 2 ^ 32 := by
    have hfield := register_field buffer ⟨byte_offset.toNat, hlt⟩ (show lo % 8 + (8 - lo % 8) ≤ 8 by omega)
    rw [show 8 * (15 - byte_offset.toNat) + lo % 8 = lo by omega] at hfield
    have hbyte := (buffer ⟨byte_offset.toNat, hlt⟩).toNat_lt
    have hhigh : (buffer ⟨byte_offset.toNat, hlt⟩).toNat / 2 ^ (lo % 8) < 2 ^ (8 - lo % 8) := by
      rw [Nat.div_lt_iff_lt_mul (Nat.two_pow_pos _), ← pow_add, Nat.sub_add_cancel (by omega)]
      exact hbyte
    rw [shiftRight_toNat _ (by rw [hmod]; omega), hmod, hfield, Nat.mod_eq_of_lt hhigh]
    exact (Nat.mod_eq_of_lt ((Nat.div_le_self _ _).trans_lt (hbyte.trans_le (by decide : (2 ^ 8 : ℕ) ≤ 2 ^ 32)))).symm
  obtain ⟨r, t, hloop, ht, hr⟩ := @extractLoop_bits buffer lo len hlen (by omega) 4
    (8 - lo % 8) (byte_offset - 1) (8 - (bit_end &&& 7))
    ((buffer ⟨byte_offset.toNat, hlt⟩).toUInt32 >>> (bit_end &&& 7)) (by omega) (by omega) (fun hmore => by
      rw [UInt32.toNat_sub, UInt32.toNat_one]
      omega) hrest hfirst
  refine ⟨r &&& (shl 1 (bit_start - bit_end + 1) - 1), ?_, ?_⟩
  · rw [extractValueFromBitstream]
    simp only [← hbyteoff, byteAt_of_lt hlt, hbitlen, hrest]
    show (extractLoop _ _ _ _ _).bind _ = _
    rw [hloop]
    rfl
  · rw [and_shl _ hbitlen hlen, hr, bits, Nat.mod_mod_of_dvd _ (pow_dvd_pow 2 hlen),
      Nat.mod_mod_of_dvd _ (pow_dvd_pow 2 ht)]

/-- `C_SIZE` of version 2.0, on a register of a card of 16 GB. -/
theorem extractValueFromBitstream_cSize : ∃ value,
    extractValueFromBitstream (highCapacity 0x00 0x76 0xB2) 69 48 = some value ∧
      value.toNat = bits (register (highCapacity 0x00 0x76 0xB2)) 69 48 :=
  extractValueFromBitstream_bits (highCapacity 0x00 0x76 0xB2) 69 48 (by decide) (by decide) (by decide)

end Card
