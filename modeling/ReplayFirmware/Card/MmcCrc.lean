import ReplayFirmware.Lib.Crc

/-! The checksum of a command frame.

    `MMC_CRC` takes a byte into `crc`, which is an eight-bit variable that is never masked: the eighth bit
    is what is shifted out, and goes with the next shift. The lower seven are the remainder that the
    format asks for, and in the frame they follow the message. -/

namespace Card
open Polynomial Crc

/-- One turn of the loop of `MMC_CRC`, on `crc` and `c`. -/
def mmcCrcBit (s : UInt8 × UInt8) : UInt8 × UInt8 :=
  let crc := s.1 <<< 1
  let crc := if s.2 &&& 0x80 ≠ 0 then crc ^^^ 0x09 else crc
  let crc := if crc &&& 0x80 ≠ 0 then crc ^^^ 0x09 else crc
  (crc, s.2 <<< 1)

/-- `MMC_CRC` -/
def mmcCrc (crc c : UInt8) : UInt8 := (mmcCrcBit^[8] (crc, c)).1

/-- `crc` after a message, byte by byte from 0. -/
def messageCrc (message : List UInt8) : UInt8 := message.foldl mmcCrc 0

/-- What `Card_Command` sends behind the message: `crc` shifted up, with the end bit. -/
def crcByte (message : List UInt8) : UInt8 := messageCrc message <<< 1 + 1

/-- The bits of a byte as they are sent. -/
def highFirst (b : UInt8) : List Bool := (List.range 8).map b.toBitVec.getMsbD

/-- The generator of the seven-bit code. -/
noncomputable def generator7 : (ZMod 2)[X] := X ^ 7 + X ^ 3 + 1

/-- The lower seven bits of `crc`. -/
noncomputable def remainder7 (crc : UInt8) : (ZMod 2)[X] := upright (crc.toBitVec.setWidth 7)

/-! ### One bit -/

theorem and_top (c : UInt8) : c &&& 0x80 ≠ 0 ↔ c.toBitVec.getMsbD 0 = true := by
  have htop : (c &&& 0x80).toBitVec = if c.toBitVec.getLsbD 7 then BitVec.twoPow 8 7 else 0 :=
    BitVec.and_twoPow c.toBitVec 7
  rw [ne_eq, ← UInt8.toBitVec_inj, htop, BitVec.getMsbD]
  cases c.toBitVec.getLsbD 7 <;> decide

theorem remainder7_xor (a b : UInt8) : remainder7 (a ^^^ b) = remainder7 a + remainder7 b := by
  rw [remainder7, UInt8.toBitVec_xor, BitVec.setWidth_xor, upright_xor]
  rfl

theorem remainder7_poly : remainder7 0x09 = X ^ 3 + 1 := by
  have hbits : ∀ k < 7, bit ((0x09 : UInt8).toBitVec.getLsbD k) = if k = 3 then 1 else if k = 0 then 1 else 0 := by
    decide
  ext k
  rw [remainder7, coeff_upright, BitVec.getLsbD_setWidth, coeff_add, coeff_X_pow, coeff_one]
  by_cases hk : k < 7
  · rw [decide_eq_true hk, Bool.true_and, hbits k hk]
    by_cases h3 : k = 3
    · simp [h3]
    · simp [h3]
  · rw [decide_eq_false hk, Bool.false_and, if_neg (by omega), if_neg (by omega)]
    exact (add_zero 0).symm

theorem shift_bit (crc : UInt8) (k : ℕ) : (crc <<< 1).toBitVec.getLsbD k =
    (decide (k < 8) && !decide (k < 1) && crc.toBitVec.getLsbD (k - 1)) := BitVec.getLsbD_shiftLeft crc.toBitVec 1

/-- The shift loses the highest of the seven bits, which is then the eighth. -/
theorem remainder7_shift (crc : UInt8) :
    remainder7 (crc <<< 1) + C (bit ((crc <<< 1).toBitVec.getMsbD 0)) * X ^ 7 = X * remainder7 crc := by
  ext k
  rw [coeff_add, coeff_C_mul_X_pow, remainder7, remainder7, coeff_upright, BitVec.getLsbD_setWidth, shift_bit,
    show (crc <<< 1).toBitVec.getMsbD 0 = (crc <<< 1).toBitVec.getLsbD 7 from rfl, shift_bit]
  cases k with
  | zero =>
    rw [coeff_X_mul_zero]
    exact add_zero 0
  | succ k =>
    rw [coeff_X_mul, coeff_upright, BitVec.getLsbD_setWidth]
    rcases Nat.lt_trichotomy (k + 1) 7 with hk | hk | hk
    · rw [if_neg (by omega), add_zero, decide_eq_true hk, decide_eq_true (by omega : k + 1 < 8),
        decide_eq_false (by omega : ¬k + 1 < 1), decide_eq_true (by omega : k < 7)]
      rfl
    · obtain rfl : k = 6 := by omega
      exact zero_add _
    · rw [if_neg (by omega), decide_eq_false (by omega : ¬k + 1 < 7), decide_eq_false (by omega : ¬k < 7)]
      exact add_zero _

/-- What is mixed in leaves the eighth bit alone. -/
theorem xor_top (crc : UInt8) : (crc ^^^ 0x09).toBitVec.getMsbD 0 = crc.toBitVec.getMsbD 0 := by
  rw [UInt8.toBitVec_xor, BitVec.getMsbD_xor]
  exact Bool.xor_false _

theorem remainder7_mix (b : Bool) (crc : UInt8) :
    remainder7 (if b = true then crc ^^^ 0x09 else crc) = remainder7 crc + C (bit b) * (X ^ 3 + 1) := by
  cases b with
  | true => rw [if_pos rfl, remainder7_xor, remainder7_poly, bit, if_pos rfl, C_1, one_mul]
  | false => rw [if_neg Bool.false_ne_true, bit, if_neg Bool.false_ne_true, C_0, zero_mul, add_zero]

/-- One bit is one step of the division. -/
theorem leaves_bit (s : UInt8 × UInt8) : Leaves generator7
    (X * remainder7 s.1 + C (bit (s.2.toBitVec.getMsbD 0)) * X ^ 7) (remainder7 (mmcCrcBit s).1) := by
  obtain ⟨crc, c⟩ := s
  set b := c.toBitVec.getMsbD 0 with hb
  set t := (crc <<< 1).toBitVec.getMsbD 0 with ht
  have htop : (if b = true then crc <<< 1 ^^^ 0x09 else crc <<< 1).toBitVec.getMsbD 0 = t := by
    split
    · exact xor_top _
    · rfl
  have hcrc : remainder7 (mmcCrcBit (crc, c)).1 =
      remainder7 (crc <<< 1) + C (bit b) * (X ^ 3 + 1) + C (bit t) * (X ^ 3 + 1) := by
    rw [mmcCrcBit]
    simp only [and_top, ← hb, htop]
    rw [remainder7_mix, remainder7_mix]
  refine ⟨C (bit b) + C (bit t), ?_⟩
  have htwo := CharTwo.add_self_eq_zero ((C (bit b) + C (bit t)) * (X ^ 3 + 1))
  rw [hcrc, generator7]
  linear_combination remainder7_shift crc + htwo

/-! ### Messages -/

/-- The bits that are still to come. -/
theorem shifted_bits : ∀ (n : ℕ) (s : UInt8 × UInt8) (k : ℕ),
    (mmcCrcBit^[n] s).2.toBitVec.getMsbD k = s.2.toBitVec.getMsbD (n + k)
  | 0, _, k => by rw [Nat.zero_add, Function.iterate_zero_apply]
  | n + 1, s, k => by
    have hshift : (mmcCrcBit s).2.toBitVec.getMsbD (n + k) = s.2.toBitVec.getMsbD (n + k + 1) := by
      show (s.2.toBitVec <<< 1).getMsbD (n + k) = _
      rw [BitVec.getMsbD_shiftLeft]
    rw [Function.iterate_succ_apply, shifted_bits n, hshift, show n + k + 1 = n + 1 + k by omega]

theorem leaves_bits (s : UInt8 × UInt8) : ∀ n : ℕ, Leaves generator7
    (X ^ n * remainder7 s.1 + X ^ 7 * ofBits ((List.range n).map s.2.toBitVec.getMsbD))
    (remainder7 (mmcCrcBit^[n] s).1)
  | 0 => by
    rw [pow_zero, one_mul, List.range_zero, List.map_nil, ofBits, List.foldl_nil, mul_zero, add_zero]
    exact .refl _ _
  | n + 1 => by
    have hbit := leaves_bit (mmcCrcBit^[n] s)
    rw [shifted_bits] at hbit
    have hstep := (((leaves_bits s n).mul X).add (.refl _ (C (bit (s.2.toBitVec.getMsbD n)) * X ^ 7))).trans hbit
    have hsum : X ^ (n + 1) * remainder7 s.1 + X ^ 7 * ofBits ((List.range (n + 1)).map s.2.toBitVec.getMsbD) =
        X * (X ^ n * remainder7 s.1 + X ^ 7 * ofBits ((List.range n).map s.2.toBitVec.getMsbD)) +
          C (bit (s.2.toBitVec.getMsbD n)) * X ^ 7 := by
      rw [List.range_succ, List.map_append, List.map_singleton, ofBits_concat]
      ring
    rw [hsum, Function.iterate_succ_apply']
    exact hstep

/-- A byte is eight steps of it. -/
theorem leaves_byte (crc c : UInt8) : Leaves generator7
    (X ^ 8 * remainder7 crc + X ^ 7 * ofBits (highFirst c)) (remainder7 (mmcCrc crc c)) := leaves_bits (crc, c) 8

theorem leaves_message (message : List UInt8) : Leaves generator7
    (X ^ 7 * ofBits (message.flatMap highFirst)) (remainder7 (messageCrc message)) := by
  induction message using List.reverseRecOn with
  | nil =>
    have hzero : remainder7 0 = 0 := by
      have hself := remainder7_xor 0 0
      exact left_eq_add.mp hself
    rw [List.flatMap_nil, ofBits, List.foldl_nil, mul_zero, messageCrc, List.foldl_nil, hzero]
    exact .refl _ _
  | append_singleton message c ih =>
    have hstep := ((ih.mul (X ^ 8)).add (.refl _ (X ^ 7 * ofBits (highFirst c)))).trans (leaves_byte _ c)
    have hsum : X ^ 7 * ofBits ((message ++ [c]).flatMap highFirst) =
        X ^ 8 * (X ^ 7 * ofBits (message.flatMap highFirst)) + X ^ 7 * ofBits (highFirst c) := by
      rw [List.flatMap_append, ofBits_append, List.flatMap_singleton, show (highFirst c).length = 8 from rfl]
      ring
    rw [hsum, messageCrc, List.foldl_append]
    exact hstep

theorem generator7_monic : generator7.Monic := by
  rw [generator7, add_assoc]
  refine monic_X_pow_add ?_
  rw [← remainder7_poly]
  exact ofFn_degree_lt _

theorem remainder7_degree (crc : UInt8) : (remainder7 crc).degree < generator7.degree := by
  have hlow : (X ^ 3 + 1 : (ZMod 2)[X]).degree < (X ^ 7 : (ZMod 2)[X]).degree := by
    rw [degree_X_pow, ← remainder7_poly]
    exact ofFn_degree_lt _
  rw [generator7, add_assoc, degree_add_eq_left_of_degree_lt hlow, degree_X_pow]
  exact ofFn_degree_lt _

/-- The seven bits as they are sent. -/
def crcBits (message : List UInt8) : List Bool := (highFirst (crcByte message)).take 7

theorem ofBits_crcBits (message : List UInt8) :
    ofBits (crcBits message) = remainder7 (messageCrc message) := by
  set crc := messageCrc message with hcrc
  have hbyte : (crcByte message).toBitVec = crc.toBitVec <<< 1 ||| 1 := by
    refine BitVec.add_eq_or_of_and_eq_zero _ _ (BitVec.eq_of_getLsbD_eq fun i _ => ?_)
    rw [BitVec.getLsbD_and, shift_bit]
    cases i with
    | zero => rfl
    | succ i =>
      rw [show (1 : UInt8).toBitVec = 1#8 from rfl, BitVec.getLsbD_one, decide_eq_false (Nat.succ_ne_zero i),
        Bool.and_false, Bool.and_false]
      exact BitVec.getLsbD_zero.symm
  have hbits : crcBits message = (List.range 7).map (crcByte message).toBitVec.getMsbD := rfl
  ext k
  rw [hbits, coeff_ofBits_range, remainder7, coeff_upright, BitVec.getLsbD_setWidth]
  by_cases hk : k < 7
  · rw [if_pos hk, decide_eq_true hk, Bool.true_and, BitVec.getMsbD, decide_eq_true (by omega), Bool.true_and,
      hbyte, BitVec.getLsbD_or, BitVec.getLsbD_shiftLeft, show 8 - 1 - (7 - 1 - k) = k + 1 by omega,
      decide_eq_true (by omega : k + 1 < 8), decide_eq_false (by omega : ¬k + 1 < 1)]
    show bit (crc.toBitVec.getLsbD k || (1#8).getLsbD (k + 1)) = _
    rw [BitVec.getLsbD_one, decide_eq_false (Nat.succ_ne_zero k), Bool.and_false, Bool.or_false]
  · rw [if_neg hk, decide_eq_false hk]
    rfl

/-- For any message, the lower seven bits of `crc` are the remainder of the message, moved up to where the
    frame has it, by the generator; they are the upper seven of the last byte that is sent, and the frame
    up to there has no remainder. -/
theorem messageCrc_remainder (message : List UInt8) :
    remainder7 (messageCrc message) = (X ^ 7 * ofBits (message.flatMap highFirst)) %ₘ generator7 ∧
      ofBits (crcBits message) = remainder7 (messageCrc message) ∧
      ofBits (message.flatMap highFirst ++ crcBits message) %ₘ generator7 = 0 := by
  have hleaves := leaves_message message
  refine ⟨(hleaves.remainder generator7_monic (remainder7_degree _)).symm, ofBits_crcBits message, ?_⟩
  have hframe := hleaves.add (.refl generator7 (remainder7 (messageCrc message)))
  rw [CharTwo.add_self_eq_zero] at hframe
  rw [ofBits_append, ofBits_crcBits, show (crcBits message).length = 7 from rfl]
  refine hframe.remainder generator7_monic ?_
  rw [degree_zero]
  exact bot_lt_iff_ne_bot.mpr (degree_ne_bot.mpr generator7_monic.ne_zero)

end Card
