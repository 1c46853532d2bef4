import Mathlib.Algebra.Order.Ring.Nat
import Mathlib.Data.List.OfFn
import Mathlib.Data.List.Induction
import Mathlib.Data.Nat.Notation
import Mathlib.Tactic.Ring

/-! The capacity of a card, from its CSD register.

    A register is 16 bytes, bit 127 at the top of the first one. Version 1.0 gives the number of blocks as
    a mantissa and an exponent, version 2.0 in units of 512 KiB. The code counts sectors in 32 bits, which
    are one too few for the largest card of version 2.0: its capacity comes out as 0. -/

namespace Card

/-! ### Registers -/

/-- A byte string as a number, first byte on top. -/
def value (bytes : List UInt8) : ℕ := bytes.foldl (fun n b => 256 * n + b.toNat) 0

/-- A card register as a number. -/
def register (buffer : Fin 16 → UInt8) : ℕ := value (List.ofFn buffer)

/-- Bits `hi` to `lo` of a register. -/
def bits (reg hi lo : ℕ) : ℕ := reg / 2 ^ lo % 2 ^ (hi + 1 - lo)

theorem value_snoc (bytes : List UInt8) (b : UInt8) : value (bytes ++ [b]) = 256 * value bytes + b.toNat := by
  rw [value, List.foldl_append]
  rfl

/-- What is cut off at the end are the last bytes. -/
theorem value_div (bytes tail : List UInt8) : value (bytes ++ tail) / 256 ^ tail.length = value bytes := by
  induction tail using List.reverseRecOn with
  | nil => rw [List.append_nil, List.length_nil, pow_zero, Nat.div_one]
  | append_singleton tail b ih =>
    have hb := b.toNat_lt
    rw [← List.append_assoc, value_snoc, List.length_append, List.length_singleton, pow_succ',
      ← Nat.div_div_eq_div_mul, show (256 * value (bytes ++ tail) + b.toNat) / 256 = value (bytes ++ tail) by omega,
      ih]

/-- Byte `k` of a register. -/
theorem register_byte (buffer : Fin 16 → UInt8) (k : Fin 16) :
    register buffer / 256 ^ (15 - k.val) % 256 = (buffer k).toNat := by
  have hlen : ((List.ofFn buffer).drop (k.val + 1)).length = 15 - k.val := by
    rw [List.length_drop, List.length_ofFn]
    omega
  have hk : k.val < (List.ofFn buffer).length := by
    rw [List.length_ofFn]
    exact k.isLt
  have hb := (buffer k).toNat_lt
  have hsplit := value_div ((List.ofFn buffer).take (k.val + 1)) ((List.ofFn buffer).drop (k.val + 1))
  rw [List.take_append_drop, hlen, List.take_succ_eq_append_getElem hk, value_snoc, List.getElem_ofFn] at hsplit
  rw [register, hsplit]
  show (256 * _ + (buffer k).toNat) % 256 = _
  omega

/-- A field that lies in one byte. -/
theorem register_field (buffer : Fin 16 → UInt8) (k : Fin 16) {j w : ℕ} (h : j + w ≤ 8) :
    register buffer / 2 ^ (8 * (15 - k.val) + j) % 2 ^ w = (buffer k).toNat / 2 ^ j % 2 ^ w := by
  have hsplit : (256 : ℕ) = 2 ^ j * 2 ^ (8 - j) := by
    rw [← pow_add, Nat.add_sub_cancel' (by omega)]
    rfl
  rw [← register_byte buffer k, hsplit, Nat.mod_mul_right_div_self,
    Nat.mod_mod_of_dvd _ (pow_dvd_pow 2 (by omega)), Nat.div_div_eq_div_mul, ← hsplit, pow_add, pow_mul]
  rfl

/-- Two fields side by side are one. -/
theorem field_append (reg lo a b : ℕ) :
    reg / 2 ^ lo % 2 ^ (a + b) = reg / 2 ^ (lo + a) % 2 ^ b * 2 ^ a + reg / 2 ^ lo % 2 ^ a := by
  rw [pow_add, Nat.mod_mul, Nat.div_div_eq_div_mul, ← pow_add]
  ring

/-! ### `Card_GetCapacity` -/

/-- `READ_BL_LEN` -/
def readBlLen (csd : Fin 16 → UInt8) : UInt32 := (csd 5 &&& 0x0F).toUInt32

/-- `C_SIZE` of version 1.0 -/
def cSizeV1 (csd : Fin 16 → UInt8) : UInt32 :=
  (csd 6 &&& 0x03).toUInt32 <<< 10 ||| (csd 7).toUInt32 <<< 2 ||| (csd 8).toUInt32 >>> 6

/-- `C_SIZE_MULT` -/
def cSizeMult (csd : Fin 16 → UInt8) : UInt32 := (csd 9 &&& 0x03).toUInt32 <<< 1 ||| (csd 10).toUInt32 >>> 7

/-- `C_SIZE` of version 2.0 -/
def cSizeV2 (csd : Fin 16 → UInt8) : UInt32 :=
  (csd 7 &&& 0x3F).toUInt32 <<< 16 ||| (csd 8).toUInt32 <<< 8 ||| (csd 9).toUInt32

/-- `Card_GetCapacity`, for the register that the card sends, if it does before the timeout. -/
def getCapacity : Option (Fin 16 → UInt8) → UInt64
  | none => 0
  | some csd =>
    let csdVersion := csd 0 >>> 6
    let sectorSize : UInt64 := ((1 : UInt32) <<< readBlLen csd).toUInt64
    if csdVersion = 0 then
      let sectorCount : UInt32 := (cSizeV1 csd + 1) * ((1 : UInt32) <<< (cSizeMult csd + 2))
      sectorSize * sectorCount.toUInt64
    else if csdVersion = 1 then
      let sectorCount : UInt32 := (cSizeV2 csd + 1) * 1024
      sectorSize * sectorCount.toUInt64
    else 0

/-! ### The fields -/

variable (csd : Fin 16 → UInt8)

/-- What is put below a number that is shifted up is added to it. -/
theorem concat_toNat {hi lo k : UInt32} (hk : k.toNat < 32) (hlo : lo.toNat < 2 ^ k.toNat)
    (hhi : hi.toNat * 2 ^ k.toNat < 2 ^ 32) : (hi <<< k ||| lo).toNat = hi.toNat * 2 ^ k.toNat + lo.toNat := by
  rw [UInt32.toNat_or, UInt32.toNat_shiftLeft, Nat.mod_eq_of_lt hk, Nat.shiftLeft_eq, Nat.mod_eq_of_lt hhi,
    Nat.mul_comm, Nat.two_pow_add_eq_or_of_lt hlo]

theorem and_mask (b : UInt8) {m : UInt8} {w : ℕ} (hm : m.toNat = 2 ^ w - 1) :
    (b &&& m).toUInt32.toNat = b.toNat % 2 ^ w := by
  rw [UInt8.toNat_toUInt32, UInt8.toNat_and, hm, Nat.and_two_pow_sub_one_eq_mod]

theorem shiftRight_toNat (b : UInt8) {k : UInt32} (hk : k.toNat < 32) :
    (b.toUInt32 >>> k).toNat = b.toNat / 2 ^ k.toNat := by
  rw [UInt32.toNat_shiftRight, Nat.mod_eq_of_lt hk, Nat.shiftRight_eq_div_pow, UInt8.toNat_toUInt32]

theorem csdVersion_field : (csd 0 >>> 6).toNat = bits (register csd) 127 126 := by
  have hb := (csd 0).toNat_lt
  have hfield := register_field csd 0 (j := 6) (w := 2) (by decide)
  rw [bits, show register csd / 2 ^ 126 % 2 ^ (127 + 1 - 126) = _ from hfield, UInt8.toNat_shiftRight]
  show (csd 0).toNat >>> 6 = _
  rw [Nat.shiftRight_eq_div_pow, Nat.mod_eq_of_lt (by omega)]

theorem readBlLen_field : (readBlLen csd).toNat = bits (register csd) 83 80 := by
  have hfield := register_field csd 5 (j := 0) (w := 4) (by decide)
  rw [bits, show register csd / 2 ^ 80 % 2 ^ (83 + 1 - 80) = _ from hfield, readBlLen,
    and_mask _ (w := 4) rfl, pow_zero, Nat.div_one]

theorem cSizeV1_field : (cSizeV1 csd).toNat = bits (register csd) 73 62 := by
  have h6 := register_field csd 6 (j := 0) (w := 2) (by decide)
  have h7 := register_field csd 7 (j := 0) (w := 8) (by decide)
  have h8 := register_field csd 8 (j := 6) (w := 2) (by decide)
  have hsplit := field_append (register csd) 62 2 (8 + 2)
  rw [field_append (register csd) (62 + 2) 8 2] at hsplit
  have hb7 := (csd 7).toNat_lt
  have hb8 := (csd 8).toNat_lt
  have hlow : ((csd 8).toUInt32 >>> 6).toNat = (csd 8).toNat / 2 ^ 6 := shiftRight_toNat _ (by decide)
  have hmid : ((csd 7).toUInt32 <<< 2 ||| (csd 8).toUInt32 >>> 6).toNat
      = (csd 7).toNat * 2 ^ 2 + (csd 8).toNat / 2 ^ 6 := by
    rw [concat_toNat (by decide), hlow, UInt8.toNat_toUInt32]
    · rfl
    · rw [hlow]
      show _ < 4
      omega
    · rw [UInt8.toNat_toUInt32]
      show _ * 4 < _
      omega
  have htop : (csd 6 &&& 0x03).toUInt32.toNat = (csd 6).toNat % 2 ^ 2 := and_mask _ rfl
  rw [bits, show register csd / 2 ^ 62 % 2 ^ (73 + 1 - 62) = _ from hsplit, cSizeV1, UInt32.or_assoc,
    concat_toNat (by decide), hmid, htop]
  · show _ = (register csd / 2 ^ 72 % 2 ^ 2 * 2 ^ 8 + register csd / 2 ^ 64 % 2 ^ 8) * 2 ^ 2
      + register csd / 2 ^ 62 % 2 ^ 2
    rw [show register csd / 2 ^ 72 % 2 ^ 2 = _ from h6, show register csd / 2 ^ 64 % 2 ^ 8 = _ from h7,
      show register csd / 2 ^ 62 % 2 ^ 2 = _ from h8]
    show _ * 1024 + _ = _
    omega
  · rw [hmid]
    show _ < 1024
    omega
  · rw [htop]
    show _ * 1024 < _
    omega

theorem cSizeMult_field : (cSizeMult csd).toNat = bits (register csd) 49 47 := by
  have h9 := register_field csd 9 (j := 0) (w := 2) (by decide)
  have h10 := register_field csd 10 (j := 7) (w := 1) (by decide)
  have hb := (csd 10).toNat_lt
  have hlow : ((csd 10).toUInt32 >>> 7).toNat = (csd 10).toNat / 2 ^ 7 := shiftRight_toNat _ (by decide)
  have htop : (csd 9 &&& 0x03).toUInt32.toNat = (csd 9).toNat % 2 ^ 2 := and_mask _ rfl
  rw [bits, show register csd / 2 ^ 47 % 2 ^ (49 + 1 - 47) = _ from field_append (register csd) 47 1 2,
    show register csd / 2 ^ (47 + 1) % 2 ^ 2 = _ from h9, show register csd / 2 ^ 47 % 2 ^ 1 = _ from h10,
    cSizeMult, concat_toNat (by decide), hlow, htop]
  · show _ * 2 + _ = _
    omega
  · rw [hlow]
    show _ < 2
    omega
  · rw [htop]
    show _ * 2 < _
    omega

theorem cSizeV2_field : (cSizeV2 csd).toNat = bits (register csd) 69 48 := by
  have h7 := register_field csd 7 (j := 0) (w := 6) (by decide)
  have h8 := register_field csd 8 (j := 0) (w := 8) (by decide)
  have h9 := register_field csd 9 (j := 0) (w := 8) (by decide)
  have hsplit := field_append (register csd) 48 8 (8 + 6)
  rw [field_append (register csd) (48 + 8) 8 6] at hsplit
  have hb8 := (csd 8).toNat_lt
  have hb9 := (csd 9).toNat_lt
  have hmid : ((csd 8).toUInt32 <<< 8 ||| (csd 9).toUInt32).toNat = (csd 8).toNat * 2 ^ 8 + (csd 9).toNat := by
    rw [concat_toNat (by decide), UInt8.toNat_toUInt32, UInt8.toNat_toUInt32]
    · rfl
    · rw [UInt8.toNat_toUInt32]
      exact hb9
    · rw [UInt8.toNat_toUInt32]
      show _ * 256 < _
      omega
  have htop : (csd 7 &&& 0x3F).toUInt32.toNat = (csd 7).toNat % 2 ^ 6 := and_mask _ rfl
  rw [bits, show register csd / 2 ^ 48 % 2 ^ (69 + 1 - 48) = _ from hsplit, cSizeV2, UInt32.or_assoc,
    concat_toNat (by decide), hmid, htop]
  · show _ = (register csd / 2 ^ 64 % 2 ^ 6 * 2 ^ 8 + register csd / 2 ^ 56 % 2 ^ 8) * 2 ^ 8
      + register csd / 2 ^ 48 % 2 ^ 8
    rw [show register csd / 2 ^ 64 % 2 ^ 6 = _ from h7, show register csd / 2 ^ 56 % 2 ^ 8 = _ from h8,
      show register csd / 2 ^ 48 % 2 ^ 8 = _ from h9]
    show _ * 65536 + _ = _
    omega
  · rw [hmid]
    show _ < 65536
    omega
  · rw [htop]
    show _ * 65536 < _
    omega

/-! ### The capacity -/

/-- The bytes of a card by its register: `(C_SIZE + 1) * 2 ^ (C_SIZE_MULT + 2)` blocks of
    `2 ^ READ_BL_LEN` in version 1.0, `C_SIZE + 1` units of 512 KiB in version 2.0. -/
def capacity (reg : ℕ) : ℕ :=
  if bits reg 127 126 = 0 then (bits reg 73 62 + 1) * 2 ^ (bits reg 49 47 + 2) * 2 ^ bits reg 83 80
  else (bits reg 69 48 + 1) * (512 * 1024)

/-- What is returned is the capacity. -/
def Exact (csd : Fin 16 → UInt8) : Prop := (getCapacity (some csd)).toNat = capacity (register csd)

theorem bits_lt (reg hi lo : ℕ) : bits reg hi lo < 2 ^ (hi + 1 - lo) := Nat.mod_lt _ (Nat.two_pow_pos _)

theorem one_shiftLeft_toNat {k : UInt32} (hk : k.toNat < 32) : ((1 : UInt32) <<< k).toNat = 2 ^ k.toNat := by
  rw [UInt32.toNat_shiftLeft, Nat.mod_eq_of_lt hk, Nat.shiftLeft_eq, UInt32.toNat_one, Nat.one_mul,
    Nat.mod_eq_of_lt (Nat.pow_lt_pow_right (by decide) hk)]

theorem sectorSize_toNat : ((1 : UInt32) <<< readBlLen csd).toNat = 2 ^ bits (register csd) 83 80 := by
  have hlt : bits (register csd) 83 80 < 16 := bits_lt _ 83 80
  rw [one_shiftLeft_toNat (by rw [readBlLen_field]; omega), readBlLen_field]

/-- A sector size and a sector count give a product that 64 bits hold. -/
theorem product_toNat (count : UInt32) :
    (((1 : UInt32) <<< readBlLen csd).toUInt64 * count.toUInt64).toNat
      = 2 ^ bits (register csd) 83 80 * count.toNat := by
  have hsize : 2 ^ bits (register csd) 83 80 ≤ 2 ^ 15 :=
    Nat.pow_le_pow_right (by decide) (Nat.lt_succ_iff.mp (bits_lt _ 83 80))
  have hcount := count.toNat_lt
  have hprod := Nat.mul_le_mul hsize (Nat.le_of_lt hcount)
  rw [UInt64.toNat_mul, UInt32.toNat_toUInt64, UInt32.toNat_toUInt64, sectorSize_toNat,
    Nat.mod_eq_of_lt (Nat.lt_of_le_of_lt hprod (by decide))]

/-- The count of version 1.0 fits. -/
theorem sectorCountV1_toNat : ((cSizeV1 csd + 1) * ((1 : UInt32) <<< (cSizeMult csd + 2))).toNat
    = (bits (register csd) 73 62 + 1) * 2 ^ (bits (register csd) 49 47 + 2) := by
  have hsize : bits (register csd) 73 62 < 4096 := bits_lt _ 73 62
  have hmult : bits (register csd) 49 47 < 8 := bits_lt _ 49 47
  have hexp : (cSizeMult csd + 2).toNat = bits (register csd) 49 47 + 2 := by
    rw [UInt32.toNat_add, cSizeMult_field]
    show (_ + 2) % 2 ^ 32 = _
    omega
  have hpow : 2 ^ (bits (register csd) 49 47 + 2) ≤ 2 ^ 9 := Nat.pow_le_pow_right (by decide) (by omega)
  have hshift : ((1 : UInt32) <<< (cSizeMult csd + 2)).toNat = 2 ^ (bits (register csd) 49 47 + 2) := by
    rw [one_shiftLeft_toNat (by rw [hexp]; omega), hexp]
  have hsucc : (cSizeV1 csd + 1).toNat = bits (register csd) 73 62 + 1 := by
    rw [UInt32.toNat_add, cSizeV1_field]
    show (_ + 1) % 2 ^ 32 = _
    omega
  have hprod := Nat.mul_le_mul (show bits (register csd) 73 62 + 1 ≤ 4096 by omega) hpow
  rw [UInt32.toNat_mul, hsucc, hshift, Nat.mod_eq_of_lt (Nat.lt_of_le_of_lt hprod (by decide))]

/-- The count of version 2.0 wraps for the greatest `C_SIZE`. -/
theorem sectorCountV2_toNat : ((cSizeV2 csd + 1) * 1024).toNat
    = if bits (register csd) 69 48 = 0x3FFFFF then 0 else (bits (register csd) 69 48 + 1) * 1024 := by
  have hsize : bits (register csd) 69 48 < 0x400000 := bits_lt _ 69 48
  have hsucc : (cSizeV2 csd + 1).toNat = bits (register csd) 69 48 + 1 := by
    rw [UInt32.toNat_add, cSizeV2_field]
    show (_ + 1) % 2 ^ 32 = _
    omega
  rw [UInt32.toNat_mul, hsucc]
  show (_ + 1) * 1024 % 2 ^ 32 = _
  split
  · next hmax => rw [hmax]
  · omega

/-- The capacity is exact for version 1.0, and for version 2.0 if and only if the block length is the one
    that version has, and `C_SIZE` is not the greatest. -/
theorem getCapacity_exact_iff (h : csd 0 >>> 6 ≤ 1) : Exact csd ↔
    (bits (register csd) 127 126 = 1 →
      bits (register csd) 83 80 = 9 ∧ bits (register csd) 69 48 ≠ 0x3FFFFF) := by
  have hversion := csdVersion_field csd
  by_cases hzero : csd 0 >>> 6 = 0
  · have h0 : bits (register csd) 127 126 = 0 := by rw [← hversion, hzero]; rfl
    refine iff_of_true ?_ fun h1 => absurd (h0.symm.trans h1) (by decide)
    rw [Exact, capacity, if_pos h0, getCapacity]
    simp only [if_pos hzero]
    rw [product_toNat, sectorCountV1_toNat, Nat.mul_comm]
  · have hone : csd 0 >>> 6 = 1 := by
      have hle : (csd 0 >>> 6).toNat ≤ 1 := h
      have hne : (csd 0 >>> 6).toNat ≠ 0 := fun hf => hzero (UInt8.toNat_inj.mp hf)
      exact UInt8.toNat_inj.mp (show _ = 1 by omega)
    have h1 : bits (register csd) 127 126 = 1 := by rw [← hversion, hone]; rfl
    rw [Exact, capacity, if_neg (by rw [h1]; decide), getCapacity]
    simp only [if_neg hzero, if_pos hone]
    rw [product_toNat, sectorCountV2_toNat, imp_iff_right h1]
    by_cases hmax : bits (register csd) 69 48 = 0x3FFFFF
    · rw [if_pos hmax, Nat.mul_zero, hmax]
      exact iff_of_false (by decide) fun hf => hf.2 rfl
    · rw [if_neg hmax, and_iff_left hmax]
      generalize bits (register csd) 69 48 = n
      constructor
      · intro heq
        have hpow : 2 ^ bits (register csd) 83 80 = 2 ^ 9 := by
          refine Nat.eq_of_mul_eq_mul_right (show 0 < (n + 1) * 1024 by omega) (heq.trans ?_)
          omega
        exact Nat.pow_right_injective (le_refl 2) hpow
      · intro hlen
        rw [hlen]
        omega

/-- A register of version 2.0 with block length 9. -/
def highCapacity (c7 c8 c9 : UInt8) : Fin 16 → UInt8 :=
  fun k => [0x40, 0x0E, 0x00, 0x5A, 0x5B, 0x59, 0x00, c7, c8, c9, 0x7F, 0x80, 0x0A, 0x40, 0x00, 0x01].getD k 0

theorem sdhc_exact : Exact (highCapacity 0 0x1D 0x8A) ↔
    (bits (register (highCapacity 0 0x1D 0x8A)) 127 126 = 1 →
      bits (register (highCapacity 0 0x1D 0x8A)) 83 80 = 9 ∧
        bits (register (highCapacity 0 0x1D 0x8A)) 69 48 ≠ 0x3FFFFF) :=
  getCapacity_exact_iff (highCapacity 0 0x1D 0x8A) (by decide)

/-- The largest card has no capacity. -/
theorem largest_empty : ¬∀ csd : Fin 16 → UInt8, csd 0 >>> 6 ≤ 1 →
    (bits (register csd) 127 126 = 1 → bits (register csd) 83 80 = 9) → Exact csd := by
  intro hall
  have hexact := hall (highCapacity 0x3F 0xFF 0xFF) (by decide) (by decide)
  rw [Exact] at hexact
  exact absurd hexact (by decide)

end Card
