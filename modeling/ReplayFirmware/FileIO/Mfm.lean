import ReplayFirmware.Lib.RangeFold
import Mathlib.Logic.Function.Basic

/-! MFM bytes: the data bits of a byte in the positions of 0x55, clock bits between them.

    A data byte travels as two such bytes, its odd bits and its even bits. Encoding puts the clock
    bits in, decoding masks them out, and a checksum is the exclusive or of encoded bytes, masked to
    the data bits. -/

namespace FileIO
open RangeFold

/-- `MFMDecode` -/
def mfmDecode (odd even : UInt8) : UInt8 := ((odd &&& 0x55) <<< 1) ||| (even &&& 0x55)

/-- `MFMEncode`, with `l` the byte before: the data bits, and a clock bit between two zeros. -/
def mfmEncode (d l : UInt8) : UInt8 :=
  let r := d &&& 0x55
  let r := if ¬ (r &&& 0x01 ≠ 0 ∨ r &&& 0x04 ≠ 0) then r ||| 0x02 else r
  let r := if ¬ (r &&& 0x04 ≠ 0 ∨ r &&& 0x10 ≠ 0) then r ||| 0x08 else r
  let r := if ¬ (r &&& 0x10 ≠ 0 ∨ r &&& 0x40 ≠ 0) then r ||| 0x20 else r
  if ¬ (r &&& 0x40 ≠ 0 ∨ l &&& 0x01 ≠ 0) then r ||| 0x80 else r

/-- The exclusive or of `n` bytes. -/
def xorSum (f : ℕ → UInt8) (n : ℕ) : UInt8 := rangeFold (· ^^^ ·) 0 f n

/-- The data bits of an MFM byte. -/
def dataBits (x : UInt8) : UInt8 := x &&& 0x55

/-! ### Data bits -/

theorem dataBits_or (a b : UInt8) : dataBits (a ||| b) = dataBits a ||| dataBits b := by
  apply UInt8.toBitVec_inj.mp
  apply BitVec.eq_of_getLsbD_eq
  intro i _
  simp [dataBits, Bool.and_or_distrib_right]

theorem dataBits_xor (a b : UInt8) : dataBits (a ^^^ b) = dataBits a ^^^ dataBits b := by
  apply UInt8.toBitVec_inj.mp
  apply BitVec.eq_of_getLsbD_eq
  intro i _
  simp [dataBits, Bool.and_xor_distrib_right]

@[simp] theorem dataBits_dataBits (d : UInt8) : dataBits (dataBits d) = dataBits d := by
  rw [dataBits, dataBits, UInt8.and_assoc, UInt8.and_self]

/-- Clock bits do not show. -/
theorem dataBits_or_clock (d : UInt8) {c : UInt8} (hc : dataBits c = 0) :
    dataBits (d ||| c) = dataBits d := by
  rw [dataBits_or, hc, UInt8.or_zero]

/-- Encoding adds clock bits only. -/
@[simp] theorem dataBits_mfmEncode (d l : UInt8) : dataBits (mfmEncode d l) = dataBits d := by
  have hstep : ∀ (p : Prop) [Decidable p] (r k : UInt8), dataBits k = 0 →
      dataBits (if p then r ||| k else r) = dataBits r := by
    intro p _ r k hk
    split
    · exact dataBits_or_clock r hk
    · rfl
  unfold mfmEncode
  simp only
  rw [hstep _ _ _ (by decide), hstep _ _ _ (by decide), hstep _ _ _ (by decide),
    hstep _ _ _ (by decide)]
  exact dataBits_dataBits d

/-! ### Bytes and checksums -/

theorem mfmDecode_congr {odd even odd' even' : UInt8} (hodd : dataBits odd = dataBits odd')
    (heven : dataBits even = dataBits even') : mfmDecode odd even = mfmDecode odd' even' := by
  simp only [dataBits] at hodd heven
  rw [mfmDecode, mfmDecode, hodd, heven]

/-- Two bytes that carry the odd and the even bits of `x` decode to `x`. -/
theorem mfmDecode_of_bits {x odd even : UInt8} (hodd : dataBits odd = dataBits (x >>> 1))
    (heven : dataBits even = dataBits x) : mfmDecode odd even = x := by
  rw [mfmDecode_congr hodd heven]
  clear hodd heven
  cases x with
  | ofBitVec b => revert b; decide

/-- A checksum byte is sent behind a byte without data bits. -/
theorem mfmDecode_checksum (c : UInt8) : mfmDecode 0xAA (c ||| 0xAA) = dataBits c := by
  cases c with
  | ofBitVec b => revert b; decide

/-- Masking can be done before summing. -/
theorem dataBits_xorSum (f : ℕ → UInt8) (n : ℕ) :
    dataBits (xorSum f n) = xorSum (fun j => dataBits (f j)) n :=
  rangeFold_hom (· ^^^ ·) dataBits dataBits_xor 0 f n

theorem xorSum_congr {f g : ℕ → UInt8} {n : ℕ} (h : ∀ j, j < n → f j = g j) :
    xorSum f n = xorSum g n := rangeFold_congr _ 0 h

theorem xorSum_add (f : ℕ → UInt8) (m n : ℕ) :
    xorSum f (m + n) = xorSum f m ^^^ xorSum (fun j => f (m + j)) n := by
  rw [xorSum, rangeFold_add, rangeFold_init _ _ 0 fun _ => UInt8.xor_zero]
  rfl

theorem xorSum_xor (f g : ℕ → UInt8) (n : ℕ) :
    xorSum (fun j => f j ^^^ g j) n = xorSum f n ^^^ xorSum g n :=
  rangeFold_op _ 0 (fun _ => UInt8.xor_zero) f g n

theorem xorSum_zero {f : ℕ → UInt8} {n : ℕ} (h : ∀ j, j < n → f j = 0) : xorSum f n = 0 := by
  rw [xorSum_congr h]
  induction n with
  | zero => rfl
  | succ n ih =>
    rw [xorSum, rangeFold_succ, ← xorSum, ih fun j hj => h j (Nat.lt_succ_of_lt hj)]
    rfl

end FileIO
