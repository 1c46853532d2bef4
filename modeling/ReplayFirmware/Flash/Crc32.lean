import ReplayFirmware.Lib.Lfsr

/-! `feed_crc32`, the running CRC of the flash images.

    The register is a function static: a caller restarts it with a null pointer and a length of all
    ones, and every other call goes on from where the last one stopped. -/

namespace Flash

/-- One turn of the inner loop. -/
def crcShift (crc : UInt32) : UInt32 := (crc >>> 1) ^^^ (0xEDB88320 &&& -(crc &&& 1))

def crcByte (crc : UInt32) (byte : UInt8) : UInt32 := crcShift^[8] (crc ^^^ byte.toUInt32)

/-- The register after `data`. -/
def feedCrc32 (crc : UInt32) (data : List UInt8) : UInt32 := data.foldl crcByte crc

/-- What `feed_crc32(0, 0xffffffff)` puts into the register. -/
def crcInit : UInt32 := 0xFFFFFFFF

/-- The CRC of a byte string. -/
def crc32 (data : List UInt8) : UInt32 := ~~~feedCrc32 crcInit data

@[simp] theorem feedCrc32_nil (crc : UInt32) : feedCrc32 crc [] = crc := rfl

@[simp] theorem crc32_nil : crc32 [] = 0 := by decide

theorem feedCrc32_append (crc : UInt32) (as bs : List UInt8) :
    feedCrc32 crc (as ++ bs) = feedCrc32 (feedCrc32 crc as) bs := List.foldl_append

/-- The polynomial, as a register. -/
def poly : BitVec 32 := 0xEDB88320

theorem poly_msb : poly.getLsbD (32 - 1) = true := by decide

/-- The inner loop is a shift of the register. -/
theorem crcShift_toBitVec (crc : UInt32) : (crcShift crc).toBitVec = Lfsr.shift poly crc.toBitVec := by
  have hbit : crc.toBitVec &&& 1 = if crc.toBitVec.getLsbD 0 then 1 else 0 := by
    apply BitVec.eq_of_getLsbD_eq
    intro i hi
    rw [BitVec.getLsbD_and]
    cases i with
    | zero => cases crc.toBitVec.getLsbD 0 <;> rfl
    | succ i => cases crc.toBitVec.getLsbD 0 <;> simp
  show (crc.toBitVec >>> 1) ^^^ (poly &&& -(crc.toBitVec &&& 1)) = _
  rw [hbit, Lfsr.shift]
  cases crc.toBitVec.getLsbD 0 <;> rfl

theorem crcByte_toBitVec (crc : UInt32) (b : UInt8) :
    (crcByte crc b).toBitVec = Lfsr.absorb poly crc.toBitVec b := by
  have hiter : ∀ (n : ℕ) (c : UInt32),
      (crcShift^[n] c).toBitVec = (Lfsr.shift poly)^[n] c.toBitVec := by
    intro n
    induction n with
    | zero => exact fun _ => rfl
    | succ n ih =>
      intro c
      rw [Function.iterate_succ_apply, Function.iterate_succ_apply, ih, crcShift_toBitVec]
  exact hiter 8 _

theorem feedCrc32_toBitVec : ∀ (data : List UInt8) (crc : UInt32),
    (feedCrc32 crc data).toBitVec = Lfsr.run poly crc.toBitVec data
  | [], _ => rfl
  | b :: bs, crc => by
    show (feedCrc32 (crcByte crc b) bs).toBitVec = Lfsr.run poly (Lfsr.absorb poly _ b) bs
    rw [feedCrc32_toBitVec bs, crcByte_toBitVec]

/-- Two registers fed the same bytes agree only when they agreed before. -/
theorem feedCrc32_injective (data : List UInt8) : Function.Injective (fun crc => feedCrc32 crc data) := by
  intro c d h
  apply UInt32.toBitVec_inj.mp
  apply Lfsr.run_injective poly_msb data
  show Lfsr.run poly _ data = Lfsr.run poly _ data
  rw [← feedCrc32_toBitVec, ← feedCrc32_toBitVec]
  exact congrArg UInt32.toBitVec h

/-- Byte strings that differ in their first byte alone have different CRCs. -/
theorem crc32_cons_injective (data : List UInt8) :
    Function.Injective (fun b => crc32 (b :: data)) := by
  intro x y h
  have hreg : feedCrc32 (crcByte crcInit x) data = feedCrc32 (crcByte crcInit y) data := by
    have := congrArg (~~~·) h
    simpa [crc32, feedCrc32] using this
  have hbyte := congrArg UInt32.toBitVec (feedCrc32_injective data hreg)
  rw [crcByte_toBitVec, crcByte_toBitVec] at hbyte
  have hlow := (Lfsr.shift_injective poly_msb).iterate 8 hbyte
  rw [BitVec.xor_right_inj] at hlow
  apply UInt8.toBitVec_inj.mp
  have := congrArg (BitVec.setWidth 8) hlow
  simpa using this

end Flash
