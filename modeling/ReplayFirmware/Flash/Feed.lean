import ReplayFirmware.Flash.Crc32
import ReplayFirmware.Lib.Crc

/-! `feed_crc32` over the calls that share its static.

    After the call that restarts it, the static is what the bytes of all calls have made of it, in whatever
    pieces they came, and what a call returns is the checksum of the standard: the remainder by the
    generator of degree 32, bytes with their low bit first, ones shifted in ahead and the result inverted. -/

namespace Flash
open Polynomial Crc

/-- The bytes at a pointer. -/
def bytesAt (mem : UInt32 → UInt8) (data : UInt32) (length : ℕ) : List UInt8 :=
  (List.range length).map fun i => mem (data + i.toUInt32)

/-- What the call is with that restarts the static. -/
def IsReset (data length : UInt32) : Prop := data = 0 ∧ length = 0xFFFFFFFF

instance (data length : UInt32) : Decidable (IsReset data length) := inferInstanceAs (Decidable (_ ∧ _))

/-- `feed_crc32`: what it returns, and what it leaves in the static. -/
def feed (mem : UInt32 → UInt8) (data length : UInt32) (crc : UInt32) : UInt32 × UInt32 :=
  let reset := decide (IsReset data length)
  let crc := if reset then length else crc
  let length := if reset then 0 else length
  let crc := feedCrc32 crc (bytesAt mem data length.toNat)
  (~~~crc, crc)

/-- A call that feeds bytes, with the memory as it is then. -/
structure Feed where
  mem : UInt32 → UInt8
  data : UInt32
  length : UInt32
  not_reset : ¬IsReset data length

def Feed.bytes (f : Feed) : List UInt8 := bytesAt f.mem f.data f.length.toNat

/-- A call that feeds nothing. -/
def feedNothing : Feed := ⟨fun _ => 0, 0, 0, by decide⟩

/-- Calls one after the other: what the last one returns, and the static. -/
def feeds (s : UInt32 × UInt32) (calls : List Feed) : UInt32 × UInt32 :=
  calls.foldl (fun s f => feed f.mem f.data f.length s.2) s

/-- `feed_crc32(0, 0xffffffff)` -/
def reset (mem : UInt32 → UInt8) (crc : UInt32) : UInt32 × UInt32 := feed mem 0 0xFFFFFFFF crc

/-! ### The standard -/

/-- The generator of degree 32. -/
noncomputable def generator32 : (ZMod 2)[X] :=
  ofExponents [32, 26, 23, 22, 16, 12, 11, 10, 8, 7, 5, 4, 2, 1, 0]

/-- Ones ahead of the message, and zeros behind it. -/
noncomputable def dividend (data : List UInt8) : (ZMod 2)[X] :=
  X ^ (8 * data.length) * ofBits (List.replicate 32 true) + X ^ 32 * ofBits (data.flatMap lowFirst)

/-- The bits of the checksum are those of the remainder, inverted, the highest coefficient in the lowest
    bit. -/
def IsCrc32 (data : List UInt8) (crc : UInt32) : Prop :=
  ∀ i < 32, bit (!crc.toBitVec.getLsbD i) = (dividend data %ₘ generator32).coeff (31 - i)

/-! ### The register of the generator -/

theorem generator_poly : generator poly = generator32 := by
  have hbits : ∀ k < 32, (if k = 32 then 1 else 0) + bit (poly.getLsbD (32 - 1 - k)) =
      ([32, 26, 23, 22, 16, 12, 11, 10, 8, 7, 5, 4, 2, 1, 0].count k : ZMod 2) := by decide
  ext k
  rw [generator, coeff_add, coeff_X_pow, generator32, coeff_ofExponents]
  by_cases hk : k < 32
  · rw [coeff_mirrored _ hk]
    exact hbits k hk
  · rw [coeff_mirrored_ge _ (not_lt.mp hk)]
    by_cases heq : k = 32
    · rw [heq]
      decide
    · rw [if_neg heq, List.count_eq_zero_of_not_mem, Nat.cast_zero, add_zero]
      simp only [List.mem_cons, List.not_mem_nil, or_false]
      omega

theorem mirrored_init : mirrored crcInit.toBitVec = ofBits (List.replicate 32 true) := by
  have hbits : ∀ k < 32, crcInit.toBitVec.getLsbD (32 - 1 - k) = true := by decide
  ext k
  rw [coeff_ofBits, List.reverse_replicate]
  by_cases hk : k < 32
  · rw [coeff_mirrored _ hk, List.getD_replicate _ hk]
    exact congrArg bit (hbits k hk)
  · rw [coeff_mirrored_ge _ (not_lt.mp hk), List.getD_eq_default _ _ (by rw [List.length_replicate]; omega)]
    rfl

/-- The register after a string is what the division leaves. -/
theorem mirrored_feed (data : List UInt8) :
    dividend data %ₘ generator32 = mirrored (feedCrc32 crcInit data).toBitVec := by
  have hrun := @leaves_run 32 poly (by decide) data crcInit.toBitVec
  rw [mirrored_init, ← feedCrc32_toBitVec] at hrun
  rw [← generator_poly]
  exact hrun.remainder (generator_monic poly) (mirrored_degree _)

theorem crc32_standard (data : List UInt8) : IsCrc32 data (crc32 data) := by
  intro i hi
  have hbit : (crc32 data).toBitVec.getLsbD i = !(feedCrc32 crcInit data).toBitVec.getLsbD i := by
    rw [crc32, UInt32.toBitVec_not, BitVec.getLsbD_not, decide_eq_true hi, Bool.true_and]
  rw [mirrored_feed, coeff_mirrored _ (by omega), hbit, Bool.not_not, show 32 - 1 - (31 - i) = i by omega]

/-- The standard leaves no choice. -/
theorem IsCrc32.unique {data : List UInt8} {c d : UInt32} (hc : IsCrc32 data c) (hd : IsCrc32 data d) :
    c = d := by
  have hbit : ∀ a b : Bool, bit (!a) = bit (!b) → a = b := by decide
  refine UInt32.toBitVec_inj.mp (BitVec.eq_of_getLsbD_eq fun i hi => ?_)
  exact hbit _ _ ((hc i hi).trans (hd i hi).symm)

/-! ### Calls -/

theorem reset_eq (mem : UInt32 → UInt8) (crc : UInt32) : reset mem crc = (crc32 [], crcInit) := by
  rw [reset, feed, decide_eq_true (show IsReset 0 0xFFFFFFFF from ⟨rfl, rfl⟩)]
  rfl

theorem feed_eq (f : Feed) (crc : UInt32) :
    feed f.mem f.data f.length crc = (~~~feedCrc32 crc f.bytes, feedCrc32 crc f.bytes) := by
  rw [feed, decide_eq_false f.not_reset]
  rfl

/-- After calls, the static is what one run over all their bytes makes of it, and what the last one returns
    is that inverted. -/
theorem feeds_eq : ∀ (calls : List Feed) (crc : UInt32), feeds (~~~crc, crc) calls =
    (~~~feedCrc32 crc (calls.flatMap Feed.bytes), feedCrc32 crc (calls.flatMap Feed.bytes))
  | [], _ => rfl
  | f :: calls, crc => by
    rw [List.flatMap_cons, feedCrc32_append, ← feeds_eq calls]
    show feeds (feed f.mem f.data f.length crc) calls = _
    rw [feed_eq]

/-- After a restart, whatever the static held, the last of any calls returns the checksum of all the bytes
    that they fed, so does one that feeds nothing behind them, and it does not matter how the bytes were
    cut. -/
theorem feeds_standard (mem : UInt32 → UInt8) (crc : UInt32) (calls : List Feed) :
    IsCrc32 (calls.flatMap Feed.bytes) (feeds (reset mem crc) calls).1 ∧
      (feeds (reset mem crc) (calls ++ [feedNothing])).1 = (feeds (reset mem crc) calls).1 ∧
      ∀ (mem' : UInt32 → UInt8) (crc' : UInt32) (calls' : List Feed),
        calls'.flatMap Feed.bytes = calls.flatMap Feed.bytes →
        (feeds (reset mem' crc') calls').1 = (feeds (reset mem crc) calls).1 := by
  have hfeeds : ∀ (mem : UInt32 → UInt8) (crc : UInt32) (calls : List Feed),
      (feeds (reset mem crc) calls).1 = crc32 (calls.flatMap Feed.bytes) := by
    intro mem crc calls
    rw [reset_eq]
    exact congrArg Prod.fst (feeds_eq calls crcInit)
  refine ⟨?_, ?_, fun mem' crc' calls' heq => ?_⟩
  · rw [hfeeds]
    exact crc32_standard _
  · rw [hfeeds, hfeeds, List.flatMap_append]
    exact congrArg crc32 (List.append_nil _)
  · rw [hfeeds, hfeeds, heq]

end Flash
