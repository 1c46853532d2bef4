import Mathlib.Data.List.Basic
import Mathlib.Data.Nat.Notation
import Mathlib.Logic.Function.Iterate
import Mathlib.Tactic.Common

/-! Reflected linear-feedback shift registers of any width, the arithmetic under table-free CRCs.

    A register shifts towards its low bit; when a one falls out, the polynomial is mixed in. When
    the polynomial's top bit is set, the bit that fell out can be read off the new register, so a
    shift loses nothing: `shift_injective`, and with it `absorb` and `run` are injective in the
    starting register. Two runs over the same bytes therefore agree at the end only when they
    started alike. -/

namespace Lfsr

variable {w : ℕ} (poly : BitVec w)

/-- One shift: the polynomial is mixed in when a one falls out of the register. -/
def shift (r : BitVec w) : BitVec w := (r >>> 1) ^^^ (if r.getLsbD 0 then poly else 0)

/-- One byte: mixed into the low end of the register, then eight shifts. -/
def absorb (r : BitVec w) (b : UInt8) : BitVec w := (shift poly)^[8] (r ^^^ b.toBitVec.setWidth w)

/-- The register after a byte string. -/
def run (r : BitVec w) (bs : List UInt8) : BitVec w := bs.foldl (absorb poly) r

variable {poly}

/-- The top bit of a shifted register is the bit that fell out. -/
theorem getLsbD_shift_msb (h : poly.getLsbD (w - 1) = true) (r : BitVec w) :
    (shift poly r).getLsbD (w - 1) = r.getLsbD 0 := by
  rw [shift, BitVec.getLsbD_xor, BitVec.getLsbD_ushiftRight, BitVec.getLsbD_of_ge r _ (by omega)]
  cases r.getLsbD 0 <;> simp [h]

theorem shift_injective (h : poly.getLsbD (w - 1) = true) : Function.Injective (shift poly) := by
  intro r s hrs
  have hlow : r.getLsbD 0 = s.getLsbD 0 := by
    rw [← getLsbD_shift_msb h r, hrs, getLsbD_shift_msb h s]
  have hhigh : r >>> 1 = s >>> 1 := by
    simp only [shift, hlow] at hrs
    exact (BitVec.xor_left_inj _).mp hrs
  apply BitVec.eq_of_getLsbD_eq
  intro i _
  cases i with
  | zero => exact hlow
  | succ i =>
    have := congrArg (fun x => x.getLsbD i) hhigh
    simpa [BitVec.getLsbD_ushiftRight, Nat.add_comm] using this

theorem absorb_injective (h : poly.getLsbD (w - 1) = true) (b : UInt8) :
    Function.Injective (fun r => absorb poly r b) := by
  intro r s hrs
  exact (BitVec.xor_left_inj _).mp ((shift_injective h).iterate 8 hrs)

/-- Runs over one string end alike only when they start alike. -/
theorem run_injective (h : poly.getLsbD (w - 1) = true) (bs : List UInt8) :
    Function.Injective (fun r => run poly r bs) := by
  induction bs with
  | nil => exact fun _ _ hrs => hrs
  | cons b bs ih => exact fun r s hrs => absorb_injective h b (ih hrs)

end Lfsr
