import Mathlib.Algebra.CharP.Two
import Mathlib.Algebra.Polynomial.Div
import Mathlib.Algebra.Polynomial.OfFn
import Mathlib.Algebra.Field.ZMod
import Mathlib.Algebra.Polynomial.Monic
import Mathlib.Tactic.LinearCombination
import ReplayFirmware.Lib.Lfsr

/-! Remainders over the field of two elements, the arithmetic that cyclic redundancy codes stand for.

    A bit string is a polynomial, its first bit on top, and a register is one in two ways: with its high
    bit on top, or, where bits are shifted out at the low end, with its low bit on top. One shift of a
    reflected register is then a multiplication by `X`, up to a multiple of the generator, and a run over
    bytes is a long division. -/

namespace Crc
open Polynomial

/-- A bit as a coefficient. -/
def bit (b : Bool) : ZMod 2 := if b then 1 else 0

theorem bit_xor (a b : Bool) : bit (a ^^ b) = bit a + bit b := by
  cases a <;> cases b <;> decide

theorem bit_and (a b : Bool) : bit (a && b) = bit a * bit b := by
  cases a <;> cases b <;> decide

/-! ### Bit strings -/

/-- The first bit is the highest coefficient. -/
noncomputable def ofBits (bits : List Bool) : (ZMod 2)[X] := bits.foldl (fun p b => X * p + C (bit b)) 0

theorem ofBits_concat (bits : List Bool) (b : Bool) :
    ofBits (bits ++ [b]) = X * ofBits bits + C (bit b) := by
  rw [ofBits, List.foldl_append]
  rfl

theorem ofBits_append (as bs : List Bool) :
    ofBits (as ++ bs) = X ^ bs.length * ofBits as + ofBits bs := by
  induction bs using List.reverseRecOn with
  | nil => simp [ofBits]
  | append_singleton bs b ih =>
    rw [← List.append_assoc, ofBits_concat, ih, ofBits_concat, List.length_append, List.length_singleton]
    ring

theorem coeff_ofBits (bits : List Bool) (k : ℕ) :
    (ofBits bits).coeff k = bit (bits.reverse.getD k false) := by
  induction bits using List.reverseRecOn generalizing k with
  | nil => simp [ofBits, bit]
  | append_singleton bits b ih =>
    rw [ofBits_concat, List.reverse_concat]
    cases k with
    | zero => simp
    | succ k => simp [coeff_X_mul, ih]

theorem coeff_ofBits_range (f : ℕ → Bool) (n k : ℕ) :
    (ofBits ((List.range n).map f)).coeff k = if k < n then bit (f (n - 1 - k)) else 0 := by
  rw [coeff_ofBits, ← List.map_reverse, List.getD_eq_getElem?_getD, List.getElem?_map]
  by_cases hk : k < n
  · rw [List.getElem?_eq_getElem (by rw [List.length_reverse, List.length_range]; exact hk),
      List.getElem_reverse, List.getElem_range, List.length_range, if_pos hk]
    rfl
  · rw [List.getElem?_eq_none (by rw [List.length_reverse, List.length_range]; omega), if_neg hk]
    rfl

/-- A polynomial with these exponents. -/
noncomputable def ofExponents (es : List ℕ) : (ZMod 2)[X] := (es.map (X ^ ·)).sum

theorem coeff_ofExponents (es : List ℕ) (k : ℕ) : (ofExponents es).coeff k = (es.count k : ZMod 2) := by
  induction es with
  | nil => simp [ofExponents]
  | cons e es ih =>
    rw [ofExponents] at ih ⊢
    rw [List.map_cons, List.sum_cons, coeff_add, ih, coeff_X_pow, List.count_cons, Nat.cast_add, add_comm]
    by_cases h : k = e
    · simp [h]
    · simp [h, Ne.symm h]

/-! ### Registers -/

variable {w : ℕ}

/-- A register with its high bit on top. -/
noncomputable def upright (r : BitVec w) : (ZMod 2)[X] := ofFn w fun i => bit (r.getLsbD i)

/-- A register with its low bit on top. -/
noncomputable def mirrored (r : BitVec w) : (ZMod 2)[X] := ofFn w fun i => bit (r.getLsbD (w - 1 - i))

theorem coeff_upright (r : BitVec w) (k : ℕ) : (upright r).coeff k = bit (r.getLsbD k) := by
  by_cases h : k < w
  · rw [upright, ofFn_coeff_eq_val_of_lt _ h]
  · rw [upright, ofFn_coeff_eq_zero_of_ge _ (not_lt.mp h), BitVec.getLsbD_of_ge r k (not_lt.mp h)]
    rfl

theorem coeff_mirrored (r : BitVec w) {k : ℕ} (h : k < w) :
    (mirrored r).coeff k = bit (r.getLsbD (w - 1 - k)) := by
  rw [mirrored, ofFn_coeff_eq_val_of_lt _ h]

theorem coeff_mirrored_ge (r : BitVec w) {k : ℕ} (h : w ≤ k) : (mirrored r).coeff k = 0 :=
  ofFn_coeff_eq_zero_of_ge _ h

theorem upright_xor (r s : BitVec w) : upright (r ^^^ s) = upright r + upright s := by
  ext k
  rw [coeff_add, coeff_upright, coeff_upright, coeff_upright, BitVec.getLsbD_xor, bit_xor]

theorem mirrored_xor (r s : BitVec w) : mirrored (r ^^^ s) = mirrored r + mirrored s := by
  ext k
  rw [coeff_add]
  by_cases h : k < w
  · rw [coeff_mirrored _ h, coeff_mirrored _ h, coeff_mirrored _ h, BitVec.getLsbD_xor, bit_xor]
  · rw [coeff_mirrored_ge _ (not_lt.mp h), coeff_mirrored_ge _ (not_lt.mp h), coeff_mirrored_ge _ (not_lt.mp h),
      add_zero]

/-! ### Remainders -/

variable {G p q r s : (ZMod 2)[X]}

/-- `r` is what is left of `p` when multiples of `G` are taken away. -/
def Leaves (G p r : (ZMod 2)[X]) : Prop := ∃ q, r + G * q = p

theorem Leaves.refl (G p : (ZMod 2)[X]) : Leaves G p p := ⟨0, by ring⟩

theorem Leaves.trans (h : Leaves G p r) (h' : Leaves G r s) : Leaves G p s := by
  obtain ⟨a, rfl⟩ := h
  obtain ⟨b, rfl⟩ := h'
  exact ⟨a + b, by ring⟩

theorem Leaves.add (h : Leaves G p r) (h' : Leaves G q s) : Leaves G (p + q) (r + s) := by
  obtain ⟨a, rfl⟩ := h
  obtain ⟨b, rfl⟩ := h'
  exact ⟨a + b, by ring⟩

theorem Leaves.mul (a : (ZMod 2)[X]) (h : Leaves G p r) : Leaves G (a * p) (a * r) := by
  obtain ⟨b, rfl⟩ := h
  exact ⟨a * b, by ring⟩

theorem Leaves.remainder (h : Leaves G p r) (hG : G.Monic) (hr : r.degree < G.degree) : p %ₘ G = r := by
  obtain ⟨a, ha⟩ := h
  exact (div_modByMonic_unique a r hG ⟨ha, hr⟩).2

/-! ### Reflected registers -/

variable {poly : BitVec w}

/-- The generator that a register stands for. -/
noncomputable def generator (poly : BitVec w) : (ZMod 2)[X] := X ^ w + mirrored poly

theorem generator_monic (poly : BitVec w) : (generator poly).Monic := monic_X_pow_add (ofFn_degree_lt _)

theorem mirrored_degree (r : BitVec w) : (mirrored r).degree < (generator poly).degree := by
  have hlt : (mirrored poly).degree < (X ^ w : (ZMod 2)[X]).degree := by
    rw [degree_X_pow]
    exact ofFn_degree_lt _
  rw [generator, degree_add_eq_left_of_degree_lt hlt, degree_X_pow]
  exact ofFn_degree_lt _

/-- The bit that falls out is the highest coefficient. -/
theorem mirrored_ushiftRight (h : 0 < w) (r : BitVec w) :
    mirrored (r >>> 1) + C (bit (r.getLsbD 0)) * X ^ w = X * mirrored r := by
  ext k
  rw [coeff_add, coeff_C_mul_X_pow]
  cases k with
  | zero =>
    rw [coeff_X_mul_zero, coeff_mirrored _ h, if_neg (Nat.ne_of_lt h), add_zero, BitVec.getLsbD_ushiftRight,
      BitVec.getLsbD_of_ge r _ (by omega)]
    rfl
  | succ k =>
    rw [coeff_X_mul]
    rcases Nat.lt_trichotomy (k + 1) w with hk | hk | hk
    · rw [coeff_mirrored _ hk, coeff_mirrored _ (by omega), if_neg (by omega), add_zero,
        BitVec.getLsbD_ushiftRight, show 1 + (w - 1 - (k + 1)) = w - 1 - k by omega]
    · rw [coeff_mirrored_ge _ hk.ge, coeff_mirrored _ (by omega), if_pos hk, zero_add,
        show w - 1 - k = 0 by omega]
    · rw [coeff_mirrored_ge _ hk.le, coeff_mirrored_ge _ (by omega), if_neg (by omega), add_zero]

theorem leaves_shift (h : 0 < w) (r : BitVec w) :
    Leaves (generator poly) (X * mirrored r) (mirrored (Lfsr.shift poly r)) := by
  refine ⟨C (bit (r.getLsbD 0)), ?_⟩
  have hmix : mirrored (if r.getLsbD 0 then poly else 0) = C (bit (r.getLsbD 0)) * mirrored poly := by
    cases r.getLsbD 0 with
    | true => rw [if_pos rfl, bit, if_pos rfl, C_1, one_mul]
    | false =>
      rw [if_neg Bool.false_ne_true, bit, if_neg Bool.false_ne_true, C_0, zero_mul]
      ext k
      by_cases hk : k < w
      · rw [coeff_mirrored _ hk]
        simp [bit]
      · rw [coeff_mirrored_ge _ (not_lt.mp hk), coeff_zero]
  rw [Lfsr.shift, mirrored_xor, hmix, ← mirrored_ushiftRight h r, generator]
  have htwo := CharTwo.add_self_eq_zero (C (bit (r.getLsbD 0)) * mirrored poly)
  linear_combination htwo

theorem leaves_shifts (h : 0 < w) : ∀ (n : ℕ) (r : BitVec w),
    Leaves (generator poly) (X ^ n * mirrored r) (mirrored ((Lfsr.shift poly)^[n] r))
  | 0, r => by
    rw [pow_zero, one_mul]
    exact .refl _ _
  | n + 1, r => by
    rw [Function.iterate_succ_apply, pow_succ, mul_assoc]
    exact ((leaves_shift h r).mul (X ^ n)).trans (leaves_shifts h n _)

/-- The bits of a byte in the order of a reflected code. -/
def lowFirst (b : UInt8) : List Bool := (List.range 8).map b.toBitVec.getLsbD

theorem mirrored_byte (h : 8 ≤ w) (b : UInt8) :
    X ^ 8 * mirrored (b.toBitVec.setWidth w) = X ^ w * ofBits (lowFirst b) := by
  ext k
  rw [coeff_X_pow_mul', coeff_X_pow_mul', lowFirst, coeff_ofBits_range]
  by_cases hw : w ≤ k
  · rw [if_pos (h.trans hw), if_pos hw]
    by_cases hlt : k - 8 < w
    · rw [coeff_mirrored _ hlt, BitVec.getLsbD_setWidth, decide_eq_true (by omega : w - 1 - (k - 8) < w),
        Bool.true_and, if_pos (by omega), show w - 1 - (k - 8) = 8 - 1 - (k - w) by omega]
    · rw [coeff_mirrored_ge _ (not_lt.mp hlt), if_neg (by omega)]
  · rw [if_neg hw]
    by_cases h8 : 8 ≤ k
    · rw [if_pos h8, coeff_mirrored _ (by omega), BitVec.getLsbD_setWidth,
        BitVec.getLsbD_of_ge b.toBitVec _ (by omega), Bool.and_false]
      rfl
    · rw [if_neg h8]

theorem leaves_absorb (h : 8 ≤ w) (r : BitVec w) (b : UInt8) :
    Leaves (generator poly) (X ^ 8 * mirrored r + X ^ w * ofBits (lowFirst b)) (mirrored (Lfsr.absorb poly r b)) := by
  rw [← mirrored_byte h, ← mul_add, ← mirrored_xor]
  exact leaves_shifts (by omega) 8 _

/-- A run over a byte string is a division: what is left of the string behind the first register, with the
    register's width of zeros. -/
theorem leaves_run (h : 8 ≤ w) (data : List UInt8) (r : BitVec w) : Leaves (generator poly)
    (X ^ (8 * data.length) * mirrored r + X ^ w * ofBits (data.flatMap lowFirst))
    (mirrored (Lfsr.run poly r data)) := by
  induction data using List.reverseRecOn with
  | nil =>
    rw [List.length_nil, List.flatMap_nil, pow_zero, one_mul, ofBits, List.foldl_nil, mul_zero, add_zero]
    exact .refl _ _
  | append_singleton data b ih =>
    have hstep := ((ih.mul (X ^ 8)).add (.refl _ (X ^ w * ofBits (lowFirst b)))).trans (leaves_absorb h _ b)
    have hsum : X ^ (8 * (data ++ [b]).length) * mirrored r + X ^ w * ofBits ((data ++ [b]).flatMap lowFirst) =
        X ^ 8 * (X ^ (8 * data.length) * mirrored r + X ^ w * ofBits (data.flatMap lowFirst)) +
          X ^ w * ofBits (lowFirst b) := by
      rw [List.flatMap_append, ofBits_append, List.flatMap_singleton, List.length_append, List.length_singleton,
        show (lowFirst b).length = 8 from rfl]
      ring
    rw [Lfsr.run, List.foldl_append, hsum]
    exact hstep

end Crc
