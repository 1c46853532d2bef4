import ReplayFirmware.Twi.ClockGen
import Mathlib.Logic.Function.Basic
import Mathlib.Tactic.IntervalCases

/-! A PLL and an output that are changed while the clock runs.

    `UpdatePLL` patches the registers in place, and several fields share a register with fields of other
    PLLs and outputs. Each of its steps replaces one field of what is programmed; together they leave
    what a full configuration would program. -/

namespace Twi
open Config.Handlers

/-! ### The chip -/

/-- The registers of the CDCE906, from 1 on, and how each write has left them. -/
structure Chip where
  regs : List UInt8
  trace : List (List UInt8)

/-- `Read_CDCE906` -/
def Chip.read (b : Chip) (address : ℕ) : UInt8 := b.regs.getD (address - 1) 0

/-- `Write_CDCE906` -/
def Chip.write (b : Chip) (address : ℕ) (data : UInt8) : Chip :=
  let regs := b.regs.set (address - 1) data
  ⟨regs, b.trace ++ [regs]⟩

/-! ### Steps -/

/-- `pll_conf_bit` -/
def pllConfBit (pll : ℕ) : UInt8 := UInt8.ofNat (1 <<< (8 - pll))

def disableOutput (y : ℕ) (b : Chip) : Chip := b.write (19 + y) 0x30

def bypassPll (pll : ℕ) (b : Chip) : Chip := b.write 3 (b.read 3 ||| pllConfBit pll)

/-- `hi_n` -/
def hiN (n : UInt32) : UInt8 := ((n >>> (8 - 1)) &&& ((0xf : UInt32) <<< 1)).toUInt8

/-- `hi_m` -/
def hiM (m : UInt32) : UInt8 := ((m >>> 8) &&& 1).toUInt8

/-- The low bytes, and the high bits below what their register holds besides. -/
def updateMN (pll : ℕ) (m n : UInt32) (b : Chip) : Chip :=
  let lo_m := (m &&& 0xff).toUInt8
  let lo_n := (n &&& 0xff).toUInt8
  let mn_base := 1 + (pll - 1) * 3
  let hi := b.read (mn_base + 2) &&& 0xe0
  ((b.write (mn_base + 0) lo_m).write (mn_base + 1) lo_n).write (mn_base + 2) (hi ||| hiN n ||| hiM m)

def updateFilter (pll : ℕ) (fvco : UInt32) (b : Chip) : Chip :=
  b.write 6 (b.read 6 &&& ~~~pllConfBit pll ||| (if 190000 < fvco then pllConfBit pll else 0))

def regPx (y : ℕ) : ℕ := if 2 ≤ y ∧ y ≤ 5 then 11 + y / 4 else 9 + y

def shiftPx (y : ℕ) : UInt32 := if 2 ≤ y ∧ y ≤ 5 then (if y % 2 = 1 then 3 else 0) else 5

/-- `valPx`: three bits of a register are replaced. -/
def setSel (r : UInt8) (shift pll_sel : UInt32) : UInt8 :=
  (r.toUInt32 &&& ~~~((0x7 : UInt32) <<< shift) ||| pll_sel <<< shift).toUInt8

def updateSource (y : ℕ) (pll_sel : UInt32) (b : Chip) : Chip :=
  b.write (regPx y) (setSel (b.read (regPx y)) (shiftPx y) pll_sel)

def updateDiv (y : ℕ) (div : UInt32) (b : Chip) : Chip := b.write (13 + y) (div &&& 0x7f).toUInt8

def endBypass (pll : ℕ) (b : Chip) : Chip := b.write 3 (b.read 3 &&& ~~~pllConfBit pll)

def enableOutput (y : ℕ) (b : Chip) : Chip := b.write (19 + y) (0x30 ||| 0x08 ||| (UInt8.ofNat y &&& 7))

/-- `UpdatePLL` -/
def updatePll (pll : ℕ) (m n pll_sel div : UInt32) (y : ℕ) (b : Chip) : Result Chip := do
  let b := updateMN pll m n (bypassPll pll (disableOutput y b))
  let fvco ← divide (27000 * n) m
  let _ ← divide fvco div
  let b := updateSource y pll_sel (updateFilter pll fvco b)
  return enableOutput y (endBypass pll (updateDiv y div b))

/-! ### What is programmed -/

/-- The clock with other numbers for a PLL. -/
def setPll (c : ClockConfig) (pll : ℕ) (m n : UInt16) : ClockConfig :=
  match pll with
  | 1 => { c with pll1_m := m, pll1_n := n }
  | 2 => { c with pll2_m := m, pll2_n := n }
  | _ => { c with pll3_m := m, pll3_n := n }

variable {c : ClockConfig} {conf out : ℕ → UInt8} {b : Chip} {pll y : ℕ}

@[simp] theorem setPll_p_sel {m n : UInt16} : (setPll c pll m n).p_sel = c.p_sel := by
  unfold setPll
  split <;> rfl

@[simp] theorem setPll_p_div {m n : UInt16} : (setPll c pll m n).p_div = c.p_div := by
  unfold setPll
  split <;> rfl

/-! ### Bytes -/

theorem byte_ext {a b : UInt8} (h : ∀ i (_ : i < 8), a.toBitVec[i] = b.toBitVec[i]) : a = b :=
  UInt8.eq_of_toBitVec_eq (BitVec.eq_of_getElem_eq h)

theorem word_ext {a b : UInt32} (h : ∀ i (_ : i < 32), a.toBitVec[i] = b.toBitVec[i]) : a = b :=
  UInt32.eq_of_toBitVec_eq (BitVec.eq_of_getElem_eq h)

variable {n m : UInt16}

/-- A bit that is taken out stands at 0. -/
theorem ebits_bit {x : UInt8} {pos : UInt32} (hpos : pos.toNat < 8) {i : ℕ} (hi : i < 32) :
    (ebits x.toUInt32 pos 1).toBitVec[i] = (decide (i = 0) && x.toBitVec.getLsbD pos.toNat) := by
  have hmod : pos.toNat % 32 = pos.toNat := Nat.mod_eq_of_lt (Nat.lt_trans hpos (by decide))
  rcases i with _ | i
  · simp [ebits, hmod]
    omega
  · simp [ebits, hmod]

theorem ebits_congr {a b : UInt8} {pos : UInt32} (hpos : pos.toNat < 8)
    (h : a.toBitVec.getLsbD pos.toNat = b.toBitVec.getLsbD pos.toNat) :
    ebits a.toUInt32 pos 1 = ebits b.toUInt32 pos 1 :=
  word_ext fun i hi => by rw [ebits_bit hpos hi, ebits_bit hpos hi, h]

theorem ebits_one (x pos : UInt32) : ebits x pos 1 = 0 ∨ ebits x pos 1 = 1 := by
  have hmod := UInt32.toNat_and (x >>> pos) 1
  rw [show (1 : UInt32).toNat = 2 ^ 1 - 1 from rfl, Nat.and_two_pow_sub_one_eq_mod] at hmod
  rcases Nat.mod_two_eq_zero_or_one (x >>> pos).toNat with h | h
  · exact .inl (UInt32.toNat_inj.mp (hmod.trans h))
  · exact .inr (UInt32.toNat_inj.mp (hmod.trans h))

theorem ebits_three (x pos : UInt32) : ∃ k ∈ List.range 8, ebits x pos 3 = k.toUInt32 := by
  have hmod := UInt32.toNat_and (x >>> pos) 7
  rw [show (7 : UInt32).toNat = 2 ^ 3 - 1 from rfl, Nat.and_two_pow_sub_one_eq_mod] at hmod
  refine ⟨(x >>> pos).toNat % 2 ^ 3, List.mem_range.mpr (Nat.mod_lt _ (by decide)), ?_⟩
  rw [← hmod, Nat.toUInt32, UInt32.ofNat_toNat]
  rfl

/-- The bits of a register with `pll_conf` on top. -/
theorem confByte_bit {pos : UInt32} (hpos : pos.toNat < 8) {i : ℕ} (hi : i < 8) :
    (highByte (confBits conf pos) n m).toBitVec[i] =
      (decide (i = 7) && (conf 0).toBitVec.getLsbD pos.toNat ||
        decide (i = 6) && (conf 1).toBitVec.getLsbD pos.toNat ||
        decide (i = 5) && (conf 2).toBitVec.getLsbD pos.toNat ||
        decide (0 < i ∧ i < 5) && n.toBitVec.getLsbD (7 + i) ||
        decide (i = 0) && m.toBitVec.getLsbD 8) := by
  have hmod : pos.toNat % 32 = pos.toNat := Nat.mod_eq_of_lt (Nat.lt_trans hpos (by decide))
  simp [highByte, confBits, ebits, hmod]
  interval_cases i <;> simp <;> omega

theorem confByte_bypass (h : 1 ≤ pll) (h' : pll ≤ 3) :
    highByte (confBits conf 1) n m ||| pllConfBit pll =
      highByte (confBits (Function.update conf (pll - 1) (conf (pll - 1) ||| 2)) 1) n m := by
  refine byte_ext fun i hi => ?_
  rw [UInt8.toBitVec_or, BitVec.getElem_or, confByte_bit (by decide) hi, confByte_bit (by decide) hi]
  interval_cases pll <;> interval_cases i <;> simp [pllConfBit]

theorem confByte_endBypass (h : 1 ≤ pll) (h' : pll ≤ 3) :
    highByte (confBits conf 1) n m &&& ~~~pllConfBit pll =
      highByte (confBits (Function.update conf (pll - 1) (conf (pll - 1) &&& ~~~2)) 1) n m := by
  refine byte_ext fun i hi => ?_
  rw [UInt8.toBitVec_and, BitVec.getElem_and, confByte_bit (by decide) hi, confByte_bit (by decide) hi]
  interval_cases pll <;> interval_cases i <;> simp [pllConfBit]

theorem highByte_updateMN {top n' m' : UInt32} (htop : top = top &&& 0xe0) :
    (highByte top n m &&& 0xe0) ||| hiN n' ||| hiM m' = highByte top n'.toUInt16 m'.toUInt16 := by
  rw [htop]
  refine byte_ext fun i hi => ?_
  interval_cases i <;> simp [highByte, ebits, hiN, hiM, -UInt32.toUInt32_toUInt16]

theorem lowByte_update {x : UInt32} : (x &&& 0xff).toUInt8 = lowByte x.toUInt16 := by
  refine byte_ext fun i hi => ?_
  interval_cases i <;> simp [lowByte, ebits, -UInt32.toUInt32_toUInt16]

theorem confBits_high {pos : UInt32} : confBits conf pos = confBits conf pos &&& 0xe0 := by
  unfold confBits
  rcases ebits_one (conf 0).toUInt32 pos with h0 | h0 <;> rcases ebits_one (conf 1).toUInt32 pos with h1 | h1 <;>
    rcases ebits_one (conf 2).toUInt32 pos with h2 | h2 <;> rw [h0, h1, h2] <;> rfl

theorem selTop_table : ∀ k ∈ List.range 8, k.toUInt32 <<< 5 = (k.toUInt32 <<< 5) &&& 0xe0 := by decide

theorem selTop_high {sel : UInt8} : selTop sel = selTop sel &&& 0xe0 := by
  obtain ⟨k, hk, heq⟩ := ebits_three sel.toUInt32 0
  rw [selTop, heq]
  exact selTop_table k hk

theorem confByte_updateFilter {fvco : UInt32} (h : 1 ≤ pll) (h' : pll ≤ 3) :
    highByte (confBits conf 0) n m &&& ~~~pllConfBit pll |||
        (if 190000 < fvco then pllConfBit pll else 0) =
      highByte (confBits (Function.update conf (pll - 1) (conf (pll - 1) &&& ~~~1 ||| pllConf fvco)) 0)
        n m := by
  refine byte_ext fun i hi => ?_
  rw [UInt8.toBitVec_or, BitVec.getElem_or, UInt8.toBitVec_and, BitVec.getElem_and,
    confByte_bit (by decide) hi, confByte_bit (by decide) hi, pllConf]
  split
  · interval_cases pll <;> interval_cases i <;> simp [pllConfBit]
  · interval_cases pll <;> interval_cases i <;> simp [pllConfBit]

/-- The other bit of `pll_conf`. -/
theorem confBits_update {pos : UInt32} {x : UInt8}
    (h : ebits x.toUInt32 pos 1 = ebits (conf (pll - 1)).toUInt32 pos 1) :
    confBits (Function.update conf (pll - 1) x) pos = confBits conf pos := by
  have hi : ∀ i, ebits (Function.update conf (pll - 1) x i).toUInt32 pos 1 =
      ebits (conf i).toUInt32 pos 1 := by
    intro i
    rw [Function.update_apply]
    split
    · next hi => rw [h, hi]
    · rfl
  simp only [confBits, hi]

theorem setSel_eq {r : UInt8} {shift pll_sel : UInt32} : setSel r shift pll_sel =
    r &&& ~~~((0x7 : UInt32) <<< shift).toUInt8 ||| (pll_sel <<< shift).toUInt8 := by
  refine byte_ext fun i hi => ?_
  simp [setSel]

theorem setSel_high {high low : UInt8} {sel : UInt32} (hsel : sel = sel &&& 7) :
    setSel (selByte high low) 3 sel = selByte sel.toUInt8 low := by
  rw [setSel_eq, hsel]
  refine byte_ext fun i hi => ?_
  interval_cases i <;> simp [selByte, ebits, -UInt32.toUInt32_toUInt8]

theorem setSel_low {high low : UInt8} {sel : UInt32} (hsel : sel = sel &&& 7) :
    setSel (selByte high low) 0 sel = selByte high sel.toUInt8 := by
  rw [setSel_eq, hsel]
  refine byte_ext fun i hi => ?_
  interval_cases i <;> simp [selByte, ebits, -UInt32.toUInt32_toUInt8]

theorem setSel_highByte {sel' : UInt8} {sel : UInt32} (hsel : sel = sel &&& 7) :
    setSel (highByte (selTop sel') n m) 5 sel = highByte (selTop sel.toUInt8) n m := by
  rw [setSel_eq, hsel]
  refine byte_ext fun i hi => ?_
  interval_cases i <;> simp [highByte, selTop, ebits, -UInt32.toUInt32_toUInt8]

theorem setSel_selTop {sel' : UInt8} {sel : UInt32} (hsel : sel = sel &&& 7) :
    setSel (selTop sel').toUInt8 5 sel = (selTop sel.toUInt8).toUInt8 := by
  rw [setSel_eq, hsel]
  refine byte_ext fun i hi => ?_
  interval_cases i <;> simp [selTop, ebits, -UInt32.toUInt32_toUInt8]

theorem divByte_update {div : UInt32} : (div &&& 0x7f).toUInt8 = divByte div.toUInt8 := by
  refine byte_ext fun i hi => ?_
  interval_cases i <;> simp [divByte, ebits, -UInt32.toUInt32_toUInt8]

theorem and_seven {sel : UInt32} (h : sel ≤ 7) : sel = sel &&& 7 := by
  refine UInt32.toNat_inj.mp ?_
  have hsel : sel.toNat ≤ 7 := h
  rw [UInt32.toNat_and, show (7 : UInt32).toNat = 2 ^ 3 - 1 from rfl, Nat.and_two_pow_sub_one_eq_mod,
    Nat.mod_eq_of_lt (by omega)]

/-! ### What a step replaces -/

theorem disableOutput_regs (hb : b.regs = registers c conf out) (hy : y ≤ 5) :
    (disableOutput y b).regs = registers c conf (Function.update out y 0x30) := by
  rw [disableOutput, Chip.write, hb]
  interval_cases y <;> simp [registers]

theorem enableOutput_regs (hb : b.regs = registers c conf out) (hy : y ≤ 5) :
    (enableOutput y b).regs = registers c conf (Function.update out y (outByte 1 y)) := by
  have hout : 0x30 ||| 0x08 ||| (UInt8.ofNat y &&& 7) = outByte 1 y := by
    interval_cases y <;> rfl
  rw [enableOutput, Chip.write, hb, hout]
  interval_cases y <;> simp [registers]

theorem bypassPll_regs (hb : b.regs = registers c conf out) (h : 1 ≤ pll) (h' : pll ≤ 3) :
    (bypassPll pll b).regs =
      registers c (Function.update conf (pll - 1) (conf (pll - 1) ||| 2)) out := by
  have hfilter : ebits (conf (pll - 1) ||| 2).toUInt32 0 1 = ebits (conf (pll - 1)).toUInt32 0 1 :=
    ebits_congr (by decide) (by simp)
  rw [bypassPll, Chip.write, Chip.read, hb]
  simp only [registers, confBits_update hfilter, ← confByte_bypass h h']
  rfl

theorem endBypass_regs (hb : b.regs = registers c conf out) (h : 1 ≤ pll) (h' : pll ≤ 3) :
    (endBypass pll b).regs =
      registers c (Function.update conf (pll - 1) (conf (pll - 1) &&& ~~~2)) out := by
  have hfilter : ebits (conf (pll - 1) &&& ~~~2).toUInt32 0 1 = ebits (conf (pll - 1)).toUInt32 0 1 :=
    ebits_congr (by decide) (by simp)
  rw [endBypass, Chip.write, Chip.read, hb]
  simp only [registers, confBits_update hfilter, ← confByte_endBypass h h']
  rfl

theorem updateFilter_regs (fvco : UInt32) (hb : b.regs = registers c conf out) (h : 1 ≤ pll)
    (h' : pll ≤ 3) : (updateFilter pll fvco b).regs =
      registers c (Function.update conf (pll - 1) (conf (pll - 1) &&& ~~~1 ||| pllConf fvco)) out := by
  have hbypass : ebits (conf (pll - 1) &&& ~~~1 ||| pllConf fvco).toUInt32 1 1 =
      ebits (conf (pll - 1)).toUInt32 1 1 := by
    refine ebits_congr (by decide) ?_
    rw [pllConf]
    split <;> simp
  rw [updateFilter, Chip.write, Chip.read, hb]
  simp only [registers, confBits_update hbypass, ← confByte_updateFilter h h']
  rfl

theorem updateMN_regs {m n : UInt32} (hb : b.regs = registers c conf out) (h : 1 ≤ pll) (h' : pll ≤ 3) :
    (updateMN pll m n b).regs = registers (setPll c pll m.toUInt16 n.toUInt16) conf out := by
  simp only [updateMN, lowByte_update, Chip.write, Chip.read, hb]
  interval_cases pll
  · simp [registers, setPll, highByte_updateMN confBits_high]
  · simp [registers, setPll, highByte_updateMN confBits_high]
  · simp [registers, setPll, highByte_updateMN selTop_high]

theorem updateDiv_regs (div : UInt32) (hb : b.regs = registers c conf out) (hy : y ≤ 5)
    (hlen : c.p_div.length = 6) :
    (updateDiv y div b).regs = registers { c with p_div := c.p_div.set y div.toUInt8 } conf out := by
  rw [updateDiv, Chip.write, hb, divByte_update]
  interval_cases y <;> simp [registers, hlen]

theorem updateSource_regs {pll_sel : UInt32} (hb : b.regs = registers c conf out) (hy : y ≤ 5)
    (hlen : c.p_sel.length = 6) (hsel : pll_sel ≤ 7) : (updateSource y pll_sel b).regs =
      registers { c with p_sel := c.p_sel.set y pll_sel.toUInt8 } conf out := by
  have hsel := and_seven hsel
  rw [updateSource, Chip.write, Chip.read, hb]
  interval_cases y
  · simp [registers, hlen, regPx, shiftPx, setSel_highByte hsel]
  · simp [registers, hlen, regPx, shiftPx, setSel_selTop hsel]
  · simp [registers, hlen, regPx, shiftPx, setSel_low hsel]
  · simp [registers, hlen, regPx, shiftPx, setSel_high hsel]
  · simp [registers, hlen, regPx, shiftPx, setSel_low hsel]
  · simp [registers, hlen, regPx, shiftPx, setSel_high hsel]

/-! ### A full configuration -/

/-- What `Configure_ClockGen` finds for `pll_conf`. -/
def pllConfs (c : ClockConfig) (i : ℕ) : UInt8 :=
  pllConf ([27000 * c.pll1_n.toUInt32 / c.pll1_m.toUInt32, 27000 * c.pll2_n.toUInt32 / c.pll2_m.toUInt32,
    27000 * c.pll3_n.toUInt32 / c.pll3_m.toUInt32].getD i 0)

def outputs (c : ClockConfig) (y : ℕ) : UInt8 := outByte (c.y_sel.getD y 0) y

theorem opFreqs_ok (vco0 vco1 vco2 : UInt32) : ∀ {k addr : ℕ},
    (∀ y, addr ≤ y → y < addr + k → c.p_div.getD y 0 ≠ 0) →
      ∃ fs, opFreqs c vco0 vco1 vco2 addr k = .ok fs
  | 0, addr, _ => ⟨[], rfl⟩
  | k + 1, addr, h => by
    have hfirst := toUInt32_ne_zero.mpr (h addr (le_refl _) (by omega))
    obtain ⟨fs, hfs⟩ := opFreqs_ok vco0 vco1 vco2 fun y hy (hlt : y < addr + 1 + k) =>
      h y (by omega) (by omega)
    rw [opFreqs, divide_ok hfirst, hfs]
    exact ⟨_, rfl⟩

/-- What is programmed for a clock that does not divide by zero. -/
theorem configureClockGen_eq (h : Divisible c) :
    configureClockGen c = .ok (registers c (pllConfs c) (outputs c)) := by
  obtain ⟨fs, hfs⟩ := opFreqs_ok (27000 * c.pll1_n.toUInt32 / c.pll1_m.toUInt32)
    (27000 * c.pll2_n.toUInt32 / c.pll2_m.toUInt32) (27000 * c.pll3_n.toUInt32 / c.pll3_m.toUInt32)
    fun y _ (hlt : y < 0 + 6) => h.p_div y (by omega)
  simp only [configureClockGen, vcoFreq, divide_ok (widen_ne_zero.mpr h.pll1_m),
    divide_ok (widen_ne_zero.mpr h.pll2_m), divide_ok (widen_ne_zero.mpr h.pll3_m)]
  change (do let _ ← opFreqs c _ _ _ 0 6; _) = _
  rw [hfs]
  rfl

/-- The clock with what `UpdatePLL` is given, and the output on. -/
def replaced (c : ClockConfig) (pll : ℕ) (m n pll_sel div : UInt32) (y : ℕ) : ClockConfig :=
  { setPll c pll m.toUInt16 n.toUInt16 with
    p_sel := c.p_sel.set y pll_sel.toUInt8
    p_div := c.p_div.set y div.toUInt8
    y_sel := c.y_sel.set y 1 }

theorem toUInt16_ne_zero {x : UInt32} (h : 1 ≤ x ∧ x ≤ 511) : x.toUInt16 ≠ 0 := by
  have hlow : 1 ≤ x.toNat := h.1
  have hhigh : x.toNat ≤ 511 := h.2
  rw [Ne, ← UInt16.toNat_inj, UInt32.toNat_toUInt16, UInt16.toNat_zero]
  omega

theorem toUInt8_ne_zero {x : UInt32} (h : 1 ≤ x ∧ x ≤ 127) : x.toUInt8 ≠ 0 := by
  have hlow : 1 ≤ x.toNat := h.1
  have hhigh : x.toNat ≤ 127 := h.2
  rw [Ne, ← UInt8.toNat_inj, UInt32.toNat_toUInt8, UInt8.toNat_zero]
  omega

theorem replaced_divisible {m n pll_sel div : UInt32} (hc : Divisible c) (hm : 1 ≤ m ∧ m ≤ 511)
    (hdiv : 1 ≤ div ∧ div ≤ 127) : Divisible (replaced c pll m n pll_sel div y) := by
  have hm' := toUInt16_ne_zero hm
  have hp : ∀ i < 6, (c.p_div.set y div.toUInt8).getD i 0 ≠ 0 := by
    intro i hi
    rw [List.getD_eq_getElem?_getD, List.getElem?_set]
    split
    · next heq =>
      split
      · exact toUInt8_ne_zero hdiv
      · next hlen =>
        have hzero := hc.p_div i hi
        rw [List.getD_eq_getElem?_getD, List.getElem?_eq_none (by omega)] at hzero
        exact absurd rfl hzero
    · rw [← List.getD_eq_getElem?_getD]
      exact hc.p_div i hi
  unfold replaced setPll
  split
  · exact ⟨hm', hc.pll2_m, hc.pll3_m, hp⟩
  · exact ⟨hc.pll1_m, hm', hc.pll3_m, hp⟩
  · exact ⟨hc.pll1_m, hc.pll2_m, hm', hp⟩

theorem narrow_widen {x : UInt32} (h : x ≤ 4095) : x.toUInt16.toUInt32 = x := by
  have hx : x.toNat ≤ 4095 := h
  rw [← UInt32.toNat_inj, UInt16.toNat_toUInt32, UInt32.toNat_toUInt16, Nat.mod_eq_of_lt (by omega)]

theorem pllConfs_replaced {m n pll_sel div : UInt32} (h : 1 ≤ pll) (h' : pll ≤ 3) (hm : m ≤ 511)
    (hn : n ≤ 4095) : pllConfs (replaced c pll m n pll_sel div y) =
      Function.update (pllConfs c) (pll - 1) (pllConf (27000 * n / m)) := by
  have hn' := narrow_widen hn
  have hm' := narrow_widen (UInt32.le_trans hm (by decide : (511 : UInt32) ≤ 4095))
  funext i
  rw [Function.update_apply]
  interval_cases pll
  · rcases i with _ | _ | _ | i <;> simp [pllConfs, replaced, setPll, hn', hm']
  · rcases i with _ | _ | _ | i <;> simp [pllConfs, replaced, setPll, hn', hm']
  · rcases i with _ | _ | _ | i <;> simp [pllConfs, replaced, setPll, hn', hm']

theorem outputs_replaced {m n pll_sel div : UInt32} (hy : y ≤ 5) (hlen : c.y_sel.length = 6) :
    outputs (replaced c pll m n pll_sel div y) = Function.update (outputs c) y (outByte 1 y) := by
  funext i
  rw [Function.update_apply, outputs, replaced, List.getD_eq_getElem?_getD, List.getElem?_set]
  by_cases hi : y = i
  · subst hi
    rw [if_pos rfl, if_pos (by omega), if_pos rfl, Option.getD_some]
  · rw [if_neg hi, if_neg (Ne.symm hi), outputs, List.getD_eq_getElem?_getD]

/-! ### The output meanwhile -/

/-- An output is on. -/
def OutputOn (regs : List UInt8) (y : ℕ) : Prop := regs.getD (18 + y) 0 &&& 8 ≠ 0

/-- The output is off, after every write so far. -/
structure Off (y : ℕ) (b : Chip) : Prop where
  regs : ¬OutputOn b.regs y
  trace : ∀ r ∈ b.trace, ¬OutputOn r y

theorem Off.write {a : ℕ} {data : UInt8} (hb : Off y b) (ha : a - 1 ≠ 18 + y) :
    Off y (b.write a data) := by
  have hregs : ¬OutputOn (b.regs.set (a - 1) data) y := by
    rw [OutputOn, List.getD_eq_getElem?_getD, List.getElem?_set_ne ha, ← List.getD_eq_getElem?_getD]
    exact hb.regs
  refine ⟨hregs, fun r hr => ?_⟩
  rcases List.mem_append.mp hr with hr | hr
  · exact hb.trace r hr
  · obtain rfl := List.mem_singleton.mp hr
    exact hregs

theorem disableOutput_off (hlen : b.regs.length = 24) (ht : b.trace = []) (hy : y ≤ 5) :
    Off y (disableOutput y b) := by
  have hregs : ¬OutputOn (b.regs.set (19 + y - 1) 0x30) y := by
    rw [OutputOn, List.getD_eq_getElem?_getD, show 19 + y - 1 = 18 + y by omega,
      List.getElem?_set_self (by omega)]
    decide
  refine ⟨hregs, fun r hr => ?_⟩
  rw [disableOutput, Chip.write, ht, List.nil_append] at hr
  obtain rfl := List.mem_singleton.mp hr
  exact hregs

theorem updateMN_off {m n : UInt32} (hb : Off y b) (h' : pll ≤ 3) : Off y (updateMN pll m n b) :=
  ((hb.write (by omega)).write (by omega)).write (by omega)

theorem updateSource_off {pll_sel : UInt32} (hb : Off y b) (hy : y ≤ 5) :
    Off y (updateSource y pll_sel b) :=
  hb.write (by rw [regPx]; split <;> omega)

/-! ### The whole -/

/-- The bits of a PLL, bypassed, with another filter, and no longer bypassed. -/
theorem conf_end {fvco : UInt32} {x : UInt32} :
    ((pllConf x ||| 2) &&& ~~~1 ||| pllConf fvco) &&& ~~~2 = pllConf fvco := by
  rw [pllConf, pllConf]
  split <;> split <;> rfl

/-- The steps while the output is off. -/
def patch (pll : ℕ) (m n pll_sel div : UInt32) (y : ℕ) (b : Chip) : Chip :=
  let b := updateFilter pll (27000 * n / m) (updateMN pll m n (bypassPll pll (disableOutput y b)))
  endBypass pll (updateDiv y div (updateSource y pll_sel b))

variable {m n pll_sel div : UInt32}

theorem updatePll_eq (hm : m ≠ 0) (hdiv : div ≠ 0) :
    updatePll pll m n pll_sel div y b = .ok (enableOutput y (patch pll m n pll_sel div y b)) := by
  rw [updatePll, divide_ok hm]
  change (do let _ ← divide _ _; _) = _
  rw [divide_ok hdiv]
  rfl

/-- The steps leave what the other clock would program. -/
theorem patch_regs (hb : b.regs = registers c (pllConfs c) (outputs c)) (hpll : 1 ≤ pll ∧ pll ≤ 3)
    (hm : m ≤ 511) (hn : n ≤ 4095) (hsel : pll_sel ≤ 7) (hy : y ≤ 5)
    (hlen : c.p_sel.length = 6 ∧ c.p_div.length = 6 ∧ c.y_sel.length = 6) :
    (enableOutput y (patch pll m n pll_sel div y b)).regs =
      registers (replaced c pll m n pll_sel div y) (pllConfs (replaced c pll m n pll_sel div y))
        (outputs (replaced c pll m n pll_sel div y)) := by
  obtain ⟨h, h'⟩ := hpll
  have hmn := updateMN_regs (m := m) (n := n) (bypassPll_regs (disableOutput_regs hb hy) h h') h h'
  have hfilter := updateFilter_regs (27000 * n / m) hmn h h'
  have hsource := updateSource_regs hfilter hy (by rw [setPll_p_sel]; exact hlen.1) hsel
  have hdiv := updateDiv_regs div hsource hy (by rw [setPll_p_div]; exact hlen.2.1)
  rw [patch, enableOutput_regs (endBypass_regs hdiv h h') hy, pllConfs_replaced h h' hm hn,
    outputs_replaced hy hlen.2.2]
  simp only [Function.update_self, Function.update_idem, setPll_p_sel, setPll_p_div]
  rw [show pllConfs c (pll - 1) = pllConf _ from rfl, conf_end]
  rfl

theorem patch_off (hlen : b.regs.length = 24) (ht : b.trace = []) (hpll : pll ≤ 3) (hy : y ≤ 5) :
    Off y (patch pll m n pll_sel div y b) := by
  have hbypass : Off y (bypassPll pll (disableOutput y b)) :=
    (disableOutput_off hlen ht hy).write (by omega)
  have hfilter : Off y (updateFilter pll (27000 * n / m) (updateMN pll m n _)) :=
    (updateMN_off hbypass hpll).write (by omega)
  have hdiv : Off y (updateDiv y div (updateSource y pll_sel _)) :=
    (updateSource_off hfilter hy).write (by omega)
  exact hdiv.write (by omega)

/-- `UpdatePLL` leaves the registers that a full configuration programs for the clock with the new
    numbers, source and divider, and the output is off after every write but the last. -/
theorem updatePll_configures (c : ClockConfig) (pll y : ℕ) (m n pll_sel div : UInt32)
    (hc : Divisible c) (hlen : c.p_sel.length = 6 ∧ c.p_div.length = 6 ∧ c.y_sel.length = 6)
    (hpll : 1 ≤ pll ∧ pll ≤ 3) (hm : 1 ≤ m ∧ m ≤ 511) (hn : 1 ≤ n ∧ n ≤ 4095) (hsel : pll_sel ≤ 7)
    (hdiv : 1 ≤ div ∧ div ≤ 127) (hy : y ≤ 5) :
    ∃ regs b, configureClockGen c = .ok regs ∧ updatePll pll m n pll_sel div y ⟨regs, []⟩ = .ok b ∧
      configureClockGen (replaced c pll m n pll_sel div y) = .ok b.regs ∧
      b.trace.getLast? = some b.regs ∧ ∀ r ∈ b.trace.dropLast, ¬OutputOn r y := by
  have hm0 : m ≠ 0 := by
    rintro rfl
    exact absurd hm.1 (by decide)
  have hdiv0 : div ≠ 0 := by
    rintro rfl
    exact absurd hdiv.1 (by decide)
  refine ⟨_, _, configureClockGen_eq hc, updatePll_eq hm0 hdiv0, ?_, List.getLast?_concat, ?_⟩
  · rw [patch_regs rfl hpll hm.2 hn.2 hsel hy hlen]
    exact configureClockGen_eq (replaced_divisible hc hm hdiv)
  · intro r hr
    rw [enableOutput, Chip.write, List.dropLast_concat] at hr
    exact (patch_off rfl rfl hpll.2 hy).trace r hr

theorem pal_divisible : Divisible clockConfigPal :=
  ⟨by decide, by decide, by decide, by decide⟩

/-- The video clock of `PAL` is changed to 74.25 MHz. -/
theorem pal_updatePll : ∃ regs b, configureClockGen clockConfigPal = .ok regs ∧
    updatePll 2 2 11 2 2 4 ⟨regs, []⟩ = .ok b ∧
    configureClockGen (replaced clockConfigPal 2 2 11 2 2 4) = .ok b.regs ∧
    b.trace.getLast? = some b.regs ∧ ∀ r ∈ b.trace.dropLast, ¬OutputOn r 4 :=
  updatePll_configures clockConfigPal 2 4 2 11 2 2 pal_divisible (by decide) (by decide) (by decide)
    (by decide) (by decide) (by decide) (by decide)

end Twi
