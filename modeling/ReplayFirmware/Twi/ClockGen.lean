import ReplayFirmware.Config.Handlers
import ReplayFirmware.Lib.Avoids
import Mathlib.Data.UInt

/-! The clock generator: the registers of the CDCE906, as `Configure_ClockGen` packs them.

    Each PLL multiplies the input clock of 27 MHz by `n / m`, and each output divides the clock of the
    source that it selects. The frequencies are computed on the way, for the filter of the PLLs and for
    the log, and a divider of zero divides by zero there. -/

namespace Twi
open Config.Handlers Guarded

/-- `EBITS` -/
def ebits (data pos len : UInt32) : UInt32 := (data >>> pos) &&& ((1 <<< len) - 1)

/-- An unsigned division. -/
def divide (a b : UInt32) : Result UInt32 := if b = 0 then .error .division else .ok (a / b)

theorem divide_ok {a b : UInt32} (h : b ≠ 0) : divide a b = .ok (a / b) := if_neg h

/-! ### Frequencies -/

/-- The frequency of a PLL in kHz. -/
def vcoFreq (n m : UInt16) : Result UInt32 := divide (27000 * n.toUInt32) m.toUInt32

/-- `pll_conf`: bit 0 is the filter, and bit 1, the bypass, stays off. -/
def pllConf (vco : UInt32) : UInt8 := if 190000 < vco then 1 else 0

/-- What an output selects. -/
def opFreq (vco0 vco1 vco2 : UInt32) (sel : UInt8) : UInt32 :=
  if sel = 0 then 27000
  else if sel = 1 then vco0
  else if sel = 2 then vco1
  else if sel = 4 then vco2
  else 0

/-- `op_freq / p_div[addr]` for the outputs from `addr` on, `k` of them. -/
def opFreqs (c : ClockConfig) (vco0 vco1 vco2 : UInt32) : ℕ → ℕ → Result (List UInt32)
  | _, 0 => .ok []
  | addr, k + 1 => do
    let f ← divide (opFreq vco0 vco1 vco2 (c.p_sel.getD addr 0)) (c.p_div.getD addr 0).toUInt32
    let fs ← opFreqs c vco0 vco1 vco2 (addr + 1) k
    return f :: fs

/-! ### Registers -/

def lowByte (x : UInt16) : UInt8 := (ebits x.toUInt32 0 8).toUInt8

/-- The high bits of `n` and `m`, below three others. -/
def highByte (top : UInt32) (n m : UInt16) : UInt8 :=
  (top ||| ebits n.toUInt32 8 4 <<< 1 ||| ebits m.toUInt32 8 1).toUInt8

/-- A bit of `pll_conf` for each of the PLLs. -/
def confBits (pll_conf : ℕ → UInt8) (pos : UInt32) : UInt32 :=
  ebits (pll_conf 0).toUInt32 pos 1 <<< 7 ||| ebits (pll_conf 1).toUInt32 pos 1 <<< 6 |||
    ebits (pll_conf 2).toUInt32 pos 1 <<< 5

/-- The source of an output, as the top of a register. -/
def selTop (sel : UInt8) : UInt32 := ebits sel.toUInt32 0 3 <<< 5

/-- The sources of two outputs. -/
def selByte (high low : UInt8) : UInt8 :=
  (ebits high.toUInt32 0 3 <<< 3 ||| ebits low.toUInt32 0 3).toUInt8

def divByte (div : UInt8) : UInt8 := (ebits div.toUInt32 0 7).toUInt8

/-- An output, on or off, with the divider of the same number. -/
def outByte (y_sel : UInt8) (y : ℕ) : UInt8 :=
  ((0x03 : UInt32) <<< 4 ||| ebits y_sel.toUInt32 0 1 <<< 3 ||| ebits (UInt32.ofNat y) 0 3).toUInt8

/-- `mem`: the registers from 1 on, with the last six as they are given. The chip is not powered
    down. -/
def registers (c : ClockConfig) (pll_conf out : ℕ → UInt8) : List UInt8 :=
  let p_sel := fun y => c.p_sel.getD y 0
  let p_div := fun y => c.p_div.getD y 0
  [lowByte c.pll1_m, lowByte c.pll1_n, highByte (confBits pll_conf 1) c.pll1_n c.pll1_m,
    lowByte c.pll2_m, lowByte c.pll2_n, highByte (confBits pll_conf 0) c.pll2_n c.pll2_m,
    lowByte c.pll3_m, lowByte c.pll3_n,
    highByte (selTop (p_sel 0)) c.pll3_n c.pll3_m, (selTop (p_sel 1)).toUInt8,
    selByte (p_sel 3) (p_sel 2), selByte (p_sel 5) (p_sel 4),
    divByte (p_div 0), divByte (p_div 1), divByte (p_div 2), divByte (p_div 3), divByte (p_div 4),
    divByte (p_div 5), out 0, out 1, out 2, out 3, out 4, out 5]

/-- `Configure_ClockGen`, as far as the registers that it writes. -/
def configureClockGen (c : ClockConfig) : Result (List UInt8) := do
  let vco0 ← vcoFreq c.pll1_n c.pll1_m
  let vco1 ← vcoFreq c.pll2_n c.pll2_m
  let vco2 ← vcoFreq c.pll3_n c.pll3_m
  let _ ← opFreqs c vco0 vco1 vco2 0 6
  let pll_conf := fun i => pllConf ([vco0, vco1, vco2].getD i 0)
  return registers c pll_conf fun y => outByte (c.y_sel.getD y 0) y

/-! ### Divisions -/

/-- Nothing is divided by zero for this clock. -/
structure Divisible (c : ClockConfig) : Prop where
  pll1_m : c.pll1_m ≠ 0
  pll2_m : c.pll2_m ≠ 0
  pll3_m : c.pll3_m ≠ 0
  p_div : ∀ y < 6, c.p_div.getD y 0 ≠ 0

theorem avoids_divide {a b : UInt32} {Q : UInt32 → Prop} :
    Avoids .division (divide a b) Q ↔ b ≠ 0 ∧ Q (a / b) := by
  rw [divide]
  split
  · next h => simp [h]
  · next h => simp [h]

theorem toUInt32_ne_zero {b : UInt8} : b.toUInt32 ≠ 0 ↔ b ≠ 0 := by
  rw [Ne, Ne, ← UInt32.toNat_inj, ← UInt8.toNat_inj, UInt8.toNat_toUInt32]
  exact Iff.rfl

theorem widen_ne_zero {m : UInt16} : m.toUInt32 ≠ 0 ↔ m ≠ 0 := by
  rw [Ne, Ne, ← UInt32.toNat_inj, ← UInt16.toNat_inj, UInt16.toNat_toUInt32]
  exact Iff.rfl

theorem avoids_vcoFreq {n m : UInt16} {Q : UInt32 → Prop} :
    Avoids .division (vcoFreq n m) Q ↔ m ≠ 0 ∧ Q (27000 * n.toUInt32 / m.toUInt32) := by
  rw [vcoFreq, avoids_divide, widen_ne_zero]

variable {c : ClockConfig} {vco0 vco1 vco2 : UInt32}

theorem opFreqs_divisible_iff : ∀ {k addr : ℕ},
    Avoids .division (opFreqs c vco0 vco1 vco2 addr k) (fun _ => True) ↔
      ∀ y, addr ≤ y → y < addr + k → c.p_div.getD y 0 ≠ 0
  | 0, addr => iff_of_true trivial fun y h h' => absurd h (by omega)
  | k + 1, addr => by
    rw [opFreqs, avoids_bind, avoids_divide, toUInt32_ne_zero, avoids_bind]
    simp only [avoids_pure]
    rw [opFreqs_divisible_iff]
    constructor
    · rintro ⟨h, hrest⟩ y hy hlt
      rcases Nat.eq_or_lt_of_le hy with rfl | hy
      · exact h
      · exact hrest y hy (by omega)
    · intro h
      exact ⟨h addr (le_refl _) (by omega), fun y hy hlt => h y (by omega) (by omega)⟩

/-- A clock divides by zero exactly when it has a divider of zero, used or not. -/
theorem configureClockGen_divisible_iff :
    configureClockGen c ≠ .error .division ↔ Divisible c := by
  rw [← avoids_true_iff, configureClockGen]
  simp only [avoids_bind, avoids_vcoFreq, avoids_pure, opFreqs_divisible_iff]
  constructor
  · rintro ⟨h1, h2, h3, hdiv⟩
    exact ⟨h1, h2, h3, fun y hy => hdiv y (Nat.zero_le y) (by omega)⟩
  · intro h
    exact ⟨h.pll1_m, h.pll2_m, h.pll3_m, fun y _ hy => h.p_div y (by omega)⟩

end Twi
