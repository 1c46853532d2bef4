import ReplayFirmware.Twi.UpdatePll
import Mathlib.Data.List.Induction

/-! `FPGA_ClockMon`: the clocks that a core asks for while it runs.

    A poll reads the status of the core twice. Where the clock of the graphics card has changed, PLL 3
    and output 4 are set up anew, with the filters and the encoder that go with it; where the clock of
    the processor has changed, PLL 2 and output 2. What is programmed is made from the clock of the core
    each time, so it should not matter through which clocks a core has gone. -/

namespace Fpga.ClockMon
open Config.Handlers Guarded Twi

/-! ### What is set -/

/-- `PIN_CODER_NTSC_H`, `PIN_CODER_CE`, `PIN_DTXD_Y1`, `PIN_DRXD_Y2` -/
structure CoderPins where
  ntsc_h : Bool
  ce : Bool
  y1 : Bool
  y2 : Bool
  deriving DecidableEq

/-- `CFG_set_coder` -/
def setCoder : Coder → CoderPins
  | .disable => ⟨false, false, false, false⟩
  | .pal => ⟨false, true, true, false⟩
  | .ntsc => ⟨true, true, true, true⟩
  | .palNotrap => ⟨false, true, false, false⟩
  | .ntscNotrap => ⟨true, true, false, false⟩

/-- `command` in `Configure_VidBuf` -/
def vidBufByte (v : VidBuf) : UInt8 := ((v.stc &&& 3) <<< 6) ||| ((v.lpf &&& 3) <<< 3) ||| (v.mode &&& 7)

/-- The two static variables, and what is set: the clock generator, the channels of the video buffer,
    the pins of the encoder and the registers of the CH7301. -/
structure Monitor where
  old_stat : UInt8
  old_cpu : UInt8
  chip : Chip
  vidBuf : ℕ → UInt8
  coder : CoderPins
  ch7301 : ℕ → UInt8
  videoResets : ℕ

/-- What a poll reads, for the one clock and for the other. -/
structure Poll where
  first : UInt16
  second : UInt16

/-- `(OSD_ConfigReadStatus() >> 12) & 0xF` -/
def Poll.stat (p : Poll) : UInt8 := ((p.first >>> 12) &&& 0xF).toUInt8

/-- `(OSD_ConfigReadStatus()) & 0xff` -/
def Poll.cpu (p : Poll) : UInt8 := (p.second &&& 0xff).toUInt8

/-! ### The clock of the graphics card -/

/-- The cases differ in three numbers. -/
def rtgCase (m n : UInt16) (div : UInt8) (c : ClockConfig) : ClockConfig :=
  { c with
    pll3_m := m
    pll3_n := n
    p_sel := c.p_sel.set 4 4
    p_div := c.p_div.set 4 div
    y_sel := c.y_sel.set 4 1 }

/-- `clkcfg`: the default clock, or one of those in the table. -/
def rtgClock (stat : UInt8) (c : ClockConfig) : ClockConfig :=
  if stat = 0 ∨ stat = 8 then c
  else
    match (stat &&& 7).toNat with
    | 6 => rtgCase 33 280 2 c
    | 5 => rtgCase 27 216 2 c
    | 4 => rtgCase 27 164 2 c
    | 3 => rtgCase 2 11 2 c
    | 2 => rtgCase 27 150 3 c
    | 1 => rtgCase 27 160 4 c
    | _ => c

/-- The filters of the three channels. -/
def filters (st : Setup) (stat : UInt8) : VidBuf :=
  if stat = 0 ∨ stat = 8 then st.filter_cfg else ⟨0, 3, 3⟩

/-- The PLL filter of the CH7301, for high rates and for low ones. -/
def ch7301Filter (stat : UInt8) : UInt8 × UInt8 × UInt8 :=
  match (stat &&& 7).toNat with
  | 6 | 5 | 4 | 3 => (0x06, 0x26, 0xA0)
  | _ => (0x08, 0x16, 0x60)

/-- What else is set with a clock, once the clock generator is. -/
def rtgSet (st : Setup) (stat : UInt8) (chip : Chip) (s : Monitor) : Monitor :=
  let coder := if stat = 0 ∨ stat = 8 then if st.coder_fitted then setCoder st.coder_cfg else s.coder
    else setCoder .disable
  let buf := vidBufByte (filters st stat)
  let filter := ch7301Filter stat
  { s with
    old_stat := stat
    chip := chip
    vidBuf := Function.update (Function.update (Function.update s.vidBuf 1 buf) 2 buf) 3 buf
    coder := coder
    ch7301 := Function.update (Function.update (Function.update s.ch7301 0x33 filter.1) 0x34 filter.2.1) 0x36
      filter.2.2
    videoResets := s.videoResets + 1 }

/-- What follows a change of the clock. -/
def rtgChange (st : Setup) (stat : UInt8) (s : Monitor) : Result Monitor := do
  let clkcfg := rtgClock stat st.clock_cfg
  let chip ← updatePll 3 clkcfg.pll3_m.toUInt32 clkcfg.pll3_n.toUInt32 (clkcfg.p_sel.getD 4 0).toUInt32
    (clkcfg.p_div.getD 4 0).toUInt32 4 s.chip
  return rtgSet st stat chip s

/-! ### The clock of the processor -/

/-- `while(cpu*div < 80) div++`, as far as so many turns lead. -/
def growDiv (cpu : ℕ) : ℕ → ℕ → ℕ
  | 0, div => div
  | turns + 1, div => if cpu * div < 80 then growDiv cpu turns (div + 1) else div

/-- `div`; 80 is large enough for any clock but 0. -/
def cpuDiv (cpu : UInt8) : ℕ := growDiv cpu.toNat 80 2

def cpuClock (cpu : UInt8) (c : ClockConfig) : ClockConfig :=
  if cpu = 0 then c
  else
    { c with
      pll2_m := 27
      pll2_n := UInt16.ofNat (cpu.toNat * cpuDiv cpu)
      p_sel := c.p_sel.set 2 2
      p_div := c.p_div.set 2 (UInt8.ofNat (cpuDiv cpu))
      y_sel := c.y_sel.set 2 1 }

def cpuChange (st : Setup) (cpu : UInt8) (s : Monitor) : Result Monitor := do
  let clkcfg := cpuClock cpu st.clock_cfg
  let chip ← updatePll 2 clkcfg.pll2_m.toUInt32 clkcfg.pll2_n.toUInt32 (clkcfg.p_sel.getD 2 0).toUInt32
    (clkcfg.p_div.getD 2 0).toUInt32 2 s.chip
  return { s with old_cpu := cpu, chip := chip }

/-- `if (stat != old_stat)` -/
def pollRtg (st : Setup) (s : Monitor) (p : Poll) : Result Monitor :=
  if p.stat = s.old_stat then .ok s else rtgChange st p.stat s

/-- `if (cpu != old_cpu)` -/
def pollCpu (st : Setup) (s : Monitor) (p : Poll) : Result Monitor :=
  if p.cpu = s.old_cpu then .ok s else cpuChange st p.cpu s

/-- `FPGA_ClockMon` -/
def clockMon (st : Setup) (s : Monitor) (p : Poll) : Result Monitor := do
  let s ← pollRtg st s p
  pollCpu st s p

/-- One poll after the other. -/
def polls (st : Setup) (s : Monitor) (ps : List Poll) : Result Monitor := ps.foldlM (clockMon st) s

/-! ### What it is for -/

/-- What a full configuration programs. -/
def programmed (c : ClockConfig) : List UInt8 := registers c (pllConfs c) (outputs c)

/-- The last of some values, unless they all are the one before. -/
def latest (old : UInt8) (l : List UInt8) : Option UInt8 :=
  if l.all (· == old) then none else l.getLast?

/-- The clock with the numbers of the graphics clock in the place of those for PLL 3 and output 4. -/
def withRtg (st : Setup) (stat : UInt8) (c : ClockConfig) : ClockConfig :=
  let k := rtgClock stat st.clock_cfg
  replaced c 3 k.pll3_m.toUInt32 k.pll3_n.toUInt32 (k.p_sel.getD 4 0).toUInt32 (k.p_div.getD 4 0).toUInt32 4

/-- The clock with the numbers of the processor clock in the place of those for PLL 2 and output 2. -/
def withCpu (st : Setup) (cpu : UInt8) (c : ClockConfig) : ClockConfig :=
  let k := cpuClock cpu st.clock_cfg
  replaced c 2 k.pll2_m.toUInt32 k.pll2_n.toUInt32 (k.p_sel.getD 2 0).toUInt32 (k.p_div.getD 2 0).toUInt32 2

/-- The clock of the core, with what was asked for last. -/
def settled (st : Setup) (stat cpu : Option UInt8) : ClockConfig :=
  let c := match stat with
    | none => st.clock_cfg
    | some stat => withRtg st stat st.clock_cfg
  match cpu with
  | none => c
  | some cpu => withCpu st cpu c

/-- The numbers of a clock fit the fields of the chip. -/
structure InRange (c : ClockConfig) : Prop where
  divisible : Divisible c
  pll2 : c.pll2_m ≤ 511 ∧ c.pll2_n ≤ 4095
  pll3 : c.pll3_m ≤ 511 ∧ c.pll3_n ≤ 4095
  p_sel : ∀ y < 6, c.p_sel.getD y 0 ≤ 7
  p_div : ∀ y < 6, c.p_div.getD y 0 ≤ 127
  length : c.p_sel.length = 6 ∧ c.p_div.length = 6 ∧ c.y_sel.length = 6

/-! ### The divider for the processor -/

theorem growDiv_spec {cpu : ℕ} (hcpu : 1 ≤ cpu) : ∀ {turns div : ℕ}, div ≤ 80 → 80 ≤ div + turns →
    div ≤ growDiv cpu turns div ∧ growDiv cpu turns div ≤ 80 ∧ 80 ≤ cpu * growDiv cpu turns div ∧
      (growDiv cpu turns div = div ∨ cpu * growDiv cpu turns div < 80 + cpu)
  | 0, div, h, hturns => by
    have hle : 1 * 80 ≤ cpu * div := Nat.mul_le_mul hcpu hturns
    exact ⟨le_refl div, h, hle, Or.inl rfl⟩
  | turns + 1, div, h, hturns => by
    rw [growDiv]
    by_cases hlt : cpu * div < 80
    · rw [if_pos hlt]
      have hdiv : div + 1 ≤ 80 := Nat.lt_of_le_of_lt (Nat.le_mul_of_pos_left div hcpu) hlt
      obtain ⟨hge, hle, hmul, hor⟩ := growDiv_spec hcpu hdiv (show 80 ≤ div + 1 + turns by omega)
      refine ⟨by omega, hle, hmul, Or.inr ?_⟩
      rcases hor with heq | hlt'
      · rw [heq, Nat.mul_succ]
        omega
      · exact hlt'
    · rw [if_neg hlt]
      exact ⟨le_refl div, h, Nat.le_of_not_lt hlt, Or.inl rfl⟩

/-- The VCO runs at 80 MHz at least, and the multiplier fits its field. -/
theorem cpuDiv_spec {cpu : UInt8} (hcpu : cpu ≠ 0) :
    2 ≤ cpuDiv cpu ∧ cpuDiv cpu ≤ 80 ∧ 80 ≤ cpu.toNat * cpuDiv cpu ∧ cpu.toNat * cpuDiv cpu ≤ 510 := by
  have hpos : 1 ≤ cpu.toNat := Nat.pos_of_ne_zero fun h => hcpu (UInt8.toNat_inj.mp h)
  have hlt := cpu.toNat_lt
  obtain ⟨hge, hle, hmul, hor⟩ := growDiv_spec hpos (show 2 ≤ 80 by decide) (show 80 ≤ 2 + 80 by decide)
  refine ⟨hge, hle, hmul, ?_⟩
  change cpu.toNat * growDiv cpu.toNat 80 2 ≤ 510
  rcases hor with heq | hlt'
  · rw [heq]
    omega
  · omega

/-! ### What `UpdatePLL` is given -/

/-- The numbers fit, and no divider is zero. -/
structure Args (m n : UInt16) (sel div : UInt8) : Prop where
  m : m ≠ 0 ∧ m ≤ 511
  n : n ≤ 4095
  sel : sel ≤ 7
  div : div ≠ 0 ∧ div ≤ 127

variable {st : Setup} {c : ClockConfig}

theorem InRange.args {m n : UInt16} (h : InRange c) (y : ℕ) (hy : y < 6) (hm : m ≠ 0 ∧ m ≤ 511)
    (hn : n ≤ 4095) : Args m n (c.p_sel.getD y 0) (c.p_div.getD y 0) :=
  ⟨hm, hn, h.p_sel y hy, h.divisible.p_div y hy, h.p_div y hy⟩

theorem getD_set {l : List UInt8} {y : ℕ} (hy : y < l.length) (x : UInt8) : (l.set y x).getD y 0 = x := by
  rw [List.getD_eq_getElem?_getD, List.getElem?_set_self hy, Option.getD_some]

theorem rtgCase_args (h : InRange c) {m n : UInt16} {div : UInt8} (hm : m ≠ 0 ∧ m ≤ 511) (hn : n ≤ 4095)
    (hdiv : div ≠ 0 ∧ div ≤ 127) : Args (rtgCase m n div c).pll3_m (rtgCase m n div c).pll3_n
      ((rtgCase m n div c).p_sel.getD 4 0) ((rtgCase m n div c).p_div.getD 4 0) := by
  have hsel : 4 < c.p_sel.length := by
    rw [h.length.1]
    decide
  have hlen : 4 < c.p_div.length := by
    rw [h.length.2.1]
    decide
  rw [rtgCase, getD_set hsel, getD_set hlen]
  exact ⟨hm, hn, by decide, hdiv⟩

theorem rtgClock_args (h : InRange c) (stat : UInt8) : Args (rtgClock stat c).pll3_m (rtgClock stat c).pll3_n
    ((rtgClock stat c).p_sel.getD 4 0) ((rtgClock stat c).p_div.getD 4 0) := by
  have hbase := h.args 4 (by decide) ⟨h.divisible.pll3_m, h.pll3.1⟩ h.pll3.2
  unfold rtgClock
  split
  · exact hbase
  · split
    · exact rtgCase_args h (by decide) (by decide) (by decide)
    · exact rtgCase_args h (by decide) (by decide) (by decide)
    · exact rtgCase_args h (by decide) (by decide) (by decide)
    · exact rtgCase_args h (by decide) (by decide) (by decide)
    · exact rtgCase_args h (by decide) (by decide) (by decide)
    · exact rtgCase_args h (by decide) (by decide) (by decide)
    · exact hbase

theorem cpuClock_args (h : InRange c) (cpu : UInt8) : Args (cpuClock cpu c).pll2_m (cpuClock cpu c).pll2_n
    ((cpuClock cpu c).p_sel.getD 2 0) ((cpuClock cpu c).p_div.getD 2 0) := by
  by_cases hcpu : cpu = 0
  · rw [cpuClock, if_pos hcpu]
    exact h.args 2 (by decide) ⟨h.divisible.pll2_m, h.pll2.1⟩ h.pll2.2
  · obtain ⟨hdiv, hdiv', -, hn⟩ := cpuDiv_spec hcpu
    have hsel : 2 < c.p_sel.length := by
      rw [h.length.1]
      decide
    have hlen : 2 < c.p_div.length := by
      rw [h.length.2.1]
      decide
    rw [cpuClock, if_neg hcpu]
    simp only
    rw [getD_set hsel, getD_set hlen]
    refine ⟨by decide, ?_, by decide, fun h0 => ?_, ?_⟩
    · rw [UInt16.le_iff_toNat_le, UInt16.toNat_ofNat', Nat.mod_eq_of_lt (by omega)]
      exact Nat.le_trans hn (by decide)
    · have := congrArg UInt8.toNat h0
      rw [UInt8.toNat_ofNat', Nat.mod_eq_of_lt (by omega)] at this
      exact absurd this (by rw [UInt8.toNat_zero]; omega)
    · rw [UInt8.le_iff_toNat_le, UInt8.toNat_ofNat', Nat.mod_eq_of_lt (by omega)]
      exact Nat.le_trans hdiv' (by decide)

/-- From what is programmed for one clock `UpdatePLL` leads to what is programmed for another. -/
theorem updatePll_programmed {pll y : ℕ} {m n : UInt16} {sel div : UInt8} {b : Chip}
    (h : Args m n sel div) (hb : b.regs = programmed c) (hpll : 1 ≤ pll ∧ pll ≤ 3) (hy : y ≤ 5)
    (hlen : c.p_sel.length = 6 ∧ c.p_div.length = 6 ∧ c.y_sel.length = 6) :
    ∃ b', updatePll pll m.toUInt32 n.toUInt32 sel.toUInt32 div.toUInt32 y b = .ok b' ∧
      b'.regs = programmed (replaced c pll m.toUInt32 n.toUInt32 sel.toUInt32 div.toUInt32 y) := by
  have hm0 : m.toUInt32 ≠ 0 := widen_ne_zero.mpr h.m.1
  have hdiv0 : div.toUInt32 ≠ 0 := toUInt32_ne_zero.mpr h.div.1
  have hm : m.toUInt32 ≤ 511 := by
    rw [UInt32.le_iff_toNat_le, UInt16.toNat_toUInt32]
    exact h.m.2
  have hn : n.toUInt32 ≤ 4095 := by
    rw [UInt32.le_iff_toNat_le, UInt16.toNat_toUInt32]
    exact h.n
  have hsel : sel.toUInt32 ≤ 7 := by
    rw [UInt32.le_iff_toNat_le, UInt8.toNat_toUInt32]
    exact h.sel
  exact ⟨_, updatePll_eq hm0 hdiv0, patch_regs hb hpll hm hn hsel hy hlen⟩

/-! ### Two outputs -/

section
variable {m n sel div m' n' sel' div' : UInt32}

/-- What was set for an output before is replaced. -/
theorem replaced_rtg_again : replaced (replaced c 3 m n sel div 4) 3 m' n' sel' div' 4 =
    replaced c 3 m' n' sel' div' 4 := by
  simp only [replaced, setPll, List.set_set]

theorem replaced_cpu_again : replaced (replaced c 2 m n sel div 2) 2 m' n' sel' div' 2 =
    replaced c 2 m' n' sel' div' 2 := by
  simp only [replaced, setPll, List.set_set]

/-- The two do not meet. -/
theorem replaced_comm : replaced (replaced c 2 m n sel div 2) 3 m' n' sel' div' 4 =
    replaced (replaced c 3 m' n' sel' div' 4) 2 m n sel div 2 := by
  have hne : (2 : ℕ) ≠ 4 := by decide
  simp only [replaced, setPll, List.set_comm _ _ hne]

theorem replaced_length {pll y : ℕ} (h : c.p_sel.length = 6 ∧ c.p_div.length = 6 ∧ c.y_sel.length = 6) :
    (replaced c pll m n sel div y).p_sel.length = 6 ∧ (replaced c pll m n sel div y).p_div.length = 6 ∧
      (replaced c pll m n sel div y).y_sel.length = 6 := by
  simp only [replaced, List.length_set]
  exact h

end

variable {stat cpu : Option UInt8}

theorem settled_length (h : st.clock_cfg.p_sel.length = 6 ∧ st.clock_cfg.p_div.length = 6 ∧
    st.clock_cfg.y_sel.length = 6) : (settled st stat cpu).p_sel.length = 6 ∧
      (settled st stat cpu).p_div.length = 6 ∧ (settled st stat cpu).y_sel.length = 6 := by
  cases stat with
  | none =>
    cases cpu with
    | none => exact h
    | some cpu => exact replaced_length h
  | some stat =>
    cases cpu with
    | none => exact replaced_length h
    | some cpu => exact replaced_length (replaced_length h)

theorem Args.divisible {m n : UInt16} {sel div : UInt8} (h : Args m n sel div) (hc : Divisible c) (pll y : ℕ) :
    Divisible (replaced c pll m.toUInt32 n.toUInt32 sel.toUInt32 div.toUInt32 y) := by
  have hm : 1 ≤ m.toUInt32 ∧ m.toUInt32 ≤ 511 := by
    refine ⟨Nat.pos_of_ne_zero fun h0 => h.m.1 (UInt16.toNat_inj.mp ?_), ?_⟩
    · rw [← UInt16.toNat_toUInt32]
      exact h0
    · rw [UInt32.le_iff_toNat_le, UInt16.toNat_toUInt32]
      exact h.m.2
  have hdiv : 1 ≤ div.toUInt32 ∧ div.toUInt32 ≤ 127 := by
    refine ⟨Nat.pos_of_ne_zero fun h0 => h.div.1 (UInt8.toNat_inj.mp ?_), ?_⟩
    · rw [← UInt8.toNat_toUInt32]
      exact h0
    · rw [UInt32.le_iff_toNat_le, UInt8.toNat_toUInt32]
      exact h.div.2
  exact replaced_divisible hc hm hdiv

theorem settled_divisible (h : InRange st.clock_cfg) (stat cpu : Option UInt8) :
    Divisible (settled st stat cpu) := by
  have hrtg : ∀ x, Divisible (withRtg st x st.clock_cfg) := fun x =>
    (rtgClock_args h x).divisible h.divisible 3 4
  have hcpu : ∀ x c, Divisible c → Divisible (withCpu st x c) := fun x c hc =>
    (cpuClock_args h x).divisible hc 2 2
  cases stat with
  | none =>
    cases cpu with
    | none => exact h.divisible
    | some x => exact hcpu x _ h.divisible
  | some stat =>
    cases cpu with
    | none => exact hrtg stat
    | some x => exact hcpu x _ (hrtg stat)

theorem withRtg_settled (x : UInt8) : withRtg st x (settled st stat cpu) = settled st (some x) cpu := by
  cases stat with
  | none =>
    cases cpu with
    | none => rfl
    | some cpu => exact replaced_comm
  | some stat =>
    cases cpu with
    | none => exact replaced_rtg_again
    | some cpu => exact replaced_comm.trans (congrArg (withCpu st cpu) replaced_rtg_again)

theorem withCpu_settled (x : UInt8) : withCpu st x (settled st stat cpu) = settled st stat (some x) := by
  cases cpu with
  | none => rfl
  | some cpu => exact replaced_cpu_again

/-! ### The last values -/

/-- The value that the static variable holds. -/
def current (old : UInt8) (l : List UInt8) : UInt8 := l.getLast?.getD old

theorem current_concat (old x : UInt8) (l : List UInt8) : current old (l ++ [x]) = x := by
  rw [current, List.getLast?_concat, Option.getD_some]

theorem all_same {old : UInt8} {l : List UInt8} : l.all (· == old) = true ↔ ∀ y ∈ l, y = old := by
  rw [List.all_eq_true]
  exact forall₂_congr fun y _ => beq_iff_eq

theorem latest_same {old x : UInt8} {l : List UInt8} (h : x = current old l) :
    latest old (l ++ [x]) = latest old l := by
  rw [latest, latest, if_congr all_same rfl rfl, if_congr all_same rfl rfl]
  by_cases hall : ∀ y ∈ l, y = old
  · have hx : x = old := by
      rw [h, current]
      cases hl : l.getLast? with
      | none => rfl
      | some y => exact hall y (List.mem_of_getLast? hl)
    rw [if_pos hall, if_pos]
    intro y hy
    rcases List.mem_append.mp hy with hy | hy
    · exact hall y hy
    · rw [List.mem_singleton.mp hy, hx]
  · rw [if_neg hall, if_neg fun hall' => hall fun y hy => hall' y (List.mem_append_left _ hy),
      List.getLast?_concat, h, current]
    cases hl : l.getLast? with
    | none =>
      rw [List.getLast?_eq_none_iff.mp hl] at hall
      exact absurd (fun y hy => absurd hy List.not_mem_nil) hall
    | some y => rfl

theorem latest_changed {old x : UInt8} {l : List UInt8} (h : x ≠ current old l) :
    latest old (l ++ [x]) = some x := by
  rw [latest, if_congr all_same rfl rfl, if_neg, List.getLast?_concat]
  intro hall
  refine h ((hall x (List.mem_append_right _ (List.mem_singleton_self x))).trans ?_)
  rw [current]
  cases hl : l.getLast? with
  | none => rfl
  | some y => exact (hall y (List.mem_append_left _ (List.mem_of_getLast? hl))).symm

/-! ### A poll -/

/-- What goes with a graphics clock: the filters, the encoder if one is fitted, and the CH7301. -/
structure VideoFor (st : Setup) (stat : UInt8) (s : Monitor) : Prop where
  vidBuf : ∀ chan, 1 ≤ chan → chan ≤ 3 → s.vidBuf chan = vidBufByte (filters st stat)
  ch7301 : (s.ch7301 0x33, s.ch7301 0x34, s.ch7301 0x36) = ch7301Filter stat
  coder : s.coder = setCoder (if stat = 0 ∨ stat = 8 then st.coder_cfg else .disable) ∨
    (stat = 0 ∨ stat = 8) ∧ st.coder_fitted = false

/-- What polls have led to. -/
structure After (st : Setup) (s : Monitor) (ps : List Poll) (s' : Monitor) : Prop where
  old_stat : s'.old_stat = current s.old_stat (ps.map Poll.stat)
  old_cpu : s'.old_cpu = current s.old_cpu (ps.map Poll.cpu)
  regs : s'.chip.regs = programmed
    (settled st (latest s.old_stat (ps.map Poll.stat)) (latest s.old_cpu (ps.map Poll.cpu)))
  video : ∀ stat, latest s.old_stat (ps.map Poll.stat) = some stat → VideoFor st stat s'

theorem rtgSet_video (st : Setup) (x : UInt8) (chip : Chip) (s : Monitor) :
    VideoFor st x (rtgSet st x chip s) where
  vidBuf := by
    intro chan hlow hhigh
    obtain rfl | rfl | rfl : chan = 1 ∨ chan = 2 ∨ chan = 3 := by omega
    · rfl
    · rfl
    · rfl
  ch7301 := rfl
  coder := by
    change (if x = 0 ∨ x = 8 then if st.coder_fitted = true then setCoder st.coder_cfg else s.coder
      else setCoder .disable) = _ ∨ _
    by_cases hx : x = 0 ∨ x = 8
    · rw [if_pos hx, if_pos hx]
      cases hfit : st.coder_fitted with
      | true => exact Or.inl rfl
      | false => exact Or.inr ⟨hx, rfl⟩
    · rw [if_neg hx, if_neg hx]
      exact Or.inl rfl

theorem rtgChange_spec {s : Monitor} {x : UInt8} (h : InRange st.clock_cfg)
    (hs : s.chip.regs = programmed (settled st stat cpu)) : ∃ chip,
      rtgChange st x s = .ok (rtgSet st x chip s) ∧ chip.regs = programmed (settled st (some x) cpu) := by
  obtain ⟨chip, hchip, hregs⟩ := updatePll_programmed (rtgClock_args h x) hs
    (show 1 ≤ 3 ∧ 3 ≤ 3 by decide) (show 4 ≤ 5 by decide) (settled_length h.length)
  refine ⟨chip, ?_, hregs.trans (congrArg programmed (withRtg_settled x))⟩
  rw [rtgChange]
  rw [hchip]
  rfl

theorem cpuChange_spec {s : Monitor} {x : UInt8} (h : InRange st.clock_cfg)
    (hs : s.chip.regs = programmed (settled st stat cpu)) : ∃ chip,
      cpuChange st x s = .ok { s with old_cpu := x, chip := chip } ∧
      chip.regs = programmed (settled st stat (some x)) := by
  obtain ⟨chip, hchip, hregs⟩ := updatePll_programmed (cpuClock_args h x) hs
    (show 1 ≤ 2 ∧ 2 ≤ 3 by decide) (show 2 ≤ 5 by decide) (settled_length h.length)
  refine ⟨chip, ?_, hregs.trans (congrArg programmed (withCpu_settled x))⟩
  rw [cpuChange]
  rw [hchip]
  rfl

/-- One poll more. -/
theorem After.poll {s s' : Monitor} {ps : List Poll} (h : InRange st.clock_cfg) (ha : After st s ps s')
    (p : Poll) : ∃ s'', clockMon st s' p = .ok s'' ∧ After st s (ps ++ [p]) s'' := by
  -- the graphics clock
  obtain ⟨s₁, hrtg, hstat, hcpu, hregs, hvideo⟩ : ∃ s₁,
      pollRtg st s' p = .ok s₁ ∧
        s₁.old_stat = p.stat ∧ s₁.old_cpu = s'.old_cpu ∧
        s₁.chip.regs = programmed (settled st (latest s.old_stat (ps.map Poll.stat ++ [p.stat]))
          (latest s.old_cpu (ps.map Poll.cpu))) ∧
        ∀ stat, latest s.old_stat (ps.map Poll.stat ++ [p.stat]) = some stat → VideoFor st stat s₁ := by
    rw [pollRtg]
    by_cases hp : p.stat = s'.old_stat
    · rw [if_pos hp, latest_same (hp.trans ha.old_stat)]
      exact ⟨s', rfl, hp.symm, rfl, ha.regs, ha.video⟩
    · obtain ⟨chip, hchange, hregs⟩ := rtgChange_spec (x := p.stat) h ha.regs
      rw [if_neg hp, latest_changed (fun heq => hp (heq.trans ha.old_stat.symm))]
      refine ⟨_, hchange, rfl, rfl, hregs, fun stat hsome => ?_⟩
      rw [← Option.some.inj hsome]
      exact rtgSet_video st p.stat chip s'
  rw [clockMon, hrtg]
  change ∃ s'', pollCpu st s₁ p = Except.ok s'' ∧ _
  rw [pollCpu]
  by_cases hp : p.cpu = s₁.old_cpu
  · rw [if_pos hp]
    refine ⟨s₁, rfl, ?_, ?_, ?_, ?_⟩
    · rw [List.map_append, List.map_singleton, current_concat, hstat]
    · rw [List.map_append, List.map_singleton, current_concat, hp]
    · rw [List.map_append, List.map_singleton, List.map_append, List.map_singleton,
        latest_same ((hp.trans hcpu).trans ha.old_cpu), hregs]
    · rw [List.map_append, List.map_singleton]
      exact hvideo
  · rw [if_neg hp]
    obtain ⟨chip, hchange, hregs'⟩ := cpuChange_spec (x := p.cpu) h hregs
    have hne : p.cpu ≠ current s.old_cpu (ps.map Poll.cpu) := fun heq =>
      hp (heq.trans (ha.old_cpu.symm.trans hcpu.symm))
    refine ⟨_, hchange, ?_, ?_, ?_, ?_⟩
    · rw [List.map_append, List.map_singleton, current_concat, ← hstat]
    · rw [List.map_append, List.map_singleton, current_concat]
    · rw [List.map_append, List.map_singleton, List.map_append, List.map_singleton, latest_changed hne]
      exact hregs'
    · rw [List.map_append, List.map_singleton]
      intro stat hsome
      exact ⟨(hvideo stat hsome).vidBuf, (hvideo stat hsome).ch7301, (hvideo stat hsome).coder⟩

theorem polls_after {s : Monitor} (h : InRange st.clock_cfg)
    (hs : s.chip.regs = programmed st.clock_cfg) (ps : List Poll) :
    ∃ s', polls st s ps = .ok s' ∧ After st s ps s' := by
  induction ps using List.reverseRecOn with
  | nil =>
    refine ⟨s, rfl, rfl, rfl, hs, fun stat hstat => ?_⟩
    cases hstat
  | append_singleton ps p ih =>
    obtain ⟨s', hrun, ha⟩ := ih
    obtain ⟨s'', hpoll, ha'⟩ := ha.poll h p
    refine ⟨s'', ?_, ha'⟩
    rw [polls, List.foldlM_append]
    rw [polls] at hrun
    rw [hrun]
    change (do let s ← clockMon st s' p; List.foldlM (clockMon st) s []) = _
    rw [hpoll]
    rfl

/-! ### The rates -/

/-- The rate of an output in kHz. -/
def outFreq (c : ClockConfig) (y : ℕ) : UInt32 :=
  opFreq (27000 * c.pll1_n.toUInt32 / c.pll1_m.toUInt32) (27000 * c.pll2_n.toUInt32 / c.pll2_m.toUInt32)
    (27000 * c.pll3_n.toUInt32 / c.pll3_m.toUInt32) (c.p_sel.getD y 0) / (c.p_div.getD y 0).toUInt32

/-- The rates in the table, in kHz. -/
def rtgRate (stat : UInt8) : Option UInt32 :=
  match (stat &&& 7).toNat with
  | 6 => some 114545
  | 5 => some 108000
  | 4 => some 82000
  | 3 => some 74250
  | 2 => some 50000
  | 1 => some 40000
  | _ => none

theorem getD_set_ne {l : List UInt8} {y z : ℕ} (h : y ≠ z) (x : UInt8) : (l.set y x).getD z 0 = l.getD z 0 := by
  rw [List.getD_eq_getElem?_getD, List.getElem?_set_ne h, List.getD_eq_getElem?_getD]

section
variable {m n sel div : UInt32}

/-- An output keeps its rate when PLL 2 is changed, unless it is fed by it. -/
theorem outFreq_cpu {y : ℕ} (hy : y ≠ 2) (hsel : c.p_sel.getD y 0 ≠ 2) :
    outFreq (replaced c 2 m n sel div 2) y = outFreq c y := by
  simp only [outFreq, replaced, setPll, getD_set_ne hy.symm, opFreq, if_neg hsel]

/-- An output keeps its rate when PLL 3 is changed, unless it is fed by it. -/
theorem outFreq_rtg {y : ℕ} (hy : y ≠ 4) (hsel : c.p_sel.getD y 0 ≠ 4) :
    outFreq (replaced c 3 m n sel div 4) y = outFreq c y := by
  simp only [outFreq, replaced, setPll, getD_set_ne hy.symm, opFreq, if_neg hsel]

end

theorem outFreq_rtgCase {m n : UInt16} {div : UInt8} {c₀ : ClockConfig}
    (h : c.p_sel.length = 6 ∧ c.p_div.length = 6 ∧ c.y_sel.length = 6)
    (h₀ : c₀.p_sel.length = 6 ∧ c₀.p_div.length = 6 ∧ c₀.y_sel.length = 6) :
    outFreq (replaced c 3 (rtgCase m n div c₀).pll3_m.toUInt32 (rtgCase m n div c₀).pll3_n.toUInt32
      ((rtgCase m n div c₀).p_sel.getD 4 0).toUInt32 ((rtgCase m n div c₀).p_div.getD 4 0).toUInt32 4) 4 =
        27000 * n.toUInt32 / m.toUInt32 / div.toUInt32 := by
  have hs : 4 < c.p_sel.length := by rw [h.1]; decide
  have hd : 4 < c.p_div.length := by rw [h.2.1]; decide
  have hs₀ : 4 < c₀.p_sel.length := by rw [h₀.1]; decide
  have hd₀ : 4 < c₀.p_div.length := by rw [h₀.2.1]; decide
  simp only [outFreq, replaced, setPll, rtgCase, getD_set hs, getD_set hd, getD_set hs₀, getD_set hd₀]
  simp [opFreq]

theorem outFreq_withRtg (h : c.p_sel.length = 6 ∧ c.p_div.length = 6 ∧ c.y_sel.length = 6)
    (h₀ : st.clock_cfg.p_sel.length = 6 ∧ st.clock_cfg.p_div.length = 6 ∧ st.clock_cfg.y_sel.length = 6)
    {x : UInt8} {rate : UInt32} (hx : rtgRate x = some rate) : outFreq (withRtg st x c) 4 = rate := by
  have hne : ¬(x = 0 ∨ x = 8) := by
    rintro (rfl | rfl)
    · cases hx
    · cases hx
  rw [withRtg, rtgClock, if_neg hne]
  rw [rtgRate] at hx
  split at hx
  · rw [outFreq_rtgCase h h₀, ← Option.some.inj hx]
    decide
  · rw [outFreq_rtgCase h h₀, ← Option.some.inj hx]
    decide
  · rw [outFreq_rtgCase h h₀, ← Option.some.inj hx]
    decide
  · rw [outFreq_rtgCase h h₀, ← Option.some.inj hx]
    decide
  · rw [outFreq_rtgCase h h₀, ← Option.some.inj hx]
    decide
  · rw [outFreq_rtgCase h h₀, ← Option.some.inj hx]
    decide
  · cases hx

/-- The input clock divided by 27 is one megahertz, and the two dividers cancel. -/
theorem cpu_rate {cpu : UInt8} (hcpu : cpu ≠ 0) :
    27000 * (UInt16.ofNat (cpu.toNat * cpuDiv cpu)).toUInt32 / 27 / (UInt8.ofNat (cpuDiv cpu)).toUInt32 =
      1000 * cpu.toUInt32 := by
  obtain ⟨hdiv, hdiv', hlow, hn⟩ := cpuDiv_spec hcpu
  have hlt := cpu.toNat_lt
  have hmul : 27000 * (cpu.toNat * cpuDiv cpu) = 27 * (1000 * cpu.toNat * cpuDiv cpu) := by
    rw [Nat.mul_assoc 1000, ← Nat.mul_assoc 27]
  refine UInt32.toNat_inj.mp ?_
  rw [UInt32.toNat_div, UInt32.toNat_div, UInt32.toNat_mul, UInt32.toNat_mul, UInt16.toNat_toUInt32,
    UInt8.toNat_toUInt32, UInt8.toNat_toUInt32, UInt16.toNat_ofNat', UInt8.toNat_ofNat',
    Nat.mod_eq_of_lt (show cpu.toNat * cpuDiv cpu < 2 ^ 16 by omega),
    Nat.mod_eq_of_lt (show cpuDiv cpu < 2 ^ 8 by omega)]
  change 27000 * (cpu.toNat * cpuDiv cpu) % 2 ^ 32 / 27 / cpuDiv cpu = 1000 * cpu.toNat % 2 ^ 32
  rw [Nat.mod_eq_of_lt (show 27000 * (cpu.toNat * cpuDiv cpu) < 2 ^ 32 by omega),
    Nat.mod_eq_of_lt (show 1000 * cpu.toNat < 2 ^ 32 by omega), hmul, Nat.mul_div_cancel_left _ (by decide),
    Nat.mul_div_cancel _ (by omega)]

theorem outFreq_withCpu (h : c.p_sel.length = 6 ∧ c.p_div.length = 6 ∧ c.y_sel.length = 6)
    (h₀ : st.clock_cfg.p_sel.length = 6 ∧ st.clock_cfg.p_div.length = 6 ∧ st.clock_cfg.y_sel.length = 6)
    {x : UInt8} (hx : x ≠ 0) : outFreq (withCpu st x c) 2 = 1000 * x.toUInt32 := by
  have hs : 2 < c.p_sel.length := by rw [h.1]; decide
  have hd : 2 < c.p_div.length := by rw [h.2.1]; decide
  have hs₀ : 2 < st.clock_cfg.p_sel.length := by rw [h₀.1]; decide
  have hd₀ : 2 < st.clock_cfg.p_div.length := by rw [h₀.2.1]; decide
  rw [← cpu_rate hx, withCpu, cpuClock, if_neg hx]
  simp only [outFreq, replaced, setPll, getD_set hs, getD_set hd, getD_set hs₀, getD_set hd₀]
  generalize UInt16.ofNat (x.toNat * cpuDiv x) = n
  generalize UInt8.ofNat (cpuDiv x) = div
  simp [opFreq]

/-- What the outputs run at. -/
structure Rates (st : Setup) (stat cpu : Option UInt8) (c : ClockConfig) : Prop where
  rtg : ∀ x rate, stat = some x → rtgRate x = some rate → outFreq c 4 = rate
  cpu : ∀ x, cpu = some x → x ≠ 0 → outFreq c 2 = 1000 * x.toUInt32
  others : ∀ y, y ≠ 2 → y ≠ 4 → st.clock_cfg.p_sel.getD y 0 ≠ 2 → st.clock_cfg.p_sel.getD y 0 ≠ 4 →
    outFreq c y = outFreq st.clock_cfg y

theorem withRtg_p_sel {x : UInt8} (h : c.p_sel.length = 6) {rate : UInt32} (hx : rtgRate x = some rate)
    (h₀ : st.clock_cfg.p_sel.length = 6) : (withRtg st x c).p_sel.getD 4 0 = 4 := by
  have hs : 4 < c.p_sel.length := by rw [h]; decide
  have hs₀ : 4 < st.clock_cfg.p_sel.length := by rw [h₀]; decide
  have hne : ¬(x = 0 ∨ x = 8) := by
    rintro (rfl | rfl)
    · cases hx
    · cases hx
  rw [withRtg, rtgClock, if_neg hne]
  rw [rtgRate] at hx
  simp only [replaced, getD_set hs, UInt8.toUInt8_toUInt32]
  split
  · exact getD_set hs₀ 4
  · exact getD_set hs₀ 4
  · exact getD_set hs₀ 4
  · exact getD_set hs₀ 4
  · exact getD_set hs₀ 4
  · exact getD_set hs₀ 4
  · next h1 h2 h3 h4 h5 h6 =>
    split at hx
    · exact absurd ‹_› h1
    · exact absurd ‹_› h2
    · exact absurd ‹_› h3
    · exact absurd ‹_› h4
    · exact absurd ‹_› h5
    · exact absurd ‹_› h6
    · cases hx

theorem settled_rates (h : InRange st.clock_cfg) (stat cpu : Option UInt8) :
    Rates st stat cpu (settled st stat cpu) where
  rtg := by
    rintro x rate rfl hx
    have hrate := outFreq_withRtg h.length h.length hx
    cases cpu with
    | none => exact hrate
    | some cpu =>
      refine (outFreq_cpu (by decide) ?_).trans hrate
      rw [withRtg_p_sel h.length.1 hx h.length.1]
      decide
  cpu := by
    rintro x rfl hx
    cases stat with
    | none => exact outFreq_withCpu h.length h.length hx
    | some stat => exact outFreq_withCpu (replaced_length h.length) h.length hx
  others := by
    intro y hy2 hy4 hsel2 hsel4
    cases stat with
    | none =>
      cases cpu with
      | none => rfl
      | some cpu => exact outFreq_cpu hy2 hsel2
    | some stat =>
      have hrtg : outFreq (withRtg st stat st.clock_cfg) y = outFreq st.clock_cfg y := outFreq_rtg hy4 hsel4
      cases cpu with
      | none => exact hrtg
      | some cpu =>
        refine (outFreq_cpu hy2 ?_).trans hrtg
        change (st.clock_cfg.p_sel.set 4 _).getD y 0 ≠ 2
        rw [getD_set_ne hy4.symm]
        exact hsel2

/-- From a chip that was configured for the clock of the core, every run of polls leads to the registers
    that a full configuration programs for that clock with what was asked for last, whatever was asked
    for in between: the graphics clock at its rate in the table, the processor clock to the megahertz, and
    the outputs on other sources as they were; filters, encoder and CH7301 go with it. -/
theorem polls_settle {s : Monitor} (h : InRange st.clock_cfg)
    (hs : configureClockGen st.clock_cfg = .ok s.chip.regs) (ps : List Poll) :
    let stat := latest s.old_stat (ps.map Poll.stat)
    let cpu := latest s.old_cpu (ps.map Poll.cpu)
    ∃ s', polls st s ps = .ok s' ∧ configureClockGen (settled st stat cpu) = .ok s'.chip.regs ∧
      Rates st stat cpu (settled st stat cpu) ∧ ∀ x, stat = some x → VideoFor st x s' := by
  rw [configureClockGen_eq h.divisible] at hs
  obtain ⟨s', hrun, ha⟩ := polls_after h (Except.ok.inj hs).symm ps
  refine ⟨s', hrun, ?_, settled_rates h _ _, ha.video⟩
  rw [ha.regs]
  exact configureClockGen_eq (settled_divisible h _ _)

/-- A core on the clock of `HD74`, but with no divider of zero. -/
def hdSetup : Setup where
  coder_fitted := true
  ini_dir := []
  bin_file := fun _ => 0
  twi_enabled := 1
  spi_osd_enabled := 1
  spi_fpga_enabled := 1
  verify_dl := 0
  dram_phase := 0
  clockmon := true
  fileio_cha := ⟨.removable, none⟩
  fileio_chb := ⟨.removable, none⟩
  button := .off
  hotkey := 0
  hotkey_string := fun _ => 0
  osd_init := false
  osd_timeout := 30
  clock_cfg := { clockConfigHd74 with p_div := [2, 1, 5, 1, 2, 1] }
  filter_cfg := ⟨0, 0, 3⟩
  coder_cfg := .disable
  ini_targets := []

theorem hdSetup_inRange : InRange hdSetup.clock_cfg where
  divisible := ⟨by decide, by decide, by decide, by decide⟩
  pll2 := by decide
  pll3 := by decide
  p_sel := by decide
  p_div := by decide
  length := by decide

def hdMonitor : Monitor where
  old_stat := 0xFF
  old_cpu := 0
  chip := ⟨programmed hdSetup.clock_cfg, []⟩
  vidBuf := fun _ => 0
  coder := setCoder .disable
  ch7301 := fun _ => 0
  videoResets := 0

theorem hdMonitor_settles : ∃ s', polls hdSetup hdMonitor [⟨0, 14⟩, ⟨0x3000, 14⟩] = .ok s' ∧
    configureClockGen (settled hdSetup (some 3) (some 14)) = .ok s'.chip.regs := by
  obtain ⟨s', hrun, hregs, -⟩ := polls_settle hdSetup_inRange (s := hdMonitor)
    (configureClockGen_eq hdSetup_inRange.divisible) [⟨0, 14⟩, ⟨0x3000, 14⟩]
  exact ⟨s', hrun, hregs⟩

end Fpga.ClockMon
