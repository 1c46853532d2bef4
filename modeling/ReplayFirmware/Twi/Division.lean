import ReplayFirmware.Twi.ClockGen
import ReplayFirmware.Config.Terminated
import Mathlib.Tactic.IntervalCases

/-! Divisions of the first reading of an INI file.

    `SPI_CLK` divides by the number that it is given, and by the divider of the SPI, before and behind
    setting it; the clock that is set in the end divides when it is configured. All other lines keep the
    clock, and divide by nothing. -/

namespace Twi
open Config.Handlers Guarded Ini
open Ini.InPlace (ValueString)

/-! ### The clock of the SPI -/

/-- The byte of `SPI_CSR` that divides the clock. -/
def scbr (csr : UInt32) : UInt32 := (csr &&& ((0xFF : UInt32) <<< 8)) >>> 8

/-- `SPI_GetFreq` -/
def spiGetFreq (csr : UInt32) : Result UInt32 := do
  let f ← divide 48054857 (scbr csr)
  return f / 1000000

/-- `SPI_SetFreqDivide` -/
def spiSetFreqDivide (freqDivide : UInt32) : UInt32 :=
  (0x1 : UInt32) ||| freqDivide <<< 8

/-- The frequency that `SPI_CLK` asks for. -/
def spiFreq (n : UInt32) : UInt32 :=
  UInt32.ofInt (((48054857 : ℤ).tdiv n.toInt32.toInt).tdiv 1000000)

/-- `_CFG_handle_SETUP_SPI_CLK` with the register. -/
def handleSpiClk (env : Env) (v : ValueString) (st : State) (csr : UInt32) :
    Result (UInt8 × State × UInt32) := do
  let vs ← Config.Handlers.parseList env v 8
  if vs.length = 1 then
    let n ← num vs 0
    if n = 0 then .error .division
    else
      let current ← spiGetFreq csr
      if spiFreq n < current then
        let csr := spiSetFreqDivide n
        let _ ← spiGetFreq csr
        return (0, st.request (.spiSetFreqDivide n), csr)
      else return (0, st, csr)
  else return (1, st, csr)

/-- A line, with what its handler finds. -/
structure PreLine where
  iniSection : Symbol
  name : Symbol
  value : ValueString
  env : Env

/-- The handler in the first reading. -/
def PreLine.handler (l : PreLine) : Option Handler := handlerOf .pre l.iniSection l.name

/-- `_CFG_pre_parse_handler` with the register. -/
def PreLine.parse (l : PreLine) (st : State) (csr : UInt32) : Result (UInt8 × State × UInt32) :=
  if l.handler = some .setupSpiClk then handleSpiClk l.env l.value st csr
  else (parseHandler l.env l.value st .pre l.iniSection l.name).map fun r => (r.1, r.2, csr)

/-- `CFG_pre_init`, up to the clock: nothing is configured behind a line that fails. -/
def cfgPreInit : List PreLine → State → UInt32 → Result (UInt8 × Option (List UInt8))
  | [], st, _ => do
    let regs ← configureClockGen st.setup.clock_cfg
    return (0, some regs)
  | l :: ls, st, csr => do
    let r ← l.parse st csr
    if r.1 ≠ 0 then return (1, none) else cfgPreInit ls r.2.1 r.2.2

/-! ### What is divided by -/

/-- The SPI is made slower. -/
def Slower (n csr : UInt32) : Prop := spiFreq n < 48054857 / scbr csr / 1000000

instance (n csr : UInt32) : Decidable (Slower n csr) := inferInstanceAs (Decidable (_ < _))

/-- `SPI_CLK` divides by its number, by the divider that is set, and when it sets another by its low
    byte. -/
structure SpiDivisible (n csr : UInt32) : Prop where
  value : n ≠ 0
  current : scbr csr ≠ 0
  next : Slower n csr → n % 256 ≠ 0

theorem scbr_setFreqDivide {n : UInt32} : scbr (spiSetFreqDivide n) = n % 256 := by
  have hlow : scbr (spiSetFreqDivide n) = n &&& 0xFF := by
    refine UInt32.eq_of_toBitVec_eq (BitVec.eq_of_getElem_eq fun i hi => ?_)
    simp only [scbr, spiSetFreqDivide]
    interval_cases i <;> simp
  rw [hlow, ← UInt32.toNat_inj, UInt32.toNat_and, UInt32.toNat_mod]
  exact Nat.and_two_pow_sub_one_eq_mod n.toNat 8

variable {env : Env} {v : ValueString} {st : State} {csr : UInt32} {α : Type}

theorem division_parseList {n : ℕ} {Q : List ValueEntry → Prop} :
    Avoids .division (Config.Handlers.parseList env v n) Q ↔
      ∀ vs, valueList v n env.buffer = some vs → Q vs := by
  rw [Config.Handlers.parseList]
  cases valueList v n env.buffer with
  | none => simp
  | some vs => simp

theorem division_num {vs : List ValueEntry} {i : ℕ} {Q : UInt32 → Prop} :
    Avoids .division (num vs i) Q ↔ ∀ e, vs[i]? = some e → Q e.intval := by
  rw [num]
  cases vs[i]? with
  | none => simp
  | some e => simp

theorem avoids_spiGetFreq {Q : UInt32 → Prop} : Avoids .division (spiGetFreq csr) Q ↔
    scbr csr ≠ 0 ∧ Q (48054857 / scbr csr / 1000000) := by
  rw [spiGetFreq, avoids_bind, avoids_divide, avoids_pure]

/-- The register behind a line. -/
def PreLine.next (l : PreLine) (csr : UInt32) : UInt32 :=
  match l.handler, valueList l.value 8 l.env.buffer with
  | some .setupSpiClk, some [e] => if Slower e.intval csr then spiSetFreqDivide e.intval else csr
  | _, _ => csr

/-- The clock behind a line. -/
def clockOf (v : ValueString) (b : ValueBuffer) (c : ClockConfig) : ClockConfig :=
  if isMatch v.chars "PAL" then clockConfigPal
  else if isMatch v.chars "NTSC" then clockConfigNtsc
  else if isMatch v.chars "HD74" then clockConfigHd74
  else
    match valueList v 32 b with
    | some vs => if vs.length = 24 then .ofList (vs.map ValueEntry.intval) else c
    | none => c

def PreLine.clock (l : PreLine) (c : ClockConfig) : ClockConfig :=
  if l.handler = some .setupClock then clockOf l.value l.env.buffer c else c

/-- What `SPI_CLK` divides by. -/
def PreLine.Divisible (l : PreLine) (csr : UInt32) : Prop :=
  l.handler = some .setupSpiClk →
    ∀ e, valueList l.value 8 l.env.buffer = some [e] → SpiDivisible e.intval csr

/-- The lines up to one that fails divide by nothing that is zero, and neither does the clock that is
    set when there is none. -/
def DivisibleRun : List PreLine → State → ClockConfig → UInt32 → Prop
  | [], _, c, _ => Divisible c
  | l :: ls, st, c, csr => l.Divisible csr ∧ ∀ st', l.parse st csr = .ok (0, st', l.next csr) →
      DivisibleRun ls st' (l.clock c) (l.next csr)

/-! ### The other lines -/

/-- Nothing is divided by zero, and the clock stays. -/
def Keeps (st : State) (x : Result (UInt8 × State)) : Prop :=
  Avoids .division x fun r => r.2.setup.clock_cfg = st.setup.clock_cfg

theorem keeps_list {n : ℕ} {body : List ValueEntry → Result (UInt8 × State)}
    (h : ∀ vs, Keeps st (body vs)) : Keeps st (Config.Handlers.parseList env v n >>= body) :=
  avoids_bind.mpr (division_parseList.mpr fun vs _ => h vs)

theorem keeps_num {vs : List ValueEntry} {i : ℕ} {body : UInt32 → Result (UInt8 × State)}
    (h : ∀ n, Keeps st (body n)) : Keeps st (num vs i >>= body) :=
  avoids_bind.mpr (division_num.mpr fun e _ => h e.intval)

theorem keeps_ite {c : Prop} [Decidable c] {x y : Result (UInt8 × State)} (hx : Keeps st x)
    (hy : Keeps st y) : Keeps st (if c then x else y) :=
  avoids_ite.mpr ⟨fun _ => hx, fun _ => hy⟩

theorem keeps_ok {rc : UInt8} {st' : State} (h : st'.setup.clock_cfg = st.setup.clock_cfg) :
    Keeps st (.ok (rc, st')) := h

theorem setupCoder_keeps : Keeps st (handleSetupCoder v st) := by
  rw [handleSetupCoder]
  split
  · exact keeps_ok rfl
  · exact keeps_ite (keeps_ok rfl) (keeps_ok rfl)

theorem setupVfilter_keeps : Keeps st (handleSetupVfilter env v st) :=
  keeps_list fun _ => keeps_ite (keeps_num fun _ => keeps_num fun _ => keeps_num fun _ => keeps_ok rfl)
    (keeps_ok rfl)

theorem setupPhase_keeps : Keeps st (handleSetupPhase env v st) :=
  keeps_list fun _ => keeps_ite (keeps_num fun _ => keeps_ok rfl) (keeps_ok rfl)

theorem setupEnTwi_keeps : Keeps st (handleSetupEnTwi env v st) :=
  keeps_list fun _ => keeps_ite (keeps_num fun _ => keeps_ok rfl) (keeps_ok rfl)

theorem setupEnSpi_keeps : Keeps st (handleSetupEnSpi env v st) :=
  keeps_list fun _ => keeps_ite (keeps_num fun _ => keeps_num fun _ => keeps_ok rfl) (keeps_ok rfl)

theorem setupButton_keeps : Keeps st (handleSetupButton v st) :=
  keeps_ite (keeps_ok rfl) (keeps_ite (keeps_ok rfl) (keeps_ite (keeps_ok rfl) (keeps_ok rfl)))

theorem setupHotkey_keeps : Keeps st (handleSetupHotkey env v st) :=
  keeps_ite (keeps_ok rfl) (keeps_ok rfl)

theorem setupClockmon_keeps : Keeps st (handleSetupClockmon v st) :=
  keeps_ite (keeps_ok rfl) (keeps_ite (keeps_ok rfl) (keeps_ok rfl))

theorem setupOsdInit_keeps : Keeps st (handleSetupOsdInit v st) :=
  keeps_ite (keeps_ok rfl) (keeps_ite (keeps_ok rfl) (keeps_ok rfl))

theorem setupOsdTimeout_keeps : Keeps st (handleSetupOsdTimeout env v st) :=
  keeps_list fun _ => keeps_ite (keeps_num fun _ => keeps_ite (keeps_ok rfl) (keeps_ok rfl))
    (keeps_ok rfl)

theorem uploadVerify_keeps : Keeps st (handleUploadVerify env v st) :=
  keeps_list fun _ => keeps_ite (keeps_num fun _ => keeps_ok rfl) (keeps_ok rfl)

/-- The handlers of the first reading. -/
def preHandlers : List Handler :=
  [.setupBin, .setupClock, .setupCoder, .setupPhase, .setupVfilter, .setupEnTwi, .setupEnSpi,
    .setupSpiClk, .setupButton, .setupHotkey, .setupClockmon, .setupOsdInit, .setupOsdTimeout,
    .uploadVerify]

theorem handlerOf_pre {iniSection name : Symbol} {hd : Handler}
    (h : handlerOf .pre iniSection name = some hd) : hd ∈ preHandlers := by
  unfold handlerOf at h
  split at h
  · split at h <;> cases h <;> decide
  all_goals first
    | contradiction
    | cases h; decide

theorem run_keeps {hd : Handler} (h : hd ∈ preHandlers) (hclock : hd ≠ .setupClock)
    (hspi : hd ≠ .setupSpiClk) : Keeps st (hd.run env v st) := by
  simp only [preHandlers, List.mem_cons, List.not_mem_nil, or_false] at h
  rcases h with rfl | rfl | rfl | rfl | rfl | rfl | rfl | rfl | rfl | rfl | rfl | rfl | rfl | rfl
  · exact keeps_ok rfl
  · exact absurd rfl hclock
  · exact setupCoder_keeps
  · exact setupPhase_keeps
  · exact setupVfilter_keeps
  · exact setupEnTwi_keeps
  · exact setupEnSpi_keeps
  · exact absurd rfl hspi
  · exact setupButton_keeps
  · exact setupHotkey_keeps
  · exact setupClockmon_keeps
  · exact setupOsdInit_keeps
  · exact setupOsdTimeout_keeps
  · exact uploadVerify_keeps

theorem parseHandler_keeps {iniSection name : Symbol}
    (hclock : handlerOf .pre iniSection name ≠ some .setupClock)
    (hspi : handlerOf .pre iniSection name ≠ some .setupSpiClk) :
    Keeps st (parseHandler env v st .pre iniSection name) := by
  rw [parseHandler]
  cases hhd : handlerOf .pre iniSection name with
  | none => exact keeps_ok rfl
  | some hd =>
    exact run_keeps (handlerOf_pre hhd) (fun h => hclock (hhd.trans (congrArg some h)))
      fun h => hspi (hhd.trans (congrArg some h))

/-! ### The clock -/

theorem division_nums {vs : List ValueEntry} : ∀ {k i : ℕ} {Q : List UInt32 → Prop},
    Q (((vs.drop i).take k).map ValueEntry.intval) → Avoids .division (nums vs i k) Q
  | 0, i, Q, h => h
  | k + 1, i, Q, h => by
    refine avoids_bind.mpr (division_num.mpr fun e he => avoids_bind.mpr (division_nums ?_))
    rw [List.drop_eq_getElem?_toList_append, he] at h
    exact h

theorem setupClock_divisible : Avoids .division (handleSetupClock env v st) fun r =>
    r.1 = 0 → r.2.setup.clock_cfg = clockOf v env.buffer st.setup.clock_cfg := by
  rw [handleSetupClock, clockOf]
  refine avoids_ite.mpr ⟨fun h => ?_, fun h => ?_⟩
  · rw [if_pos h]
    exact fun _ => rfl
  rw [if_neg h]
  refine avoids_ite.mpr ⟨fun h => ?_, fun h => ?_⟩
  · rw [if_pos h]
    exact fun _ => rfl
  rw [if_neg h]
  refine avoids_ite.mpr ⟨fun h => ?_, fun h => ?_⟩
  · rw [if_pos h]
    exact fun _ => rfl
  rw [if_neg h]
  refine avoids_bind.mpr (division_parseList.mpr fun vs hvs => avoids_ite.mpr ⟨fun hlen => ?_,
    fun _ => ?_⟩)
  · refine avoids_bind.mpr (division_nums fun _ => ?_)
    rw [hvs, List.drop_zero, List.take_of_length_le (by omega)]
    exact (if_pos hlen).symm
  · exact fun h => absurd (show (1 : UInt8) = 0 from h) (by decide)

/-! ### A line -/

/-- `SPI_CLK` divides by nothing that is zero. -/
theorem handleSpiClk_divisible_iff : handleSpiClk env v st csr ≠ .error .division ↔
    ∀ e, valueList v 8 env.buffer = some [e] → SpiDivisible e.intval csr := by
  rw [← avoids_true_iff, handleSpiClk, avoids_bind, division_parseList]
  have hbody : ∀ n : UInt32, Avoids .division (if n = 0 then .error .division else do
      let current ← spiGetFreq csr
      if spiFreq n < current then
        let csr := spiSetFreqDivide n
        let _ ← spiGetFreq csr
        return ((0 : UInt8), st.request (.spiSetFreqDivide n), csr)
      else return (0, st, csr)) (fun _ => True) ↔ SpiDivisible n csr := by
    intro n
    simp only [avoids_ite, avoids_error, avoids_bind, avoids_spiGetFreq, avoids_pure,
      scbr_setFreqDivide]
    constructor
    · rintro ⟨h0, h⟩
      have hn : n ≠ 0 := fun hn => h0 hn rfl
      exact ⟨hn, (h hn).1, fun hslow => ((h hn).2.1 hslow).1⟩
    · intro h
      exact ⟨fun hn => absurd hn h.value, fun _ => ⟨h.current, fun hslow => ⟨h.next hslow, trivial⟩,
        fun _ => trivial⟩⟩
  constructor
  · intro h e he
    have hone := (avoids_ite.mp (h [e] he)).1 rfl
    exact (hbody _).mp (division_num.mp (avoids_bind.mp hone) e rfl)
  · intro h vs hvs
    refine avoids_ite.mpr ⟨fun hlen => ?_, fun _ => trivial⟩
    obtain ⟨e, rfl⟩ := List.length_eq_one_iff.mp hlen
    refine avoids_bind.mpr (division_num.mpr fun e' he => (hbody _).mpr ?_)
    obtain rfl := Option.some.inj he
    exact h e hvs

variable {l : PreLine}

theorem parse_divisible_iff : l.parse st csr ≠ .error .division ↔ l.Divisible csr := by
  rw [PreLine.parse, PreLine.Divisible]
  split
  · next h => rw [handleSpiClk_divisible_iff, forall_prop_of_true h]
  · next h =>
    refine iff_of_true ?_ fun h' => absurd h' h
    rw [← avoids_true_iff, avoids_map]
    by_cases hclock : l.handler = some .setupClock
    · rw [parseHandler, show handlerOf .pre l.iniSection l.name = _ from hclock]
      exact setupClock_divisible.mono fun _ _ => trivial
    · exact (parseHandler_keeps hclock h).mono fun _ _ => trivial

/-- Without the register this is the handler for a clock that is known. -/
theorem handleSpiClk_setup {f csr' : UInt32} {rc : UInt8} {st' : State} (hf : spiGetFreq csr = .ok f)
    (h : handleSpiClk env v st csr = .ok (rc, st', csr')) :
    handleSetupSpiClk { env with spiFreq := f } v st = .ok (rc, st') := by
  rw [handleSpiClk] at h
  rw [handleSetupSpiClk]
  change (Config.Handlers.parseList env v 8 >>= _) = _
  cases hvs : Config.Handlers.parseList env v 8 with
  | error e =>
    rw [hvs] at h
    cases h
  | ok vs =>
    rw [hvs] at h
    change (if vs.length = 1 then _ else _) = _ at h
    change (if vs.length = 1 then _ else _) = _
    split at h
    · next hlen =>
      rw [if_pos hlen]
      cases hn : num vs 0 with
      | error e =>
        rw [hn] at h
        cases h
      | ok n =>
        rw [hn] at h
        change (if n = 0 then _ else _) = _ at h
        change (if n = 0 then _ else _) = _
        split at h
        · cases h
        · next h0 =>
          rw [if_neg h0]
          rw [hf] at h
          change (if spiFreq n < f then _ else _) = _ at h
          change (if spiFreq n < f then _ else _) = _
          split at h
          · next hslow =>
            rw [if_pos hslow]
            cases hnext : spiGetFreq (spiSetFreqDivide n) with
            | error e =>
              rw [hnext] at h
              cases h
            | ok f' =>
              rw [hnext] at h
              cases h
              rfl
          · next hslow =>
            rw [if_neg hslow]
            cases h
            rfl
    · next hlen =>
      rw [if_neg hlen]
      cases h
      rfl

/-- What the line leaves when it is accepted. -/
theorem handleSpiClk_gives : Gives (handleSpiClk env v st csr) fun r => r.1 = 0 →
    r.2.1.setup = st.setup ∧ ∃ e, valueList v 8 env.buffer = some [e] ∧
      r.2.2 = if Slower e.intval csr then spiSetFreqDivide e.intval else csr := by
  refine gives_bind.mpr (gives_parseList.mpr fun vs hvs => gives_ite.mpr ⟨fun hlen => ?_, fun _ => ?_⟩)
  · obtain ⟨e, rfl⟩ := List.length_eq_one_iff.mp hlen
    refine gives_ite.mpr ⟨fun _ => gives_error.mpr trivial, fun _ => ?_⟩
    refine gives_bind.mpr fun current hcurrent => ?_
    have hfreq : current = 48054857 / scbr csr / 1000000 := by
      rw [spiGetFreq, divide] at hcurrent
      split at hcurrent
      · cases hcurrent
      · exact (Except.ok.inj hcurrent).symm
    subst hfreq
    refine gives_ite.mpr ⟨fun hslow => ?_, fun hslow => ?_⟩
    · refine gives_bind.mpr (gives_of_forall fun _ => gives_ok.mpr fun _ => ?_)
      exact ⟨rfl, e, hvs, (if_pos hslow).symm⟩
    · exact gives_ok.mpr fun _ => ⟨rfl, e, hvs, (if_neg hslow).symm⟩
  · exact gives_ok.mpr fun h => absurd (show (1 : UInt8) = 0 from h) (by decide)

theorem next_of_ne (h : l.handler ≠ some .setupSpiClk) : l.next csr = csr := by
  rw [PreLine.next]
  split
  · next hspi _ => exact absurd hspi h
  · rfl

theorem parseHandler_clock {st' : State} {rc : UInt8} (hspi : l.handler ≠ some .setupSpiClk)
    (h : parseHandler l.env l.value st .pre l.iniSection l.name = .ok (rc, st')) (hrc : rc = 0) :
    st'.setup.clock_cfg = l.clock st.setup.clock_cfg := by
  rw [PreLine.clock]
  split
  · next hclock =>
    rw [PreLine.handler] at hclock
    rw [parseHandler, hclock] at h
    have hset := @setupClock_divisible l.env l.value st
    rw [show handleSetupClock l.env l.value st = .ok (rc, st') from h] at hset
    exact hset hrc
  · next hclock =>
    have hkeeps := @parseHandler_keeps l.env l.value st _ _ hclock hspi
    rw [h] at hkeeps
    exact hkeeps

theorem parse_gives {st' : State} {csr' : UInt32} (h : l.parse st csr = .ok (0, st', csr')) :
    st'.setup.clock_cfg = l.clock st.setup.clock_cfg ∧ csr' = l.next csr := by
  rw [PreLine.parse] at h
  split at h
  · next hspi =>
    obtain ⟨hsetup, e, he, hcsr⟩ := handleSpiClk_gives _ h rfl
    rw [PreLine.clock, hspi, if_neg (by decide), PreLine.next, hspi, he]
    exact ⟨congrArg Setup.clock_cfg hsetup, hcsr⟩
  · next hspi =>
    rw [next_of_ne hspi]
    cases hparse : parseHandler l.env l.value st .pre l.iniSection l.name with
    | error e =>
      rw [hparse] at h
      cases h
    | ok r =>
      rw [hparse] at h
      obtain ⟨hrc, hrest⟩ := Prod.mk.inj (Except.ok.inj h)
      obtain ⟨rfl, rfl⟩ := Prod.mk.inj hrest
      exact ⟨parseHandler_clock hspi hparse hrc, rfl⟩

/-! ### A reading -/

theorem cfgPreInit_divisible_iff : ∀ {ls : List PreLine} {st : State} {csr : UInt32},
    cfgPreInit ls st csr ≠ .error .division ↔ DivisibleRun ls st st.setup.clock_cfg csr
  | [], st, csr => by
    rw [DivisibleRun, ← configureClockGen_divisible_iff, ← avoids_true_iff, ← avoids_true_iff,
      cfgPreInit, avoids_bind]
    exact Iff.rfl
  | l :: ls, st, csr => by
    rw [DivisibleRun, ← @parse_divisible_iff st, ← avoids_true_iff, ← avoids_true_iff, cfgPreInit,
      avoids_bind]
    cases hparse : l.parse st csr with
    | error e => exact ⟨fun h => ⟨h, fun _ h => by cases h⟩, fun h => h.1⟩
    | ok r =>
      obtain ⟨rc, st', csr'⟩ := r
      by_cases hrc : rc = 0
      · subst hrc
        obtain ⟨hclock, rfl⟩ := parse_gives hparse
        rw [avoids_ok, if_neg (by simp), avoids_true_iff, cfgPreInit_divisible_iff, hclock]
        constructor
        · intro h
          refine ⟨trivial, fun st'' heq => ?_⟩
          cases heq
          exact h
        · exact fun h => h.2 st' rfl
      · rw [avoids_ok, if_pos (by simpa using hrc)]
        refine iff_of_true trivial ⟨trivial, fun st'' heq => ?_⟩
        exact absurd (congrArg Prod.fst (Except.ok.inj heq)) hrc

/-- Reading an INI file divides by zero exactly when a line with `SPI_CLK` does, or when no line fails
    and the clock that is set has a divider of zero. Of the clocks that are built in, that of `HD74`
    has one. -/
theorem divisible_iff (ls : List PreLine) (st : State) (csr : UInt32) :
    (cfgPreInit ls st csr ≠ .error .division ↔ DivisibleRun ls st st.setup.clock_cfg csr) ∧
    (∀ c, configureClockGen c ≠ .error .division ↔ Divisible c) ∧
    Divisible clockConfigPal ∧ Divisible clockConfigNtsc ∧ ¬Divisible clockConfigHd74 := by
  refine ⟨cfgPreInit_divisible_iff, fun _ => configureClockGen_divisible_iff, ?_, ?_, ?_⟩
  · exact ⟨by decide, by decide, by decide, by decide⟩
  · exact ⟨by decide, by decide, by decide, by decide⟩
  · exact fun h => h.p_div 1 (by decide) rfl

/-- `SPI_CLK = 256` for a clock of 16 MHz. -/
example : ¬SpiDivisible 256 0x301 := fun h => absurd (h.next (by decide)) (by decide)

/-- `CLOCK = HD74` -/
def hd74Line : PreLine where
  iniSection := .setup
  name := .clock
  value := ⟨Config.chars "HD74", by decide, by decide⟩
  env := plenty InPlace.emptyBuffer

/-- The second output of `HD74` is off, and has a divider of zero. -/
theorem hd74_divides : ¬∀ (ls : List PreLine) (st : State) (csr : UInt32),
    cfgPreInit ls st csr ≠ .error .division := by
  intro h
  have hrun := cfgPreInit_divisible_iff.mp (h [hd74Line] blank 0x301)
  have hclock := hrun.2 _ rfl
  exact absurd rfl (hclock.p_div 1 (by decide))

end Twi
