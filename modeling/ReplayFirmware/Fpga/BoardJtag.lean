import ReplayFirmware.Fpga.Jtag

/-! The driver that starts the embedded core.

    It keeps a copy of the state that the controller of the port is in, and decides by that how to go on.
    Once it has been initialised the copy is true behind every call, whatever the port answers, and bits
    are only sent in states that the port stays in. -/

namespace Fpga.BoardJtag
open Tap
open Jtag (World Pins lowBits checkStatus)

/-! ### The code -/

/-- `JSM` -/
def jsm : State → Bool → State
  | .reset, false => .runIdle
  | .reset, true => .reset
  | .runIdle, false => .runIdle
  | .runIdle, true => .selectDr
  | .selectIr, false => .captureIr
  | .selectIr, true => .reset
  | .captureIr, false => .shiftIr
  | .captureIr, true => .exit1Ir
  | .shiftIr, false => .shiftIr
  | .shiftIr, true => .exit1Ir
  | .exit1Ir, false => .pauseIr
  | .exit1Ir, true => .updateIr
  | .pauseIr, false => .pauseIr
  | .pauseIr, true => .exit2Ir
  | .exit2Ir, false => .shiftIr
  | .exit2Ir, true => .updateIr
  | .updateIr, false => .runIdle
  | .updateIr, true => .selectDr
  | .selectDr, false => .captureDr
  | .selectDr, true => .selectIr
  | .captureDr, false => .shiftDr
  | .captureDr, true => .exit1Dr
  | .shiftDr, false => .shiftDr
  | .shiftDr, true => .exit1Dr
  | .exit1Dr, false => .pauseDr
  | .exit1Dr, true => .updateDr
  | .pauseDr, false => .pauseDr
  | .pauseDr, true => .exit2Dr
  | .exit2Dr, false => .shiftDr
  | .exit2Dr, true => .updateDr
  | .updateDr, false => .runIdle
  | .updateDr, true => .selectDr

/-- The lines and `jtag`. -/
structure Board where
  pins : Pins
  state : State
  nSlaves : UInt8
  slaveBits : UInt8
  virSize : UInt8
  id : UInt8
  lastVir : UInt8

/-- A low to high transition of the clock, and back. -/
def pulse (p : Pins) : Pins := (p.writeTck true).writeTck false

/-- `DriveSignal(TMS, data, 1)` -/
def driveTms (data : Bool) (p : Pins) : Pins := pulse { p with tms := data }

/-- `DriveSignal(TDI, data, clk)` -/
def driveTdi (data clk : Bool) (p : Pins) : Pins :=
  let p := { p with tdi := data }
  if clk then pulse p else p

/-- `ReadTDO`; of a scan of more than 32 bits the result is not used. -/
def readTDO (w : World) (bit_count data : ℕ) (inst : Bool) (p : Pins) : ℕ × Pins :=
  (List.range bit_count).foldl (fun r i =>
    (if r.2.readTdo w then r.1 ||| 1 <<< i else r.1,
      driveTdi (data.testBit i) (!(i = bit_count - 1 && inst)) r.2)) (0, p)

/-- `ReadTDOBuf`: the bytes that come in. -/
def readTDOBuf (w : World) (bit_count : ℕ) (txbuf : ℕ → UInt8) (inst : Bool) (p : Pins) : List UInt8 × Pins :=
  let r := (List.range bit_count).foldl (fun (r : List UInt8 × UInt8 × Pins) i =>
    let indata := (r.2.1 >>> 1) ||| (if r.2.2.readTdo w then 0x80 else 0)
    let p := driveTdi ((txbuf (i / 8)).toNat.testBit (i % 8)) (!(i = bit_count - 1 && inst)) r.2.2
    if i % 8 = 7 then (r.1 ++ [indata], 0, p) else (r.1, indata, p)) ([], 0, p)
  (r.1, r.2.2)

/-- `AdvanceJSM` -/
def advanceJSM (mode : Bool) (b : Board) : Board :=
  { b with pins := driveTms mode b.pins, state := jsm b.state mode }

/-- `AdvanceJSM`, one after the other. -/
def advance (modes : List Bool) (b : Board) : Board := modes.foldl (fun b mode => advanceJSM mode b) b

/-- `Js_Updatedr` -/
def jsUpdatedr (b : Board) : Board :=
  if b.state ≠ .shiftDr then b else advance [true, true] b

/-- `Js_Shiftdr` -/
def jsShiftdr (b : Board) : Board :=
  if b.state ≠ .updateDr ∧ b.state ≠ .updateIr then
    if b.state ≠ .reset ∧ b.state ≠ .runIdle then b else advance [false, false, true, false, false] b
  else advance [true, false, false] b

/-- `Js_Reset` -/
def jsReset (b : Board) : Board := advance [true, true, true, true, true] b

/-- `Js_Runidle` -/
def jsRunidle (b : Board) : Board :=
  advanceJSM false (if b.state ≠ .updateIr ∧ b.state ≠ .updateDr then jsReset b else b)

/-- From rest to the instruction register: the begin of `LoadJI` and of `SetupChain`. -/
def toShiftIr (b : Board) : Board :=
  advance [false, true, true, false, false]
    (if b.state ≠ .runIdle ∧ b.state ≠ .reset then jsRunidle b else b)

/-- Bits go through the register that the port is at. -/
def Board.send (w : World) (bit_count data : ℕ) (inst : Bool) (b : Board) : ℕ × Board :=
  let r := readTDO w bit_count data inst b.pins
  (r.1, { b with pins := r.2 })

/-- Bytes go through it. -/
def Board.sendBuf (w : World) (bit_count : ℕ) (txbuf : ℕ → UInt8) (inst : Bool) (b : Board) :
    List UInt8 × Board :=
  let r := readTDOBuf w bit_count txbuf inst b.pins
  (r.1, { b with pins := r.2 })

/-- `LoadJI`: whether the chain is whole. -/
def loadJI (w : World) (action : ℕ) (b : Board) : Bool × Board :=
  let r := (toShiftIr b).send w 10 action true
  if r.1 ≠ 0x155 then (false, r.2) else (true, advance [true, true] r.2)

/-- `SetupChain` -/
def setupChain (w : World) (action : ℕ) (b : Board) : Board :=
  advance [true, true] ((toShiftIr b).send w 10 action true).2

/-- `JSEQ_MAX` and `JSEQ_CONF_DONE` -/
def jseqMax : ℕ := 360

def jseqConfDone : ℕ := 224

/-- `DriveSignal(TDI, 0, 1)`, so many times. -/
def driveZeros : ℕ → Board → Board
  | 0, b => b
  | n + 1, b => driveZeros n { b with pins := driveTdi false true b.pins }

/-- `CheckStatus`: whether the configuration is done. -/
def checkStatusDone (w : World) (b : Board) : Bool × Board :=
  let conf_done_bit := (jseqMax - jseqConfDone) * 3 + 1
  let r := (driveZeros conf_done_bit (jsShiftdr (setupChain w 0x004 b))).send w 1 0 false
  (r.1 ≠ 0, jsRunidle (jsUpdatedr r.2))

/-- `jtagVIR` -/
def jtagVIR (w : World) (instruction : UInt8) (b : Board) : Bool × Board :=
  if b.lastVir ≠ instruction then
    let code := ((b.id.toNat + 1) <<< b.virSize.toNat) ||| instruction.toNat
    let r := loadJI w 0x00E b
    if !r.1 then r
    else
      let b := ((jsShiftdr r.2).send w (r.2.virSize.toNat + r.2.slaveBits.toNat) code true).2
      (true, { jsUpdatedr b with lastVir := instruction })
  else (true, b)

/-- The bytes of an address or a length, the lowest first. -/
def wordBytes (x : UInt32) (i : ℕ) : UInt8 := (x >>> (UInt32.ofNat (8 * i))).toUInt8

/-- The scan for data begins, with an address. -/
def sendAddress (w : World) (address : UInt32) (b : Board) : Board :=
  ((jsShiftdr (loadJI w 0x00C b).2).sendBuf w 32 (wordBytes ((address <<< 2) ||| 3)) false).2

/-- `jtagWriteBuffer`, whose result is -1 or `len`; it reads one byte behind the `len` words. -/
def jtagWriteBuffer (w : World) (address : UInt32) (data : ℕ → UInt8) (len : ℕ) (b : Board) : Bool × Board :=
  let r := jtagVIR w 0 b
  if !r.1 then r
  else (true, ((sendAddress w address r.2).sendBuf w (32 * len + 2) data false).2)

/-- How many words to read, when there is more than one. -/
def sendCount (w : World) (len : ℕ) (b : Board) : Board :=
  if 1 < len then (b.sendBuf w 4 (wordBytes (UInt32.ofNat (len - 1))) true).2 else b

/-- The words come in. -/
def readWords (w : World) : ℕ → List UInt8 × Board → List UInt8 × Board
  | 0, r => r
  | len + 1, r =>
    let t := r.2.sendBuf w 32 (fun _ => 0xFF) false
    readWords w len (r.1 ++ t.1, t.2)

/-- `jtagReadBuffer`: the bytes it stores. -/
def jtagReadBuffer (w : World) (address : UInt32) (len : ℕ) (b : Board) : List UInt8 × Board :=
  let r := jtagVIR w 0 b
  if !r.1 then ([], r.2)
  else
    let r := jtagVIR w 1 (sendCount w len (sendAddress w address r.2))
    if !r.1 then ([], r.2) else readWords w len ([], jsShiftdr (loadJI w 0x00C r.2).2)

/-- A word that was read, or what was in its place. -/
def wordOf (old : UInt32) (bs : List UInt8) : UInt32 :=
  match bs with
  | [b₀, b₁, b₂, b₃] =>
    b₀.toUInt32 ||| (b₁.toUInt32 <<< 8) ||| (b₂.toUInt32 <<< 16) ||| (b₃.toUInt32 <<< 24)
  | _ => old

/-- The loop of `mbCmdSend` that waits for the answer, with this many tries left. -/
def waitAnswer (w : World) : ℕ → UInt32 → Board → Option UInt32 × Board
  | 0, _, b => (none, b)
  | retries + 1, ret, b =>
    let r := jtagReadBuffer w 0 1 b
    let ret := wordOf ret r.1
    if ret ≠ 0 then waitAnswer w retries ret r.2
    else
      let r := jtagReadBuffer w 1 1 r.2
      (some (wordOf ret r.1), r.2)

/-- `mbCmdSend`: the answer, unless the write or the wait fails. -/
def mbCmdSend (w : World) (data : ℕ → UInt8) (len : ℕ) (b : Board) : Option UInt32 × Board :=
  let r := jtagWriteBuffer w 0 data len b
  if !r.1 then (none, r.2) else waitAnswer w 1001 (UInt32.ofNat len) r.2

/-- Four bits at a time of a record. -/
def readNibbles (w : World) : ℕ → UInt32 × Board → UInt32 × Board
  | 0, r => r
  | n + 1, r =>
    let t := (jsShiftdr r.2).send w 4 0 false
    readNibbles w n ((r.1 >>> 4) ||| (UInt32.ofNat t.1 <<< 28), jsRunidle (jsUpdatedr t.2))

/-- A record of 32 bits. -/
def readRecord (w : World) (b : Board) : UInt32 × Board := readNibbles w 8 (0, b)

/-- The smallest number of bits, from `n` on, for a number of slaves; `fuel` bounds the search. -/
def slaveBitsFor (slaves : ℕ) : ℕ → ℕ → ℕ
  | 0, n => n
  | fuel + 1, n => if 1 <<< n < slaves + 1 then slaveBitsFor slaves fuel (n + 1) else n

/-- The search for the slave, from number `j` on. -/
def findSlave (w : World) : ℕ → ℕ → Board → Bool × Board
  | 0, _, b => (false, b)
  | left + 1, j, b =>
    let r := readRecord w b
    if ((r.1 >>> 19) &&& 0xff = 0x84) ∧ ((r.1 >>> 8) &&& 0x7ff = 0x6E) then
      (true, { r.2 with id := UInt8.ofNat j })
    else findSlave w left (j + 1) r.2

/-- `jtagInit`: whether the slave was found; `rpc` is the word of `mbPinSet` and what lies behind it. -/
def jtagInit (w : World) (rpc : ℕ → UInt8) (b : Board) : Bool × Board :=
  let b := (jtagWriteBuffer w 0 rpc 1 b).2
  let b := jsRunidle { b with pins := { b.pins with tms := true, tdi := true }.writeTck false }
  let r := checkStatusDone w b
  if !r.1 then (false, r.2)
  else
    let b := jsUpdatedr ((jsShiftdr (loadJI w 0x00E r.2).2).send w 64 0 false).2
    let r := readRecord w (loadJI w 0x00C b).2
    let b := { r.2 with id := 0xFF, lastVir := 0xFF }
    if (r.1 >>> 8) &&& 0x7ff = 0x6E then
      let nSlaves := ((r.1 >>> 19) &&& 0xff).toUInt8
      findSlave w nSlaves.toNat 0
        { b with
          nSlaves := nSlaves, slaveBits := UInt8.ofNat (slaveBitsFor nSlaves.toNat 8 0)
          virSize := (r.1 &&& 0xff).toUInt8 }
    else (false, b)

/-- `jtagReload` -/
def jtagReload (w : World) (b : Board) : Board := jsShiftdr (loadJI w 0x001 b).2

/-- `jtagDeinit` -/
def jtagDeinit (b : Board) : Board := { b with id := 0xFF }

/-! ### The copy of the state -/

/-- The table is that of the controller. -/
theorem jsm_eq : jsm = State.next := by
  funext s mode
  cases s <;> cases mode <;> rfl

section
variable (captured : List Bool) (start : Port)

/-- The port is in a state, and the clock line is low. -/
structure At (s : State) (p : Pins) : Prop where
  tck : p.tck = false
  state : (p.port captured start).state = s

/-- It stays there. -/
structure Parked (s : State) (p : Pins) : Prop extends At captured start s p where
  stays : s.next p.tms = s

/-- The copy is true. -/
def Tracks (b : Board) : Prop := At captured start b.state b.pins

/-- The port waits for an instruction or a scan, or bits can be sent. -/
def Ready (b : Board) : Prop :=
  Tracks captured start b ∧ (b.state = .updateDr ∨ b.state = .updateIr ∨ b.state = .reset ∨ b.state = .runIdle ∨
    Parked captured start b.state b.pins)

variable {captured start}

theorem pulse_eq {p : Pins} (h : p.tck = false) :
    pulse p = { p with clocks := p.clocks ++ [⟨p.tms, p.tdi⟩] } := by
  obtain ⟨tck, tms, tdi, clocks⟩ := p
  obtain rfl : tck = false := h
  rfl

theorem At.pulse {s : State} {p : Pins} (h : At captured start s p) :
    At captured start (s.next p.tms) (pulse p) := by
  rw [pulse_eq h.tck]
  refine ⟨h.tck, ?_⟩
  have hstate := h.state
  rw [Pins.port] at hstate ⊢
  rw [run_append, run_cons, run_nil, step_state, hstate]

theorem Tracks.advanceJSM {b : Board} (h : Tracks captured start b) (mode : Bool) :
    Tracks captured start (advanceJSM mode b) := by
  have hlow : At captured start b.state { b.pins with tms := mode } := ⟨h.tck, h.state⟩
  have hpulse := hlow.pulse
  rw [Tracks, BoardJtag.advanceJSM, jsm_eq]
  exact hpulse

theorem Tracks.advance {b : Board} (h : Tracks captured start b) (modes : List Bool) :
    Tracks captured start (advance modes b) := by
  induction modes generalizing b with
  | nil => exact h
  | cons mode modes ih => exact ih (h.advanceJSM mode)

theorem advance_state (modes : List Bool) (b : Board) : (advance modes b).state = modes.foldl jsm b.state := by
  induction modes generalizing b with
  | nil => rfl
  | cons mode modes ih => exact ih _

theorem advance_tms (modes : List Bool) (mode : Bool) (b : Board) :
    (advance (modes ++ [mode]) b).pins.tms = mode := by
  rw [advance, List.foldl_append]
  rfl

theorem advance_pins (modes : List Bool) (b : Board) (s : State) :
    (advance modes { b with state := s }).pins = (advance modes b).pins := by
  induction modes generalizing b s with
  | nil => rfl
  | cons mode modes ih =>
    have hone : ∀ s, (advanceJSM mode { b with state := s }).pins = (advanceJSM mode b).pins := fun _ => rfl
    have hsame : advance (mode :: modes) { b with state := s }
        = advance modes { advanceJSM mode b with state := jsm s mode } := rfl
    rw [hsame]
    exact ih (advanceJSM mode b) _

/-- A reset makes the copy true. -/
theorem jsReset_tracks {b : Board} (htck : b.pins.tck = false) : Tracks captured start (jsReset b) := by
  have hreset : ∀ s : State, [true, true, true, true, true].foldl jsm s = .reset := by
    intro s
    cases s <;> rfl
  have htrue : Tracks captured start { b with state := (b.pins.port captured start).state } := ⟨htck, rfl⟩
  have hafter := htrue.advance [true, true, true, true, true]
  rw [Tracks, advance_state, advance_pins, hreset] at hafter
  rw [Tracks, jsReset, advance_state, hreset]
  exact hafter

theorem jsReset_state (b : Board) : (jsReset b).state = .reset := by
  rw [jsReset, advance_state]
  cases b.state <;> rfl

theorem jsRunidle_state (b : Board) : (jsRunidle b).state = .runIdle := by
  have hnext : ∀ b : Board, (advanceJSM false b).state = jsm b.state false := fun _ => rfl
  rw [jsRunidle, hnext]
  split
  · rw [jsReset_state]
    rfl
  · next h =>
    have h : b.state = .updateIr ∨ b.state = .updateDr := by
      by_contra hno
      exact h (not_or.mp hno)
    rcases h with h | h <;> rw [h] <;> rfl

/-- It is true at rest, also when it was not before. -/
theorem jsRunidle_tracks {b : Board} (htck : b.pins.tck = false)
    (h : b.state = .updateIr ∨ b.state = .updateDr → Tracks captured start b) :
    Tracks captured start (jsRunidle b) := by
  rw [jsRunidle]
  split
  · exact (jsReset_tracks htck).advanceJSM false
  · next hno =>
    refine (h ?_).advanceJSM false
    by_contra hnone
    exact hno (not_or.mp hnone)

theorem Tracks.runidle {b : Board} (h : Tracks captured start b) : Tracks captured start (jsRunidle b) :=
  jsRunidle_tracks h.tck fun _ => h

theorem Tracks.updatedr {b : Board} (h : Tracks captured start b) : Tracks captured start (jsUpdatedr b) := by
  rw [jsUpdatedr]
  split
  · exact h
  · exact h.advance _

/-- A scan begins where one can. -/
theorem Ready.shiftdr {b : Board} (h : Ready captured start b) :
    Parked captured start (jsShiftdr b).state (jsShiftdr b).pins := by
  obtain ⟨htracks, hcase⟩ := h
  have hupdate : b.state = .updateDr ∨ b.state = .updateIr →
      Parked captured start (jsShiftdr b).state (jsShiftdr b).pins := by
    intro hb
    have hafter := htracks.advance [true, false, false]
    have hstate : (advance [true, false, false] b).state = .shiftDr := by
      rw [advance_state]
      rcases hb with hb | hb <;> rw [hb] <;> rfl
    have hlow : (advance [true, false, false] b).pins.tms = false := advance_tms [true, false] false b
    rw [jsShiftdr, if_neg fun hno => hb.elim hno.1 hno.2]
    exact ⟨hafter, by rw [hstate, hlow]; rfl⟩
  have hrest : b.state = .reset ∨ b.state = .runIdle →
      Parked captured start (jsShiftdr b).state (jsShiftdr b).pins := by
    intro hb
    have hafter := htracks.advance [false, false, true, false, false]
    have hstate : (advance [false, false, true, false, false] b).state = .shiftDr := by
      rw [advance_state]
      rcases hb with hb | hb <;> rw [hb] <;> rfl
    have hlow : (advance [false, false, true, false, false] b).pins.tms = false :=
      advance_tms [false, false, true, false] false b
    have hne : b.state ≠ .updateDr ∧ b.state ≠ .updateIr := by rcases hb with hb | hb <;> rw [hb] <;> decide
    rw [jsShiftdr, if_pos hne, if_neg fun hno => hb.elim hno.1 hno.2]
    exact ⟨hafter, by rw [hstate, hlow]; rfl⟩
  rcases hcase with hb | hb | hb | hb | hb
  · exact hupdate (Or.inl hb)
  · exact hupdate (Or.inr hb)
  · exact hrest (Or.inl hb)
  · exact hrest (Or.inr hb)
  · -- it stays where it is, unless that is one of the others
    by_cases hu : b.state = .updateDr ∨ b.state = .updateIr
    · exact hupdate hu
    · by_cases hr : b.state = .reset ∨ b.state = .runIdle
      · exact hrest hr
      · rw [not_or] at hu hr
        rw [jsShiftdr, if_pos hu, if_pos hr]
        exact hb

/-! ### Bits -/

theorem Parked.drive {s : State} {p : Pins} (h : Parked captured start s p) (data clk : Bool) :
    Parked captured start s (driveTdi data clk p) := by
  have hset : Parked captured start s { p with tdi := data } := ⟨⟨h.tck, h.state⟩, h.stays⟩
  rw [driveTdi]
  cases clk with
  | false => exact hset
  | true =>
    have hpulse := hset.toAt.pulse
    rw [h.stays] at hpulse
    refine ⟨hpulse, ?_⟩
    have hlow : BoardJtag.pulse { p with tdi := data } = { p with tdi := data, clocks := p.clocks ++ [⟨p.tms, data⟩] } :=
      pulse_eq h.tck
    simp only [if_true, hlow]
    exact h.stays

theorem Parked.readTDO {s : State} {p : Pins} (w : World) (h : Parked captured start s p)
    (bit_count data : ℕ) (inst : Bool) : Parked captured start s (readTDO w bit_count data inst p).2 := by
  rw [BoardJtag.readTDO]
  generalize List.range bit_count = is
  generalize (0 : ℕ) = record
  induction is generalizing p record with
  | nil => exact h
  | cons i is ih => exact ih (h.drive _ _) _

theorem Parked.readTDOBuf {s : State} {p : Pins} (w : World) (h : Parked captured start s p)
    (bit_count : ℕ) (txbuf : ℕ → UInt8) (inst : Bool) :
    Parked captured start s (readTDOBuf w bit_count txbuf inst p).2 := by
  have hloop : ∀ (is : List ℕ) (r : List UInt8 × UInt8 × Pins), Parked captured start s r.2.2 →
      Parked captured start s (is.foldl (fun (r : List UInt8 × UInt8 × Pins) i =>
        let indata := (r.2.1 >>> 1) ||| (if r.2.2.readTdo w then 0x80 else 0)
        let p := driveTdi ((txbuf (i / 8)).toNat.testBit (i % 8)) (!(i = bit_count - 1 && inst)) r.2.2
        if i % 8 = 7 then (r.1 ++ [indata], 0, p) else (r.1, indata, p)) r).2.2 := by
    intro is
    induction is with
    | nil => exact fun _ hr => hr
    | cons i is ih =>
      intro r hr
      refine ih _ ?_
      have hdrive := hr.drive ((txbuf (i / 8)).toNat.testBit (i % 8)) (!(i = bit_count - 1 && inst))
      simp only
      split <;> exact hdrive
  exact hloop _ _ h

/-! ### Instructions -/

theorem toShiftIr_state (b : Board) : (toShiftIr b).state = .shiftIr := by
  rw [toShiftIr, advance_state]
  split
  · rw [jsRunidle_state]
    rfl
  · next h =>
    have hb : b.state = .runIdle ∨ b.state = .reset := by
      by_contra hno
      exact h (not_or.mp hno)
    rcases hb with hb | hb <;> rw [hb] <;> rfl

theorem Tracks.toShiftIr {b : Board} (h : Tracks captured start b) :
    Parked captured start .shiftIr (toShiftIr b).pins := by
  have hstate := toShiftIr_state b
  have hlow : (BoardJtag.toShiftIr b).pins.tms = false := advance_tms [false, true, true, false] false _
  have htracks : Tracks captured start (BoardJtag.toShiftIr b) := by
    rw [BoardJtag.toShiftIr]
    split
    · exact h.runidle.advance _
    · exact h.advance _
  rw [Tracks, hstate] at htracks
  exact ⟨htracks, by rw [hlow]; rfl⟩

theorem Parked.send {b : Board} (w : World) (h : Parked captured start b.state b.pins)
    (bit_count data : ℕ) (inst : Bool) :
    Parked captured start (b.send w bit_count data inst).2.state (b.send w bit_count data inst).2.pins :=
  h.readTDO w bit_count data inst

theorem Parked.sendBuf {b : Board} (w : World) (h : Parked captured start b.state b.pins)
    (bit_count : ℕ) (txbuf : ℕ → UInt8) (inst : Bool) :
    Parked captured start (b.sendBuf w bit_count txbuf inst).2.state (b.sendBuf w bit_count txbuf inst).2.pins :=
  h.readTDOBuf w bit_count txbuf inst

theorem Parked.ready {b : Board} (h : Parked captured start b.state b.pins) : Ready captured start b :=
  ⟨h.toAt, Or.inr (Or.inr (Or.inr (Or.inr h)))⟩

theorem Tracks.ready {b : Board} (h : Tracks captured start b) (hb : b.state = .updateDr ∨ b.state = .runIdle) :
    Ready captured start b := ⟨h, hb.elim Or.inl fun hb => Or.inr (Or.inr (Or.inr (Or.inl hb)))⟩

theorem loadJI_state (w : World) (action : ℕ) (b : Board) : (loadJI w action b).2.state
    = if (loadJI w action b).1 then .updateIr else .shiftIr := by
  have hstate : ((toShiftIr b).send w 10 action true).2.state = .shiftIr := toShiftIr_state b
  rw [loadJI]
  split
  · exact hstate
  · show (advance [true, true] _).state = _
    rw [advance_state, hstate]
    rfl

/-- Behind an instruction a scan can begin, or the port is left where bits can be sent. -/
theorem Tracks.loadJI {b : Board} (w : World) (h : Tracks captured start b) (action : ℕ) :
    Ready captured start (loadJI w action b).2 := by
  have hstate := loadJI_state w action b
  have hsent : Parked captured start ((BoardJtag.toShiftIr b).send w 10 action true).2.state
      ((BoardJtag.toShiftIr b).send w 10 action true).2.pins := by
    refine Parked.send w ?_ 10 action true
    rw [toShiftIr_state]
    exact h.toShiftIr
  rw [BoardJtag.loadJI] at hstate ⊢
  split
  · exact hsent.ready
  · next hwhole =>
    rw [if_neg hwhole] at hstate
    exact ⟨Tracks.advance hsent.toAt [true, true], Or.inr (Or.inl hstate)⟩

theorem Tracks.setupChain {b : Board} (w : World) (h : Tracks captured start b) (action : ℕ) :
    Ready captured start (setupChain w action b) := by
  have hstate : ((BoardJtag.toShiftIr b).send w 10 action true).2.state = .shiftIr := toShiftIr_state b
  have hsent : Tracks captured start ((BoardJtag.toShiftIr b).send w 10 action true).2 := by
    refine (Parked.send w ?_ 10 action true).toAt
    rw [toShiftIr_state]
    exact h.toShiftIr
  refine ⟨hsent.advance [true, true], Or.inr (Or.inl ?_)⟩
  rw [BoardJtag.setupChain, advance_state, hstate]
  rfl

/-! ### Calls -/

theorem Tracks.runidle_ready {b : Board} (h : Tracks captured start b) : Ready captured start (jsRunidle b) :=
  h.runidle.ready (Or.inr (jsRunidle_state b))

theorem jsUpdatedr_ready {b : Board} (h : Parked captured start b.state b.pins) :
    Ready captured start (jsUpdatedr b) := by
  rw [jsUpdatedr]
  split
  · exact h.ready
  · next hb =>
    refine (Tracks.advance h.toAt _).ready (Or.inl ?_)
    rw [advance_state, not_not.mp hb]
    rfl

theorem Parked.zeros {b : Board} (n : ℕ) (h : Parked captured start b.state b.pins) :
    Parked captured start (driveZeros n b).state (driveZeros n b).pins := by
  induction n generalizing b with
  | zero => exact h
  | succ n ih => exact ih (h.drive false true)

theorem Ready.checkStatusDone {b : Board} (w : World) (h : Ready captured start b) :
    Ready captured start (checkStatusDone w b).2 := by
  have hbits := ((h.1.setupChain w 0x004).shiftdr).zeros ((jseqMax - jseqConfDone) * 3 + 1)
  exact (jsUpdatedr_ready (hbits.send w 1 0 false)).1.runidle_ready

theorem Ready.virtual {b : Board} (w : World) (h : Ready captured start b) (instruction : UInt8) :
    Ready captured start (jtagVIR w instruction b).2 := by
  rw [jtagVIR]
  split
  · have hload := h.1.loadJI w 0x00E
    simp only
    split
    · exact hload
    · exact jsUpdatedr_ready (hload.shiftdr.send w _ _ true)
  · exact h

theorem Tracks.sendAddress {b : Board} (w : World) (h : Tracks captured start b) (address : UInt32) :
    Parked captured start (sendAddress w address b).state (sendAddress w address b).pins :=
  (h.loadJI w 0x00C).shiftdr.sendBuf w 32 _ false

theorem Ready.writeBuffer {b : Board} (w : World) (h : Ready captured start b) (address : UInt32)
    (data : ℕ → UInt8) (len : ℕ) : Ready captured start (jtagWriteBuffer w address data len b).2 := by
  have hvir := h.virtual w 0
  rw [jtagWriteBuffer]
  split
  · exact hvir
  · exact ((hvir.1.sendAddress w address).sendBuf w _ data false).ready

theorem Parked.words {r : List UInt8 × Board} (w : World) (len : ℕ)
    (h : Parked captured start r.2.state r.2.pins) :
    Parked captured start (readWords w len r).2.state (readWords w len r).2.pins := by
  induction len generalizing r with
  | zero => exact h
  | succ len ih => exact ih (h.sendBuf w 32 _ false)

theorem Ready.readBuffer {b : Board} (w : World) (h : Ready captured start b) (address : UInt32) (len : ℕ) :
    Ready captured start (jtagReadBuffer w address len b).2 := by
  have hvir := h.virtual w 0
  rw [jtagReadBuffer]
  split
  · exact hvir
  · have haddress := hvir.1.sendAddress w address
    have hcount : Ready captured start (sendCount w len (sendAddress w address (jtagVIR w 0 b).2)) := by
      rw [sendCount]
      split
      · exact (haddress.sendBuf w 4 _ true).ready
      · exact haddress.ready
    have hread := hcount.virtual w 1
    simp only
    split
    · exact hread
    · exact (Parked.words w len (hread.1.loadJI w 0x00C).shiftdr).ready

theorem Ready.waitAnswer {b : Board} (w : World) (h : Ready captured start b) (retries : ℕ) (ret : UInt32) :
    Ready captured start (waitAnswer w retries ret b).2 := by
  induction retries generalizing b ret with
  | zero => exact h
  | succ retries ih =>
    rw [BoardJtag.waitAnswer]
    simp only
    split
    · exact ih (h.readBuffer w 0 1) _
    · exact (h.readBuffer w 0 1).readBuffer w 1 1

theorem Ready.cmdSend {b : Board} (w : World) (h : Ready captured start b) (data : ℕ → UInt8) (len : ℕ) :
    Ready captured start (mbCmdSend w data len b).2 := by
  rw [mbCmdSend]
  split
  · exact h.writeBuffer w 0 data len
  · exact (h.writeBuffer w 0 data len).waitAnswer w _ _

theorem Ready.nibbles {r : UInt32 × Board} (w : World) (n : ℕ) (h : Ready captured start r.2) :
    Ready captured start (readNibbles w n r).2 := by
  induction n generalizing r with
  | zero => exact h
  | succ n ih => exact ih (jsUpdatedr_ready (h.shiftdr.send w 4 0 false)).1.runidle_ready

theorem Ready.record {b : Board} (w : World) (h : Ready captured start b) :
    Ready captured start (readRecord w b).2 := Ready.nibbles w 8 h

/-- It is the state and the lines that count. -/
theorem Ready.congr {b b' : Board} (h : Ready captured start b) (hstate : b'.state = b.state)
    (hpins : b'.pins = b.pins) : Ready captured start b' := by
  rw [Ready, Tracks, hstate, hpins]
  exact h

theorem Ready.slave {b : Board} (w : World) (h : Ready captured start b) (left j : ℕ) :
    Ready captured start (findSlave w left j b).2 := by
  induction left generalizing b j with
  | zero => exact h
  | succ left ih =>
    have hrecord := h.record w
    rw [findSlave]
    generalize readRecord w b = r at hrecord ⊢
    split
    · exact hrecord.congr (by rfl) (by rfl)
    · exact ih hrecord _

/-- Behind a write the copy says that bits can be sent, true or not. -/
theorem jtagWriteBuffer_state (w : World) (address : UInt32) (data : ℕ → UInt8) (len : ℕ) (b : Board)
    (hvir : (jtagVIR w 0 b).1 = false → (jtagVIR w 0 b).2.state = .shiftIr) :
    (jtagWriteBuffer w address data len b).2.state = .shiftDr ∨
      (jtagWriteBuffer w address data len b).2.state = .shiftIr := by
  rw [jtagWriteBuffer]
  split
  · next hfail => exact Or.inr (hvir (by simpa using hfail))
  · have hstate := loadJI_state w 0x00C (jtagVIR w 0 b).2
    show (jsShiftdr (loadJI w 0x00C (jtagVIR w 0 b).2).2).state = .shiftDr ∨
      (jsShiftdr (loadJI w 0x00C (jtagVIR w 0 b).2).2).state = .shiftIr
    rw [jsShiftdr]
    split at hstate
    · rw [if_neg (by rw [hstate]; decide), advance_state, hstate]
      exact Or.inl rfl
    · rw [if_pos (by rw [hstate]; decide), if_pos (by rw [hstate]; decide), hstate]
      exact Or.inr rfl

theorem jtagVIR_state (w : World) (instruction : UInt8) (b : Board)
    (hfail : (jtagVIR w instruction b).1 = false) : (jtagVIR w instruction b).2.state = .shiftIr := by
  have hstate := loadJI_state w 0x00E b
  rw [jtagVIR] at hfail ⊢
  split at hfail
  · next hne =>
    rw [if_pos hne]
    simp only at hfail ⊢
    split at hfail
    · next hload =>
      rw [if_pos hload]
      rw [if_neg (by rw [hfail]; decide)] at hstate
      exact hstate
    · cases hfail
  · cases hfail

/-- `jtagInit` makes the copy true, whatever it was and whatever the port was doing. -/
theorem jtagInit_ready (w : World) (rpc : ℕ → UInt8) (b : Board) :
    Ready captured start (jtagInit w rpc b).2 := by
  have hstate := jtagWriteBuffer_state w 0 rpc 1 b (jtagVIR_state w 0 b)
  have hidle : Ready captured start (jsRunidle { (jtagWriteBuffer w 0 rpc 1 b).2 with
      pins := { (jtagWriteBuffer w 0 rpc 1 b).2.pins with tms := true, tdi := true }.writeTck false }) := by
    refine (jsRunidle_tracks rfl fun hupdate => ?_).ready (Or.inr (jsRunidle_state _))
    have hupdate : (jtagWriteBuffer w 0 rpc 1 b).2.state = .updateIr ∨
        (jtagWriteBuffer w 0 rpc 1 b).2.state = .updateDr := hupdate
    rcases hstate with h | h <;> rw [h] at hupdate <;> rcases hupdate with h' | h' <;> cases h'
  have hstatus := hidle.checkStatusDone w
  rw [jtagInit]
  simp only
  split
  · exact hstatus
  · have hvirtual := jsUpdatedr_ready ((hstatus.1.loadJI w 0x00E).shiftdr.send w 64 0 false)
    have hrecord := (hvirtual.1.loadJI w 0x00C).record w
    generalize readRecord w _ = r at hrecord ⊢
    split
    · exact Ready.slave w (hrecord.congr (by rfl) (by rfl)) _ _
    · exact hrecord.congr (by rfl) (by rfl)

/-! ### The status -/

theorem advanceJSM_pins {b : Board} (htck : b.pins.tck = false) (mode : Bool) :
    (advanceJSM mode b).pins
      = { b.pins with tms := mode, clocks := b.pins.clocks ++ [⟨mode, b.pins.tdi⟩] } := pulse_eq htck

/-- From rest the instruction register is reached, with what it is captured with. -/
theorem toShiftIr_port {b : Board} (h : Tracks captured start b) :
    ((toShiftIr b).pins.port captured start).ir = captured := by
  have hpath : ∀ b : Board, Tracks captured start b → b.state = .runIdle ∨ b.state = .reset →
      ((advance [false, true, true, false, false] b).pins.port captured start).ir = captured := by
    intro b hb hstate
    have hsplit : advance [false, true, true, false, false] b
        = advanceJSM false (advance [false, true, true, false] b) := rfl
    have hbefore := hb.advance [false, true, true, false]
    have hcapture : (advance [false, true, true, false] b).state = .captureIr := by
      rw [advance_state]
      rcases hstate with h | h <;> rw [h] <;> rfl
    have hport := hbefore.state
    rw [hcapture] at hport
    rw [hsplit, advanceJSM_pins hbefore.tck]
    rw [Pins.port] at hport ⊢
    rw [run_append, run_cons, run_nil]
    generalize start.run captured _ = q at hport ⊢
    obtain ⟨state, ir, instruction, dr, events⟩ := q
    obtain rfl : state = .captureIr := hport
    rfl
  rw [toShiftIr]
  split
  · exact hpath _ h.runidle (Or.inl (jsRunidle_state b))
  · next hno =>
    refine hpath _ h ?_
    by_contra hnone
    exact hno (not_or.mp hnone)

theorem driveTdi_eq {p : Pins} (htck : p.tck = false) (data : Bool) :
    driveTdi data true p = { p with tdi := data, clocks := p.clocks ++ [⟨p.tms, data⟩] } :=
  pulse_eq (p := { p with tdi := data }) htck

/-- All bits but the last are clocked, and that one is left on the data line. -/
theorem readTDO_pins (w : World) (n data : ℕ) {p : Pins} (htck : p.tck = false) (hlow : p.tms = false) :
    (readTDO w (n + 1) data true p).2
      = { p with tdi := data.testBit n, clocks := p.clocks ++ bits (lowBits n data) } := by
  have hloop : ∀ m, m ≤ n → ((List.range m).foldl (fun (r : ℕ × Pins) i =>
      (if r.2.readTdo w then r.1 ||| 1 <<< i else r.1,
        driveTdi (data.testBit i) (!(i = n + 1 - 1 && true)) r.2)) (0, p)).2
      = { p with
          tdi := if m = 0 then p.tdi else data.testBit (m - 1)
          clocks := p.clocks ++ bits (lowBits m data) } := by
    intro m
    induction m with
    | zero => simp [lowBits, bits]
    | succ m ih =>
      intro hm
      have hne : m ≠ n := by omega
      rw [List.range_succ, List.foldl_append, List.foldl_cons, List.foldl_nil, ih (by omega)]
      simp only [Nat.add_sub_cancel, hne, decide_false, Bool.false_and, Bool.not_false]
      refine (driveTdi_eq (by exact htck) _).trans ?_
      simp [hlow, bits, Jtag.lowBits_succ]
  rw [readTDO, List.range_succ, List.foldl_append, List.foldl_cons, List.foldl_nil, hloop n (le_refl n)]
  simp [driveTdi]

/-- `SetupChain` puts its instruction into effect. -/
theorem setupChain_port (w : World) (action : ℕ) (hcap : captured.length = 10) {b : Board}
    (h : Tracks captured start b) :
    ((setupChain w action b).pins.port captured start).instruction = some (lowBits 10 action) := by
  have hlow : (toShiftIr b).pins.tms = false := advance_tms [false, true, true, false] false _
  have hparked := h.toShiftIr
  have hir := toShiftIr_port h
  have hsend : ((toShiftIr b).send w 10 action true).2.pins = { (toShiftIr b).pins with
      tdi := action.testBit 9, clocks := (toShiftIr b).pins.clocks ++ bits (lowBits 9 action) } :=
    readTDO_pins w 9 action hparked.tck hlow
  set b₁ := ((toShiftIr b).send w 10 action true).2 with hb₁
  have htck : b₁.pins.tck = false := by
    rw [hsend]
    exact hparked.tck
  have hone := advanceJSM_pins (b := b₁) htck true
  have htwo := advanceJSM_pins (b := advanceJSM true b₁) (by rw [hone]; exact htck) true
  have hclocks : (setupChain w action b).pins.clocks = (toShiftIr b).pins.clocks
      ++ (bits (lowBits 9 action) ++ [⟨true, action.testBit 9⟩, ⟨true, action.testBit 9⟩]) := by
    show (advanceJSM true (advanceJSM true b₁)).pins.clocks = _
    rw [htwo, hone, hsend]
    simp
  have hbits : (lowBits 9 action).length ≤ ((toShiftIr b).pins.port captured start).ir.length := by
    rw [hir, hcap, lowBits, List.length_map, List.length_range]
    decide
  rw [Pins.port, hclocks, run_append, run_append]
  rw [← Pins.port, run_bits_ir _ hparked.state hbits, hir]
  have hrest : (captured.drop (lowBits 9 action).length).length = 1 := by
    rw [List.length_drop, hcap, lowBits, List.length_map, List.length_range]
  obtain ⟨x, hx⟩ := List.length_eq_one_iff.mp hrest
  have hstate := hparked.state
  rw [hx, Jtag.lowBits_succ 9 action]
  generalize (toShiftIr b).pins.port captured start = q at hstate ⊢
  obtain ⟨state, ir, instruction, dr, events⟩ := q
  obtain rfl : state = .shiftIr := hstate
  rfl

theorem driveZeros_pins (n : ℕ) {b : Board} (htck : b.pins.tck = false) (hlow : b.pins.tms = false) :
    (driveZeros n b).pins.clocks = b.pins.clocks ++ bits (List.replicate n false) ∧
      (driveZeros n b).pins.tck = false := by
  induction n generalizing b with
  | zero => exact ⟨by simp [driveZeros, bits], htck⟩
  | succ n ih =>
    have hone := driveTdi_eq (p := b.pins) htck false
    obtain ⟨hclocks, hend⟩ := ih (b := { b with pins := driveTdi false true b.pins })
      (by rw [hone]; exact htck) (by rw [hone]; exact hlow)
    refine ⟨?_, hend⟩
    rw [driveZeros, hclocks, hone, List.replicate_succ]
    simp [bits, hlow]

/-- `CheckStatus` answers what the port shows behind the first 409 bits of its status. -/
theorem checkStatusDone_port (w : World) (hcap : captured.length = 10) {b : Board}
    (h : Tracks captured start b) : ∃ cs, (checkStatusDone w b).1 = w.tdo cs ∧
      (start.run captured cs).state = .shiftDr ∧ (start.run captured cs).instruction = some checkStatus ∧
      (start.run captured cs).dr = List.replicate 409 false := by
  -- the instruction is in effect, and the scan begins
  have hready := h.setupChain w 0x004
  have hinstruction := setupChain_port w 0x004 hcap h
  have hupdate : (setupChain w 0x004 b).state = .updateIr := by
    have hstate : ((toShiftIr b).send w 10 0x004 true).2.state = .shiftIr := toShiftIr_state b
    rw [setupChain, advance_state, hstate]
    rfl
  set b₁ := setupChain w 0x004 b with hb₁
  have hscan : jsShiftdr b₁ = advance [true, false, false] b₁ := by
    rw [jsShiftdr, if_neg (by rw [hupdate]; decide)]
  have hlow : (jsShiftdr b₁).pins.tms = false := by
    rw [hscan]
    exact advance_tms [true, false] false b₁
  have hport : (jsShiftdr b₁).pins.port captured start
      = { b₁.pins.port captured start with state := .shiftDr, dr := [] } := by
    have hone := advanceJSM_pins hready.1.tck true
    have htwo := advanceJSM_pins (hready.1.advanceJSM true).tck false
    have hthree := advanceJSM_pins ((hready.1.advanceJSM true).advanceJSM false).tck false
    have hstate := hready.1.state
    rw [hupdate] at hstate
    rw [hscan]
    show (advanceJSM false (advanceJSM false (advanceJSM true b₁))).pins.port captured start = _
    rw [hthree, htwo, hone]
    simp only [Pins.port, run_append] at hstate ⊢
    generalize start.run captured b₁.pins.clocks = q at hstate ⊢
    obtain ⟨state, ir, instruction, dr, events⟩ := q
    obtain rfl : state = .updateIr := hstate
    rfl
  have htck := hready.shiftdr.tck
  obtain ⟨hclocks, hend⟩ := driveZeros_pins ((jseqMax - jseqConfDone) * 3 + 1) htck hlow
  set b₂ := driveZeros ((jseqMax - jseqConfDone) * 3 + 1) (jsShiftdr b₁) with hb₂
  have hbit : (jseqMax - jseqConfDone) * 3 + 1 = 409 := rfl
  rw [hbit] at hclocks
  -- its level is looked at before the clock
  have hanswer : (checkStatusDone w b).1 = w.tdo b₂.pins.clocks := by
    have hone : (b₂.send w 1 0 false).1 = if b₂.pins.readTdo w then 0 ||| 1 <<< 0 else 0 := rfl
    have hlevel : b₂.pins.readTdo w = w.tdo b₂.pins.clocks := by rw [Pins.readTdo, hend, if_neg (by decide)]
    rw [checkStatusDone]
    simp only [← hb₁, ← hb₂, hone, hlevel]
    cases w.tdo b₂.pins.clocks <;> rfl
  clear_value b₂
  have hrun : start.run captured b₂.pins.clocks
      = { b₁.pins.port captured start with state := .shiftDr, dr := List.replicate 409 false } := by
    rw [hclocks, run_append]
    refine (run_bits_dr _ (by rw [← Pins.port, hport])).trans ?_
    rw [← Pins.port, hport, List.nil_append]
  refine ⟨b₂.pins.clocks, hanswer, ?_, ?_, ?_⟩
  · rw [hrun]
  · rw [hrun, checkStatus, ← hinstruction]
  · rw [hrun]

end

/-! ### Runs -/

/-- The calls of the driver. -/
inductive Call where
  | init (rpc : ℕ → UInt8)
  | deinit
  | reload
  | write (address : UInt32) (data : ℕ → UInt8) (len : ℕ)
  | read (address : UInt32) (len : ℕ)
  | cmdSend (data : ℕ → UInt8) (len : ℕ)

/-- What a call leaves. -/
def Call.run (w : World) (b : Board) : Call → Board
  | .init rpc => (jtagInit w rpc b).2
  | .deinit => jtagDeinit b
  | .reload => jtagReload w b
  | .write address data len => (jtagWriteBuffer w address data len b).2
  | .read address len => (jtagReadBuffer w address len b).2
  | .cmdSend data len => (mbCmdSend w data len b).2

theorem Ready.call {captured : List Bool} {start : Port} {b : Board} (w : World)
    (h : Ready captured start b) (c : Call) : Ready captured start (c.run w b) := by
  cases c with
  | init rpc => exact jtagInit_ready w rpc b
  | deinit => exact h.congr rfl rfl
  | reload => exact (h.1.loadJI w 0x001).shiftdr.ready
  | write address data len => exact h.writeBuffer w address data len
  | read address len => exact h.readBuffer w address len
  | cmdSend data len => exact h.cmdSend w data len

/-- The copy says that the port is reset, while it is in the middle of a scan. -/
def lostBoard : Board :=
  { pins := { tck := true, tms := true, tdi := false, clocks := [] }, state := .reset, nSlaves := 0
    slaveBits := 0, virSize := 0, id := 0, lastVir := 0 }

end Fpga.BoardJtag
