import ReplayFirmware.Lib.Tap
import ReplayFirmware.Fpga.BitHeader

/-! The configuration of an FPGA over its test access port.

    The driver moves the lines of the port by hand, or lets the SPI shift whole bytes out, and knows where
    the port is only by what it has sent. Whatever state the port is in, a file is delivered in one scan
    of its data register, and the driver then reports what the port says of it. -/

namespace Fpga.Jtag
open Tap FatFs

/-! ### The lines -/

/-- What is not the driver's: the level of the data output behind clocks, which changes when the clock line
    falls, and how many ticks a wait takes that begins there. -/
structure World where
  tdo : List Clock → Bool
  ticks : List Clock → ℕ

/-- The levels of the lines, and the clocks so far. -/
structure Pins where
  tck : Bool
  tms : Bool
  tdi : Bool
  clocks : List Clock

/-- `digitalWrite(PIN_TCK, level)` -/
def Pins.writeTck (p : Pins) (level : Bool) : Pins :=
  { p with
    tck := level
    clocks := if level && !p.tck then p.clocks ++ [⟨p.tms, p.tdi⟩] else p.clocks }

/-- `digitalRead(PIN_TDO)` -/
def Pins.readTdo (w : World) (p : Pins) : Bool := w.tdo (if p.tck then p.clocks.dropLast else p.clocks)

/-- The bits of a byte or an instruction, the lowest first. -/
def lowBits (n data : ℕ) : List Bool := (List.range n).map data.testBit

/-- The bits of bytes. -/
def byteBits (bs : List UInt8) : List Bool := bs.flatMap fun b => lowBits 8 b.toNat

/-- `SPI_JTAG.transfer`, while it drives the clock and the data line. -/
def transfer (p : Pins) (b : UInt8) : Pins :=
  { p with clocks := p.clocks ++ (lowBits 8 b.toNat).map fun tdi => ⟨p.tms, tdi⟩ }

/-! ### The code -/

/-- `JTAG_Tick` -/
def jtagTick (w : World) (tms tdi : Bool) (p : Pins) : Bool × Pins :=
  let p := { p.writeTck false with tms := tms, tdi := tdi }.writeTck true
  (p.readTdo w, p)

/-- `JTAG_TMSPath` -/
def jtagTMSPath (w : World) : ℕ → ℕ → Pins → Pins
  | 0, _, p => p
  | num + 1, path, p => jtagTMSPath w num (path >>> 1) (jtagTick w (path.testBit 0) false p).2

/-- Ticks with one level of the mode line. -/
def ticks (w : World) (tms : Bool) : ℕ → Pins → Pins
  | 0, p => p
  | n + 1, p => ticks w tms n (jtagTick w tms false p).2

/-- `JTAG_Reset` -/
def jtagReset (w : World) (p : Pins) : Pins := ticks w true 5 p

/-- `WaitTick` -/
def waitTick (w : World) (tms : Bool) (p : Pins) : Pins := ticks w tms (w.ticks p.clocks) p

/-- `JTAG_ShiftIR` -/
def jtagShiftIR (w : World) (p : Pins) : Pins := jtagTMSPath w 5 0b00110 (jtagReset w p)

/-- Bit `i` goes out and one comes in. -/
def sendBit (w : World) (data : ℕ) (tms : Bool) (r : ℕ × Pins) (i : ℕ) : ℕ × Pins :=
  let t := jtagTick w tms (data.testBit i) r.2
  (if t.1 then r.1 ||| 1 <<< i else r.1, t.2)

/-- The first `num` bits, the last of them with a level of its own of the mode line. -/
def sendBits (w : World) (num data : ℕ) (tms : Bool) (p : Pins) : ℕ × Pins :=
  sendBit w data tms ((List.range (num - 1)).foldl (sendBit w data false) (0, p)) (num - 1)

/-- `JTAG_SendIR` -/
def jtagSendIR (w : World) (data : ℕ) (p : Pins) : ℕ × Pins := sendBits w 10 data true (jtagShiftIR w p)

/-- `JTAG_SendDR8` -/
def jtagSendDR8 (w : World) (num : ℕ) (data : UInt8) (tms : Bool) (p : Pins) : ℕ × Pins :=
  sendBits w num data.toNat tms p

/-- `JTAG_SendBuffer` -/
def jtagSendBuffer (data : List UInt8) (p : Pins) : Pins := data.foldl transfer (p.writeTck false)

/-- `JTAG_Init` -/
def jtagInit (p : Pins) : Pins := { p.writeTck false with tms := false, tdi := false }

/-- An instruction, from where the port is put into effect and at rest. -/
def instruct (w : World) (data : ℕ) (p : Pins) : Pins :=
  waitTick w false (jtagTMSPath w 2 0b01 (jtagSendIR w data p).2)

/-- `JTAG_StartBitstream` -/
def jtagStartBitstream (w : World) (p : Pins) : Pins := jtagTMSPath w 3 0b001 (instruct w 0x002 p)

/-- `FPGA_WriteBitstream` -/
def fpgaWriteBitstream (w : World) (buffer : List UInt8) (done : Bool) (p : Pins) : Pins :=
  let length := if done then buffer.length - 1 else buffer.length
  let p := jtagSendBuffer (buffer.take length) p
  if done then (jtagSendDR8 w 8 (buffer.getD length 0) false p).2 else p

/-- A byte of the status goes into `Check`. -/
def checkByte (w : World) (tms : Bool) (r : (ℕ → ℕ) × Pins) (i : ℕ) : (ℕ → ℕ) × Pins :=
  let t := jtagSendDR8 w 8 0x00 tms r.2
  (Function.update r.1 (134 - i) t.1, t.2)

/-- `JTAG_EndBitstream`: whether the configuration is in order. -/
def jtagEndBitstream (w : World) (p : Pins) : Bool × Pins :=
  let p := jtagTMSPath w 3 0b001 (instruct w 0x004 p)
  let r := checkByte w true ((List.range 134).foldl (checkByte w false) (fun _ => 0, p)) 134
  if r.1 83 &&& 0x02 ≠ 0x02 then (false, jtagReset w r.2)
  else (true, instruct w 0x3FF (instruct w 0x003 r.2))

/-- The driver: the lines, how much it has written, and the levels of the pins that the FPGA does not
    have. -/
structure Ssc where
  pins : Pins
  written : UInt32
  pin_fpga_done : Bool
  pin_fpga_init_l : Bool

/-- `SSC_EnableTxRx` -/
def sscEnableTxRx (w : World) (s : Ssc) : Ssc :=
  { s with pin_fpga_done := false, written := 0, pins := jtagStartBitstream w (jtagReset w (jtagInit s.pins)) }

/-- `SSC_WriteBufferSingle` -/
def sscWriteBufferSingle (w : World) (s : Ssc) (buffer : List UInt8) : Ssc :=
  if buffer = [] then s
  else
    let written := s.written + UInt32.ofNat buffer.length
    let done := written = UInt32.ofNat (bitstreamLength .vidor)
    { s with written := written, pins := fpgaWriteBitstream w buffer done s.pins }

/-- `SSC_DisableTxRx` -/
def sscDisableTxRx (w : World) (s : Ssc) : Ssc :=
  let r := jtagEndBitstream w s.pins
  if r.1 then { s with pins := r.2, pin_fpga_done := true } else { s with pins := r.2 }

/-- `IO_DriveLow_OD` or `IO_DriveHigh_OD` of `PIN_FPGA_PROG_L` -/
def driveProg (s : Ssc) : Ssc := { s with pin_fpga_init_l := true, pin_fpga_done := false }

/-- The loop that sends the file. -/
def sendLoop (w : World) : ℕ → FIL → Ssc → Option Ssc
  | 0, _, _ => none
  | fuel + 1, f, s =>
    let r := FF_Read f fileBufSize
    let s := sscWriteBufferSingle w s r.1
    if r.1 = [] then some s else sendLoop w fuel r.2 s

/-- `FPGA_Config`, which answers 0 when the FPGA is configured. -/
def fpgaConfig (w : World) (f : FIL) (fBuf1 : List UInt8) (s : Ssc) : Option (UInt8 × Ssc) :=
  (config .vidor f fBuf1).bind fun start =>
    match start with
    | none => some (1, s)
    | some f =>
      let s := driveProg (sscEnableTxRx w (driveProg s))
      if !s.pin_fpga_init_l then some (1, s)
      else if s.pin_fpga_done then some (1, s)
      else (sendLoop w (f.objsize + 1) f s).map fun s =>
        let s := sscDisableTxRx w s
        (if s.pin_fpga_done then 0 else 1, s)

/-! ### What is sent -/

/-- From one state of the lines to another these clocks were given, and the mode line was left as the last
    of them had it. -/
structure Sends (cs : List Clock) (p p' : Pins) : Prop where
  clocks : p'.clocks = p.clocks ++ cs
  tms : p'.tms = (cs.getLast?.map Clock.tms).getD p.tms

theorem Sends.refl (p : Pins) : Sends [] p p := ⟨(List.append_nil _).symm, rfl⟩

theorem Sends.trans {cs cs' : List Clock} {p p' p'' : Pins} (h : Sends cs p p') (h' : Sends cs' p' p'') :
    Sends (cs ++ cs') p p'' where
  clocks := by rw [h'.clocks, h.clocks, List.append_assoc]
  tms := by
    rw [h'.tms, h.tms, List.getLast?_append]
    cases cs'.getLast? <;> rfl

section
variable (w : World) (p : Pins)

theorem jtagTick_eq (tms tdi : Bool) : jtagTick w tms tdi p
    = (w.tdo p.clocks, { tck := true, tms := tms, tdi := tdi, clocks := p.clocks ++ [⟨tms, tdi⟩] }) := by
  simp [jtagTick, Pins.writeTck, Pins.readTdo]

theorem jtagTick_sends (tms tdi : Bool) : Sends [⟨tms, tdi⟩] p (jtagTick w tms tdi p).2 := by
  rw [jtagTick_eq]
  exact ⟨rfl, rfl⟩

theorem writeTck_low : Sends [] p (p.writeTck false) := ⟨by simp [Pins.writeTck], rfl⟩

theorem jtagTMSPath_sends (num data : ℕ) : Sends (path (lowBits num data)) p (jtagTMSPath w num data p) := by
  induction num generalizing data p with
  | zero => exact Sends.refl p
  | succ num ih =>
    have hrest : lowBits (num + 1) data = data.testBit 0 :: lowBits num (data >>> 1) := by
      simp [lowBits, List.range_succ_eq_map, Nat.testBit_shiftRight, Nat.add_comm]
    rw [hrest, jtagTMSPath]
    exact (jtagTick_sends w p _ false).trans (ih _ _)

theorem ticks_sends (tms : Bool) (n : ℕ) : Sends (path (List.replicate n tms)) p (ticks w tms n p) := by
  induction n generalizing p with
  | zero => exact Sends.refl p
  | succ n ih => exact (jtagTick_sends w p tms false).trans (ih _)

theorem jtagReset_sends : Sends (path [true, true, true, true, true]) p (jtagReset w p) :=
  ticks_sends w p true 5

theorem sendBit_sends (data : ℕ) (tms : Bool) (r : ℕ × Pins) (i : ℕ) :
    Sends [⟨tms, data.testBit i⟩] r.2 (sendBit w data tms r i).2 := jtagTick_sends w r.2 tms _

theorem foldl_sendBit_sends (data : ℕ) (ret n : ℕ) :
    Sends (bits (lowBits n data)) p ((List.range n).foldl (sendBit w data false) (ret, p)).2 := by
  induction n with
  | zero => exact Sends.refl p
  | succ n ih =>
    rw [List.range_succ, List.foldl_append]
    have h := ih.trans (sendBit_sends w data false _ n)
    have hbits : bits (lowBits (n + 1) data) = bits (lowBits n data) ++ [⟨false, data.testBit n⟩] := by
      simp [bits, lowBits, List.range_succ]
    rw [hbits]
    exact h

theorem sendBits_sends (num data : ℕ) (tms : Bool) :
    Sends (bits (lowBits (num - 1) data) ++ [⟨tms, data.testBit (num - 1)⟩]) p (sendBits w num data tms p).2 :=
  (foldl_sendBit_sends w p data 0 (num - 1)).trans (sendBit_sends w data tms _ _)

theorem lowBits_succ (n data : ℕ) : lowBits (n + 1) data = lowBits n data ++ [data.testBit n] := by
  simp [lowBits, List.range_succ]

theorem byteBits_append (as bs : List UInt8) : byteBits (as ++ bs) = byteBits as ++ byteBits bs :=
  List.flatMap_append

variable {p}

theorem jtagSendBuffer_sends (data : List UInt8) (h : p.tms = false) :
    Sends (bits (byteBits data)) p (jtagSendBuffer data p) := by
  have hloop : ∀ (data : List UInt8) {p : Pins}, p.tms = false →
      Sends (bits (byteBits data)) p (data.foldl transfer p) := by
    intro data
    induction data with
    | nil => exact fun _ => Sends.refl _
    | cons b data ih =>
      intro p hp
      have hone : Sends (bits (lowBits 8 b.toNat)) p (transfer p b) := by
        refine ⟨by simp [transfer, bits, hp], ?_⟩
        simp [transfer, bits, lowBits, hp, List.getLast?_map, List.getLast?_range]
      have hrest := hone.trans (ih hp)
      simpa [byteBits, bits] using hrest
  exact (writeTck_low p).trans (hloop data h)

/-- A part of the bitstream goes out the same way whether its last byte is sent by hand or not. -/
theorem fpgaWriteBitstream_sends {buffer : List UInt8} (done : Bool) (hne : buffer ≠ []) (h : p.tms = false) :
    Sends (bits (byteBits buffer)) p (fpgaWriteBitstream w buffer done p) := by
  rcases done with _ | _
  · simpa [fpgaWriteBitstream] using jtagSendBuffer_sends buffer h
  · obtain ⟨bs, b, rfl⟩ : ∃ bs b, buffer = bs ++ [b] := ⟨_, _, (List.dropLast_append_getLast hne).symm⟩
    have hbuffer := jtagSendBuffer_sends bs h
    have hlast := hbuffer.trans (sendBits_sends w (jtagSendBuffer bs p) 8 b.toNat false)
    have hbits : bits (byteBits (bs ++ [b]))
        = bits (byteBits bs) ++ (bits (lowBits 7 b.toNat) ++ [⟨false, b.toNat.testBit 7⟩]) := by
      rw [byteBits_append, bits, List.map_append]
      refine congrArg _ ?_
      simp [byteBits, lowBits_succ, bits]
    rw [hbits]
    simpa [fpgaWriteBitstream, jtagSendDR8] using hlast

theorem waitTick_sends : ∃ n, Sends (path (List.replicate n false)) p (waitTick w false p) :=
  ⟨_, ticks_sends w p false _⟩

theorem Sends.low {bs : List Bool} {p p' : Pins} (h : Sends (bits bs) p p') (hp : p.tms = false) :
    p'.tms = false := by
  rw [h.tms, bits, List.getLast?_map]
  cases bs.getLast? with
  | none => exact hp
  | some b => rfl

theorem sscWriteBufferSingle_sends {s : Ssc} (buffer : List UInt8) (h : s.pins.tms = false) :
    Sends (bits (byteBits buffer)) s.pins (sscWriteBufferSingle w s buffer).pins ∧
      (sscWriteBufferSingle w s buffer).pin_fpga_done = s.pin_fpga_done := by
  rw [sscWriteBufferSingle]
  by_cases hne : buffer = []
  · rw [if_pos hne, hne]
    exact ⟨Sends.refl _, rfl⟩
  · rw [if_neg hne]
    exact ⟨fpgaWriteBitstream_sends w _ hne h, rfl⟩

/-- The loop sends the rest of the file. -/
theorem sendLoop_sends {bytes : List UInt8} (fuel : ℕ) {f : FIL} {pos : ℕ} {s : Ssc}
    (h : ReadsAt bytes f pos) (hfuel : bytes.length - pos < fuel) (hlow : s.pins.tms = false) :
    ∃ s', sendLoop w fuel f s = some s' ∧ Sends (bits (byteBits (bytes.drop pos))) s.pins s'.pins ∧
      s'.pin_fpga_done = s.pin_fpga_done := by
  induction fuel generalizing f pos s with
  | zero => exact absurd hfuel (Nat.not_lt_zero _)
  | succ fuel ih =>
    obtain ⟨hread, hnext⟩ := h.read fileBufSize
    obtain ⟨hone, hdone⟩ := sscWriteBufferSingle_sends w (FF_Read f fileBufSize).1 hlow
    have hpos : 0 < fileBufSize := by decide
    rw [sendLoop]
    by_cases hend : (FF_Read f fileBufSize).1 = []
    · have hdrop : bytes.drop pos = [] := by
        have hnil : (bytes.drop pos).take fileBufSize = [] := hread.symm.trans hend
        simpa [hpos.ne'] using hnil
      rw [hend] at hone hdone
      refine ⟨_, if_pos hend, ?_, ?_⟩
      · rw [hdrop, hend]
        exact hone
      · rw [hend]
        exact hdone
    · rw [if_neg hend]
      have hlt : pos < bytes.length := by
        by_contra hge
        refine hend ?_
        rw [hread, List.drop_eq_nil_of_le (Nat.le_of_not_lt hge), List.take_nil]
      obtain ⟨s', hrun, hrest, hkept⟩ := ih hnext (by omega) (hone.low hlow)
      refine ⟨s', hrun, ?_, hkept.trans hdone⟩
      have hall := hone.trans hrest
      have hsplit : bytes.drop pos
          = (FF_Read f fileBufSize).1 ++ bytes.drop (min (pos + fileBufSize) bytes.length) := by
        rw [hread]
        by_cases hlong : pos + fileBufSize ≤ bytes.length
        · rw [Nat.min_eq_left hlong, ← List.drop_drop, List.take_append_drop]
        · rw [Nat.min_eq_right (by omega), List.drop_length, List.append_nil, List.take_of_length_le]
          rw [List.length_drop]
          omega
      rw [hsplit, byteBits_append, bits, List.map_append]
      exact hall

end

/-! ### What the port makes of it -/

section
variable (captured : List Bool) (start : Port)

/-- The port, which was in some state before the first clock. -/
def Pins.port (p : Pins) : Port := start.run captured p.clocks

variable {captured start}

theorem Sends.port {cs : List Clock} {p p' : Pins} (captured : List Bool) (start : Port) (h : Sends cs p p') :
    p'.port captured start = (p.port captured start).run captured cs := by
  rw [Pins.port, Pins.port, h.clocks, run_append]

/-- Five clocks with the mode line high. -/
def ones : List Clock := path [true, true, true, true, true]

variable (captured start) in
/-- An instruction is put into effect from wherever the port is, which then rests. -/
theorem instruct_port (w : World) (data : ℕ) (hcap : captured.length = 10) (p : Pins) :
    (instruct w data p).tms = false ∧ (instruct w data p).port captured start
      = { (p.port captured start).run captured ones with
          state := .runIdle, ir := lowBits 10 data, instruction := some (lowBits 10 data)
          events := ((p.port captured start).run captured ones).events ++ [.load (lowBits 10 data)] } := by
  have hir : Sends (ones ++ path [false, true, true, false, false]
      ++ (bits (lowBits 9 data) ++ [⟨true, data.testBit 9⟩])) p (jtagSendIR w data p).2 :=
    ((jtagReset_sends w p).trans (jtagTMSPath_sends w _ 5 0b00110)).trans (sendBits_sends w _ 10 data true)
  have hload : Sends (path [true, false]) (jtagSendIR w data p).2
      (jtagTMSPath w 2 0b01 (jtagSendIR w data p).2) := jtagTMSPath_sends w _ 2 0b01
  obtain ⟨m, hwait⟩ := waitTick_sends w (p := jtagTMSPath w 2 0b01 (jtagSendIR w data p).2)
  have hlow : (jtagTMSPath w 2 0b01 (jtagSendIR w data p).2).tms = false := hload.tms
  obtain ⟨hreset, -⟩ := run_reset captured (p.port captured start)
  have hbits : (lowBits 9 data).length + 1 = captured.length := by
    rw [hcap, lowBits, List.length_map, List.length_range]
  refine ⟨?_, ?_⟩
  · rw [instruct, hwait.tms, path, List.map_replicate, List.getLast?_replicate]
    split
    · exact hlow
    · rfl
  · rw [instruct, hwait.port captured start, hload.port captured start, hir.port captured start, List.append_assoc, run_append]
    rw [show ones = path [true, true, true, true, true] from rfl, run_instruction hreset hbits,
      run_load rfl, run_idle rfl, lowBits_succ 9 data]

variable (captured start) in
/-- A scan of the data register begins. -/
theorem scan_port (w : World) {p : Pins} (h : (p.port captured start).state = .runIdle) :
    (jtagTMSPath w 3 0b001 p).tms = false ∧ (jtagTMSPath w 3 0b001 p).port captured start
      = { p.port captured start with state := .shiftDr, dr := [] } := by
  have hscan : Sends (path [true, false, false]) p (jtagTMSPath w 3 0b001 p) := jtagTMSPath_sends w p 3 0b001
  refine ⟨hscan.tms, ?_⟩
  rw [hscan.port captured start, run_scan h]

variable (captured start) in
/-- `JTAG_StartBitstream` opens a scan under the instruction to program, whatever the port was doing. -/
theorem jtagStartBitstream_port (w : World) (hcap : captured.length = 10) (p : Pins) :
    (jtagStartBitstream w p).tms = false ∧ (jtagStartBitstream w p).port captured start
      = { (p.port captured start).run captured ones with
          state := .shiftDr, ir := lowBits 10 0x002, instruction := some (lowBits 10 0x002), dr := []
          events := ((p.port captured start).run captured ones).events ++ [.load (lowBits 10 0x002)] } := by
  obtain ⟨-, hport⟩ := instruct_port captured start w 0x002 hcap p
  have hscan := scan_port captured start w (p := instruct w 0x002 p) (by rw [hport])
  rw [hport] at hscan
  exact hscan

/-- Bits go into a scan that is open. -/
theorem Sends.scan {bs : List Bool} {p p' : Pins} (h : Sends (bits bs) p p')
    (hstate : (p.port captured start).state = .shiftDr) :
    p'.port captured start
      = { p.port captured start with dr := (p.port captured start).dr ++ bs } := by
  rw [h.port captured start, run_bits_dr bs hstate]

/-! ### The status -/

/-- What comes in, bit by bit, is what the port shows in front of each of the clocks. -/
theorem foldl_sendBit_ret (w : World) (data n : ℕ) (p : Pins) (k : ℕ) :
    ((List.range n).foldl (sendBit w data false) (0, p)).1.testBit k
      = (decide (k < n) && w.tdo (p.clocks ++ bits (lowBits k data))) := by
  induction n with
  | zero => simp
  | succ n ih =>
    rw [List.range_succ, List.foldl_append]
    have hclocks := (foldl_sendBit_sends w p data 0 n).clocks
    simp only [List.foldl_cons, List.foldl_nil, sendBit, jtagTick_eq, hclocks]
    rcases Nat.lt_trichotomy k n with hk | rfl | hk
    · have hne : n ≠ k := by omega
      have hlt : k < n + 1 := by omega
      split <;> simp [Nat.testBit_or, Nat.one_shiftLeft, Nat.testBit_two_pow_of_ne hne, ih, hk, hlt]
    · split
      · next htdo => simp [Nat.testBit_or, Nat.one_shiftLeft, htdo]
      · next htdo => simp [ih, Bool.eq_false_of_not_eq_true htdo]
    · have hne : n ≠ k := by omega
      have hge : ¬k < n := by omega
      have hge' : ¬k < n + 1 := by omega
      split <;> simp [Nat.testBit_or, Nat.one_shiftLeft, Nat.testBit_two_pow_of_ne hne, ih, hge, hge']

theorem and_two (x : ℕ) : x &&& 0x02 = 0x02 ↔ x.testBit 1 = true := by
  constructor
  · intro h
    have hbit := congrArg (Nat.testBit · 1) h
    have htwo : Nat.testBit 0x02 1 = true := by decide
    simpa [htwo] using hbit
  · intro h
    refine Nat.eq_of_testBit_eq fun i => ?_
    rw [Nat.testBit_and, show (0x02 : ℕ) = 2 ^ 1 from rfl, Nat.testBit_two_pow]
    by_cases hi : 1 = i
    · simp [← hi, h]
    · simp [hi]

/-- The second bit of a byte of the status. -/
theorem jtagSendDR8_ret (w : World) (tms : Bool) (p : Pins) :
    (jtagSendDR8 w 8 0x00 tms p).1.testBit 1 = w.tdo (p.clocks ++ bits [false]) := by
  have hfirst := foldl_sendBit_ret w (0x00 : UInt8).toNat 7 p 1
  have hother : (1 <<< 7 : ℕ).testBit 1 = false := by decide
  have hbits : lowBits 1 (0x00 : UInt8).toNat = [false] := rfl
  rw [hbits] at hfirst
  rw [jtagSendDR8, sendBits, sendBit]
  simp only
  split
  · rw [Nat.testBit_or, hother, Bool.or_false]
    exact hfirst
  · exact hfirst

/-- The status so far: its clocks, and what came in of the bytes that were looked at. -/
theorem foldl_checkByte (w : World) (p : Pins) (check : ℕ → ℕ) {n : ℕ} (hn : n ≤ 134) :
    Sends (bits (List.replicate (8 * n) false)) p ((List.range n).foldl (checkByte w false) (check, p)).2 ∧
      ∀ i, i < n → (((List.range n).foldl (checkByte w false) (check, p)).1 (134 - i)).testBit 1
        = w.tdo (p.clocks ++ bits (List.replicate (8 * i + 1) false)) := by
  induction n with
  | zero => exact ⟨Sends.refl p, fun i hi => absurd hi (Nat.not_lt_zero i)⟩
  | succ n ih =>
    obtain ⟨hsends, hret⟩ := ih (by omega)
    rw [List.range_succ, List.foldl_append]
    simp only [List.foldl_cons, List.foldl_nil, checkByte]
    refine ⟨?_, fun i hi => ?_⟩
    · have hbyte := hsends.trans (sendBits_sends w _ 8 (0x00 : UInt8).toNat false)
      have hzeros : bits (List.replicate (8 * (n + 1)) false) = bits (List.replicate (8 * n) false)
          ++ (bits (lowBits 7 (0x00 : UInt8).toNat) ++ [⟨false, (0x00 : UInt8).toNat.testBit 7⟩]) := by
        rw [Nat.mul_succ, List.replicate_add, bits, List.map_append]
        rfl
      rw [hzeros]
      exact hbyte
    · rcases Nat.lt_succ_iff_lt_or_eq.mp hi with hlt | rfl
      · rw [Function.update_of_ne (by omega)]
        exact hret i hlt
      · rw [Function.update_self, jtagSendDR8_ret, hsends.clocks, List.append_assoc, List.replicate_succ',
          bits, bits, bits, List.map_append]

/-! ### The configuration -/

/-- The instructions. -/
def program : List Bool := lowBits 10 0x002

def startup : List Bool := lowBits 10 0x003

def checkStatus : List Bool := lowBits 10 0x004

def bypass : List Bool := lowBits 10 0x3FF

/-- A configuration with these bits, by a port that had done `before`: they go into one scan under the
    instruction to program, with one more behind them. Then the status is scanned, and the outcome is what
    the port shows behind the first 409 bits of it; when that is good the FPGA is started, else the port
    is left in reset. -/
structure Configured (captured : List Bool) (start : Port) (w : World) (before : List Event)
    (data : List Bool) (p' : Pins) (good : Bool) : Prop where
  events : (p'.port captured start).events = before
    ++ [.load program, .scan (some program) (data ++ [false]), .load checkStatus,
      .scan (some checkStatus) (List.replicate 1080 false)]
    ++ if good then [.load startup, .load bypass] else []
  state : (p'.port captured start).state = if good then .runIdle else .reset
  status : ∃ cs cs', p'.clocks = cs ++ cs' ∧ good = w.tdo cs ∧
    (start.run captured cs).state = .shiftDr ∧ (start.run captured cs).instruction = some checkStatus ∧
    (start.run captured cs).dr = List.replicate 409 false

/-- The driver only adds clocks. -/
theorem instruct_clocks (w : World) (data : ℕ) (p : Pins) : ∃ cs, (instruct w data p).clocks = p.clocks ++ cs := by
  obtain ⟨n, hwait⟩ := waitTick_sends w (p := jtagTMSPath w 2 0b01 (jtagSendIR w data p).2)
  have hall := ((((jtagReset_sends w p).trans (jtagTMSPath_sends w _ 5 0b00110)).trans
    (sendBits_sends w _ 10 data true)).trans (jtagTMSPath_sends w _ 2 0b01)).trans hwait
  exact ⟨_, hall.clocks⟩

/-- `JTAG_EndBitstream` behind a scan that is open. -/
theorem jtagEndBitstream_configured (w : World) (hcap : captured.length = 10) {p : Pins} {before : List Event}
    (hstate : (p.port captured start).state = .shiftDr)
    (hinstruction : (p.port captured start).instruction = some program)
    (hevents : (p.port captured start).events = before ++ [.load program]) :
    Configured captured start w before (p.port captured start).dr (jtagEndBitstream w p).2
      (jtagEndBitstream w p).1 := by
  -- the scan is closed by the reset, and the status opens another
  obtain ⟨-, hinstruct⟩ := instruct_port captured start w 0x004 hcap p
  rw [show ones = path [true, true, true, true, true] from rfl, run_reset_shift hstate, hinstruction,
    hevents] at hinstruct
  obtain ⟨hlow, hscan⟩ := scan_port captured start w (p := instruct w 0x004 p)
    (by rw [hinstruct])
  rw [hinstruct] at hscan
  set p₁ := jtagTMSPath w 3 0b001 (instruct w 0x004 p) with hp₁
  obtain ⟨hsends, hret⟩ := foldl_checkByte w p₁ (fun _ => 0) (le_refl 134)
  set r₀ := (List.range 134).foldl (checkByte w false) (fun _ => 0, p₁) with hr₀
  -- its bits, and its end
  have hbyte : Sends (bits (List.replicate 1079 false) ++ [⟨true, false⟩]) p₁ (checkByte w true r₀ 134).2 := by
    have hlast := hsends.trans (sendBits_sends w r₀.2 8 (0x00 : UInt8).toNat true)
    have hzeros : bits (List.replicate 1079 false) ++ [⟨true, false⟩] = bits (List.replicate (8 * 134) false)
        ++ (bits (lowBits 7 (0x00 : UInt8).toNat) ++ [⟨true, (0x00 : UInt8).toNat.testBit 7⟩]) := by
      rw [show 1079 = 8 * 134 + 7 from rfl, List.replicate_add, bits, List.map_append, List.append_assoc]
      rfl
    rw [hzeros]
    exact hlast
  have hgood : ((checkByte w true r₀ 134).1 83 &&& 0x02 = 0x02)
      ↔ w.tdo (p₁.clocks ++ bits (List.replicate 409 false)) = true := by
    have h51 := hret 51 (by decide)
    rw [and_two, checkByte]
    simp only
    rw [Function.update_of_ne (by decide)]
    rw [show 134 - 51 = 83 from rfl, show 8 * 51 + 1 = 409 from rfl] at h51
    rw [h51]
  have hport : (checkByte w true r₀ 134).2.port captured start
      = { p₁.port captured start with state := .exit1Dr, dr := List.replicate 1080 false } := by
    rw [hbyte.port captured start, run_leaving_dr (by rw [hscan]), hscan, List.nil_append, ← List.replicate_succ']
  have hstatus : ∀ {p' : Pins}, (∃ cs, p'.clocks = (checkByte w true r₀ 134).2.clocks ++ cs) →
      ∃ cs cs', p'.clocks = cs ++ cs' ∧
        w.tdo (p₁.clocks ++ bits (List.replicate 409 false)) = w.tdo cs ∧
        (start.run captured cs).state = .shiftDr ∧ (start.run captured cs).instruction = some checkStatus ∧
        (start.run captured cs).dr = List.replicate 409 false := by
    rintro p' ⟨cs, hcs⟩
    have hrun : start.run captured (p₁.clocks ++ bits (List.replicate 409 false))
        = { p₁.port captured start with dr := List.replicate 409 false } := by
      rw [run_append]
      refine (run_bits_dr _ (by rw [← Pins.port, hscan])).trans ?_
      rw [← Pins.port, hscan]
      rfl
    refine ⟨p₁.clocks ++ bits (List.replicate 409 false),
      bits (List.replicate 670 false) ++ [⟨true, false⟩] ++ cs, ?_, rfl, ?_, ?_, ?_⟩
    · rw [hcs, hbyte.clocks, show 1079 = 409 + 670 from rfl, List.replicate_add, bits, List.map_append]
      simp only [bits, List.append_assoc]
    · rw [hrun, hscan]
    · rw [hrun, hscan]
      rfl
    · rw [hrun]
  rw [jtagEndBitstream]
  simp only [← hp₁, ← hr₀]
  by_cases hok : w.tdo (p₁.clocks ++ bits (List.replicate 409 false)) = true
  · rw [if_neg (not_not.mpr (hgood.mpr hok))]
    obtain ⟨-, hstartup⟩ := instruct_port captured start w 0x003 hcap (checkByte w true r₀ 134).2
    rw [show ones = path [true, true, true, true, true] from rfl, run_reset_exit (by rw [hport])] at hstartup
    obtain ⟨-, hbypass⟩ := instruct_port captured start w 0x3FF hcap
      (instruct w 0x003 (checkByte w true r₀ 134).2)
    rw [show ones = path [true, true, true, true, true] from rfl, run_reset_idle (by rw [hstartup])] at hbypass
    obtain ⟨cs, hcs⟩ := instruct_clocks w 0x003 (checkByte w true r₀ 134).2
    obtain ⟨cs', hcs'⟩ := instruct_clocks w 0x3FF (instruct w 0x003 (checkByte w true r₀ 134).2)
    refine ⟨?_, ?_, ?_⟩
    · rw [hbypass, hstartup, hport, hscan]
      simp only [program, checkStatus, startup, bypass, List.append_assoc, List.cons_append, List.nil_append,
        if_true]
    · rw [hbypass]
      rfl
    · obtain ⟨cs₁, cs₂, h1, h2, h3⟩ := hstatus ⟨cs ++ cs', by rw [hcs', hcs, List.append_assoc]⟩
      exact ⟨cs₁, cs₂, h1, hok.symm.trans h2, h3⟩
  · rw [if_pos (fun h => hok (hgood.mp h))]
    have hreset := jtagReset_sends w (checkByte w true r₀ 134).2
    have hport' := hreset.port captured start
    rw [run_reset_exit (by rw [hport])] at hport'
    refine ⟨?_, ?_, ?_⟩
    · rw [hport', hport, hscan]
      simp only [program, checkStatus, List.append_assoc, List.cons_append, List.nil_append, List.append_nil,
        Bool.false_eq_true, if_false]
    · rw [hport']
      rfl
    · obtain ⟨cs₁, cs₂, h1, h2, h3⟩ := hstatus ⟨_, hreset.clocks⟩
      exact ⟨cs₁, cs₂, h1, (Bool.eq_false_of_not_eq_true hok).symm.trans h2, h3⟩

theorem jtagInit_sends (p : Pins) : Sends [] p { jtagInit p with tms := p.tms } :=
  ⟨by simp [jtagInit, Pins.writeTck], rfl⟩

variable (captured start) in
/-- `SSC_EnableTxRx` opens a scan for the bitstream. -/
theorem sscEnableTxRx_port (w : World) (hcap : captured.length = 10) (s : Ssc) :
    (sscEnableTxRx w s).pins.tms = false ∧ ((sscEnableTxRx w s).pins.port captured start).state = .shiftDr ∧
      ((sscEnableTxRx w s).pins.port captured start).instruction = some program ∧
      ((sscEnableTxRx w s).pins.port captured start).dr = [] ∧
      ((sscEnableTxRx w s).pins.port captured start).events
        = ((s.pins.port captured start).run captured ones).events ++ [.load program] := by
  have hinit : (jtagInit s.pins).clocks = s.pins.clocks := by simp [jtagInit, Pins.writeTck]
  have hreset := (jtagReset_sends w (jtagInit s.pins)).port captured start
  obtain ⟨hstate, hnone⟩ := run_reset captured ((jtagInit s.pins).port captured start)
  have hagain := run_reset_reset captured hstate hnone
  obtain ⟨hlow, hport⟩ := jtagStartBitstream_port captured start w hcap (jtagReset w (jtagInit s.pins))
  have hsame : (jtagInit s.pins).port captured start = s.pins.port captured start := by
    rw [Pins.port, Pins.port, hinit]
  rw [hreset, show ones = path [true, true, true, true, true] from rfl, hagain, hsame] at hport
  have hpins : (sscEnableTxRx w s).pins.port captured start
      = (jtagStartBitstream w (jtagReset w (jtagInit s.pins))).port captured start := rfl
  refine ⟨hlow, ?_, ?_, ?_, ?_⟩
  · rw [hpins, hport]
  · rw [hpins, hport]
    rfl
  · rw [hpins, hport]
  · rw [hpins, hport]
    rfl

/-- The walk over the header ends, and leaves a file that can be read from there. -/
theorem config_readsAt (board : Board) {bytes : List UInt8} {f : FIL} (h : ReadsAt bytes f 0)
    (fBuf1 : List UInt8) : config board f fBuf1 ≠ none ∧
      ∀ g, config board f fBuf1 = some (some g) → ReadsAt bytes g g.fptr := by
  have hends := @walkLoop_ends bytes (f.objsize + 1) ⟨f, fBuf1, bitInit, 0, [], [], false⟩ 0 h
    (by rw [h.size]; omega)
  -- what the walk leaves, and the last check
  obtain ⟨start, hstart, hat⟩ : ∃ start : Option FIL,
      config board f fBuf1 = some (start.bind fun f =>
        if FF_Size f - f.fptr < bitstreamLength board then none else some f) ∧
      ∀ g, start = some g → ReadsAt bytes g g.fptr := by
    rw [config]
    by_cases hlong : bitstreamLength board < FF_Size f
    · rw [if_pos hlong, walkHeader]
      cases hrun : walkLoop (f.objsize + 1) ⟨f, fBuf1, bitInit, 0, [], [], false⟩ with
      | none => exact absurd hrun hends
      | some w =>
        refine ⟨_, rfl, fun g hg => ?_⟩
        cases w with
        | none => cases hg
        | some w =>
          obtain ⟨stream, hat, -⟩ := walkLoop_leads _ h hrun
          obtain rfl := Option.some.inj hg
          rw [hat.fptr]
          exact hat
    · rw [if_neg hlong]
      refine ⟨_, rfl, fun g hg => ?_⟩
      obtain rfl := Option.some.inj hg
      rw [h.fptr]
      exact h
  rw [hstart]
  refine ⟨Option.some_ne_none _, fun g hg => ?_⟩
  rcases start with _ | f'
  · cases hg
  · simp only [Option.bind_some, Option.some.injEq] at hg
    split at hg
    · cases hg
    · exact hat g hg

end

/-- A port in the middle of a scan. -/
def busyPort : Port :=
  { state := .shiftDr, ir := List.replicate 10 true, instruction := some bypass, dr := [true], events := [] }

/-- It shows high bits, and the waits take three ticks. -/
def highWorld : World := { tdo := fun _ => true, ticks := fun _ => 3 }

/-- The lines before the first clock. -/
def restingLines : Ssc :=
  { pins := { tck := false, tms := false, tdi := false, clocks := [] }, written := 0, pin_fpga_done := false
    pin_fpga_init_l := true }

end Fpga.Jtag
