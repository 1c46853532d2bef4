import Mathlib.Data.List.Basic

/-! Test access ports.

    A port has a controller of sixteen states that moves with the mode line on every clock, an instruction
    register and a data register. In the two shift states each clock brings a bit in; what has come in
    takes effect in the update states. -/

namespace Tap

/-- The states of the controller. -/
inductive State where
  | reset | runIdle
  | selectDr | captureDr | shiftDr | exit1Dr | pauseDr | exit2Dr | updateDr
  | selectIr | captureIr | shiftIr | exit1Ir | pauseIr | exit2Ir | updateIr
  deriving DecidableEq

/-- Where a clock takes it, with the mode line low or high. -/
def State.next : State → Bool → State
  | .reset, false => .runIdle
  | .reset, true => .reset
  | .runIdle, false => .runIdle
  | .runIdle, true => .selectDr
  | .selectDr, false => .captureDr
  | .selectDr, true => .selectIr
  | .captureDr, false => .shiftDr
  | .captureDr, true => .exit1Dr
  | .shiftDr, false => .shiftDr
  | .shiftDr, true => .exit1Dr
  | .exit1Dr, false => .pauseDr
  | .exit1Dr, true => .updateDr
  | .pauseDr, false => .pauseDr
  | .pauseDr, true => .exit2Dr
  | .exit2Dr, false => .shiftDr
  | .exit2Dr, true => .updateDr
  | .updateDr, false => .runIdle
  | .updateDr, true => .selectDr
  | .selectIr, false => .captureIr
  | .selectIr, true => .reset
  | .captureIr, false => .shiftIr
  | .captureIr, true => .exit1Ir
  | .shiftIr, false => .shiftIr
  | .shiftIr, true => .exit1Ir
  | .exit1Ir, false => .pauseIr
  | .exit1Ir, true => .updateIr
  | .pauseIr, false => .pauseIr
  | .pauseIr, true => .exit2Ir
  | .exit2Ir, false => .shiftIr
  | .exit2Ir, true => .updateIr
  | .updateIr, false => .runIdle
  | .updateIr, true => .selectDr

/-- A clock: the level of the mode line, and the bit on the data line. -/
structure Clock where
  tms : Bool
  tdi : Bool
  deriving DecidableEq

/-- What a port does: an instruction takes effect, or a scan of its data register, under an instruction
    or, behind a reset, under none. -/
inductive Event where
  | load (instruction : List Bool)
  | scan (instruction : Option (List Bool)) (bits : List Bool)
  deriving DecidableEq

/-- A port: its controller, the bits in its instruction register, the one that leaves next in front, the
    instruction in effect, what the present scan has brought, and what it has done. -/
structure Port where
  state : State
  ir : List Bool
  instruction : Option (List Bool)
  dr : List Bool
  events : List Event

/-- What a clock brings into the registers; an instruction register is `captured` with some pattern. -/
def Port.shift (captured : List Bool) (p : Port) (tdi : Bool) : Port :=
  match p.state with
  | .captureIr => { p with ir := captured }
  | .shiftIr => { p with ir := p.ir.tail ++ [tdi] }
  | .captureDr => { p with dr := [] }
  | .shiftDr => { p with dr := p.dr ++ [tdi] }
  | _ => p

/-- What the state it comes to puts into effect. -/
def Port.enter (p : Port) (s : State) : Port :=
  match s with
  | .reset => { p with state := s, instruction := none }
  | .updateIr => { p with state := s, instruction := some p.ir, events := p.events ++ [.load p.ir] }
  | .updateDr => { p with state := s, events := p.events ++ [.scan p.instruction p.dr] }
  | _ => { p with state := s }

/-- A clock. -/
def Port.step (captured : List Bool) (p : Port) (c : Clock) : Port :=
  (p.shift captured c.tdi).enter (p.state.next c.tms)

/-- Clocks. -/
def Port.run (captured : List Bool) (p : Port) (cs : List Clock) : Port := cs.foldl (Port.step captured) p

/-- The data line is low, and the mode line follows these levels. -/
def path (modes : List Bool) : List Clock := modes.map fun tms => ⟨tms, false⟩

/-- Bits on the data line with the mode line low. -/
def bits (bs : List Bool) : List Clock := bs.map fun tdi => ⟨false, tdi⟩

section
variable {captured : List Bool} (p : Port)

@[simp] theorem run_nil : p.run captured [] = p := rfl

@[simp] theorem run_cons (c : Clock) (cs : List Clock) :
    p.run captured (c :: cs) = (p.step captured c).run captured cs := rfl

theorem run_append (cs cs' : List Clock) :
    p.run captured (cs ++ cs') = (p.run captured cs).run captured cs' := List.foldl_append

theorem step_state (c : Clock) : (p.step captured c).state = p.state.next c.tms := by
  rw [Port.step]
  generalize p.state.next c.tms = s
  cases s <;> rfl

theorem run_state (cs : List Clock) :
    (p.run captured cs).state = (cs.map Clock.tms).foldl State.next p.state := by
  induction cs generalizing p with
  | nil => rfl
  | cons c cs ih => simp [ih, step_state]

/-- In the reset state there is no instruction. -/
theorem step_reset {c : Clock} (h : (p.step captured c).state = .reset) :
    (p.step captured c).instruction = none := by
  rw [step_state] at h
  simp [Port.step, Port.enter, h]

/-! ### Paths -/

variable (captured) in
/-- Five clocks with the mode line high reset a port, wherever it is. -/
theorem run_reset : (p.run captured (path [true, true, true, true, true])).state = .reset ∧
    (p.run captured (path [true, true, true, true, true])).instruction = none := by
  have hstate : ∀ s : State, [true, true, true, true, true].foldl State.next s = .reset := by
    intro s
    cases s <;> rfl
  have hlast : (p.run captured (path [true, true, true, true, true])).state = .reset := by
    rw [run_state]
    exact hstate p.state
  refine ⟨hlast, ?_⟩
  have hsplit : path [true, true, true, true, true] = path [true, true, true, true] ++ [⟨true, false⟩] := rfl
  rw [hsplit, run_append] at hlast ⊢
  exact step_reset _ hlast

variable {p}

variable (captured) in
/-- Behind a reset another one changes nothing. -/
theorem run_reset_reset (h : p.state = .reset) (hnone : p.instruction = none) :
    p.run captured (path [true, true, true, true, true]) = p := by
  obtain ⟨state, ir, instruction, dr, events⟩ := p
  obtain rfl : state = .reset := h
  obtain rfl : instruction = none := hnone
  rfl

/-- From rest nothing else comes of it. -/
theorem run_reset_idle (h : p.state = .runIdle) :
    p.run captured (path [true, true, true, true, true]) = { p with state := .reset, instruction := none } := by
  obtain ⟨state, ir, instruction, dr, events⟩ := p
  obtain rfl : state = .runIdle := h
  rfl

/-- It ends a scan that goes on, with one more bit. -/
theorem run_reset_shift (h : p.state = .shiftDr) :
    p.run captured (path [true, true, true, true, true])
      = { p with
          state := .reset, instruction := none, dr := p.dr ++ [false]
          events := p.events ++ [.scan p.instruction (p.dr ++ [false])] } := by
  obtain ⟨state, ir, instruction, dr, events⟩ := p
  obtain rfl : state = .shiftDr := h
  rfl

/-- It ends a scan that has been left. -/
theorem run_reset_exit (h : p.state = .exit1Dr) :
    p.run captured (path [true, true, true, true, true])
      = { p with
          state := .reset, instruction := none
          events := p.events ++ [.scan p.instruction p.dr] } := by
  obtain ⟨state, ir, instruction, dr, events⟩ := p
  obtain rfl : state = .exit1Dr := h
  rfl

/-- A port at rest stays there while the mode line is low. -/
theorem run_idle (h : p.state = .runIdle) (n : ℕ) :
    p.run captured (path (List.replicate n false)) = p := by
  have hstep : p.step captured ⟨false, false⟩ = p := by
    obtain ⟨state, ir, instruction, dr, events⟩ := p
    obtain rfl : state = .runIdle := h
    rfl
  induction n with
  | zero => rfl
  | succ n ih =>
    rw [List.replicate_succ, path, List.map_cons, run_cons, hstep]
    exact ih

/-- A scan of the data register begins. -/
theorem run_scan (h : p.state = .runIdle) :
    p.run captured (path [true, false, false]) = { p with state := .shiftDr, dr := [] } := by
  obtain ⟨state, ir, instruction, dr, events⟩ := p
  obtain rfl : state = .runIdle := h
  rfl

/-! ### Scans -/

/-- It takes bits while the mode line is low. -/
theorem run_bits_dr (bs : List Bool) (h : p.state = .shiftDr) :
    p.run captured (bits bs) = { p with dr := p.dr ++ bs } := by
  induction bs generalizing p with
  | nil => simp [bits]
  | cons b bs ih =>
    have hstep : p.step captured ⟨false, b⟩ = { p with dr := p.dr ++ [b] } := by
      obtain ⟨state, ir, instruction, dr, events⟩ := p
      obtain rfl : state = .shiftDr := h
      rfl
    rw [bits, List.map_cons, run_cons, hstep, ← bits,
      ih (p := { p with dr := p.dr ++ [b] }) h]
    simp

/-- It is left with its last bit. -/
theorem run_leaving_dr (h : p.state = .shiftDr) (bs : List Bool) (b : Bool) :
    p.run captured (bits bs ++ [⟨true, b⟩]) = { p with state := .exit1Dr, dr := p.dr ++ (bs ++ [b]) } := by
  rw [run_append, run_bits_dr bs h, ← List.append_assoc]
  obtain ⟨state, ir, instruction, dr, events⟩ := p
  obtain rfl : state = .shiftDr := h
  rfl

/-- The instruction register takes as many bits as it has. -/
theorem run_bits_ir (bs : List Bool) (h : p.state = .shiftIr) (hle : bs.length ≤ p.ir.length) :
    p.run captured (bits bs) = { p with ir := p.ir.drop bs.length ++ bs } := by
  induction bs generalizing p with
  | nil => simp [bits]
  | cons b bs ih =>
    have hstep : p.step captured ⟨false, b⟩ = { p with ir := p.ir.tail ++ [b] } := by
      obtain ⟨state, ir, instruction, dr, events⟩ := p
      obtain rfl : state = .shiftIr := h
      rfl
    simp only [List.length_cons] at hle
    have htail : bs.length ≤ p.ir.tail.length := by
      rw [List.length_tail]
      omega
    have hlen : bs.length ≤ (p.ir.tail ++ [b]).length := by
      simp only [List.length_append]
      omega
    rw [bits, List.map_cons, run_cons, hstep, ← bits,
      ih (p := { p with ir := p.ir.tail ++ [b] }) h hlen]
    simp [List.drop_append_of_le_length htail]

/-- From reset to an instruction in its register. -/
theorem run_instruction (h : p.state = .reset) {bs : List Bool} {b : Bool}
    (hlen : bs.length + 1 = captured.length) :
    p.run captured (path [false, true, true, false, false] ++ (bits bs ++ [⟨true, b⟩]))
      = { p with state := .exit1Ir, ir := bs ++ [b] } := by
  have hpath : p.run captured (path [false, true, true, false, false])
      = { p with state := .shiftIr, ir := captured } := by
    obtain ⟨state, ir, instruction, dr, events⟩ := p
    obtain rfl : state = .reset := h
    rfl
  rw [run_append, run_append, hpath, run_bits_ir bs rfl (by show _ ≤ captured.length; omega)]
  have hone : (captured.drop bs.length).length = 1 := by
    rw [List.length_drop]
    omega
  obtain ⟨x, hx⟩ := List.length_eq_one_iff.mp hone
  show (({ p with state := .shiftIr, ir := captured.drop bs.length ++ bs } : Port)).run captured _ = _
  rw [hx]
  rfl

/-- From there into effect, and to rest. -/
theorem run_load (h : p.state = .exit1Ir) :
    p.run captured (path [true, false])
      = { p with state := .runIdle, instruction := some p.ir, events := p.events ++ [.load p.ir] } := by
  obtain ⟨state, ir, instruction, dr, events⟩ := p
  obtain rfl : state = .exit1Ir := h
  rfl

end

end Tap
