import ReplayFirmware.Osd.Usart
import ReplayFirmware.Osd.Scancodes

/-! One key out of three: the front button, the keyboard behind the core, and the serial port.

    A call looks at the button and at the core for a scancode first; only when they give no key it
    comes to the serial port, where a key may be a sequence of up to five bytes behind an ESC. To
    compare a sequence with those it knows it copies what has arrived into the buffer in which the
    scancodes of a key are put together. -/

namespace Osd

/-! ### A call -/

/-- The looks at the system time in a call. -/
inductive Clock where | button | flash | ps2 | flags | flagsCheck | esc

/-- What a call finds: the status it is given, the front button, the scancode of the core, and the
    system time. -/
structure Call where
  osd_enabled : Bool
  hotkey : UInt16
  menu_enabled : Bool
  button_on : Bool
  button : Bool
  newkey : Option UInt8
  time : Clock → UInt32

/-- What arrives at the serial port before each look a call takes at it; behind the last one it counts
    for the next call. -/
structure Arrivals where
  valid : List UInt8
  peek : List UInt8
  take : List UInt8
  last : List UInt8

/-- Nothing arrives. -/
def Arrivals.none : Arrivals := { valid := [], peek := [], take := [], last := [] }

/-- What goes to the core. -/
inductive Out where
  | sendKey (key : UInt8)
  | sendPS2 (keycode : UInt16)
  | enable (mode : UInt8)
  deriving DecidableEq

/-- The static variables of `OSD_GetKeyCode`. -/
structure Statics where
  button_delay : UInt32
  button_pressed : Bool
  flash_delay : UInt32
  ps2_delay : UInt32
  ps2_flags_delay : UInt32
  keys : Keys
  key_flags : UInt16
  old_key_code : UInt16
  esc_delay : UInt32
  meta_key : UInt16

/-- Their initial values. -/
def Statics.init : Statics :=
  { button_delay := 0, button_pressed := false, flash_delay := 0, ps2_delay := 0, ps2_flags_delay := 0
    keys := { keybuf := fun _ => 0, keypos := 0 }, key_flags := 0, old_key_code := 0, esc_delay := 0
    meta_key := 0 }

/-- `Timer_Check` at a time. -/
def timerCheck (offset systimer : UInt32) : Bool := offset - systimer > 0x80000000

/-! ### The front button and the scancodes -/

/-- The front button: the key it is, or `none` for a long press. -/
def frontButton (s : Statics) (c : Call) : Option (Statics × UInt16) :=
  if c.button && c.button_on then
    if !s.button_pressed then
      some ({ s with
        button_pressed := true, button_delay := c.time .button + 100
        flash_delay := c.time .flash + 1000 }, keyMenu)
    else if timerCheck s.flash_delay (c.time .flash) then none
    else some (s, 0)
  else if timerCheck s.button_delay (c.time .button) then some ({ s with button_pressed := false }, 0)
  else some (s, 0)

/-- No scancode is pending. -/
def Statics.clear (s : Statics) : Statics := { s with keys := { s.keys with keypos := 0 } }

/-- A scancode is put into the buffer; `none` when the buffer is full. -/
def bufferKey (s : Statics) (c : Call) : Option Statics :=
  if c.osd_enabled then
    match c.newkey with
    | some x =>
      if 8 ≤ s.keys.keypos then none
      else some { s with
        keys := { keybuf := Function.update s.keys.keybuf s.keys.keypos x, keypos := s.keys.keypos + 1 }
        ps2_delay := c.time .ps2 + 10 }
    | none => some (if s.keys.keypos ≠ 0 ∧ timerCheck s.ps2_delay (c.time .ps2) then s.clear else s)
  else some s.clear

/-- The scancodes become a key: the state, the key, and how many codes of a key were ignored. -/
def convertKeys (s : Statics) (c : Call) (key_break : UInt16) : Statics × UInt16 × ℕ :=
  match decode s.keys with
  | .modifier x =>
    ({ s.clear with
      ps2_flags_delay := c.time .flags + 500
      key_flags := if key_break ≠ 0 then s.key_flags &&& ~~~x else s.key_flags ||| x }, 0, 0)
  | .key x => (s.clear, key_break ||| s.key_flags ||| x, 0)
  | .pause => (s.clear, s.key_flags ||| keyPause, 0)
  | .silent => (s.clear, 0, 0)
  | .ignored => (s.clear, 0, s.keys.keypos)
  | .pending => (s, 0, 0)

/-- A key that comes again is marked, PAUSE apart. -/
def markRepeat (s : Statics) (key_code : UInt16) : Statics × UInt16 :=
  if key_code &&& keyMask ≠ 0 then
    if key_code = s.old_key_code ∧ key_code &&& keyMask ≠ keyPause then (s, key_code ||| kfRepeated)
    else ({ s with old_key_code := key_code }, key_code)
  else (s, key_code)

/-- The codes of an ignored key go back to the core. -/
def forward (keybuf : ℕ → UInt8) (key_break : UInt16) (ignored_keys : ℕ) : List Out :=
  let i := if keybuf 0 = 0xE0 then 1 else 0
  [.enable 0] ++ (if keybuf 0 = 0xE0 then [.sendKey 0xE0] else []) ++
    (if key_break ≠ 0 then [.sendKey 0xF0] else []) ++
    (List.range' i (ignored_keys - i)).map (fun j => .sendKey (keybuf j)) ++ [.enable 0x02]

/-- The key buffer is processed. -/
def processKeys (s : Statics) (c : Call) : Statics × UInt16 × List Out :=
  let t := takeBreak s.keys
  let s := { s with keys := t.1 }
  let r := convertKeys s c t.2
  let hot : Bool := r.2.1 = c.hotkey
  let key_code := if hot then t.2 ||| keyMenu else r.2.1
  let m := markRepeat r.1 key_code
  (m.1, m.2, (if hot then [.sendPS2 (kfReleased ||| r.2.1)] else []) ++
    if r.2.2 ≠ 0 ∧ c.menu_enabled then forward t.1.keybuf t.2 r.2.2 else [])

/-- The modifiers time out. -/
def flagsTimeout (s : Statics) (c : Call) : Statics :=
  if s.key_flags ≠ 0 ∧ timerCheck s.ps2_flags_delay (c.time .flagsCheck) then
    { s with key_flags := 0, old_key_code := 0 }
  else s

/-- The part of a call before the serial port: the key, 0 for none; `none` when the buffer of the
    scancodes runs over. -/
def ps2Key (s : Statics) (c : Call) : Option (Statics × UInt16 × List Out) :=
  match frontButton s c with
  | none => some (s, keyFlash, [])
  | some (s, key) =>
    match bufferKey s c with
    | none => none
    | some s =>
      let r := if s.keys.keypos ≠ 0 ∧ key = 0 then processKeys s c else (s, key, [])
      some (flagsTimeout r.1 c, r.2)

/-! ### The serial port -/

/-- The key of a character. -/
def charKey (key_code : UInt16) : UInt16 :=
  let key_code :=
    if 0x60 < key_code ∧ key_code < 0x7B then key_code &&& 0x5F
    else if 0x40 < key_code ∧ key_code < 0x5B then key_code ||| kfShift
    else if 0 < key_code ∧ key_code < 0x20 then
      if key_code = 0x1F then kfCtrl ||| 0x2F
      else if key_code ≠ keyBack ∧ key_code ≠ keyTab ∧ key_code ≠ keyEnter ∧ key_code ≠ keyEsc then
        kfCtrl ||| (key_code + 0x40)
      else key_code
    else key_code
  if key_code = 0x7F then keyBack else key_code

/-- `usart_esc_sequences`: what follows the ESC, and the key. -/
def escSequences : List (List UInt8 × UInt16) :=
  [([0x48], keyTab), ([0x5B, 0x5A], kfShift ||| keyTab),
   ([0x5B, 0x41], 0x105), ([0x5B, 0x42], 0x106), ([0x5B, 0x43], 0x108), ([0x5B, 0x44], 0x107),
   ([0x4F, 0x41], kfShift ||| 0x105), ([0x4F, 0x42], kfShift ||| 0x106),
   ([0x4F, 0x43], kfShift ||| 0x108), ([0x4F, 0x44], kfShift ||| 0x107),
   ([0x4F, 0x50], 0x201), ([0x4F, 0x51], 0x202), ([0x4F, 0x52], 0x203), ([0x4F, 0x53], 0x204),
   ([0x5B, 0x31, 0x7E], 0x101), ([0x5B, 0x32, 0x7E], 0x10A), ([0x5B, 0x33, 0x7E], 0x109),
   ([0x5B, 0x34, 0x7E], 0x104), ([0x5B, 0x35, 0x7E], 0x102), ([0x5B, 0x36, 0x7E], 0x103),
   ([0x5B, 0x31, 0x31, 0x7E], 0x201), ([0x5B, 0x31, 0x32, 0x7E], 0x202),
   ([0x5B, 0x31, 0x33, 0x7E], 0x203), ([0x5B, 0x31, 0x34, 0x7E], 0x204),
   ([0x5B, 0x31, 0x35, 0x7E], 0x205), ([0x5B, 0x31, 0x37, 0x7E], 0x206),
   ([0x5B, 0x31, 0x38, 0x7E], 0x207), ([0x5B, 0x31, 0x39, 0x7E], 0x208),
   ([0x5B, 0x32, 0x30, 0x7E], 0x209), ([0x5B, 0x32, 0x31, 0x7E], 0x20A),
   ([0x5B, 0x32, 0x33, 0x7E], 0x20B), ([0x5B, 0x32, 0x34, 0x7E], 0x20C)]

/-- The loop over the sequences: how many match, and the one when it is the only one. -/
def matchLoop (keybuf : ℕ → UInt8) (keybuf_size : ℕ) : List (List UInt8 × UInt16) → ℕ →
    Option (List UInt8 × UInt16) → ℕ × Option (List UInt8 × UInt16)
  | [], n_matches, mes => (n_matches, mes)
  | eks :: rest, n_matches, mes =>
    if keybuf_size - 1 < eks.1.length then (n_matches, mes)
    else if (List.range eks.1.length).map (fun i => keybuf (i + 1)) = eks.1 then
      if n_matches + 1 > 1 then (n_matches + 1, none)
      else matchLoop keybuf keybuf_size rest (n_matches + 1) (some eks)
    else matchLoop keybuf keybuf_size rest n_matches mes

/-- An ESC is next: a sequence, complete or not. -/
def escape (s : Statics) (u : Usart) (c : Call) (last : List UInt8) : Statics × Usart × UInt16 :=
  -- the copy goes over the scancodes
  let peeked := peekBuf u s.keys.keybuf 8
  let s := { s with keys := { s.keys with keybuf := peeked.2 } }
  let found := if peeked.1 > 1 then matchLoop peeked.2 peeked.1 escSequences 0 none else (0, none)
  match found.2 with
  | some mes =>
    ({ s with esc_delay := 0 }, (getBuf (receive u last) peeked.2 (mes.1.length + 1)).2, mes.2)
  | none =>
    let esc_delay := if found.1 ≠ 0 then 0 else s.esc_delay
    if esc_delay = 0 then ({ s with esc_delay := c.time .esc + 5 }, u, 0)
    else if timerCheck esc_delay (c.time .esc) then
      let u := (getc (receive u last)).2
      if peeked.1 = 2 then ({ s with esc_delay := 0, meta_key := kfAlt }, u, 0)
      else ({ s with esc_delay := 0 }, u, keyEsc)
    else ({ s with esc_delay := esc_delay }, u, 0)

/-- The key of the serial port, 0 for none. -/
def usartKey (s : Statics) (u : Usart) (c : Call) (a : Arrivals) : Statics × Usart × UInt16 :=
  let u := receive u a.valid
  if !getValid u then (s, u, 0)
  else
    let u := receive u a.peek
    if peekc u ≠ 0x1B then
      let g := getc (receive u a.take)
      ({ s with meta_key := 0 }, g.2, charKey g.1.toUInt16 ||| s.meta_key)
    else escape s (receive u a.take) c a.last

/-- A key of the serial port goes to the core while there is no menu. -/
def usartOuts (c : Call) (key_code : UInt16) : List Out :=
  if key_code ≠ 0 ∧ !c.menu_enabled then [.sendPS2 key_code, .sendPS2 (kfReleased ||| key_code)] else []

/-! ### The call as a whole -/

/-- What a call returns, and from which part of it. -/
structure Returned where
  key_code : UInt16
  ps2 : Bool
  outs : List Out
  deriving DecidableEq

/-- `OSD_GetKeyCode` -/
def getKeyCode (s : Statics × Usart) (i : Call × Arrivals) : Option ((Statics × Usart) × Returned) :=
  match ps2Key s.1 i.1 with
  | none => none
  | some (t, key_code, outs) =>
    if key_code ≠ 0 then some ((t, s.2), { key_code := key_code, ps2 := true, outs := outs })
    else
      let r := usartKey t s.2 i.1 i.2
      some ((r.1, r.2.1), { key_code := r.2.2, ps2 := false, outs := outs ++ usartOuts i.1 r.2.2 })

/-- The key code of the button or the keyboard a call returns. -/
def Returned.ps2Code (r : Returned) : Option UInt16 := if r.ps2 then some r.key_code else none

end Osd
