import ReplayFirmware.Config.Records
import Mathlib.Algebra.Order.Ring.Nat

/-! The directives of an INI file that build the menu: `TITLE`, `ITEM` and `OPTION` of the section
    MENU, and `ROM` of the section UPLOAD.

    A directive comes with its list of values. A value is the string that is read through its
    pointer, and the number of that string. What the other directives and the upload of a ROM answer
    is part of the directive. -/

namespace Config
open Ini

/-! ### The directives -/

/-- An entry of `ParseList`. -/
structure Value where
  strval : List UInt8
  intval : UInt32
deriving DecidableEq, Repr

/-- What the upload of a ROM does: it fails, or leaves these static bits. -/
inductive Upload where
  | failed
  | done (staticbits : UInt32)
deriving DecidableEq, Repr

inductive Directive where
  | title (vs : List Value)
  | item (vs : List Value)
  | option (vs : List Value)
  | rom (spi_fpga_enabled : Bool) (vs : List Value) (upload : Upload)
  /-- Any other line: whether it succeeds, and the configuration bits behind it. -/
  | other (fails : Bool) (config_s config_d : UInt32)
deriving DecidableEq, Repr

/-! ### Menu, item, option -/

/-- `_CFG_handle_MENU_TITLE`: a handler returns 0 when it succeeds. -/
def handleTitle (malloc : Malloc) (vs : List Value) (s : Status) : Option (UInt8 × Status) :=
  match vs with
  | [title] => ((allocMenu malloc title.strval s).bind (allocItem malloc)).map fun s => (0, s)
  | _ => some (1, s)

def isDynamic (v : List UInt8) : Bool :=
  stricmpEq v (chars "DYNAMIC") || stricmpEq v (chars "DYN") || stricmpEq v (chars "D")

def isStatic (v : List UInt8) : Bool :=
  stricmpEq v (chars "STATIC") || stricmpEq v (chars "STAT") || stricmpEq v (chars "S")

/-- A shift by a register takes its low eight bits. -/
def shiftLeft (v n : UInt32) : UInt32 :=
  if n.toNat % 256 < 32 then v <<< UInt32.ofNat (n.toNat % 256) else 0

/-- What `ITEM` stores in the item, and whether it goes on. -/
def MenuItem.configure (it : MenuItem) : List Value → MenuItem × UInt8
  | [v0, v1] =>
    ({ it with
        conf_dynamic := 1, item_name := strncpy it.item_name v0.strval maxItemString
        action_name := strncpy it.action_name v1.strval maxItemString, action_value := 0 }, 0)
  | [v0, v1, v2] =>
    let it := { it with
      conf_dynamic := 1, item_name := strncpy it.item_name v0.strval maxItemString
      conf_mask := v1.intval }
    if isDynamic v2.strval then (it, 0)
    else if isStatic v2.strval then ({ it with conf_dynamic := 0 }, 0)
    else
      ({ it with
          action_name := strncpy it.action_name v1.strval maxItemString
          action_value := v2.intval }, 0)
  | [v0, v1, v2, v3] =>
    let it := { it with
      conf_dynamic := 1, item_name := strncpy it.item_name v0.strval maxItemString
      conf_mask := shiftLeft v1.intval v2.intval }
    if isDynamic v3.strval then (it, 0)
    else if isStatic v3.strval then ({ it with conf_dynamic := 0 }, 0)
    else ({ it with conf_dynamic := 0 }, 1)
  | _ => (it, 1)

/-- `_CFG_handle_MENU_ITEM`: the item that comes with a new menu is taken first. -/
def handleItem (malloc : Malloc) (vs : List Value) (s : Status) : Option (UInt8 × Status) :=
  if 2 ≤ vs.length ∧ vs.length ≤ 4 then
    match s.menu_item_act with
    | none => none
    | some act =>
      (if (s.items act).item_name 0 ≠ 0 then allocItem malloc s else some s).bind fun s =>
        match s.menu_item_act with
        | none => none
        | some i =>
          let r := (s.items i).configure vs
          let s := s.setItem i r.1
          if r.2 ≠ 0 then some (1, s) else (allocOption malloc s).map fun s => (0, s)
  else some (1, s)

/-- The kind that the third value of an `OPTION` gives it. -/
inductive OptionKind where | flags | default | plain | bad
deriving DecidableEq, Repr

def optionKind : List Value → OptionKind
  | [_, _, v2] =>
    if stricmpEq v2.strval (chars "FLAGS") || stricmpEq v2.strval (chars "F") then .flags
    else if stricmpEq v2.strval (chars "DEFAULT") || stricmpEq v2.strval (chars "DEF")
        || stricmpEq v2.strval (chars "D") then .default
    else .bad
  | _ => .plain

/-- The end of `OPTION`, with the current item and option. -/
def finishOption (kind : OptionKind) (v0 v1 : Value) (i o : ℕ) (s : Status) : UInt8 × Status :=
  let s := if kind = .default then s.setItem i { s.items i with selected_option := some o } else s
  if (s.items i).conf_mask &&& v1.intval ≠ v1.intval ∧ kind ≠ .flags then (1, s)
  else
    let s :=
      if (s.items i).selected_option = none then
        s.setItem i { s.items i with selected_option := some o }
      else s
    let name := strncpy (s.options o).option_name v0.strval maxOptionString
    (0, s.setOption o { s.options o with option_name := name })

/-- `_CFG_handle_MENU_OPTION`: the option that comes with a new item is taken first. -/
def handleOption (malloc : Malloc) (vs : List Value) (s : Status) : Option (UInt8 × Status) :=
  match vs with
  | v0 :: v1 :: rest =>
    if rest.length ≤ 1 then
      match s.item_opt_act with
      | none => none
      | some act =>
        (if (s.options act).option_name 0 ≠ 0 then allocOption malloc s else some s).bind fun s =>
          match s.item_opt_act with
          | none => none
          | some o =>
            let s := s.setOption o { s.options o with conf_value := v1.intval }
            if optionKind vs = .bad then some (1, s)
            else
              match s.menu_item_act with
              | none => none
              | some i => some (finishOption (optionKind vs) v0 v1 i o s)
    else some (1, s)
  | _ => some (1, s)

/-! ### ROMs -/

def hexDigit (n : ℕ) : UInt8 := if n < 10 then UInt8.ofNat (0x30 + n) else UInt8.ofNat (0x37 + n)

def digits (base : ℕ) : ℕ → ℕ → List UInt8
  | 0, _ => []
  | fuel + 1, n =>
    if n < base then [hexDigit n] else digits base fuel (n / base) ++ [hexDigit (n % base)]

/-- `%8X` -/
def hex8 (n : UInt32) : List UInt8 :=
  let s := digits 16 8 n.toNat
  List.replicate (8 - s.length) 0x20 ++ s

/-- The size in bytes, kB, MB or GB. -/
def humanSize (size : UInt32) : List UInt8 :=
  let n := size.toNat
  if n < 2 ^ 10 then digits 10 10 n ++ chars "B"
  else if n < 2 ^ 20 then digits 10 10 (n >>> 10) ++ chars "kB"
  else if n < 2 ^ 30 then digits 10 10 (n >>> 20) ++ chars "MB"
  else digits 10 10 (n >>> 30) ++ chars "GB"

def romName (base size : UInt32) : List UInt8 :=
  if size = 0 then hex8 base else hex8 base ++ chars "/" ++ humanSize size

/-- The current menu is one of ROMs. -/
def Status.inRoms (s : Status) : Bool :=
  match s.menu_act with
  | none => false
  | some m => decide ((s.menus m).menu_title.Is (chars "ROMs"))

/-- The menu entry of a ROM, in a menu of its own; its file is its only option. -/
def addRom (malloc : Malloc) (filename : List UInt8) (size base : UInt32) (format : UInt8)
    (s : Status) : Option Status :=
  let entry := (if s.inRoms then some s else allocMenu malloc (chars "ROMs") s).bind
    (allocItem malloc)
  entry.bind fun s =>
    match s.menu_item_act with
    | none => none
    | some i =>
      let it := s.items i
      let s := s.setItem i { it with
        item_name := strcpy it.item_name (romName base size), conf_dynamic := format
        conf_mask := size, action_value := base, action_name := strcpy it.action_name (chars "rom") }
      (allocOption malloc s).bind fun s =>
        match s.item_opt_act with
        | none => none
        | some o =>
          let opt := s.options o
          let s := s.setOption o
            { opt with option_name := strlcpy opt.option_name filename maxOptionString }
          some (s.setItem i { s.items i with selected_option := (s.items i).option_list })

/-- The address of a ROM, behind the last one when none is given. -/
def romBase (last_rom_adr : UInt32) : List Value → UInt32
  | [] => last_rom_adr
  | v2 :: _ => v2.intval

def romFormat : List Value → UInt8
  | [_, v3] => v3.intval.toUInt8
  | _ => 0

/-- `_CFG_handle_UPLOAD_ROM` -/
def handleRom (malloc : Malloc) (spi_fpga_enabled : Bool) (vs : List Value) (upload : Upload)
    (s : Status) : Option (UInt8 × Status) :=
  if ¬ spi_fpga_enabled then some (1, s)
  else
    match vs with
    | v0 :: v1 :: rest =>
      if 2 < rest.length ∨ v0.strval.length = 0 then some (1, s)
      else
        let base := romBase s.last_rom_adr rest
        let s := { s with last_rom_adr := base + v1.intval }
        match upload with
        | .failed => some (1, s)
        | .done staticbits =>
          (addRom malloc v0.strval v1.intval base (romFormat rest)
            { s with config_s := staticbits }).map fun s => (0, s)
    | _ => some (1, s)

/-! ### Runs -/

/-- One line of the file. -/
def handle (malloc : Malloc) (s : Status) : Directive → Option (UInt8 × Status)
  | .title vs => handleTitle malloc vs s
  | .item vs => handleItem malloc vs s
  | .option vs => handleOption malloc vs s
  | .rom spi vs upload => handleRom malloc spi vs upload s
  | .other fails config_s config_d =>
    some (if fails then 1 else 0, { s with config_s := config_s, config_d := config_d })

/-- The lines of a file in their order, up to the first that fails; the lines that are left come
    with the result. -/
def run (malloc : Malloc) : List Directive → Status → Option (List Directive × Status)
  | [], s => some ([], s)
  | d :: ds, s =>
    match handle malloc s d with
    | none => none
    | some (r, s) => if r = 0 then run malloc ds s else some (d :: ds, s)

/-- The status that `CFG_init` begins with: `CFG_free_menu` has left no menu. `blocks` were handed out
    before. -/
def start (blocks : ℕ) (records : Status) : Status :=
  { records with
    menu_top := none, menu_act := none, menu_item_act := none, item_opt_act := none
    last_rom_adr := 0, blocks := blocks }

end Config
