import ReplayFirmware.Libc.Ctype

/-! The keywords of an INI file and the tokens they stand for. -/

namespace Ini
open Libc

/-- `ini_symbols_t` -/
inductive Symbol where
  | start | unknown | setup | info | osdInit | osdTimeout | bin | clock | phase | coder | vfilter
  | enTwi | enSpi | spiClk | button | hotkey | keybMode | clockmon | video | config | cstore | upload
  | files | verify | rom | chaMount | chbMount | chaCfg | chbCfg | launch | menu | data | title | item
  | option | targets | target
deriving DecidableEq, Repr

/-- `ini_symtab_t` -/
structure Entry where
  keyword : List UInt8
  token : Symbol
  isSection : Bool
deriving DecidableEq, Repr

def Entry.of (keyword : String) (token : Symbol) (isSection : Bool) : Entry :=
  ⟨keyword.toList.map fun c => c.toNat.toUInt8, token, isSection⟩

/-- `symtab`, up to the entry that no search goes past. -/
def symtab : List Entry :=
  [.of "SETUP" .setup true, .of "INFO" .info false, .of "OSD_INIT" .osdInit false,
    .of "OSD_TIMEOUT" .osdTimeout false, .of "BIN" .bin false, .of "CLOCK" .clock false,
    .of "PHASE" .phase false, .of "CODER" .coder false, .of "VFILTER" .vfilter false,
    .of "EN_TWI" .enTwi false, .of "EN_SPI" .enSpi false, .of "SPI_CLK" .spiClk false,
    .of "BUTTON" .button false, .of "HOTKEY" .hotkey false, .of "KEYBOARD" .keybMode false,
    .of "CLOCKMON" .clockmon false, .of "VIDEO" .video false, .of "CONFIG" .config false,
    .of "CSTORE" .cstore false, .of "UPLOAD" .upload true, .of "FILES" .files true,
    .of "VERIFY" .verify false, .of "ROM" .rom false, .of "CHA_MOUNT" .chaMount false,
    .of "CHB_MOUNT" .chbMount false, .of "CHA_CFG" .chaCfg false, .of "CHB_CFG" .chbCfg false,
    .of "DATA" .data false, .of "LAUNCH" .launch false, .of "MENU" .menu true,
    .of "TITLE" .title false, .of "ITEM" .item false, .of "OPTION" .option false,
    .of "TARGETS" .targets true, .of "TARGET" .target false, .of "" .unknown false]

/-- `stricmp(a, b) == 0` -/
def stricmpEq (a b : List UInt8) : Bool := a.map tolower = b.map tolower

/-- The search of `symtab`: the first entry with the keyword, or the entry of the unknown token. -/
def lookup (keyword : List UInt8) : Entry :=
  (symtab.find? fun e => stricmpEq e.keyword keyword).getD (.of "" .unknown false)

end Ini
