import ReplayFirmware.Config.Directives
import ReplayFirmware.Config.IniTargets
import ReplayFirmware.Msg.Info

/-! The handlers of the INI file, each for the lines with its name.

    A handler is handed the value of a line, and has it parsed as a list of entries, or compares it as a
    whole. It fails when it uses a string that is not there, or reads an entry that was not filled, and
    when it follows another null pointer, leaves the value, or divides by zero. -/

namespace Config.Handlers
open Ini
open Ini.InPlace (ValueString)

/-! ### What can be missing -/

inductive Fault where
  /-- A null pointer for a string, or an entry that `ParseList` has not filled. -/
  | missing
  /-- `ParseList` itself leaves the value or its buffer. -/
  | stray
  /-- A null pointer for a record: there is none, or no memory for it. -/
  | null
  /-- A format that takes an argument, and does not come out. -/
  | format
  | division
deriving DecidableEq

abbrev Result := Except Fault

/-- A pointer to a record, followed. -/
def follow {α : Type} : Option α → Result α
  | some a => .ok a
  | none => .error .null

/-- `valueList[i].strval` -/
def pointer (vs : List ValueEntry) (i : ℕ) : Result (Option (List UInt8)) :=
  match vs[i]? with
  | some e => .ok e.strval
  | none => .error .missing

/-- The string of an entry. -/
def strval (vs : List ValueEntry) (i : ℕ) : Option (List UInt8) := (vs[i]?).bind ValueEntry.strval

/-- `valueList[i].strval`, where the string is used. -/
def text (vs : List ValueEntry) (i : ℕ) : Result (List UInt8) :=
  match strval vs i with
  | some t => .ok t
  | none => .error .missing

/-- `valueList[i].intval` -/
def num (vs : List ValueEntry) (i : ℕ) : Result UInt32 :=
  match vs[i]? with
  | some e => .ok e.intval
  | none => .error .missing

/-- The numbers of `k` entries from `i` on. -/
def nums (vs : List ValueEntry) : ℕ → ℕ → Result (List UInt32)
  | _, 0 => .ok []
  | i, k + 1 => do
    let n ← num vs i
    let ns ← nums vs (i + 1) k
    return n :: ns

/-- What is read in one case only. -/
def ifSo {α : Type} (c : Prop) [Decidable c] (x : Result α) (d : α) : Result α :=
  if c then x else .ok d

/-! ### The status -/

/-- `clockconfig_t` -/
structure ClockConfig where
  pll1_m : UInt16
  pll1_n : UInt16
  pll2_m : UInt16
  pll2_n : UInt16
  pll3_m : UInt16
  pll3_n : UInt16
  p_sel : List UInt8
  p_div : List UInt8
  y_sel : List UInt8

def clockConfigPal : ClockConfig :=
  ⟨481, 4044, 46, 423, 225, 2048, [1, 2, 4, 0, 0, 0], [2, 14, 5, 1, 1, 1], [1, 1, 1, 0, 1, 0]⟩

def clockConfigNtsc : ClockConfig :=
  ⟨33, 280, 27, 133, 225, 2048, [1, 1, 4, 0, 0, 0], [2, 16, 5, 1, 1, 1], [1, 1, 1, 0, 1, 0]⟩

def clockConfigHd74 : ClockConfig :=
  ⟨33, 280, 2, 11, 225, 2048, [1, 0, 4, 0, 2, 0], [2, 0, 5, 1, 2, 1], [1, 0, 1, 0, 1, 0]⟩

/-- The 24 numbers of a clock, each cut to its field. -/
def ClockConfig.ofList (ns : List UInt32) : ClockConfig where
  pll1_m := (ns.getD 0 0).toUInt16
  pll1_n := (ns.getD 1 0).toUInt16
  pll2_m := (ns.getD 2 0).toUInt16
  pll2_n := (ns.getD 3 0).toUInt16
  pll3_m := (ns.getD 4 0).toUInt16
  pll3_n := (ns.getD 5 0).toUInt16
  p_sel := ((ns.drop 6).take 6).map UInt32.toUInt8
  p_div := ((ns.drop 12).take 6).map UInt32.toUInt8
  y_sel := ((ns.drop 18).take 6).map UInt32.toUInt8

/-- `coder_t` -/
inductive Coder where | disable | pal | ntsc | palNotrap | ntscNotrap

/-- `button_t` -/
inductive Button where | off | menu | reset

/-- `vidbuf_t` -/
structure VidBuf where
  stc : UInt8
  lpf : UInt8
  mode : UInt8

/-- `fileio_mode_t` -/
inductive FileIoMode where | removable | fixed

/-- What is set for a channel: the mode, and the extensions with an empty one behind them. -/
structure Channel where
  mode : FileIoMode
  ext : Option (List (List UInt8))

/-- The part of `status_t` that the handlers set up, without the menu and the messages. -/
structure Setup where
  coder_fitted : Bool
  ini_dir : List UInt8
  bin_file : Chars
  twi_enabled : UInt8
  spi_osd_enabled : UInt8
  spi_fpga_enabled : UInt8
  verify_dl : UInt8
  dram_phase : UInt8
  clockmon : Bool
  fileio_cha : Channel
  fileio_chb : Channel
  button : Button
  hotkey : UInt16
  hotkey_string : Chars
  osd_init : Bool
  osd_timeout : UInt8
  clock_cfg : ClockConfig
  filter_cfg : VidBuf
  coder_cfg : Coder
  ini_targets : List (IniTarget (List UInt8))

/-- What a handler has others do. -/
inductive Request where
  | configureCh7301 (regs : List UInt8)
  | spiSetFreqDivide (n : UInt32)
  | configSendUserD (bits : UInt32)
  | configSendUserS (bits : UInt32)
  | execMem (start : UInt32) (length : UInt16) (checksum : UInt32)
  | bufToMem (buf : List UInt8) (base size : UInt32)
  | memToBuf (base size : UInt32)
  | insert (ch : ℕ) (unit : UInt8) (path : List UInt8)

structure State where
  setup : Setup
  menu : Status
  msgs : Msg.Status
  requests : List Request

/-- What a handler finds: the buffer of `ParseList`, the memory that `malloc` has for a menu record and
    for anything else, and what it is answered. -/
structure Env where
  buffer : ValueBuffer
  malloc : Malloc
  memory : Bool
  /-- The arguments of a message that is passed none. -/
  args : Msg.Args
  spiFreq : UInt32
  keyCode : List UInt8 → UInt16
  keyName : UInt16 → List UInt8
  /-- The answers of `FileIO_MCh_BufToMem`, one call after the other. -/
  bufToMem : ℕ → UInt8
  memToBuf : List UInt8
  canOpen : List UInt8 → Bool
  uploadRom : (fullname : List UInt8) → (base size : UInt32) → (verify format : UInt8) →
    (swizzle : Option (List UInt8)) → (staticbits : UInt32) → Upload

/-- `ParseList` with room for `n` entries. -/
def parseList (env : Env) (v : ValueString) (n : ℕ) : Result (List ValueEntry) :=
  match valueList v n env.buffer with
  | some vs => .ok vs
  | none => .error .stray

def State.warning (st : State) (s : List UInt8) : State :=
  { st with msgs := Msg.toOsd s 0x57 st.msgs }

def State.info (st : State) (s : List UInt8) : State :=
  { st with msgs := Msg.toOsd s 0x49 st.msgs }

def State.request (st : State) (r : Request) : State := { st with requests := st.requests ++ [r] }

/-- A name of the source, compared without regard to case. -/
def isMatch (value : List UInt8) (name : String) : Bool := stricmpEq value (chars name)

def decimal (n : ℕ) : List UInt8 := digits 10 10 n

variable (env : Env) (v : ValueString) (st : State)

/-! ### `SETUP` -/

def sizeofBinFile : ℕ := 86

def sizeofHotkeyString : ℕ := 32

/-- `_CFG_handle_SETUP_BIN` -/
def handleSetupBin : Result (UInt8 × State) :=
  let bin_file := strncpy st.setup.bin_file v.chars sizeofBinFile
  .ok (0, { st with setup := { st.setup with bin_file := bin_file } })

/-- `_CFG_handle_SETUP_CLOCK` -/
def handleSetupClock : Result (UInt8 × State) :=
  let set (c : ClockConfig) : UInt8 × State :=
    (0, { st with setup := { st.setup with clock_cfg := c } })
  if isMatch v.chars "PAL" then .ok (set clockConfigPal)
  else if isMatch v.chars "NTSC" then .ok (set clockConfigNtsc)
  else if isMatch v.chars "HD74" then .ok (set clockConfigHd74)
  else do
    let vs ← parseList env v 32
    if vs.length = 24 then
      let ns ← nums vs 0 24
      return set (.ofList ns)
    else
      let s := chars "clock config invalid: " ++ decimal vs.length ++ chars " entries"
      return (1, st.warning s)

def coderOf (value : List UInt8) : Option Coder :=
  if isMatch value "DISABLE" then some .disable
  else if isMatch value "PAL" then some .pal
  else if isMatch value "NTSC" then some .ntsc
  else if isMatch value "PAL_NOTRAP" then some .palNotrap
  else if isMatch value "NTSC_NOTRAP" then some .ntscNotrap
  else none

/-- `_CFG_handle_SETUP_CODER` -/
def handleSetupCoder : Result (UInt8 × State) :=
  match coderOf v.chars with
  | none => .ok (1, st.warning (chars "coder config invalid!"))
  | some c =>
    if st.setup.coder_fitted then .ok (0, { st with setup := { st.setup with coder_cfg := c } })
    else .ok (0, st)

/-- `_CFG_handle_SETUP_VFILTER` -/
def handleSetupVfilter : Result (UInt8 × State) := do
  let vs ← parseList env v 8
  if vs.length = 3 then
    let filter_cfg : VidBuf :=
      ⟨(← num vs 0).toUInt8, (← num vs 1).toUInt8, (← num vs 2).toUInt8⟩
    return (0, { st with setup := { st.setup with filter_cfg := filter_cfg } })
  else return (1, st.warning (chars "VFILTER config invalid"))

/-- `_CFG_handle_SETUP_PHASE` -/
def handleSetupPhase : Result (UInt8 × State) := do
  let vs ← parseList env v 8
  if vs.length = 1 then
    let dram_phase := (← num vs 0).toUInt8
    return (0, { st with setup := { st.setup with dram_phase := dram_phase } })
  else return (1, st.warning (chars "Invalid DRAM phase config"))

/-- `_CFG_handle_SETUP_EN_TWI` -/
def handleSetupEnTwi : Result (UInt8 × State) := do
  let vs ← parseList env v 8
  if vs.length = 1 then
    let twi_enabled := (← num vs 0).toUInt8
    return (0, { st with setup := { st.setup with twi_enabled := twi_enabled } })
  else return (1, st)

/-- `_CFG_handle_SETUP_EN_SPI` -/
def handleSetupEnSpi : Result (UInt8 × State) := do
  let vs ← parseList env v 8
  if vs.length = 2 then
    let spi_fpga_enabled := (← num vs 0).toUInt8
    let spi_osd_enabled := (← num vs 1).toUInt8
    return (0, { st with setup := { st.setup with
      spi_fpga_enabled := spi_fpga_enabled, spi_osd_enabled := spi_osd_enabled } })
  else return (1, st)

/-- `_CFG_handle_SETUP_SPI_CLK`: the clock is only made slower. -/
def handleSetupSpiClk : Result (UInt8 × State) := do
  let vs ← parseList env v 8
  if vs.length = 1 then
    let n ← num vs 0
    if n = 0 then .error .division
    else
      let spiFreq := UInt32.ofInt (((48054857 : ℤ).tdiv n.toInt32.toInt).tdiv 1000000)
      if spiFreq < env.spiFreq then return (0, st.request (.spiSetFreqDivide n))
      else return (0, st)
  else return (1, st)

/-- `_CFG_handle_SETUP_BUTTON` -/
def handleSetupButton : Result (UInt8 × State) :=
  let set (b : Button) : UInt8 × State := (0, { st with setup := { st.setup with button := b } })
  if isMatch v.chars "OFF" then .ok (set .off)
  else if isMatch v.chars "RESET" then .ok (set .reset)
  else if isMatch v.chars "MENU" then .ok (set .menu)
  else .ok (1, st)

/-- `_CFG_handle_SETUP_HOTKEY` -/
def handleSetupHotkey : Result (UInt8 × State) :=
  let keycode := env.keyCode v.chars
  if keycode ≠ 0 then
    let hotkey_string :=
      strlcpy st.setup.hotkey_string (env.keyName keycode) sizeofHotkeyString
    .ok (0, { st with setup := { st.setup with hotkey := keycode, hotkey_string := hotkey_string } })
  else .ok (1, st)

/-- `_CFG_handle_SETUP_CLOCKMON` -/
def handleSetupClockmon : Result (UInt8 × State) :=
  let set (b : Bool) : State := { st with setup := { st.setup with clockmon := b } }
  if isMatch v.chars "ENA" || isMatch v.chars "ENABLE" then
    .ok (0, (set true).info (chars "ClockMonitor Enabled"))
  else if isMatch v.chars "DIS" || isMatch v.chars "DISABLE" then .ok (0, set false)
  else .ok (1, st)

/-- `_CFG_handle_SETUP_OSD_INIT`; the warning speaks of another line. -/
def handleSetupOsdInit : Result (UInt8 × State) :=
  let set (b : Bool) : UInt8 × State := (0, { st with setup := { st.setup with osd_init := b } })
  if isMatch v.chars "OFF" then .ok (set false)
  else if isMatch v.chars "ON" then .ok (set true)
  else .ok (1, st.warning (chars "CLOCKMON config invalid"))

/-- `_CFG_handle_SETUP_OSD_TIMEOUT`, which always succeeds. -/
def handleSetupOsdTimeout : Result (UInt8 × State) := do
  let vs ← parseList env v 1
  if vs.length = 1 then
    let n ← num vs 0
    if 255 < n.toNat then return (0, st.warning (chars "osd_timeout value of of range"))
    else return (0, { st with setup := { st.setup with osd_timeout := n.toUInt8 } })
  else return (0, st.warning (chars "invalid osd_timeout config"))

/-- `_CFG_handle_SETUP_VIDEO` -/
def handleSetupVideo : Result (UInt8 × State) :=
  if st.setup.twi_enabled ≠ 0 then do
    let vs ← parseList env v 32
    if vs.length = 16 then
      let ns ← nums vs 0 16
      return (0, st.request (.configureCh7301 (ns.map UInt32.toUInt8)))
    else return (1, st.warning (chars "VIDEO config invalid"))
  else .ok (1, st.warning (chars "VIDEO config but TWI disabled"))

/-- `_CFG_handle_SETUP_CONFIG` -/
def handleSetupConfig : Result (UInt8 × State) :=
  if st.setup.spi_fpga_enabled ≠ 0 then do
    let vs ← parseList env v 8
    if vs.length = 2 then
      let config_s ← num vs 0
      let config_d ← num vs 1
      return (0, { st with menu := { st.menu with config_s := config_s, config_d := config_d } })
    else return (1, st.warning (chars "FPGA config: invalid"))
  else .ok (1, st.warning (chars "FPGA config: SPI disabled"))

/-- `_CFG_handle_SETUP_INFO` -/
def handleSetupInfo : Result (UInt8 × State) := do
  let vs ← parseList env v 8
  if vs.length = 1 then
    let fmt ← text vs 0
    match Msg.output env.args 0x49 (some fmt) st.msgs with
    | none => .error .format
    | some msgs => return (0, { st with msgs := msgs })
  else return (0, st)

/-! ### `TARGETS` -/

/-- `_CFG_handle_TARGETS_TARGET`: the strings are not used. -/
def handleTargetsTarget : Result (UInt8 × State) := do
  let vs ← parseList env v 3
  if vs.length = 2 ∨ vs.length = 3 then
    if env.memory then
      let name ← pointer vs 0
      let dir ← ifSo (vs.length = 3) (pointer vs 1) none
      let file ← pointer vs (if vs.length = 2 then 1 else 2)
      let ini_targets := ⟨name, dir, file⟩ :: st.setup.ini_targets
      return (0, { st with setup := { st.setup with ini_targets := ini_targets } })
    else .error .null
  else return (1, st.warning (chars "Invalid target config"))

/-! ### `MENU` -/

/-- `_CFG_handle_MENU_TITLE`: the menu is there before the title is read. -/
def handleMenuTitle : Result (UInt8 × State) := do
  let vs ← parseList env v 8
  if vs.length = 1 then
    let _ ← follow (allocMenu env.malloc [] st.menu)
    let title ← text vs 0
    let menu ← follow ((allocMenu env.malloc title st.menu).bind (allocItem env.malloc))
    return (0, { st with menu := menu })
  else return (1, st)

/-- What `ITEM` stores in the item, and whether it goes on. -/
def configure (it : MenuItem) (vs : List ValueEntry) : Result (MenuItem × UInt8) := do
  let item_name := strncpy it.item_name (← text vs 0) maxItemString
  let it := { it with conf_dynamic := 1, item_name := item_name }
  if vs.length = 2 then
    let action_name := strncpy it.action_name (← text vs 1) maxItemString
    return ({ it with action_name := action_name, action_value := 0 }, 0)
  else if vs.length = 3 then
    let it := { it with conf_mask := ← num vs 1 }
    let kind ← text vs 2
    if isDynamic kind then return (it, 0)
    else if isStatic kind then return ({ it with conf_dynamic := 0 }, 0)
    else
      let action_name := strncpy it.action_name (← text vs 1) maxItemString
      let action_value ← num vs 2
      return ({ it with action_name := action_name, action_value := action_value }, 0)
  else
    let it := { it with conf_mask := shiftLeft (← num vs 1) (← num vs 2) }
    let kind ← text vs 3
    if isDynamic kind then return (it, 0)
    else if isStatic kind then return ({ it with conf_dynamic := 0 }, 0)
    else return ({ it with conf_dynamic := 0 }, 1)

/-- `_CFG_handle_MENU_ITEM` -/
def handleMenuItem : Result (UInt8 × State) := do
  let vs ← parseList env v 8
  if 2 ≤ vs.length ∧ vs.length ≤ 4 then
    let act ← follow st.menu.menu_item_act
    let menu ← follow
      (if (st.menu.items act).item_name 0 ≠ 0 then allocItem env.malloc st.menu else some st.menu)
    let i ← follow menu.menu_item_act
    let r ← configure (menu.items i) vs
    let menu := menu.setItem i r.1
    if r.2 ≠ 0 then
      let st := { st with menu := menu }
      return (1, st.warning (chars "Menu items must be static or dynamic"))
    else
      let menu ← follow (allocOption env.malloc menu)
      return (0, { st with menu := menu })
  else return (1, st)

/-- The kind that the third entry of an `OPTION` gives it. -/
def kindOf (t : List UInt8) : OptionKind :=
  if isMatch t "FLAGS" || isMatch t "F" then .flags
  else if isMatch t "DEFAULT" || isMatch t "DEF" || isMatch t "D" then .default
  else .bad

/-- `_CFG_handle_MENU_OPTION`: the name is read when nothing speaks against the option. -/
def handleMenuOption : Result (UInt8 × State) := do
  let vs ← parseList env v 8
  if vs.length = 2 ∨ vs.length = 3 then
    let act ← follow st.menu.item_opt_act
    let menu ← follow
      (if (st.menu.options act).option_name 0 ≠ 0 then allocOption env.malloc st.menu
        else some st.menu)
    let o ← follow menu.item_opt_act
    let value ← num vs 1
    let menu := menu.setOption o { menu.options o with conf_value := value }
    let kind ← ifSo (vs.length = 3) ((text vs 2).map kindOf) .plain
    if kind = .bad then
      let st := { st with menu := menu }
      return (1, st.warning (chars "bad option type - use 'default' or none"))
    else
      let i ← follow menu.menu_item_act
      if (menu.items i).conf_mask &&& value ≠ value ∧ kind ≠ .flags then
        let menu := (finishOption kind ⟨[], 0⟩ ⟨[], value⟩ i o menu).2
        let st := { st with menu := menu }
        return (1, st.warning (chars "item mask does not fit to value"))
      else
        let name ← text vs 0
        let r := finishOption kind ⟨name, 0⟩ ⟨[], value⟩ i o menu
        return (r.1, { st with menu := r.2 })
  else return (1, st)

/-! ### `UPLOAD` -/

/-- `_CFG_handle_UPLOAD_VERIFY` -/
def handleUploadVerify : Result (UInt8 × State) := do
  let vs ← parseList env v 8
  if vs.length = 1 then
    let verify_dl := (← num vs 0).toUInt8
    return (0, { st with setup := { st.setup with verify_dl := verify_dl } })
  else return (0, st)

/-- `valueList[entries - 2]`: a single entry has none in front of it. -/
def secondLast (vs : List ValueEntry) : Result UInt32 :=
  if 2 ≤ vs.length then num vs (vs.length - 2) else .error .missing

/-- `_CFG_handle_UPLOAD_DATA`: the bytes, the address, and the number of the bytes. -/
def handleUploadData : Result (UInt8 × State) :=
  if st.setup.spi_fpga_enabled = 0 then
    .ok (1, st.warning (chars "UPLOAD DATA: SPI disabled"))
  else do
    let vs ← parseList env v 32
    if vs.length ≤ 18 then
      let size ← num vs (vs.length - 1)
      if (vs.length : ℤ) - 2 = size.toInt32.toInt then
        let buf := (← nums vs 0 (vs.length - 2)).map UInt32.toUInt8
        let base ← secondLast vs
        let st := st.request (.bufToMem buf base size)
        if env.bufToMem 0 ≠ 0 then
          return (1, st.warning (chars "DATA upload to FPGA failed"))
        else if st.setup.verify_dl ≠ 0 then
          let st := st.request (.memToBuf base size)
          if env.memToBuf.take buf.length = buf then return (0, st)
          else return (1, st.warning (chars "DATA verification failed"))
        else return (env.bufToMem 1, st.request (.bufToMem buf base size))
      else return (1, st)
    else return (1, st)

/-- `_CFG_handle_UPLOAD_LAUNCH` -/
def handleUploadLaunch : Result (UInt8 × State) := do
  let vs ← parseList env v 8
  let st := (st.request (.configSendUserD st.menu.config_d)).request
    (.configSendUserS st.menu.config_s)
  if vs.length = 3 then
    let start ← num vs 0
    let length ← num vs 1
    let checksum ← num vs 2
    return (0, st.request (.execMem start length.toUInt16 checksum))
  else return (1, st)

/-- `pathcat` -/
def pathcat (path1 path2 : List UInt8) : List UInt8 :=
  if path2.head? = some 0x2F ∨ path2.head? = some 0x5C then path2
  else if path1 = [] ∨ path1.getLast? = some 0x2F ∨ path1.getLast? = some 0x5C then path1 ++ path2
  else path1 ++ 0x5C :: path2

/-- `strpbrk(filename, "?<>") == NULL` -/
def nameValid (filename : List UInt8) : Bool := filename.all fun c => c ≠ 0x3F ∧ c ≠ 0x3C ∧ c ≠ 0x3E

/-- `_CFG_handle_UPLOAD_ROM`: a file that is not there is no failure. -/
def handleUploadRom : Result (UInt8 × State) :=
  if st.setup.spi_fpga_enabled = 0 then
    .ok (1, st.warning (chars "ROM upload, but SPI disabled"))
  else do
    let vs ← parseList env v 8
    let filename ← text vs 0
    if vs.length < 2 ∨ 4 < vs.length ∨ filename.length = 0 then
      return (1, st.warning
        (chars "invalid ROM config: entries=" ++ decimal vs.length ++ chars " str0: " ++ filename))
    else
      let fullname := pathcat st.setup.ini_dir filename
      let size ← num vs 1
      let base ← ifSo (2 < vs.length) (num vs 2) st.menu.last_rom_adr
      let format ← ifSo (3 < vs.length) ((num vs 3).map UInt32.toUInt8) 0
      let swizzle ← ifSo (3 < vs.length) (pointer vs 3) none
      let st := { st with menu := { st.menu with last_rom_adr := base + size } }
      let file_exists := nameValid filename && env.canOpen fullname
      let upload :=
        if file_exists then
          env.uploadRom fullname base size st.setup.verify_dl format swizzle st.menu.config_s
        else .done st.menu.config_s
      match upload with
      | .failed => return (1, st.warning (chars "ROM upload to FPGA failed"))
      | .done staticbits =>
        let st := if nameValid filename && !file_exists then
          st.warning (chars "Could not open " ++ filename) else st
        let st := { st with menu := { st.menu with config_s := staticbits } }
        let st := st.request (.configSendUserS staticbits)
        let menu ← follow (addRom env.malloc filename size base format st.menu)
        return (0, { st with menu := menu })

/-! ### `FILES` -/

/-- `_CFG_handle_FILES_CHA_MOUNT` and `_CFG_handle_FILES_CHB_MOUNT`: an image for one of four units. -/
def handleFilesMount (ch : ℕ) : Result (UInt8 × State) := do
  let vs ← parseList env v 2
  if vs.length = 1 ∨ vs.length = 2 then
    let unit ← ifSo (vs.length = 2) ((num vs 1).map UInt32.toUInt8) 0
    if unit < 4 then
      let filename ← text vs 0
      if filename.length ≠ 0 then
        return (0, st.request (.insert ch unit (pathcat st.setup.ini_dir filename)))
      else return (0, st)
    else return (0, st)
  else return (0, st)

/-- `k` extensions from entry `i` on, each cut to three characters, in the memory for them. -/
def extensions (memory : Bool) (vs : List ValueEntry) : ℕ → ℕ → Result (List (List UInt8))
  | _, 0 => .ok []
  | i, k + 1 => do
    let t ← text vs i
    if memory then
      let ts ← extensions memory vs (i + 1) k
      return t.take 3 :: ts
    else .error .null

def modeOf (t : List UInt8) : Option FileIoMode :=
  if isMatch t "REMOVABLE" then some .removable
  else if isMatch t "FIXED" then some .fixed
  else none

/-- What `CHA_CFG` and `CHB_CFG` do with their channel; `bad` is said of a mode that is unknown. -/
def configureChannel (bad : List UInt8) (get : Setup → Channel) (set : Setup → Channel → Setup) :
    Result (UInt8 × State) := do
  let vs ← parseList env v 5
  let mode ← ifSo (0 < vs.length) ((text vs 0).map modeOf) (some (get st.setup).mode)
  match mode with
  | none => return (1, st.warning bad)
  | some mode =>
    let ext ← ifSo (1 < vs.length)
      ((extensions env.memory vs 1 (vs.length - 1)).map fun ts => some (ts ++ [[]])) none
    return (0, { st with setup := set st.setup ⟨mode, ext⟩ })

/-- `_CFG_handle_FILES_CHA_CFG` -/
def handleFilesChaCfg : Result (UInt8 × State) :=
  configureChannel env v st (chars "ChA bad drive type - use 'removable' or fixed")
    Setup.fileio_cha fun s c => { s with fileio_cha := c }

/-- `_CFG_handle_FILES_CHB_CFG` -/
def handleFilesChbCfg : Result (UInt8 × State) :=
  configureChannel env v st (chars "ChB bad drive type - use 'removable' or fixed")
    Setup.fileio_chb fun s c => { s with fileio_chb := c }

/-! ### Lines -/

/-- The handlers, by their sections and names. -/
inductive Handler where
  | setupBin | setupClock | setupCoder | setupPhase | setupVfilter | setupEnTwi | setupEnSpi
  | setupSpiClk | setupButton | setupHotkey | setupClockmon | setupOsdInit | setupOsdTimeout
  | setupVideo | setupConfig | setupInfo | targetsTarget | menuTitle | menuItem | menuOption
  | uploadVerify | uploadData | uploadLaunch | uploadRom | filesChaMount | filesChbMount
  | filesChaCfg | filesChbCfg
deriving DecidableEq

def Handler.run : Handler → Result (UInt8 × State)
  | setupBin => handleSetupBin v st
  | setupClock => handleSetupClock env v st
  | setupCoder => handleSetupCoder v st
  | setupPhase => handleSetupPhase env v st
  | setupVfilter => handleSetupVfilter env v st
  | setupEnTwi => handleSetupEnTwi env v st
  | setupEnSpi => handleSetupEnSpi env v st
  | setupSpiClk => handleSetupSpiClk env v st
  | setupButton => handleSetupButton v st
  | setupHotkey => handleSetupHotkey env v st
  | setupClockmon => handleSetupClockmon v st
  | setupOsdInit => handleSetupOsdInit v st
  | setupOsdTimeout => handleSetupOsdTimeout env v st
  | setupVideo => handleSetupVideo env v st
  | setupConfig => handleSetupConfig env v st
  | setupInfo => handleSetupInfo env v st
  | targetsTarget => handleTargetsTarget env v st
  | menuTitle => handleMenuTitle env v st
  | menuItem => handleMenuItem env v st
  | menuOption => handleMenuOption env v st
  | uploadVerify => handleUploadVerify env v st
  | uploadData => handleUploadData env v st
  | uploadLaunch => handleUploadLaunch env v st
  | uploadRom => handleUploadRom env v st
  | filesChaMount => handleFilesMount env v st 0
  | filesChbMount => handleFilesMount env v st 1
  | filesChaCfg => handleFilesChaCfg env v st
  | filesChbCfg => handleFilesChbCfg env v st

/-- The two readings of an INI file: before the core is loaded, and behind it, for an embedded core or
    another. -/
inductive Pass where
  | pre
  | post (embedded : Bool)

/-- The handler of a line, if it has one in this reading. -/
def handlerOf : Pass → Symbol → Symbol → Option Handler
  | .pre, .setup, name =>
    match name with
    | .bin => some .setupBin
    | .clock => some .setupClock
    | .coder => some .setupCoder
    | .phase => some .setupPhase
    | .vfilter => some .setupVfilter
    | .enTwi => some .setupEnTwi
    | .enSpi => some .setupEnSpi
    | .spiClk => some .setupSpiClk
    | .button => some .setupButton
    | .hotkey => some .setupHotkey
    | .clockmon => some .setupClockmon
    | .osdInit => some .setupOsdInit
    | .osdTimeout => some .setupOsdTimeout
    | _ => none
  | .pre, .upload, .verify => some .uploadVerify
  | .post _, .setup, .config => some .setupConfig
  | .post _, .setup, .info => some .setupInfo
  | .post _, .setup, .video => some .setupVideo
  | .post _, .targets, .target => some .targetsTarget
  | .post _, .menu, .title => some .menuTitle
  | .post _, .menu, .item => some .menuItem
  | .post _, .menu, .option => some .menuOption
  | .post _, .upload, .data => some .uploadData
  | .post _, .upload, .launch => some .uploadLaunch
  | .post embedded, .upload, .rom => if embedded then none else some .uploadRom
  | .post _, .files, .chaMount => some .filesChaMount
  | .post _, .files, .chbMount => some .filesChbMount
  | .post _, .files, .chaCfg => some .filesChaCfg
  | .post _, .files, .chbCfg => some .filesChbCfg
  | _, _, _ => none

/-- `_CFG_pre_parse_handler` and `_CFG_parse_handler` -/
def parseHandler (pass : Pass) (iniSection name : Symbol) : Result (UInt8 × State) :=
  match handlerOf pass iniSection name with
  | none => .ok (0, st)
  | some h => h.run env v st

end Config.Handlers
