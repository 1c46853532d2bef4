import Mathlib.Data.List.Basic
import Mathlib.Data.Nat.Notation

/-! The state of the menu, and the actions that it starts, from `menu.c`.

    What the handlers ask of the rest of the firmware is answered by `Env`; what they make it do is the
    list of `Call`s that they return. Texts that are only drawn are left out. -/

namespace Menu

/-- `tOSDMenuState` -/
inductive MenuState where
  | noMenu | showMenu | fileBrowser | showStatus | popupMenu | usbStatus
  deriving DecidableEq

/-- What a pop-up asks. -/
inductive Question where
  /-- " Reset Target? " -/
  | resetTarget
  /-- " Reboot Board? " -/
  | rebootBoard
  /-- "This will unmount all images!" -/
  | mountUsb
  /-- "Make sure USB is ejected!" -/
  | unmountUsb
  /-- "Existing RDB will be lost!" -/
  | syncRdb
  /-- "CRC32 New:%08x Old:%08x", "Reboot and flash?" -/
  | flash (crcFile crcFlash : UInt32)
  deriving DecidableEq

/-- What `_MENU_update` does once the user has agreed. -/
inductive Action where
  | resetTarget | reboot | toggleUsb | syncRdb | flash | formatSdcard
  deriving DecidableEq

/-- What `MATCH` finds in `action_name`. -/
inductive ActionName where
  | none | chaSelect | chbSelect | iniselect | iniload | loadselect | storeselect | backup | reset
  | reboot | mountmsc | syncrdb | flashfw | rom | other
  deriving DecidableEq

/-- The two file channels. -/
inductive Channel where
  | a | b
  deriving DecidableEq

/-- `menuitem_t`, with the names of its options. -/
structure Item where
  itemName : List UInt8
  actionName : ActionName
  actionValue : UInt32
  optionList : List (List UInt8)

/-- `menu_t` -/
abbrev Sheet := List Item

/-- `status_t` as far as the menu goes, and the statics of `MENU_handle_ui`. Pointers into the menu tree
    are positions in its lists; one to an item says in which sheet. -/
structure Status where
  menuState : MenuState
  update : Bool
  osdTimeout : UInt8
  osdTimeoutCnt : UInt8
  delayedFilescan : Bool
  question : Question
  selected : Bool
  doReboot : Bool
  toggleUsb : Bool
  usbMounted : Bool
  syncRdb : Bool
  flashFw : Bool
  verifyFlashFw : Bool
  formatSdcard : Bool
  prepareSdcard : Bool
  coreLoaded : Bool
  fileioEna : Channel → UInt8
  removable : Channel → Bool
  menuTop : List Sheet
  menuAct : Option ℕ
  menuItemAct : Option (ℕ × ℕ)
  itemFirst : Option (ℕ × ℕ)
  itemLast : Option (ℕ × ℕ)
  /-- `CFG_call_bootloader` does not return. -/
  rebooted : Bool

/-- What a call of `MENU_handle_ui` finds outside. -/
structure Env where
  /-- `Timer_Check(osd_timeout)` -/
  osdTimer : Bool
  /-- `Timer_Check(filescan_timer)` -/
  scanTimer : Bool
  /-- The vertical refresh rate is another one than last time. -/
  newRate : Bool
  /-- `FLASH_VerifySRecords`: the checksums of a valid image and of the flash. -/
  srecords : Option (UInt32 × UInt32)
  /-- `FileIO_FCh_GetInserted` -/
  inserted : Channel → UInt32 → Bool
  /-- `FileIO_FCh_GetProtect` -/
  protect : Channel → UInt32 → Bool
  /-- The entry under the cursor of the browser is a directory. -/
  isDir : Bool
  /-- It is the directory itself. -/
  isDot : Bool
  /-- It and the current directory have names. -/
  named : Bool
  /-- `CFG_upload_rom` succeeds. -/
  uploaded : Bool
  /-- The partition is not mounted, or `FF_UnmountPartition` succeeds. -/
  unmounted : Bool

/-- What the menu makes the firmware do. -/
inductive Call where
  | eject (ch : Channel) (drive : UInt32)
  | insert (ch : Channel) (drive : UInt32)
  | togProtect (ch : Channel) (drive : UInt32)
  /-- Another option, and `_MENU_update_bits` -/
  | option (next : Bool)
  | backup
  | storeRom
  | uploadRom
  /-- The FPGA is to be configured with another core. -/
  | reload
  | act (action : Action)
  deriving DecidableEq

/-- What handlers return: the state, what they do, and whether the OSD is to be drawn again. -/
abbrev Result := Status × List Call × Bool

/-! ### States -/

/-- `MENU_set_state` -/
def setState (state : MenuState) (s : Status) : Status :=
  { s with
    menuState :=
      if s.usbMounted = true ∧ state ≠ .noMenu ∧ state ≠ .popupMenu then .usbStatus else state }

/-- A pop-up with `MENU_POPUP_YESNO`, on "no" -/
def popup (question : Question) (s : Status) : Status :=
  { setState .popupMenu s with question := question, selected := false }

/-- `MENU_init_ui` -/
def initUi (s : Status) : Status :=
  setState .noMenu
    { s with
      menuAct := if s.menuTop = [] then none else some 0
      menuItemAct := match s.menuTop with
        | (_ :: _) :: _ => some (0, 0)
        | _ => none
      itemFirst := none
      itemLast := none }

/-- The items of a sheet. -/
def Status.items (s : Status) (m : ℕ) : Sheet := (s.menuTop[m]?).getD []

/-- The sheet that the menu shows. -/
def Status.sheet (s : Status) : Sheet := (s.menuAct.map s.items).getD []

/-- The item under the cursor. -/
def Status.item (s : Status) : Option Item := s.menuItemAct.bind fun p => (s.items p.1)[p.2]?

/-! ### Actions -/

/-- `CFG_set_status_defaults`, which forgets no question. -/
def setDefaults (s : Status) : Status := { s with osdTimeout := 30, fileioEna := fun _ => 0 }

/-- `MENU_handle_ui` without a key, where a status screen is to be drawn -/
def redraw (env : Env) (s : Status) : Status :=
  { s with
    update := false
    osdTimeoutCnt := if s.osdTimeout = 0 then 15 else 0
    delayedFilescan := s.delayedFilescan && !env.scanTimer }

/-- `(ena >> value) & 1` -/
def Status.enabled (s : Status) (ch : Channel) (value : UInt32) : Bool :=
  (s.fileioEna ch).toNat >>> value.toNat % 2 = 1

/-- `_MENU_action_menu_execute` for `cha_select` and `chb_select` -/
def executeSelect (env : Env) (ch : Channel) (drive : UInt32) (s : Status) : Result :=
  if s.enabled ch drive = true then
    if env.inserted ch drive = true then
      if s.removable ch = true ∨ env.protect ch drive = true then (s, [.eject ch drive], true)
      else (s, [], false)
    else (setState .fileBrowser s, [], true)
  else (s, [], false)

/-- `_MENU_action_menu_execute` -/
def menuExecute (env : Env) (item : Item) (s : Status) : Result :=
  match item.actionName with
  | .chaSelect => executeSelect env .a item.actionValue s
  | .chbSelect => executeSelect env .b item.actionValue s
  | .iniselect | .flashfw | .rom => (setState .fileBrowser s, [], true)
  | .iniload => (setDefaults { setState .noMenu s with coreLoaded := false }, [.reload], false)
  | .loadselect =>
    match item.optionList with
    | (0x2A :: 0x2E :: _ :: _) :: _ => (setState .fileBrowser s, [], true)
    | _ => (s, [], false)
  | .storeselect =>
    match item.optionList with
    | (_ :: _) :: _ => (setState .noMenu s, [.storeRom], true)
    | _ => (s, [], false)
  | .backup => ({ s with update := true }, [.backup], true)
  | .reset => ({ popup .resetTarget s with update := true, doReboot := false }, [], true)
  | .reboot => ({ popup .rebootBoard s with update := true, doReboot := true }, [], true)
  | .mountmsc =>
    ({ popup .mountUsb s with update := true, toggleUsb := true, doReboot := false }, [], true)
  | .syncrdb =>
    ({ popup .syncRdb s with update := true, syncRdb := true, doReboot := false }, [], true)
  | .none | .other => (s, [], false)

/-- `_MENU_action_browser_execute` -/
def browserExecute (env : Env) (item : Item) (s : Status) : Result :=
  match item.actionName with
  | .chaSelect =>
    if s.enabled .a item.actionValue = true then
      (setState .showMenu s, [.insert .a item.actionValue], true)
    else (s, [], false)
  | .chbSelect =>
    if s.enabled .b item.actionValue = true then
      (setState .showMenu s, [.insert .b item.actionValue], true)
    else (s, [], false)
  | .iniselect => (setDefaults { setState .noMenu s with coreLoaded := false }, [.reload], false)
  | .loadselect =>
    if env.named = true then (setState .noMenu s, [.uploadRom], true) else (s, [], false)
  | .flashfw =>
    if env.named = true then ({ setState .showStatus s with verifyFlashFw := true }, [], true)
    else (setState .showStatus s, [], true)
  | .rom =>
    if env.named = true then (setState .showMenu s, [.uploadRom], env.uploaded)
    else (setState .showMenu s, [], true)
  | _ => (s, [], false)

/-- `_MENU_update` -/
def menuUpdate (env : Env) (s : Status) : Result :=
  if s.doReboot = true then ({ s with rebooted := true }, [.act .reboot], true)
  else if s.toggleUsb = true then
    let s :=
      if s.usbMounted = true then { s with usbMounted := false }
      else if env.unmounted = true then { s with usbMounted := true }
      else s
    ({ setState .showStatus s with toggleUsb := false, update := true }, [.act .toggleUsb], true)
  else if s.syncRdb = true then
    ({ setState .showStatus s with syncRdb := false, update := true }, [.act .syncRdb], true)
  else if s.flashFw = true then
    -- it returns where it has failed, and the error goes to the status screen
    let s := redraw env (setState .showStatus (initUi s))
    ({ setDefaults s with coreLoaded := false, flashFw := false, update := true }, [.act .flash], true)
  else if s.formatSdcard = true then
    let s := redraw env (setState .showStatus s)
    ({ s with prepareSdcard := true, formatSdcard := false, update := true }, [.act .formatSdcard], true)
  else ({ setState .showStatus s with update := true }, [.act .resetTarget], true)

end Menu
