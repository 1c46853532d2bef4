import ReplayFirmware.Menu.Status

/-! The key handlers of `menu.c`, and `MENU_handle_ui`, which looks for the one of a key. -/

namespace Menu

/-! ### Keys -/

def keyHome : UInt16 := 0x101
def keyPgup : UInt16 := 0x102
def keyPgdn : UInt16 := 0x103
def keyUp : UInt16 := 0x105
def keyDown : UInt16 := 0x106
def keyLeft : UInt16 := 0x107
def keyRight : UInt16 := 0x108
/-- `KEY_MENU`, which is F12 -/
def keyMenu : UInt16 := 0x20C
def keyEsc : UInt16 := 0x01B
def keyEnter : UInt16 := 0x00D
def keyBack : UInt16 := 0x008
def keyReleased : UInt16 := 0x8000
def keyRepeated : UInt16 := 0x4000
def keyMask : UInt16 := 0x03FF
def keyMaskAscii : UInt16 := 0x7F

/-- `tKeyMappingCallback` -/
abbrev Handler := Env → UInt16 → Status → Result

/-- `tKeyMapping` -/
structure KeyMapping where
  mask : UInt16
  key : UInt16
  action : Handler

/-! ### The menu -/

/-- On an item left and right change its option, elsewhere they change the sheet. -/
def keyActionMenuLeft : Handler := fun _ _ s =>
  if s.itemFirst.isSome = true then
    match s.item with
    | some item => (s, if item.actionName = .none then [.option false] else [], true)
    | none => (s, [], true)
  else
    match s.menuAct with
    | some (i + 1) => ({ s with menuAct := some i }, [], true)
    | _ => (setState .showStatus s, [], true)

def keyActionMenuRight : Handler := fun _ _ s =>
  if s.itemFirst.isSome = true then
    match s.item with
    | some item => (s, if item.actionName = .none then [.option true] else [], true)
    | none => (s, [], true)
  else
    match s.menuAct with
    | some i =>
      if i + 1 < s.menuTop.length then ({ s with menuAct := some (i + 1) }, [], true)
      else (setState .showStatus s, [], true)
    | none => (setState .showStatus s, [], true)

def keyActionMenuUp : Handler := fun _ _ s =>
  match s.itemFirst, s.menuItemAct with
  | some first, some (m, i) =>
    if (m, i) = first then
      if 0 < i then ({ s with menuItemAct := some (m, i - 1), itemFirst := some (m, i - 1) }, [], true)
      else ({ s with menuItemAct := none, itemFirst := none }, [], true)
    else if 0 < i then ({ s with menuItemAct := some (m, i - 1) }, [], true)
    else (s, [], true)
  | _, _ => (s, [], true)

def keyActionMenuDown : Handler := fun _ _ s =>
  match s.itemFirst, s.menuItemAct with
  | some first, some (m, i) =>
    if i + 1 < (s.items m).length then
      if s.menuItemAct = s.itemLast then
        ({ s with itemFirst := some (first.1, first.2 + 1), menuItemAct := some (m, i + 1) }, [], true)
      else ({ s with menuItemAct := some (m, i + 1) }, [], true)
    else (s, [], true)
  | some _, none => (s, [], true)
  | none, _ =>
    match s.sheet with
    | item :: _ =>
      if item.itemName = [] then (s, [], true)
      else
        ({ s with itemFirst := s.menuAct.map (·, 0), menuItemAct := s.menuAct.map (·, 0) }, [], true)
    | [] => (s, [], true)

def keyActionMenuEnter : Handler := fun env _ s =>
  match s.item with
  | some item => menuExecute env item s
  | none => (s, [], false)

def keyActionMenuEsc : Handler := fun _ _ s =>
  if s.itemFirst.isSome = true then ({ s with itemFirst := none, menuItemAct := none }, [], true)
  else ({ popup .resetTarget s with doReboot := false }, [], true)

/-- Where there is no item, what stands at address 0 is no name of an action. -/
def keyActionMenuProtect : Handler := fun _ _ s =>
  match s.item with
  | some item =>
    if item.actionName = .chaSelect ∧ s.enabled .a item.actionValue = true then
      (s, [.togProtect .a item.actionValue], true)
    else if item.actionName = .chbSelect ∧ s.enabled .b item.actionValue = true then
      (s, [.togProtect .b item.actionValue], true)
    else (s, [], false)
  | none => (s, [], false)

/-! ### The file browser -/

/-- `Filesel_Update` and `Filesel_ScanFirst` move the cursor only. -/
def keyActionFilebrowserMove : Handler := fun _ _ s => (s, [], true)

def keyActionFilebrowserEnter : Handler := fun env _ s =>
  if env.isDir = true then (s, [], !env.isDot)
  else
    match s.item with
    | some item => if item.actionName = .none then (s, [], false) else browserExecute env item s
    | none => (s, [], false)

def keyActionFilebrowserEsc : Handler := fun _ _ s => (setState .showMenu s, [], true)

def keyActionFilebrowserBack : Handler := fun _ _ s => ({ s with delayedFilescan := true }, [], false)

def keyActionFilebrowserDefault : Handler := fun _ key s =>
  if (0x30 ≤ key ∧ key ≤ 0x39) ∨ (0x41 ≤ key ∧ key ≤ 0x5A) then
    ({ s with delayedFilescan := true }, [], false)
  else (s, [], false)

/-! ### The status screen -/

/-- Left goes to the last sheet. -/
def keyActionShowstatusLeft : Handler := fun _ _ s =>
  match s.menuAct with
  | some _ => (setState .showMenu { s with menuAct := some (s.menuTop.length - 1) }, [], true)
  | none => (s, [], false)

/-- Right goes to the first one. -/
def keyActionShowstatusRight : Handler := fun _ _ s =>
  match s.menuAct with
  | some _ => (setState .showMenu { s with menuAct := some 0 }, [], true)
  | none => (s, [], false)

/-! ### Pop-ups and USB -/

def keyActionPopupLeftRight : Handler := fun _ _ s => ({ s with selected := !s.selected }, [], true)

def keyActionPopupEnter : Handler := fun env _ s =>
  let s := setState .noMenu s
  if s.selected = true then menuUpdate env s
  else
    ({ s with
        doReboot := false, toggleUsb := false, syncRdb := false, flashFw := false
        verifyFlashFw := false, formatSdcard := false }, [], false)

def keyActionPopupEsc : Handler := fun _ _ s => (setState .showMenu s, [], true)

def keyActionUsbEsc : Handler := fun _ _ s =>
  ({ popup .unmountUsb s with toggleUsb := true, update := true }, [], true)

/-! ### The tables -/

def keymappingsMenu : List KeyMapping :=
  [⟨keyMaskAscii, 0x50, keyActionMenuProtect⟩, ⟨keyMask, keyLeft, keyActionMenuLeft⟩,
    ⟨keyMask, keyRight, keyActionMenuRight⟩, ⟨keyMask, keyUp, keyActionMenuUp⟩,
    ⟨keyMask, keyDown, keyActionMenuDown⟩, ⟨keyMask, keyEnter, keyActionMenuEnter⟩,
    ⟨keyMask, keyEsc, keyActionMenuEsc⟩]

def keymappingsFilebrowser : List KeyMapping :=
  [⟨keyMask, keyLeft, keyActionFilebrowserMove⟩, ⟨keyMask, keyPgup, keyActionFilebrowserMove⟩,
    ⟨keyMask, keyRight, keyActionFilebrowserMove⟩, ⟨keyMask, keyPgdn, keyActionFilebrowserMove⟩,
    ⟨keyMask, keyUp, keyActionFilebrowserMove⟩, ⟨keyMask, keyDown, keyActionFilebrowserMove⟩,
    ⟨keyMask, keyEnter, keyActionFilebrowserEnter⟩, ⟨keyMask, keyEsc, keyActionFilebrowserEsc⟩,
    ⟨keyMask, keyBack, keyActionFilebrowserBack⟩, ⟨keyMask, keyHome, keyActionFilebrowserMove⟩,
    ⟨keyMaskAscii, 0, keyActionFilebrowserDefault⟩]

def keymappingsShowstatus : List KeyMapping :=
  [⟨keyMask, keyLeft, keyActionShowstatusLeft⟩, ⟨keyMask, keyRight, keyActionShowstatusRight⟩]

def keymappingsPopup : List KeyMapping :=
  [⟨keyMask, keyLeft, keyActionPopupLeftRight⟩, ⟨keyMask, keyRight, keyActionPopupLeftRight⟩,
    ⟨keyMask, keyEnter, keyActionPopupEnter⟩, ⟨keyMask, keyEsc, keyActionPopupEsc⟩]

def keymappingsShowusb : List KeyMapping := [⟨keyMask, keyEsc, keyActionUsbEsc⟩]

def keymappings : MenuState → List KeyMapping
  | .popupMenu => keymappingsPopup
  | .fileBrowser => keymappingsFilebrowser
  | .showStatus => keymappingsShowstatus
  | .showMenu => keymappingsMenu
  | .usbStatus => keymappingsShowusb
  | .noMenu => []

/-- Whether a mapping takes a key; one without a key takes all. -/
def KeyMapping.takes (m : KeyMapping) (key : UInt16) : Bool :=
  let mskd := key &&& m.mask &&& ~~~keyRepeated
  mskd ≠ 0 ∧ (m.key = 0 ∨ mskd = m.key)

/-! ### `MENU_handle_ui` -/

/-- The time-out of the OSD; whether it has hidden the menu. -/
def timeout (env : Env) (key : UInt16) (update : Bool) (s : Status) : Status × Bool :=
  if s.menuState ≠ .noMenu ∧ s.osdTimeout ≠ 0 then
    if key ≠ 0 ∨ update = true then ({ s with osdTimeoutCnt := 0 }, false)
    else if env.osdTimer = true then
      if s.osdTimeoutCnt < s.osdTimeout then ({ s with osdTimeoutCnt := s.osdTimeoutCnt + 1 }, false)
      else (setState .noMenu { s with osdTimeoutCnt := s.osdTimeoutCnt + 1 }, true)
    else (s, false)
  else if update = true then ({ setState .showStatus s with osdTimeoutCnt := 15 }, false)
  else (s, false)

/-- The firmware that was chosen is verified before the question is asked. -/
def verify (env : Env) (s : Status) : Status :=
  if s.verifyFlashFw = true then
    match env.srecords with
    | none => { s with verifyFlashFw := false }
    | some (crcFile, crcFlash) =>
      { popup (.flash crcFile crcFlash) s with verifyFlashFw := false, update := true, flashFw := true }
  else s

/-- The first item that is shown. -/
def Status.top (s : Status) : ℕ × ℕ := s.itemFirst.getD (s.menuAct.getD 0, 0)

/-- The number of items that are shown, of at most `MENU_HEIGHT - 1`. -/
def Status.shown (s : Status) : ℕ := min ((s.items s.top.1).length - s.top.2) 11

/-- `_MENU_update_ui`, which finds out what items are shown -/
def updateUi (s : Status) : Status :=
  if s.menuState = .showMenu ∨ s.menuState = .noMenu then
    { s with
      menuItemAct := if s.itemFirst.isSome = true then s.menuItemAct else none
      itemLast := if s.shown = 0 then s.itemLast else some (s.top.1, s.top.2 + s.shown - 1) }
  else s

/-- After the keys: the delayed scan, the refresh rate, and the screen. -/
def finish (env : Env) : Result → Result
  | (s, calls, update) =>
    let scan := s.delayedFilescan && env.scanTimer
    let s := { s with delayedFilescan := s.delayedFilescan && !env.scanTimer }
    let update := update || scan || (s.menuState = .showStatus && env.newRate)
    (if update = true then updateUi s else s, calls, update)

/-- The handler of a key. -/
def pressKey (env : Env) (key : UInt16) (update : Bool) (s : Status) : Result :=
  match (keymappings s.menuState).find? (·.takes key) with
  | some m => m.action env key s
  | none => (s, [], update)

/-- `MENU_handle_ui` -/
def handleUi (env : Env) (key : UInt16) (s : Status) : Result :=
  if key &&& keyReleased ≠ 0 then (s, [], false)
  else
    match timeout env key s.update { s with update := false } with
    | (s', true) => (s', [], false)
    | (s', false) =>
      let t := verify env s'
      if key = keyMenu then
        if t.menuState ≠ .noMenu then (setState .noMenu t, [], false)
        else finish env ({ setState .showStatus t with osdTimeoutCnt := 0 }, [], true)
      else finish env (pressKey env key s.update t)

end Menu
