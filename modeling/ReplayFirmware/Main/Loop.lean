import ReplayFirmware.FileIO.Slots
import ReplayFirmware.Menu.HandleUi

/-! The main loop, as far as it decides who works on the card: `main.c`, `CFG_card_start`, and the two
    functions of `usb.c`.

    The loop goes from phase to phase. What a phase finds outside (keys, the card, the FPGA, the files)
    is in its event. -/

namespace Main
open FileIO.Slots Menu

/-! ### The state -/

/-- Where the loop is: at its top, in `CFG_card_start`, where a core is loaded, in `init_core`, and in
    the three parts of `main_update`. -/
inductive Phase where
  | top | start | load | init | keys | card | drives
  deriving DecidableEq

/-- `current_status`, the drives, and what is mounted. -/
structure State where
  phase : Phase
  menu : Menu.Status
  slots : FileIO.Slots.State
  card_detected : Bool
  card_init_ok : Bool
  fs_mounted_ok : Bool
  /-- `fpga_load_ok == EMBEDDED_CORE` -/
  embedded : Bool
  card_was_removed : Bool
  /-- `pIoman->pPartition->Type` -/
  type : UInt8
  /-- `FatFs[0]` is not NULL. -/
  fatFs : Bool

/-- `usb_mounted` -/
abbrev State.usb_mounted (b : State) : Bool := b.menu.usbMounted

/-- `FF_Mounted` -/
def State.mounted (b : State) : Bool := b.type ≠ 0

/-! ### The card -/

/-- What `CFG_card_start` finds: whether `Card_Init` succeeds, and what comes of each of the three
    attempts to mount the partition, with the type of the file system. -/
structure CardAnswers where
  init : Bool
  mount : Fin 3 → Bool × Fin 5

/-- `FF_MountPartition`, which keeps its volume registered when it fails. -/
def mountPartition (answer : Bool × Fin 5) (b : State) : State :=
  { b with fatFs := true, type := answer.2.val.toUInt8 + 9, fs_mounted_ok := answer.1 }

/-- The loop that mounts the partition. -/
def tryMount : List (Bool × Fin 5) → State → State
  | [], b => b
  | answer :: answers, b =>
    if b.fs_mounted_ok = true then b else tryMount answers (mountPartition answer b)

/-- `CFG_card_start` -/
def cardStart (a : CardAnswers) (b : State) : State :=
  if b.card_detected = true then
    if (b.card_init_ok = true ∧ b.fs_mounted_ok = true) ∨ b.usb_mounted = true then b
    else if a.init = true then
      tryMount ((List.finRange 3).map a.mount) { b with card_init_ok := true, fs_mounted_ok := false }
    else { b with card_init_ok := false, fs_mounted_ok := false }
  else { b with card_init_ok := false, fs_mounted_ok := false }

/-! ### The drives -/

/-- The drives of the first channel, and those of the second. -/
def byChannel : List (Fin 2 × Fin 4) :=
  (List.finRange 2).flatMap fun ch => (List.finRange 4).map fun i => (ch, i)

/-- The first drive of both channels, and so on. -/
def byDrive : List (Fin 2 × Fin 4) :=
  (List.finRange 4).flatMap fun i => (List.finRange 2).map fun ch => (ch, i)

/-- All of these drives that are inserted are ejected. -/
def ejectAll (ks : List (Fin 2 × Fin 4)) (s : FileIO.Slots.State) : FileIO.Slots.State :=
  ks.foldl (fun s k => if (s.handle k).inserted = true then eject k.1 k.2 s else s) s

/-- `f_open` finds no volume when none is registered. -/
def State.opens (b : State) (a : Answers) : Answers :=
  if b.fatFs = true then a else { a with rw := none, ro := none }

/-- `FileIO_FCh_Insert` -/
def State.insert (b : State) (a : Answers) (ch : Fin 2) (drive_number : Fin 4) (path : List UInt8) :
    Option State :=
  let slots := FileIO.Slots.insert (b.opens a) ch drive_number path b.slots
  slots.map fun s => { b with slots := s }

/-! ### USB -/

/-- `USB_MountMassStorage`, up to `usb_mounted`. -/
def mountMassStorage (b : State) : State :=
  if b.mounted = true then
    { b with
      slots := FileIO.Slots.init (ejectAll byChannel b.slots), type := 0, fatFs := false
      fs_mounted_ok := false }
  else b

/-- `USB_UnmountMassStorage`, up to `usb_mounted`. -/
def unmountMassStorage (b : State) : State := { b with slots := FileIO.Slots.init b.slots }

/-! ### What the menu does -/

attribute [local instance] FileIO.twoChannels in
def channel : Channel → Fin 2
  | .a => 0
  | .b => 1

/-- A drive number, which `fileio_cha_ena` and `fileio_chb_ena` keep below four. -/
def drive (n : UInt32) : Option (Fin 4) := if h : n.toNat < 4 then some ⟨n.toNat, h⟩ else none

/-- `FileIO_FCh_GetProtect` -/
def getProtect (pDrive : Slot) : Bool :=
  pDrive.inserted && decide (pDrive.status &&& FileIO.statReadonlyOrProtected ≠ 0)

/-- The drives answer for themselves, and `FF_UnmountPartition` does not fail. -/
def State.env (b : State) (env : Env) : Env :=
  { env with
    inserted := fun ch n => (drive n).any fun i => (b.slots.handle (channel ch, i)).inserted
    protect := fun ch n => (drive n).any fun i => getProtect (b.slots.handle (channel ch, i))
    unmounted := true }

/-- What a call of the menu does to the drives and the card; `a` and `path` are what an insert finds. -/
def perform (a : Answers) (path : List UInt8) (usb_mounted : Bool) (b : State) : Call → Option State
  | .eject ch n => (drive n).map fun i => { b with slots := eject (channel ch) i b.slots }
  | .insert ch n => (drive n).bind fun i => b.insert a (channel ch) i path
  | .togProtect ch n => (drive n).map fun i => { b with slots := togProtect (channel ch) i b.slots }
  | .act .toggleUsb => some (if usb_mounted = true then unmountMassStorage b else mountMassStorage b)
  | _ => some b

def performAll (a : Answers) (path : List UInt8) (usb_mounted : Bool) :
    List Call → State → Option State
  | [], b => some b
  | c :: cs, b => (perform a path usb_mounted b c).bind (performAll a path usb_mounted cs)

/-! ### The phases -/

/-- The image of a `CHA_MOUNT` or `CHB_MOUNT` line. -/
structure Mount where
  answers : Answers
  ch : Fin 2
  drive_number : Fin 4
  path : List UInt8

/-- What `init_core` finds: whether the core answers, its drives and drivers, the images of the INI file,
    the menu and the kinds of drives that come of the file, and `osd_init`. -/
structure InitAnswers where
  syscon : Bool
  ena : Channel → UInt8
  drv : Channel → UInt8
  mounts : List Mount
  menuTop : List Sheet
  removable : Channel → Bool
  osd_init : Bool

/-- What a phase finds. -/
inductive Event where
  /-- `Card_Detect` -/
  | top (detect : Bool)
  | start (a : CardAnswers)
  /-- The core of the card is loaded, the FPGA is configured afterwards, and the embedded core works. -/
  | load (sdcard done default' : Bool)
  | init (a : InitAnswers)
  /-- `spi_osd_enabled`, the key, what the menu finds, and what an insert finds; `button` is
      `BUTTON_RESET`. -/
  | keys (osd : Bool) (key : UInt16) (env : Env) (a : Answers) (path : List UInt8) (button : Bool)
  /-- `Card_Detect`, the card, and whether the FPGA has lost its configuration. -/
  | card (detect : Bool) (a : CardAnswers) (deconfigured : Bool)
  | drives

/-- The top of the loop: the drives are ejected and the menu is freed. -/
def top (detect : Bool) (b : State) : State :=
  { b with
    phase := .start
    slots := ejectAll byDrive b.slots
    menu := { b.menu with menuTop := [], menuAct := none, menuItemAct := none }
    card_detected := detect }

/-- The card is prepared, and a core is loaded from it; else the embedded one. -/
def load (sdcard done default' : Bool) (b : State) : Option State :=
  let b := if b.fs_mounted_ok = true then { b with menu := { b.menu with prepareSdcard := false } } else b
  if b.fs_mounted_ok = true ∧ sdcard = true then
    some { b with phase := .init, embedded := false, menu := { b.menu with coreLoaded := true } }
  else if done = false then
    if default' = true then
      some { b with
        phase := .init, embedded := true, card_detected := b.fs_mounted_ok
        menu := { b.menu with coreLoaded := true } }
    else none
  else some { b with phase := .init, embedded := false, menu := { b.menu with coreLoaded := true } }

/-- The MOUNT lines of the INI file. -/
def mountAll : List Mount → State → Option State
  | [], b => some b
  | m :: ms, b => (b.insert m.answers m.ch m.drive_number m.path).bind (mountAll ms)

attribute [local instance] FileIO.twoChannels in
/-- The drives of a core, in `CFG_init` -/
def setDrives (a : InitAnswers) (b : State) : State :=
  let drv := fun ch => a.drv ch &&& 0x0F
  { b with
    slots := setDriver 1 (drv .b) (updateDriveStatus 1 (setDriver 0 (drv .a)
      (updateDriveStatus 0 b.slots)))
    menu := { b.menu with fileioEna := fun ch => a.ena ch &&& 0x0F } }

/-- `CFG_init`, up to the menu. The file is parsed when the card can be read. -/
def cfgInit (a : InitAnswers) (b : State) : Option State :=
  if a.syscon = true then
    let b := setDrives a b
    if b.fs_mounted_ok = true then mountAll a.mounts b else some b
  else some b

/-- `init_core`; the INI file of the embedded core has no images. -/
def initCore (a : InitAnswers) (b : State) : Option State :=
  (if b.embedded = true then some b else cfgInit a b).map fun b =>
    let menu := initUi { b.menu with menuTop := a.menuTop, removable := a.removable }
    { b with
      phase := .keys
      menu :=
        if a.osd_init = true then { setState .showStatus menu with update := true }
        else { setState .noMenu menu with update := false } }

def keyF12 : UInt16 := 0x20C
def keyF11 : UInt16 := 0x20B
def keyFlash : UInt16 := 0x3FE
def keyReset : UInt16 := 0x3FF
def keyCtrlAlt : UInt16 := 0x2800

/-- `MENU_handle_ui`, and what it does. -/
def handleKeys (osd : Bool) (key : UInt16) (env : Env) (a : Answers) (path : List UInt8) (b : State) :
    Option State :=
  if osd = true then
    let r := handleUi (b.env env) key b.menu
    (performAll a path b.usb_mounted r.2.1 b).map fun b => { b with menu := r.1 }
  else some b

/-- The keys; a bootloader that is called does not come back. -/
def keys (osd : Bool) (key : UInt16) (env : Env) (a : Answers) (path : List UInt8) (button : Bool)
    (b : State) : Option State :=
  (handleKeys osd key env a path b).bind fun b =>
    if b.menu.rebooted = true ∨ key = keyReset ∨ key = keyF12 + keyCtrlAlt then none
    else
      let reload := key = keyFlash ∨ key = keyF11 + keyCtrlAlt ∨ (key = keyF12 ∧ button = true)
      some { b with
        phase := .card
        menu := { b.menu with coreLoaded := b.menu.coreLoaded && !reload } }

/-- The card is looked for, and the fallback left when there is one. -/
def card (detect : Bool) (a : CardAnswers) (deconfigured : Bool) (b : State) : State :=
  let card_was_inserted := !b.card_detected && detect
  let card_was_removed := b.card_detected && !detect
  let card_found_but_no_fs := detect && !b.fs_mounted_ok && !b.usb_mounted
  let b := { b with card_detected := detect, card_was_removed := card_was_removed }
  let b :=
    if card_was_inserted = true ∨ card_was_removed = true ∨ card_found_but_no_fs = true then
      cardStart a b
    else b
  if deconfigured = true ∧ b.menu.coreLoaded = true then
    { b with phase := .top, menu := { b.menu with coreLoaded := false } }
  else if b.embedded = true ∧ b.menu.prepareSdcard = true then
    { b with phase := .drives, menu := { b.menu with coreLoaded := false } }
  else if b.embedded = true ∧ card_was_inserted = true ∧ b.fs_mounted_ok = true then
    { b with phase := .drives, menu := { setDefaults b.menu with coreLoaded := false } }
  else { b with phase := .drives }

/-- The drives are ejected when the card was removed; `main_update` goes on as long as there is a core. -/
def drives (b : State) : State :=
  let b :=
    if b.card_was_removed = true then
      { b with
        slots := FileIO.Slots.init (ejectAll byChannel b.slots)
        menu := { setState .showStatus b.menu with update := true } }
    else b
  { b with phase := if b.menu.coreLoaded = true then .keys else .top }

/-- A phase, with its event. -/
def step (b : State) (e : Event) : Option State :=
  match b.phase, e with
  | .top, .top detect => some (top detect b)
  | .start, .start a => some { cardStart a b with phase := .load }
  | .load, .load sdcard done default' => load sdcard done default' b
  | .init, .init a => initCore a b
  | .keys, .keys osd key env a path button => keys osd key env a path button b
  | .card, .card detect a deconfigured => some (card detect a deconfigured b)
  | .drives, .drives => some (drives b)
  | _, _ => none

/-- `CFG_set_status_defaults`, in a status that is zero. -/
def statusDefaults : Menu.Status where
  menuState := .noMenu
  update := false
  osdTimeout := 30
  osdTimeoutCnt := 0
  delayedFilescan := false
  question := .resetTarget
  selected := false
  doReboot := false
  toggleUsb := false
  usbMounted := false
  syncRdb := false
  flashFw := false
  verifyFlashFw := false
  formatSdcard := false
  prepareSdcard := false
  coreLoaded := false
  fileioEna := fun _ => 0
  removable := fun _ => false
  menuTop := []
  menuAct := none
  menuItemAct := none
  itemFirst := none
  itemLast := none
  rebooted := false

/-- Power up. The record of the partition is allocated and not cleared. -/
def powerUp (type : UInt8) : State where
  phase := .top
  menu := statusDefaults
  slots := .start
  card_detected := false
  card_init_ok := false
  fs_mounted_ok := false
  embedded := false
  card_was_removed := false
  type := type
  fatFs := false

end Main
