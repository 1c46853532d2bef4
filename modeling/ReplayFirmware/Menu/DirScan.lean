import ReplayFirmware.Menu.Popups

/-! What the file browser scans into.

    `CFG_init` allocates `dir_scan` and clears it, an item that opens the browser sets its path, and
    every reload frees it. The menu, and the flag of a rescan that waits for its timer, go on. -/

namespace Menu

variable {env : Env} {key : UInt16} {s : Status}

/-! ### The structure -/

/-- `pPath` of a `tDirScan`: cleared, or `act_dir` -/
inductive PPath where
  | null | actDir
  deriving DecidableEq

/-- `dir_scan` -/
abbrev DirScan := Option PPath

/-- The functions of `filesel.c` that the menu calls. -/
inductive Filesel where
  | init | changeDir | scanFirst | update | getEntry | getLine | getSel | addFilterChar
  | delFilterChar
  deriving DecidableEq

/-- What a call leaves. -/
def Filesel.after : Filesel → DirScan → DirScan
  | .init, some _ | .changeDir, some _ => some .actDir
  | _, scan => scan

/-- A call, with the `dir_scan` that it is given. -/
structure Use where
  call : Filesel
  scan : DirScan
  deriving DecidableEq

/-- The structure is there, and unless the call sets the directory it is the current one. -/
def Use.Sound (u : Use) : Prop :=
  if u.call = .init ∨ u.call = .changeDir then u.scan ≠ none else u.scan = some .actDir

instance (u : Use) : Decidable u.Sound := inferInstanceAs (Decidable (ite _ _ _))

/-- The calls one after the other. -/
def uses : DirScan → List Filesel → List Use
  | _, [] => []
  | scan, call :: calls => ⟨call, scan⟩ :: uses (call.after scan) calls

def left : DirScan → List Filesel → DirScan
  | scan, [] => scan
  | scan, call :: calls => left (call.after scan) calls

/-! ### What the handlers call -/

/-- What a handler calls, and what is drawn after it. -/
abbrev Scans := Env → UInt16 → Status → List Filesel

/-- The item opens the browser. -/
def Item.browses (env : Env) (s : Status) (item : Item) : Bool :=
  match item.actionName with
  | .chaSelect => s.enabled .a item.actionValue && !env.inserted .a item.actionValue
  | .chbSelect => s.enabled .b item.actionValue && !env.inserted .b item.actionValue
  | .iniselect | .flashfw | .rom => true
  | .loadselect =>
    match item.optionList with
    | (0x2A :: 0x2E :: _ :: _) :: _ => true
    | _ => false
  | _ => false

def noScans : Scans := fun _ _ _ => []

/-- `key_action_menu_enter` -/
def menuEnterScans : Scans := fun env _ s =>
  match s.item with
  | some item => if item.browses env s = true then [.init, .scanFirst] else []
  | none => []

def filebrowserMoveScans : Scans := fun _ _ _ => [.update]

/-- `key_action_filebrowser_enter`; `_MENU_action_browser_execute` gets the entry once more. -/
def filebrowserEnterScans : Scans := fun env _ s =>
  if env.isDir = true then
    if env.isDot = true then [.getEntry] else [.getEntry, .changeDir, .scanFirst]
  else
    match s.item with
    | some item => if item.actionName = .none then [.getEntry] else [.getEntry, .getEntry]
    | none => [.getEntry]

def filebrowserBackScans : Scans := fun _ _ _ => [.delFilterChar]

def filebrowserHomeScans : Scans := fun _ _ _ => [.changeDir, .scanFirst]

def filebrowserDefaultScans : Scans := fun _ key _ =>
  if (0x30 ≤ key ∧ key ≤ 0x39) ∨ (0x41 ≤ key ∧ key ≤ 0x5A) then [.addFilterChar] else []

/-- A rescan that is due -/
def dueScans (env : Env) (s : Status) : List Filesel :=
  if (s.delayedFilescan && env.scanTimer) = true then [.scanFirst] else []

/-- `key_action_popup_enter`: flashing and formatting call `MENU_handle_ui` once more. -/
def popupEnterScans : Scans := fun env _ s =>
  if s.selected = true then
    if s.doReboot = true ∨ s.toggleUsb = true ∨ s.syncRdb = true then []
    else if s.flashFw = true ∨ s.formatSdcard = true then dueScans env s
    else []
  else []

/-- What the handlers of a table call, in its order. -/
def scans : MenuState → List Scans
  | .popupMenu => [noScans, noScans, popupEnterScans, noScans]
  | .fileBrowser =>
    [filebrowserMoveScans, filebrowserMoveScans, filebrowserMoveScans, filebrowserMoveScans,
      filebrowserMoveScans, filebrowserMoveScans, filebrowserEnterScans, noScans,
      filebrowserBackScans, filebrowserHomeScans, filebrowserDefaultScans]
  | .showStatus => [noScans, noScans]
  | .showMenu => [noScans, noScans, noScans, noScans, noScans, menuEnterScans, noScans]
  | .usbStatus => [noScans]
  | .noMenu => []

/-- What the handler of a key calls. -/
def pressScans : Scans := fun env key s =>
  match ((keymappings s.menuState).zip (scans s.menuState)).find? (·.1.takes key) with
  | some m => m.2 env key s
  | none => []

/-- `_MENU_update_ui` draws the browser from the structure. -/
def drawScans (s : Status) : List Filesel :=
  if s.menuState = .fileBrowser then [.getSel, .getLine] else []

/-- The end of `MENU_handle_ui` -/
def finishScans (env : Env) : Result → List Filesel
  | (s, _, update) =>
    let scan := s.delayedFilescan && env.scanTimer
    let update := update || scan || (s.menuState = .showStatus && env.newRate)
    dueScans env s ++ if update = true then drawScans s else []

/-- What `MENU_handle_ui` calls. -/
def handleUiScans : Scans := fun env key s =>
  if key &&& keyReleased ≠ 0 then []
  else
    match timeout env key s.update { s with update := false } with
    | (_, true) => []
    | (s', false) =>
      let t := verify env s'
      if key = keyMenu then
        if t.menuState ≠ .noMenu then []
        else finishScans env ({ setState .showStatus t with osdTimeoutCnt := 0 }, [], true)
      else pressScans env key t ++ finishScans env (pressKey env key s.update t)

/-! ### The board -/

/-- How a core is started. -/
structure Start where
  /-- The errors until `CFG_init`: of the card, the first reading of the INI file, and the FPGA -/
  early : List Env
  /-- The core is the embedded one. -/
  embedded : Bool
  /-- `OSD_ConfigReadSysconVer` gives 0xA5. -/
  syscon : Bool
  /-- `malloc(sizeof(tDirScan))` gives a block. -/
  memory : Bool
  /-- The errors of the INI file -/
  late : List Env
  setup : Setup

/-- The menu and the structure, and how the core was started that runs. -/
structure Board where
  ui : Status
  dirScan : DirScan
  start : Option Start

/-- A call of `MENU_handle_ui` -/
def callUi (env : Env) (key : UInt16) (b : Board) : Board × List Use :=
  ({ b with
      ui := (handleUi env key b.ui).1
      dirScan := left b.dirScan (handleUiScans env key b.ui) },
    uses b.dirScan (handleUiScans env key b.ui))

/-- `ERROR`: the menu starts anew with the status screen, which is drawn at once. -/
def showError (env : Env) (b : Board) : Board × List Use :=
  callUi env 0 { b with ui := { setState .showStatus (initUi b.ui) with update := true } }

def showErrors : List Env → Board → Board × List Use
  | [], b => (b, [])
  | env :: envs, b =>
    ((showErrors envs (showError env b).1).1,
      (showError env b).2 ++ (showErrors envs (showError env b).1).2)

/-- `CFG_free_menu` -/
def freeMenu (b : Board) : Board :=
  { b with
    ui := { b.ui with menuTop := [], menuAct := none, menuItemAct := none }
    dirScan := none }

/-- `CFG_init`, which ends before the allocation where there is no Syscon. -/
def cfgInit (start : Start) (b : Board) : Board × List Use :=
  if start.syscon = true then
    showErrors start.late { b with dirScan := if start.memory = true then some .null else none }
  else (b, [])

/-- From the top of the main loop to the end of `init_core` -/
def reload (start : Start) (b : Board) : Board × List Use :=
  let r := showErrors start.early (freeMenu b)
  let r' :=
    if start.embedded = true then showErrors start.late r.1 else cfgInit start (freeMenu r.1)
  ({ r'.1 with ui := initCore start.setup r'.1.ui, start := some start }, r.2 ++ r'.2)

/-- What happens in the main loop. -/
inductive Turn where
  | ui (env : Env) (key : UInt16)
  | message
  /-- The card was removed. -/
  | status
  | error (env : Env)
  | reload (start : Start)

def Turn.apply (b : Board) (turn : Turn) : Board × List Use :=
  if b.ui.rebooted = true then (b, [])
  else
    match turn with
    | .ui env key => callUi env key b
    | .message => ({ b with ui := (Event.message.apply b.ui).1 }, [])
    | .status => ({ b with ui := (Event.status.apply b.ui).1 }, [])
    | .error env => showError env b
    | .reload start => Menu.reload start b

/-- A run: the board, and every call on the way. -/
def play : List Turn → Board → Board × List Use
  | [], b => (b, [])
  | turn :: turns, b =>
    ((play turns (turn.apply b).1).1, (turn.apply b).2 ++ (play turns (turn.apply b).1).2)

/-! ### What goes wrong -/

/-- The browser has its structure, and so had every call on the way. -/
def Safe (r : Board × List Use) : Prop :=
  (r.1.ui.menuState = .fileBrowser → r.1.dirScan = some .actDir) ∧ ∀ u ∈ r.2, u.Sound

instance (r : Board × List Use) : Decidable (Safe r) := inferInstanceAs (Decidable (_ ∧ _))

/-- A core's start allocates the structure. -/
def Start.allocates (start : Start) : Bool := !start.embedded && start.syscon && start.memory

/-- That of the core that runs did. -/
def Board.allocated (b : Board) : Bool := b.start.any Start.allocates

/-- The user chooses an item that opens the browser. -/
def opens (env : Env) (key : UInt16) (s : Status) : Bool :=
  s.menuState = .showMenu ∧ key &&& keyMask = keyEnter ∧ key &&& keyReleased = 0 ∧
    ¬ (s.osdTimeout = 0 ∧ s.update = true) ∧
    ¬ (s.verifyFlashFw = true ∧ env.srecords.isSome = true) ∧
    s.item.any (·.browses env s) = true

/-- No item opens the browser of a core that was started without the structure, and no core is
    loaded while a rescan waits for its timer. -/
def Fine (b : Board) : Turn → Prop
  | .ui env key => opens env key b.ui = true → b.allocated = true
  | .reload _ => b.ui.delayedFilescan = false
  | _ => True

def AllFine : List Turn → Board → Prop
  | [], _ => True
  | turn :: turns, b => Fine b turn ∧ AllFine turns (turn.apply b).1

instance (b : Board) : DecidablePred (Fine b)
  | .ui env key => inferInstanceAs (Decidable (opens env key b.ui = true → b.allocated = true))
  | .reload _ => inferInstanceAs (Decidable (b.ui.delayedFilescan = false))
  | .message | .status | .error _ => inferInstanceAs (Decidable True)

instance decidableAllFine : ∀ (turns : List Turn) (b : Board), Decidable (AllFine turns b)
  | [], _ => inferInstanceAs (Decidable True)
  | turn :: turns, b =>
    have : Decidable (AllFine turns (turn.apply b).1) := decidableAllFine turns (turn.apply b).1
    inferInstanceAs (Decidable (_ ∧ _))

/-! ### The invariant -/

/-- Where the browser is shown or is to be scanned, the structure is of the current directory. -/
structure Ready (s : Status) (scan : DirScan) : Prop where
  browsing : s.menuState = .fileBrowser → scan = some .actDir
  pending : s.delayedFilescan = true → scan = some .actDir

/-- The browser is neither opened nor asked to scan. -/
structure Stays (s t : Status) : Prop where
  browsing : t.menuState = .fileBrowser → s.menuState = .fileBrowser
  pending : t.delayedFilescan = true → s.delayedFilescan = true

theorem Ready.stays {t : Status} {scan : DirScan} (h : Ready s scan) (hst : Stays s t) :
    Ready t scan :=
  ⟨fun hb => h.browsing (hst.browsing hb), fun hp => h.pending (hst.pending hp)⟩

theorem Stays.rfl : Stays s s := ⟨id, id⟩

theorem Stays.trans {t u : Status} (h : Stays s t) (h' : Stays t u) : Stays s u :=
  ⟨fun hb => h.browsing (h'.browsing hb), fun hp => h.pending (h'.pending hp)⟩

/-- A state that is not asked for is not shown, but for that of USB. -/
theorem setState_ne {state x : MenuState} (h : state ≠ x) (hx : MenuState.usbStatus ≠ x)
    (s : Status) : (setState state s).menuState ≠ x := by
  rw [setState]
  split
  · exact hx
  · exact h

theorem browser_setState {state : MenuState} (h : state ≠ .fileBrowser) (s : Status) :
    (setState state s).menuState ≠ .fileBrowser := setState_ne h MenuState.noConfusion s

/-- Another screen is shown. -/
theorem stays_of_ne {t : Status} (h : t.menuState ≠ .fileBrowser)
    (hp : t.delayedFilescan = s.delayedFilescan) : Stays s t :=
  ⟨fun hb => absurd hb h, fun ht => hp.symm.trans ht⟩

theorem stays_setState {state : MenuState} (h : state ≠ .fileBrowser) :
    Stays s (setState state s) :=
  stays_of_ne (browser_setState h s) rfl

/-- The calls find the structure as they need it, and leave it so. -/
structure Scanned (scan : DirScan) (calls : List Filesel) (t : Status) : Prop where
  sound : ∀ u ∈ uses scan calls, u.Sound
  ready : Ready t (left scan calls)

theorem scanned_nil {scan : DirScan} (h : Ready s scan) : Scanned scan [] s :=
  ⟨fun _ hu => absurd hu List.not_mem_nil, h⟩

theorem uses_append : ∀ (scan : DirScan) (calls calls' : List Filesel),
    uses scan (calls ++ calls') = uses scan calls ++ uses (left scan calls) calls'
  | _, [], _ => rfl
  | scan, call :: calls, calls' => congrArg (_ :: ·) (uses_append (call.after scan) calls calls')

theorem left_append : ∀ (scan : DirScan) (calls calls' : List Filesel),
    left scan (calls ++ calls') = left (left scan calls) calls'
  | _, [], _ => rfl
  | scan, call :: calls, calls' => left_append (call.after scan) calls calls'

theorem Scanned.append {scan : DirScan} {calls calls' : List Filesel} {t : Status}
    (h : Scanned scan calls s) (h' : Scanned (left scan calls) calls' t) :
    Scanned scan (calls ++ calls') t := by
  refine ⟨fun u hu => ?_, ?_⟩
  · rw [uses_append] at hu
    rcases List.mem_append.mp hu with hu | hu
    · exact h.sound u hu
    · exact h'.sound u hu
  · rw [left_append]
    exact h'.ready

/-- In the current directory every call is sound, and it stays the current one. -/
theorem scanned_actDir : ∀ (calls : List Filesel) (t : Status), Scanned (some .actDir) calls t
  | [], _ => scanned_nil ⟨fun _ => rfl, fun _ => rfl⟩
  | call :: calls, t => by
    have hafter : call.after (some .actDir) = some .actDir := by cases call <;> rfl
    have hsound : Use.Sound ⟨call, some .actDir⟩ := by cases call <;> decide
    have ih := scanned_actDir calls t
    refine ⟨fun u hu => ?_, ?_⟩
    · rw [uses, hafter] at hu
      rcases List.mem_cons.mp hu with rfl | hu
      · exact hsound
      · exact ih.sound u hu
    · rw [left, hafter]
      exact ih.ready

/-- An item opens the browser. -/
theorem scanned_open {scan : DirScan} (h : scan ≠ none) (t : Status) :
    Scanned scan [.init, .scanFirst] t := by
  obtain ⟨p, rfl⟩ := Option.ne_none_iff_exists'.mp h
  refine ⟨fun u hu => ?_, ⟨fun _ => rfl, fun _ => rfl⟩⟩
  rcases List.mem_cons.mp hu with rfl | hu
  · exact h
  · exact (scanned_actDir [.scanFirst] t).sound u hu

/-! ### The handlers -/

/-- Unless the item opens the browser, choosing it leaves the browser alone. -/
theorem executeSelect_stays {ch : Channel} {drive : UInt32}
    (h : ¬ (s.enabled ch drive && !env.inserted ch drive) = true) :
    Stays s (executeSelect env ch drive s).1 := by
  rw [executeSelect]
  split
  · next hena =>
    split
    · split
      · exact Stays.rfl
      · exact Stays.rfl
    · next hins => exact absurd (by rw [hena, Bool.eq_false_iff.mpr hins]; rfl) h
  · exact Stays.rfl

theorem menuExecute_stays {item : Item} (h : ¬ item.browses env s = true) :
    Stays s (menuExecute env item s).1 := by
  rw [Item.browses.eq_def] at h
  rw [menuExecute]
  split
  · next ha =>
    rw [ha] at h
    exact executeSelect_stays h
  · next ha =>
    rw [ha] at h
    exact executeSelect_stays h
  · next ha =>
    rw [ha] at h
    exact absurd rfl h
  · next ha =>
    rw [ha] at h
    exact absurd rfl h
  · next ha =>
    rw [ha] at h
    exact absurd rfl h
  · exact stays_of_ne (browser_setState (by decide) s) rfl
  · next ha =>
    rw [ha] at h
    split
    · next ho =>
      simp only [ho] at h
      exact absurd trivial h
    · exact Stays.rfl
  · split
    · exact stays_of_ne (browser_setState (by decide) s) rfl
    · exact Stays.rfl
  · exact ⟨id, id⟩
  · exact stays_of_ne (browser_setState (by decide) s) rfl
  · exact stays_of_ne (browser_setState (by decide) s) rfl
  · exact stays_of_ne (browser_setState (by decide) s) rfl
  · exact stays_of_ne (browser_setState (by decide) s) rfl
  · exact Stays.rfl
  · exact Stays.rfl

theorem executeSelect_opens {ch : Channel} {drive : UInt32}
    (h : (s.enabled ch drive && !env.inserted ch drive) = true) :
    executeSelect env ch drive s = (setState .fileBrowser s, [], true) := by
  obtain ⟨hena, hins⟩ := Bool.and_eq_true_iff.mp h
  have hempty : ¬ env.inserted ch drive = true := by simpa using hins
  rw [executeSelect, if_pos hena, if_neg hempty]

theorem menuExecute_opens {item : Item} (h : item.browses env s = true) :
    menuExecute env item s = (setState .fileBrowser s, [], true) := by
  rw [Item.browses.eq_def] at h
  rw [menuExecute]
  split
  · next ha =>
    rw [ha] at h
    exact executeSelect_opens h
  · next ha =>
    rw [ha] at h
    exact executeSelect_opens h
  · rfl
  · rfl
  · rfl
  · next ha =>
    rw [ha] at h
    exact absurd h Bool.false_ne_true
  · next ha =>
    rw [ha] at h
    simp only at h
    split at h
    · next ho => simp only [ho]
    · exact absurd h Bool.false_ne_true
  all_goals
    next ha =>
    rw [ha] at h
    exact absurd h Bool.false_ne_true

/-- A handler that leaves the browser alone, and calls nothing of it. -/
theorem scanned_stays {scan : DirScan} (h : Ready s scan) {t : Status} (hst : Stays s t) :
    Scanned scan [] t := scanned_nil (h.stays hst)

theorem menuEnter_scanned {scan : DirScan} (h : Ready s scan)
    (hopen : s.item.any (·.browses env s) = true → scan ≠ none) :
    Scanned scan (menuEnterScans env key s) (keyActionMenuEnter env key s).1 := by
  rw [menuEnterScans, keyActionMenuEnter]
  cases hitem : s.item with
  | none => exact scanned_nil h
  | some item =>
    simp only
    split
    · next hb =>
      refine scanned_open (hopen ?_) _
      rw [hitem]
      exact hb
    · next hb => exact scanned_stays h (menuExecute_stays hb)

theorem keyActionMenu_stays {m : KeyMapping × Scans}
    (hm : m ∈ keymappingsMenu.zip (scans .showMenu))
    (hne : m ≠ (⟨keyMask, keyEnter, keyActionMenuEnter⟩, menuEnterScans)) :
    m.2 = noScans ∧ Stays s (m.1.action env key s).1 := by
  simp only [keymappingsMenu, scans, List.zip_cons_cons, List.zip_nil_right, List.mem_cons,
    List.not_mem_nil, or_false] at hm
  rcases hm with rfl | rfl | rfl | rfl | rfl | rfl | rfl
  · refine ⟨rfl, ?_⟩
    show Stays s (keyActionMenuProtect env key s).1
    rw [keyActionMenuProtect]
    split
    · split
      · exact Stays.rfl
      · split
        · exact Stays.rfl
        · exact Stays.rfl
    · exact Stays.rfl
  · refine ⟨rfl, ?_⟩
    show Stays s (keyActionMenuLeft env key s).1
    rw [keyActionMenuLeft]
    split
    · split
      · exact Stays.rfl
      · exact Stays.rfl
    · split
      · exact ⟨id, id⟩
      · exact stays_setState (by decide)
  · refine ⟨rfl, ?_⟩
    show Stays s (keyActionMenuRight env key s).1
    rw [keyActionMenuRight]
    split
    · split
      · exact Stays.rfl
      · exact Stays.rfl
    · split
      · split
        · exact ⟨id, id⟩
        · exact stays_setState (by decide)
      · exact stays_setState (by decide)
  · refine ⟨rfl, ?_⟩
    show Stays s (keyActionMenuUp env key s).1
    rw [keyActionMenuUp]
    split
    · split
      · split
        · exact ⟨id, id⟩
        · exact ⟨id, id⟩
      · split
        · exact ⟨id, id⟩
        · exact Stays.rfl
    · exact Stays.rfl
  · refine ⟨rfl, ?_⟩
    show Stays s (keyActionMenuDown env key s).1
    rw [keyActionMenuDown]
    split
    · split
      · split
        · exact ⟨id, id⟩
        · exact ⟨id, id⟩
      · exact Stays.rfl
    · exact Stays.rfl
    · split
      · split
        · exact Stays.rfl
        · exact ⟨id, id⟩
      · exact Stays.rfl
  · exact absurd rfl hne
  · refine ⟨rfl, ?_⟩
    show Stays s (keyActionMenuEsc env key s).1
    rw [keyActionMenuEsc]
    split
    · exact ⟨id, id⟩
    · exact stays_of_ne (browser_setState (by decide) s) rfl

theorem keyActionShowstatus_stays {m : KeyMapping × Scans}
    (hm : m ∈ keymappingsShowstatus.zip (scans .showStatus)) :
    m.2 = noScans ∧ Stays s (m.1.action env key s).1 := by
  simp only [keymappingsShowstatus, scans, List.zip_cons_cons, List.zip_nil_right, List.mem_cons,
    List.not_mem_nil, or_false] at hm
  rcases hm with rfl | rfl
  · refine ⟨rfl, ?_⟩
    show Stays s (keyActionShowstatusLeft env key s).1
    rw [keyActionShowstatusLeft]
    split
    · exact stays_of_ne (browser_setState (by decide) _) rfl
    · exact Stays.rfl
  · refine ⟨rfl, ?_⟩
    show Stays s (keyActionShowstatusRight env key s).1
    rw [keyActionShowstatusRight]
    split
    · exact stays_of_ne (browser_setState (by decide) _) rfl
    · exact Stays.rfl

/-- A rescan that is due is one that was pending. -/
theorem scanned_due {scan : DirScan} (h : Ready s scan) {t : Status} (hst : Stays s t) :
    Scanned scan (dueScans env s) t := by
  rw [dueScans]
  split
  · next hdue =>
    have hp : s.delayedFilescan = true := (Bool.and_eq_true_iff.mp hdue).1
    rw [h.pending hp]
    exact scanned_actDir _ t
  · exact scanned_stays h hst

theorem menuUpdate_stays : Stays s (menuUpdate env s).1 := by
  have hshow : ∀ t, (setState .showStatus t).menuState ≠ .fileBrowser := fun t =>
    browser_setState (by decide) t
  have hredraw : ∀ {d : Bool}, (d && !env.scanTimer) = true → d = true := fun h =>
    (Bool.and_eq_true_iff.mp h).1
  rw [menuUpdate]
  split
  · exact ⟨id, id⟩
  split
  · simp only
    split
    · exact stays_of_ne (hshow { s with usbMounted := false }) rfl
    · split
      · exact stays_of_ne (hshow { s with usbMounted := true }) rfl
      · exact stays_of_ne (hshow s) rfl
  split
  · exact stays_of_ne (hshow s) rfl
  split
  · exact ⟨fun hb => absurd hb (hshow (initUi s)), hredraw⟩
  split
  · exact ⟨fun hb => absurd hb (hshow s), hredraw⟩
  · exact stays_of_ne (hshow s) rfl

theorem popupEnter_scanned {scan : DirScan} (h : Ready s scan) :
    Scanned scan (popupEnterScans env key s) (keyActionPopupEnter env key s).1 := by
  have hno : (setState .noMenu s).menuState ≠ .fileBrowser := browser_setState (by decide) s
  have hst : Stays s (setState .noMenu s) := stays_setState (by decide)
  by_cases hsel : s.selected = true
  · have hst' : Stays s (menuUpdate env (setState .noMenu s)).1 := hst.trans menuUpdate_stays
    rw [popupEnter_yes hsel, popupEnterScans, if_pos hsel]
    split
    · exact scanned_stays h hst'
    · split
      · exact scanned_due h hst'
      · exact scanned_stays h hst'
  · rw [popupEnter_no hsel, popupEnterScans, if_neg hsel]
    exact scanned_stays h (stays_of_ne hno rfl)

theorem keyActionPopup_scanned {scan : DirScan} (h : Ready s scan) {m : KeyMapping × Scans}
    (hm : m ∈ keymappingsPopup.zip (scans .popupMenu)) :
    Scanned scan (m.2 env key s) (m.1.action env key s).1 := by
  simp only [keymappingsPopup, scans, List.zip_cons_cons, List.zip_nil_right, List.mem_cons,
    List.not_mem_nil, or_false] at hm
  rcases hm with rfl | rfl | rfl | rfl
  · exact scanned_stays h ⟨id, id⟩
  · exact scanned_stays h ⟨id, id⟩
  · show Scanned scan (popupEnterScans env key s) (keyActionPopupEnter env key s).1
    exact popupEnter_scanned h
  · exact scanned_stays h (stays_setState (by decide))

/-! ### A key -/

theorem map_fst_scans (state : MenuState) :
    ((keymappings state).zip (scans state)).map Prod.fst = keymappings state := by
  cases state <;> rfl

/-- The handler of a key, with what it calls. -/
theorem pressKey_eq (env : Env) (key : UInt16) (s : Status) (update : Bool) :
    (pressScans env key s = [] ∧ pressKey env key update s = (s, [], update)) ∨
      ∃ m ∈ (keymappings s.menuState).zip (scans s.menuState), m.1.takes key = true ∧
        pressScans env key s = m.2 env key s ∧
        pressKey env key update s = m.1.action env key s := by
  have hfind : (keymappings s.menuState).find? (·.takes key) =
      (((keymappings s.menuState).zip (scans s.menuState)).find? (·.1.takes key)).map Prod.fst := by
    conv_lhs => rw [← map_fst_scans s.menuState, List.find?_map]
    rfl
  rw [pressScans, pressKey, hfind]
  cases hm : ((keymappings s.menuState).zip (scans s.menuState)).find? (·.1.takes key) with
  | none => exact Or.inl ⟨rfl, rfl⟩
  | some m =>
    have htakes : m.1.takes key = true := by simpa using List.find?_some hm
    exact Or.inr ⟨m, List.mem_of_find?_eq_some hm, htakes, rfl, rfl⟩

theorem pressKey_scanned {scan : DirScan} (h : Ready s scan) (update : Bool)
    (hopen : s.menuState = .showMenu → key &&& keyMask = keyEnter →
      s.item.any (·.browses env s) = true → scan ≠ none) :
    Scanned scan (pressScans env key s) (pressKey env key update s).1 := by
  rcases pressKey_eq env key s update with ⟨hs, ht⟩ | ⟨m, hm, htakes, hs, ht⟩
  · rw [hs, ht]
    exact scanned_nil h
  rw [hs, ht]
  cases hstate : s.menuState with
  | noMenu =>
    rw [hstate] at hm
    exact absurd hm List.not_mem_nil
  | showMenu =>
    rw [hstate] at hm
    by_cases hne : m = (⟨keyMask, keyEnter, keyActionMenuEnter⟩, menuEnterScans)
    · subst hne
      have hk : key &&& keyMask = keyEnter := (takes_iff (by decide) _).mp htakes
      show Scanned scan (menuEnterScans env key s) (keyActionMenuEnter env key s).1
      exact menuEnter_scanned h (hopen hstate hk)
    · obtain ⟨hno, hst⟩ : m.2 = noScans ∧ Stays s (m.1.action env key s).1 :=
        keyActionMenu_stays hm hne
      rw [hno]
      exact scanned_stays h hst
  | fileBrowser =>
    rw [h.browsing hstate]
    exact scanned_actDir _ _
  | showStatus =>
    rw [hstate] at hm
    obtain ⟨hno, hst⟩ : m.2 = noScans ∧ Stays s (m.1.action env key s).1 :=
      keyActionShowstatus_stays hm
    rw [hno]
    exact scanned_stays h hst
  | popupMenu =>
    rw [hstate] at hm
    exact keyActionPopup_scanned h hm
  | usbStatus =>
    rw [hstate] at hm
    rw [List.mem_singleton.mp hm]
    exact scanned_stays h (stays_of_ne (browser_setState (by decide) s) rfl)

/-! ### `MENU_handle_ui` -/

theorem updateUi_stays : Stays s (updateUi s) := by
  rw [updateUi]
  split
  · exact ⟨id, id⟩
  · exact Stays.rfl

theorem finish_stays (r : Result) : Stays r.1 (finish env r).1 := by
  obtain ⟨s, calls, update⟩ := r
  have hscan : Stays s { s with delayedFilescan := s.delayedFilescan && !env.scanTimer } :=
    ⟨id, fun h => (Bool.and_eq_true_iff.mp h).1⟩
  rw [finish]
  simp only
  split
  · exact hscan.trans updateUi_stays
  · exact hscan

theorem finish_scanned {scan : DirScan} {r : Result} (h : Ready r.1 scan) :
    Scanned scan (finishScans env r) (finish env r).1 := by
  have hst : Stays r.1 (finish env r).1 := finish_stays r
  obtain ⟨s, calls, update⟩ := r
  rw [finishScans]
  refine (scanned_due h Stays.rfl).append ?_
  have hs : Ready s (left scan (dueScans env s)) := (scanned_due h Stays.rfl).ready
  split
  · rw [drawScans]
    split
    · next hb =>
      rw [hs.browsing hb]
      exact scanned_actDir _ _
    · exact scanned_stays hs hst
  · exact scanned_stays hs hst

theorem timeout_stays {update : Bool} : Stays s (timeout env key update s).1 := by
  rw [timeout]
  split
  · split
    · exact ⟨id, id⟩
    · split
      · split
        · exact ⟨id, id⟩
        · exact stays_of_ne (browser_setState (by decide) _) rfl
      · exact Stays.rfl
  · split
    · exact stays_of_ne (browser_setState (by decide) s) rfl
    · exact Stays.rfl

/-- A menu that outlasts the time-out was there before. -/
theorem timeout_menu {update : Bool} (h : (timeout env key update s).1.menuState = .showMenu) :
    ¬ (s.osdTimeout = 0 ∧ update = true) ∧
      ∃ cnt, (timeout env key update s).1 = { s with osdTimeoutCnt := cnt } := by
  rw [timeout] at h ⊢
  split at h
  · next hshow =>
    have hforced : ¬ (s.osdTimeout = 0 ∧ update = true) := fun h0 => hshow.2 h0.1
    rw [if_pos hshow]
    split at h
    · next hkey =>
      rw [if_pos hkey]
      exact ⟨hforced, _, rfl⟩
    · next hkey =>
      rw [if_neg hkey]
      split at h
      · next htimer =>
        rw [if_pos htimer]
        split at h
        · next hcnt =>
          rw [if_pos hcnt]
          exact ⟨hforced, _, rfl⟩
        · exact absurd h (setState_ne (by decide) (by decide) _)
      · next htimer =>
        rw [if_neg htimer]
        exact ⟨hforced, s.osdTimeoutCnt, rfl⟩
  · next hhide =>
    rw [if_neg hhide]
    split at h
    · exact absurd h (setState_ne (by decide) (by decide) s)
    · next hupdate =>
      rw [if_neg hupdate]
      exact ⟨fun h0 => hupdate h0.2, s.osdTimeoutCnt, rfl⟩

theorem verify_stays : Stays s (verify env s) := by
  rw [verify]
  split
  · split
    · exact ⟨id, id⟩
    · exact stays_of_ne (browser_setState (by decide) s) rfl
  · exact Stays.rfl

/-- Verification that leaves the menu asks nothing. -/
theorem verify_menu (h : (verify env s).menuState = .showMenu) :
    ¬ (s.verifyFlashFw = true ∧ env.srecords.isSome = true) ∧
      ∃ v, verify env s = { s with verifyFlashFw := v } := by
  rw [verify] at h ⊢
  split at h
  · next hv =>
    rw [if_pos hv]
    split at h
    · next hnone =>
      rw [hnone]
      exact ⟨fun hsome => absurd hsome.2 (by decide), _, rfl⟩
    · exact absurd h (setState_ne (by decide) (by decide) s)
  · next hv =>
    rw [if_neg hv]
    exact ⟨fun hsome => hv hsome.1, s.verifyFlashFw, rfl⟩

/-- What `MENU_handle_ui` calls finds the structure, where an item that opens the browser does. -/
theorem handleUi_scanned {scan : DirScan} (h : Ready s scan)
    (hopen : opens env key s = true → scan ≠ none) :
    Scanned scan (handleUiScans env key s) (handleUi env key s).1 := by
  have hupdate : Stays s { s with update := false } := ⟨id, id⟩
  have hst : Stays s (timeout env key s.update { s with update := false }).1 :=
    hupdate.trans timeout_stays
  rw [handleUiScans, handleUi]
  split
  · exact scanned_nil h
  next hr =>
  cases htimeout : timeout env key s.update { s with update := false } with
  | mk s' hidden =>
    rw [htimeout] at hst
    cases hidden with
    | true => exact scanned_stays h hst
    | false =>
      have ht : Ready (verify env s') scan := h.stays (hst.trans verify_stays)
      simp only
      split
      · split
        · exact scanned_stays ht (stays_setState (by decide))
        · refine finish_scanned ?_
          exact ht.stays (stays_of_ne (browser_setState (by decide) (verify env s')) rfl)
      · have hpress : Scanned scan (pressScans env key (verify env s'))
            (pressKey env key s.update (verify env s')).1 := by
          refine pressKey_scanned ht s.update fun hm hk hitem => ?_
          obtain ⟨hverify, v, hv⟩ := verify_menu hm
          rw [hv] at hm hitem
          have hm' : (timeout env key s.update { s with update := false }).1.menuState =
              .showMenu := by
            rw [htimeout]
            exact hm
          obtain ⟨hforced, cnt, hcnt⟩ := timeout_menu hm'
          rw [htimeout] at hcnt
          subst hcnt
          exact hopen (decide_eq_true ⟨hm, hk, not_not.mp hr, hforced, hverify, hitem⟩)
        exact hpress.append (finish_scanned hpress.ready)

/-! ### The board -/

theorem left_eq_none : ∀ {scan : DirScan} {calls : List Filesel},
    left scan calls = none ↔ scan = none
  | _, [] => Iff.rfl
  | scan, call :: calls => by
    have hafter : call.after scan = none ↔ scan = none := by
      cases scan <;> cases call <;> simp [Filesel.after]
    rw [left, left_eq_none, hafter]

/-- The structure is neither allocated nor freed, and found as it is needed. -/
structure Kept (b : Board) (r : Board × List Use) : Prop where
  pending : r.1.ui.delayedFilescan = true → r.1.dirScan = some .actDir
  sound : ∀ u ∈ r.2, u.Sound
  dirScan : r.1.dirScan = none ↔ b.dirScan = none
  start : r.1.start = b.start

theorem callUi_kept (env : Env) (key : UInt16) (b : Board) (h : Ready b.ui b.dirScan)
    (hopen : opens env key b.ui = true → b.dirScan ≠ none) :
    Kept b (callUi env key b) ∧ Ready (callUi env key b).1.ui (callUi env key b).1.dirScan := by
  have hscanned := handleUi_scanned h hopen
  exact ⟨⟨hscanned.ready.pending, hscanned.sound, left_eq_none, rfl⟩, hscanned.ready⟩

/-- No key opens nothing. -/
theorem opens_zero : opens env 0 s = false := by
  refine decide_eq_false fun h => ?_
  exact absurd h.2.1 (by decide)

/-- An error leaves the browser, so only a rescan that waits can touch the structure. -/
theorem showError_kept (env : Env) {b : Board}
    (h : b.ui.delayedFilescan = true → b.dirScan = some .actDir) :
    Kept b (showError env b) ∧ Ready (showError env b).1.ui (showError env b).1.dirScan := by
  let shown : Board := { b with ui := { setState .showStatus (initUi b.ui) with update := true } }
  have hready : Ready shown.ui shown.dirScan :=
    ⟨fun hb => absurd hb (browser_setState (by decide) _), h⟩
  obtain ⟨hkept, hready'⟩ := callUi_kept env 0 shown hready fun ho =>
    absurd (opens_zero.symm.trans ho) Bool.false_ne_true
  exact ⟨⟨hkept.pending, hkept.sound, hkept.dirScan, hkept.start⟩, hready'⟩

theorem showErrors_kept : ∀ (envs : List Env) {b : Board},
    (b.ui.delayedFilescan = true → b.dirScan = some .actDir) → Kept b (showErrors envs b)
  | [], _, h => ⟨h, fun _ hu => absurd hu List.not_mem_nil, Iff.rfl, rfl⟩
  | env :: envs, b, h => by
    have hfirst : Kept b (showError env b) := (showError_kept env h).1
    have hrest := showErrors_kept envs hfirst.pending
    refine ⟨hrest.pending, fun u hu => ?_, hrest.dirScan.trans hfirst.dirScan,
      hrest.start.trans hfirst.start⟩
    rcases List.mem_append.mp hu with hu | hu
    · exact hfirst.sound u hu
    · exact hrest.sound u hu

theorem initCore_stays (setup : Setup) : Stays s (initCore setup s) := by
  rw [initCore]
  simp only
  split
  · exact stays_of_ne (browser_setState (by decide) _) rfl
  · exact stays_of_ne (browser_setState (by decide) _) rfl

theorem initCore_browser (setup : Setup) : (initCore setup s).menuState ≠ .fileBrowser := by
  rw [initCore]
  simp only
  split
  · exact browser_setState (by decide) _
  · exact browser_setState (by decide) _

/-- What holds of the board between two turns. -/
structure Steady (b : Board) : Prop where
  ready : Ready b.ui b.dirScan
  allocated : b.allocated = true → b.dirScan ≠ none

/-- A board whose structure is there as often as before. -/
theorem Kept.steady {b : Board} {r : Board × List Use} (h : Kept b r)
    (hready : Ready r.1.ui r.1.dirScan) (hb : b.allocated = true → b.dirScan ≠ none) :
    Steady r.1 := by
  refine ⟨hready, fun ha hnone => hb ?_ (h.dirScan.mp hnone)⟩
  rw [Board.allocated, h.start] at ha
  exact ha

/-- `CFG_init` allocates the structure, where there is the Syscon and the memory. -/
theorem cfgInit_kept (start : Start) {b : Board} (h : b.ui.delayedFilescan = false) :
    ((cfgInit start b).1.ui.delayedFilescan = true → (cfgInit start b).1.dirScan = some .actDir) ∧
      (∀ u ∈ (cfgInit start b).2, u.Sound) ∧
      (start.syscon = true → start.memory = true → (cfgInit start b).1.dirScan ≠ none) := by
  have hno : ∀ {scan : DirScan}, b.ui.delayedFilescan = true → scan = some .actDir := fun hp =>
    absurd (h.symm.trans hp) Bool.false_ne_true
  rw [cfgInit]
  split
  · let cleared : Board := { b with dirScan := if start.memory = true then some .null else none }
    have hkept : Kept cleared (showErrors start.late cleared) := showErrors_kept _ hno
    refine ⟨hkept.pending, hkept.sound, fun _ hm hnone => ?_⟩
    have hcleared : cleared.dirScan = some .null := if_pos hm
    exact Option.some_ne_none _ (hcleared.symm.trans (hkept.dirScan.mp hnone))
  · next hsys => exact ⟨hno, fun _ hu => absurd hu List.not_mem_nil, fun hs => absurd hs hsys⟩

theorem reload_steady {b : Board} (start : Start) (h : b.ui.delayedFilescan = false) :
    Steady (reload start b).1 ∧ ∀ u ∈ (reload start b).2, u.Sound := by
  have hearly : Kept (freeMenu b) (showErrors start.early (freeMenu b)) :=
    showErrors_kept _ fun hp => absurd (h.symm.trans hp) Bool.false_ne_true
  have hnone : (showErrors start.early (freeMenu b)).1.dirScan = none := hearly.dirScan.mpr rfl
  -- a rescan that waited would have needed the structure
  have hidle : (showErrors start.early (freeMenu b)).1.ui.delayedFilescan = false := by
    refine Bool.eq_false_iff.mpr fun hp => ?_
    exact Option.some_ne_none _ ((hearly.pending hp).symm.trans hnone)
  rw [reload]
  simp only
  split
  · next hemb =>
    have hlate := showErrors_kept start.late hearly.pending
    refine ⟨⟨⟨fun hb => absurd hb (initCore_browser _), fun hp => ?_⟩, fun ha => ?_⟩,
      fun u hu => ?_⟩
    · exact hlate.pending ((initCore_stays _).pending hp)
    · have ha' : start.allocates = true := ha
      rw [Start.allocates, hemb] at ha'
      exact absurd ha' Bool.false_ne_true
    · rcases List.mem_append.mp hu with hu | hu
      · exact hearly.sound u hu
      · exact hlate.sound u hu
  · obtain ⟨hpending, hsound, halloc⟩ :=
      cfgInit_kept start (b := freeMenu (showErrors start.early (freeMenu b)).1) hidle
    refine ⟨⟨⟨fun hb => absurd hb (initCore_browser _), fun hp => ?_⟩, fun ha => ?_⟩,
      fun u hu => ?_⟩
    · exact hpending ((initCore_stays _).pending hp)
    · obtain ⟨hsys, hmem⟩ := Bool.and_eq_true_iff.mp ha
      exact halloc (Bool.and_eq_true_iff.mp hsys).2 hmem
    · rcases List.mem_append.mp hu with hu | hu
      · exact hearly.sound u hu
      · exact hsound u hu

/-! ### Runs -/

theorem Turn.apply_steady {b : Board} (h : Steady b) {turn : Turn} (hf : Fine b turn) :
    Steady (turn.apply b).1 ∧ ∀ u ∈ (turn.apply b).2, u.Sound := by
  have hnil : ∀ u ∈ ([] : List Use), u.Sound := fun _ hu => absurd hu List.not_mem_nil
  rw [Turn.apply.eq_def]
  split
  · exact ⟨h, hnil⟩
  cases turn with
  | ui env key =>
    obtain ⟨hkept, hready⟩ := callUi_kept env key b h.ready fun ho => h.allocated (hf ho)
    exact ⟨hkept.steady hready h.allocated, hkept.sound⟩
  | message =>
    have hst : Stays b.ui (Event.message.apply b.ui).1 := by
      rw [Event.apply.eq_def]
      split
      · exact Stays.rfl
      · exact ⟨id, id⟩
    exact ⟨⟨h.ready.stays hst, h.allocated⟩, hnil⟩
  | status =>
    have hst : Stays b.ui (Event.status.apply b.ui).1 := by
      rw [Event.apply.eq_def]
      split
      · exact Stays.rfl
      · exact stays_of_ne (browser_setState (by decide) b.ui) rfl
    exact ⟨⟨h.ready.stays hst, h.allocated⟩, hnil⟩
  | error env =>
    obtain ⟨hkept, hready⟩ := showError_kept env h.ready.pending
    exact ⟨hkept.steady hready h.allocated, hkept.sound⟩
  | reload start => exact reload_steady start hf

theorem play_steady : ∀ (turns : List Turn) {b : Board}, Steady b → AllFine turns b →
    Steady (play turns b).1 ∧ ∀ u ∈ (play turns b).2, u.Sound
  | [], _, h, _ => ⟨h, fun _ hu => absurd hu List.not_mem_nil⟩
  | turn :: turns, b, h, ⟨hf, hrest⟩ => by
    obtain ⟨hfirst, hsound⟩ := turn.apply_steady h hf
    obtain ⟨hlast, hsound'⟩ := play_steady turns hfirst hrest
    refine ⟨hlast, fun u hu => ?_⟩
    rcases List.mem_append.mp hu with hu | hu
    · exact hsound u hu
    · exact hsound' u hu

/-- The board before the first core is loaded -/
def powerOn : Board where
  ui := { hidden with menuTop := [], menuAct := none, menuItemAct := none, coreLoaded := false }
  dirScan := none
  start := none

/-- In every run in which no item opens the browser without a Syscon, and no core is loaded while a
    rescan waits, the browser has its structure, and no function of it is called without. -/
theorem play_safe (turns : List Turn) (h : AllFine turns powerOn) : Safe (play turns powerOn) := by
  have hstart : Steady powerOn :=
    ⟨⟨MenuState.noConfusion, fun hp => absurd hp Bool.false_ne_true⟩,
      fun ha => absurd ha Bool.false_ne_true⟩
  obtain ⟨hsteady, hsound⟩ := play_steady turns hstart h
  exact ⟨hsteady.ready.browsing, hsound⟩

/-- Nothing going on, but for the timers of the OSD and of the rescan -/
def idle (timer : Bool) : Env :=
  { osdTimer := timer, scanTimer := timer, newRate := false, srecords := none
    inserted := fun _ _ => false, protect := fun _ _ => false, isDir := false, isDot := false
    named := true, uploaded := false, unmounted := false }

/-- An item of `CFG_add_default` -/
def defaultItem (name : String) (actionName : ActionName) : Item where
  itemName := name.toList.map fun c => c.toNat.toUInt8
  actionName := actionName
  actionValue := 0
  optionList := [[]]

def replayMenu : Sheet :=
  [defaultItem "Load Target" .iniselect, defaultItem "Reset Target" .reset,
    defaultItem "Reboot Board" .reboot, defaultItem "SDCard over USB" .mountmsc]

/-- A core with the default menu, that is loaded from the card. -/
def started (syscon : Bool) : Turn :=
  .reload
    { early := [], embedded := false, syscon := syscon, memory := true, late := []
      setup :=
        { menuTop := [replayMenu], osdInit := true, osdTimeout := 30, fileioEna := fun _ => 0
          removable := fun _ => false } }

/-- "Load Target" is chosen. -/
def loadTarget : List Turn := [keyRight, keyDown, keyEnter].map (.ui (idle false))

/-- Without a Syscon the browser is opened all the same, and typing into it asks for a rescan that
    the next core finds waiting. -/
theorem play_unsafe :
    ¬ Safe (play (started false :: loadTarget) powerOn) ∧
      ¬ Safe (play (started true :: loadTarget ++ [.ui (idle false) 0x41,
        .ui (idle false) keyEnter, started true, .ui (idle true) 0]) powerOn) := by
  decide

theorem play_safe_loadTarget :
    Safe (play (started true :: loadTarget ++
      [.ui (idle false) 0x41, .ui (idle true) 0]) powerOn) :=
  play_safe _ (by decide)

end Menu
