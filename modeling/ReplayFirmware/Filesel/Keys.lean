import ReplayFirmware.Filesel.Pages
import ReplayFirmware.Menu.Popups
import Mathlib.Data.UInt

/-! The keys of the file browser, with the structure that it scans into.

    Between two scans the structure stands on an entry of the directory or holds nothing: a letter typed
    into the filter empties it until the timer of the rescan is due. ENTER takes the selected entry, or
    the empty one where nothing is selected. Loading a file asks whether the entry has a name; inserting
    an image and loading an INI file do not. -/

namespace Filesel
open Libc

/-! ### The structure under the keys -/

/-- `Filesel_Init` -/
def init (pPath : List UInt8) (file_exts : Option (List (List UInt8))) (s : TDirScan) : TDirScan :=
  (Edit.changeDir pPath).apply { s with file_exts := file_exts }

/-- The loop of `_MENU_back_dir` -/
def backDirFrom (pPath : List UInt8) : ℕ → List UInt8
  | 0 => pPath
  | i + 1 => if charAt pPath i = 0x5C then pPath.take (i + 1) else backDirFrom pPath i

/-- `_MENU_back_dir` -/
def backDir (pPath : List UInt8) : List UInt8 :=
  if pPath.length < 2 then [0x5C] else backDirFrom pPath (pPath.length - 1)

/-- What a key does to the structure, whose path is `act_dir`. -/
abbrev ScanHandler := Volume → UInt16 → TDirScan → Option TDirScan

def keep : ScanHandler := fun _ _ s => some s

/-- `key_action_filebrowser_left`, `_right`, `_up` and `_down` -/
def turn (opt : ScanOpt) : ScanHandler := fun vol _ s => (update vol opt s).map Prod.snd

/-- `Filesel_ChangeDir` and `Filesel_ScanFirst` -/
def scanDir (vol : Volume) (pPath : List UInt8) (s : TDirScan) : TDirScan :=
  scanFirst vol ((Edit.changeDir pPath).apply s)

/-- `key_action_filebrowser_enter`; an action that changes `act_dir` leaves the browser. -/
def enter : ScanHandler := fun vol _ s =>
  let mydir := getEntry s s.sel
  if mydir.isDir = true then
    if strnicmpEq mydir.fileName.chars [0x2E] maxFilename = true then some s
    else if strnicmpEq mydir.fileName.chars dotdot maxFilename = true then
      some (scanDir vol (backDir s.pPath) s)
    else some (scanDir vol (s.pPath ++ mydir.fileName.chars ++ [0x5C]) s)
  else some s

/-- `key_action_filebrowser_back` -/
def back : ScanHandler := fun _ _ s => some (Edit.delFilterChar.apply s)

/-- `key_action_filebrowser_home` -/
def home : ScanHandler := fun vol _ s => some (scanDir vol s.pPath s)

/-- `key_action_filebrowser_default` -/
def letter : ScanHandler := fun _ key s =>
  if (0x30 ≤ key ∧ key ≤ 0x39) ∨ (0x41 ≤ key ∧ key ≤ 0x5A) then
    some ((Edit.addFilterChar (key &&& 0x7F).toUInt8).apply s)
  else some s

/-- The handlers of `keymappings_filebrowser`, in its order -/
def scanHandlers : List ScanHandler :=
  [turn .prevPage, turn .prevPage, turn .nextPage, turn .nextPage, turn .prev, turn .next, enter, keep,
    back, home, letter]

/-- What the handler of a key does to the structure. -/
def keyScan (vol : Volume) (key : UInt16) (s : TDirScan) : Option TDirScan :=
  match (Menu.keymappingsFilebrowser.zip scanHandlers).find? (·.1.takes key) with
  | some m => m.2 vol key s
  | none => some s

/-! ### The browser -/

/-- The menu and the structure. -/
structure Browser where
  ui : Menu.Status
  scan : TDirScan

/-- What the handlers find, with the entry under the cursor. -/
def Browser.env (b : Browser) (env : Menu.Env) : Menu.Env :=
  let mydir := getEntry b.scan b.scan.sel
  { env with
    isDir := mydir.isDir
    isDot := strnicmpEq mydir.fileName.chars [0x2E] maxFilename
    named := b.scan.pPath ≠ [] ∧ mydir.fileName.chars ≠ [] }

/-- A call of `MENU_handle_ui`: the key, and a rescan that is due. -/
def Browser.call (vol : Volume) (env : Menu.Env) (key : UInt16) (b : Browser) : Option Browser :=
  let env := b.env env
  let ui := (Menu.handleUi env key b.ui).1
  if key &&& Menu.keyReleased ≠ 0 then some { b with ui := ui }
  else
    match Menu.timeout env key b.ui.update { b.ui with update := false } with
    | (_, true) => some { b with ui := ui }
    | (s', false) =>
      let t := Menu.verify env s'
      if key = Menu.keyMenu ∧ t.menuState ≠ .noMenu then some { b with ui := ui }
      else
        (if t.menuState = .fileBrowser then keyScan vol key b.scan else some b.scan).map fun scan =>
          { ui := ui
            scan :=
              if (Menu.pressKey env key b.ui.update t).1.delayedFilescan && env.scanTimer then
                scanFirst vol scan
              else scan }

/-- `P` holds before every call until the browser is left, and every call returns. -/
def EveryCall (vol : Volume) (P : Browser → Menu.Env → UInt16 → Prop) :
    List (Menu.Env × UInt16) → Browser → Prop
  | [], _ => True
  | (env, key) :: calls, b =>
    b.ui.menuState = .fileBrowser → P b env key ∧
      match b.call vol env key with
      | some b' => EveryCall vol P calls b'
      | none => False

instance decidableEveryCall (vol : Volume) (P : Browser → Menu.Env → UInt16 → Prop)
    [∀ b env key, Decidable (P b env key)] :
    ∀ (calls : List (Menu.Env × UInt16)) (b : Browser), Decidable (EveryCall vol P calls b)
  | [], _ => inferInstanceAs (Decidable True)
  | (env, key) :: calls, b =>
    have : Decidable (match b.call vol env key with
        | some b' => EveryCall vol P calls b'
        | none => False) :=
      match b.call vol env key with
      | some b' => decidableEveryCall vol P calls b'
      | none => inferInstanceAs (Decidable False)
    inferInstanceAs (Decidable (b.ui.menuState = .fileBrowser → P b env key ∧ _))

/-! ### What ENTER should do -/

/-- It inserts an image, loads an INI file or uploads a file, or has a firmware file checked. -/
def Acts (r : Menu.Result) : Prop := r.2.1 ≠ [] ∨ r.1.verifyFlashFw = true

instance : DecidablePred Acts := fun _ => inferInstanceAs (Decidable (_ ∨ _))

/-- An entry is selected that the filtered directory has, and one of the lines shows it. -/
structure Chosen (vol : Volume) (s : TDirScan) : Prop where
  selected : checkIndex s s.sel = true
  listed : getEntry s s.sel ∈ s.entries vol
  visible : Visible s (getEntry s s.sel)

/-- A call that does something does it with an entry of the list. -/
def ActsOnChosen (vol : Volume) (b : Browser) (env : Menu.Env) (key : UInt16) : Prop :=
  Acts (Menu.handleUi (b.env env) key b.ui) → Chosen vol b.scan

/-- ENTER comes to its handler. -/
def Enters (key : UInt16) (s : Menu.Status) : Prop :=
  key &&& Menu.keyMask = Menu.keyEnter ∧ key &&& Menu.keyReleased = 0 ∧
    ¬ (s.osdTimeout = 0 ∧ s.update = true)

/-- The item does not ask for the name of the entry: an enabled drive, or an INI file. -/
def asksNoName (s : Menu.Status) (item : Menu.Item) : Bool :=
  match item.actionName with
  | .chaSelect => s.enabled .a item.actionValue
  | .chbSelect => s.enabled .b item.actionValue
  | .iniselect => true
  | _ => false

/-- ENTER on an empty list, where it is not asked for a name. -/
def EntersEmpty (b : Browser) (key : UInt16) : Prop :=
  Enters key b.ui ∧ checkIndex b.scan b.scan.sel = false ∧
    b.ui.item.any (asksNoName b.ui) = true

instance (key : UInt16) (s : Menu.Status) : Decidable (Enters key s) :=
  inferInstanceAs (Decidable (_ ∧ _ ∧ _))

instance (b : Browser) (key : UInt16) : Decidable (EntersEmpty b key) :=
  inferInstanceAs (Decidable (_ ∧ _ ∧ _))

/-! ### The structure between two calls -/

variable {vol : Volume} {s : TDirScan} {env : Menu.Env} {key : UInt16} {ui : Menu.Status}

/-- It stands on the directory, or holds nothing. -/
def Settled (vol : Volume) (s : TDirScan) : Prop := Rests vol s ∨ Blank s

theorem scanFirst_settled (vol : Volume) (s : TDirScan) : Settled vol (scanFirst vol s) :=
  Or.inl (scanFirst_rests vol s)

theorem edit_settled (e : Edit) (s : TDirScan) : Settled vol (e.apply s) := Or.inr (forget_blank s e)

theorem Settled.turn (h : Settled vol s) (opt : ScanOpt) :
    ∃ s', Filesel.turn opt vol key s = some s' ∧ Settled vol s' := by
  rw [Filesel.turn]
  rcases h with h | h
  · obtain ⟨s', hrun, -, hs'⟩ := apply_rests h (.update opt)
    exact ⟨s', hrun, Or.inl hs'⟩
  · rw [h.update]
    exact ⟨s, rfl, Or.inr h⟩

theorem Settled.enter (h : Settled vol s) :
    ∃ s', Filesel.enter vol key s = some s' ∧ Settled vol s' := by
  rw [Filesel.enter]
  split
  · split
    · exact ⟨s, rfl, h⟩
    · split
      · exact ⟨_, rfl, scanFirst_settled vol _⟩
      · exact ⟨_, rfl, scanFirst_settled vol _⟩
  · exact ⟨s, rfl, h⟩

theorem Settled.keyScan (h : Settled vol s) (key : UInt16) :
    ∃ s', Filesel.keyScan vol key s = some s' ∧ Settled vol s' := by
  rw [Filesel.keyScan]
  split
  · next m hfind =>
    have hm := List.of_mem_zip (List.mem_of_find?_eq_some hfind)
    have hmem := hm.2
    rw [scanHandlers] at hmem
    simp only [List.mem_cons, List.not_mem_nil, or_false] at hmem
    rcases hmem with hm | hm | hm | hm | hm | hm | hm | hm | hm | hm | hm <;> rw [hm]
    · exact h.turn .prevPage
    · exact h.turn .prevPage
    · exact h.turn .nextPage
    · exact h.turn .nextPage
    · exact h.turn .prev
    · exact h.turn .next
    · exact h.enter
    · exact ⟨s, rfl, h⟩
    · exact ⟨_, rfl, edit_settled .delFilterChar s⟩
    · exact ⟨_, rfl, scanFirst_settled vol _⟩
    · rw [letter]
      split
      · exact ⟨_, rfl, edit_settled (.addFilterChar _) s⟩
      · exact ⟨s, rfl, h⟩
  · exact ⟨s, rfl, h⟩

/-- Every call returns, and settles. -/
theorem Settled.call {b : Browser} (h : Settled vol b.scan) (env : Menu.Env) (key : UInt16) :
    ∃ b', b.call vol env key = some b' ∧ b'.ui = (Menu.handleUi (b.env env) key b.ui).1 ∧
      Settled vol b'.scan := by
  rw [Browser.call]
  simp only
  split
  · exact ⟨_, rfl, rfl, h⟩
  split
  · exact ⟨_, rfl, rfl, h⟩
  split
  · exact ⟨_, rfl, rfl, h⟩
  have hkey : ∃ scan, (if (Menu.verify (b.env env) ‹Menu.Status›).menuState = .fileBrowser then
      Filesel.keyScan vol key b.scan else some b.scan) = some scan ∧ Settled vol scan := by
    split
    · exact h.keyScan key
    · exact ⟨_, rfl, h⟩
  obtain ⟨scan, hscan, hs⟩ := hkey
  rw [hscan]
  refine ⟨_, rfl, rfl, ?_⟩
  simp only
  split
  · exact scanFirst_settled vol scan
  · exact hs

/-- What is selected is in the list. -/
theorem Settled.chosen (h : Settled vol s) (hcheck : checkIndex s s.sel = true) : Chosen vol s := by
  rcases h with (⟨base, hs⟩ | ⟨hb, -⟩) | hb
  · have hpage : Page (listed (s.entries vol)) s (position base s.offset) (position base s.sel) :=
      ⟨base, hs, rfl, rfl⟩
    obtain ⟨-, hsel⟩ := hpage.selected
    obtain ⟨h0, -, htop, hbottom⟩ := hpage.sel_in
    exact ⟨hcheck, mem_of_position hsel, hpage.shows hsel ⟨rfl, rfl⟩ (by omega) (by omega)⟩
  · rw [hb.check] at hcheck
    exact absurd hcheck Bool.false_ne_true
  · rw [hb.check] at hcheck
    exact absurd hcheck Bool.false_ne_true

/-- Where nothing is selected the entry is the empty one. -/
theorem getEntry_unselected (h : checkIndex s s.sel = false) : getEntry s s.sel = nullEntry := by
  rw [checkIndex] at h
  rw [getEntry]
  split
  · next h128 =>
    rw [if_pos h128, decide_eq_false_iff_not] at h
    rw [if_neg h]
  · next h128 =>
    rw [if_neg h128] at h
    split
    · next hlt =>
      rw [if_pos hlt, decide_eq_false_iff_not, not_lt] at h
      rw [List.getD_eq_getElem?_getD, List.getElem?_eq_none h, Option.getD_none]
    · next hlt =>
      rw [if_neg hlt, decide_eq_false_iff_not, not_lt] at h
      rw [List.getD_eq_getElem?_getD, List.getElem?_eq_none h, Option.getD_none]

/-! ### What the menu does -/

theorem acts_finish (r : Menu.Result) : Acts (Menu.finish env r) ↔ Acts r := by
  rw [Acts, Acts, Menu.finish]
  refine or_congr Iff.rfl ?_
  simp only
  split
  · rw [Menu.updateUi]
    split <;> rfl
  · rfl

theorem acts_quiet {update : Bool} (hv : ui.verifyFlashFw = false) : ¬ Acts (ui, [], update) := by
  rintro (h | h)
  · exact h rfl
  · rw [hv] at h
    exact Bool.false_ne_true h

/-- The item does what it is there for. -/
def executes (env : Menu.Env) (s : Menu.Status) (item : Menu.Item) : Bool :=
  match item.actionName with
  | .chaSelect => s.enabled .a item.actionValue
  | .chbSelect => s.enabled .b item.actionValue
  | .iniselect => true
  | .loadselect | .flashfw | .rom => env.named
  | _ => false

theorem browserExecute_acts (hv : ui.verifyFlashFw = false) (item : Menu.Item) :
    Acts (Menu.browserExecute env item ui) ↔ executes env ui item = true := by
  have hcall : ∀ (t : Menu.Status) (c : Menu.Call) (u : Bool), Acts (t, [c], u) :=
    fun t c u => Or.inl (List.cons_ne_nil c [])
  have hset : ∀ state, (Menu.setState state ui).verifyFlashFw = false := fun _ => hv
  rw [Menu.browserExecute, executes]
  cases item.actionName <;> simp only [Bool.false_eq_true, iff_false, iff_true]
  case chaSelect =>
    split
    · next h => exact iff_of_true (hcall _ _ _) h
    · next h => exact iff_of_false (acts_quiet hv) h
  case chbSelect =>
    split
    · next h => exact iff_of_true (hcall _ _ _) h
    · next h => exact iff_of_false (acts_quiet hv) h
  case iniselect => exact hcall _ _ _
  case loadselect =>
    split
    · next h => exact iff_of_true (hcall _ _ _) h
    · next h => exact iff_of_false (acts_quiet hv) h
  case flashfw =>
    split
    · next h => exact iff_of_true (Or.inr rfl) h
    · next h => exact iff_of_false (acts_quiet (hset _)) h
  case rom =>
    split
    · next h => exact iff_of_true (hcall _ _ _) h
    · next h => exact iff_of_false (acts_quiet (hset _)) h
  all_goals exact acts_quiet hv

theorem enter_acts (hv : ui.verifyFlashFw = false) :
    Acts (Menu.keyActionFilebrowserEnter env key ui) ↔
      env.isDir = false ∧ ui.item.any (executes env ui) = true := by
  rw [Menu.keyActionFilebrowserEnter]
  split
  · next hdir =>
    rw [hdir]
    exact iff_of_false (acts_quiet hv) fun h => Bool.false_ne_true h.1.symm
  · next hdir =>
    rw [Bool.not_eq_true] at hdir
    cases hitem : ui.item with
    | none => exact iff_of_false (acts_quiet hv) fun h => Bool.false_ne_true h.2
    | some item =>
      simp only [hdir, true_and, Option.any_some]
      split
      · next hnone =>
        refine iff_of_false (acts_quiet hv) ?_
        rw [executes, hnone]
        exact Bool.false_ne_true
      · exact browserExecute_acts hv item

/-- The other keys of the browser do nothing outside it. -/
theorem filebrowser_quiet (hv : ui.verifyFlashFw = false) {m : Menu.KeyMapping}
    (hm : m ∈ Menu.keymappingsFilebrowser)
    (hne : m ≠ ⟨Menu.keyMask, Menu.keyEnter, Menu.keyActionFilebrowserEnter⟩) :
    ¬ Acts (m.action env key ui) := by
  rw [Menu.keymappingsFilebrowser] at hm
  simp only [List.mem_cons, List.not_mem_nil, or_false] at hm
  rcases hm with rfl | rfl | rfl | rfl | rfl | rfl | rfl | rfl | rfl | rfl | rfl
  · exact acts_quiet hv
  · exact acts_quiet hv
  · exact acts_quiet hv
  · exact acts_quiet hv
  · exact acts_quiet hv
  · exact acts_quiet hv
  · exact absurd rfl hne
  · exact acts_quiet hv
  · exact acts_quiet hv
  · exact acts_quiet hv
  · show ¬ Acts (Menu.keyActionFilebrowserDefault env key ui)
    rw [Menu.keyActionFilebrowserDefault]
    split
    · exact acts_quiet hv
    · exact acts_quiet hv

theorem showstatus_quiet (hv : ui.verifyFlashFw = false) {m : Menu.KeyMapping}
    (hm : m ∈ Menu.keymappingsShowstatus) : ¬ Acts (m.action env key ui) := by
  rcases List.mem_cons.mp hm with rfl | hm
  · show ¬ Acts (Menu.keyActionShowstatusLeft env key ui)
    rw [Menu.keyActionShowstatusLeft]
    split
    · exact acts_quiet hv
    · exact acts_quiet hv
  · rw [List.mem_singleton.mp hm]
    show ¬ Acts (Menu.keyActionShowstatusRight env key ui)
    rw [Menu.keyActionShowstatusRight]
    split
    · exact acts_quiet hv
    · exact acts_quiet hv

/-- The screens that a call can change to before the key. -/
theorem status_quiet (hv : ui.verifyFlashFw = false)
    (hstate : ui.menuState = .showStatus ∨ ui.menuState = .usbStatus) {update : Bool} :
    ¬ Acts (Menu.pressKey env key update ui) := by
  rw [Menu.pressKey]
  split
  · next m hfind =>
    have hm := List.mem_of_find?_eq_some hfind
    rcases hstate with hstate | hstate <;> rw [hstate] at hm
    · exact showstatus_quiet hv hm
    · rw [List.mem_singleton.mp hm]
      exact acts_quiet hv
  · exact acts_quiet hv

/-- Of the keys of the browser, ENTER does something, where the item does. -/
theorem pressKey_acts (hstate : ui.menuState = .fileBrowser) (hv : ui.verifyFlashFw = false)
    {update : Bool} : Acts (Menu.pressKey env key update ui) ↔
      key &&& Menu.keyMask = Menu.keyEnter ∧ env.isDir = false ∧
        ui.item.any (executes env ui) = true := by
  by_cases hk : key &&& Menu.keyMask = Menu.keyEnter
  · have htakes : ∀ {k : UInt16} (action : Menu.Handler), k ≠ 0 → k ≠ Menu.keyEnter →
        ¬ (Menu.KeyMapping.mk Menu.keyMask k action).takes key = true := fun action h0 hne ht =>
      hne ((Menu.takes_iff h0 action).mp ht ▸ hk)
    have hfind : (Menu.keymappings ui.menuState).find? (·.takes key)
        = some ⟨Menu.keyMask, Menu.keyEnter, Menu.keyActionFilebrowserEnter⟩ := by
      rw [hstate]
      show Menu.keymappingsFilebrowser.find? _ = _
      rw [Menu.keymappingsFilebrowser, List.find?_cons_of_neg, List.find?_cons_of_neg,
        List.find?_cons_of_neg, List.find?_cons_of_neg, List.find?_cons_of_neg,
        List.find?_cons_of_neg, List.find?_cons_of_pos]
      · exact (Menu.takes_iff (by decide) _).mpr hk
      all_goals exact htakes _ (by decide) (by decide)
    rw [Menu.pressKey, hfind, and_iff_right hk]
    show Acts (Menu.keyActionFilebrowserEnter env key ui) ↔ _
    exact enter_acts hv
  · refine iff_of_false ?_ fun h => hk h.1
    rw [Menu.pressKey]
    split
    · next m hfind =>
      have hm := List.mem_of_find?_eq_some hfind
      have ht := List.find?_some hfind
      rw [hstate] at hm
      refine filebrowser_quiet hv hm ?_
      rintro rfl
      exact hk ((Menu.takes_iff (by decide) _).mp ht)
    · exact acts_quiet hv

/-- Before the key: the time-out counts, or hides the menu where there is no key, or the status screen is
    forced. -/
theorem timeout_cases (hstate : ui.menuState = .fileBrowser) :
    (¬ (ui.osdTimeout = 0 ∧ ui.update = true) ∧
      ∃ cnt, Menu.timeout env key ui.update { ui with update := false }
        = ({ ui with update := false, osdTimeoutCnt := cnt }, false)) ∨
    (key = 0 ∧ ∃ t, Menu.timeout env key ui.update { ui with update := false } = (t, true) ∧
      t.verifyFlashFw = ui.verifyFlashFw) ∨
    (ui.osdTimeout = 0 ∧ ui.update = true) ∧
      ∃ t, Menu.timeout env key ui.update { ui with update := false } = (t, false) ∧
        t.verifyFlashFw = ui.verifyFlashFw ∧
        (t.menuState = .showStatus ∨ t.menuState = .usbStatus) := by
  have hno : ui.menuState ≠ .noMenu := by
    rw [hstate]
    decide
  rw [Menu.timeout]
  by_cases htimeout : ui.osdTimeout = 0
  · rw [if_neg fun h => h.2 htimeout]
    by_cases hupdate : ui.update = true
    · rw [if_pos hupdate]
      refine Or.inr (Or.inr ⟨⟨htimeout, hupdate⟩, _, rfl, rfl, ?_⟩)
      simp only [Menu.setState]
      split
      · exact Or.inr rfl
      · exact Or.inl rfl
    · rw [if_neg hupdate]
      exact Or.inl ⟨fun h => hupdate h.2, ui.osdTimeoutCnt, rfl⟩
  · rw [if_pos ⟨hno, htimeout⟩]
    have hforced : ¬ (ui.osdTimeout = 0 ∧ ui.update = true) := fun h => htimeout h.1
    by_cases hkey : key ≠ 0 ∨ ui.update = true
    · rw [if_pos hkey]
      exact Or.inl ⟨hforced, 0, rfl⟩
    · rw [if_neg hkey]
      split
      · split
        · exact Or.inl ⟨hforced, _, rfl⟩
        · exact Or.inr (Or.inl ⟨not_not.mp fun h => hkey (Or.inl h), _, rfl, rfl⟩)
      · exact Or.inl ⟨hforced, ui.osdTimeoutCnt, rfl⟩

theorem verify_none (hv : ui.verifyFlashFw = false) : Menu.verify env ui = ui := by
  rw [Menu.verify, if_neg (by rw [hv]; exact Bool.false_ne_true)]

/-- A call in the browser acts when ENTER comes to an item that does. -/
theorem handleUi_acts (hstate : ui.menuState = .fileBrowser) (hv : ui.verifyFlashFw = false) :
    Acts (Menu.handleUi env key ui) ↔
      Enters key ui ∧ env.isDir = false ∧ ui.item.any (executes env ui) = true := by
  rw [Menu.handleUi]
  by_cases hr : key &&& Menu.keyReleased ≠ 0
  · rw [if_pos hr]
    exact iff_of_false (acts_quiet hv) fun h => hr h.1.2.1
  rw [if_neg hr]
  rw [not_not] at hr
  rcases @timeout_cases env key _ hstate with
    ⟨hforced, cnt, ht⟩ | ⟨rfl, t, ht, htv⟩ | ⟨hforced, t, ht, htv, hts⟩
  · rw [ht]
    simp only
    rw [@verify_none env { ui with update := false, osdTimeoutCnt := cnt } hv]
    split
    · next hmenu =>
      subst hmenu
      rw [if_pos (by rw [hstate]; decide)]
      exact iff_of_false (acts_quiet hv) fun h => absurd h.1.1 (by decide)
    · rw [acts_finish,
        @pressKey_acts env key { ui with update := false, osdTimeoutCnt := cnt } hstate hv, Enters]
      exact ⟨fun h => ⟨⟨h.1, hr, hforced⟩, h.2⟩, fun h => ⟨h.1.1, h.2⟩⟩
  · rw [ht]
    exact iff_of_false (acts_quiet (htv.trans hv)) fun h => absurd h.1.1 (by decide)
  · rw [ht]
    simp only
    refine iff_of_false ?_ fun h => h.1.2.2 hforced
    have hno : t.menuState ≠ .noMenu := by
      rcases hts with hts | hts <;> rw [hts] <;> decide
    rw [verify_none (htv.trans hv)]
    split
    · exact acts_quiet (htv.trans hv)
    · rw [acts_finish]
      exact status_quiet (htv.trans hv) hts

/-- ENTER goes astray exactly on an empty list. -/
theorem actsOnChosen_iff {b : Browser} (hs : Settled vol b.scan) (hstate : b.ui.menuState = .fileBrowser)
    (hv : b.ui.verifyFlashFw = false) : ActsOnChosen vol b env key ↔ ¬ EntersEmpty b key := by
  rw [ActsOnChosen, handleUi_acts hstate hv, EntersEmpty]
  cases hcheck : checkIndex b.scan b.scan.sel with
  | true => exact iff_of_true (fun _ => hs.chosen hcheck) fun h => Bool.false_ne_true h.2.1.symm
  | false =>
    have hnull := getEntry_unselected hcheck
    have hdir : (b.env env).isDir = false := by
      rw [Browser.env, hnull]
      rfl
    have hnamed : (b.env env).named = false := by
      rw [Browser.env, hnull]
      exact decide_eq_false fun h => h.2 rfl
    have hitem : ∀ item, executes (b.env env) b.ui item = asksNoName b.ui item := fun item => by
      rw [executes, asksNoName]
      cases item.actionName <;> first | rfl | exact hnamed
    rw [funext hitem]
    constructor
    · rintro h ⟨hk, -, hany⟩
      rw [(h ⟨hk, hdir, hany⟩).selected] at hcheck
      exact absurd hcheck Bool.false_ne_true.symm
    · rintro h ⟨hk, -, hany⟩
      exact absurd ⟨hk, rfl, hany⟩ h

/-! ### No check waits in the browser -/

/-- A firmware file that was chosen is checked before the browser is opened again. -/
def Unverified (s : Menu.Status) : Prop := s.menuState = .fileBrowser → s.verifyFlashFw = false

theorem unverified_of (hv : ui.verifyFlashFw = false) : Unverified ui := fun _ => hv

theorem setState_ne_browser {state : Menu.MenuState} (h : state ≠ .fileBrowser) :
    (Menu.setState state ui).menuState ≠ .fileBrowser := by
  rw [Menu.setState]
  simp only
  split
  · decide
  · exact h

theorem menuExecute_unverified (hv : ui.verifyFlashFw = false) (item : Menu.Item) :
    Unverified (Menu.menuExecute env item ui).1 := by
  have hselect : ∀ ch drive, Unverified (Menu.executeSelect env ch drive ui).1 := fun ch drive => by
    rw [Menu.executeSelect]
    repeat' split
    all_goals exact unverified_of hv
  rw [Menu.menuExecute]
  cases item.actionName
  case chaSelect => exact hselect _ _
  case chbSelect => exact hselect _ _
  case loadselect =>
    simp only
    split <;> exact unverified_of hv
  case storeselect =>
    simp only
    split <;> exact unverified_of hv
  all_goals exact unverified_of hv

theorem browserExecute_unverified (hv : ui.verifyFlashFw = false) (item : Menu.Item) :
    Unverified (Menu.browserExecute env item ui).1 := by
  have hflash : Unverified { Menu.setState .showStatus ui with verifyFlashFw := true } := fun hb =>
    absurd hb (@setState_ne_browser ui .showStatus (by decide))
  rw [Menu.browserExecute]
  cases item.actionName
  case flashfw =>
    simp only
    split
    · exact hflash
    · exact unverified_of hv
  case iniselect => exact unverified_of hv
  all_goals
    first
      | exact unverified_of hv
      | (simp only; split <;> exact unverified_of hv)

theorem menuUpdate_unverified (hv : ui.verifyFlashFw = false) : Unverified (Menu.menuUpdate env ui).1 := by
  rw [Menu.menuUpdate]
  repeat' split
  all_goals exact unverified_of hv

theorem pressKey_unverified (hv : ui.verifyFlashFw = false) {update : Bool} :
    Unverified (Menu.pressKey env key update ui).1 := by
  rw [Menu.pressKey]
  split
  · next m hfind =>
    have hm := List.mem_of_find?_eq_some hfind
    cases hstate : ui.menuState <;> rw [hstate] at hm
    · exact absurd hm List.not_mem_nil
    · -- the menu
      simp only [Menu.keymappings, Menu.keymappingsMenu, List.mem_cons, List.not_mem_nil, or_false] at hm
      rcases hm with rfl | rfl | rfl | rfl | rfl | rfl | rfl
      · show Unverified (Menu.keyActionMenuProtect env key ui).1
        rw [Menu.keyActionMenuProtect]
        repeat' split
        all_goals exact unverified_of hv
      · show Unverified (Menu.keyActionMenuLeft env key ui).1
        rw [Menu.keyActionMenuLeft]
        repeat' split
        all_goals exact unverified_of hv
      · show Unverified (Menu.keyActionMenuRight env key ui).1
        rw [Menu.keyActionMenuRight]
        repeat' split
        all_goals exact unverified_of hv
      · show Unverified (Menu.keyActionMenuUp env key ui).1
        rw [Menu.keyActionMenuUp]
        repeat' split
        all_goals exact unverified_of hv
      · show Unverified (Menu.keyActionMenuDown env key ui).1
        rw [Menu.keyActionMenuDown]
        repeat' split
        all_goals exact unverified_of hv
      · show Unverified (Menu.keyActionMenuEnter env key ui).1
        rw [Menu.keyActionMenuEnter]
        split
        · exact menuExecute_unverified hv _
        · exact unverified_of hv
      · show Unverified (Menu.keyActionMenuEsc env key ui).1
        rw [Menu.keyActionMenuEsc]
        split
        · exact unverified_of hv
        · exact unverified_of hv
    · -- the browser
      by_cases hne : m = ⟨Menu.keyMask, Menu.keyEnter, Menu.keyActionFilebrowserEnter⟩
      · subst hne
        show Unverified (Menu.keyActionFilebrowserEnter env key ui).1
        rw [Menu.keyActionFilebrowserEnter]
        repeat' split
        · exact unverified_of hv
        · exact unverified_of hv
        · exact browserExecute_unverified hv _
        · exact unverified_of hv
      · exact unverified_of (Bool.not_eq_true _ ▸ fun h => filebrowser_quiet hv hm hne (Or.inr h))
    · -- the status screen
      exact unverified_of (Bool.not_eq_true _ ▸ fun h => showstatus_quiet hv hm (Or.inr h))
    · -- a question
      simp only [Menu.keymappings, Menu.keymappingsPopup, List.mem_cons, List.not_mem_nil, or_false] at hm
      rcases hm with rfl | rfl | rfl | rfl
      · exact unverified_of hv
      · exact unverified_of hv
      · show Unverified (Menu.keyActionPopupEnter env key ui).1
        rw [Menu.keyActionPopupEnter]
        split
        · exact menuUpdate_unverified hv
        · exact unverified_of rfl
      · exact unverified_of hv
    · rw [List.mem_singleton.mp hm]
      exact unverified_of hv
  · exact unverified_of hv

theorem finish_unverified {r : Menu.Result} (h : Unverified r.1) :
    Unverified (Menu.finish env r).1 := by
  rw [Menu.finish]
  simp only
  split
  · rw [Menu.updateUi]
    split <;> exact h
  · exact h

theorem verify_unverified : (Menu.verify env ui).verifyFlashFw = false := by
  rw [Menu.verify]
  split
  · split <;> rfl
  · next hv => exact Bool.not_eq_true _ ▸ hv

/-- The time-out that hides the menu leaves the browser. -/
theorem timeout_hides {update : Bool} {t : Menu.Status} (h : Menu.timeout env key update ui = (t, true)) :
    t.menuState ≠ .fileBrowser := by
  rw [Menu.timeout] at h
  repeat' split at h
  all_goals
    obtain ⟨rfl, ht⟩ := Prod.mk.inj h
    first
      | exact absurd ht Bool.false_ne_true
      | exact setState_ne_browser (by decide)

theorem handleUi_unverified (h : Unverified ui) : Unverified (Menu.handleUi env key ui).1 := by
  rw [Menu.handleUi]
  split
  · exact h
  split
  · next t ht => exact fun hb => absurd hb (timeout_hides ht)
  split
  · simp only
    split
    · exact unverified_of verify_unverified
    · exact finish_unverified (unverified_of verify_unverified)
  · exact finish_unverified (pressKey_unverified verify_unverified)

/-! ### Every call in the browser -/

/-- The browser as an item of the menu opens it -/
def opened (vol : Volume) (env : Menu.Env) (key : UInt16) (ui : Menu.Status)
    (file_exts : Option (List (List UInt8))) (pPath : List UInt8) (s : TDirScan) : Browser :=
  { ui := (Menu.handleUi env key ui).1, scan := scanFirst vol (init pPath file_exts s) }

/-- Two properties that are the same in every state reached are the same of a run. -/
theorem everyCall_congr {P Q : Browser → Menu.Env → UInt16 → Prop}
    (hiff : ∀ b env key, b.ui.menuState = .fileBrowser → b.ui.verifyFlashFw = false →
      Settled vol b.scan → (P b env key ↔ Q b env key)) :
    ∀ (calls : List (Menu.Env × UInt16)) {b : Browser}, Unverified b.ui → Settled vol b.scan →
      (EveryCall vol P calls b ↔ EveryCall vol Q calls b)
  | [], _, _, _ => Iff.rfl
  | (env, key) :: calls, b, hv, hs => by
    rw [EveryCall, EveryCall]
    refine imp_congr_right fun hstate => and_congr (hiff b env key hstate (hv hstate) hs) ?_
    obtain ⟨b', hcall, hui, hs'⟩ := hs.call env key
    rw [hcall]
    refine everyCall_congr hiff calls ?_ hs'
    rw [hui]
    exact handleUi_unverified hv

/-- Every call returns. -/
theorem everyCall_true : ∀ (calls : List (Menu.Env × UInt16)) {b : Browser}, Settled vol b.scan →
    EveryCall vol (fun _ _ _ => True) calls b
  | [], _, _ => trivial
  | (env, key) :: calls, b, hs => by
    rw [EveryCall]
    obtain ⟨b', hcall, -, hs'⟩ := hs.call env key
    rw [hcall]
    exact fun _ => ⟨trivial, everyCall_true calls hs'⟩

/-- From the opening of the browser, whatever keys and timers come: every call returns, and all of them
    act on an entry that the list shows as long as ENTER does not come, on an empty list, to an item that
    asks for no name - and no longer. -/
theorem browser_acts_iff (vol : Volume) (env : Menu.Env) (key : UInt16) (ui : Menu.Status)
    (file_exts : Option (List (List UInt8))) (pPath : List UInt8) (s : TDirScan)
    (calls : List (Menu.Env × UInt16)) (hui : ui.menuState = .showMenu) :
    EveryCall vol (fun _ _ _ => True) calls (opened vol env key ui file_exts pPath s) ∧
      (EveryCall vol (ActsOnChosen vol) calls (opened vol env key ui file_exts pPath s) ↔
        EveryCall vol (fun b _ key => ¬ EntersEmpty b key) calls
          (opened vol env key ui file_exts pPath s)) := by
  have hs : Settled vol (opened vol env key ui file_exts pPath s).scan := scanFirst_settled vol _
  refine ⟨everyCall_true calls hs, everyCall_congr (fun b env key hstate hv hs =>
    actsOnChosen_iff hs hstate hv) calls (handleUi_unverified fun hb => ?_) hs⟩
  rw [hui] at hb
  exact absurd hb (by decide)

/-! ### A directory with one file -/

/-- The cursor of the menu is on "Load Target". -/
def loadTarget : Menu.Status :=
  { Menu.hidden with
    menuState := .showMenu
    menuTop :=
      [[{ itemName := [0x4C], actionName := .iniselect, actionValue := 0, optionList := [[0x20]] }]]
    itemFirst := some 0 }

def quiet : Menu.Env :=
  { osdTimer := false, scanTimer := false, newRate := false, srecords := none
    inserted := fun _ _ => false, protect := fun _ _ => false, isDir := false, isDot := false
    named := false, uploaded := false, unmounted := false }

def openedOne : Browser := opened oneFile quiet Menu.keyEnter loadTarget none [0x5C] unscanned

theorem EveryCall.imp {P Q : Browser → Menu.Env → UInt16 → Prop} (h : ∀ b env key, P b env key → Q b env key) :
    ∀ (calls : List (Menu.Env × UInt16)) {b : Browser}, EveryCall vol P calls b → EveryCall vol Q calls b
  | [], _, _ => trivial
  | (env, key) :: calls, b, hall => by
    rw [EveryCall] at hall ⊢
    intro hstate
    obtain ⟨hp, hrest⟩ := hall hstate
    refine ⟨h b env key hp, ?_⟩
    cases hcall : b.call vol env key with
    | none =>
      rw [hcall] at hrest
      exact hrest
    | some b' =>
      rw [hcall] at hrest
      exact EveryCall.imp h calls hrest

/-- ENTER behind a letter, within the 250 ms, and ENTER where the filter has left nothing: the core is
    reloaded with an INI file without a name. -/
theorem enter_reloads_unnamed :
    ¬ EveryCall oneFile (ActsOnChosen oneFile) [(quiet, 0x41), (quiet, Menu.keyEnter)] openedOne ∧
      ¬ EveryCall oneFile (ActsOnChosen oneFile)
        [(quiet, 0x42), ({ quiet with scanTimer := true }, 0), (quiet, Menu.keyEnter)] openedOne := by
  have hselected : ∀ b env key, ActsOnChosen oneFile b env key →
      Acts (Menu.handleUi (b.env env) key b.ui) → checkIndex b.scan b.scan.sel = true :=
    fun _ _ _ h hacts => (h hacts).selected
  refine ⟨fun h => ?_, fun h => ?_⟩
  · exact absurd (EveryCall.imp hselected _ h) (by decide)
  · exact absurd (EveryCall.imp hselected _ h) (by decide)

theorem browser_acts_enter :
    EveryCall oneFile (ActsOnChosen oneFile) [(quiet, Menu.keyDown), (quiet, Menu.keyEnter)] openedOne :=
  (browser_acts_iff oneFile quiet Menu.keyEnter loadTarget none [0x5C] unscanned
    [(quiet, Menu.keyDown), (quiet, Menu.keyEnter)] rfl).2.mpr (by decide)

end Filesel
