import ReplayFirmware.Menu.HandleUi

/-! What confirming a pop-up does.

    Each question has a flag of its own, set when it is asked; `_MENU_update` goes by the flags alone, in
    a fixed order, and flags of questions that were left without an answer are still set. -/

namespace Menu

variable {env : Env} {key : UInt16} {s : Status}

/-- The action that a pop-up announces. -/
def Question.action : Question → Action
  | .resetTarget => .resetTarget
  | .rebootBoard => .reboot
  | .mountUsb | .unmountUsb => .toggleUsb
  | .syncRdb => .syncRdb
  | .flash _ _ => .flash

/-- The actions among what a handler does. -/
def actions (calls : List Call) : List Action :=
  calls.filterMap fun
    | .act action => some action
    | _ => none

/-- What asking a question has done to the flags. -/
def Asked (s : Status) : Question → Prop
  | .resetTarget => s.doReboot = false
  | .rebootBoard => s.doReboot = true
  | .mountUsb => s.toggleUsb = true ∧ s.doReboot = false
  | .unmountUsb => s.toggleUsb = true
  | .syncRdb => s.syncRdb = true ∧ s.doReboot = false
  | .flash _ _ => s.flashFw = true

/-- While a pop-up is shown, its question has been asked. -/
def Shown (s : Status) : Prop := s.menuState = .popupMenu → Asked s s.question

/-- Another question was left without an answer, and its action comes first in `_MENU_update`. -/
def Overruled (s : Status) : Prop :=
  match s.question with
  | .resetTarget =>
    s.toggleUsb = true ∨ s.syncRdb = true ∨ s.flashFw = true ∨ s.formatSdcard = true
  | .rebootBoard | .mountUsb => False
  | .unmountUsb => s.doReboot = true
  | .syncRdb => s.toggleUsb = true
  | .flash _ _ => s.doReboot = true ∨ s.toggleUsb = true ∨ s.syncRdb = true

/-! ### Handlers that confirm nothing -/

/-- No action is performed, and a pop-up that is shown has been asked. -/
structure Quiet (r : Result) : Prop where
  actions : actions r.2.1 = []
  shown : Shown r.1

theorem shown_setState {state : MenuState} (h : state ≠ .popupMenu) (s : Status) :
    (setState state s).menuState ≠ .popupMenu := by
  rw [setState]
  split
  · exact MenuState.noConfusion
  · exact h

/-- Without a pop-up there is nothing to show. -/
theorem quiet_of_ne {r : Result} (ha : Menu.actions r.2.1 = []) (h : r.1.menuState ≠ .popupMenu) :
    Quiet r := ⟨ha, fun hp => absurd hp h⟩

theorem quiet_same (h : Shown s) {calls : List Call} (ha : Menu.actions calls = []) {update : Bool} :
    Quiet (s, calls, update) := ⟨ha, h⟩

theorem executeSelect_quiet (h : Shown s) (ch : Channel) (drive : UInt32) :
    Quiet (executeSelect env ch drive s) := by
  rw [executeSelect]
  split
  · split
    · split
      · exact quiet_same h rfl
      · exact quiet_same h rfl
    · exact quiet_of_ne rfl (shown_setState (by decide) s)
  · exact quiet_same h rfl

theorem menuExecute_quiet (h : Shown s) (item : Item) : Quiet (menuExecute env item s) := by
  rw [menuExecute]
  split
  · exact executeSelect_quiet h .a _
  · exact executeSelect_quiet h .b _
  · exact quiet_of_ne rfl (shown_setState (by decide) s)
  · exact quiet_of_ne rfl (shown_setState (by decide) s)
  · exact quiet_of_ne rfl (shown_setState (by decide) s)
  · exact quiet_of_ne rfl (shown_setState (by decide) s)
  · split
    · exact quiet_of_ne rfl (shown_setState (by decide) s)
    · exact quiet_same h rfl
  · split
    · exact quiet_of_ne rfl (shown_setState (by decide) s)
    · exact quiet_same h rfl
  · exact ⟨rfl, h⟩
  · exact ⟨rfl, fun _ => rfl⟩
  · exact ⟨rfl, fun _ => rfl⟩
  · exact ⟨rfl, fun _ => ⟨rfl, rfl⟩⟩
  · exact ⟨rfl, fun _ => ⟨rfl, rfl⟩⟩
  · exact quiet_same h rfl
  · exact quiet_same h rfl

theorem browserExecute_quiet (h : Shown s) (item : Item) : Quiet (browserExecute env item s) := by
  have hne : ∀ {state : MenuState}, state ≠ .popupMenu → (setState state s).menuState ≠ .popupMenu :=
    fun hs => shown_setState hs s
  rw [browserExecute]
  split
  · split
    · exact quiet_of_ne rfl (hne (by decide))
    · exact quiet_same h rfl
  · split
    · exact quiet_of_ne rfl (hne (by decide))
    · exact quiet_same h rfl
  · exact quiet_of_ne rfl (hne (by decide))
  · split
    · exact quiet_of_ne rfl (hne (by decide))
    · exact quiet_same h rfl
  · split
    · exact quiet_of_ne rfl (hne (by decide))
    · exact quiet_of_ne rfl (hne (by decide))
  · split
    · exact quiet_of_ne rfl (hne (by decide))
    · exact quiet_of_ne rfl (hne (by decide))
  · exact quiet_same h rfl

theorem keyActionMenu_quiet (h : Shown s) {m : KeyMapping} (hm : m ∈ keymappingsMenu) :
    Quiet (m.action env key s) := by
  rw [keymappingsMenu] at hm
  simp only [List.mem_cons, List.not_mem_nil, or_false] at hm
  rcases hm with rfl | rfl | rfl | rfl | rfl | rfl | rfl
  · -- 'P'
    show Quiet (keyActionMenuProtect env key s)
    rw [keyActionMenuProtect]
    split
    · split
      · exact quiet_same h rfl
      · split
        · exact quiet_same h rfl
        · exact quiet_same h rfl
    · exact quiet_same h rfl
  · -- left
    show Quiet (keyActionMenuLeft env key s)
    rw [keyActionMenuLeft]
    split
    · split
      · split
        · exact quiet_same h rfl
        · exact quiet_same h rfl
      · exact quiet_same h rfl
    · split
      · exact ⟨rfl, h⟩
      · exact quiet_of_ne rfl (shown_setState (by decide) s)
  · -- right
    show Quiet (keyActionMenuRight env key s)
    rw [keyActionMenuRight]
    split
    · split
      · split
        · exact quiet_same h rfl
        · exact quiet_same h rfl
      · exact quiet_same h rfl
    · split
      · split
        · exact ⟨rfl, h⟩
        · exact quiet_of_ne rfl (shown_setState (by decide) s)
      · exact quiet_of_ne rfl (shown_setState (by decide) s)
  · -- up
    show Quiet (keyActionMenuUp env key s)
    rw [keyActionMenuUp]
    split
    · split
      · split
        · exact ⟨rfl, h⟩
        · exact ⟨rfl, h⟩
      · split
        · exact ⟨rfl, h⟩
        · exact quiet_same h rfl
    · exact quiet_same h rfl
  · -- down
    show Quiet (keyActionMenuDown env key s)
    rw [keyActionMenuDown]
    split
    · split
      · split
        · exact ⟨rfl, h⟩
        · exact ⟨rfl, h⟩
      · exact quiet_same h rfl
    · exact quiet_same h rfl
    · split
      · split
        · exact quiet_same h rfl
        · exact ⟨rfl, h⟩
      · exact quiet_same h rfl
  · -- enter
    show Quiet (keyActionMenuEnter env key s)
    rw [keyActionMenuEnter]
    split
    · exact menuExecute_quiet h _
    · exact quiet_same h rfl
  · -- escape
    show Quiet (keyActionMenuEsc env key s)
    rw [keyActionMenuEsc]
    split
    · exact ⟨rfl, h⟩
    · exact ⟨rfl, fun _ => rfl⟩

theorem keyActionFilebrowser_quiet (h : Shown s) {m : KeyMapping} (hm : m ∈ keymappingsFilebrowser) :
    Quiet (m.action env key s) := by
  rw [keymappingsFilebrowser] at hm
  simp only [List.mem_cons, List.not_mem_nil, or_false] at hm
  rcases hm with rfl | rfl | rfl | rfl | rfl | rfl | rfl | rfl | rfl | rfl | rfl
  · exact quiet_same h rfl
  · exact quiet_same h rfl
  · exact quiet_same h rfl
  · exact quiet_same h rfl
  · exact quiet_same h rfl
  · exact quiet_same h rfl
  · -- enter
    show Quiet (keyActionFilebrowserEnter env key s)
    rw [keyActionFilebrowserEnter]
    split
    · exact quiet_same h rfl
    · split
      · split
        · exact quiet_same h rfl
        · exact browserExecute_quiet h _
      · exact quiet_same h rfl
  · exact quiet_of_ne rfl (shown_setState (by decide) s)
  · exact ⟨rfl, h⟩
  · exact quiet_same h rfl
  · -- a letter or a digit
    show Quiet (keyActionFilebrowserDefault env key s)
    rw [keyActionFilebrowserDefault]
    split
    · exact ⟨rfl, h⟩
    · exact quiet_same h rfl

theorem keyActionShowstatus_quiet (h : Shown s) {m : KeyMapping} (hm : m ∈ keymappingsShowstatus) :
    Quiet (m.action env key s) := by
  rw [keymappingsShowstatus] at hm
  simp only [List.mem_cons, List.not_mem_nil, or_false] at hm
  rcases hm with rfl | rfl
  · show Quiet (keyActionShowstatusLeft env key s)
    rw [keyActionShowstatusLeft]
    split
    · exact quiet_of_ne rfl (shown_setState (by decide) _)
    · exact quiet_same h rfl
  · show Quiet (keyActionShowstatusRight env key s)
    rw [keyActionShowstatusRight]
    split
    · exact quiet_of_ne rfl (shown_setState (by decide) _)
    · exact quiet_same h rfl

/-- The handlers of all screens but the pop-up's. -/
theorem quiet_of_mem {state : MenuState} (hstate : state ≠ .popupMenu) (h : Shown s) {m : KeyMapping}
    (hm : m ∈ keymappings state) : Quiet (m.action env key s) := by
  cases state with
  | noMenu => exact absurd hm List.not_mem_nil
  | showMenu => exact keyActionMenu_quiet h hm
  | fileBrowser => exact keyActionFilebrowser_quiet h hm
  | showStatus => exact keyActionShowstatus_quiet h hm
  | popupMenu => exact absurd rfl hstate
  | usbStatus =>
    rw [List.mem_singleton.mp hm]
    exact ⟨rfl, fun _ => rfl⟩

/-! ### The pop-up itself -/

/-- The action that `_MENU_update` finds first. -/
def Status.first (s : Status) : Action :=
  if s.doReboot = true then .reboot
  else if s.toggleUsb = true then .toggleUsb
  else if s.syncRdb = true then .syncRdb
  else if s.flashFw = true then .flash
  else if s.formatSdcard = true then .formatSdcard
  else .resetTarget

/-- `_MENU_update` performs one action. -/
theorem menuUpdate_actions : actions (menuUpdate env s).2.1 = [s.first] := by
  rw [menuUpdate, Status.first]
  split
  · rfl
  · split
    · rfl
    · split
      · rfl
      · split
        · rfl
        · split
          · rfl
          · rfl

/-- It is the announced one, unless that is overruled. -/
theorem first_eq_iff (h : Asked s s.question) : s.first = s.question.action ↔ ¬ Overruled s := by
  rw [Status.first, Overruled]
  cases hq : s.question with
  | resetTarget =>
    rw [hq, Asked] at h
    grind [Question.action]
  | rebootBoard =>
    rw [hq, Asked] at h
    grind [Question.action]
  | mountUsb =>
    rw [hq, Asked] at h
    grind [Question.action]
  | unmountUsb =>
    rw [hq, Asked] at h
    grind [Question.action]
  | syncRdb =>
    rw [hq, Asked] at h
    grind [Question.action]
  | flash crcFile crcFlash =>
    rw [hq, Asked] at h
    grind [Question.action]

theorem menuUpdate_shown (h : s.menuState ≠ .popupMenu) : (menuUpdate env s).1.menuState ≠ .popupMenu := by
  rw [menuUpdate]
  split
  · exact h
  · split
    · exact shown_setState (by decide) _
    · split
      · exact shown_setState (by decide) _
      · split
        · exact shown_setState (by decide) _
        · split
          · exact shown_setState (by decide) _
          · exact shown_setState (by decide) _

/-! ### Keys of the pop-up -/

/-- A mapping of a key takes it whatever its modifiers are. -/
theorem takes_iff {k : UInt16} (hk : k ≠ 0) (action : Handler) :
    (KeyMapping.mk keyMask k action).takes key = true ↔ key &&& keyMask = k := by
  have hmask : key &&& keyMask &&& ~~~keyRepeated = key &&& keyMask := by
    rw [UInt16.and_assoc]
    rfl
  rw [KeyMapping.takes, hmask, decide_eq_true_iff]
  constructor
  · rintro ⟨-, h0 | h⟩
    · exact absurd h0 hk
    · exact h
  · rintro rfl
    exact ⟨hk, Or.inr rfl⟩

theorem popupEnter_yes (h : s.selected = true) :
    keyActionPopupEnter env key s = menuUpdate env (setState .noMenu s) := if_pos h

theorem popupEnter_no (h : ¬ s.selected = true) :
    keyActionPopupEnter env key s =
      ({ setState .noMenu s with
          doReboot := false, toggleUsb := false, syncRdb := false, flashFw := false
          verifyFlashFw := false, formatSdcard := false }, [], false) := if_neg h

/-- The user answers yes. -/
def Confirms (env : Env) (key : UInt16) (s : Status) : Prop :=
  s.menuState = .popupMenu ∧ s.selected = true ∧ key &&& keyMask = keyEnter ∧
    key &&& keyReleased = 0 ∧ ¬ (s.osdTimeout = 0 ∧ s.update = true) ∧
    ¬ (s.verifyFlashFw = true ∧ env.srecords.isSome = true)

theorem pressKey_confirms {update : Bool} (hm : s.menuState = .popupMenu) (hs : s.selected = true)
    (hk : key &&& keyMask = keyEnter) :
    actions (pressKey env key update s).2.1 = [s.first] ∧
      (pressKey env key update s).1.menuState ≠ .popupMenu := by
  have hfind : (keymappings s.menuState).find? (·.takes key)
      = some ⟨keyMask, keyEnter, keyActionPopupEnter⟩ := by
    have htakes : ∀ {k : UInt16} (action : Handler), k ≠ 0 → k ≠ keyEnter →
        (KeyMapping.mk keyMask k action).takes key = false := fun action h0 hne =>
      Bool.eq_false_iff.mpr fun ht => hne ((takes_iff h0 action).mp ht ▸ hk)
    rw [hm]
    show keymappingsPopup.find? _ = _
    rw [keymappingsPopup, List.find?_cons_of_neg, List.find?_cons_of_neg, List.find?_cons_of_pos]
    · exact (takes_iff (by decide) _).mpr hk
    · rw [htakes _ (by decide) (by decide)]
      decide
    · rw [htakes _ (by decide) (by decide)]
      decide
  have hne : (setState .noMenu s).menuState ≠ .popupMenu := shown_setState (by decide) s
  rw [pressKey, hfind]
  show actions (keyActionPopupEnter env key s).2.1 = _ ∧ (keyActionPopupEnter env key s).1.menuState ≠ _
  rw [popupEnter_yes hs]
  exact ⟨menuUpdate_actions, menuUpdate_shown hne⟩

theorem pressKey_quiet {update : Bool} (h : Shown s)
    (hc : ¬ (s.menuState = .popupMenu ∧ s.selected = true ∧ key &&& keyMask = keyEnter)) :
    Quiet (pressKey env key update s) := by
  rw [pressKey]
  split
  · next m hfind =>
    have hm := List.mem_of_find?_eq_some hfind
    have ht := List.find?_some hfind
    by_cases hp : s.menuState = .popupMenu
    · rw [hp] at hm
      rcases List.mem_cons.mp hm with rfl | hm
      · exact ⟨rfl, h⟩
      rcases List.mem_cons.mp hm with rfl | hm
      · exact ⟨rfl, h⟩
      rcases List.mem_cons.mp hm with rfl | hm
      · -- the answer is no
        have hk := (takes_iff (by decide) _).mp ht
        show Quiet (keyActionPopupEnter env key s)
        rw [popupEnter_no fun hs => hc ⟨hp, hs, hk⟩]
        exact quiet_of_ne rfl (shown_setState (by decide) s)
      · rw [List.mem_singleton.mp hm]
        exact quiet_of_ne rfl (shown_setState (by decide) s)
    · exact quiet_of_mem hp h hm
  · exact quiet_same h rfl

/-! ### One call of `MENU_handle_ui` -/

theorem finish_shown {r : Result} (h : Shown r.1) : Shown (finish env r).1 := by
  obtain ⟨s, calls, update⟩ := r
  rw [finish]
  simp only
  split
  · rw [updateUi]
    split
    · exact h
    · exact h
  · exact h

theorem verify_shown (h : Shown s) : Shown (verify env s) := by
  rw [verify]
  split
  · split
    · exact h
    · exact fun _ => rfl
  · exact h

theorem timeout_shown (h : Shown s) (update : Bool) : Shown (timeout env key update s).1 := by
  rw [timeout]
  split
  · split
    · exact h
    · split
      · split
        · exact h
        · exact fun hp => absurd hp (shown_setState (by decide) _)
      · exact h
  · split
    · exact fun hp => absurd hp (shown_setState (by decide) s)
    · exact h

/-- A pop-up that outlasts the time-out was there before. -/
theorem timeout_popup {update : Bool} (h : (timeout env key update s).1.menuState = .popupMenu) :
    s.menuState = .popupMenu ∧ ¬ (s.osdTimeout = 0 ∧ update = true) ∧
      (timeout env key update s).1.selected = s.selected ∧
      (timeout env key update s).1.verifyFlashFw = s.verifyFlashFw := by
  rw [timeout] at h ⊢
  split at h
  · next hshow =>
    rw [if_pos hshow]
    have hforced : ¬ (s.osdTimeout = 0 ∧ update = true) := fun h0 => hshow.2 h0.1
    split at h
    · next hkey =>
      rw [if_pos hkey]
      exact ⟨h, hforced, rfl, rfl⟩
    · next hkey =>
      rw [if_neg hkey]
      split at h
      · next htimer =>
        rw [if_pos htimer]
        split at h
        · next hcnt =>
          rw [if_pos hcnt]
          exact ⟨h, hforced, rfl, rfl⟩
        · exact absurd h (shown_setState (by decide) _)
      · next htimer =>
        rw [if_neg htimer]
        exact ⟨h, hforced, rfl, rfl⟩
  · next hhide =>
    rw [if_neg hhide]
    split at h
    · exact absurd h (shown_setState (by decide) s)
    · next hupdate =>
      rw [if_neg hupdate]
      exact ⟨h, fun h0 => hupdate h0.2, rfl, rfl⟩

/-- Verification asks its question on "no". -/
theorem verify_selected (h : (verify env s).selected = true) :
    (verify env s).menuState = s.menuState ∧ s.selected = true ∧
      ¬ (s.verifyFlashFw = true ∧ env.srecords.isSome = true) := by
  rw [verify] at h ⊢
  split at h
  · next hv =>
    rw [if_pos hv]
    split at h
    · next hnone =>
      rw [hnone]
      exact ⟨rfl, h, fun hsome => absurd hsome.2 (by decide)⟩
    · exact (Bool.false_ne_true h).elim
  · next hv =>
    rw [if_neg hv]
    exact ⟨rfl, h, fun hsome => hv hsome.1⟩

/-- A confirmation gets through to the handler as it is. -/
theorem handleUi_confirms (hc : Confirms env key s) :
    actions (handleUi env key s).2.1 = [s.first] ∧ (Shown (handleUi env key s).1) := by
  obtain ⟨hm, hs, hk, hr, hforced, hverify⟩ := hc
  have hk0 : key ≠ 0 := by
    rintro rfl
    exact absurd hk (by decide)
  have hkm : key ≠ keyMenu := by
    rintro rfl
    exact absurd hk (by decide)
  obtain ⟨t, ht, htm, hts, htf, htv⟩ : ∃ t, timeout env key s.update { s with update := false } = (t, false) ∧
      t.menuState = .popupMenu ∧ t.selected = true ∧ t.first = s.first ∧
      t.verifyFlashFw = s.verifyFlashFw := by
    rw [timeout]
    by_cases h0 : s.osdTimeout = 0
    · have hu : ¬ s.update = true := fun hu => hforced ⟨h0, hu⟩
      rw [if_neg (fun h => h.2 h0), if_neg hu]
      exact ⟨_, rfl, hm, hs, rfl, rfl⟩
    · rw [if_pos ⟨by rw [hm]; decide, h0⟩, if_pos (Or.inl hk0)]
      exact ⟨_, rfl, hm, hs, rfl, rfl⟩
  obtain ⟨hvm, hvs, hvf⟩ : (verify env t).menuState = .popupMenu ∧ (verify env t).selected = true ∧
      (verify env t).first = s.first := by
    rw [verify]
    split
    · next hv =>
      rw [htv] at hv
      split
      · exact ⟨htm, hts, htf⟩
      · next hsome => exact absurd ⟨hv, by rw [hsome]; rfl⟩ hverify
    · exact ⟨htm, hts, htf⟩
  have hpress : actions (pressKey env key s.update (verify env t)).2.1 = [(verify env t).first] ∧ _ :=
    pressKey_confirms hvm hvs hk
  obtain ⟨ha, hne⟩ := hpress
  rw [handleUi, if_neg (not_not.mpr hr), ht]
  simp only
  rw [if_neg hkm]
  exact ⟨ha.trans (congrArg ([·]) hvf), finish_shown fun hp => absurd hp hne⟩

/-- Anything else performs no action. -/
theorem handleUi_quiet (h : Shown s) (hc : ¬ Confirms env key s) : Quiet (handleUi env key s) := by
  rw [handleUi]
  split
  · exact quiet_same h rfl
  · next hr =>
    have hs' : Shown (timeout env key s.update { s with update := false }).1 :=
      timeout_shown (s := { s with update := false }) h s.update
    split
    · next s' htimeout =>
      rw [htimeout] at hs'
      exact quiet_same hs' rfl
    · next s' htimeout =>
      rw [htimeout] at hs'
      have ht : Shown (verify env s') := verify_shown hs'
      simp only
      split
      · split
        · exact quiet_of_ne rfl (shown_setState (by decide) _)
        · exact ⟨rfl, finish_shown fun hp => absurd hp (shown_setState (by decide) (verify env s'))⟩
      · have hq : Quiet (pressKey env key s.update (verify env s')) := by
          refine pressKey_quiet ht fun ⟨hp, hsel, hk⟩ => hc ?_
          obtain ⟨hm, hsel, hverify⟩ := verify_selected hsel
          have hpop : (timeout env key s.update { s with update := false }).1.menuState = .popupMenu := by
            rw [htimeout]
            exact hm.symm.trans hp
          obtain ⟨hm', hforced, hsel', hv⟩ := timeout_popup hpop
          rw [htimeout] at hsel' hv
          rw [hv] at hverify
          exact ⟨hm', hsel'.symm.trans hsel, hk, not_not.mp hr, hforced, hverify⟩
        exact ⟨hq.actions, finish_shown hq.shown⟩

/-! ### Runs -/

/-- What a reload of the core sets up for the menu. -/
structure Setup where
  menuTop : List Sheet
  osdInit : Bool
  osdTimeout : UInt8
  fileioEna : Channel → UInt8
  removable : Channel → Bool

/-- A call of `MENU_handle_ui`, and what happens between two of them: a message, the status screen shown
    by others, and a new core. -/
inductive Event where
  | ui (env : Env) (key : UInt16)
  | message
  | status
  | reload (setup : Setup)

/-- `init_core` as far as the menu goes: `MENU_init_ui`, and what is shown then -/
def initCore (setup : Setup) (s : Status) : Status :=
  let s := initUi
    { s with
      menuTop := setup.menuTop, osdTimeout := setup.osdTimeout, fileioEna := setup.fileioEna
      removable := setup.removable, coreLoaded := true }
  if setup.osdInit = true then { setState .showStatus s with update := true }
  else { setState .noMenu s with update := false }

/-- One event: the state, and the actions that are performed. -/
def Event.apply (s : Status) (event : Event) : Status × List Action :=
  if s.rebooted = true then (s, [])
  else
    match event with
    | .ui env key => ((handleUi env key s).1, actions (handleUi env key s).2.1)
    | .message => ({ s with update := true }, [])
    | .status => ({ setState .showStatus s with update := true }, [])
    | .reload setup => (initCore setup s, [])

def run (events : List Event) (s : Status) : Status := events.foldl (fun s event => (event.apply s).1) s

/-- The event answers the question on the screen with yes. -/
def Event.Confirms (s : Status) : Event → Prop
  | .ui env key => s.rebooted = false ∧ Menu.Confirms env key s
  | _ => False

instance (s : Status) : DecidablePred (Event.Confirms s)
  | .ui _ _ => inferInstanceAs (Decidable (_ ∧ _ ∧ _))
  | .message | .status | .reload _ => inferInstanceAs (Decidable False)

/-- What the user has agreed to. -/
def Event.agreed (s : Status) (event : Event) : List Action :=
  if event.Confirms s then [s.question.action] else []

theorem Event.apply_shown (h : Shown s) (event : Event) : Shown (event.apply s).1 := by
  rw [Event.apply.eq_def]
  split
  · exact h
  · cases event with
    | ui env key =>
      by_cases hc : Menu.Confirms env key s
      · exact (handleUi_confirms hc).2
      · exact (handleUi_quiet h hc).shown
    | message => exact h
    | status => exact fun hp => absurd hp (shown_setState (by decide) s)
    | reload setup =>
      show Shown (initCore setup s)
      rw [initCore]
      simp only
      split
      · exact fun hp => absurd hp (shown_setState (by decide) _)
      · exact fun hp => absurd hp (shown_setState (by decide) _)

theorem run_shown : ∀ (events : List Event) {s : Status}, Shown s → Shown (run events s)
  | [], _, h => h
  | event :: events, _, h => run_shown events (event.apply_shown h)

/-- What an event performs, where the question on the screen has been asked. -/
theorem Event.apply_actions (h : Shown s) (event : Event) :
    (event.apply s).2 = if event.Confirms s then [s.first] else [] := by
  rw [Event.apply.eq_def]
  cases event with
  | ui env key =>
    by_cases hr : s.rebooted = true
    · have hc : ¬ (Event.ui env key).Confirms s := fun hc =>
        Bool.false_ne_true (hc.1.symm.trans hr)
      rw [if_pos hr, if_neg hc]
    · rw [if_neg hr]
      by_cases hc : Menu.Confirms env key s
      · have hce : (Event.ui env key).Confirms s := ⟨Bool.eq_false_iff.mpr hr, hc⟩
        rw [if_pos hce]
        exact (handleUi_confirms hc).1
      · have hce : ¬ (Event.ui env key).Confirms s := fun hce => hc hce.2
        rw [if_neg hce]
        exact (handleUi_quiet h hc).actions
  | message =>
    rw [if_neg (show ¬ Event.message.Confirms s from id)]
    split
    · rfl
    · rfl
  | status =>
    rw [if_neg (show ¬ Event.status.Confirms s from id)]
    split
    · rfl
    · rfl
  | reload setup =>
    rw [if_neg (show ¬ (Event.reload setup).Confirms s from id)]
    split
    · rfl
    · rfl

/-- In every state reached from one without a question, an event performs what the user has agreed to,
    and nothing else, unless another question was left whose action comes first. -/
theorem run_performs {s₀ : Status} (h : s₀.menuState ≠ .popupMenu) (events : List Event) (event : Event) :
    (event.apply (run events s₀)).2 = event.agreed (run events s₀) ↔
      (event.Confirms (run events s₀) → ¬ Overruled (run events s₀)) := by
  have hshown := run_shown events (show Shown s₀ from fun hp => absurd hp h)
  rw [Event.apply_actions hshown, Event.agreed]
  split
  · next hc =>
    have hpop : (run events s₀).menuState = .popupMenu := by
      cases event with
      | ui env key => exact hc.2.1
      | message => exact absurd hc id
      | status => exact absurd hc id
      | reload setup => exact absurd hc id
    have hiff := first_eq_iff (hshown hpop)
    constructor
    · intro heq _
      exact hiff.mp (List.singleton_inj.mp heq)
    · intro hno
      rw [hiff.mpr (hno hc)]
  · next hc =>
    constructor
    · intro _ hc'
      exact absurd hc' hc
    · intro _
      rfl

/-- The menu is hidden, and no question has been asked. -/
def hidden : Status where
  menuState := .noMenu
  update := false
  osdTimeout := 30
  osdTimeoutCnt := 0
  delayedFilescan := false
  question := .resetTarget
  selected := false
  doReboot := false
  toggleUsb := false
  usbMounted := false
  syncRdb := false
  flashFw := false
  verifyFlashFw := false
  formatSdcard := false
  prepareSdcard := false
  coreLoaded := true
  fileioEna := fun _ => 0
  removable := fun _ => false
  menuTop := [[{ itemName := [0x53], actionName := .syncrdb, actionValue := 0, optionList := [[0x20]] }]]
  menuAct := some 0
  menuItemAct := some (0, 0)
  itemFirst := none
  itemLast := none
  rebooted := false

/-- A key, with nothing else going on -/
def press (key : UInt16) : Event :=
  .ui
    { osdTimer := false, scanTimer := false, newRate := false, srecords := none
      inserted := fun _ _ => false, protect := fun _ _ => false, isDir := false, isDot := false
      named := false, uploaded := false, unmounted := false }
    key

/-- The RDB question is left with escape; then the menu is left, which asks for a reset. -/
def leaveSyncRdb : List Event :=
  [keyMenu, keyRight, keyDown, keyEnter, keyEsc, keyEsc, keyEsc, keyRight].map press

/-- Agreeing to the reset overwrites the RDB. -/
theorem leaveSyncRdb_performs :
    ((press keyEnter).apply (run leaveSyncRdb hidden)).2 = [.syncRdb] ∧
      (press keyEnter).agreed (run leaveSyncRdb hidden) = [.resetTarget] := by
  decide +kernel

theorem hidden_performs :
    ((press keyEnter).apply (run leaveSyncRdb hidden)).2 = (press keyEnter).agreed (run leaveSyncRdb hidden) ↔
      ((press keyEnter).Confirms (run leaveSyncRdb hidden) → ¬ Overruled (run leaveSyncRdb hidden)) :=
  run_performs (by decide) leaveSyncRdb (press keyEnter)

end Menu
