import ReplayFirmware.Menu.HandleUi
import Mathlib.Logic.Function.Basic

/-! The pointers of the menu.

    The handlers of the menu and the drawing follow pointers into the menu tree: to the sheet, to the item
    under the cursor, to the option of an item. Here each of them can be `NULL`, and following it ends the
    run. Down on a sheet without items, P on a sheet, and an item that is drawn without an option do so;
    nothing else does. -/

namespace Menu

/-- `option_list` -/
def Status.options (s : Status) (p : ℕ × ℕ) : List (List UInt8) :=
  (((s.items p.1)[p.2]?).map Item.optionList).getD []

/-- The items that are shown. -/
def Status.window (s : Status) : List (ℕ × ℕ) := (List.range s.shown).map fun j => (s.top.1, s.top.2 + j)

/-- `_MENU_show_config_menu` is what `_MENU_update_ui` calls. -/
def Status.showsMenu (s : Status) : Prop := s.menuState = .showMenu ∨ s.menuState = .noMenu

instance (s : Status) : Decidable s.showsMenu := inferInstanceAs (Decidable (_ ∨ _))

namespace Pointers

/-! ### The handlers -/

/-- What is followed although it is `NULL`. -/
inductive Null where
  | menu | item | itemList | option
  deriving DecidableEq

/-- The menu with the options that are selected. -/
structure Screen where
  status : Status
  /-- `selected_option` -/
  selected : ℕ × ℕ → Option ℕ
  /-- A handler has returned one: the screen is drawn before the next key. -/
  redraws : Bool

/-- `menu_act->` -/
def Screen.sheet (c : Screen) : Except Null ℕ :=
  match c.status.menuAct with
  | some m => .ok m
  | none => .error .menu

/-- `menu_item_act->` -/
def Screen.cursor (c : Screen) : Except Null ((ℕ × ℕ) × Item) :=
  match c.status.menuItemAct, c.status.item with
  | some p, some item => .ok (p, item)
  | _, _ => .error .item

def Screen.select (c : Screen) (p : ℕ × ℕ) (option : Option ℕ) : Screen :=
  { c with selected := Function.update c.selected p option }

/-- `selected_option = selected_option->last` -/
def Screen.lastOption (c : Screen) (p : ℕ × ℕ) : Screen :=
  match c.selected p with
  | some (k + 1) => c.select p (some k)
  | _ => c

/-- `selected_option = selected_option->next` -/
def Screen.nextOption (c : Screen) (p : ℕ × ℕ) : Screen :=
  match c.selected p with
  | some k => if k + 1 < (c.status.options p).length then c.select p (some (k + 1)) else c
  | none => c

/-- What a handler leaves. -/
def Screen.after (c : Screen) (r : Result) : Screen := { c with status := r.1, redraws := r.2.2 }

/-- A handler with the pointers that it follows. -/
abbrev Follows := Env → UInt16 → Screen → Except Null Screen

/-- Left and right: on an item without an action its option moves, elsewhere the sheet. -/
def followsSide (handler : Handler) (move : Screen → ℕ × ℕ → Screen) : Follows := fun env key c =>
  if c.status.itemFirst.isSome = true then do
    let (p, item) ← c.cursor
    let c' := if item.actionName = .none then move c p else c
    return c'.after (handler env key c.status)
  else do
    let _ ← c.sheet
    return c.after (handler env key c.status)

def followsLeft : Follows := followsSide keyActionMenuLeft Screen.lastOption

def followsRight : Follows := followsSide keyActionMenuRight Screen.nextOption

def followsUp : Follows := fun env key c =>
  if c.status.itemFirst.isSome = true then do
    let _ ← c.cursor
    return c.after (keyActionMenuUp env key c.status)
  else return c.after (keyActionMenuUp env key c.status)

/-- On a sheet the name of its first item is looked at, without a look whether there is one. -/
def followsDown : Follows := fun env key c =>
  if c.status.itemFirst.isSome = true then do
    let _ ← c.cursor
    return c.after (keyActionMenuDown env key c.status)
  else do
    let m ← c.sheet
    if c.status.items m = [] then .error .itemList
    else return c.after (keyActionMenuDown env key c.status)

/-- An image that is ejected takes the option with it. -/
def Screen.eject (env : Env) (ch : Channel) (p : ℕ × ℕ) (item : Item) (c : Screen) : Except Null Screen :=
  if c.status.enabled ch item.actionValue = true ∧ env.inserted ch item.actionValue = true ∧
      (c.status.removable ch = true ∨ env.protect ch item.actionValue = true) then
    if c.selected p = none then .error .option else .ok (c.select p none)
  else .ok c

/-- The options that `_MENU_action_menu_execute` follows. -/
def Screen.execute (env : Env) (p : ℕ × ℕ) (item : Item) (c : Screen) : Except Null Screen :=
  match item.actionName with
  | .chaSelect => c.eject env .a p item
  | .chbSelect => c.eject env .b p item
  | .iniload => if item.optionList = [] then .error .option else .ok c
  | _ => .ok c

def followsEnter : Follows := fun env key c =>
  match c.status.menuItemAct, c.status.item with
  | some p, some item => do
    let c' ← c.execute env p item
    return c'.after (keyActionMenuEnter env key c.status)
  | _, _ => return c.after (keyActionMenuEnter env key c.status)

def followsEsc : Follows := fun env key c => return c.after (keyActionMenuEsc env key c.status)

/-- The name of the action is looked at on a sheet as well. -/
def followsProtect : Follows := fun env key c => do
  let _ ← c.cursor
  return c.after (keyActionMenuProtect env key c.status)

/-- `keymappings_menu` -/
def followsMenu : List (KeyMapping × Follows) :=
  [(⟨keyMaskAscii, 0x50, keyActionMenuProtect⟩, followsProtect),
    (⟨keyMask, keyLeft, keyActionMenuLeft⟩, followsLeft),
    (⟨keyMask, keyRight, keyActionMenuRight⟩, followsRight),
    (⟨keyMask, keyUp, keyActionMenuUp⟩, followsUp),
    (⟨keyMask, keyDown, keyActionMenuDown⟩, followsDown),
    (⟨keyMask, keyEnter, keyActionMenuEnter⟩, followsEnter),
    (⟨keyMask, keyEsc, keyActionMenuEsc⟩, followsEsc)]

theorem followsMenu_keys : followsMenu.map Prod.fst = keymappingsMenu := rfl

def pressMenu (env : Env) (key : UInt16) (c : Screen) : Except Null Screen :=
  match followsMenu.find? (·.1.takes key) with
  | some m => m.2 env key c
  | none => .ok c

/-! ### The drawing -/

/-- An item without a selected option gets its first one; the name of the option is looked at then. -/
def drawItem (c : Screen) (p : ℕ × ℕ) : Except Null Screen :=
  if c.selected p = none then
    if c.status.options p = [] then .error .option else .ok (c.select p (some 0))
  else .ok c

/-- `_MENU_update_ui` -/
def draw (c : Screen) : Except Null Screen :=
  if c.status.showsMenu then do
    let _ ← c.sheet
    let c' ← c.status.window.foldlM drawItem c
    return c'.after (updateUi c.status, [], false)
  else return c.after (updateUi c.status, [], false)

/-! ### Runs -/

/-- A key of the menu or of the status screen, ESC in the browser or at a question, or a redraw. -/
inductive Event where
  | key (env : Env) (key : UInt16)
  | status (env : Env) (key : UInt16)
  | back
  | redraw

def step : Event → Screen → Except Null Screen
  | .key env key, c => pressMenu env key c
  | .status env key, c => .ok (c.after (pressKey env key false c.status))
  | .back, c => .ok (c.after (setState .showMenu c.status, [], true))
  | .redraw, c => draw c

/-- What a key has changed is drawn before the next one; a redraw can come at any time. -/
def Enabled : Event → Screen → Prop
  | .key _ key, c => c.redraws = false ∧ c.status.menuState = .showMenu ∧ key &&& keyReleased = 0
  | .status _ _, c => c.redraws = false ∧ c.status.menuState = .showStatus
  | .back, c => c.redraws = false ∧ (c.status.menuState = .fileBrowser ∨ c.status.menuState = .popupMenu)
  | .redraw, _ => True

/-- The states that are reached from one by events that are good there. -/
inductive Reaches (good : Event → Screen → Prop) (c₀ : Screen) : Screen → Prop
  | start : Reaches good c₀ c₀
  | step {c c' : Screen} {e : Event} (h : Reaches good c₀ c) (henabled : Enabled e c) (hgood : good e c)
      (hstep : step e c = .ok c') : Reaches good c₀ c'

/-- A selected option is one of the item. -/
def Valid (s : Status) (selected : ℕ × ℕ → Option ℕ) : Prop :=
  ∀ p k, selected p = some k → k < (s.options p).length

/-- A sheet is opened, and not drawn yet. -/
structure Opened (c : Screen) : Prop where
  sheet : ∃ m < c.status.menuTop.length, c.status.menuAct = some m
  first : c.status.itemFirst = none
  state : c.status.menuState = .showMenu
  redraws : c.redraws = true
  selected : Valid c.status c.selected

/-- There is no item under the cursor, or one of the sheet that is shown, between the first item that is
    shown and the last. -/
def Navigable (s : Status) : Prop :=
  s.menuItemAct = none ∨ ∃ m i j k, s.menuAct = some m ∧ s.menuItemAct = some (m, i) ∧
    i < (s.items m).length ∧ s.itemFirst = some (m, j) ∧ j ≤ i ∧ s.itemLast = some (m, k) ∧ i ≤ k

/-- What is behind a key. -/
def menuKey (key : UInt16) : Option UInt16 := (keymappingsMenu.find? (·.takes key)).map (·.key)

/-- P is pressed on an item, and down on an item or on a sheet with items. -/
def KeyMeets (key : UInt16) (c : Screen) : Prop :=
  (menuKey key = some 0x50 → c.status.itemFirst ≠ none) ∧
    (menuKey key = some keyDown → c.status.itemFirst = none → c.status.sheet ≠ [])

/-- And all items that are drawn have options. -/
def Meets : Event → Screen → Prop
  | .key _ key, c => KeyMeets key c
  | .redraw, c => c.status.showsMenu → ∀ p ∈ c.status.window, c.status.options p ≠ []
  | _, _ => True

/-! ### The invariant -/

/-- The items that are shown have options, and the last of them is known. -/
structure Drawn (c : Screen) : Prop where
  last : c.status.itemLast = some (c.status.top.1, c.status.top.2 + c.status.shown - 1)
  selected : ∀ p ∈ c.status.window, c.selected p ≠ none

structure Consistent (c : Screen) : Prop where
  sheet : ∃ m < c.status.menuTop.length, c.status.menuAct = some m
  selected : Valid c.status c.selected
  /-- without a first item the menu is on a sheet -/
  onSheet : c.status.itemFirst = none →
    c.status.menuItemAct = none ∨ c.redraws = true ∧ c.status.menuState = .showMenu
  onItem : ∀ m j, c.status.itemFirst = some (m, j) → c.status.menuAct = some m ∧
    ∃ i, c.status.menuItemAct = some (m, i) ∧ j ≤ i ∧ i ≤ j + 10 ∧ i < (c.status.items m).length
  drawn : c.status.itemFirst ≠ none → c.redraws = true ∧ c.status.showsMenu ∨ Drawn c
  /-- the status screen is on a sheet as well -/
  onStatus : c.status.menuState = .showStatus → c.status.itemFirst = none

theorem Opened.consistent {c : Screen} (h : Opened c) : Consistent c where
  sheet := h.sheet
  selected := h.selected
  onSheet _ := Or.inr ⟨h.redraws, h.state⟩
  onItem m j hf := by
    rw [h.first] at hf
    cases hf
  drawn hf := absurd h.first hf
  onStatus _ := h.first

/-- A screen that is drawn is navigable. -/
theorem Consistent.navigable {c : Screen} (h : Consistent c) (hr : c.redraws = false) :
    Navigable c.status := by
  cases hf : c.status.itemFirst with
  | none =>
    rcases h.onSheet hf with hnone | ⟨hyes, -⟩
    · exact Or.inl hnone
    · rw [hr] at hyes
      cases hyes
  | some f =>
    obtain ⟨m, j⟩ := f
    obtain ⟨hact, i, hitem, hji, hij, hlen⟩ := h.onItem m j hf
    rcases h.drawn (by rw [hf]; exact Option.some_ne_none _) with ⟨hyes, -⟩ | hdrawn
    · rw [hr] at hyes
      cases hyes
    · have htop : c.status.top = (m, j) := by rw [Status.top, hf, Option.getD_some]
      have hlast := hdrawn.last
      rw [Status.shown, htop] at hlast
      refine Or.inr ⟨m, i, j, _, hact, hitem, hlen, hf, hji, hlast, ?_⟩
      simp only
      omega

/-- The pointers of two states are the same. -/
structure SamePointers (s s' : Status) : Prop where
  menuTop : s'.menuTop = s.menuTop
  menuAct : s'.menuAct = s.menuAct
  menuItemAct : s'.menuItemAct = s.menuItemAct
  itemFirst : s'.itemFirst = s.itemFirst
  itemLast : s'.itemLast = s.itemLast

theorem setState_pointers (state : MenuState) (s : Status) : SamePointers s (setState state s) :=
  ⟨rfl, rfl, rfl, rfl, rfl⟩

theorem executeSelect_pointers (env : Env) (ch : Channel) (drive : UInt32) (s : Status) :
    SamePointers s (executeSelect env ch drive s).1 := by
  rw [executeSelect]
  split
  · split
    · split <;> exact ⟨rfl, rfl, rfl, rfl, rfl⟩
    · exact setState_pointers ..
  · exact ⟨rfl, rfl, rfl, rfl, rfl⟩

theorem executeSelect_state (env : Env) (ch : Channel) (drive : UInt32) {s : Status}
    (hs : s.menuState = .showMenu) : (executeSelect env ch drive s).1.menuState ≠ .showStatus := by
  have hstay : s.menuState ≠ .showStatus := by
    rw [hs]
    decide
  rw [executeSelect]
  split
  · split
    · split <;> exact hstay
    · rw [setState]
      simp only
      split <;> decide
  · exact hstay

/-- No action goes to the status screen. -/
theorem menuExecute_state (env : Env) (item : Item) {s : Status} (hs : s.menuState = .showMenu) :
    (menuExecute env item s).1.menuState ≠ .showStatus := by
  have hstay : s.menuState ≠ .showStatus := by
    rw [hs]
    decide
  have hset : ∀ state, state ≠ .showStatus → (setState state s).menuState ≠ .showStatus := by
    intro state hne
    rw [setState]
    simp only
    split
    · decide
    · exact hne
  unfold menuExecute
  split
  · exact executeSelect_state _ _ _ hs
  · exact executeSelect_state _ _ _ hs
  all_goals first
    | exact hset _ (by decide)
    | exact hstay
    | (split; exact hset _ (by decide); exact hstay)

theorem menuExecute_pointers (env : Env) (item : Item) (s : Status) :
    SamePointers s (menuExecute env item s).1 := by
  unfold menuExecute
  split
  · exact executeSelect_pointers ..
  · exact executeSelect_pointers ..
  all_goals first
    | exact ⟨rfl, rfl, rfl, rfl, rfl⟩
    | split <;> exact ⟨rfl, rfl, rfl, rfl, rfl⟩

section Same

variable {s s' : Status}

theorem SamePointers.items (h : SamePointers s s') (m : ℕ) : s'.items m = s.items m := by
  rw [Status.items, Status.items, h.menuTop]

theorem SamePointers.options (h : SamePointers s s') (p : ℕ × ℕ) : s'.options p = s.options p := by
  rw [Status.options, Status.options, h.items]

theorem SamePointers.top (h : SamePointers s s') : s'.top = s.top := by
  rw [Status.top, Status.top, h.itemFirst, h.menuAct]

theorem SamePointers.shown (h : SamePointers s s') : s'.shown = s.shown := by
  rw [Status.shown, Status.shown, h.top, h.items]

theorem SamePointers.window (h : SamePointers s s') : s'.window = s.window := by
  rw [Status.window, Status.window, h.top, h.shown]

end Same

variable {c : Screen} {env : Env} {key : UInt16}

/-- What keeps the pointers and draws again keeps the menu consistent. -/
theorem Consistent.same (h : Consistent c) (hr : c.redraws = false) {r : Result}
    (hp : SamePointers c.status r.1) {selected : ℕ × ℕ → Option ℕ}
    (hsel : Valid c.status selected) (hstate : r.1.menuState ≠ .showStatus)
    (hkept : r.2.2 = true ∧ r.1.showsMenu ∨ selected = c.selected) :
    Consistent ({ c with selected := selected }.after r) where
  sheet := by
    obtain ⟨m, hm, hact⟩ := h.sheet
    exact ⟨m, by rw [Screen.after, hp.menuTop]; exact hm, hp.menuAct.trans hact⟩
  selected p k hk := by
    rw [Screen.after, hp.options]
    exact hsel p k hk
  onSheet hf := by
    rcases h.onSheet (hp.itemFirst.symm.trans hf) with hnone | ⟨hyes, -⟩
    · exact Or.inl (hp.menuItemAct.trans hnone)
    · rw [hr] at hyes
      cases hyes
  onItem m j hf := by
    obtain ⟨hact, i, hitem, hrest⟩ := h.onItem m j (hp.itemFirst.symm.trans hf)
    refine ⟨hp.menuAct.trans hact, i, hp.menuItemAct.trans hitem, ?_⟩
    rw [Screen.after, hp.items]
    exact hrest
  drawn hf := by
    rcases hkept with hdraws | rfl
    · exact Or.inl hdraws
    · have hf' : c.status.itemFirst ≠ none := fun h0 => hf (hp.itemFirst.trans h0)
      rcases h.drawn hf' with ⟨hyes, -⟩ | hdrawn
      · rw [hr] at hyes
        cases hyes
      · refine Or.inr ⟨?_, ?_⟩
        · rw [Screen.after]
          simp only
          rw [hp.itemLast, hp.top, hp.shown]
          exact hdrawn.last
        · rw [Screen.after]
          simp only
          rw [hp.window]
          exact hdrawn.selected
  onStatus hyes := absurd hyes hstate

/-- A computation goes well exactly when a condition holds, and then leaves a consistent menu. -/
structure Fine (cond : Prop) (x : Except Null Screen) : Prop where
  ok : cond → ∃ c', x = .ok c' ∧ Consistent c'
  bad : ¬cond → ∃ e, x = .error e

theorem Fine.of_ok {c' : Screen} (h : Consistent c') : Fine True (.ok c') :=
  ⟨fun _ => ⟨c', rfl, h⟩, fun h => absurd trivial h⟩

theorem Fine.iff {cond : Prop} {x : Except Null Screen} (h : Fine cond x) :
    (∃ c', x = .ok c') ↔ cond := by
  constructor
  · rintro ⟨c', hc'⟩
    by_contra hbad
    obtain ⟨e, he⟩ := h.bad hbad
    rw [hc'] at he
    cases he
  · intro hcond
    obtain ⟨c', hc', -⟩ := h.ok hcond
    exact ⟨c', hc'⟩

theorem Fine.consistent {cond : Prop} {x : Except Null Screen} (h : Fine cond x) {c' : Screen}
    (hx : x = .ok c') : Consistent c' := by
  obtain ⟨c'', hc'', hcons⟩ := h.ok (h.iff.mp ⟨c', hx⟩)
  rw [hx] at hc''
  cases hc''
  exact hcons

/-! ### The handlers keep it -/

theorem sheet_ok (h : Consistent c) : ∃ m < c.status.menuTop.length, c.status.menuAct = some m ∧
    c.sheet = .ok m := by
  obtain ⟨m, hm, hact⟩ := h.sheet
  exact ⟨m, hm, hact, by rw [Screen.sheet, hact]⟩

/-- On an item there is one under the cursor. -/
theorem cursor_onItem (h : Consistent c) {m j : ℕ} (hf : c.status.itemFirst = some (m, j)) :
    ∃ i item, c.status.menuItemAct = some (m, i) ∧ (c.status.items m)[i]? = some item ∧
      c.status.item = some item ∧ c.cursor = .ok ((m, i), item) := by
  obtain ⟨-, i, hitem, -, -, hlen⟩ := h.onItem m j hf
  have hget : (c.status.items m)[i]? = some (c.status.items m)[i] := List.getElem?_eq_getElem hlen
  have hstatus : c.status.item = some (c.status.items m)[i] := by
    rw [Status.item, hitem]
    exact hget
  exact ⟨i, _, hitem, hget, hstatus, by rw [Screen.cursor, hitem, hstatus]⟩

/-- A move to another option keeps the rest, and ends at an option. -/
structure Moves (move : Screen → ℕ × ℕ → Screen) : Prop where
  status : ∀ c p, move c p = { c with selected := (move c p).selected }
  valid : ∀ c p, Valid c.status c.selected → Valid c.status (move c p).selected

theorem select_valid (h : Valid c.status c.selected) {p : ℕ × ℕ} {o : Option ℕ}
    (ho : ∀ k, o = some k → k < (c.status.options p).length) :
    Valid c.status (c.select p o).selected := by
  intro q k hk
  rw [Screen.select] at hk
  simp only [Function.update_apply] at hk
  split at hk
  · next heq =>
    rw [heq]
    exact ho k hk
  · exact h q k hk

theorem lastOption_moves : Moves Screen.lastOption where
  status c p := by
    rw [Screen.lastOption]
    split <;> rfl
  valid c p h := by
    rw [Screen.lastOption]
    split
    · next k hk =>
      refine select_valid h fun k' hk' => ?_
      cases hk'
      have hlt := h p (k + 1) hk
      omega
    · exact h

theorem nextOption_moves : Moves Screen.nextOption where
  status c p := by
    rw [Screen.nextOption]
    split
    · split <;> rfl
    · rfl
  valid c p h := by
    rw [Screen.nextOption]
    split
    · next k hk =>
      split
      · next hlt =>
        refine select_valid h fun k' hk' => ?_
        cases hk'
        exact hlt
      · exact h
    · exact h

/-- Another sheet, without an item under the cursor. -/
theorem Consistent.onSheet_after (h : Consistent c) (hr : c.redraws = false)
    (hf : c.status.itemFirst = none) {r : Result} (htree : r.1.menuTop = c.status.menuTop)
    (hact : ∃ m < c.status.menuTop.length, r.1.menuAct = some m)
    (hitem : r.1.menuItemAct = c.status.menuItemAct) (hfirst : r.1.itemFirst = c.status.itemFirst) :
    Consistent (c.after r) where
  sheet := by
    rw [Screen.after, htree]
    exact hact
  selected p k hk := by
    rw [Screen.after]
    simp only [Status.options, Status.items, htree]
    exact h.selected p k hk
  onSheet _ := by
    rcases h.onSheet hf with hnone | ⟨hyes, -⟩
    · exact Or.inl (hitem.trans hnone)
    · rw [hr] at hyes
      cases hyes
  onItem m j hf' := by
    rw [Screen.after] at hf'
    rw [hfirst, hf] at hf'
    cases hf'
  drawn hf' := absurd (hfirst.trans hf) hf'
  onStatus _ := hfirst.trans hf

/-- What left and right do to the state. -/
structure Sides (handler : Handler) : Prop where
  onItem : ∀ env key s, s.itemFirst ≠ none → (handler env key s).1 = s ∧ (handler env key s).2.2 = true
  onSheet : ∀ env key s m, s.itemFirst = none → s.menuAct = some m → m < s.menuTop.length →
    (handler env key s).1.menuTop = s.menuTop ∧
      (∃ m' < s.menuTop.length, (handler env key s).1.menuAct = some m') ∧
      (handler env key s).1.menuItemAct = s.menuItemAct ∧ (handler env key s).1.itemFirst = s.itemFirst

theorem keyActionMenuLeft_sides : Sides keyActionMenuLeft where
  onItem env key s hf := by
    rw [keyActionMenuLeft, if_pos (Option.isSome_iff_ne_none.mpr hf)]
    split <;> exact ⟨rfl, rfl⟩
  onSheet env key s m hf hact hm := by
    rw [keyActionMenuLeft, if_neg (by rw [hf]; decide)]
    split
    · next i hi =>
      refine ⟨rfl, ⟨i, ?_, rfl⟩, rfl, rfl⟩
      rw [hact, Option.some_inj] at hi
      omega
    · exact ⟨rfl, ⟨m, hm, hact⟩, rfl, rfl⟩

theorem keyActionMenuRight_sides : Sides keyActionMenuRight where
  onItem env key s hf := by
    rw [keyActionMenuRight, if_pos (Option.isSome_iff_ne_none.mpr hf)]
    split <;> exact ⟨rfl, rfl⟩
  onSheet env key s m hf hact hm := by
    rw [keyActionMenuRight, if_neg (by rw [hf]; decide), hact]
    simp only
    split
    · next hlt => exact ⟨rfl, ⟨m + 1, hlt, rfl⟩, rfl, rfl⟩
    · exact ⟨rfl, ⟨m, hm, hact⟩, rfl, rfl⟩

theorem followsSide_fine {handler : Handler} {move : Screen → ℕ × ℕ → Screen} (hside : Sides handler)
    (hmove : Moves move) (h : Consistent c) (hr : c.redraws = false)
    (hs : c.status.menuState = .showMenu) :
    Fine True (followsSide handler move env key c) := by
  cases hf : c.status.itemFirst with
  | none =>
    obtain ⟨m, hm, hact, hsheet⟩ := sheet_ok h
    obtain ⟨htree, hact', hitem, hfirst⟩ := hside.onSheet env key c.status m hf hact hm
    rw [followsSide, if_neg (by rw [hf]; decide), hsheet]
    exact Fine.of_ok (h.onSheet_after hr hf htree hact' hitem hfirst)
  | some f =>
    obtain ⟨i, item, hitem, -, hstatus, hcursor⟩ := cursor_onItem h (m := f.1) (j := f.2) hf
    obtain ⟨hkeep, hdraws⟩ := hside.onItem env key c.status
      (by rw [hf]; exact Option.some_ne_none f)
    rw [followsSide, if_pos (by rw [hf]; rfl), hcursor]
    change Fine True (.ok ((if item.actionName = .none then move c (f.1, i) else c).after _))
    have hsame : SamePointers c.status (handler env key c.status).1 := by
      rw [hkeep]
      exact ⟨rfl, rfl, rfl, rfl, rfl⟩
    have hshows : (handler env key c.status).2.2 = true ∧ (handler env key c.status).1.showsMenu :=
      ⟨hdraws, by rw [hkeep]; exact Or.inl hs⟩
    have hstate : (handler env key c.status).1.menuState ≠ .showStatus := by
      rw [hkeep, hs]
      decide
    refine Fine.of_ok ?_
    split
    · rw [hmove.status]
      exact h.same hr hsame (hmove.valid c _ h.selected) hstate (Or.inl hshows)
    · exact h.same hr hsame h.selected hstate (Or.inl hshows)

/-- Another item under the cursor, which is drawn next. -/
theorem Consistent.onItem_after (h : Consistent c) (hs : c.status.menuState = .showMenu) {m j i : ℕ}
    (hact : c.status.menuAct = some m) (hji : j ≤ i) (hij : i ≤ j + 10)
    (hlen : i < (c.status.items m).length)
    (calls : List Call) : Consistent (c.after ({ c.status with
      itemFirst := some (m, j), menuItemAct := some (m, i) }, calls, true)) where
  sheet := h.sheet
  selected := h.selected
  onSheet hf := by cases hf
  onItem m' j' hf := by
    cases hf
    exact ⟨hact, i, rfl, hji, hij, hlen⟩
  drawn _ := Or.inl ⟨rfl, Or.inl hs⟩
  onStatus hyes := absurd (hs.symm.trans hyes) (by decide)

/-- Back on the sheet. -/
theorem Consistent.leave_after (h : Consistent c) (calls : List Call) : Consistent (c.after
    ({ c.status with itemFirst := none, menuItemAct := none }, calls, true)) where
  sheet := h.sheet
  selected := h.selected
  onSheet _ := Or.inl rfl
  onItem m j hf := by cases hf
  drawn hf := absurd rfl hf
  onStatus _ := rfl

/-- What is drawn, as an item and the first and the last one. -/
theorem Consistent.window_at (h : Consistent c) (hr : c.redraws = false) {m j : ℕ}
    (hf : c.status.itemFirst = some (m, j)) :
    c.status.itemLast = some (m, j + min ((c.status.items m).length - j) 11 - 1) := by
  rcases h.drawn (by rw [hf]; exact Option.some_ne_none _) with ⟨hyes, -⟩ | hdrawn
  · rw [hr] at hyes
    cases hyes
  · have htop : c.status.top = (m, j) := by rw [Status.top, hf, Option.getD_some]
    have hlast := hdrawn.last
    rwa [Status.shown, htop] at hlast

theorem followsUp_fine (h : Consistent c) (hr : c.redraws = false) (hs : c.status.menuState = .showMenu) :
    Fine True (followsUp env key c) := by
  cases hf : c.status.itemFirst with
  | none =>
    rw [followsUp, if_neg (by rw [hf]; decide), keyActionMenuUp, hf]
    obtain ⟨m, hm, hact⟩ := h.sheet
    exact Fine.of_ok (h.onSheet_after hr hf rfl ⟨m, hm, hact⟩ rfl rfl)
  | some f =>
    obtain ⟨m, j⟩ := f
    obtain ⟨hact, i, hitem, hji, hij, hlen⟩ := h.onItem m j hf
    obtain ⟨i', item, -, -, -, hcursor⟩ := cursor_onItem h hf
    rw [followsUp, if_pos (by rw [hf]; rfl), hcursor, keyActionMenuUp, hf, hitem]
    simp only
    refine Fine.of_ok ?_
    split
    · next htop =>
      split
      · exact h.onItem_after hs hact (Nat.le_refl _) (by omega) (by omega) []
      · exact h.leave_after []
    · next hmid =>
      have hne : i ≠ j := fun heq => hmid (by rw [heq])
      split
      · exact h.onItem_after hs hact (show j ≤ i - 1 by omega) (by omega) (by omega) []
      · omega

theorem followsDown_fine (h : Consistent c) (hr : c.redraws = false)
    (hs : c.status.menuState = .showMenu) :
    Fine (c.status.itemFirst = none → c.status.sheet ≠ []) (followsDown env key c) := by
  cases hf : c.status.itemFirst with
  | none =>
    obtain ⟨m, hm, hact, hsheet⟩ := sheet_ok h
    have hitems : c.status.sheet = c.status.items m := by
      rw [Status.sheet, hact]
      rfl
    rw [followsDown, if_neg (by rw [hf]; decide), hsheet]
    change Fine _ (if c.status.items m = [] then _ else _)
    rw [← hitems]
    constructor
    · intro hne
      rw [if_neg (hne rfl), keyActionMenuDown, hf]
      simp only
      split
      · next item rest hcons =>
        split
        · exact ⟨_, rfl, h.onSheet_after hr hf rfl ⟨m, hm, hact⟩ rfl rfl⟩
        · have hfirst : c.status.menuAct.map (fun m => (m, 0)) = some (m, 0) := by rw [hact]; rfl
          refine ⟨_, rfl, ?_⟩
          rw [hfirst]
          exact h.onItem_after hs hact (Nat.le_refl 0) (Nat.zero_le _)
            (by rw [← hitems, hcons]; exact Nat.succ_pos _) []
      · next hnil => exact absurd hnil (hne rfl)
    · intro hbad
      rw [Classical.not_imp, not_not] at hbad
      exact ⟨_, if_pos hbad.2⟩
  | some f =>
    obtain ⟨m, j⟩ := f
    obtain ⟨hact, i, hitem, hji, hij, hlen⟩ := h.onItem m j hf
    obtain ⟨i', item, -, -, -, hcursor⟩ := cursor_onItem h hf
    have hlast := h.window_at hr hf
    have hstate : c.status.menuState ≠ .showStatus := by
      rw [hs]
      decide
    rw [followsDown, if_pos (by rw [hf]; rfl), hcursor, keyActionMenuDown, hf, hitem]
    simp only
    refine ⟨fun _ => ?_, fun hbad => absurd nofun hbad⟩
    refine ⟨_, rfl, ?_⟩
    split
    · next hmore =>
      split
      · next hend =>
        rw [hlast, Option.some_inj, Prod.mk.injEq] at hend
        exact h.onItem_after hs hact (by omega) (by omega) hmore []
      · next hmid =>
        have hlt : i ≤ j + min ((c.status.items m).length - j) 11 - 1 := by omega
        have hne : i ≠ j + min ((c.status.items m).length - j) 11 - 1 :=
          fun heq => hmid (by rw [hlast, ← heq])
        exact h.onItem_after hs hact (show j ≤ i + 1 by omega) (by omega) hmore []
    · exact h.same hr ⟨rfl, rfl, rfl, rfl, rfl⟩ h.selected hstate (Or.inl ⟨rfl, Or.inl hs⟩)

theorem followsEsc_fine (h : Consistent c) (hr : c.redraws = false) :
    Fine True (followsEsc env key c) := by
  rw [followsEsc, keyActionMenuEsc]
  refine Fine.of_ok ?_
  split
  · exact h.leave_after []
  · next hf =>
    have hnone : c.status.itemFirst = none := Option.not_isSome_iff_eq_none.mp hf
    obtain ⟨m, hm, hact⟩ := h.sheet
    exact h.onSheet_after hr hnone rfl ⟨m, hm, hact⟩ rfl rfl

theorem followsProtect_fine (h : Consistent c) (hr : c.redraws = false)
    (hs : c.status.menuState = .showMenu) :
    Fine (c.status.itemFirst ≠ none) (followsProtect env key c) := by
  have hstate : c.status.menuState ≠ .showStatus := by
    rw [hs]
    decide
  constructor
  · intro hne
    obtain ⟨f, hf⟩ := Option.ne_none_iff_exists'.mp hne
    obtain ⟨i, item, hitem, -, hstatus, hcursor⟩ := cursor_onItem h (m := f.1) (j := f.2) hf
    rw [followsProtect, hcursor]
    refine ⟨_, rfl, ?_⟩
    rw [keyActionMenuProtect, hstatus]
    simp only
    split
    · exact h.same hr ⟨rfl, rfl, rfl, rfl, rfl⟩ h.selected hstate (Or.inr rfl)
    · split <;> exact h.same hr ⟨rfl, rfl, rfl, rfl, rfl⟩ h.selected hstate (Or.inr rfl)
  · intro hf
    rw [not_not] at hf
    rcases h.onSheet hf with hnone | ⟨hyes, -⟩
    · exact ⟨.item, by rw [followsProtect, Screen.cursor, hnone]; rfl⟩
    · rw [hr] at hyes
      cases hyes

/-- An item that is shown has an option. -/
theorem options_window (h : Valid c.status c.selected) {p : ℕ × ℕ}
    (hp : c.selected p ≠ none) : c.status.options p ≠ [] := by
  obtain ⟨k, hk⟩ := Option.ne_none_iff_exists'.mp hp
  intro hnil
  have hlt := h p k hk
  rw [hnil] at hlt
  exact Nat.not_lt_zero k hlt

theorem eject_fine (h : Consistent c) (hr : c.redraws = false) (hs : c.status.menuState = .showMenu)
    {ch : Channel} {p : ℕ × ℕ} {item : Item} (hp : c.selected p ≠ none)
    (hkeep : SamePointers c.status (executeSelect env ch item.actionValue c.status).1) :
    ∃ c', c.eject env ch p item = .ok c' ∧
      Consistent (c'.after (executeSelect env ch item.actionValue c.status)) := by
  have hstate := executeSelect_state env ch item.actionValue hs
  rw [Screen.eject]
  by_cases hgo : c.status.enabled ch item.actionValue = true ∧ env.inserted ch item.actionValue = true ∧
      (c.status.removable ch = true ∨ env.protect ch item.actionValue = true)
  · rw [if_pos hgo, if_neg hp]
    refine ⟨_, rfl, ?_⟩
    have hresult : executeSelect env ch item.actionValue c.status =
        (c.status, [.eject ch item.actionValue], true) := by
      rw [executeSelect, if_pos hgo.1, if_pos hgo.2.1, if_pos hgo.2.2]
    refine h.same hr hkeep (select_valid h.selected nofun) hstate (Or.inl ?_)
    rw [hresult]
    exact ⟨rfl, Or.inl hs⟩
  · rw [if_neg hgo]
    exact ⟨c, rfl, h.same hr hkeep h.selected hstate (Or.inr rfl)⟩

theorem followsEnter_fine (h : Consistent c) (hr : c.redraws = false)
    (hs : c.status.menuState = .showMenu) :
    Fine True (followsEnter env key c) := by
  cases hf : c.status.itemFirst with
  | none =>
    have hnone : c.status.menuItemAct = none := by
      rcases h.onSheet hf with hnone | ⟨hyes, -⟩
      · exact hnone
      · rw [hr] at hyes
        cases hyes
    have hitem : c.status.item = none := by
      rw [Status.item, hnone]
      rfl
    rw [followsEnter, hnone, keyActionMenuEnter, hitem]
    exact Fine.of_ok (h.same hr ⟨rfl, rfl, rfl, rfl, rfl⟩ h.selected (by rw [hs]; decide) (Or.inr rfl))
  | some f =>
    obtain ⟨m, j⟩ := f
    obtain ⟨-, i, hitem, hji, hij, hlen⟩ := h.onItem m j hf
    obtain ⟨i', item, hitem', hget, hstatus, -⟩ := cursor_onItem h hf
    obtain rfl : i = i' := by
      rw [hitem, Option.some_inj, Prod.mk.injEq] at hitem'
      exact hitem'.2
    have hshown : c.selected (m, i) ≠ none := by
      rcases h.drawn (by rw [hf]; exact Option.some_ne_none _) with ⟨hyes, -⟩ | hdrawn
      · rw [hr] at hyes
        cases hyes
      · have htop : c.status.top = (m, j) := by rw [Status.top, hf, Option.getD_some]
        refine hdrawn.selected _ (List.mem_map.mpr ⟨i - j, ?_, ?_⟩)
        · rw [List.mem_range, Status.shown, htop]
          simp only
          omega
        · rw [htop, show j + (i - j) = i by omega]
    have hlist : item.optionList ≠ [] := by
      have hne := options_window h.selected hshown
      rwa [Status.options, hget, Option.map_some, Option.getD_some] at hne
    have hexec : ∃ c', c.execute env (m, i) item = .ok c' ∧
        Consistent (c'.after (menuExecute env item c.status)) := by
      have hsame := menuExecute_pointers env item c.status
      have hkept := h.same hr hsame h.selected (menuExecute_state env item hs) (Or.inr rfl)
      rw [Screen.execute]
      split
      · next hname =>
        have hselect : menuExecute env item c.status =
            executeSelect env .a item.actionValue c.status := by
          rw [menuExecute, hname]
        rw [hselect]
        exact eject_fine h hr hs hshown (executeSelect_pointers ..)
      · next hname =>
        have hselect : menuExecute env item c.status =
            executeSelect env .b item.actionValue c.status := by
          rw [menuExecute, hname]
        rw [hselect]
        exact eject_fine h hr hs hshown (executeSelect_pointers ..)
      · rw [if_neg hlist]
        exact ⟨c, rfl, hkept⟩
      · exact ⟨c, rfl, hkept⟩
    obtain ⟨c', hok, hcons⟩ := hexec
    rw [followsEnter, hitem, hstatus]
    simp only
    rw [hok, keyActionMenuEnter, hstatus]
    exact Fine.of_ok hcons

/-! ### The drawing keeps it -/

theorem drawItem_fine (h : Valid c.status c.selected) (p : ℕ × ℕ) :
    (c.status.options p ≠ [] → ∃ selected, drawItem c p = .ok { c with selected := selected } ∧
        Valid c.status selected ∧ selected p ≠ none ∧ ∀ q, c.selected q ≠ none → selected q ≠ none) ∧
      (c.status.options p = [] → drawItem c p = .error .option) := by
  rw [drawItem]
  constructor
  · intro hne
    by_cases hsome : c.selected p = none
    · rw [if_pos hsome, if_neg hne]
      refine ⟨_, rfl, select_valid h fun k hk => ?_, ?_, fun q hq => ?_⟩
      · cases hk
        exact List.length_pos_iff.mpr hne
      · rw [Function.update_self]
        exact Option.some_ne_none 0
      · by_cases hqp : q = p
        · rw [hqp, Function.update_self]
          exact Option.some_ne_none 0
        · rwa [Function.update_of_ne hqp]
    · rw [if_neg hsome]
      exact ⟨c.selected, rfl, h, hsome, fun _ hq => hq⟩
  · intro hnil
    have hnone : c.selected p = none := by
      by_contra hsome
      exact options_window h hsome hnil
    rw [if_pos hnone, if_pos hnil]

/-- The items are drawn exactly when each of them has an option. -/
theorem drawItems_fine : ∀ (ps : List (ℕ × ℕ)) {c : Screen}, Valid c.status c.selected →
    ((∀ p ∈ ps, c.status.options p ≠ []) → ∃ selected,
      ps.foldlM drawItem c = .ok { c with selected := selected } ∧
        Valid c.status selected ∧ (∀ p ∈ ps, selected p ≠ none) ∧
        ∀ q, c.selected q ≠ none → selected q ≠ none) ∧
      ((∃ p ∈ ps, c.status.options p = []) → ps.foldlM drawItem c = .error .option)
  | [], c, h => ⟨fun _ => ⟨c.selected, rfl, h, fun _ hp => absurd hp List.not_mem_nil, fun _ hq => hq⟩,
      fun ⟨_, hp, _⟩ => absurd hp List.not_mem_nil⟩
  | p :: ps, c, h => by
    obtain ⟨hgood, hbad⟩ := drawItem_fine h p
    rw [List.foldlM_cons]
    by_cases hp : c.status.options p = []
    · rw [hbad hp]
      refine ⟨fun hall => absurd hp (hall p List.mem_cons_self), fun _ => rfl⟩
    · obtain ⟨selected, hok, hvalid, hpsome, hkept⟩ := hgood hp
      obtain ⟨hgood', hbad'⟩ := @drawItems_fine ps { c with selected := selected } hvalid
      rw [hok]
      constructor
      · intro hall
        obtain ⟨selected', hok', hvalid', hsome, hkept'⟩ :=
          hgood' fun q hq => hall q (List.mem_cons_of_mem p hq)
        refine ⟨selected', hok', hvalid', fun q hq => ?_, fun q hq => hkept' q (hkept q hq)⟩
        rcases List.mem_cons.mp hq with rfl | hq
        · exact hkept' q hpsome
        · exact hsome q hq
      · rintro ⟨q, hq, hnil⟩
        rcases List.mem_cons.mp hq with rfl | hq
        · exact absurd hnil hp
        · exact hbad' ⟨q, hq, hnil⟩

theorem updateUi_shows {s : Status} (h : s.showsMenu) : updateUi s = { s with
    menuItemAct := if s.itemFirst.isSome = true then s.menuItemAct else none
    itemLast := if s.shown = 0 then s.itemLast else some (s.top.1, s.top.2 + s.shown - 1) } := if_pos h

theorem draw_fine (h : Consistent c) :
    Fine (c.status.showsMenu → ∀ p ∈ c.status.window, c.status.options p ≠ []) (draw c) := by
  rw [draw]
  by_cases hshows : c.status.showsMenu
  · obtain ⟨m, hm, hact, hsheet⟩ := sheet_ok h
    obtain ⟨hgood, hbad⟩ := drawItems_fine c.status.window h.selected
    rw [if_pos hshows, hsheet]
    constructor
    · intro hall
      obtain ⟨selected, hok, hvalid, hsome, -⟩ := hgood (hall hshows)
      refine ⟨({ c with selected := selected } : Screen).after (updateUi c.status, [], false), ?_, ?_⟩
      · change (c.status.window.foldlM drawItem c >>= _) = _
        rw [hok]
        rfl
      · rw [updateUi_shows hshows]
        refine ⟨⟨m, hm, hact⟩, hvalid, fun hf => ?_, fun m' j hf => ?_, fun hf => Or.inr ⟨?_, hsome⟩,
          h.onStatus⟩
        · have hf' : c.status.itemFirst = none := hf
          exact Or.inl (if_neg (by rw [hf']; decide))
        · have hf' : c.status.itemFirst = some (m', j) := hf
          obtain ⟨hact', i, hitem, hrest⟩ := h.onItem m' j hf'
          refine ⟨hact', i, ?_, hrest⟩
          exact (if_pos (by rw [hf']; rfl)).trans hitem
        · obtain ⟨⟨m', j⟩, hf'⟩ := Option.ne_none_iff_exists'.mp (show c.status.itemFirst ≠ none from hf)
          obtain ⟨-, i, -, hji, -, hlen⟩ := h.onItem m' j hf'
          refine if_neg ?_
          rw [Status.shown, Status.top, hf', Option.getD_some]
          simp only
          omega
    · intro hno
      rw [Classical.not_imp] at hno
      obtain ⟨-, hno⟩ := hno
      push Not at hno
      refine ⟨.option, ?_⟩
      change (c.status.window.foldlM drawItem c >>= _) = _
      rw [hbad hno]
      rfl
  · rw [if_neg hshows]
    refine ⟨fun _ => ⟨_, rfl, ?_⟩, fun hno => absurd (fun hyes => absurd hyes hshows) hno⟩
    have hkeep : updateUi c.status = c.status := if_neg hshows
    rw [hkeep]
    refine ⟨h.sheet, h.selected, fun hf => ?_, h.onItem, fun hf => ?_, h.onStatus⟩
    · rcases h.onSheet hf with hnone | ⟨-, hstate⟩
      · exact Or.inl hnone
      · exact absurd (Or.inl hstate) hshows
    · rcases h.drawn hf with ⟨-, hyes⟩ | hdrawn
      · exact absurd hyes hshows
      · exact Or.inr ⟨hdrawn.last, hdrawn.selected⟩

/-! ### Runs keep it -/

theorem menuKey_eq (key : UInt16) :
    menuKey key = (followsMenu.find? (·.1.takes key)).map fun m => m.1.key := by
  rw [menuKey, ← followsMenu_keys, List.find?_map, Option.map_map]
  rfl

theorem Fine.congr {cond cond' : Prop} {x : Except Null Screen} (h : Fine cond x) (hiff : cond ↔ cond') :
    Fine cond' x := ⟨fun hc => h.ok (hiff.mpr hc), fun hc => h.bad fun hc' => hc (hiff.mp hc')⟩

theorem pressMenu_fine (h : Consistent c) (hr : c.redraws = false) (hs : c.status.menuState = .showMenu) :
    Fine (KeyMeets key c) (pressMenu env key c) := by
  have hkey := menuKey_eq key
  rw [pressMenu]
  cases hfind : followsMenu.find? (·.1.takes key) with
  | none =>
    rw [hfind, Option.map_none] at hkey
    refine (Fine.of_ok h).congr (iff_of_true trivial ⟨?_, ?_⟩)
    all_goals
      rw [hkey]
      exact nofun
  | some m =>
    rw [hfind, Option.map_some] at hkey
    have hmem := List.mem_of_find?_eq_some hfind
    -- a key of its own that is neither P nor down
    have hother : ∀ {x : Except Null Screen}, Fine True x → m.1.key ≠ 0x50 → m.1.key ≠ keyDown →
        Fine (KeyMeets key c) x := by
      intro x hx hp hd
      refine hx.congr (iff_of_true trivial ⟨fun heq => ?_, fun heq => ?_⟩)
      · rw [hkey, Option.some_inj] at heq
        exact absurd heq hp
      · rw [hkey, Option.some_inj] at heq
        exact absurd heq hd
    simp only [followsMenu, List.mem_cons, List.not_mem_nil, or_false] at hmem
    rcases hmem with rfl | rfl | rfl | rfl | rfl | rfl | rfl
    · refine (followsProtect_fine h hr hs).congr ?_
      rw [KeyMeets, hkey]
      exact ⟨fun hne => ⟨fun _ => hne, nofun⟩, fun hmeets => hmeets.1 rfl⟩
    · exact hother (followsSide_fine keyActionMenuLeft_sides lastOption_moves h hr hs) (by decide)
        (by decide)
    · exact hother (followsSide_fine keyActionMenuRight_sides nextOption_moves h hr hs) (by decide)
        (by decide)
    · exact hother (followsUp_fine h hr hs) (by decide) (by decide)
    · refine (followsDown_fine h hr hs).congr ?_
      rw [KeyMeets, hkey]
      exact ⟨fun hne => ⟨nofun, fun _ => hne⟩, fun hmeets => hmeets.2 rfl⟩
    · exact hother (followsEnter_fine h hr hs) (by decide) (by decide)
    · exact hother (followsEsc_fine h hr) (by decide) (by decide)

theorem status_fine (h : Consistent c) (hr : c.redraws = false) (hs : c.status.menuState = .showStatus) :
    Consistent (c.after (pressKey env key false c.status)) := by
  have hf := h.onStatus hs
  obtain ⟨m, hm, hact⟩ := h.sheet
  have hsame : Consistent (c.after (c.status, [], false)) :=
    h.onSheet_after hr hf rfl ⟨m, hm, hact⟩ rfl rfl
  rw [pressKey, hs]
  split
  · next k hk =>
    have hmem := List.mem_of_find?_eq_some hk
    simp only [keymappings, keymappingsShowstatus, List.mem_cons, List.not_mem_nil, or_false] at hmem
    rcases hmem with rfl | rfl
    · simp only [keyActionShowstatusLeft, hact]
      exact h.onSheet_after hr hf rfl ⟨c.status.menuTop.length - 1, by omega, rfl⟩ rfl rfl
    · simp only [keyActionShowstatusRight, hact]
      exact h.onSheet_after hr hf rfl ⟨0, by omega, rfl⟩ rfl rfl
  · exact hsame

theorem back_fine (h : Consistent c) (hr : c.redraws = false) :
    Consistent (c.after (setState .showMenu c.status, [], true)) := by
  have hstate : (setState .showMenu c.status).menuState ≠ .showStatus := by
    rw [setState]
    simp only
    split <;> decide
  cases hf : c.status.itemFirst with
  | none =>
    obtain ⟨m, hm, hact⟩ := h.sheet
    exact h.onSheet_after hr hf rfl ⟨m, hm, hact⟩ rfl rfl
  | some f =>
    by_cases hshows : (setState .showMenu c.status).showsMenu
    · exact h.same hr (setState_pointers ..) h.selected hstate (Or.inl ⟨rfl, hshows⟩)
    · exact h.same hr (setState_pointers ..) h.selected hstate (Or.inr rfl)

/-- What an event needs, and what it leaves. -/
theorem step_fine (h : Consistent c) {e : Event} (he : Enabled e c) : Fine (Meets e c) (step e c) := by
  cases e with
  | key env key => exact pressMenu_fine h he.1 he.2.1
  | status env key => exact Fine.of_ok (status_fine h he.1 he.2)
  | back => exact Fine.of_ok (back_fine h he.1)
  | redraw => exact draw_fine h

theorem Reaches.consistent {good : Event → Screen → Prop} {c₀ : Screen} (hopen : Opened c₀) :
    ∀ {c}, Reaches good c₀ c → Consistent c
  | _, .start => hopen.consistent
  | _, .step h henabled _ hstep => (step_fine (h.consistent hopen) henabled).consistent hstep

/-! ### The handlers of the menu -/

/-- A handler with its pointers does what the handler does. -/
def Handles (m : KeyMapping × Follows) : Prop := ∀ {env key c c'}, m.2 env key c = .ok c' →
  c'.status = (m.1.action env key c.status).1 ∧ c'.redraws = (m.1.action env key c.status).2.2

theorem after_handles {α : Type} {x : Except Null α} {f : α → Screen} {r : Result} {c' : Screen}
    (h : (do let a ← x; return (f a).after r) = .ok c') : c'.status = r.1 ∧ c'.redraws = r.2.2 := by
  cases x with
  | error e => cases h
  | ok a =>
    cases h
    exact ⟨rfl, rfl⟩

theorem followsSide_handles {mapping : KeyMapping} {move : Screen → ℕ × ℕ → Screen} :
    Handles (mapping, followsSide mapping.action move) := by
  intro env key c c' h
  change followsSide _ _ env key c = _ at h
  rw [followsSide] at h
  split at h
  · exact @after_handles ((ℕ × ℕ) × Item) _
      (fun a => if a.2.actionName = .none then move c a.1 else c) _ _ h
  · exact after_handles h

theorem followsMenu_handles {m : KeyMapping × Follows} (hm : m ∈ followsMenu) : Handles m := by
  simp only [followsMenu, List.mem_cons, List.not_mem_nil, or_false] at hm
  rcases hm with rfl | rfl | rfl | rfl | rfl | rfl | rfl
  · exact fun h => after_handles h
  · exact followsSide_handles
  · exact followsSide_handles
  · intro env key c c' h
    change followsUp env key c = _ at h
    rw [followsUp] at h
    split at h
    · exact after_handles h
    · cases h
      exact ⟨rfl, rfl⟩
  · intro env key c c' h
    change followsDown env key c = _ at h
    rw [followsDown] at h
    split at h
    · exact after_handles h
    · cases hsheet : c.sheet with
      | error e =>
        rw [hsheet] at h
        cases h
      | ok m =>
        rw [hsheet] at h
        change (if c.status.items m = [] then _ else _) = _ at h
        split at h
        · cases h
        · cases h
          exact ⟨rfl, rfl⟩
  · intro env key c c' h
    change followsEnter env key c = _ at h
    rw [followsEnter] at h
    split at h
    · exact after_handles h
    · cases h
      exact ⟨rfl, rfl⟩
  · intro env key c c' h
    cases h
    exact ⟨rfl, rfl⟩

/-- A key that follows no `NULL` does what `MENU_handle_ui` does. -/
theorem pressMenu_handles (hs : c.status.menuState = .showMenu) {c' : Screen}
    (h : pressMenu env key c = .ok c') : c'.status = (pressKey env key c.redraws c.status).1 ∧
      c'.redraws = (pressKey env key c.redraws c.status).2.2 := by
  have hfind : keymappingsMenu.find? (·.takes key) =
      (followsMenu.find? (·.1.takes key)).map Prod.fst := by
    rw [← followsMenu_keys, List.find?_map]
    rfl
  rw [pressKey, hs, show keymappings .showMenu = keymappingsMenu from rfl, hfind]
  rw [pressMenu] at h
  cases hm : followsMenu.find? (·.1.takes key) with
  | none =>
    rw [hm] at h
    cases h
    exact ⟨rfl, rfl⟩
  | some m =>
    rw [hm] at h
    exact followsMenu_handles (List.mem_of_find?_eq_some hm) h

theorem draw_updates {c' : Screen} (h : draw c = .ok c') : c'.status = updateUi c.status := by
  rw [draw] at h
  split at h
  · cases hsheet : c.sheet with
    | error e =>
      rw [hsheet] at h
      cases h
    | ok m =>
      rw [hsheet] at h
      exact (@after_handles _ _ id _ _ h).1
  · cases h
    rfl

/-! ### Runs -/

/-- Along every run from a sheet on which P is pressed on items alone, down not on a sheet without items,
    and only items with options are drawn, the menu keeps its item; and exactly the events that keep to
    this follow no pointer that is `NULL`. -/
theorem reaches_navigable {c₀ c : Screen} (hopen : Opened c₀) (h : Reaches Meets c₀ c) :
    (c.redraws = false → Navigable c.status) ∧
      ∀ e, Enabled e c → ((∃ c', step e c = .ok c') ↔ Meets e c) :=
  ⟨(h.consistent hopen).navigable, fun _ he => (step_fine (h.consistent hopen) he).iff⟩

/-- A menu that keeps its item, whatever comes next. -/
def Safe (c : Screen) : Prop :=
  (c.redraws = false → Navigable c.status) ∧ ∀ e, Enabled e c → ∃ c', step e c = .ok c'

/-- One sheet with one item, which has one option. -/
def plain : Status where
  menuState := .showMenu
  update := false
  osdTimeout := 30
  osdTimeoutCnt := 0
  delayedFilescan := false
  question := .resetTarget
  selected := false
  doReboot := false
  toggleUsb := false
  usbMounted := false
  syncRdb := false
  flashFw := false
  verifyFlashFw := false
  formatSdcard := false
  prepareSdcard := false
  coreLoaded := true
  fileioEna := fun _ => 0
  removable := fun _ => false
  menuTop := [[{ itemName := [0x53], actionName := .none, actionValue := 0, optionList := [[0x20]] }]]
  menuAct := some 0
  menuItemAct := some (0, 0)
  itemFirst := none
  itemLast := none
  rebooted := false

def opened : Screen := ⟨plain, fun _ => none, true⟩

theorem opened_opened : Opened opened :=
  ⟨⟨0, by decide, rfl⟩, rfl, rfl, rfl, nofun⟩

/-- It is drawn. -/
def shown : Screen := (opened.select (0, 0) (some 0)).after (updateUi plain, [], false)

theorem draw_opened : step .redraw opened = .ok shown := rfl

/-- An environment in which nothing goes on. -/
def quiet : Env where
  osdTimer := false
  scanTimer := false
  newRate := false
  srecords := none
  inserted := fun _ _ => false
  protect := fun _ _ => false
  isDir := false
  isDot := false
  named := false
  uploaded := false
  unmounted := false

/-- P on a sheet follows the pointer to an item that is not there. -/
theorem protect_onSheet : ¬∀ c₀ c, Opened c₀ → Reaches (fun _ _ => True) c₀ c → Safe c := by
  intro h
  have hreach : Reaches (fun _ _ => True) opened shown :=
    .step (e := .redraw) .start trivial trivial draw_opened
  have henabled : Enabled (.key quiet 0x50) shown := ⟨rfl, rfl, by decide⟩
  obtain ⟨c', hc'⟩ := (h opened shown opened_opened hreach).2 _ henabled
  have hbad : step (.key quiet 0x50) shown = .error .item := rfl
  rw [hbad] at hc'
  cases hc'

/-- On the item all is well. -/
theorem shown_navigable : (shown.redraws = false → Navigable shown.status) ∧
    ∀ e, Enabled e shown → ((∃ c', step e shown = .ok c') ↔ Meets e shown) := by
  have hmeets : Meets .redraw opened := by
    intro _ p hp
    have hwindow : plain.window = [(0, 0)] := rfl
    rw [show opened.status = plain from rfl, hwindow, List.mem_singleton] at hp
    rw [hp]
    decide
  exact reaches_navigable opened_opened (.step (e := .redraw) .start trivial hmeets draw_opened)

end Pointers

end Menu
