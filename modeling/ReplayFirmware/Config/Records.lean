import Mathlib.Logic.Function.Basic
import ReplayFirmware.Ini.Symtab

/-! The records of the menu, and what the INI file is parsed into.

    A pointer is the number of the block that `malloc` returned, or NULL. A block comes with whatever
    it held before, and `malloc` may refuse it; following a null pointer has no outcome. -/

namespace Config

/-! ### Character arrays -/

/-- A character array and the memory after it. -/
abbrev Chars := ℕ → UInt8

/-- `strncpy`: `n` characters are written, NULs behind the end of the string. -/
def strncpy (dst : Chars) (src : List UInt8) (n : ℕ) : Chars :=
  fun i => if i < n then src.getD i 0 else dst i

/-- `strcpy` -/
def strcpy (dst : Chars) (src : List UInt8) : Chars := fun i => (src ++ [0]).getD i (dst i)

/-- `_strlcpy` -/
def strlcpy (dst : Chars) (src : List UInt8) (bufsize : ℕ) : Chars :=
  strcpy dst (src.take (bufsize - 1))

/-- `strcmp(a, s) == 0` -/
def Chars.Is (a : Chars) (s : List UInt8) : Prop := ∀ i ∈ List.range (s.length + 1), a i = s.getD i 0

instance (a : Chars) (s : List UInt8) : Decidable (a.Is s) := inferInstanceAs (Decidable (∀ _ ∈ _, _))

/-- The string in an array of `n` characters, which all belong to it when there is no NUL. -/
def Chars.str (a : Chars) (n : ℕ) : List UInt8 := ((List.range n).map a).takeWhile (· ≠ 0)

def chars (s : String) : List UInt8 := s.toList.map fun c => c.toNat.toUInt8

/-! ### The records -/

abbrev Ptr := Option ℕ

def maxMenuString : ℕ := 33
def maxItemString : ℕ := 17
def maxOptionString : ℕ := 17

/-- `itemoption_t` -/
structure ItemOption where
  last : Ptr
  next : Ptr
  option_name : Chars
  conf_value : UInt32

/-- `menuitem_t` -/
structure MenuItem where
  last : Ptr
  next : Ptr
  item_name : Chars
  option_list : Ptr
  selected_option : Ptr
  conf_mask : UInt32
  conf_dynamic : UInt8
  action_name : Chars
  action_value : UInt32

/-- `menu_t` -/
structure Menu where
  last : Ptr
  next : Ptr
  menu_title : Chars
  item_list : Ptr

/-- What a block holds when `malloc` returns it, as the record it is used for. -/
structure Raw where
  menu : Menu
  item : MenuItem
  option : ItemOption

/-- `malloc`: what the block holds that is returned for its n-th call, if one is. -/
abbrev Malloc := ℕ → Option Raw

/-- The part of `status_t` that the menu is built with, and the records it points to. -/
structure Status where
  menu_top : Ptr
  menu_act : Ptr
  menu_item_act : Ptr
  item_opt_act : Ptr
  last_rom_adr : UInt32
  config_s : UInt32
  config_d : UInt32
  menus : ℕ → Menu
  items : ℕ → MenuItem
  options : ℕ → ItemOption
  blocks : ℕ

def Status.setMenu (s : Status) (m : ℕ) (r : Menu) : Status :=
  { s with menus := Function.update s.menus m r }

def Status.setItem (s : Status) (i : ℕ) (r : MenuItem) : Status :=
  { s with items := Function.update s.items i r }

def Status.setOption (s : Status) (o : ℕ) (r : ItemOption) : Status :=
  { s with options := Function.update s.options o r }

section
variable (s : Status) (k : ℕ)

@[simp] theorem Status.setMenu_menus_self (r : Menu) : (s.setMenu k r).menus k = r := by
  simp [Status.setMenu]

theorem Status.setMenu_menus_of_ne (r : Menu) {j : ℕ} (h : j ≠ k) :
    (s.setMenu k r).menus j = s.menus j := by
  simp [Status.setMenu, h]

@[simp] theorem Status.setMenu_items (r : Menu) : (s.setMenu k r).items = s.items := rfl

@[simp] theorem Status.setMenu_options (r : Menu) : (s.setMenu k r).options = s.options := rfl

@[simp] theorem Status.setMenu_menu_top (r : Menu) : (s.setMenu k r).menu_top = s.menu_top := rfl

@[simp] theorem Status.setMenu_menu_act (r : Menu) : (s.setMenu k r).menu_act = s.menu_act := rfl

@[simp] theorem Status.setMenu_menu_item_act (r : Menu) : (s.setMenu k r).menu_item_act = s.menu_item_act := rfl

@[simp] theorem Status.setMenu_item_opt_act (r : Menu) : (s.setMenu k r).item_opt_act = s.item_opt_act := rfl

@[simp] theorem Status.setMenu_blocks (r : Menu) : (s.setMenu k r).blocks = s.blocks := rfl

@[simp] theorem Status.setItem_items_self (r : MenuItem) : (s.setItem k r).items k = r := by
  simp [Status.setItem]

theorem Status.setItem_items_of_ne (r : MenuItem) {j : ℕ} (h : j ≠ k) :
    (s.setItem k r).items j = s.items j := by
  simp [Status.setItem, h]

@[simp] theorem Status.setItem_menus (r : MenuItem) : (s.setItem k r).menus = s.menus := rfl

@[simp] theorem Status.setItem_options (r : MenuItem) : (s.setItem k r).options = s.options := rfl

@[simp] theorem Status.setItem_menu_top (r : MenuItem) : (s.setItem k r).menu_top = s.menu_top := rfl

@[simp] theorem Status.setItem_menu_act (r : MenuItem) : (s.setItem k r).menu_act = s.menu_act := rfl

@[simp] theorem Status.setItem_menu_item_act (r : MenuItem) : (s.setItem k r).menu_item_act = s.menu_item_act := rfl

@[simp] theorem Status.setItem_item_opt_act (r : MenuItem) : (s.setItem k r).item_opt_act = s.item_opt_act := rfl

@[simp] theorem Status.setItem_blocks (r : MenuItem) : (s.setItem k r).blocks = s.blocks := rfl

@[simp] theorem Status.setOption_options_self (r : ItemOption) : (s.setOption k r).options k = r := by
  simp [Status.setOption]

theorem Status.setOption_options_of_ne (r : ItemOption) {j : ℕ} (h : j ≠ k) :
    (s.setOption k r).options j = s.options j := by
  simp [Status.setOption, h]

@[simp] theorem Status.setOption_menus (r : ItemOption) : (s.setOption k r).menus = s.menus := rfl

@[simp] theorem Status.setOption_items (r : ItemOption) : (s.setOption k r).items = s.items := rfl

@[simp] theorem Status.setOption_menu_top (r : ItemOption) : (s.setOption k r).menu_top = s.menu_top := rfl

@[simp] theorem Status.setOption_menu_act (r : ItemOption) : (s.setOption k r).menu_act = s.menu_act := rfl

@[simp] theorem Status.setOption_menu_item_act (r : ItemOption) : (s.setOption k r).menu_item_act = s.menu_item_act := rfl

@[simp] theorem Status.setOption_item_opt_act (r : ItemOption) : (s.setOption k r).item_opt_act = s.item_opt_act := rfl

@[simp] theorem Status.setOption_blocks (r : ItemOption) : (s.setOption k r).blocks = s.blocks := rfl

end

/-! ### The allocations -/

/-- The next block as the first menu. -/
def Status.firstMenu (s : Status) (r : Menu) : Status :=
  { s with
    menus := Function.update s.menus s.blocks r, blocks := s.blocks + 1
    menu_top := some s.blocks, menu_act := some s.blocks, menu_item_act := none }

/-- The next block as a menu behind `act`. -/
def Status.addMenu (s : Status) (act : ℕ) (r : Menu) : Status :=
  { s with
    menus := Function.update
      (Function.update s.menus act { s.menus act with next := some s.blocks }) s.blocks r
    blocks := s.blocks + 1, menu_act := some s.blocks, menu_item_act := none }

@[simp] theorem Status.firstMenu_menus_self (s : Status) (r : Menu) :
    (s.firstMenu r).menus s.blocks = r := Function.update_self ..

@[simp] theorem Status.addMenu_menus_self (s : Status) (act : ℕ) (r : Menu) :
    (s.addMenu act r).menus s.blocks = r := Function.update_self ..

def newMenu (raw : Menu) (title : List UInt8) (last : Ptr) : Menu :=
  { last := last, next := none, item_list := none
    menu_title := strncpy raw.menu_title title maxMenuString }

/-- `CFG_alloc_menu_and_set_active`: the record is put behind the current menu, or is the top. -/
def allocMenu (malloc : Malloc) (title : List UInt8) (s : Status) : Option Status :=
  match malloc s.blocks with
  | none => none
  | some raw =>
    match s.menu_top, s.menu_act with
    | some _, some act => some (s.addMenu act (newMenu raw.menu title (some act)))
    | some _, none => none
    | none, _ => some (s.firstMenu (newMenu raw.menu title none))

/-- The next block as the first item of menu `m`. -/
def Status.firstItem (s : Status) (m : ℕ) (r : MenuItem) : Status :=
  { s with
    menus := Function.update s.menus m { s.menus m with item_list := some s.blocks }
    items := Function.update s.items s.blocks r, blocks := s.blocks + 1
    menu_item_act := some s.blocks }

/-- The next block as an item behind `act`. -/
def Status.addItem (s : Status) (act : ℕ) (r : MenuItem) : Status :=
  { s with
    items := Function.update
      (Function.update s.items act { s.items act with next := some s.blocks }) s.blocks r
    blocks := s.blocks + 1, menu_item_act := some s.blocks }

@[simp] theorem Status.firstItem_items_self (s : Status) (m : ℕ) (r : MenuItem) :
    (s.firstItem m r).items s.blocks = r := Function.update_self ..

theorem Status.firstItem_items_of_ne (s : Status) (m : ℕ) (r : MenuItem) {i : ℕ}
    (h : i ≠ s.blocks) : (s.firstItem m r).items i = s.items i := Function.update_of_ne h ..

@[simp] theorem Status.addItem_items_self (s : Status) (act : ℕ) (r : MenuItem) :
    (s.addItem act r).items s.blocks = r := Function.update_self ..

/-- A new item; its mask, its kind and the value of its action are not set. -/
def newItem (raw : MenuItem) (last : Ptr) : MenuItem :=
  { raw with
    last := last, next := none, option_list := none, selected_option := none
    item_name := Function.update raw.item_name 0 0
    action_name := Function.update raw.action_name 0 0 }

theorem newItem_unnamed (raw : MenuItem) (last : Ptr) : (newItem raw last).item_name 0 = 0 :=
  Function.update_self 0 0 raw.item_name

/-- `CFG_alloc_menuitem_and_set_active`, behind the current item or as the first of the menu. -/
def allocItem (malloc : Malloc) (s : Status) : Option Status :=
  match malloc s.blocks, s.menu_act with
  | some raw, some m =>
    match (s.menus m).item_list, s.menu_item_act with
    | some _, some act => some (s.addItem act (newItem raw.item (some act)))
    | some _, none => none
    | none, _ => some (s.firstItem m (newItem raw.item none))
  | _, _ => none

/-- The next block as the first option of item `i`. -/
def Status.firstOption (s : Status) (i : ℕ) (r : ItemOption) : Status :=
  { s with
    items := Function.update s.items i { s.items i with option_list := some s.blocks }
    options := Function.update s.options s.blocks r, blocks := s.blocks + 1
    item_opt_act := some s.blocks }

/-- The next block as an option behind `act`. -/
def Status.addOption (s : Status) (act : ℕ) (r : ItemOption) : Status :=
  { s with
    options := Function.update
      (Function.update s.options act { s.options act with next := some s.blocks }) s.blocks r
    blocks := s.blocks + 1, item_opt_act := some s.blocks }

@[simp] theorem Status.firstOption_options_self (s : Status) (i : ℕ) (r : ItemOption) :
    (s.firstOption i r).options s.blocks = r := Function.update_self ..

theorem Status.firstOption_options_of_ne (s : Status) (i : ℕ) (r : ItemOption) {o : ℕ}
    (h : o ≠ s.blocks) : (s.firstOption i r).options o = s.options o := Function.update_of_ne h ..

@[simp] theorem Status.addOption_options_self (s : Status) (act : ℕ) (r : ItemOption) :
    (s.addOption act r).options s.blocks = r := Function.update_self ..

/-- A new option; its value is not set. -/
def newOption (raw : ItemOption) (last : Ptr) : ItemOption :=
  { raw with last := last, next := none, option_name := Function.update raw.option_name 0 0 }

theorem newOption_unnamed (raw : ItemOption) (last : Ptr) : (newOption raw last).option_name 0 = 0 :=
  Function.update_self 0 0 raw.option_name

/-- `CFG_alloc_itemoption_and_set_active`, behind the current option or as the first of the item. -/
def allocOption (malloc : Malloc) (s : Status) : Option Status :=
  match malloc s.blocks, s.menu_item_act with
  | some raw, some i =>
    match (s.items i).option_list, s.item_opt_act with
    | some _, some act => some (s.addOption act (newOption raw.option (some act)))
    | some _, none => none
    | none, _ => some (s.firstOption i (newOption raw.option none))
  | _, _ => none

end Config
