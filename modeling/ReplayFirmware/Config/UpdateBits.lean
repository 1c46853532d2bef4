import ReplayFirmware.Config.Runs

/-! The configuration words, and what a file leaves behind: the lines that are left, the menu, and the
    words that are sent when no line failed.

    Two memories give the same menu when all links, names, masks, values and selections are the same;
    a string is what its array holds up to a NUL. -/

namespace Config

/-! ### `_MENU_update_bits` -/

/-- An item that is no action and has an option selected: its bits, static and dynamic. -/
def updateItem (s : Status) (i : ℕ) (bits : UInt32 × UInt32) : UInt32 × UInt32 :=
  let it := s.items i
  match it.selected_option with
  | none => bits
  | some o =>
    if it.action_name 0 ≠ 0 then bits
    else if it.conf_dynamic ≠ 0 then
      (bits.1, bits.2 &&& ~~~it.conf_mask ||| (s.options o).conf_value)
    else (bits.1 &&& ~~~it.conf_mask ||| (s.options o).conf_value, bits.2)

/-- The items of a menu. `fuel` is above their number. -/
def updateItems (s : Status) : ℕ → Ptr → UInt32 × UInt32 → Option (UInt32 × UInt32)
  | _, none, bits => some bits
  | 0, some _, _ => none
  | fuel + 1, some i, bits => updateItems s fuel (s.items i).next (updateItem s i bits)

def updateMenus (s : Status) : ℕ → Ptr → UInt32 × UInt32 → Option (UInt32 × UInt32)
  | _, none, bits => some bits
  | 0, some _, _ => none
  | fuel + 1, some m, bits =>
    (updateItems s s.blocks (s.menus m).item_list bits).bind (updateMenus s fuel (s.menus m).next)

/-- `_MENU_update_bits`: the static and the dynamic word that are sent. -/
def updateBits (s : Status) : Option (UInt32 × UInt32) :=
  updateMenus s s.blocks s.menu_top (s.config_s, s.config_d)

/-! ### Records that look the same -/

/-- Two menus with the same links and the same array for the title. -/
structure MenuAlike (r₁ r₂ : Menu) : Prop where
  last : r₁.last = r₂.last
  next : r₁.next = r₂.next
  list : r₁.item_list = r₂.item_list
  title : ∀ i < maxMenuString, r₁.menu_title i = r₂.menu_title i

/-- Two items with the same links, names and selections. -/
structure ItemAlike (r₁ r₂ : MenuItem) : Prop where
  last : r₁.last = r₂.last
  next : r₁.next = r₂.next
  list : r₁.option_list = r₂.option_list
  selected : r₁.selected_option = r₂.selected_option
  name : r₁.item_name.str maxItemString = r₂.item_name.str maxItemString
  action : r₁.action_name.str maxItemString = r₂.action_name.str maxItemString

/-- Two options with the same links and names. -/
structure OptionAlike (r₁ r₂ : ItemOption) : Prop where
  last : r₁.last = r₂.last
  next : r₁.next = r₂.next
  name : r₁.option_name.str maxOptionString = r₂.option_name.str maxOptionString

/-- Two statuses that differ in masks, kinds and values alone. -/
structure Alike (s₁ s₂ : Status) : Prop where
  menu_top : s₁.menu_top = s₂.menu_top
  menu_act : s₁.menu_act = s₂.menu_act
  menu_item_act : s₁.menu_item_act = s₂.menu_item_act
  item_opt_act : s₁.item_opt_act = s₂.item_opt_act
  last_rom_adr : s₁.last_rom_adr = s₂.last_rom_adr
  config_s : s₁.config_s = s₂.config_s
  config_d : s₁.config_d = s₂.config_d
  blocks : s₁.blocks = s₂.blocks
  menus : ∀ m, MenuAlike (s₁.menus m) (s₂.menus m)
  items : ∀ i, ItemAlike (s₁.items i) (s₂.items i)
  options : ∀ o, OptionAlike (s₁.options o) (s₂.options o)

/-- The same menus, with the same masks and values. Records that are in no list are what they were
    before the file was read, in both. -/
structure SameMenu (s₁ s₂ : Status) : Prop where
  alike : Alike s₁ s₂
  masks : ∀ i, (s₁.items i).conf_mask = (s₂.items i).conf_mask
  values : ∀ o, (s₁.options o).conf_value = (s₂.options o).conf_value

/-- Two parses of a file: they stop at the same line, if at any, with the same menu, and send the same
    words when they do not stop; or both follow a null pointer. -/
def SameOutcome : Option (List Directive × Status) → Option (List Directive × Status) → Prop
  | none, none => True
  | some (rest₁, s₁), some (rest₂, s₂) =>
    rest₁ = rest₂ ∧ SameMenu s₁ s₂ ∧ (rest₁ = [] → updateBits s₁ = updateBits s₂)
  | _, _ => False

/-! ### Strings -/

theorem Chars.str_congr {a b : Chars} {n : ℕ} (h : ∀ i < n, a i = b i) : a.str n = b.str n := by
  rw [Chars.str, Chars.str, List.map_congr_left fun i hi => h i (List.mem_range.mp hi)]

theorem strncpy_str (a b : Chars) (src : List UInt8) (n : ℕ) :
    (strncpy a src n).str n = (strncpy b src n).str n :=
  Chars.str_congr fun i hi => by rw [strncpy, strncpy, if_pos hi, if_pos hi]

theorem Chars.str_eq_nil_iff (a : Chars) {n : ℕ} (hn : 0 < n) : a.str n = [] ↔ a 0 = 0 := by
  obtain ⟨n, rfl⟩ := Nat.exists_eq_succ_of_ne_zero (Nat.ne_of_gt hn)
  rw [Chars.str, List.range_succ_eq_map, List.map_cons, List.takeWhile_cons]
  by_cases h : a 0 = 0 <;> simp [h]

theorem Chars.first_congr {a b : Chars} {n : ℕ} (hn : 0 < n) (h : a.str n = b.str n) :
    a 0 = 0 ↔ b 0 = 0 := by
  rw [← a.str_eq_nil_iff hn, h, b.str_eq_nil_iff hn]

theorem cleared_str (a : Chars) {n : ℕ} (hn : 0 < n) : Chars.str (Function.update a 0 0) n = [] :=
  (Chars.str_eq_nil_iff _ hn).mpr (Function.update_self ..)

theorem takeWhile_nul (src l : List UInt8) :
    (src ++ 0 :: l).takeWhile (· ≠ 0) = src.takeWhile (· ≠ 0) := by
  induction src with
  | nil => simp
  | cons c src ih => simp only [List.cons_append, List.takeWhile_cons, ih]

/-- Arrays that are the same up to a NUL. -/
theorem Chars.str_congr_nul {a b : Chars} {k n : ℕ} (hk : k < n) (h : ∀ i ≤ k, a i = b i)
    (h0 : a k = 0) : a.str n = b.str n := by
  obtain ⟨m, rfl⟩ : ∃ m, n = k + (m + 1) := ⟨n - k - 1, by omega⟩
  have hsplit : ∀ {c : Chars}, c k = 0 →
      c.str (k + (m + 1)) = ((List.range k).map c).takeWhile (· ≠ 0) := by
    intro c hc
    rw [Chars.str, List.range_add, List.map_append, List.range_succ_eq_map, List.map_cons,
      List.map_cons, Nat.add_zero, hc, takeWhile_nul]
  rw [hsplit h0, hsplit ((h k (Nat.le_refl k)).symm.trans h0),
    List.map_congr_left fun i hi => h i (Nat.le_of_lt (List.mem_range.mp hi))]

/-- A string that fits into its array with its NUL. -/
theorem strcpy_str (a b : Chars) {src : List UInt8} {n : ℕ} (h : src.length < n) :
    (strcpy a src).str n = (strcpy b src).str n := by
  refine Chars.str_congr_nul h (fun i hi => ?_) ?_
  · have hlt : i < (src ++ [0]).length := by
      rw [List.length_append]
      exact Nat.lt_succ_of_le hi
    rw [strcpy, strcpy, List.getD_eq_getElem?_getD, List.getD_eq_getElem?_getD,
      List.getElem?_eq_getElem hlt, Option.getD_some, Option.getD_some]
  · simp [strcpy]

end Config
