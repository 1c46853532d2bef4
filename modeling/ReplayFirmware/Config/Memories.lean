import ReplayFirmware.Config.Marks
import ReplayFirmware.Config.Relink

/-! Two memories. One file is parsed with two contents of the memory that `malloc` returns; the two
    statuses stay alike, and the marks tell where their masks and values are the same. -/

namespace Config

variable {m₁ m₂ : Malloc} {s₁ s₂ : Status} {a : Marks}

/-! ### Masks and values -/

/-- The masks of an item are what the file gave it, or what the two memories held. -/
def MaskIs (m₁ m₂ : Malloc) (s₁ s₂ : Status) (i : ℕ) : Option UInt32 → Prop
  | some mask => (s₁.items i).conf_mask = mask ∧ (s₂.items i).conf_mask = mask ∧
      (s₁.items i).conf_dynamic = (s₂.items i).conf_dynamic
  | none => ∃ r₁ r₂, m₁ i = some r₁ ∧ m₂ i = some r₂ ∧
      (s₁.items i).conf_mask = r₁.item.conf_mask ∧ (s₂.items i).conf_mask = r₂.item.conf_mask

/-- The values of an option are the same, or what the two memories held. -/
def ValueIs (m₁ m₂ : Malloc) (s₁ s₂ : Status) (o : ℕ) : Bool → Prop
  | true => (s₁.options o).conf_value = (s₂.options o).conf_value
  | false => ∃ r₁ r₂, m₁ o = some r₁ ∧ m₂ o = some r₂ ∧
      (s₁.options o).conf_value = r₁.option.conf_value ∧
      (s₂.options o).conf_value = r₂.option.conf_value

/-- An item has its mask in both. -/
def MaskSet (s₁ s₂ : Status) (i : ℕ) : Prop :=
  (s₁.items i).conf_mask = (s₂.items i).conf_mask ∧
    (s₁.items i).conf_dynamic = (s₂.items i).conf_dynamic

/-- The current item of two statuses is as it is marked. -/
def CurrentItem (m₁ m₂ : Malloc) (s₁ s₂ : Status) : Option ItemMarks → Prop
  | none => s₁.menu_item_act = none
  | some it => ∃ i m, s₁.menu_item_act = some i ∧ s₁.menu_act = some m ∧ i < s₁.blocks ∧
      (it.named = true ↔ (s₁.items i).item_name 0 ≠ 0) ∧ MaskIs m₁ m₂ s₁ s₂ i it.mask

/-- The current option of two statuses is as it is marked. -/
def CurrentOption (m₁ m₂ : Malloc) (s₁ s₂ : Status) : Option OptionMarks → Prop
  | none => s₁.item_opt_act = none
  | some op => ∃ o, s₁.item_opt_act = some o ∧ o < s₁.blocks ∧
      (op.named = true ↔ (s₁.options o).option_name 0 ≠ 0) ∧ ValueIs m₁ m₂ s₁ s₂ o op.valued

/-- The items and options that are not the current ones: the masks and values are the same, or one of
    them is what the memories held. -/
structure Behind (m₁ m₂ : Malloc) (s₁ s₂ : Status) (whole : Bool) : Prop where
  masks : whole = true → ∀ i, s₁.menu_item_act ≠ some i → MaskSet s₁ s₂ i
  values : whole = true → ∀ o, s₁.item_opt_act ≠ some o → ValueIs m₁ m₂ s₁ s₂ o true
  broken : whole = false →
    (∃ i < s₁.blocks, s₁.menu_item_act ≠ some i ∧ MaskIs m₁ m₂ s₁ s₂ i none) ∨
      ∃ o < s₁.blocks, s₁.item_opt_act ≠ some o ∧ ValueIs m₁ m₂ s₁ s₂ o false

/-- The pointers that an allocation follows. -/
structure Anchored (s : Status) : Prop where
  top : s.menu_top ≠ none → s.menu_act ≠ none
  list : ∀ m, s.menu_act = some m → (s.menus m).item_list = none ∨ ∃ i, s.menu_item_act = some i
  options : ∀ i, s.menu_item_act = some i →
    (s.items i).option_list = none ∨ ∃ o, s.item_opt_act = some o

/-- Two parses that are as they are marked. -/
structure Marked (m₁ m₂ : Malloc) (a : Marks) (s₁ s₂ : Status) : Prop where
  alike : Alike s₁ s₂
  anchored : Anchored s₁
  item : CurrentItem m₁ m₂ s₁ s₂ a.item
  option : CurrentOption m₁ m₂ s₁ s₂ a.option
  behind : Behind m₁ m₂ s₁ s₂ a.whole

/-! ### Masks and values that stay -/

/-- The masks and kinds of two items stay. -/
structure KeepsMask (s₁ s₂ s₁' s₂' : Status) (i : ℕ) : Prop where
  mask₁ : (s₁'.items i).conf_mask = (s₁.items i).conf_mask
  mask₂ : (s₂'.items i).conf_mask = (s₂.items i).conf_mask
  dynamic₁ : (s₁'.items i).conf_dynamic = (s₁.items i).conf_dynamic
  dynamic₂ : (s₂'.items i).conf_dynamic = (s₂.items i).conf_dynamic

/-- The values of two options stay. -/
structure KeepsValue (s₁ s₂ s₁' s₂' : Status) (o : ℕ) : Prop where
  value₁ : (s₁'.options o).conf_value = (s₁.options o).conf_value
  value₂ : (s₂'.options o).conf_value = (s₂.options o).conf_value

section
variable {s₁' s₂' : Status} {i o : ℕ}

theorem MaskIs.keep {mask : Option UInt32} (h : MaskIs m₁ m₂ s₁ s₂ i mask)
    (hk : KeepsMask s₁ s₂ s₁' s₂' i) : MaskIs m₁ m₂ s₁' s₂' i mask := by
  cases mask with
  | some mask => exact ⟨hk.mask₁.trans h.1, hk.mask₂.trans h.2.1,
      hk.dynamic₁.trans (h.2.2.trans hk.dynamic₂.symm)⟩
  | none =>
    obtain ⟨r₁, r₂, h₁, h₂, hm₁, hm₂⟩ := h
    exact ⟨r₁, r₂, h₁, h₂, hk.mask₁.trans hm₁, hk.mask₂.trans hm₂⟩

theorem ValueIs.keep {valued : Bool} (h : ValueIs m₁ m₂ s₁ s₂ o valued)
    (hk : KeepsValue s₁ s₂ s₁' s₂' o) : ValueIs m₁ m₂ s₁' s₂' o valued := by
  cases valued with
  | true => exact hk.value₁.trans (Eq.trans h hk.value₂.symm)
  | false =>
    obtain ⟨r₁, r₂, h₁, h₂, hv₁, hv₂⟩ := h
    exact ⟨r₁, r₂, h₁, h₂, hk.value₁.trans hv₁, hk.value₂.trans hv₂⟩

theorem MaskSet.keep (h : MaskSet s₁ s₂ i) (hk : KeepsMask s₁ s₂ s₁' s₂' i) : MaskSet s₁' s₂' i :=
  ⟨hk.mask₁.trans (h.1.trans hk.mask₂.symm), hk.dynamic₁.trans (h.2.trans hk.dynamic₂.symm)⟩

theorem MaskIs.set {mask : Option UInt32} (h : MaskIs m₁ m₂ s₁ s₂ i mask)
    (hm : mask.isSome = true) : MaskSet s₁ s₂ i := by
  obtain ⟨mask, rfl⟩ := Option.isSome_iff_exists.mp hm
  exact ⟨h.1.trans h.2.1.symm, h.2.2⟩

/-- The current item is left behind, for none or a fresh one. -/
theorem Behind.leaveItem {w : Bool} {it : Option ItemMarks} (h : Behind m₁ m₂ s₁ s₂ w)
    (hit : CurrentItem m₁ m₂ s₁ s₂ it) (hact : ∀ i < s₁.blocks, s₁'.menu_item_act ≠ some i)
    (hopt : s₁'.item_opt_act = s₁.item_opt_act) (hblocks : s₁.blocks ≤ s₁'.blocks)
    (hmask : ∀ i, s₁'.menu_item_act ≠ some i → KeepsMask s₁ s₂ s₁' s₂' i)
    (hvalue : ∀ o, KeepsValue s₁ s₂ s₁' s₂' o) :
    Behind m₁ m₂ s₁' s₂' (w && it.all (·.mask.isSome)) := by
  refine ⟨fun hw i hi => ?_, fun hw o ho => ?_, fun hw => ?_⟩
  · rw [Bool.and_eq_true] at hw
    refine MaskSet.keep ?_ (hmask i hi)
    by_cases hcur : s₁.menu_item_act = some i
    · cases it with
      | none => rw [hit] at hcur; cases hcur
      | some it =>
        obtain ⟨j, m, hj, -, -, -, hmaskj⟩ := hit
        obtain rfl : j = i := Option.some.inj (hj.symm.trans hcur)
        exact hmaskj.set hw.2
    · exact h.masks hw.1 i hcur
  · rw [Bool.and_eq_true] at hw
    exact ValueIs.keep (h.values hw.1 o (hopt ▸ ho)) (hvalue o)
  · rw [Bool.and_eq_false_iff] at hw
    rcases hw with hw | hw
    · rcases h.broken hw with ⟨i, hi, -, hraw⟩ | ⟨o, ho, hcur, hraw⟩
      · exact .inl ⟨i, Nat.lt_of_lt_of_le hi hblocks, hact i hi, hraw.keep (hmask i (hact i hi))⟩
      · exact .inr ⟨o, Nat.lt_of_lt_of_le ho hblocks, hopt ▸ hcur, hraw.keep (hvalue o)⟩
    · cases it with
      | none => cases hw
      | some it =>
        obtain ⟨i, m, -, -, hi, -, hmaski⟩ := hit
        have hnone : it.mask = none := Option.not_isSome_iff_eq_none.mp (by simpa using hw)
        rw [hnone] at hmaski
        exact .inl ⟨i, Nat.lt_of_lt_of_le hi hblocks, hact i hi, hmaski.keep (hmask i (hact i hi))⟩

/-- The current option is left behind. -/
theorem Behind.leaveOption {w : Bool} {op : Option OptionMarks} (h : Behind m₁ m₂ s₁ s₂ w)
    (hop : CurrentOption m₁ m₂ s₁ s₂ op) (hact : ∀ o < s₁.blocks, s₁'.item_opt_act ≠ some o)
    (hitem : s₁'.menu_item_act = s₁.menu_item_act) (hblocks : s₁.blocks ≤ s₁'.blocks)
    (hmask : ∀ i, KeepsMask s₁ s₂ s₁' s₂' i)
    (hvalue : ∀ o, s₁'.item_opt_act ≠ some o → KeepsValue s₁ s₂ s₁' s₂' o) :
    Behind m₁ m₂ s₁' s₂' (w && op.all (·.valued)) := by
  refine ⟨fun hw i hi => ?_, fun hw o ho => ?_, fun hw => ?_⟩
  · rw [Bool.and_eq_true] at hw
    exact MaskSet.keep (h.masks hw.1 i (hitem ▸ hi)) (hmask i)
  · rw [Bool.and_eq_true] at hw
    refine ValueIs.keep ?_ (hvalue o ho)
    by_cases hcur : s₁.item_opt_act = some o
    · cases op with
      | none => rw [hop] at hcur; cases hcur
      | some op =>
        obtain ⟨j, hj, -, -, hvaluej⟩ := hop
        obtain rfl : j = o := Option.some.inj (hj.symm.trans hcur)
        have hvalued : op.valued = true := hw.2
        rwa [hvalued] at hvaluej
    · exact h.values hw.1 o hcur
  · rw [Bool.and_eq_false_iff] at hw
    rcases hw with hw | hw
    · rcases h.broken hw with ⟨i, hi, hcur, hraw⟩ | ⟨o, ho, -, hraw⟩
      · exact .inl ⟨i, Nat.lt_of_lt_of_le hi hblocks, hitem ▸ hcur, hraw.keep (hmask i)⟩
      · exact .inr ⟨o, Nat.lt_of_lt_of_le ho hblocks, hact o ho, hraw.keep (hvalue o (hact o ho))⟩
    · cases op with
      | none => cases hw
      | some op =>
        obtain ⟨o, -, ho, -, hvalueo⟩ := hop
        have hunset : op.valued = false := hw
        rw [hunset] at hvalueo
        exact .inr ⟨o, Nat.lt_of_lt_of_le ho hblocks, hact o ho, hvalueo.keep (hvalue o (hact o ho))⟩

/-- Changes of the current item and of the current option. -/
theorem Behind.keep {w : Bool} (h : Behind m₁ m₂ s₁ s₂ w)
    (hitem : s₁'.menu_item_act = s₁.menu_item_act) (hopt : s₁'.item_opt_act = s₁.item_opt_act)
    (hblocks : s₁'.blocks = s₁.blocks)
    (hmask : ∀ i, s₁.menu_item_act ≠ some i → KeepsMask s₁ s₂ s₁' s₂' i)
    (hvalue : ∀ o, s₁.item_opt_act ≠ some o → KeepsValue s₁ s₂ s₁' s₂' o) :
    Behind m₁ m₂ s₁' s₂' w := by
  refine ⟨fun hw i hi => ?_, fun hw o ho => ?_, fun hw => ?_⟩
  · exact MaskSet.keep (h.masks hw i (hitem ▸ hi)) (hmask i (hitem ▸ hi))
  · exact ValueIs.keep (h.values hw o (hopt ▸ ho)) (hvalue o (hopt ▸ ho))
  · rw [hblocks, hitem, hopt]
    rcases h.broken hw with ⟨i, hi, hcur, hraw⟩ | ⟨o, ho, hcur, hraw⟩
    · exact .inl ⟨i, hi, hcur, hraw.keep (hmask i hcur)⟩
    · exact .inr ⟨o, ho, hcur, hraw.keep (hvalue o hcur)⟩

end

/-- The current option stays the same one. -/
theorem CurrentOption.keep {s₁' s₂' : Status} {op : Option OptionMarks}
    (h : CurrentOption m₁ m₂ s₁ s₂ op) (hact : s₁'.item_opt_act = s₁.item_opt_act)
    (hblocks : s₁.blocks ≤ s₁'.blocks)
    (hname : ∀ o, (s₁'.options o).option_name = (s₁.options o).option_name)
    (hvalue : ∀ o, KeepsValue s₁ s₂ s₁' s₂' o) : CurrentOption m₁ m₂ s₁' s₂' op := by
  cases op with
  | none => exact hact.trans h
  | some op =>
    obtain ⟨o, ho, hlt, hnamed, hv⟩ := h
    exact ⟨o, hact.trans ho, Nat.lt_of_lt_of_le hlt hblocks, by rw [hnamed, hname], hv.keep (hvalue o)⟩

/-- The current item stays the same one. -/
theorem CurrentItem.keep {s₁' s₂' : Status} {it : Option ItemMarks}
    (h : CurrentItem m₁ m₂ s₁ s₂ it) (hact : s₁'.menu_item_act = s₁.menu_item_act)
    (hmenu : s₁'.menu_act = s₁.menu_act) (hblocks : s₁.blocks ≤ s₁'.blocks)
    (hname : ∀ i, (s₁'.items i).item_name = (s₁.items i).item_name)
    (hmask : ∀ i, KeepsMask s₁ s₂ s₁' s₂' i) : CurrentItem m₁ m₂ s₁' s₂' it := by
  cases it with
  | none => exact hact.trans h
  | some it =>
    obtain ⟨i, m, hi, hm, hlt, hnamed, hmaski⟩ := h
    exact ⟨i, m, hact.trans hi, hmenu.trans hm, Nat.lt_of_lt_of_le hlt hblocks, by rw [hnamed, hname],
      hmaski.keep (hmask i)⟩

/-! ### Records that stay alike -/

/-- A record is put at the same place of two memories. -/
theorem update_alike {β : Type*} {R : β → β → Prop} {f g : ℕ → β} (h : ∀ k, R (f k) (g k)) {x y : β}
    (hxy : R x y) (b : ℕ) : ∀ k, R (Function.update f b x k) (Function.update g b y k) := by
  intro k
  rw [Function.update_apply, Function.update_apply]
  split
  · exact hxy
  · exact h k

theorem newMenu_alike (r₁ r₂ : Menu) (title : List UInt8) (last : Ptr) :
    MenuAlike (newMenu r₁ title last) (newMenu r₂ title last) :=
  ⟨rfl, rfl, rfl, fun i hi => by
    rw [newMenu, newMenu]
    dsimp only
    rw [strncpy, strncpy, if_pos hi, if_pos hi]⟩

theorem newItem_alike (r₁ r₂ : MenuItem) (last : Ptr) :
    ItemAlike (newItem r₁ last) (newItem r₂ last) :=
  ⟨rfl, rfl, rfl, rfl, (cleared_str _ (by decide)).trans (cleared_str _ (by decide)).symm,
    (cleared_str _ (by decide)).trans (cleared_str _ (by decide)).symm⟩

theorem newOption_alike (r₁ r₂ : ItemOption) (last : Ptr) :
    OptionAlike (newOption r₁ last) (newOption r₂ last) :=
  ⟨rfl, rfl, (cleared_str _ (by decide)).trans (cleared_str _ (by decide)).symm⟩

theorem Alike.setItem (h : Alike s₁ s₂) {r₁ r₂ : MenuItem} (hr : ItemAlike r₁ r₂) (i : ℕ) :
    Alike (s₁.setItem i r₁) (s₂.setItem i r₂) :=
  { h with items := update_alike h.items hr i }

theorem Alike.setOption (h : Alike s₁ s₂) {r₁ r₂ : ItemOption} (hr : OptionAlike r₁ r₂) (o : ℕ) :
    Alike (s₁.setOption o r₁) (s₂.setOption o r₂) :=
  { h with options := update_alike h.options hr o }

theorem Alike.named {i : ℕ} (h : Alike s₁ s₂) :
    (s₁.items i).item_name 0 ≠ 0 ↔ (s₂.items i).item_name 0 ≠ 0 :=
  not_congr (Chars.first_congr (by decide) (h.items i).name)

theorem Alike.optionNamed {o : ℕ} (h : Alike s₁ s₂) :
    (s₁.options o).option_name 0 ≠ 0 ↔ (s₂.options o).option_name 0 ≠ 0 :=
  not_congr (Chars.first_congr (by decide) (h.options o).name)

section
variable (h : Alike s₁ s₂)
include h

theorem Alike.firstMenu {r₁ r₂ : Menu} (hr : MenuAlike r₁ r₂) :
    Alike (s₁.firstMenu r₁) (s₂.firstMenu r₂) :=
  have hmenus : ∀ m, MenuAlike (Function.update s₁.menus s₁.blocks r₁ m)
      (Function.update s₂.menus s₂.blocks r₂ m) := h.blocks ▸ update_alike h.menus hr s₁.blocks
  { h with
    menu_top := congrArg some h.blocks, menu_act := congrArg some h.blocks, menu_item_act := rfl
    blocks := congrArg (· + 1) h.blocks, menus := hmenus }

theorem Alike.addMenu (act : ℕ) {r₁ r₂ : Menu} (hr : MenuAlike r₁ r₂) :
    Alike (s₁.addMenu act r₁) (s₂.addMenu act r₂) :=
  have hact : MenuAlike { s₁.menus act with next := some s₁.blocks }
      { s₂.menus act with next := some s₂.blocks } :=
    { h.menus act with next := congrArg some h.blocks }
  have hmenus : ∀ m, MenuAlike ((s₁.addMenu act r₁).menus m)
      (Function.update (Function.update s₂.menus act { s₂.menus act with next := some s₂.blocks })
        s₂.blocks r₂ m) := h.blocks ▸ update_alike (update_alike h.menus hact act) hr s₁.blocks
  { h with
    menu_act := congrArg some h.blocks, menu_item_act := rfl
    blocks := congrArg (· + 1) h.blocks, menus := hmenus }

theorem Alike.firstItem (m : ℕ) {r₁ r₂ : MenuItem} (hr : ItemAlike r₁ r₂) :
    Alike (s₁.firstItem m r₁) (s₂.firstItem m r₂) :=
  have hm : MenuAlike { s₁.menus m with item_list := some s₁.blocks }
      { s₂.menus m with item_list := some s₂.blocks } :=
    { h.menus m with list := congrArg some h.blocks }
  have hitems : ∀ i, ItemAlike (Function.update s₁.items s₁.blocks r₁ i)
      (Function.update s₂.items s₂.blocks r₂ i) := h.blocks ▸ update_alike h.items hr s₁.blocks
  { h with
    menu_item_act := congrArg some h.blocks, blocks := congrArg (· + 1) h.blocks
    menus := update_alike h.menus hm m, items := hitems }

theorem Alike.addItem (act : ℕ) {r₁ r₂ : MenuItem} (hr : ItemAlike r₁ r₂) :
    Alike (s₁.addItem act r₁) (s₂.addItem act r₂) :=
  have hact : ItemAlike { s₁.items act with next := some s₁.blocks }
      { s₂.items act with next := some s₂.blocks } :=
    { h.items act with next := congrArg some h.blocks }
  have hitems : ∀ i, ItemAlike ((s₁.addItem act r₁).items i)
      (Function.update (Function.update s₂.items act { s₂.items act with next := some s₂.blocks })
        s₂.blocks r₂ i) := h.blocks ▸ update_alike (update_alike h.items hact act) hr s₁.blocks
  { h with
    menu_item_act := congrArg some h.blocks, blocks := congrArg (· + 1) h.blocks, items := hitems }

theorem Alike.firstOption (i : ℕ) {r₁ r₂ : ItemOption} (hr : OptionAlike r₁ r₂) :
    Alike (s₁.firstOption i r₁) (s₂.firstOption i r₂) :=
  have hi : ItemAlike { s₁.items i with option_list := some s₁.blocks }
      { s₂.items i with option_list := some s₂.blocks } :=
    { h.items i with list := congrArg some h.blocks }
  have hoptions : ∀ o, OptionAlike (Function.update s₁.options s₁.blocks r₁ o)
      (Function.update s₂.options s₂.blocks r₂ o) := h.blocks ▸ update_alike h.options hr s₁.blocks
  { h with
    item_opt_act := congrArg some h.blocks, blocks := congrArg (· + 1) h.blocks
    items := update_alike h.items hi i, options := hoptions }

theorem Alike.addOption (act : ℕ) {r₁ r₂ : ItemOption} (hr : OptionAlike r₁ r₂) :
    Alike (s₁.addOption act r₁) (s₂.addOption act r₂) :=
  have hact : OptionAlike { s₁.options act with next := some s₁.blocks }
      { s₂.options act with next := some s₂.blocks } :=
    { h.options act with next := congrArg some h.blocks }
  have hoptions : ∀ o, OptionAlike ((s₁.addOption act r₁).options o)
      (Function.update (Function.update s₂.options act { s₂.options act with next := some s₂.blocks })
        s₂.blocks r₂ o) := h.blocks ▸ update_alike (update_alike h.options hact act) hr s₁.blocks
  { h with
    item_opt_act := congrArg some h.blocks, blocks := congrArg (· + 1) h.blocks
    options := hoptions }

end

/-! ### Allocations -/

/-- A new menu leaves the current item behind. -/
theorem Marked.allocMenu (hg₁ : Grants m₁) (hg₂ : Grants m₂) (h : Marked m₁ m₂ a s₁ s₂)
    (title : List UInt8) : ∃ s₁' s₂', allocMenu m₁ title s₁ = some s₁' ∧
      allocMenu m₂ title s₂ = some s₂' ∧ Marked m₁ m₂ a.leaveItem s₁' s₂' ∧
      ∃ m, s₁'.menu_act = some m := by
  obtain ⟨raw₁, h₁⟩ := hg₁ s₁.blocks
  obtain ⟨raw₂, h₂⟩ := hg₂ s₁.blocks
  have ha := h.alike
  -- both memories follow the same branch
  obtain ⟨s₁', s₂', hs₁, hs₂, halike, hitems₁, hitems₂, hoptions₁, hoptions₂, hact, hitem, hopt, hb,
      hlist⟩ : ∃ s₁' s₂', Config.allocMenu m₁ title s₁ = some s₁' ∧
        Config.allocMenu m₂ title s₂ = some s₂' ∧ Alike s₁' s₂' ∧ s₁'.items = s₁.items ∧
        s₂'.items = s₂.items ∧ s₁'.options = s₁.options ∧ s₂'.options = s₂.options ∧
        s₁'.menu_act = some s₁.blocks ∧ s₁'.menu_item_act = none ∧
        s₁'.item_opt_act = s₁.item_opt_act ∧ s₁'.blocks = s₁.blocks + 1 ∧
        (s₁'.menus s₁.blocks).item_list = none := by
    rw [Config.allocMenu, Config.allocMenu, ← ha.blocks, h₁, h₂, ← ha.menu_top, ← ha.menu_act]
    cases htop : s₁.menu_top with
    | none =>
      refine ⟨_, _, rfl, rfl, ha.firstMenu (newMenu_alike ..), rfl, rfl, rfl, rfl, rfl, rfl, rfl,
        rfl, ?_⟩
      rw [Status.firstMenu_menus_self]
      rfl
    | some top =>
      obtain ⟨act, hact⟩ := Option.ne_none_iff_exists'.mp (h.anchored.top (by rw [htop]; exact Option.some_ne_none top))
      rw [hact]
      refine ⟨_, _, rfl, rfl, ha.addMenu act (newMenu_alike ..), rfl, rfl, rfl, rfl, rfl, rfl, rfl,
        rfl, ?_⟩
      rw [Status.addMenu_menus_self]
      rfl
  have hmask : ∀ i, KeepsMask s₁ s₂ s₁' s₂' i := fun i => by
    constructor <;> simp only [hitems₁, hitems₂]
  have hvalue : ∀ o, KeepsValue s₁ s₂ s₁' s₂' o := fun o => by
    constructor <;> simp only [hoptions₁, hoptions₂]
  refine ⟨s₁', s₂', hs₁, hs₂, ⟨halike, ⟨?_, ?_, ?_⟩, hitem, ?_, ?_⟩, s₁.blocks, hact⟩
  · rw [hact]
    exact fun _ => Option.some_ne_none _
  · intro m hm
    rw [hact] at hm
    exact .inl (Option.some.inj hm ▸ hlist)
  · rw [hitem]
    exact fun i hi => absurd hi.symm (Option.some_ne_none i)
  · exact CurrentOption.keep h.option hopt (by omega) (fun o => by rw [hoptions₁]) hvalue
  · exact h.behind.leaveItem h.item (fun i _ => by rw [hitem]; exact (Option.some_ne_none i).symm) hopt (by omega)
      (fun i _ => hmask i) hvalue

/-- What an item whose link is set keeps. -/
theorem linked_item (f : ℕ → MenuItem) {act i b : ℕ} (p : Ptr) (r : MenuItem) (h : i ≠ b) :
    (Function.update (Function.update f act { f act with next := p }) b r i).conf_mask
        = (f i).conf_mask ∧
      (Function.update (Function.update f act { f act with next := p }) b r i).conf_dynamic
        = (f i).conf_dynamic := by
  rw [update_fresh _ _ h]
  split
  · next heq => exact heq ▸ ⟨rfl, rfl⟩
  · exact ⟨rfl, rfl⟩

/-- A new item leaves the current one behind; its mask is what the memories held. -/
theorem Marked.allocItem (hg₁ : Grants m₁) (hg₂ : Grants m₂) (h : Marked m₁ m₂ a s₁ s₂) {m : ℕ}
    (hm : s₁.menu_act = some m) : ∃ s₁' s₂', allocItem m₁ s₁ = some s₁' ∧
      allocItem m₂ s₂ = some s₂' ∧ Marked m₁ m₂ a.newItem s₁' s₂' := by
  obtain ⟨raw₁, h₁⟩ := hg₁ s₁.blocks
  obtain ⟨raw₂, h₂⟩ := hg₂ s₁.blocks
  have ha := h.alike
  have hb := ha.blocks
  obtain ⟨s₁', s₂', hs₁, hs₂, halike, hraw₁, hraw₂, hkeep₁, hkeep₂, hoptions₁, hoptions₂, htop, hact,
      hitem, hopt, hblocks⟩ : ∃ s₁' s₂', Config.allocItem m₁ s₁ = some s₁' ∧
        Config.allocItem m₂ s₂ = some s₂' ∧ Alike s₁' s₂' ∧
        (∃ last, s₁'.items s₁.blocks = newItem raw₁.item last) ∧
        (∃ last, s₂'.items s₁.blocks = newItem raw₂.item last) ∧
        (∀ i ≠ s₁.blocks, (s₁'.items i).conf_mask = (s₁.items i).conf_mask ∧
          (s₁'.items i).conf_dynamic = (s₁.items i).conf_dynamic) ∧
        (∀ i ≠ s₁.blocks, (s₂'.items i).conf_mask = (s₂.items i).conf_mask ∧
          (s₂'.items i).conf_dynamic = (s₂.items i).conf_dynamic) ∧
        s₁'.options = s₁.options ∧ s₂'.options = s₂.options ∧ s₁'.menu_top = s₁.menu_top ∧
        s₁'.menu_act = s₁.menu_act ∧ s₁'.menu_item_act = some s₁.blocks ∧
        s₁'.item_opt_act = s₁.item_opt_act ∧ s₁'.blocks = s₁.blocks + 1 := by
    rw [Config.allocItem, Config.allocItem, ← hb, h₁, h₂, ← ha.menu_act, ← ha.menu_item_act, hm]
    simp only [← (ha.menus m).list]
    cases hlist : (s₁.menus m).item_list with
    | none =>
      refine ⟨_, _, rfl, rfl, ha.firstItem m (newItem_alike ..), ⟨none, Status.firstItem_items_self ..⟩,
        ⟨none, by rw [hb, Status.firstItem_items_self]⟩, fun i hi => ?_, fun i hi => ?_, rfl, rfl, rfl,
        hm, rfl, rfl, rfl⟩
      · rw [Status.firstItem_items_of_ne _ _ _ hi]
        exact ⟨rfl, rfl⟩
      · rw [Status.firstItem_items_of_ne _ _ _ (hb ▸ hi)]
        exact ⟨rfl, rfl⟩
    | some top =>
      obtain ⟨act, hact⟩ := (h.anchored.list m hm).resolve_left (by rw [hlist]; exact Option.some_ne_none top)
      simp only [hact]
      exact ⟨_, _, rfl, rfl, ha.addItem act (newItem_alike ..), ⟨some act, Status.addItem_items_self ..⟩,
        ⟨some act, by rw [hb, Status.addItem_items_self]⟩,
        fun i hi => linked_item s₁.items _ _ hi, fun i hi => linked_item s₂.items _ _ (hb ▸ hi), rfl, rfl,
        rfl, hm, rfl, rfl, rfl⟩
  obtain ⟨last₁, hraw₁⟩ := hraw₁
  obtain ⟨last₂, hraw₂⟩ := hraw₂
  have hvalue : ∀ o, KeepsValue s₁ s₂ s₁' s₂' o := fun o => by
    constructor <;> simp only [hoptions₁, hoptions₂]
  refine ⟨s₁', s₂', hs₁, hs₂, ⟨halike, ⟨?_, ?_, ?_⟩, ?_, ?_, ?_⟩⟩
  · rw [htop, hact]
    exact h.anchored.top
  · exact fun _ _ => .inr ⟨_, hitem⟩
  · intro i hi
    rw [hitem] at hi
    rw [← Option.some.inj hi, hraw₁]
    exact .inl rfl
  · refine ⟨s₁.blocks, m, hitem, hact.trans hm, by omega, ?_, raw₁, raw₂, h₁, h₂, ?_, ?_⟩
    · rw [hraw₁, newItem_unnamed]
      exact ⟨fun hnamed => absurd hnamed Bool.false_ne_true, fun hne => absurd rfl hne⟩
    · rw [hraw₁]
      rfl
    · rw [hraw₂]
      rfl
  · exact CurrentOption.keep h.option hopt (by omega) (fun o => by rw [hoptions₁]) hvalue
  · refine h.behind.leaveItem h.item (fun i hi => ?_) hopt (by omega) (fun i hi => ?_) hvalue
    · rw [hitem]
      exact fun he => absurd (Option.some.inj he) (Nat.ne_of_gt hi)
    · rw [hitem] at hi
      have hne : i ≠ s₁.blocks := fun he => hi (by rw [he])
      exact ⟨(hkeep₁ i hne).1, (hkeep₂ i hne).1, (hkeep₁ i hne).2, (hkeep₂ i hne).2⟩

/-- What an option whose link is set keeps. -/
theorem linked_option (f : ℕ → ItemOption) {act o b : ℕ} (p : Ptr) (r : ItemOption) (h : o ≠ b) :
    (Function.update (Function.update f act { f act with next := p }) b r o).conf_value
      = (f o).conf_value := by
  rw [update_fresh _ _ h]
  split
  · next heq => exact heq ▸ rfl
  · rfl

/-- What an item whose list is set keeps. -/
theorem listed_item (f : ℕ → MenuItem) (i j : ℕ) (p : Ptr) :
    (Function.update f i { f i with option_list := p } j).conf_mask = (f j).conf_mask ∧
      (Function.update f i { f i with option_list := p } j).conf_dynamic = (f j).conf_dynamic ∧
      (Function.update f i { f i with option_list := p } j).item_name = (f j).item_name := by
  rw [Function.update_apply]
  split
  · next heq => exact heq ▸ ⟨rfl, rfl, rfl⟩
  · exact ⟨rfl, rfl, rfl⟩

/-- A new option leaves the current one behind; its value is what the memories held. -/
theorem Marked.allocOption (hg₁ : Grants m₁) (hg₂ : Grants m₂) (h : Marked m₁ m₂ a s₁ s₂) {i : ℕ}
    (hi : s₁.menu_item_act = some i) : ∃ s₁' s₂', allocOption m₁ s₁ = some s₁' ∧
      allocOption m₂ s₂ = some s₂' ∧ Marked m₁ m₂ a.newOption s₁' s₂' ∧
      s₁'.menu_item_act = some i ∧ s₁'.item_opt_act = some s₁.blocks := by
  obtain ⟨raw₁, h₁⟩ := hg₁ s₁.blocks
  obtain ⟨raw₂, h₂⟩ := hg₂ s₁.blocks
  have ha := h.alike
  have hb := ha.blocks
  obtain ⟨s₁', s₂', hs₁, hs₂, halike, hraw₁, hraw₂, hkeep₁, hkeep₂, hitems₁, hitems₂, htop, hact,
      hlist, hitem, hopt, hblocks⟩ : ∃ s₁' s₂', Config.allocOption m₁ s₁ = some s₁' ∧
        Config.allocOption m₂ s₂ = some s₂' ∧ Alike s₁' s₂' ∧
        (∃ last, s₁'.options s₁.blocks = newOption raw₁.option last) ∧
        (∃ last, s₂'.options s₁.blocks = newOption raw₂.option last) ∧
        (∀ o ≠ s₁.blocks, (s₁'.options o).conf_value = (s₁.options o).conf_value) ∧
        (∀ o ≠ s₁.blocks, (s₂'.options o).conf_value = (s₂.options o).conf_value) ∧
        (∀ j, (s₁'.items j).conf_mask = (s₁.items j).conf_mask ∧
          (s₁'.items j).conf_dynamic = (s₁.items j).conf_dynamic ∧
          (s₁'.items j).item_name = (s₁.items j).item_name) ∧
        (∀ j, (s₂'.items j).conf_mask = (s₂.items j).conf_mask ∧
          (s₂'.items j).conf_dynamic = (s₂.items j).conf_dynamic ∧
          (s₂'.items j).item_name = (s₂.items j).item_name) ∧
        s₁'.menu_top = s₁.menu_top ∧ s₁'.menu_act = s₁.menu_act ∧ s₁'.menus = s₁.menus ∧
        s₁'.menu_item_act = some i ∧ s₁'.item_opt_act = some s₁.blocks ∧
        s₁'.blocks = s₁.blocks + 1 := by
    rw [Config.allocOption, Config.allocOption, ← hb, h₁, h₂, ← ha.menu_item_act, ← ha.item_opt_act, hi]
    simp only [← (ha.items i).list]
    cases hlist : (s₁.items i).option_list with
    | none =>
      refine ⟨_, _, rfl, rfl, ha.firstOption i (newOption_alike ..),
        ⟨none, Status.firstOption_options_self ..⟩, ⟨none, by rw [hb, Status.firstOption_options_self]⟩,
        fun o ho => ?_, fun o ho => ?_, fun j => listed_item s₁.items i j _,
        fun j => listed_item s₂.items i j _, rfl, rfl, rfl, hi, rfl, rfl⟩
      · rw [Status.firstOption_options_of_ne _ _ _ ho]
      · rw [Status.firstOption_options_of_ne _ _ _ (hb ▸ ho)]
    | some top =>
      obtain ⟨act, hact⟩ := (h.anchored.options i hi).resolve_left (by rw [hlist]; exact Option.some_ne_none top)
      simp only [hact]
      exact ⟨_, _, rfl, rfl, ha.addOption act (newOption_alike ..),
        ⟨some act, Status.addOption_options_self ..⟩,
        ⟨some act, by rw [hb, Status.addOption_options_self]⟩,
        fun o ho => linked_option s₁.options _ _ ho, fun o ho => linked_option s₂.options _ _ (hb ▸ ho),
        fun j => ⟨rfl, rfl, rfl⟩, fun j => ⟨rfl, rfl, rfl⟩, rfl, rfl, rfl, hi, rfl, rfl⟩
  obtain ⟨last₁, hraw₁⟩ := hraw₁
  obtain ⟨last₂, hraw₂⟩ := hraw₂
  have hmask : ∀ j, KeepsMask s₁ s₂ s₁' s₂' j := fun j =>
    ⟨(hitems₁ j).1, (hitems₂ j).1, (hitems₁ j).2.1, (hitems₂ j).2.1⟩
  refine ⟨s₁', s₂', hs₁, hs₂, ⟨halike, ⟨?_, ?_, ?_⟩, ?_, ?_, ?_⟩, hitem, hopt⟩
  · rw [htop, hact]
    exact h.anchored.top
  · exact fun _ _ => .inr ⟨i, hitem⟩
  · exact fun _ _ => .inr ⟨_, hopt⟩
  · exact CurrentItem.keep h.item (hitem.trans hi.symm) hact (by omega) (fun j => (hitems₁ j).2.2) hmask
  · refine ⟨s₁.blocks, hopt, by omega, ?_, raw₁, raw₂, h₁, h₂, ?_, ?_⟩
    · rw [hraw₁, newOption_unnamed]
      exact ⟨fun hnamed => absurd hnamed Bool.false_ne_true, fun hne => absurd rfl hne⟩
    · rw [hraw₁]
      rfl
    · rw [hraw₂]
      rfl
  · refine h.behind.leaveOption h.option (fun o ho => ?_) (hitem.trans hi.symm) (by omega) hmask
      fun o ho => ?_
    · rw [hopt]
      exact fun he => absurd (Option.some.inj he) (Nat.ne_of_gt ho)
    · rw [hopt] at ho
      have hne : o ≠ s₁.blocks := fun he => ho (by rw [he])
      exact ⟨hkeep₁ o hne, hkeep₂ o hne⟩

end Config
