import ReplayFirmware.Config.UpdateBits

/-! Items with a mask and a shift, and the values of their options.

    `ITEM` stores the mask shifted; `OPTION` checks and stores the value as it is written. An item
    whose mask is written shifted gets its values right, an item with a shift only those that the shift
    does not change. -/

namespace Config

variable {malloc : Malloc} {s s' : Status}

/-! ### What is asked for -/

/-- Bits are within a mask. -/
def Within (v mask : UInt32) : Prop := mask &&& v = v

instance (v mask : UInt32) : Decidable (Within v mask) := inferInstanceAs (Decidable (_ = _))

/-- The option of an item is selected. -/
def Status.select (s : Status) (i o : ℕ) : Status :=
  s.setItem i { s.items i with selected_option := some o }

/-- The bits of the mask are cleared in the word of the item, and the value is put in. -/
def putBits (dynamic : UInt8) (mask v : UInt32) (bits : UInt32 × UInt32) : UInt32 × UInt32 :=
  if dynamic ≠ 0 then (bits.1, bits.2 &&& ~~~mask ||| v) else (bits.1 &&& ~~~mask ||| v, bits.2)

/-- The current option, when it is selected, puts this value into the word of the current item. -/
def Contributes (s : Status) (mask v : UInt32) : Prop :=
  ∃ i o, s.menu_item_act = some i ∧ s.item_opt_act = some o ∧
    ∀ bits, updateItem (s.select i o) i bits = putBits (s.items i).conf_dynamic mask v bits

/-- What an option line comes to is right for the mask and this value: it is taken with the value when
    the value is within the mask, and refused otherwise. -/
def Right (r : UInt8 × Status) (mask v : UInt32) : Prop :=
  (Within v mask → r.1 = 0 ∧ Contributes r.2 mask v) ∧ (¬Within v mask → r.1 ≠ 0)

/-- An option line without flags: a name and a value, and `DEFAULT` or nothing. -/
structure OptionLine where
  name : Value
  value : Value
  kind : Option Value
  checked : ∀ k ∈ kind, optionKind [name, value, k] = .default

def OptionLine.values (l : OptionLine) : List Value := l.name :: l.value :: l.kind.toList

/-- The current item has this mask, and no action. -/
structure Masked (s : Status) (i : ℕ) (mask : UInt32) : Prop where
  current : s.menu_item_act = some i
  mask_eq : (s.items i).conf_mask = mask
  action : (s.items i).action_name 0 = 0

/-- The item that an `ITEM` line is for has no action yet. -/
def Unused (s : Status) : Prop :=
  ∀ i, s.menu_item_act = some i → (s.items i).item_name 0 = 0 → (s.items i).action_name 0 = 0

/-! ### The lines -/

variable {i : ℕ} {mask : UInt32}

theorem Masked.setItem (h : Masked s i mask) {r : MenuItem} (hmask : r.conf_mask = mask)
    (haction : r.action_name 0 = 0) : Masked (s.setItem i r) i mask :=
  ⟨h.current, by rw [Status.setItem_items_self, hmask], by rw [Status.setItem_items_self, haction]⟩

theorem Masked.setOption (h : Masked s i mask) (o : ℕ) (r : ItemOption) :
    Masked (s.setOption o r) i mask := ⟨h.current, h.mask_eq, h.action⟩

theorem Masked.allocOption (h : Masked s i mask) (halloc : allocOption malloc s = some s') :
    Masked s' i mask := by
  rw [Config.allocOption, h.current] at halloc
  split at halloc
  · next i' _ hi' =>
    obtain rfl := Option.some.inj hi'
    split at halloc
    · cases halloc
      exact ⟨h.current, h.mask_eq, h.action⟩
    · cases halloc
    · cases halloc
      have hitem : ∀ r, (s.firstOption i r).items i =
          { s.items i with option_list := some s.blocks } := fun r => Function.update_self ..
      exact ⟨h.current, by rw [hitem]; exact h.mask_eq, by rw [hitem]; exact h.action⟩
  · cases halloc

theorem newItem_unused (raw : MenuItem) (last : Ptr) : (newItem raw last).action_name 0 = 0 :=
  Function.update_self 0 0 raw.action_name

/-- The item that an `ITEM` line is for has no action. -/
theorem taken_unused (hnew : Unused s) {act : ℕ} (hact : s.menu_item_act = some act)
    (htake : (if (s.items act).item_name 0 ≠ 0 then allocItem malloc s else some s) = some s') :
    ∀ i, s'.menu_item_act = some i → (s'.items i).action_name 0 = 0 := by
  intro i hi
  split at htake
  · rw [allocItem] at htake
    split at htake
    · split at htake
      · cases htake
        obtain rfl := Option.some.inj hi
        rw [Status.addItem_items_self]
        exact newItem_unused _ _
      · cases htake
      · cases htake
        obtain rfl := Option.some.inj hi
        rw [Status.firstItem_items_self]
        exact newItem_unused _ _
    · cases htake
  · next hname =>
    cases htake
    rw [hact] at hi
    obtain rfl := Option.some.inj hi
    exact hnew act hact (not_not.mp hname)

/-- What an `ITEM` line that is taken does. -/
theorem handleItem_taken {vs : List Value} (hlen : 2 ≤ vs.length ∧ vs.length ≤ 4)
    (h : handleItem malloc vs s = some (0, s')) : ∃ act s₁ i, s.menu_item_act = some act ∧
      (if (s.items act).item_name 0 ≠ 0 then allocItem malloc s else some s) = some s₁ ∧
      s₁.menu_item_act = some i ∧ ((s₁.items i).configure vs).2 = 0 ∧
      allocOption malloc (s₁.setItem i ((s₁.items i).configure vs).1) = some s' := by
  rw [handleItem, if_pos hlen] at h
  split at h
  · cases h
  · next act hact =>
    obtain ⟨s₁, htake, h⟩ := Option.bind_eq_some_iff.mp h
    split at h
    · cases h
    · next i hi =>
      dsimp only at h
      split at h
      · next hrefused =>
        have hzero : (1 : UInt8) = 0 := congrArg Prod.fst (Option.some.inj h)
        exact absurd hzero (by decide)
      · next hok =>
        obtain ⟨s₂, halloc, heq⟩ := Option.map_eq_some_iff.mp h
        cases heq
        exact ⟨act, s₁, i, hact, htake, hi, not_not.mp hok, halloc⟩

/-- An `ITEM` line that gives a mask leaves the item with it. -/
theorem handleItem_masked {vs : List Value} (hnew : Unused s)
    (hmask : ∀ it : MenuItem, it.action_name 0 = 0 → (it.configure vs).2 = 0 →
      (it.configure vs).1.conf_mask = mask ∧ (it.configure vs).1.action_name 0 = 0)
    (hlen : 2 ≤ vs.length ∧ vs.length ≤ 4) (h : handleItem malloc vs s = some (0, s')) :
    ∃ i, Masked s' i mask := by
  obtain ⟨act, s₁, i, hact, htake, hi, hok, halloc⟩ := handleItem_taken hlen h
  obtain ⟨hconf, haction⟩ := hmask _ (taken_unused hnew hact htake i hi) hok
  have hmasked : Masked (s₁.setItem i ((s₁.items i).configure vs).1) i mask :=
    ⟨hi, by rw [Status.setItem_items_self, hconf], by rw [Status.setItem_items_self, haction]⟩
  exact ⟨i, hmasked.allocOption halloc⟩

/-- A mask and a shift. -/
theorem configure_shifted {v0 v1 v2 v3 : Value} (it : MenuItem) (haction : it.action_name 0 = 0)
    (hok : (it.configure [v0, v1, v2, v3]).2 = 0) :
    (it.configure [v0, v1, v2, v3]).1.conf_mask = shiftLeft v1.intval v2.intval ∧
      (it.configure [v0, v1, v2, v3]).1.action_name 0 = 0 := by
  rw [MenuItem.configure] at hok ⊢
  dsimp only at hok ⊢
  split_ifs at hok ⊢
  · exact ⟨rfl, haction⟩
  · exact ⟨rfl, haction⟩
  · exact absurd (show (1 : UInt8) = 0 from hok) (by decide)

/-- A line with a mask and a shift has a kind. -/
theorem configure_kind {v0 v1 v2 v3 : Value} {it : MenuItem}
    (hok : (it.configure [v0, v1, v2, v3]).2 = 0) : isDynamic v3.strval ∨ isStatic v3.strval := by
  rw [MenuItem.configure] at hok
  dsimp only at hok
  split_ifs at hok with hdyn hstat
  · exact Or.inl hdyn
  · exact Or.inr hstat
  · exact absurd (show (1 : UInt8) = 0 from hok) (by decide)

/-- A mask that is written as it is. -/
theorem configure_absolute {v0 v1 v2 : Value} (hkind : isDynamic v2.strval ∨ isStatic v2.strval)
    (it : MenuItem) (haction : it.action_name 0 = 0) :
    (it.configure [v0, v1, v2]).1.conf_mask = v1.intval ∧
      (it.configure [v0, v1, v2]).1.action_name 0 = 0 := by
  rw [MenuItem.configure]
  dsimp only
  split_ifs with hdyn hstat
  · exact ⟨rfl, haction⟩
  · exact ⟨rfl, haction⟩
  · exact (hkind.elim hdyn hstat).elim

theorem OptionLine.optionKind (l : OptionLine) :
    Config.optionKind l.values = .plain ∨ Config.optionKind l.values = .default := by
  have hchecked := l.checked
  rw [values]
  cases hkind : l.kind with
  | none => exact Or.inl rfl
  | some k => exact Or.inr (hchecked k hkind)

/-- The end of an `OPTION` line that is checked. -/
theorem Masked.finishOption {kind : OptionKind} (h : Masked s i mask) (hkind : kind ≠ .flags)
    (v0 v1 : Value) {o : ℕ} (hcurrent : s.item_opt_act = some o)
    (hvalue : (s.options o).conf_value = v1.intval) :
    let r := finishOption kind v0 v1 i o s
    Masked r.2 i mask ∧ r.2.item_opt_act = some o ∧ (r.2.options o).conf_value = v1.intval ∧
      r.1 = if Within v1.intval mask then 0 else 1 := by
  obtain ⟨s₁, hs₁, h₁, hcurrent₁, hvalue₁⟩ : ∃ s₁, (if kind = .default then
      s.setItem i { s.items i with selected_option := some o } else s) = s₁ ∧ Masked s₁ i mask ∧
        s₁.item_opt_act = some o ∧ (s₁.options o).conf_value = v1.intval := by
    split
    · exact ⟨_, rfl, h.setItem h.mask_eq h.action, hcurrent, hvalue⟩
    · exact ⟨_, rfl, h, hcurrent, hvalue⟩
  dsimp only
  rw [Config.finishOption, hs₁]
  dsimp only
  rw [h₁.mask_eq]
  by_cases hin : Within v1.intval mask
  · rw [if_neg fun hout => hout.1 hin, if_pos hin]
    refine ⟨Masked.setOption ?_ o _, ?_, ?_, rfl⟩
    · split
      · exact h₁.setItem rfl h₁.action
      · exact h₁
    · split <;> exact hcurrent₁
    · rw [Status.setOption_options_self]
      split <;> exact hvalue₁
  · rw [if_pos ⟨hin, hkind⟩, if_neg hin]
    exact ⟨h₁, hcurrent₁, hvalue₁, rfl⟩

/-- An option line that is checked is taken, with its value, when the value is within the mask. -/
theorem handleOption_masked (l : OptionLine) {r : UInt8 × Status} (h : Masked s i mask)
    (hr : handleOption malloc l.values s = some r) :
    ∃ o, Masked r.2 i mask ∧ r.2.item_opt_act = some o ∧
      (r.2.options o).conf_value = l.value.intval ∧
      r.1 = if Within l.value.intval mask then 0 else 1 := by
  have hkind := l.optionKind
  have hlen : l.kind.toList.length ≤ 1 := by cases l.kind <;> simp
  rw [OptionLine.values, handleOption, if_pos hlen] at hr
  split at hr
  · cases hr
  · next act _ =>
    obtain ⟨s₁, htake, hr⟩ := Option.bind_eq_some_iff.mp hr
    have h₁ : Masked s₁ i mask := by
      split at htake
      · exact h.allocOption htake
      · exact Option.some.inj htake ▸ h
    split at hr
    · cases hr
    · next o ho =>
      dsimp only at hr
      have h₂ := h₁.setOption o { s₁.options o with conf_value := l.value.intval }
      rw [if_neg (by rcases hkind with hk | hk <;> rw [← OptionLine.values, hk] <;> decide),
        h₂.current] at hr
      obtain rfl := Option.some.inj hr
      refine ⟨o, h₂.finishOption ?_ l.name l.value ho ?_⟩
      · rcases hkind with hk | hk <;> rw [← OptionLine.values, hk] <;> decide
      · rw [Status.setOption_options_self]

/-- Any option lines that are taken leave the mask. -/
theorem run_masked : ∀ {ls : List OptionLine} {s s' : Status}, Masked s i mask →
    run malloc (ls.map fun l => .option l.values) s = some ([], s') → Masked s' i mask
  | [], _, _, h, hrun => by
    cases hrun
    exact h
  | l :: ls, s, s', h, hrun => by
    rw [List.map_cons, run, handle] at hrun
    cases hr : handleOption malloc l.values s with
    | none =>
      rw [hr] at hrun
      cases hrun
    | some r =>
      rw [hr] at hrun
      obtain ⟨o, h₁, -, -, -⟩ := handleOption_masked l h hr
      dsimp only at hrun
      split at hrun
      · exact run_masked h₁ hrun
      · cases hrun

/-! ### Mask and value -/

theorem putBits_injective {dynamic : UInt8} {v w : UInt32}
    (h : ∀ bits, putBits dynamic mask v bits = putBits dynamic mask w bits) : v = w := by
  have hzero := h (0, 0)
  rw [putBits, putBits] at hzero
  split at hzero
  · simpa using congrArg Prod.snd hzero
  · simpa using congrArg Prod.fst hzero

/-- The value that is stored is the value that is put in. -/
theorem Masked.contributes_iff {o : ℕ} {w : UInt32} (h : Masked s i mask)
    (hcurrent : s.item_opt_act = some o) :
    Contributes s mask w ↔ (s.options o).conf_value = w := by
  have hitem : ∀ bits, updateItem (s.select i o) i bits =
      putBits (s.items i).conf_dynamic mask (s.options o).conf_value bits := by
    intro bits
    have hself : (s.select i o).items i = { s.items i with selected_option := some o } :=
      s.setItem_items_self i _
    have hoptions : (s.select i o).options = s.options := rfl
    rw [updateItem, hself, hoptions]
    dsimp only
    rw [if_neg (not_not.mpr h.action), h.mask_eq]
    rfl
  constructor
  · rintro ⟨i', o', hi', ho', hbits⟩
    obtain rfl := Option.some.inj (h.current.symm.trans hi')
    obtain rfl := Option.some.inj (hcurrent.symm.trans ho')
    exact putBits_injective fun bits => (hitem bits).symm.trans (hbits bits)
  · rintro rfl
    exact ⟨i, o, h.current, hcurrent, hitem⟩

/-- An option line of an item with this mask is right for the value that it has, and for another one
    only when both are refused. -/
theorem Masked.right_iff {l : OptionLine} {r : UInt8 × Status} (h : Masked s i mask)
    (hr : handleOption malloc l.values s = some r) (w : UInt32) :
    Right r mask w ↔ w = l.value.intval ∨ ¬Within w mask ∧ ¬Within l.value.intval mask := by
  obtain ⟨o, hmasked, hcurrent, hvalue, hanswer⟩ := handleOption_masked l h hr
  have hcontributes := hmasked.contributes_iff (w := w) hcurrent
  rw [hvalue] at hcontributes
  by_cases hw : Within w mask
  · rw [Right, hcontributes]
    constructor
    · intro hright
      exact Or.inl (hright.1 hw).2.symm
    · rintro (rfl | hout)
      · exact ⟨fun _ => ⟨by rw [hanswer, if_pos hw], rfl⟩, fun hout => absurd hw hout⟩
      · exact absurd hw hout.1
  · have hone : (1 : UInt8) ≠ 0 := by decide
    rw [Right, hanswer]
    constructor
    · intro hright
      by_cases hv : Within l.value.intval mask
      · exact absurd (if_pos hv) (hright.2 hw)
      · exact Or.inr ⟨hw, hv⟩
    · rintro (rfl | hout)
      · exact ⟨fun hin => absurd hin hw, fun _ => by rw [if_neg hw]; exact hone⟩
      · exact ⟨fun hin => absurd hin hw, fun _ => by rw [if_neg hout.2]; exact hone⟩

/-- Behind an `ITEM` line with a mask and a shift, an option line is right for its shifted value exactly
    when the shift does not change the value, or neither fits the mask. Behind an `ITEM` line whose
    mask is written as it is, every option line is right for its value. -/
theorem shiftedOption_iff {v0 v1 v2 v3 : Value} {ls : List OptionLine} {l : OptionLine}
    {s₁ s₂ : Status} {r : UInt8 × Status} (hnew : Unused s)
    (hitem : handleItem malloc [v0, v1, v2, v3] s = some (0, s₁))
    (hoptions : run malloc (ls.map fun l => .option l.values) s₁ = some ([], s₂))
    (hr : handleOption malloc l.values s₂ = some r) :
    (Right r (shiftLeft v1.intval v2.intval) (shiftLeft l.value.intval v2.intval) ↔
      shiftLeft l.value.intval v2.intval = l.value.intval ∨
        ¬Within (shiftLeft l.value.intval v2.intval) (shiftLeft v1.intval v2.intval) ∧
          ¬Within l.value.intval (shiftLeft v1.intval v2.intval)) ∧
    ∀ {w1 : Value} {ls' : List OptionLine} {l' : OptionLine} {t₁ t₂ : Status} {r' : UInt8 × Status},
      w1.intval = shiftLeft v1.intval v2.intval →
      l'.value.intval = shiftLeft l.value.intval v2.intval →
      handleItem malloc [v0, w1, v3] s = some (0, t₁) →
      run malloc (ls'.map fun l => .option l.values) t₁ = some ([], t₂) →
      handleOption malloc l'.values t₂ = some r' →
      Right r' (shiftLeft v1.intval v2.intval) (shiftLeft l.value.intval v2.intval) := by
  have hlen : 2 ≤ [v0, v1, v2, v3].length ∧ [v0, v1, v2, v3].length ≤ 4 := by simp
  constructor
  · obtain ⟨i, h₁⟩ := handleItem_masked hnew configure_shifted hlen hitem
    exact (run_masked h₁ hoptions).right_iff hr _
  · intro w1 ls' l' t₁ t₂ r' hw hl hitem' hoptions' hr'
    obtain ⟨_, _, _, _, _, _, hok, _⟩ := handleItem_taken hlen hitem
    obtain ⟨i, h₁⟩ := handleItem_masked hnew
      (fun it haction _ => configure_absolute (configure_kind hok) it haction) (by simp) hitem'
    rw [← hw, ← hl]
    exact ((run_masked h₁ hoptions').right_iff hr' _).mpr (Or.inl rfl)

/-- The menu of the documented example, without items. -/
def filterMenu : Status :=
  ((handleTitle zeroed [value "Video Settings" 0] (start 0 powerUp)).map Prod.snd).getD powerUp

/-- `"Filter", 3, 12, dynamic` -/
def filterItem : List Value := [value "Filter" 0, value "3" 3, value "12" 12, value "dynamic" 0]

/-- `"H only", 1` -/
def filterOption : OptionLine := ⟨value "H only" 0, value "1" 1, none, nofun⟩

theorem filterMenu_unused : Unused filterMenu := by
  intro i hi _
  have hfirst : filterMenu.menu_item_act = some 1 := rfl
  rw [hfirst] at hi
  rw [← Option.some.inj hi]
  rfl

/-- The first option of the documented example is refused. -/
theorem filterOption_refused : ¬∀ (malloc : Malloc) (s s₁ s₂ : Status) (v0 v1 v2 v3 : Value)
    (ls : List OptionLine) (l : OptionLine) (r : UInt8 × Status), Unused s →
    handleItem malloc [v0, v1, v2, v3] s = some (0, s₁) →
    run malloc (ls.map fun l => .option l.values) s₁ = some ([], s₂) →
    handleOption malloc l.values s₂ = some r →
    Right r (shiftLeft v1.intval v2.intval) (shiftLeft l.value.intval v2.intval) := by
  intro h
  obtain ⟨s₁, r, hitem, hoption, hrefused⟩ : ∃ s₁ r,
      handleItem zeroed filterItem filterMenu = some (0, s₁) ∧
        handleOption zeroed filterOption.values s₁ = some r ∧ r.1 = 1 := ⟨_, _, rfl, rfl, rfl⟩
  have hright := h zeroed filterMenu s₁ s₁ _ _ _ _ [] filterOption r filterMenu_unused hitem rfl
    hoption
  have hfits : Within (shiftLeft 1 12) (shiftLeft 3 12) := by decide
  rw [(hright.1 hfits).1] at hrefused
  exact absurd hrefused (by decide)

/-- With no shift. -/
def plainItem : List Value := [value "Filter" 0, value "3" 3, value "0" 0, value "dynamic" 0]

theorem shiftedOption_iff_plain : ∃ s₁ r, handleItem zeroed plainItem filterMenu = some (0, s₁) ∧
    handleOption zeroed filterOption.values s₁ = some r ∧
    Right r (shiftLeft 3 0) (shiftLeft 1 0) := by
  obtain ⟨s₁, r, hitem, hoption⟩ : ∃ s₁ r,
      handleItem zeroed plainItem filterMenu = some (0, s₁) ∧
        handleOption zeroed filterOption.values s₁ = some r := ⟨_, _, rfl, rfl⟩
  have hrun : run zeroed (([] : List OptionLine).map fun l => .option l.values) s₁ = some ([], s₁) := rfl
  exact ⟨s₁, r, hitem, hoption,
    (shiftedOption_iff filterMenu_unused hitem hrun hoption).1.mpr (Or.inl rfl)⟩

end Config
