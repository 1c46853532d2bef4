import ReplayFirmware.Config.Memories
import Mathlib.Algebra.Order.Ring.Nat

/-! Lines under two memories. Each line meets its marks in both: the two statuses stay alike, and their
    masks and values are as the marks say. -/

namespace Config

variable {m₁ m₂ : Malloc} {s₁ s₂ : Status} {a : Marks}

/-! ### The current records -/

theorem Marked.setItem {i m : ℕ} {r₁ r₂ : MenuItem} (h : Marked m₁ m₂ a s₁ s₂)
    (hi : s₁.menu_item_act = some i) (hm : s₁.menu_act = some m) (hlt : i < s₁.blocks)
    (hr : ItemAlike r₁ r₂) (hlist : r₁.option_list = (s₁.items i).option_list) (it : ItemMarks)
    (hname : it.named = true ↔ r₁.item_name 0 ≠ 0)
    (hmask : MaskIs m₁ m₂ (s₁.setItem i r₁) (s₂.setItem i r₂) i it.mask) :
    Marked m₁ m₂ { a with item := some it } (s₁.setItem i r₁) (s₂.setItem i r₂) := by
  refine ⟨h.alike.setItem hr i, ⟨h.anchored.top, h.anchored.list, fun j hj => ?_⟩,
    ⟨i, m, hi, hm, hlt, by rw [Status.setItem_items_self, hname], hmask⟩,
    CurrentOption.keep h.option rfl (Nat.le_refl _) (fun _ => rfl) fun _ => ⟨rfl, rfl⟩,
    h.behind.keep rfl rfl rfl (fun j hj => ?_) fun _ _ => ⟨rfl, rfl⟩⟩
  · obtain rfl : i = j := Option.some.inj (hi.symm.trans hj)
    rw [Status.setItem_items_self, hlist]
    exact h.anchored.options i hi
  · have hne : j ≠ i := fun he => hj (he ▸ hi)
    constructor <;> rw [Status.setItem_items_of_ne _ _ _ hne]

theorem Marked.setOption {o : ℕ} (h : Marked m₁ m₂ a s₁ s₂) (r₁ r₂ : ItemOption)
    (ho : s₁.item_opt_act = some o) (hlt : o < s₁.blocks) (hr : OptionAlike r₁ r₂)
    (op : OptionMarks) (hname : op.named = true ↔ r₁.option_name 0 ≠ 0)
    (hvalue : ValueIs m₁ m₂ (s₁.setOption o r₁) (s₂.setOption o r₂) o op.valued) :
    Marked m₁ m₂ { a with option := some op } (s₁.setOption o r₁) (s₂.setOption o r₂) := by
  refine ⟨h.alike.setOption hr o, ⟨h.anchored.top, h.anchored.list, h.anchored.options⟩,
    CurrentItem.keep h.item rfl rfl (Nat.le_refl _) (fun _ => rfl) fun _ => ⟨rfl, rfl, rfl, rfl⟩,
    ⟨o, ho, hlt, by rw [Status.setOption_options_self, hname], hvalue⟩,
    h.behind.keep rfl rfl rfl (fun _ _ => ⟨rfl, rfl, rfl, rfl⟩) fun j hj => ?_⟩
  have hne : j ≠ o := fun he => hj (he ▸ ho)
  constructor <;> rw [Status.setOption_options_of_ne _ _ _ hne]

/-! ### What an `ITEM` stores -/

theorem configure_alike {r₁ r₂ : MenuItem} (h : ItemAlike r₁ r₂) (vs : List Value) :
    ItemAlike (r₁.configure vs).1 (r₂.configure vs).1 := by
  unfold MenuItem.configure
  split
  · exact { h with name := strncpy_str .., action := strncpy_str .. }
  · dsimp only
    split_ifs
    · exact { h with name := strncpy_str .. }
    · exact { h with name := strncpy_str .. }
    · exact { h with name := strncpy_str .., action := strncpy_str .. }
  · dsimp only
    split_ifs
    · exact { h with name := strncpy_str .. }
    · exact { h with name := strncpy_str .. }
    · exact { h with name := strncpy_str .. }
  · exact h

theorem configure_code (r : MenuItem) {vs : List Value} (h : 2 ≤ vs.length ∧ vs.length ≤ 4) :
    (r.configure vs).2 = if kindFits vs then 0 else 1 := by
  match vs, h with
  | [_, _], _ => rfl
  | [_, _, v2], _ =>
    rw [MenuItem.configure]
    dsimp only [kindFits]
    split_ifs <;> rfl
  | [_, _, _, v3], _ =>
    rw [MenuItem.configure]
    dsimp only [kindFits]
    by_cases hd : isDynamic v3.strval = true
    · simp [hd]
    · by_cases hs : isStatic v3.strval = true <;> simp [hd, hs]

theorem named_strncpy (a : Chars) (src : List UInt8) {n : ℕ} (hn : 0 < n) :
    named src = true ↔ strncpy a src n 0 ≠ 0 := by
  rw [strncpy, if_pos hn, named, decide_eq_true_iff]

theorem named_strcpy (a : Chars) (src : List UInt8) :
    named src = true ↔ strcpy a src 0 ≠ 0 := by
  cases src <;> simp [named, strcpy]

theorem configure_named (r : MenuItem) {vs : List Value} (h : 2 ≤ vs.length ∧ vs.length ≤ 4) :
    named ((vs.map Value.strval).headD []) = true ↔ (r.configure vs).1.item_name 0 ≠ 0 := by
  match vs, h with
  | [v0, _], _ => exact named_strncpy (n := maxItemString) r.item_name _ (by decide)
  | [v0, _, v2], _ =>
    rw [MenuItem.configure]
    dsimp only
    split_ifs <;> exact named_strncpy (n := maxItemString) r.item_name _ (by decide)
  | [v0, _, _, v3], _ =>
    rw [MenuItem.configure]
    dsimp only
    split_ifs <;> exact named_strncpy (n := maxItemString) r.item_name _ (by decide)

theorem configure_mask (r₁ r₂ : MenuItem) {vs : List Value} (h : 2 ≤ vs.length ∧ vs.length ≤ 4) :
    (r₁.configure vs).1.conf_dynamic = (r₂.configure vs).1.conf_dynamic ∧
      match maskOf vs with
      | some mask => (r₁.configure vs).1.conf_mask = mask ∧ (r₂.configure vs).1.conf_mask = mask
      | none => (r₁.configure vs).1.conf_mask = r₁.conf_mask ∧
          (r₂.configure vs).1.conf_mask = r₂.conf_mask := by
  match vs, h with
  | [_, _], _ => exact ⟨rfl, rfl, rfl⟩
  | [_, _, v2], _ =>
    rw [MenuItem.configure, MenuItem.configure]
    dsimp only [maskOf]
    split_ifs <;> exact ⟨rfl, rfl, rfl⟩
  | [_, _, _, v3], _ =>
    rw [MenuItem.configure, MenuItem.configure]
    dsimp only [maskOf]
    split_ifs <;> exact ⟨rfl, rfl, rfl⟩

/-! ### Lines -/

/-- Two results of a line that are as it is marked. A comparison with a mask that is not set is one with
    what the memories hold. -/
def Meets (m₁ m₂ : Malloc) (res₁ res₂ : Option (UInt8 × Status)) : Fate → Prop
  | .done a => ∃ s₁ s₂, res₁ = some (0, s₁) ∧ res₂ = some (0, s₂) ∧ Marked m₁ m₂ a s₁ s₂
  | .refused a => ∃ s₁ s₂, res₁ = some (1, s₁) ∧ res₂ = some (1, s₂) ∧ Marked m₁ m₂ a s₁ s₂
  | .null => res₁ = none ∧ res₂ = none
  | .unset => ∃ i r₁ r₂ s₁ s₂, ∃ value ≠ 0, m₁ i = some r₁ ∧ m₂ i = some r₂ ∧
      res₁ = some (if r₁.item.conf_mask &&& value ≠ value then 1 else 0, s₁) ∧
      res₂ = some (if r₂.item.conf_mask &&& value ≠ value then 1 else 0, s₂)

theorem newItem_leaveItem (a : Marks) : a.leaveItem.newItem = a.newItem := by
  simp [Marks.newItem, Marks.leaveItem]

theorem handleTitle_meets (hg₁ : Grants m₁) (hg₂ : Grants m₂) (h : Marked m₁ m₂ a s₁ s₂)
    (vs : List Value) : Meets m₁ m₂ (handleTitle m₁ vs s₁) (handleTitle m₂ vs s₂)
      (markTitle vs a) := by
  match vs with
  | [title] =>
    obtain ⟨t₁, t₂, hmenu₁, hmenu₂, ht, m, hm⟩ := h.allocMenu hg₁ hg₂ title.strval
    obtain ⟨u₁, u₂, hitem₁, hitem₂, hu⟩ := ht.allocItem hg₁ hg₂ hm
    rw [newItem_leaveItem] at hu
    rw [handleTitle, handleTitle, hmenu₁, hmenu₂, Option.bind_some, Option.bind_some, hitem₁, hitem₂]
    exact ⟨u₁, u₂, rfl, rfl, hu⟩
  | [] => exact ⟨s₁, s₂, rfl, rfl, h⟩
  | _ :: _ :: _ => exact ⟨s₁, s₂, rfl, rfl, h⟩

/-- The mask of an item that is configured. -/
theorem configure_maskIs {t₁ t₂ s₁ s₂ : Status} {j : ℕ} {mask : Option UInt32} (r₁ r₂ : MenuItem)
    {vs : List Value} (hlen : 2 ≤ vs.length ∧ vs.length ≤ 4)
    (h₁ : s₁.items j = (r₁.configure vs).1) (h₂ : s₂.items j = (r₂.configure vs).1)
    (h : MaskIs m₁ m₂ t₁ t₂ j mask) (ht₁ : t₁.items j = r₁) (ht₂ : t₂.items j = r₂) :
    MaskIs m₁ m₂ s₁ s₂ j ((maskOf vs).or mask) := by
  obtain ⟨hdynamic, hmask⟩ := configure_mask r₁ r₂ hlen
  cases hgiven : maskOf vs with
  | some given =>
    rw [hgiven] at hmask
    exact ⟨by rw [h₁, hmask.1], by rw [h₂, hmask.2], by rw [h₁, h₂, hdynamic]⟩
  | none =>
    rw [hgiven] at hmask
    cases mask with
    | some old =>
      obtain ⟨hold₁, hold₂, -⟩ := h
      exact ⟨by rw [h₁, hmask.1, ← ht₁, hold₁], by rw [h₂, hmask.2, ← ht₂, hold₂],
        by rw [h₁, h₂, hdynamic]⟩
    | none =>
      obtain ⟨raw₁, raw₂, hraw₁, hraw₂, hold₁, hold₂⟩ := h
      exact ⟨raw₁, raw₂, hraw₁, hraw₂, by rw [h₁, hmask.1, ← ht₁, hold₁],
        by rw [h₂, hmask.2, ← ht₂, hold₂]⟩

theorem handleItem_meets (hg₁ : Grants m₁) (hg₂ : Grants m₂) (h : Marked m₁ m₂ a s₁ s₂)
    (vs : List Value) : Meets m₁ m₂ (handleItem m₁ vs s₁) (handleItem m₂ vs s₂)
      (markItem vs a) := by
  rw [handleItem, handleItem, markItem]
  split
  · next hlen =>
    have hcur := h.item
    rw [← h.alike.menu_item_act]
    cases hit : a.item with
    | none =>
      rw [hit] at hcur
      rw [show s₁.menu_item_act = none from hcur]
      exact ⟨rfl, rfl⟩
    | some it =>
      rw [hit] at hcur
      obtain ⟨i, m, hi, hm, hlt, hnamed, hmask⟩ := hcur
      obtain ⟨t₁, t₂, j, htake₁, htake₂, ht, hj, hmj, hltj, hmaskj⟩ : ∃ t₁ t₂ j,
          (if (s₁.items i).item_name 0 ≠ 0 then allocItem m₁ s₁ else some s₁) = some t₁ ∧
          (if (s₂.items i).item_name 0 ≠ 0 then allocItem m₂ s₂ else some s₂) = some t₂ ∧
          Marked m₁ m₂ (a.takeItem it).1 t₁ t₂ ∧ t₁.menu_item_act = some j ∧
          (∃ m, t₁.menu_act = some m) ∧ j < t₁.blocks ∧ MaskIs m₁ m₂ t₁ t₂ j (a.takeItem it).2 := by
        rw [Marks.takeItem]
        by_cases hn : it.named = true
        · obtain ⟨t₁, t₂, halloc₁, halloc₂, ht⟩ := h.allocItem hg₁ hg₂ hm
          rw [if_pos (hnamed.mp hn), if_pos (h.alike.named.mp (hnamed.mp hn)), if_pos hn]
          obtain ⟨j, n, hj, hn, hlt, -, hmask⟩ := ht.item
          exact ⟨t₁, t₂, j, halloc₁, halloc₂, ht, hj, ⟨n, hn⟩, hlt, hmask⟩
        · have h₁ := fun hne => hn (hnamed.mpr hne)
          rw [if_neg h₁, if_neg fun hne => h₁ (h.alike.named.mpr hne), if_neg hn]
          exact ⟨s₁, s₂, i, rfl, rfl, h, hi, ⟨m, hm⟩, hlt, hmask⟩
      obtain ⟨n, hn⟩ := hmj
      simp only [hi, htake₁, htake₂, Option.bind_some, ← ht.alike.menu_item_act, hj,
        configure_code _ hlen]
      obtain ⟨-, -, hlist, -⟩ := (t₁.items j).configure_links vs
      have hmask' : MaskIs m₁ m₂ (t₁.setItem j ((t₁.items j).configure vs).1)
          (t₂.setItem j ((t₂.items j).configure vs).1) j ((maskOf vs).or (a.takeItem it).2) :=
        configure_maskIs _ _ hlen (by simp) (by simp) hmaskj rfl rfl
      have hset := ht.setItem hj hn hltj (configure_alike (ht.alike.items j) vs) hlist
        ⟨named ((vs.map Value.strval).headD []), (maskOf vs).or (a.takeItem it).2⟩
        (configure_named _ hlen) hmask'
      by_cases hfit : kindFits vs = true
      · obtain ⟨u₁, u₂, halloc₁, halloc₂, hu, -⟩ := hset.allocOption hg₁ hg₂ hj
        simp only [hfit, if_true, ne_eq, not_true, if_false, halloc₁, halloc₂]
        exact ⟨u₁, u₂, rfl, rfl, hu⟩
      · simp only [hfit]
        exact ⟨_, _, rfl, rfl, hset⟩
  · exact ⟨s₁, s₂, rfl, rfl, h⟩

/-- An item selects an option; nothing that is marked changes. -/
theorem Marked.select {i : ℕ} (h : Marked m₁ m₂ a s₁ s₂) (o : Ptr) :
    Marked m₁ m₂ a (s₁.setItem i { s₁.items i with selected_option := o })
      (s₂.setItem i { s₂.items i with selected_option := o }) := by
  have hkeep : ∀ (s : Status) (j : ℕ),
      ((s.setItem i { s.items i with selected_option := o }).items j).conf_mask
        = (s.items j).conf_mask ∧
      ((s.setItem i { s.items i with selected_option := o }).items j).conf_dynamic
        = (s.items j).conf_dynamic ∧
      ((s.setItem i { s.items i with selected_option := o }).items j).item_name
        = (s.items j).item_name ∧
      ((s.setItem i { s.items i with selected_option := o }).items j).option_list
        = (s.items j).option_list := by
    intro s j
    by_cases hj : j = i
    · rw [hj, Status.setItem_items_self]
      exact ⟨rfl, rfl, rfl, rfl⟩
    · rw [Status.setItem_items_of_ne _ _ _ hj]
      exact ⟨rfl, rfl, rfl, rfl⟩
  have hmask : ∀ j, KeepsMask s₁ s₂ (s₁.setItem i { s₁.items i with selected_option := o })
      (s₂.setItem i { s₂.items i with selected_option := o }) j := fun j =>
    ⟨(hkeep s₁ j).1, (hkeep s₂ j).1, (hkeep s₁ j).2.1, (hkeep s₂ j).2.1⟩
  have hr : ItemAlike { s₁.items i with selected_option := o }
      { s₂.items i with selected_option := o } := { h.alike.items i with selected := rfl }
  refine ⟨h.alike.setItem hr i, ⟨h.anchored.top, h.anchored.list, fun j hj => ?_⟩,
    CurrentItem.keep h.item rfl rfl (Nat.le_refl _) (fun j => (hkeep s₁ j).2.2.1) hmask,
    CurrentOption.keep h.option rfl (Nat.le_refl _) (fun _ => rfl) fun _ => ⟨rfl, rfl⟩,
    h.behind.keep rfl rfl rfl (fun j _ => hmask j) fun _ _ => ⟨rfl, rfl⟩⟩
  rw [(hkeep s₁ j).2.2.2]
  exact h.anchored.options j hj

theorem finishOption_code (kind : OptionKind) (v0 v1 : Value) (i o : ℕ) (s : Status) :
    (finishOption kind v0 v1 i o s).1
      = if (s.items i).conf_mask &&& v1.intval ≠ v1.intval ∧ kind ≠ .flags then 1 else 0 := by
  obtain ⟨s', hs', hmask⟩ : ∃ s', (if kind = .default then
      s.setItem i { s.items i with selected_option := some o } else s) = s' ∧
      (s'.items i).conf_mask = (s.items i).conf_mask := by
    split
    · exact ⟨_, rfl, by rw [Status.setItem_items_self]⟩
    · exact ⟨s, rfl, rfl⟩
  rw [finishOption, hs']
  dsimp only
  rw [hmask]
  split <;> rfl

/-- The end of an `OPTION` that comes to the same in both memories. -/
theorem Marked.finishOption {i o : ℕ} {kind : OptionKind} {v0 v1 : Value}
    (h : Marked m₁ m₂ a s₁ s₂) (ho : s₁.item_opt_act = some o) (hlt : o < s₁.blocks)
    (hvalue : ValueIs m₁ m₂ s₁ s₂ o true)
    (hcode : (Config.finishOption kind v0 v1 i o s₁).1 = (Config.finishOption kind v0 v1 i o s₂).1) :
    Marked m₁ m₂ (if (Config.finishOption kind v0 v1 i o s₁).1 = 0 then
        { a with option := some ⟨named v0.strval, true⟩ } else a)
      (Config.finishOption kind v0 v1 i o s₁).2 (Config.finishOption kind v0 v1 i o s₂).2 := by
  obtain ⟨t₁, t₂, ht₁, ht₂, ht, hact, hblocks, hoptions₁, hoptions₂⟩ : ∃ t₁ t₂, (if kind = .default then
      s₁.setItem i { s₁.items i with selected_option := some o } else s₁) = t₁ ∧
      (if kind = .default then
        s₂.setItem i { s₂.items i with selected_option := some o } else s₂) = t₂ ∧
      Marked m₁ m₂ a t₁ t₂ ∧ t₁.item_opt_act = s₁.item_opt_act ∧ t₁.blocks = s₁.blocks ∧
      t₁.options = s₁.options ∧ t₂.options = s₂.options := by
    split
    · exact ⟨_, _, rfl, rfl, h.select (some o), rfl, rfl, rfl, rfl⟩
    · exact ⟨_, _, rfl, rfl, h, rfl, rfl, rfl, rfl⟩
  rw [Config.finishOption, Config.finishOption, ht₁, ht₂] at hcode ⊢
  dsimp only at hcode ⊢
  by_cases c₁ : (t₁.items i).conf_mask &&& v1.intval ≠ v1.intval ∧ kind ≠ .flags
  · by_cases c₂ : (t₂.items i).conf_mask &&& v1.intval ≠ v1.intval ∧ kind ≠ .flags
    · rw [if_pos c₁, if_pos c₂]
      exact ht
    · rw [if_pos c₁, if_neg c₂] at hcode
      exact absurd hcode (show (1 : UInt8) ≠ 0 by decide)
  · by_cases c₂ : (t₂.items i).conf_mask &&& v1.intval ≠ v1.intval ∧ kind ≠ .flags
    · rw [if_neg c₁, if_pos c₂] at hcode
      exact absurd hcode (show (0 : UInt8) ≠ 1 by decide)
    · rw [if_neg c₁, if_neg c₂, if_pos rfl]
      obtain ⟨u₁, u₂, hu₁, hu₂, hu, hact', hblocks', hoptions₁', hoptions₂'⟩ : ∃ u₁ u₂,
          (if (t₁.items i).selected_option = none then
            t₁.setItem i { t₁.items i with selected_option := some o } else t₁) = u₁ ∧
          (if (t₂.items i).selected_option = none then
            t₂.setItem i { t₂.items i with selected_option := some o } else t₂) = u₂ ∧
          Marked m₁ m₂ a u₁ u₂ ∧ u₁.item_opt_act = t₁.item_opt_act ∧ u₁.blocks = t₁.blocks ∧
          u₁.options = t₁.options ∧ u₂.options = t₂.options := by
        rw [← (ht.alike.items i).selected]
        split
        · exact ⟨_, _, rfl, rfl, ht.select (some o), rfl, rfl, rfl, rfl⟩
        · exact ⟨_, _, rfl, rfl, ht, rfl, rfl, rfl, rfl⟩
      rw [hu₁, hu₂]
      refine hu.setOption _ _ (hact'.trans (hact.trans ho)) (by omega) ?_ ⟨named v0.strval, true⟩
        (named_strncpy (n := maxOptionString) (u₁.options o).option_name _ (by decide)) ?_
      · exact { hu.alike.options o with name := strncpy_str .. }
      · change ((u₁.setOption o _).options o).conf_value = ((u₂.setOption o _).options o).conf_value
        rw [Status.setOption_options_self, Status.setOption_options_self, hoptions₁', hoptions₂',
          hoptions₁, hoptions₂]
        exact hvalue

theorem some_eq_of_fst {p : UInt8 × Status} {v : UInt8} (h : p.1 = v) : some p = some (v, p.2) := by
  rw [← h]

/-- The comparison with the mask. -/
theorem finishOption_meets {i o : ℕ} {mask : Option UInt32} (kind : OptionKind) (v0 v1 : Value)
    (h : Marked m₁ m₂ a s₁ s₂) (ho : s₁.item_opt_act = some o) (hlt : o < s₁.blocks)
    (hvalue : ValueIs m₁ m₂ s₁ s₂ o true) (hmask : MaskIs m₁ m₂ s₁ s₂ i mask) :
    Meets m₁ m₂ (some (finishOption kind v0 v1 i o s₁)) (some (finishOption kind v0 v1 i o s₂))
      (markValue kind v0 v1 mask a) := by
  unfold markValue
  have hcode₁ := finishOption_code kind v0 v1 i o s₁
  have hcode₂ := finishOption_code kind v0 v1 i o s₂
  by_cases hfree : kind = .flags ∨ v1.intval = 0
  · -- nothing is compared
    have hno : ∀ mask : UInt32, ¬ (mask &&& v1.intval ≠ v1.intval ∧ kind ≠ .flags) := by
      rintro mask ⟨hne, hkind⟩
      have h0 := hfree.resolve_left hkind
      rw [h0] at hne
      exact hne (by simp)
    rw [if_neg (hno _)] at hcode₁ hcode₂
    have hend := h.finishOption ho hlt hvalue (hcode₁.trans hcode₂.symm)
    rw [if_pos hcode₁] at hend
    rw [if_pos hfree]
    exact ⟨_, _, some_eq_of_fst hcode₁, some_eq_of_fst hcode₂, hend⟩
  have hkind : kind ≠ .flags := fun hk => hfree (.inl hk)
  rw [if_neg hfree]
  simp only [hkind, ne_eq, not_false_eq_true, and_true] at hcode₁ hcode₂
  cases mask with
  | none =>
    obtain ⟨r₁, r₂, hr₁, hr₂, hm₁, hm₂⟩ := hmask
    rw [hm₁] at hcode₁
    rw [hm₂] at hcode₂
    exact ⟨i, r₁, r₂, _, _, v1.intval, fun h0 => hfree (.inr h0), hr₁, hr₂, some_eq_of_fst hcode₁,
      some_eq_of_fst hcode₂⟩
  | some mask =>
    rw [hmask.1] at hcode₁
    rw [hmask.2.1] at hcode₂
    have hend := h.finishOption ho hlt hvalue (hcode₁.trans hcode₂.symm)
    by_cases hfit : mask &&& v1.intval = v1.intval
    · rw [if_neg (not_not.mpr hfit)] at hcode₁ hcode₂
      rw [if_pos hcode₁] at hend
      simp only [hfit, ne_eq, not_true, if_false]
      exact ⟨_, _, some_eq_of_fst hcode₁, some_eq_of_fst hcode₂, hend⟩
    · rw [if_pos hfit] at hcode₁ hcode₂
      rw [hcode₁, if_neg (by decide)] at hend
      simp only [hfit, ne_eq, not_false_eq_true, if_true]
      exact ⟨_, _, some_eq_of_fst hcode₁, some_eq_of_fst hcode₂, hend⟩

theorem handleOption_meets (hg₁ : Grants m₁) (hg₂ : Grants m₂) (h : Marked m₁ m₂ a s₁ s₂)
    (hp : a.item = none → a.option = none) (vs : List Value) :
    Meets m₁ m₂ (handleOption m₁ vs s₁) (handleOption m₂ vs s₂) (markOption vs a) := by
  match vs with
  | [] => exact ⟨s₁, s₂, rfl, rfl, h⟩
  | [_] => exact ⟨s₁, s₂, rfl, rfl, h⟩
  | v0 :: v1 :: rest =>
    rw [handleOption, handleOption, markOption]
    split
    · have hcur := h.option
      rw [← h.alike.item_opt_act]
      cases hop : a.option with
      | none =>
        rw [hop] at hcur
        rw [show s₁.item_opt_act = none from hcur]
        cases a.item <;> exact ⟨rfl, rfl⟩
      | some op =>
        cases hit : a.item with
        | none => exact absurd (hp hit) (by rw [hop]; exact Option.some_ne_none op)
        | some it =>
          rw [hop] at hcur
          obtain ⟨o, ho, hlt, hnamed, hvalue⟩ := hcur
          have hitem := h.item
          rw [hit] at hitem
          obtain ⟨i, m, hi, hm, hlti, -, hmask⟩ := hitem
          obtain ⟨t₁, t₂, j, htake₁, htake₂, ht, hj, hltj, hunnamed, hij, hmaskt⟩ : ∃ t₁ t₂ j,
              (if (s₁.options o).option_name 0 ≠ 0 then allocOption m₁ s₁ else some s₁) = some t₁ ∧
              (if (s₂.options o).option_name 0 ≠ 0 then allocOption m₂ s₂ else some s₂) = some t₂ ∧
              Marked m₁ m₂ (if op.named then a.newOption else a) t₁ t₂ ∧
              t₁.item_opt_act = some j ∧ j < t₁.blocks ∧ (t₁.options j).option_name 0 = 0 ∧
              t₁.menu_item_act = some i ∧ MaskIs m₁ m₂ t₁ t₂ i it.mask := by
            by_cases hn : op.named = true
            · obtain ⟨t₁, t₂, halloc₁, halloc₂, ht, hij, -⟩ := h.allocOption hg₁ hg₂ hi
              rw [if_pos (hnamed.mp hn), if_pos (h.alike.optionNamed.mp (hnamed.mp hn)), if_pos hn]
              obtain ⟨j, hj, hltj, hunnamed, -⟩ := ht.option
              have hitem := ht.item
              rw [show a.newOption.item = some it from hit] at hitem
              obtain ⟨i', -, hi', -, -, -, hmask'⟩ := hitem
              obtain rfl : i' = i := Option.some.inj (hi'.symm.trans hij)
              exact ⟨t₁, t₂, j, halloc₁, halloc₂, ht, hj, hltj,
                not_not.mp (mt hunnamed.mpr Bool.false_ne_true), hij, hmask'⟩
            · have h₁ := fun hne => hn (hnamed.mpr hne)
              rw [if_neg h₁, if_neg fun hne => h₁ (h.alike.optionNamed.mpr hne), if_neg hn]
              exact ⟨s₁, s₂, o, rfl, rfl, h, ho, hlt, not_not.mp h₁, hi, hmask⟩
          simp only [ho, htake₁, htake₂, Option.bind_some, ← ht.alike.item_opt_act, hj]
          have hset := ht.setOption { t₁.options j with conf_value := v1.intval }
            { t₂.options j with conf_value := v1.intval } hj hltj
            { ht.alike.options j with } ⟨false, true⟩
            ⟨fun hnamed => absurd hnamed Bool.false_ne_true, fun hne => absurd hunnamed hne⟩ (by
              change ((t₁.setOption j _).options j).conf_value = ((t₂.setOption j _).options j).conf_value
              rw [Status.setOption_options_self, Status.setOption_options_self])
          by_cases hbad : optionKind (v0 :: v1 :: rest) = .bad
          · simp only [hbad, if_true]
            exact ⟨_, _, rfl, rfl, hset⟩
          obtain ⟨j', hj', -, -, hvaluej⟩ := hset.option
          obtain rfl : j' = j := Option.some.inj (hj'.symm.trans hj)
          simp only [hbad, if_false, Status.setOption_menu_item_act, ← ht.alike.menu_item_act, hij]
          exact finishOption_meets _ v0 v1 hset hj hltj hvaluej (hmaskt.keep ⟨rfl, rfl, rfl, rfl⟩)
    · exact ⟨s₁, s₂, rfl, rfl, h⟩

/-! ### ROMs -/

theorem hexDigit_ne_zero : ∀ n < 16, hexDigit n ≠ 0 := by decide

theorem digits_ne_zero {base : ℕ} (h0 : 0 < base) (h : base ≤ 16) : ∀ {fuel n : ℕ},
    ∀ c ∈ digits base fuel n, c ≠ 0
  | 0, _, _, hc => absurd hc List.not_mem_nil
  | fuel + 1, n, c, hc => by
    rw [digits] at hc
    split at hc
    · next hn =>
      rw [List.mem_singleton.mp hc]
      exact hexDigit_ne_zero n (Nat.lt_of_lt_of_le hn h)
    · rcases List.mem_append.mp hc with hc | hc
      · exact digits_ne_zero h0 h c hc
      · rw [List.mem_singleton.mp hc]
        exact hexDigit_ne_zero _ (Nat.lt_of_lt_of_le (Nat.mod_lt n h0) h)

theorem digits_length {base : ℕ} : ∀ {fuel k n : ℕ}, n < base ^ (k + 1) →
    (digits base fuel n).length ≤ k + 1
  | 0, _, _, _ => Nat.zero_le _
  | fuel + 1, k, n, hn => by
    rw [digits]
    split
    · exact Nat.succ_le_succ (Nat.zero_le _)
    · next hge =>
      obtain ⟨k, rfl⟩ : ∃ j, k = j + 1 := by
        rcases k with _ | k
        · exact absurd (by simpa using hn) hge
        · exact ⟨k, rfl⟩
      have hdiv : n / base < base ^ (k + 1) := Nat.div_lt_of_lt_mul (by rwa [← Nat.pow_succ'])
      have hle : (digits base fuel (n / base)).length ≤ k + 1 := digits_length hdiv
      simp only [List.length_append, List.length_singleton]
      omega

/-- The address comes first, in eight characters. -/
theorem hex8_length (n : UInt32) : (hex8 n).length = 8 := by
  have hle : (digits 16 8 n.toNat).length ≤ 7 + 1 := digits_length n.toNat_lt
  rw [hex8]
  simp only [List.length_append, List.length_replicate]
  omega

/-- A ROM has a name. -/
theorem romName_named (base size : UInt32) : named (romName base size) = true := by
  have hhex : ∀ c ∈ hex8 base, c ≠ 0 := by
    intro c hc
    rw [hex8] at hc
    rcases List.mem_append.mp hc with hc | hc
    · rw [List.eq_of_mem_replicate hc]
      decide
    · exact digits_ne_zero (by decide) (by decide) c hc
  have hfirst : ∀ l : List UInt8, named (hex8 base ++ l) = true := by
    intro l
    obtain ⟨c, cs, hcons⟩ := List.exists_cons_of_length_pos (l := hex8 base) (by rw [hex8_length]; decide)
    rw [named, hcons]
    exact decide_eq_true (hhex c (by rw [hcons]; exact List.mem_cons_self ..))
  rw [romName]
  split
  · have hnil := hfirst []
    rwa [List.append_nil] at hnil
  · rw [List.append_assoc]
    exact hfirst _

/-- The name of a ROM fits. -/
theorem romName_length (base size : UInt32) : (romName base size).length < maxItemString := by
  have hsize : (humanSize size).length ≤ 6 := by
    have hlt := size.toNat_lt
    have hdigits : ∀ {n : ℕ}, n < 2 ^ 10 → (digits 10 10 n).length ≤ 3 + 1 := fun hn =>
      digits_length (Nat.lt_trans hn (by decide))
    rw [humanSize]
    simp only [Nat.shiftRight_eq_div_pow]
    split
    · next h =>
      have hle := hdigits h
      simp only [List.length_append, show (chars "B").length = 1 from rfl]
      omega
    · split
      · next h =>
        have hle := hdigits (n := size.toNat / 2 ^ 10) (by omega)
        simp only [List.length_append, show (chars "kB").length = 2 from rfl]
        omega
      · split
        · next h =>
          have hle := hdigits (n := size.toNat / 2 ^ 20) (by omega)
          simp only [List.length_append, show (chars "MB").length = 2 from rfl]
          omega
        · have hle := hdigits (n := size.toNat / 2 ^ 30) (by omega)
          simp only [List.length_append, show (chars "GB").length = 2 from rfl]
          omega
  rw [romName]
  split
  · rw [hex8_length]
    decide
  · simp only [List.length_append, hex8_length, show (chars "/").length = 1 from rfl,
      maxItemString]
    omega

theorem Alike.inRoms (h : Alike s₁ s₂) : s₁.inRoms = s₂.inRoms := by
  rw [Status.inRoms, Status.inRoms, ← h.menu_act]
  cases s₁.menu_act with
  | none => rfl
  | some m =>
    refine decide_eq_decide.mpr (forall_congr' fun i => forall_congr' fun hi => ?_)
    rw [(h.menus m).title i (Nat.lt_trans (List.mem_range.mp hi) (by decide))]

theorem addRom_meets (hg₁ : Grants m₁) (hg₂ : Grants m₂) (h : Marked m₁ m₂ a s₁ s₂)
    (filename : List UInt8) (size base : UInt32) (format : UInt8) :
    ∃ s₁' s₂', addRom m₁ filename size base format s₁ = some s₁' ∧
      addRom m₂ filename size base format s₂ = some s₂' ∧
      Marked m₁ m₂ { a.newItem.newOption with
        item := some ⟨true, some size⟩, option := some ⟨named filename, false⟩ } s₁' s₂' := by
  -- the new item, in the current menu or in a menu of its own
  obtain ⟨t₁, t₂, hentry₁, hentry₂, ht⟩ : ∃ t₁ t₂,
      (if s₁.inRoms then some s₁ else allocMenu m₁ (chars "ROMs") s₁).bind (allocItem m₁)
        = some t₁ ∧
      (if s₂.inRoms then some s₂ else allocMenu m₂ (chars "ROMs") s₂).bind (allocItem m₂)
        = some t₂ ∧ Marked m₁ m₂ a.newItem t₁ t₂ := by
    rw [← h.alike.inRoms]
    by_cases hroms : s₁.inRoms = true
    · obtain ⟨m, hm⟩ : ∃ m, s₁.menu_act = some m := by
        refine Option.ne_none_iff_exists'.mp fun hnone => ?_
        rw [Status.inRoms, hnone] at hroms
        cases hroms
      rw [if_pos hroms, if_pos hroms]
      exact h.allocItem hg₁ hg₂ hm
    · obtain ⟨u₁, u₂, hmenu₁, hmenu₂, hu, m, hm⟩ := h.allocMenu hg₁ hg₂ (chars "ROMs")
      obtain ⟨t₁, t₂, hitem₁, hitem₂, ht⟩ := hu.allocItem hg₁ hg₂ hm
      rw [newItem_leaveItem] at ht
      rw [if_neg hroms, if_neg hroms, hmenu₁, hmenu₂]
      exact ⟨t₁, t₂, hitem₁, hitem₂, ht⟩
  obtain ⟨i, m, hi, hm, hlt, -, -⟩ := ht.item
  rw [addRom, addRom, hentry₁, hentry₂]
  simp only [Option.bind_some, ← ht.alike.menu_item_act, hi]
  set r₁ : MenuItem := { t₁.items i with
    item_name := strcpy (t₁.items i).item_name (romName base size), conf_dynamic := format
    conf_mask := size, action_value := base
    action_name := strcpy (t₁.items i).action_name (chars "rom") } with hr₁
  set r₂ : MenuItem := { t₂.items i with
    item_name := strcpy (t₂.items i).item_name (romName base size), conf_dynamic := format
    conf_mask := size, action_value := base
    action_name := strcpy (t₂.items i).action_name (chars "rom") } with hr₂
  have hr : ItemAlike r₁ r₂ := { ht.alike.items i with
    name := strcpy_str _ _ (romName_length base size), action := strcpy_str _ _ (by decide) }
  have hset := ht.setItem hi hm hlt hr rfl ⟨true, some size⟩
    ⟨fun _ => (named_strcpy _ _).mp (romName_named base size), fun _ => rfl⟩ (by
      refine ⟨?_, ?_, ?_⟩ <;> simp only [Status.setItem_items_self, hr₁, hr₂])
  obtain ⟨u₁, u₂, halloc₁, halloc₂, hu, -, -⟩ := hset.allocOption hg₁ hg₂ hi
  obtain ⟨o, ho, hlto, -, hvalue⟩ := hu.option
  simp only [halloc₁, halloc₂, Option.bind_some, ← hu.alike.item_opt_act, ho]
  set q₁ : ItemOption := { u₁.options o with
    option_name := strlcpy (u₁.options o).option_name filename maxOptionString } with hq₁
  set q₂ : ItemOption := { u₂.options o with
    option_name := strlcpy (u₂.options o).option_name filename maxOptionString } with hq₂
  have hq : OptionAlike q₁ q₂ := { hu.alike.options o with
    name := strcpy_str _ _ (by
      rw [List.length_take]
      exact Nat.lt_of_le_of_lt (Nat.min_le_left ..) (by decide)) }
  have hnamed : named filename = true ↔ q₁.option_name 0 ≠ 0 := by
    rw [hq₁]
    dsimp only
    rw [strlcpy, ← named_strcpy]
    cases filename <;> rfl
  have hw := hu.setOption q₁ q₂ ho hlto hq ⟨named filename, false⟩ hnamed (hvalue.keep (by
    constructor <;> rw [Status.setOption_options_self]))
  have hend := hw.select (i := i) ((u₁.setOption o q₁).items i).option_list
  refine ⟨_, _, rfl, ?_, hend⟩
  rw [(hw.alike.items i).list]

/-- Changes of the address and of the words. -/
theorem Marked.setWords (h : Marked m₁ m₂ a s₁ s₂) {adr₁ adr₂ static₁ static₂ dynamic₁ dynamic₂ : UInt32}
    (hadr : adr₁ = adr₂) (hstatic : static₁ = static₂) (hdynamic : dynamic₁ = dynamic₂) :
    Marked m₁ m₂ a
      { s₁ with last_rom_adr := adr₁, config_s := static₁, config_d := dynamic₁ }
      { s₂ with last_rom_adr := adr₂, config_s := static₂, config_d := dynamic₂ } :=
  ⟨{ h.alike with last_rom_adr := hadr, config_s := hstatic, config_d := hdynamic },
    ⟨h.anchored.top, h.anchored.list, h.anchored.options⟩,
    CurrentItem.keep h.item rfl rfl (Nat.le_refl _) (fun _ => rfl) fun _ => ⟨rfl, rfl, rfl, rfl⟩,
    CurrentOption.keep h.option rfl (Nat.le_refl _) (fun _ => rfl) fun _ => ⟨rfl, rfl⟩,
    h.behind.keep rfl rfl rfl (fun _ _ => ⟨rfl, rfl, rfl, rfl⟩) fun _ _ => ⟨rfl, rfl⟩⟩

theorem handleRom_meets (hg₁ : Grants m₁) (hg₂ : Grants m₂) (h : Marked m₁ m₂ a s₁ s₂) (spi : Bool)
    (vs : List Value) (upload : Upload) :
    Meets m₁ m₂ (handleRom m₁ spi vs upload s₁) (handleRom m₂ spi vs upload s₂)
      (markRom spi vs upload a) := by
  unfold handleRom markRom
  split
  · exact ⟨s₁, s₂, rfl, rfl, h⟩
  · match vs with
    | [] => exact ⟨s₁, s₂, rfl, rfl, h⟩
    | [_] => exact ⟨s₁, s₂, rfl, rfl, h⟩
    | v0 :: v1 :: rest =>
      dsimp only
      split
      · exact ⟨s₁, s₂, rfl, rfl, h⟩
      · rw [← h.alike.last_rom_adr]
        cases upload with
        | failed => exact ⟨_, _, rfl, rfl, h.setWords rfl h.alike.config_s h.alike.config_d⟩
        | done staticbits =>
          have hw : Marked m₁ m₂ a
              { s₁ with last_rom_adr := romBase s₁.last_rom_adr rest + v1.intval, config_s := staticbits }
              { s₂ with
                last_rom_adr := romBase s₁.last_rom_adr rest + v1.intval, config_s := staticbits } :=
            h.setWords rfl rfl h.alike.config_d
          obtain ⟨t₁, t₂, hadd₁, hadd₂, ht⟩ := addRom_meets hg₁ hg₂ hw v0.strval v1.intval
            (romBase s₁.last_rom_adr rest) (romFormat rest)
          simp only [hadd₁, hadd₂]
          exact ⟨t₁, t₂, rfl, rfl, ht⟩

/-- Each line. -/
theorem handle_meets (hg₁ : Grants m₁) (hg₂ : Grants m₂) (h : Marked m₁ m₂ a s₁ s₂)
    (hp : a.item = none → a.option = none) (d : Directive) :
    Meets m₁ m₂ (handle m₁ s₁ d) (handle m₂ s₂ d) (d.mark a) := by
  cases d with
  | title vs => exact handleTitle_meets hg₁ hg₂ h vs
  | item vs => exact handleItem_meets hg₁ hg₂ h vs
  | option vs => exact handleOption_meets hg₁ hg₂ h hp vs
  | rom spi vs upload => exact handleRom_meets hg₁ hg₂ h spi vs upload
  | other fails config_s config_d =>
    cases fails
    · exact ⟨_, _, rfl, rfl, h.setWords h.alike.last_rom_adr rfl rfl⟩
    · exact ⟨_, _, rfl, rfl, h.setWords h.alike.last_rom_adr rfl rfl⟩

/-- The current option has an item. -/
def Marks.HasItem (a : Marks) : Prop := a.item = none → a.option = none

def Fate.HasItem : Fate → Prop
  | .done a => a.HasItem
  | .refused a => a.HasItem
  | _ => True

theorem hasItem_of_some {a : Marks} {it : ItemMarks} (h : a.item = some it) : a.HasItem := by
  intro hnone
  rw [h] at hnone
  cases hnone

theorem mark_hasItem (h : a.HasItem) (d : Directive) : (d.mark a).HasItem := by
  cases d with
  | title vs =>
    rw [Directive.mark]
    unfold markTitle
    split
    · exact @hasItem_of_some a.newItem ⟨false, none⟩ rfl
    · exact h
  | item vs =>
    rw [Directive.mark, markItem]
    split
    · cases hit : a.item with
      | none => trivial
      | some it =>
        dsimp only
        split
        · exact hasItem_of_some rfl
        · exact hasItem_of_some rfl
    · exact h
  | option vs =>
    rw [Directive.mark]
    match vs with
    | [] => exact h
    | [_] => exact h
    | v0 :: v1 :: rest =>
      rw [markOption]
      split
      · cases hit : a.item with
        | none => trivial
        | some it =>
          cases hop : a.option with
          | none => trivial
          | some op =>
            have htaken : ∀ option, Marks.HasItem
                { (if op.named then a.newOption else a) with option := option } := by
              intro option
              split <;> exact hasItem_of_some hit
            dsimp only
            split
            · exact htaken _
            · unfold markValue
              dsimp only
              split
              · exact htaken _
              · split
                · trivial
                · split <;> exact htaken _
      · exact h
  | rom spi vs upload =>
    rw [Directive.mark]
    unfold markRom
    split
    · exact h
    · split
      · split
        · exact h
        · cases upload with
          | failed => exact h
          | done staticbits => exact hasItem_of_some rfl
      · exact h
  | other fails config_s config_d =>
    rw [Directive.mark]
    split <;> exact h

end Config
