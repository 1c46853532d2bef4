import Mathlib.Data.List.Perm.Subperm
import ReplayFirmware.Config.UpdateBits
import ReplayFirmware.Lib.Masks

/-! The words that `_MENU_update_bits` makes of a menu.

    An item that is no action and has an option selected is a field of one of the two words. When the
    fields of a word are apart and hold their values, the order in which the menu is run through does
    not matter, nor how often it is. -/

namespace Config
open Masks

variable {s s' : Status} {t : Tree}

/-- `_MENU_update_bits`, with the words that it leaves in the status. -/
def menuUpdateBits (s : Status) : Option Status :=
  (updateBits s).map fun bits => { s with config_s := bits.1, config_d := bits.2 }

/-- The dynamic word, or the static one. -/
def word (bits : UInt32 × UInt32) (dynamic : Bool) : UInt32 := if dynamic then bits.2 else bits.1

def Status.word (s : Status) (dynamic : Bool) : UInt32 := Config.word (s.config_s, s.config_d) dynamic

/-! ### The run through the menu -/

theorem updateItems_eq {is : List ℕ} {p : Ptr} (h : Dll.Forward (fun i => (s.items i).next) p is) :
    ∀ {fuel : ℕ} (bits : UInt32 × UInt32), is.length ≤ fuel →
      updateItems s fuel p bits = some (is.foldl (fun bits i => updateItem s i bits) bits) := by
  induction h with
  | nil =>
    intro fuel bits _
    rw [updateItems]
    rfl
  | @cons i is _ ih =>
    intro fuel bits hfuel
    obtain ⟨fuel, rfl⟩ := Nat.exists_eq_add_of_lt (Nat.lt_of_lt_of_le (Nat.zero_lt_succ _) hfuel)
    rw [Nat.zero_add, updateItems, ih _ (by simpa using hfuel)]
    rfl

theorem updateMenus_eq : ∀ {t : Tree} {fuel : ℕ} {p : Ptr} (bits : UInt32 × UInt32),
    Dll.Forward (fun m => (s.menus m).next) p (t.map MenuNode.menu) →
    (∀ m ∈ t, Dll.Forward (fun i => (s.items i).next) (s.menus m.menu).item_list
      (m.items.map ItemNode.item) ∧ m.items.length ≤ s.blocks) →
    t.length ≤ fuel → updateMenus s fuel p bits =
      some ((t.items.map ItemNode.item).foldl (fun bits i => updateItem s i bits) bits)
  | [], _, _, bits, .nil, _, _ => by
    rw [updateMenus]
    rfl
  | m :: t, 0, _, _, _, _, hfuel => absurd hfuel (Nat.not_succ_le_zero _)
  | m :: t, fuel + 1, _, bits, .cons h, hitems, hfuel => by
    rw [List.forall_mem_cons] at hitems
    rw [updateMenus, updateItems_eq hitems.1.1 bits (by simpa using hitems.1.2), Option.bind_some,
      updateMenus_eq _ h hitems.2 (Nat.le_of_succ_le_succ hfuel),
      show Tree.items (m :: t) = m.items ++ Tree.items t from List.flatMap_cons, List.map_append,
      List.foldl_append]

/-- Blocks that are in use and apart are not more than there are. -/
theorem length_le_blocks {l : List ℕ} {n : ℕ} (hl : l.Nodup) (hn : ∀ a ∈ l, a < n) : l.length ≤ n := by
  have hsub := (List.subperm_of_subset hl fun a ha => List.mem_range.mpr (hn a ha)).length_le
  rwa [List.length_range] at hsub

/-- All items of the menu, in their order. -/
theorem updateBits_eq (h : Consistent s t) : updateBits s =
    some ((t.items.map ItemNode.item).foldl (fun bits i => updateItem s i bits)
      (s.config_s, s.config_d)) := by
  have hmenus : t.length ≤ s.blocks := by
    rw [← List.length_map MenuNode.menu]
    refine length_le_blocks h.menus.nodup fun m hm => ?_
    obtain ⟨n, hn, rfl⟩ := List.mem_map.mp hm
    exact h.menus_old n hn
  refine updateMenus_eq _ h.menus.forward (fun m hm => ⟨(h.items m hm).forward, ?_⟩) hmenus
  rw [← List.length_map ItemNode.item]
  refine length_le_blocks (h.items m hm).nodup fun i hi => ?_
  obtain ⟨n, hn, rfl⟩ := List.mem_map.mp hi
  exact h.items_old n (List.mem_flatMap.mpr ⟨m, hm, hn⟩)

/-! ### The fields of the words -/

/-- What an item puts into a word. -/
def Status.field (s : Status) (dynamic : Bool) (i : ℕ) : Option (Field 32) :=
  (s.items i).selected_option.bind fun o =>
    if (s.items i).action_name 0 = 0 ∧ decide ((s.items i).conf_dynamic ≠ 0) = dynamic then
      some ⟨(s.items i).conf_mask.toBitVec, (s.options o).conf_value.toBitVec⟩
    else none

theorem word_updateItem (s : Status) (i : ℕ) (bits : UInt32 × UInt32) (dynamic : Bool) :
    (word (updateItem s i bits) dynamic).toBitVec =
      putAll (s.field dynamic i).toList (word bits dynamic).toBitVec := by
  rw [updateItem, Status.field]
  cases (s.items i).selected_option with
  | none => rfl
  | some o =>
    by_cases hact : (s.items i).action_name 0 = 0
    · by_cases hdyn : (s.items i).conf_dynamic = 0 <;> cases dynamic <;>
        simp [hact, hdyn, word, putAll, Field.put]
    · simp [hact, putAll]

/-- Each word gets its fields, in the order of the items. -/
theorem word_updateItems (s : Status) (dynamic : Bool) : ∀ (is : List ℕ) (bits : UInt32 × UInt32),
    (word (is.foldl (fun bits i => updateItem s i bits) bits) dynamic).toBitVec =
      putAll (is.filterMap (s.field dynamic)) (word bits dynamic).toBitVec
  | [], _ => rfl
  | i :: is, bits => by
    rw [List.foldl_cons, word_updateItems s dynamic is, word_updateItem, List.filterMap_cons]
    cases s.field dynamic i <;> rfl

/-- An item that is no action, with its option selected. -/
theorem field_eq_some {dynamic : Bool} {i : ℕ} {f : Field 32} : s.field dynamic i = some f ↔
    (s.items i).action_name 0 = 0 ∧ decide ((s.items i).conf_dynamic ≠ 0) = dynamic ∧
      ∃ o, (s.items i).selected_option = some o ∧
        f = ⟨(s.items i).conf_mask.toBitVec, (s.options o).conf_value.toBitVec⟩ := by
  rw [Status.field, Option.bind_eq_some_iff]
  constructor
  · rintro ⟨o, ho, hf⟩
    split at hf
    · next hi => exact ⟨hi.1, hi.2, o, ho, (Option.some.inj hf).symm⟩
    · cases hf
  · rintro ⟨hact, hdyn, o, ho, rfl⟩
    exact ⟨o, ho, if_pos ⟨hact, hdyn⟩⟩

/-! ### Menus whose fields are apart -/

/-- Two items are in the same word. -/
def SameWord (a b : MenuItem) : Prop := a.conf_dynamic = 0 ↔ b.conf_dynamic = 0

instance (a b : MenuItem) : Decidable (SameWord a b) := inferInstanceAs (Decidable (_ ↔ _))

/-- Of the items that are no actions, those in the same word have masks that are apart, and the values
    of the options that are selected are inside the masks. -/
structure Apart (s : Status) (t : Tree) : Prop where
  masks : t.items.Pairwise fun i j =>
    (s.items i.item).action_name 0 = 0 → (s.items j.item).action_name 0 = 0 →
      SameWord (s.items i.item) (s.items j.item) →
        (s.items i.item).conf_mask &&& (s.items j.item).conf_mask = 0
  values : ∀ i ∈ t.items, (s.items i.item).action_name 0 = 0 →
    ∀ o, (s.items i.item).selected_option = some o →
      (s.items i.item).conf_mask &&& (s.options o).conf_value = (s.options o).conf_value

/-- The words `bits` hold what is selected, and keep what is outside of the masks. -/
structure Merged (s : Status) (t : Tree) (s' : Status) : Prop where
  selected : ∀ i ∈ t.items, (s.items i.item).action_name 0 = 0 →
    ∀ o, (s.items i.item).selected_option = some o →
      s'.word (decide ((s.items i.item).conf_dynamic ≠ 0)) &&& (s.items i.item).conf_mask =
        (s.options o).conf_value
  kept : ∀ (dynamic : Bool) (b : UInt32), (∀ i ∈ t.items, (s.items i.item).action_name 0 = 0 →
      decide ((s.items i.item).conf_dynamic ≠ 0) = dynamic →
        (s.items i.item).selected_option ≠ none → (s.items i.item).conf_mask &&& b = 0) →
    s'.word dynamic &&& b = s.word dynamic &&& b

/-- Two menus that differ in their actions alone. -/
structure OffActions (s r : Status) (t : Tree) : Prop where
  config_s : r.config_s = s.config_s
  config_d : r.config_d = s.config_d
  action : ∀ i ∈ t.items,
    ((r.items i.item).action_name 0 = 0 ↔ (s.items i.item).action_name 0 = 0)
  item : ∀ i ∈ t.items, (s.items i.item).action_name 0 = 0 →
    (r.items i.item).conf_mask = (s.items i.item).conf_mask ∧
      (r.items i.item).conf_dynamic = (s.items i.item).conf_dynamic ∧
      (r.items i.item).selected_option = (s.items i.item).selected_option
  option : ∀ i ∈ t.items, (s.items i.item).action_name 0 = 0 →
    ∀ o, (s.items i.item).selected_option = some o →
      (r.options o).conf_value = (s.options o).conf_value

variable {dynamic : Bool}

theorem Apart.inside (ha : Apart s t) :
    ∀ f ∈ (t.items.map ItemNode.item).filterMap (s.field dynamic), f.Inside := by
  intro f hf
  obtain ⟨_, hmem, hfield⟩ := List.mem_filterMap.mp hf
  obtain ⟨i, hi, rfl⟩ := List.mem_map.mp hmem
  obtain ⟨hact, -, o, ho, rfl⟩ := field_eq_some.mp hfield
  have hval := congrArg UInt32.toBitVec (ha.values i hi hact o ho)
  rwa [UInt32.toBitVec_and] at hval

theorem Apart.pairwise (ha : Apart s t) :
    ((t.items.map ItemNode.item).filterMap (s.field dynamic)).Pairwise
      fun f g => g.mask &&& f.mask = 0 := by
  rw [List.pairwise_filterMap, List.pairwise_map]
  refine ha.masks.imp fun {i j} hij f hf g hg => ?_
  obtain ⟨hacti, hdyni, _, _, rfl⟩ := field_eq_some.mp hf
  obtain ⟨hactj, hdynj, _, _, rfl⟩ := field_eq_some.mp hg
  have hsame : SameWord (s.items i.item) (s.items j.item) :=
    not_iff_not.mp (decide_eq_decide.mp (hdyni.trans hdynj.symm))
  have hmask := congrArg UInt32.toBitVec (hij hacti hactj hsame)
  rw [BitVec.and_comm]
  rwa [UInt32.toBitVec_and] at hmask

/-- The status that is left, and each of its words. -/
theorem menuUpdateBits_eq (h : Consistent s t) : ∃ s', menuUpdateBits s = some s' ∧
    (∃ bits : UInt32 × UInt32, s' = { s with config_s := bits.1, config_d := bits.2 }) ∧
    ∀ dynamic, (s'.word dynamic).toBitVec =
      putAll ((t.items.map ItemNode.item).filterMap (s.field dynamic)) (s.word dynamic).toBitVec := by
  refine ⟨_, by rw [menuUpdateBits, updateBits_eq h, Option.map_some], ⟨_, rfl⟩, fun dynamic => ?_⟩
  exact word_updateItems s dynamic _ _

theorem merged (ha : Apart s t) (hs' : ∀ dynamic, (s'.word dynamic).toBitVec =
    putAll ((t.items.map ItemNode.item).filterMap (s.field dynamic)) (s.word dynamic).toBitVec) :
    Merged s t s' where
  selected i hi hact o ho := by
    have hfield := field_eq_some.mpr ⟨hact, rfl, o, ho, rfl⟩
    have hmask := putAll_mask (x := (s.word (decide ((s.items i.item).conf_dynamic ≠ 0))).toBitVec)
      ha.inside ha.pairwise _
      (List.mem_filterMap.mpr ⟨i.item, List.mem_map_of_mem hi, hfield⟩)
    rw [← hs'] at hmask
    rw [← UInt32.toBitVec_inj, UInt32.toBitVec_and]
    exact hmask
  kept dynamic b hb := by
    rw [← UInt32.toBitVec_inj, UInt32.toBitVec_and, UInt32.toBitVec_and, hs']
    refine putAll_and fun f hf => ⟨ha.inside f hf, ?_⟩
    obtain ⟨_, hmem, hfield⟩ := List.mem_filterMap.mp hf
    obtain ⟨i, hi, rfl⟩ := List.mem_map.mp hmem
    obtain ⟨hact, hdyn, o, ho, rfl⟩ := field_eq_some.mp hfield
    have hmask := congrArg UInt32.toBitVec (hb i hi hact hdyn (ho ▸ Option.some_ne_none o))
    rwa [UInt32.toBitVec_and] at hmask

/-- The words do not depend on what actions hold. -/
theorem OffActions.updateItem {r : Status} (hr : OffActions s r t) {i : ItemNode} (hi : i ∈ t.items)
    (bits : UInt32 × UInt32) : updateItem r i.item bits = Config.updateItem s i.item bits := by
  have haction := hr.action i hi
  by_cases hact : (s.items i.item).action_name 0 = 0
  · obtain ⟨hmask, hdyn, hsel⟩ := hr.item i hi hact
    have hval := hr.option i hi hact
    rw [Config.updateItem, Config.updateItem, hmask, hdyn, hsel]
    cases hsome : (s.items i.item).selected_option with
    | none => rfl
    | some o =>
      dsimp only
      rw [if_neg (not_not.mpr hact), if_neg (not_not.mpr (haction.mpr hact)), hval o hsome]
  · have hskip : ∀ {q : Status}, (q.items i.item).action_name 0 ≠ 0 →
        Config.updateItem q i.item bits = bits := by
      intro q hq
      rw [Config.updateItem]
      cases (q.items i.item).selected_option with
      | none => rfl
      | some o => simp only [if_pos hq]
    rw [hskip hact, hskip fun h => hact (haction.mp h)]

/-- Each word holds the selected values in their masks, and what it held before outside of them. Actions
    contribute nothing, and a second run changes nothing. -/
theorem menuUpdateBits_merges (h : Consistent s t) (ha : Apart s t) :
    ∃ s', menuUpdateBits s = some s' ∧ Merged s t s' ∧ menuUpdateBits s' = some s' ∧
      ∀ r, Consistent r t → OffActions s r t → updateBits r = updateBits s := by
  obtain ⟨s', hs', ⟨bits, rfl⟩, hwords⟩ := menuUpdateBits_eq h
  refine ⟨_, hs', merged ha hwords, ?_, fun r hcons hr => ?_⟩
  · -- the same items, and words that they are in already
    have hlinks : SameLinks s { s with config_s := bits.1, config_d := bits.2 } :=
      ⟨rfl, rfl, fun _ => ⟨rfl, rfl, rfl⟩, fun _ => ⟨rfl, rfl, rfl⟩, fun _ => ⟨rfl, rfl⟩⟩
    obtain ⟨s₂, hs₂, ⟨bits₂, rfl⟩, hwords₂⟩ := menuUpdateBits_eq (h.congr hlinks h.selected)
    have hagain : ∀ dynamic, word bits₂ dynamic = word bits dynamic := by
      intro dynamic
      have hput := putAll_putAll (x := (s.word dynamic).toBitVec)
        (@Apart.inside s t dynamic ha) ha.pairwise
      rw [← hwords dynamic] at hput
      exact UInt32.toBitVec_inj.mp ((hwords₂ dynamic).trans hput)
    have hbits : bits₂ = bits := Prod.ext (hagain false) (hagain true)
    rw [hs₂, hbits]
  · rw [updateBits_eq h, updateBits_eq hcons, hr.config_s, hr.config_d]
    refine congrArg some (List.foldl_ext _ _ _ fun bits n hn => ?_)
    obtain ⟨i, hi, rfl⟩ := List.mem_map.mp hn
    exact hr.updateItem hi bits

/-- A menu of two items, in different words, and an action. -/
def bitsMenu : Status where
  menu_top := some 0
  menu_act := some 0
  menu_item_act := some 3
  item_opt_act := some 6
  last_rom_adr := 0
  config_s := 0xFFFFFFFF
  config_d := 0
  menus := fun _ => ⟨none, none, fun _ => 0, some 1⟩
  items := fun i => match i with
    | 1 => ⟨none, some 2, fun _ => 0x41, some 4, some 4, 0xF0, 0, fun _ => 0, 0⟩
    | 2 => ⟨some 1, some 3, fun _ => 0x42, some 5, some 5, 0xFF, 1, fun _ => 0, 0⟩
    | _ => ⟨some 2, none, fun _ => 0x43, some 6, some 6, 0xFF, 1, fun _ => 0x44, 0⟩
  options := fun o => match o with
    | 4 => ⟨none, none, fun _ => 0x61, 0x30⟩
    | 5 => ⟨none, none, fun _ => 0x62, 0x05⟩
    | _ => ⟨none, none, fun _ => 0x63, 0x0A⟩
  blocks := 7

def bitsTree : Tree := [⟨0, [⟨1, [4]⟩, ⟨2, [5]⟩, ⟨3, [6]⟩]⟩]

theorem bitsMenu_consistent : Consistent bitsMenu bitsTree where
  menus := ⟨rfl, ⟨rfl, rfl, trivial⟩, by decide⟩
  items := by
    rintro m (_ | ⟨_, ⟨⟩⟩)
    exact ⟨rfl, ⟨rfl, rfl, rfl, rfl, rfl, rfl, trivial⟩, by decide⟩
  options := by
    rintro i (_ | ⟨_, _ | ⟨_, _ | ⟨_, ⟨⟩⟩⟩⟩)
    · exact ⟨rfl, ⟨rfl, rfl, trivial⟩, by decide⟩
    · exact ⟨rfl, ⟨rfl, rfl, trivial⟩, by decide⟩
    · exact ⟨rfl, ⟨rfl, rfl, trivial⟩, by decide⟩
  selected := by
    rintro i (_ | ⟨_, _ | ⟨_, _ | ⟨_, ⟨⟩⟩⟩⟩) o ho
    · exact Option.some.inj ho ▸ List.mem_singleton_self 4
    · exact Option.some.inj ho ▸ List.mem_singleton_self 5
    · exact Option.some.inj ho ▸ List.mem_singleton_self 6
  items_nodup := by decide
  options_nodup := by decide
  menus_old := by decide
  items_old := by decide
  options_old := by decide

theorem bitsMenu_apart : Apart bitsMenu bitsTree where
  masks := by
    refine .cons ?_ (.cons ?_ (.cons (fun _ h => absurd h List.not_mem_nil) .nil))
    · rintro j (_ | ⟨_, _ | ⟨_, ⟨⟩⟩⟩) _ hact hword
      · exact absurd hword (by decide)
      · exact absurd hact (by decide)
    · rintro j (_ | ⟨_, ⟨⟩⟩) _ hact
      exact absurd hact (by decide)
  values := by
    rintro i (_ | ⟨_, _ | ⟨_, _ | ⟨_, ⟨⟩⟩⟩⟩) hact o ho
    · rw [← Option.some.inj ho]
      decide
    · rw [← Option.some.inj ho]
      decide
    · exact absurd hact (by decide)

theorem menuUpdateBits_merges_two : ∃ s', menuUpdateBits bitsMenu = some s' ∧
    Merged bitsMenu bitsTree s' ∧ menuUpdateBits s' = some s' ∧
      ∀ r, Consistent r bitsTree → OffActions bitsMenu r bitsTree →
        updateBits r = updateBits bitsMenu :=
  menuUpdateBits_merges bitsMenu_consistent bitsMenu_apart

end Config
