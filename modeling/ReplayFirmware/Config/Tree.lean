import ReplayFirmware.Lib.Dll
import ReplayFirmware.Config.Directives

/-! The menu as a tree: menus with their items, items with their options, each list doubly linked.

    The tree is a tree of blocks. What an allocation does to the records it does to the tree at one
    place, behind the last menu, the last item of the last menu, or the last option of that item. -/

namespace Config

/-! ### Trees -/

/-- An item and its options. -/
structure ItemNode where
  item : ℕ
  options : List ℕ
deriving DecidableEq, Repr

/-- A menu and its items. -/
structure MenuNode where
  menu : ℕ
  items : List ItemNode
deriving DecidableEq, Repr

abbrev Tree := List MenuNode

def Tree.items (t : Tree) : List ItemNode := t.flatMap MenuNode.items

def Tree.options (t : Tree) : List ℕ := t.items.flatMap ItemNode.options

/-- The three levels of lists are linked as the tree says, an item selects one of its own options,
    and no block is in the tree twice. -/
structure Consistent (s : Status) (t : Tree) : Prop where
  menus : Dll.Linked (fun m => (s.menus m).next) (fun m => (s.menus m).last) s.menu_top
    (t.map MenuNode.menu)
  items : ∀ m ∈ t, Dll.Linked (fun i => (s.items i).next) (fun i => (s.items i).last)
    (s.menus m.menu).item_list (m.items.map ItemNode.item)
  options : ∀ i ∈ t.items, Dll.Linked (fun o => (s.options o).next) (fun o => (s.options o).last)
    (s.items i.item).option_list i.options
  selected : ∀ i ∈ t.items, ∀ o, (s.items i.item).selected_option = some o → o ∈ i.options
  items_nodup : (t.items.map ItemNode.item).Nodup
  options_nodup : t.options.Nodup
  menus_old : ∀ m ∈ t, m.menu < s.blocks
  items_old : ∀ i ∈ t.items, i.item < s.blocks
  options_old : ∀ o ∈ t.options, o < s.blocks

theorem Tree.mem_options {t : Tree} {i : ItemNode} (hi : i ∈ t.items) {o : ℕ} (ho : o ∈ i.options) :
    o ∈ t.options := List.mem_flatMap.mpr ⟨i, hi, ho⟩

theorem Tree.items_snoc (t : Tree) (m : ℕ) (is : List ItemNode) :
    Tree.items (t ++ [⟨m, is⟩]) = Tree.items t ++ is := by
  simp [Tree.items]

theorem Tree.options_snoc (t : Tree) (m : ℕ) (is : List ItemNode) :
    Tree.options (t ++ [⟨m, is⟩]) = Tree.options t ++ is.flatMap ItemNode.options := by
  simp [Tree.options, Tree.items_snoc]

/-- The empty status has the empty tree. -/
theorem start_consistent (blocks : ℕ) (records : Status) : Consistent (start blocks records) [] where
  menus := ⟨rfl, trivial, List.nodup_nil⟩
  items _ h := absurd h List.not_mem_nil
  options _ h := absurd h List.not_mem_nil
  selected _ h := absurd h List.not_mem_nil
  items_nodup := List.nodup_nil
  options_nodup := List.nodup_nil
  menus_old _ h := absurd h List.not_mem_nil
  items_old _ h := absurd h List.not_mem_nil
  options_old _ h := absurd h List.not_mem_nil

/-! ### Changes that are not links -/

/-- Two statuses have the same links: they differ in names, values and masks alone. -/
structure SameLinks (s s' : Status) : Prop where
  top : s'.menu_top = s.menu_top
  blocks : s'.blocks = s.blocks
  menus : ∀ m, (s'.menus m).next = (s.menus m).next ∧ (s'.menus m).last = (s.menus m).last ∧
    (s'.menus m).item_list = (s.menus m).item_list
  items : ∀ i, (s'.items i).next = (s.items i).next ∧ (s'.items i).last = (s.items i).last ∧
    (s'.items i).option_list = (s.items i).option_list
  options : ∀ o, (s'.options o).next = (s.options o).next ∧ (s'.options o).last = (s.options o).last

theorem SameLinks.refl (s : Status) : SameLinks s s :=
  ⟨rfl, rfl, fun _ => ⟨rfl, rfl, rfl⟩, fun _ => ⟨rfl, rfl, rfl⟩, fun _ => ⟨rfl, rfl⟩⟩

theorem SameLinks.trans {s s' s'' : Status} (h : SameLinks s s') (h' : SameLinks s' s'') :
    SameLinks s s'' where
  top := h'.top.trans h.top
  blocks := h'.blocks.trans h.blocks
  menus m := ⟨(h'.menus m).1.trans (h.menus m).1, (h'.menus m).2.1.trans (h.menus m).2.1,
    (h'.menus m).2.2.trans (h.menus m).2.2⟩
  items i := ⟨(h'.items i).1.trans (h.items i).1, (h'.items i).2.1.trans (h.items i).2.1,
    (h'.items i).2.2.trans (h.items i).2.2⟩
  options o := ⟨(h'.options o).1.trans (h.options o).1, (h'.options o).2.trans (h.options o).2⟩

/-- An item that keeps its links. -/
theorem sameLinks_setItem {s : Status} {i : ℕ} {r : MenuItem} (hn : r.next = (s.items i).next)
    (hl : r.last = (s.items i).last) (ho : r.option_list = (s.items i).option_list) :
    SameLinks s (s.setItem i r) := by
  refine ⟨rfl, rfl, fun _ => ⟨rfl, rfl, rfl⟩, fun j => ?_, fun _ => ⟨rfl, rfl⟩⟩
  by_cases h : j = i
  · subst h
    rw [Status.setItem_items_self]
    exact ⟨hn, hl, ho⟩
  · rw [Status.setItem_items_of_ne s i r h]
    exact ⟨rfl, rfl, rfl⟩

/-- An option that keeps its links. -/
theorem sameLinks_setOption {s : Status} {o : ℕ} {r : ItemOption} (hn : r.next = (s.options o).next)
    (hl : r.last = (s.options o).last) : SameLinks s (s.setOption o r) := by
  refine ⟨rfl, rfl, fun _ => ⟨rfl, rfl, rfl⟩, fun _ => ⟨rfl, rfl, rfl⟩, fun j => ?_⟩
  by_cases h : j = o
  · subst h
    rw [Status.setOption_options_self]
    exact ⟨hn, hl⟩
  · rw [Status.setOption_options_of_ne s o r h]
    exact ⟨rfl, rfl⟩

/-- The tree stays when the links stay and every item still selects an option of its own. -/
theorem Consistent.congr {s s' : Status} {t : Tree} (h : Consistent s t) (hl : SameLinks s s')
    (hsel : ∀ i ∈ t.items, ∀ o, (s'.items i.item).selected_option = some o → o ∈ i.options) :
    Consistent s' t where
  menus := by
    rw [hl.top]
    exact h.menus.congr fun m _ => ⟨(hl.menus m).1, (hl.menus m).2.1⟩
  items m hm := by
    rw [(hl.menus m.menu).2.2]
    exact (h.items m hm).congr fun i _ => ⟨(hl.items i).1, (hl.items i).2.1⟩
  options i hi := by
    rw [(hl.items i.item).2.2]
    exact (h.options i hi).congr fun o _ => hl.options o
  selected := hsel
  items_nodup := h.items_nodup
  options_nodup := h.options_nodup
  menus_old := hl.blocks ▸ h.menus_old
  items_old := hl.blocks ▸ h.items_old
  options_old := hl.blocks ▸ h.options_old

end Config
