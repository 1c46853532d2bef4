import ReplayFirmware.Config.Tree

/-! What the allocations do to the tree: a block is put behind the last menu, the last item of the
    last menu, or the last option of that item. -/

namespace Config

variable {malloc : Malloc} {raw : Raw} {s : Status} {t : Tree}

/-! ### Records that change -/

/-- A record put to a fresh place, behind a record whose link is set: what is read at each place. -/
theorem update_fresh {β : Type*} {f : ℕ → β} {a b c : ℕ} (x y : β) (hc : c ≠ b) :
    Function.update (Function.update f a x) b y c = if c = a then x else f c := by
  rw [Function.update_of_ne hc, Function.update_apply]

/-- The list of a menu that is not touched: neither its head nor the links of its items. -/
theorem Consistent.items_keep {s' : Status} (h : Consistent s t) {m : MenuNode} (hm : m ∈ t)
    (hlist : (s'.menus m.menu).item_list = (s.menus m.menu).item_list)
    (hlinks : ∀ i ∈ m.items, (s'.items i.item).next = (s.items i.item).next ∧
      (s'.items i.item).last = (s.items i.item).last) :
    Dll.Linked (fun i => (s'.items i).next) (fun i => (s'.items i).last) (s'.menus m.menu).item_list
      (m.items.map ItemNode.item) := by
  rw [hlist]
  refine (h.items m hm).congr fun i hi => ?_
  obtain ⟨n, hn, rfl⟩ := List.mem_map.mp hi
  exact hlinks n hn

/-! ### Menus -/

/-- A first menu. -/
theorem Consistent.firstMenu (h : Consistent s []) (r : Menu) (hlast : r.last = none)
    (hnext : r.next = none) (hlist : r.item_list = none) :
    Consistent (s.firstMenu r) [⟨s.blocks, []⟩] := by
  have hself : (s.firstMenu r).menus s.blocks = r := Function.update_self ..
  constructor
  · refine Dll.Linked.first ?_ ?_
    · rw [hself, hnext]
    · rw [hself, hlast]
  · intro m hm
    rw [List.mem_singleton.mp hm, hself, hlist]
    exact ⟨rfl, trivial, List.nodup_nil⟩
  · exact h.options
  · exact h.selected
  · exact h.items_nodup
  · exact h.options_nodup
  · intro m hm
    rw [List.mem_singleton.mp hm]
    exact Nat.lt_succ_self _
  · exact fun _ hi => absurd hi List.not_mem_nil
  · exact fun _ ho => absurd ho List.not_mem_nil

/-- A menu behind the last one. -/
theorem Consistent.addMenu {act : ℕ} {is : List ItemNode} (h : Consistent s (t ++ [⟨act, is⟩]))
    (r : Menu) (hlast : r.last = some act) (hnext : r.next = none) (hlist : r.item_list = none) :
    Consistent (s.addMenu act r) (t ++ [⟨act, is⟩] ++ [⟨s.blocks, []⟩]) := by
  have hold : ∀ m ∈ t ++ [⟨act, is⟩], m.menu ≠ s.blocks := fun m hm =>
    Nat.ne_of_lt (h.menus_old m hm)
  have hact : act ≠ s.blocks := hold ⟨act, is⟩ (List.mem_append_right _ (List.mem_singleton_self _))
  have hself : (s.addMenu act r).menus s.blocks = r := Function.update_self ..
  have hkeep : ∀ c, c ≠ s.blocks → (s.addMenu act r).menus c
      = if c = act then { s.menus act with next := some s.blocks } else s.menus c :=
    fun c hc => update_fresh _ _ hc
  have hlists : ∀ c, c ≠ s.blocks → ((s.addMenu act r).menus c).item_list = (s.menus c).item_list ∧
      ((s.addMenu act r).menus c).last = (s.menus c).last := by
    intro c hc
    rw [hkeep c hc]
    split
    · next hca => exact hca ▸ ⟨rfl, rfl⟩
    · exact ⟨rfl, rfl⟩
  have hitems : Tree.items (t ++ [⟨act, is⟩] ++ [⟨s.blocks, []⟩]) = Tree.items (t ++ [⟨act, is⟩]) := by
    rw [Tree.items_snoc, List.append_nil]
  have hoptions : Tree.options (t ++ [⟨act, is⟩] ++ [⟨s.blocks, []⟩])
      = Tree.options (t ++ [⟨act, is⟩]) := congrArg (List.flatMap ItemNode.options) hitems
  have hmenus := h.menus
  rw [List.map_append, List.map_singleton] at hmenus
  constructor
  · rw [List.map_append, List.map_append, List.map_singleton, List.map_singleton]
    refine hmenus.snoc ?_ ?_ ?_ ?_ ?_ ?_
    · intro hmem
      rw [← List.map_singleton, ← List.map_append] at hmem
      obtain ⟨m, hm, heq⟩ := List.mem_map.mp hmem
      exact hold m hm heq
    · rw [hkeep act hact, if_pos rfl]
    · exact (hlists act hact).2
    · rw [hself, hnext]
    · rw [hself, hlast]
    · intro b hb
      have hne : b ≠ act := fun he =>
        List.disjoint_of_nodup_append hmenus.nodup hb (List.mem_singleton.mpr he)
      obtain ⟨m, hm, rfl⟩ := List.mem_map.mp hb
      have hmb := hold m (List.mem_append_left _ hm)
      rw [hkeep m.menu hmb, if_neg hne]
      exact ⟨rfl, rfl⟩
  · intro m hm
    rcases List.mem_append.mp hm with hm | hm
    · exact h.items_keep hm (hlists m.menu (hold m hm)).1 fun _ _ => ⟨rfl, rfl⟩
    · rw [List.mem_singleton.mp hm, hself, hlist]
      exact ⟨rfl, trivial, List.nodup_nil⟩
  · rw [hitems]
    exact h.options
  · rw [hitems]
    exact h.selected
  · rw [hitems]
    exact h.items_nodup
  · rw [hoptions]
    exact h.options_nodup
  · intro m hm
    rcases List.mem_append.mp hm with hm | hm
    · exact Nat.lt_succ_of_lt (h.menus_old m hm)
    · rw [List.mem_singleton.mp hm]
      exact Nat.lt_succ_self _
  · rw [hitems]
    exact fun i hi => Nat.lt_succ_of_lt (h.items_old i hi)
  · rw [hoptions]
    exact fun o ho => Nat.lt_succ_of_lt (h.options_old o ho)

/-! ### The last menu -/

/-- The blocks of a tree are those of the menus in front, and those of the last menu. -/
theorem nodup_snoc {α : Type*} {l l₁ l₂ : List α} {b : α} (h : (l ++ l₁).Nodup) (hb : b ∉ l)
    (h₂ : l₂.Nodup) (hmem : ∀ a ∈ l₂, a ∈ l₁ ∨ a = b) : (l ++ l₂).Nodup := by
  refine List.nodup_append.mpr ⟨h.of_append_left, h₂, fun x hx y hy hxy => ?_⟩
  rcases hmem y hy with hy₁ | rfl
  · exact List.disjoint_of_nodup_append h hx (hxy ▸ hy₁)
  · exact hb (hxy ▸ hx)

/-- A step that leaves the menus in front of the last one alone, and brings one block. -/
theorem Consistent.lastMenu {s' : Status} {m : ℕ} {is is' : List ItemNode}
    (h : Consistent s (t ++ [⟨m, is⟩])) (htop : s'.menu_top = s.menu_top)
    (hblocks : s'.blocks = s.blocks + 1)
    (hmenus : ∀ c, (s'.menus c).next = (s.menus c).next ∧ (s'.menus c).last = (s.menus c).last ∧
      (c ≠ m → (s'.menus c).item_list = (s.menus c).item_list))
    (hitems : ∀ i ∈ t.items, s'.items i.item = s.items i.item)
    (hoptions : ∀ o ∈ t.options, s'.options o = s.options o)
    (hlist : Dll.Linked (fun i => (s'.items i).next) (fun i => (s'.items i).last)
      (s'.menus m).item_list (is'.map ItemNode.item))
    (heach : ∀ i ∈ is', Dll.Linked (fun o => (s'.options o).next) (fun o => (s'.options o).last)
      (s'.items i.item).option_list i.options ∧
        ∀ o, (s'.items i.item).selected_option = some o → o ∈ i.options)
    (hin : ∀ i ∈ is'.map ItemNode.item, i ∈ is.map ItemNode.item ∨ i = s.blocks)
    (hon : (is'.flatMap ItemNode.options).Nodup)
    (hoin : ∀ o ∈ is'.flatMap ItemNode.options, o ∈ is.flatMap ItemNode.options ∨ o = s.blocks) :
    Consistent s' (t ++ [⟨m, is'⟩]) := by
  have hinodup := h.items_nodup
  have hiold := h.items_old
  have honodup := h.options_nodup
  have hoold := h.options_old
  rw [Tree.items_snoc] at hinodup hiold
  rw [Tree.options_snoc] at honodup hoold
  rw [List.map_append] at hinodup
  constructor
  · have hlinked : Dll.Linked (fun m => (s'.menus m).next) (fun m => (s'.menus m).last) s.menu_top
        (List.map MenuNode.menu (t ++ [⟨m, is⟩])) :=
      h.menus.congr fun c _ => ⟨(hmenus c).1, (hmenus c).2.1⟩
    rw [htop]
    simpa using hlinked
  · intro n hn
    rcases List.mem_append.mp hn with hn | hn
    · have hne : n.menu ≠ m := by
        have hnodup := h.menus.nodup
        rw [List.map_append] at hnodup
        exact fun he => List.disjoint_of_nodup_append hnodup (List.mem_map_of_mem hn)
          (List.mem_singleton.mpr he)
      refine h.items_keep (List.mem_append_left _ hn) ((hmenus n.menu).2.2 hne) fun i hi => ?_
      rw [hitems i (List.mem_flatMap.mpr ⟨n, hn, hi⟩)]
      exact ⟨rfl, rfl⟩
    · rw [List.mem_singleton.mp hn]
      exact hlist
  · intro i hi
    rw [Tree.items_snoc] at hi
    rcases List.mem_append.mp hi with hi | hi
    · rw [hitems i hi]
      refine (h.options i (by rw [Tree.items_snoc]; exact List.mem_append_left _ hi)).congr ?_
      intro o ho
      rw [hoptions o (Tree.mem_options hi ho)]
      exact ⟨rfl, rfl⟩
    · exact (heach i hi).1
  · intro i hi
    rw [Tree.items_snoc] at hi
    rcases List.mem_append.mp hi with hi | hi
    · rw [hitems i hi]
      exact h.selected i (by rw [Tree.items_snoc]; exact List.mem_append_left _ hi)
    · exact (heach i hi).2
  · rw [Tree.items_snoc, List.map_append]
    refine nodup_snoc hinodup (fun hb => ?_) hlist.nodup hin
    obtain ⟨i, hi, heq⟩ := List.mem_map.mp hb
    exact absurd heq (Nat.ne_of_lt (hiold i (List.mem_append_left _ hi)))
  · rw [Tree.options_snoc]
    exact nodup_snoc honodup (fun hb => absurd rfl
      (Nat.ne_of_lt (hoold _ (List.mem_append_left _ hb)))) hon hoin
  · intro n hn
    rw [hblocks]
    refine Nat.lt_succ_of_lt ?_
    rcases List.mem_append.mp hn with hn | hn
    · exact h.menus_old n (List.mem_append_left _ hn)
    · rw [List.mem_singleton.mp hn]
      exact h.menus_old ⟨m, is⟩ (List.mem_append_right _ (List.mem_singleton_self _))
  · intro i hi
    rw [Tree.items_snoc] at hi
    rw [hblocks]
    rcases List.mem_append.mp hi with hi | hi
    · exact Nat.lt_succ_of_lt (hiold i (List.mem_append_left _ hi))
    · rcases hin i.item (List.mem_map_of_mem hi) with hin | heq
      · obtain ⟨j, hj, hji⟩ := List.mem_map.mp hin
        exact hji ▸ Nat.lt_succ_of_lt (hiold j (List.mem_append_right _ hj))
      · exact heq ▸ Nat.lt_succ_self _
  · intro o ho
    rw [Tree.options_snoc] at ho
    rw [hblocks]
    rcases List.mem_append.mp ho with ho | ho
    · exact Nat.lt_succ_of_lt (hoold o (List.mem_append_left _ ho))
    · rcases hoin o ho with ho | heq
      · exact Nat.lt_succ_of_lt (hoold o (List.mem_append_right _ ho))
      · exact heq ▸ Nat.lt_succ_self _

/-- The blocks of the tree were all handed out before. -/
theorem Consistent.fresh (h : Consistent s t) :
    (∀ i ∈ t.items, i.item ≠ s.blocks) ∧ s.blocks ∉ t.options :=
  ⟨fun i hi => Nat.ne_of_lt (h.items_old i hi), fun ho => absurd rfl (Nat.ne_of_lt (h.options_old _ ho))⟩

/-! ### Items -/

section
variable {m : ℕ} (r : MenuItem)

/-- The first item of the last menu. -/
theorem Consistent.firstItem (h : Consistent s (t ++ [⟨m, []⟩])) (hlast : r.last = none)
    (hnext : r.next = none) (hlist : r.option_list = none) (hsel : r.selected_option = none) :
    Consistent (s.firstItem m r) (t ++ [⟨m, [⟨s.blocks, []⟩]⟩]) := by
  have hself : (s.firstItem m r).items s.blocks = r := Function.update_self ..
  have hmenu : ∀ c, (s.firstItem m r).menus c
      = if c = m then { s.menus m with item_list := some s.blocks } else s.menus c :=
    fun c => Function.update_apply ..
  obtain ⟨hifresh, -⟩ := h.fresh
  rw [Tree.items_snoc, List.append_nil] at hifresh
  refine h.lastMenu rfl rfl (fun c => ?_) (fun i hi => ?_) (fun _ _ => rfl) ?_ ?_ ?_ ?_ ?_
  · rw [hmenu]
    split
    · next hcm => exact hcm ▸ ⟨rfl, rfl, fun hne => absurd rfl hne⟩
    · exact ⟨rfl, rfl, fun _ => rfl⟩
  · exact Function.update_of_ne (hifresh i hi) ..
  · rw [hmenu, if_pos rfl]
    exact Dll.Linked.first (by rw [hself, hnext]) (by rw [hself, hlast])
  · intro i hi
    rw [List.mem_singleton.mp hi, hself, hlist, hsel]
    exact ⟨⟨rfl, trivial, List.nodup_nil⟩, fun o ho => by cases ho⟩
  · exact fun i hi => Or.inr (List.mem_singleton.mp hi)
  · exact List.nodup_nil
  · exact fun o ho => absurd ho List.not_mem_nil

/-- An item behind the last item of the last menu. -/
theorem Consistent.addItem {is : List ItemNode} {act : ItemNode}
    (h : Consistent s (t ++ [⟨m, is ++ [act]⟩])) (hlast : r.last = some act.item)
    (hnext : r.next = none) (hlist : r.option_list = none) (hsel : r.selected_option = none) :
    Consistent (s.addItem act.item r) (t ++ [⟨m, is ++ [act] ++ [⟨s.blocks, []⟩]⟩]) := by
  obtain ⟨hifresh, -⟩ := h.fresh
  have hinodup := h.items_nodup
  rw [Tree.items_snoc] at hifresh hinodup
  rw [List.map_append] at hinodup
  have hact : act.item ≠ s.blocks := hifresh act (by simp)
  have hself : (s.addItem act.item r).items s.blocks = r := Function.update_self ..
  have hkeep : ∀ c, c ≠ s.blocks → (s.addItem act.item r).items c
      = if c = act.item then { s.items act.item with next := some s.blocks } else s.items c :=
    fun c hc => update_fresh _ _ hc
  have hmem : (⟨m, is ++ [act]⟩ : MenuNode) ∈ t ++ [⟨m, is ++ [act]⟩] :=
    List.mem_append_right _ (List.mem_singleton_self _)
  have hitems := h.items _ hmem
  rw [List.map_append, List.map_singleton] at hitems
  refine h.lastMenu rfl rfl (fun c => ⟨rfl, rfl, fun _ => rfl⟩) (fun i hi => ?_) (fun _ _ => rfl)
    ?_ ?_ ?_ ?_ ?_
  · rw [hkeep i.item (hifresh i (List.mem_append_left _ hi)), if_neg]
    exact fun he => List.disjoint_of_nodup_append hinodup (List.mem_map_of_mem hi)
      (he ▸ List.mem_map_of_mem (List.mem_append_right _ (List.mem_singleton_self _)))
  · rw [List.map_append, List.map_append, List.map_singleton, List.map_singleton]
    refine hitems.snoc ?_ ?_ ?_ ?_ ?_ ?_
    · intro hb
      rw [← List.map_singleton, ← List.map_append] at hb
      obtain ⟨i, hi, heq⟩ := List.mem_map.mp hb
      exact hifresh i (List.mem_append_right _ hi) heq
    · rw [hkeep _ hact, if_pos rfl]
    · rw [hkeep _ hact, if_pos rfl]
    · rw [hself, hnext]
    · rw [hself, hlast]
    · intro b hb
      have hne : b ≠ act.item := fun he =>
        List.disjoint_of_nodup_append hitems.nodup hb (List.mem_singleton.mpr he)
      obtain ⟨i, hi, rfl⟩ := List.mem_map.mp hb
      rw [hkeep i.item (hifresh i (by simp [hi])), if_neg hne]
      exact ⟨rfl, rfl⟩
  · intro i hi
    rcases List.mem_append.mp hi with hi | hi
    · have hit : i ∈ Tree.items (t ++ [⟨m, is ++ [act]⟩]) := by
        rw [Tree.items_snoc]
        exact List.mem_append_right _ hi
      rw [hkeep i.item (hifresh i (List.mem_append_right _ hi))]
      split
      · next heq => exact heq ▸ ⟨h.options i hit, h.selected i hit⟩
      · exact ⟨h.options i hit, h.selected i hit⟩
    · rw [List.mem_singleton.mp hi, hself, hlist, hsel]
      exact ⟨⟨rfl, trivial, List.nodup_nil⟩, fun o ho => by cases ho⟩
  · intro i hi
    rw [List.map_append] at hi
    exact (List.mem_append.mp hi).imp id List.mem_singleton.mp
  · have hon := h.options_nodup
    rw [Tree.options_snoc] at hon
    rw [List.flatMap_append]
    simpa using hon.of_append_right
  · intro o ho
    rw [List.flatMap_append] at ho
    exact Or.inl (by simpa using ho)

end

/-! ### Options -/

section
variable {m i : ℕ} {is : List ItemNode} (r : ItemOption)

/-- The last item is no other item of the tree. -/
theorem Consistent.last_ne {os : List ℕ} (h : Consistent s (t ++ [⟨m, is ++ [⟨i, os⟩]⟩])) :
    (∀ j ∈ t.items, j.item ≠ i) ∧ ∀ j ∈ is, j.item ≠ i := by
  have hnodup := h.items_nodup
  rw [Tree.items_snoc, ← List.append_assoc, List.map_append] at hnodup
  have hne : ∀ j ∈ t.items ++ is, j.item ≠ i := fun j hj he =>
    List.disjoint_of_nodup_append hnodup (List.mem_map_of_mem hj) (List.mem_singleton.mpr he)
  exact ⟨fun j hj => hne j (List.mem_append_left _ hj), fun j hj => hne j (List.mem_append_right _ hj)⟩

/-- The first option of the last item. -/
theorem Consistent.firstOption (h : Consistent s (t ++ [⟨m, is ++ [⟨i, []⟩]⟩]))
    (hlast : r.last = none) (hnext : r.next = none) :
    Consistent (s.firstOption i r) (t ++ [⟨m, is ++ [⟨i, [s.blocks]⟩]⟩]) := by
  obtain ⟨hfront, hbefore⟩ := h.last_ne
  obtain ⟨-, hofresh⟩ := h.fresh
  have hon := h.options_nodup
  rw [Tree.options_snoc] at hofresh hon
  have hself : (s.firstOption i r).options s.blocks = r := Function.update_self ..
  have hkeep : ∀ o, o ≠ s.blocks → (s.firstOption i r).options o = s.options o :=
    fun o ho => Function.update_of_ne ho ..
  have hitem : ∀ c, (s.firstOption i r).items c
      = if c = i then { s.items i with option_list := some s.blocks } else s.items c :=
    fun c => Function.update_apply ..
  have hmem : ∀ j ∈ is ++ [⟨i, []⟩], j ∈ Tree.items (t ++ [⟨m, is ++ [⟨i, []⟩]⟩]) := fun j hj => by
    rw [Tree.items_snoc]
    exact List.mem_append_right _ hj
  refine h.lastMenu rfl rfl (fun c => ⟨rfl, rfl, fun _ => rfl⟩) (fun j hj => ?_) (fun o ho => ?_)
    ?_ ?_ ?_ ?_ ?_
  · rw [hitem, if_neg (hfront j hj)]
  · exact hkeep o fun he => hofresh (he ▸ List.mem_append_left _ ho)
  · have hitems := h.items _ (List.mem_append_right _ (List.mem_singleton_self _))
    rw [List.map_append, List.map_singleton] at hitems ⊢
    refine hitems.congr fun c _ => ?_
    rw [hitem]
    split
    · next heq => exact heq ▸ ⟨rfl, rfl⟩
    · exact ⟨rfl, rfl⟩
  · intro j hj
    rcases List.mem_append.mp hj with hj | hj
    · have hjt := hmem j (List.mem_append_left _ hj)
      rw [hitem, if_neg (hbefore j hj)]
      refine ⟨(h.options j hjt).congr fun o ho => ?_, h.selected j hjt⟩
      rw [hkeep o fun he => hofresh (he ▸ List.mem_append_right _
        (List.mem_flatMap.mpr ⟨j, List.mem_append_left _ hj, ho⟩))]
      exact ⟨rfl, rfl⟩
    · rw [List.mem_singleton.mp hj, hitem, if_pos rfl]
      refine ⟨Dll.Linked.first (by rw [hself, hnext]) (by rw [hself, hlast]), fun o ho => ?_⟩
      exact absurd (h.selected _ (hmem ⟨i, []⟩ (by simp)) o ho) List.not_mem_nil
  · intro j hj
    exact Or.inl (by simpa using hj)
  · have hold := hon.of_append_right
    rw [List.flatMap_append, List.flatMap_singleton, List.append_nil] at hold
    rw [List.flatMap_append, List.flatMap_singleton]
    refine List.nodup_append.mpr ⟨hold, List.nodup_singleton _, fun a ha c hc hac => ?_⟩
    rw [List.mem_singleton.mp hc] at hac
    exact hofresh (hac ▸ List.mem_append_right _ (by simpa using ha))
  · intro o ho
    rw [List.flatMap_append, List.flatMap_singleton] at ho
    rw [List.flatMap_append, List.flatMap_singleton, List.append_nil]
    exact (List.mem_append.mp ho).imp id List.mem_singleton.mp

/-- An option behind the last option of the last item. -/
theorem Consistent.addOption {os : List ℕ} {act : ℕ}
    (h : Consistent s (t ++ [⟨m, is ++ [⟨i, os ++ [act]⟩]⟩])) (hlast : r.last = some act)
    (hnext : r.next = none) :
    Consistent (s.addOption act r) (t ++ [⟨m, is ++ [⟨i, os ++ [act] ++ [s.blocks]⟩]⟩]) := by
  obtain ⟨-, hofresh⟩ := h.fresh
  have hon := h.options_nodup
  rw [Tree.options_snoc] at hofresh hon
  have hflat : ∀ os', List.flatMap ItemNode.options (is ++ [⟨i, os'⟩])
      = is.flatMap ItemNode.options ++ os' := fun os' => by
    rw [List.flatMap_append, List.flatMap_singleton]
  rw [hflat] at hofresh hon
  have hself : (s.addOption act r).options s.blocks = r := Function.update_self ..
  have hkeep : ∀ o, o ≠ s.blocks → (s.addOption act r).options o
      = if o = act then { s.options act with next := some s.blocks } else s.options o :=
    fun o ho => update_fresh _ _ ho
  have hact : act ≠ s.blocks := fun he => hofresh (he ▸ by simp)
  have hother : ∀ o ∈ t.options ++ is.flatMap ItemNode.options,
      (s.addOption act r).options o = s.options o := fun o ho => by
    rw [← List.append_assoc] at hon hofresh
    rw [hkeep o fun he => hofresh (he ▸ List.mem_append_left _ ho), if_neg]
    exact fun he => List.disjoint_of_nodup_append hon ho (he ▸ by simp)
  have hmem : ∀ j ∈ is ++ [⟨i, os ++ [act]⟩],
      j ∈ Tree.items (t ++ [⟨m, is ++ [⟨i, os ++ [act]⟩]⟩]) := fun j hj => by
    rw [Tree.items_snoc]
    exact List.mem_append_right _ hj
  refine h.lastMenu rfl rfl (fun c => ⟨rfl, rfl, fun _ => rfl⟩) (fun _ _ => rfl) (fun o ho => ?_)
    ?_ ?_ ?_ ?_ ?_
  · exact hother o (List.mem_append_left _ ho)
  · have hitems := h.items _ (List.mem_append_right _ (List.mem_singleton_self _))
    rw [List.map_append, List.map_singleton] at hitems ⊢
    exact hitems
  · intro j hj
    rcases List.mem_append.mp hj with hj | hj
    · have hjt := hmem j (List.mem_append_left _ hj)
      refine ⟨(h.options j hjt).congr fun o ho => ?_, h.selected j hjt⟩
      rw [hother o (List.mem_append_right _ (List.mem_flatMap.mpr ⟨j, hj, ho⟩))]
      exact ⟨rfl, rfl⟩
    · have hit := hmem ⟨i, os ++ [act]⟩ (by simp)
      rw [List.mem_singleton.mp hj]
      refine ⟨(h.options _ hit).snoc ?_ ?_ ?_ ?_ ?_ ?_, fun o ho => ?_⟩
      · exact fun hb => hofresh (by simp only [List.mem_append] at hb ⊢; tauto)
      · rw [hkeep act hact, if_pos rfl]
      · rw [hkeep act hact, if_pos rfl]
      · rw [hself, hnext]
      · rw [hself, hlast]
      · intro o ho
        have hne : o ≠ act := fun he =>
          List.disjoint_of_nodup_append (h.options _ hit).nodup ho (List.mem_singleton.mpr he)
        rw [hkeep o fun he => hofresh (he ▸ by simp [ho]), if_neg hne]
        exact ⟨rfl, rfl⟩
      · exact List.mem_append_left _ (h.selected _ hit o ho)
  · intro j hj
    exact Or.inl (by simpa using hj)
  · have hold := hon.of_append_right
    rw [hflat, ← List.append_assoc]
    refine List.nodup_append.mpr ⟨hold, List.nodup_singleton _, fun a ha c hc hac => ?_⟩
    rw [List.mem_singleton.mp hc] at hac
    exact hofresh (hac ▸ List.mem_append_right _ ha)
  · intro o ho
    rw [hflat, ← List.append_assoc] at ho
    rw [hflat]
    exact (List.mem_append.mp ho).imp id List.mem_singleton.mp

end

end Config
