import ReplayFirmware.Config.Alloc

/-! The directives on the tree. Three stages tell what a line can be attached to: there is no menu,
    the last menu has its first item without an option, or the last item has options. In a stage the
    current pointers are those of the end of the tree, and every line whose parent is there leaves a
    consistent tree behind. -/

namespace Config

variable {malloc : Malloc} {s : Status} {t : Tree}

/-! ### Stages -/

/-- The line that a directive can follow. -/
inductive Level where | nothing | menu | item
deriving DecidableEq, Repr

/-- The current pointers are those of the end of the tree. -/
inductive Stage (s : Status) : Tree → Level → Prop
  | nothing : s.menu_act = none → Stage s [] .nothing
  | menu (ts : Tree) (m : ℕ) (is : List ItemNode) (i : ℕ) : s.menu_act = some m →
      s.menu_item_act = some i → Stage s (ts ++ [⟨m, is ++ [⟨i, []⟩]⟩]) .menu
  | item (ts : Tree) (m : ℕ) (is : List ItemNode) (i : ℕ) (os : List ℕ) (o : ℕ) :
      s.menu_act = some m → s.menu_item_act = some i → s.item_opt_act = some o →
      Stage s (ts ++ [⟨m, is ++ [⟨i, os ++ [o]⟩]⟩]) .item

theorem Stage.menu_act {L : Level} (h : Stage s t L) :
    s.menu_act = (t.map MenuNode.menu).getLast? := by
  cases h with
  | nothing h => exact h
  | menu ts m is i hm hi => simp [hm]
  | item ts m is i os o hm hi ho => simp [hm]

/-- Changes that are neither links nor current pointers. -/
theorem Stage.congr {s' : Status} {L : Level} (h : Stage s t L) (hm : s'.menu_act = s.menu_act)
    (hi : s'.menu_item_act = s.menu_item_act) (ho : s'.item_opt_act = s.item_opt_act) :
    Stage s' t L := by
  cases h with
  | nothing h => exact .nothing (hm.trans h)
  | menu ts m is i h1 h2 => exact .menu ts m is i (hm.trans h1) (hi.trans h2)
  | item ts m is i os o h1 h2 h3 =>
    exact .item ts m is i os o (hm.trans h1) (hi.trans h2) (ho.trans h3)

/-- `malloc` grants every request. -/
def Grants (malloc : Malloc) : Prop := ∀ n, ∃ raw, malloc n = some raw

/-! ### The allocations in a stage -/

theorem allocMenu_stage {L : Level} (hg : Grants malloc) (h : Consistent s t) (hs : Stage s t L)
    (title : List UInt8) : ∃ s', allocMenu malloc title s = some s' ∧
      Consistent s' (t ++ [⟨s.blocks, []⟩]) ∧ s'.menu_act = some s.blocks := by
  obtain ⟨raw, hraw⟩ := hg s.blocks
  rw [allocMenu, hraw]
  rcases List.eq_nil_or_concat' t with rfl | ⟨ts, ⟨m, is⟩, rfl⟩
  · have htop : s.menu_top = none := h.menus.top_eq
    exact ⟨_, by rw [htop], h.firstMenu _ rfl rfl rfl, rfl⟩
  · have hact : s.menu_act = some m := by
      rw [hs.menu_act, List.map_append, List.map_singleton, List.getLast?_concat]
    obtain ⟨top, htop⟩ : ∃ top, s.menu_top = some top := by
      rw [h.menus.top_eq]
      cases ts with
      | nil => exact ⟨m, rfl⟩
      | cons m' ts => exact ⟨m'.menu, rfl⟩
    exact ⟨_, by rw [htop, hact], h.addMenu _ rfl rfl rfl, rfl⟩

/-- The first item of a new menu. -/
theorem allocItem_first {m : ℕ} (hg : Grants malloc) (h : Consistent s (t ++ [⟨m, []⟩]))
    (hm : s.menu_act = some m) : ∃ raw, allocItem malloc s
        = some (s.firstItem m (newItem raw none)) ∧
      Consistent (s.firstItem m (newItem raw none)) (t ++ [⟨m, [⟨s.blocks, []⟩]⟩]) := by
  obtain ⟨raw, hraw⟩ := hg s.blocks
  have hlist : (s.menus m).item_list = none :=
    (h.items _ (List.mem_append_right _ (List.mem_singleton_self _))).top_eq
  exact ⟨raw.item, by rw [allocItem, hraw, hm]; simp only [hlist], h.firstItem _ rfl rfl rfl rfl⟩

/-- An item behind the current one. -/
theorem allocItem_behind {m : ℕ} {is : List ItemNode} {act : ItemNode} (hg : Grants malloc)
    (h : Consistent s (t ++ [⟨m, is ++ [act]⟩])) (hm : s.menu_act = some m)
    (hi : s.menu_item_act = some act.item) : ∃ raw, allocItem malloc s
        = some (s.addItem act.item (newItem raw (some act.item))) ∧
      Consistent (s.addItem act.item (newItem raw (some act.item)))
        (t ++ [⟨m, is ++ [act] ++ [⟨s.blocks, []⟩]⟩]) := by
  obtain ⟨raw, hraw⟩ := hg s.blocks
  obtain ⟨top, htop⟩ : ∃ top, (s.menus m).item_list = some top := by
    rw [(h.items _ (List.mem_append_right _ (List.mem_singleton_self _))).top_eq]
    cases is with
    | nil => exact ⟨act.item, rfl⟩
    | cons j is => exact ⟨j.item, rfl⟩
  exact ⟨raw.item, by rw [allocItem, hraw, hm]; simp only [htop, hi], h.addItem _ rfl rfl rfl rfl⟩

/-- The current item is the last of the last menu, and the current option is its last. -/
structure Current (s : Status) (t : Tree) (m : ℕ) (is : List ItemNode) (i : ℕ) (os : List ℕ) :
    Prop where
  tree : Consistent s (t ++ [⟨m, is ++ [⟨i, os⟩]⟩])
  menu : s.menu_act = some m
  item : s.menu_item_act = some i
  option : os ≠ [] → s.item_opt_act = os.getLast?

section
variable {m i : ℕ} {is : List ItemNode} {os : List ℕ}

theorem Stage.current {L : Level} (hs : Stage s t L) (h : Consistent s t) (hL : L ≠ .nothing) :
    ∃ ts m is i os, t = ts ++ [⟨m, is ++ [⟨i, os⟩]⟩] ∧ Current s ts m is i os ∧
      (L = .item → os ≠ []) := by
  cases hs with
  | nothing => exact absurd rfl hL
  | menu ts m is i hm hi => exact ⟨ts, m, is, i, [], rfl, ⟨h, hm, hi, fun hne => absurd rfl hne⟩, nofun⟩
  | item ts m is i os o hm hi ho =>
    exact ⟨ts, m, is, i, os ++ [o], rfl, ⟨h, hm, hi, fun _ => by rw [ho, List.getLast?_concat]⟩,
      fun _ => by simp⟩

theorem Current.stage {o : ℕ} (h : Current s t m is i (os ++ [o])) :
    Stage s (t ++ [⟨m, is ++ [⟨i, os ++ [o]⟩]⟩]) .item :=
  .item t m is i os o h.menu h.item ((h.option (by simp)).trans List.getLast?_concat)

theorem Current.mem (_h : Current s t m is i os) :
    (⟨i, os⟩ : ItemNode) ∈ Tree.items (t ++ [⟨m, is ++ [⟨i, os⟩]⟩]) := by
  rw [Tree.items_snoc]
  simp

/-- Changes of the current item that are not links. -/
theorem Current.setItem {r : MenuItem} (h : Current s t m is i os)
    (hn : r.next = (s.items i).next) (hl : r.last = (s.items i).last)
    (hlist : r.option_list = (s.items i).option_list)
    (hsel : ∀ o, r.selected_option = some o → o ∈ os) : Current (s.setItem i r) t m is i os := by
  refine ⟨h.tree.congr (sameLinks_setItem hn hl hlist) fun j hj o ho => ?_, h.menu, h.item, h.option⟩
  by_cases hji : j.item = i
  · rw [hji, Status.setItem_items_self] at ho
    have heq : j = ⟨i, os⟩ :=
      List.inj_on_of_nodup_map h.tree.items_nodup hj h.mem hji
    exact heq ▸ hsel o ho
  · rw [Status.setItem_items_of_ne s i r hji] at ho
    exact h.tree.selected j hj o ho

/-- Changes of an option that are not links. -/
theorem Current.setOption {o : ℕ} {r : ItemOption} (h : Current s t m is i os)
    (hn : r.next = (s.options o).next) (hl : r.last = (s.options o).last) :
    Current (s.setOption o r) t m is i os :=
  ⟨h.tree.congr (sameLinks_setOption hn hl) h.tree.selected, h.menu, h.item, h.option⟩

/-- A new item is the current one. -/
theorem Current.allocItem (hg : Grants malloc) (h : Current s t m is i os) :
    ∃ s', allocItem malloc s = some s' ∧
      Current s' t m (is ++ [⟨i, os⟩]) s.blocks [] := by
  obtain ⟨raw, halloc, h'⟩ := allocItem_behind hg h.tree h.menu h.item
  exact ⟨_, halloc, h', h.menu, rfl, fun hne => absurd rfl hne⟩

/-- A new option is the last of the current item. -/
theorem Current.allocOption (hg : Grants malloc) (h : Current s t m is i os) :
    ∃ s' o, allocOption malloc s = some s' ∧ s'.item_opt_act = some o ∧
      Current s' t m is i (os ++ [o]) := by
  obtain ⟨raw, hraw⟩ := hg s.blocks
  have htop := (h.tree.options _ h.mem).top_eq
  rw [Config.allocOption, hraw, h.item]
  rcases List.eq_nil_or_concat' os with rfl | ⟨os, o, rfl⟩
  · exact ⟨_, s.blocks, by simp only [htop, List.head?_nil], rfl, h.tree.firstOption (newOption raw.option none)
      rfl rfl, h.menu, h.item, fun _ => rfl⟩
  · have ho : s.item_opt_act = some o := (h.option (by simp)).trans List.getLast?_concat
    obtain ⟨top, hhead⟩ : ∃ top, (os ++ [o]).head? = some top := by
      cases os with
      | nil => exact ⟨o, rfl⟩
      | cons j os => exact ⟨j, rfl⟩
    exact ⟨_, s.blocks, by simp only [htop, hhead, ho], rfl, h.tree.addOption
      (newOption raw.option (some o)) rfl rfl, h.menu, h.item,
      fun _ => List.getLast?_concat.symm⟩

end

/-! ### Where a line is put -/

/-- Behind a line, the tree has grown at its end alone: a `TITLE` is a menu with an item behind the
    last menu, an `ITEM` is the last item of the last menu, with one option more, an `OPTION` is the
    last option of the item that is last, and a `ROM` is an item with its option. -/
def Placed (d : Directive) (s' : Status) (t t' : Tree) : Prop :=
  match d with
  | .title _ => ∃ m i, t' = t ++ [⟨m, [⟨i, []⟩]⟩]
  | .item _ => ∃ ts m is i os o, t' = ts ++ [⟨m, is ++ [⟨i, os ++ [o]⟩]⟩] ∧
      (t = ts ++ [⟨m, is ++ [⟨i, os⟩]⟩] ∨ os = [] ∧ t = ts ++ [⟨m, is⟩]) ∧
      s'.menu_item_act = some i
  | .option vs => ∃ ts m is i os o, t' = ts ++ [⟨m, is ++ [⟨i, os ++ [o]⟩]⟩] ∧
      (t = t' ∨ t = ts ++ [⟨m, is ++ [⟨i, os⟩]⟩]) ∧
      s'.menu_item_act = some i ∧ some (s'.options o).conf_value = vs[1]?.map Value.intval
  | .rom .. => ∃ ts m is i o, t' = ts ++ [⟨m, is ++ [⟨i, [o]⟩]⟩] ∧
      (t = ts ++ [⟨m, is⟩] ∨ is = [] ∧ t = ts) ∧ s'.menu_item_act = some i
  | .other .. => t' = t

/-- The level behind a line that succeeded. -/
def Directive.level (d : Directive) (L : Level) : Level :=
  match d with
  | .title _ => .menu
  | .item _ => .item
  | .option _ => L
  | .rom .. => .item
  | .other .. => L

/-- What a line leaves behind: a consistent tree; when it succeeded, with the line in its place, and
    with the current pointers at the end. -/
def Follows (d : Directive) (L : Level) (t : Tree) (r : Option (UInt8 × Status)) : Prop :=
  ∃ v s' t', r = some (v, s') ∧ Consistent s' t' ∧
    (v = 0 → Placed d s' t t' ∧ Stage s' t' (d.level L))

/-- A line that is refused and changes nothing. -/
theorem Follows.refused {d : Directive} {L : Level} (h : Consistent s t) :
    Follows d L t (some (1, s)) := ⟨1, s, t, rfl, h, fun h0 => absurd h0 (by decide)⟩

/-! ### Each line -/

/-- `TITLE` can stand anywhere. -/
theorem handleTitle_follows {L : Level} (hg : Grants malloc) (h : Consistent s t) (hs : Stage s t L)
    (vs : List Value) : Follows (.title vs) L t (handleTitle malloc vs s) := by
  unfold handleTitle
  split
  · next title =>
    obtain ⟨s₁, halloc, h₁, hm⟩ := allocMenu_stage hg h hs title.strval
    obtain ⟨raw, hitem, h₂⟩ := allocItem_first hg h₁ hm
    rw [halloc, Option.bind_some, hitem]
    exact ⟨0, _, _, rfl, h₂, fun _ => ⟨⟨_, _, rfl⟩, .menu t s.blocks [] s₁.blocks hm rfl⟩⟩
  · exact .refused h

/-- What `ITEM` stores are no links. -/
theorem MenuItem.configure_links (it : MenuItem) (vs : List Value) :
    (it.configure vs).1.next = it.next ∧ (it.configure vs).1.last = it.last ∧
      (it.configure vs).1.option_list = it.option_list ∧
      (it.configure vs).1.selected_option = it.selected_option := by
  unfold MenuItem.configure
  split
  · exact ⟨rfl, rfl, rfl, rfl⟩
  · dsimp only
    split_ifs <;> exact ⟨rfl, rfl, rfl, rfl⟩
  · dsimp only
    split_ifs <;> exact ⟨rfl, rfl, rfl, rfl⟩
  · exact ⟨rfl, rfl, rfl, rfl⟩

/-- `ITEM` behind a `TITLE`. -/
theorem handleItem_follows {L : Level} (hg : Grants malloc) (h : Consistent s t) (hs : Stage s t L)
    (vs : List Value) (hL : 2 ≤ vs.length ∧ vs.length ≤ 4 → L ≠ .nothing) :
    Follows (.item vs) L t (handleItem malloc vs s) := by
  rw [handleItem]
  split
  · next hlen =>
    obtain ⟨ts, m, is, i, os, rfl, hcur, -⟩ := hs.current h (hL hlen)
    -- the item that the line is about: the current one, or the one behind it
    obtain ⟨s₁, is₁, i₁, os₁, htake, hcur₁, hplace⟩ : ∃ s₁ is₁ i₁ os₁,
        (if (s.items i).item_name 0 ≠ 0 then allocItem malloc s else some s) = some s₁ ∧
          Current s₁ ts m is₁ i₁ os₁ ∧ (is₁ = is ∧ i₁ = i ∧ os₁ = os ∨
            os₁ = [] ∧ is₁ = is ++ [⟨i, os⟩]) := by
      split
      · obtain ⟨s₁, halloc, hcur₁⟩ := hcur.allocItem hg
        exact ⟨s₁, _, _, _, halloc, hcur₁, .inr ⟨rfl, rfl⟩⟩
      · exact ⟨s, is, i, os, rfl, hcur, .inl ⟨rfl, rfl, rfl⟩⟩
    obtain ⟨hn, hl, hlist, hsel⟩ := (s₁.items i₁).configure_links vs
    have hcur₂ := hcur₁.setItem hn hl hlist fun o ho =>
      hcur₁.tree.selected _ hcur₁.mem o (hsel ▸ ho)
    simp only [hcur.item, htake, Option.bind_some, hcur₁.item]
    split
    · exact ⟨1, _, _, rfl, hcur₂.tree, fun h0 => absurd h0 (by decide)⟩
    · obtain ⟨s₃, o, halloc, -, hcur₃⟩ := hcur₂.allocOption hg
      rw [halloc]
      refine ⟨0, s₃, _, rfl, hcur₃.tree, fun _ => ⟨⟨ts, m, is₁, i₁, os₁, o, rfl, ?_, hcur₃.item⟩,
        hcur₃.stage⟩⟩
      rcases hplace with ⟨rfl, rfl, rfl⟩ | ⟨rfl, rfl⟩
      · exact .inl rfl
      · exact .inr ⟨rfl, rfl⟩
  · exact .refused h

/-- The end of `OPTION` changes no link; the option that may be selected is the current one. -/
theorem Current.finishOption {m i o : ℕ} {is : List ItemNode} {os : List ℕ}
    (h : Current s t m is i os) (ho : o ∈ os) (kind : OptionKind) (v0 v1 : Value) :
    ∃ v s', finishOption kind v0 v1 i o s = (v, s') ∧ Current s' t m is i os ∧
      (s'.options o).conf_value = (s.options o).conf_value := by
  have hselect : ∀ {s : Status}, Current s t m is i os →
      Current (s.setItem i { s.items i with selected_option := some o }) t m is i os := by
    intro s hs
    exact hs.setItem rfl rfl rfl fun c hc => Option.some.inj hc ▸ ho
  obtain ⟨s₁, hs₁, h₁, hopt₁⟩ : ∃ s₁, (if kind = .default then
      s.setItem i { s.items i with selected_option := some o } else s) = s₁ ∧
      Current s₁ t m is i os ∧ s₁.options = s.options := by
    split
    · exact ⟨_, rfl, hselect h, rfl⟩
    · exact ⟨_, rfl, h, rfl⟩
  rw [Config.finishOption, hs₁]
  dsimp only
  split
  · exact ⟨_, _, rfl, h₁, by rw [hopt₁]⟩
  · split
    · refine ⟨_, _, rfl, (hselect h₁).setOption rfl rfl, ?_⟩
      rw [Status.setOption_options_self, Status.setItem_options, hopt₁]
    · refine ⟨_, _, rfl, h₁.setOption rfl rfl, ?_⟩
      rw [Status.setOption_options_self, hopt₁]

/-- `OPTION` behind an `ITEM` of the same menu. -/
theorem handleOption_follows {L : Level} (hg : Grants malloc) (h : Consistent s t)
    (hs : Stage s t L) (vs : List Value) (hL : 2 ≤ vs.length ∧ vs.length ≤ 3 → L = .item) :
    Follows (.option vs) L t (handleOption malloc vs s) := by
  unfold handleOption
  split
  · next v0 v1 rest =>
    split
    · next hlen =>
      have hL : L = .item := hL (by simp only [List.length_cons]; omega)
      subst hL
      obtain ⟨ts, m, is, i, os, rfl, hcur, hos⟩ := hs.current h nofun
      obtain rfl | ⟨os, o, rfl⟩ := List.eq_nil_or_concat' os
      · exact absurd rfl (hos rfl)
      have hact : s.item_opt_act = some o := (hcur.option (by simp)).trans List.getLast?_concat
      -- the option that the line is about: the current one, or the one behind it
      obtain ⟨s₁, os₁, o₁, htake, hcur₁, hplace⟩ : ∃ s₁ os₁ o₁,
          (if (s.options o).option_name 0 ≠ 0 then allocOption malloc s else some s) = some s₁ ∧
            Current s₁ ts m is i (os₁ ++ [o₁]) ∧ (os₁ ++ [o₁] = os ++ [o] ∨ os₁ = os ++ [o]) := by
        split
        · obtain ⟨s₁, o₁, halloc, -, hcur₁⟩ := hcur.allocOption hg
          exact ⟨s₁, _, o₁, halloc, hcur₁, .inr rfl⟩
        · exact ⟨s, os, o, rfl, hcur, .inl rfl⟩
      have hact₁ : s₁.item_opt_act = some o₁ :=
        (hcur₁.option (by simp)).trans List.getLast?_concat
      have hcur₂ : Current (s₁.setOption o₁ { s₁.options o₁ with conf_value := v1.intval })
          ts m is i (os₁ ++ [o₁]) := hcur₁.setOption rfl rfl
      simp only [hact, htake, Option.bind_some, hact₁]
      split
      · exact ⟨1, _, _, rfl, hcur₂.tree, fun h0 => absurd h0 (by decide)⟩
      · obtain ⟨v, s₃, hfinish, hcur₃, hvalue⟩ := hcur₂.finishOption (List.mem_append_right _ (List.mem_singleton_self o₁))
          (optionKind (v0 :: v1 :: rest)) v0 v1
        simp only [hcur₂.item, hfinish]
        refine ⟨v, s₃, _, rfl, hcur₃.tree, fun _ => ⟨⟨ts, m, is, i, os₁, o₁, rfl, ?_, hcur₃.item, ?_⟩,
          hcur₃.stage⟩⟩
        · rcases hplace with heq | rfl
          · exact .inl (by rw [heq])
          · exact .inr rfl
        · rw [hvalue, Status.setOption_options_self]
          rfl
    · exact .refused h
  · exact .refused h

/-- A ROM brings its item, and its menu unless it follows another ROM. -/
theorem addRom_follows {L : Level} (hg : Grants malloc) (h : Consistent s t) (hs : Stage s t L)
    (filename : List UInt8) (size base : UInt32) (format : UInt8) :
    ∃ s' ts m is i o, addRom malloc filename size base format s = some s' ∧
      (t = ts ++ [⟨m, is⟩] ∨ is = [] ∧ t = ts) ∧ Current s' ts m is i ([] ++ [o]) := by
  -- the new item, in the current menu or in a menu of its own
  obtain ⟨s₁, ts, m, is, i, htake, hcur₁, hplace⟩ : ∃ s₁ ts m is i,
      (if s.inRoms then some s else allocMenu malloc (chars "ROMs") s).bind (allocItem malloc)
        = some s₁ ∧
      Current s₁ ts m is i [] ∧ (t = ts ++ [⟨m, is⟩] ∨ is = [] ∧ t = ts) := by
    split
    · next hroms =>
      have hL : L ≠ .nothing := by
        rintro rfl
        cases hs with
        | nothing hact =>
          simp [Status.inRoms, hact] at hroms
      obtain ⟨ts, m, is, i, os, rfl, hcur, -⟩ := hs.current h hL
      obtain ⟨s₁, halloc, hcur₁⟩ := hcur.allocItem hg
      exact ⟨s₁, ts, m, _, _, halloc, hcur₁, .inl rfl⟩
    · obtain ⟨s₁, halloc, h₁, hm⟩ := allocMenu_stage hg h hs (chars "ROMs")
      obtain ⟨raw, hitem, h₂⟩ := allocItem_first hg h₁ hm
      refine ⟨_, t, s.blocks, [], s₁.blocks, by rw [halloc]; exact hitem, ?_, .inr ⟨rfl, rfl⟩⟩
      exact ⟨h₂, hm, rfl, fun hne => absurd rfl hne⟩
  rw [addRom, htake]
  simp only [Option.bind_some, hcur₁.item]
  have hcur₂ := hcur₁.setItem (r := { s₁.items i with
    item_name := strcpy (s₁.items i).item_name (romName base size), conf_dynamic := format
    conf_mask := size, action_value := base
    action_name := strcpy (s₁.items i).action_name (chars "rom") }) rfl rfl rfl
    (hcur₁.tree.selected _ hcur₁.mem)
  obtain ⟨s₃, o, halloc, hact, hcur₃⟩ := hcur₂.allocOption hg
  simp only [halloc, Option.bind_some, hact]
  have hcur₄ : Current (s₃.setOption o { s₃.options o with
      option_name := strlcpy (s₃.options o).option_name filename maxOptionString })
      ts m is i ([] ++ [o]) := hcur₃.setOption rfl rfl
  refine ⟨_, ts, m, is, i, o, rfl, hplace, hcur₄.setItem rfl rfl rfl fun o ho => ?_⟩
  rw [(hcur₄.tree.options _ hcur₄.mem).top_eq] at ho
  exact List.mem_of_mem_head? ho

/-- `ROM` can stand anywhere. -/
theorem handleRom_follows {L : Level} (hg : Grants malloc) (h : Consistent s t) (hs : Stage s t L)
    (spi : Bool) (vs : List Value) (upload : Upload) :
    Follows (.rom spi vs upload) L t (handleRom malloc spi vs upload s) := by
  unfold handleRom
  split
  · exact .refused h
  · split
    · split
      · exact .refused h
      · next v0 v1 rest _ =>
        have hlinks : ∀ last_rom_adr config_s, SameLinks s
            { s with last_rom_adr := last_rom_adr, config_s := config_s } := fun _ _ =>
          ⟨rfl, rfl, fun _ => ⟨rfl, rfl, rfl⟩, fun _ => ⟨rfl, rfl, rfl⟩, fun _ => ⟨rfl, rfl⟩⟩
        cases upload with
        | failed =>
          exact ⟨1, _, t, rfl, h.congr (hlinks _ s.config_s) h.selected,
            fun h0 => absurd h0 (by decide)⟩
        | done staticbits =>
          have hbits := h.congr (hlinks (romBase s.last_rom_adr rest + v1.intval) staticbits) h.selected
          obtain ⟨s', ts, m, is, i, o, hadd, hplace, hcur⟩ := addRom_follows hg hbits
            (hs.congr rfl rfl rfl) v0.strval v1.intval (romBase s.last_rom_adr rest) (romFormat rest)
          simp only [hadd]
          exact ⟨0, s', _, rfl, hcur.tree, fun _ => ⟨⟨ts, m, is, i, o, rfl, hplace, hcur.item⟩,
            hcur.stage⟩⟩
    · exact .refused h

end Config
