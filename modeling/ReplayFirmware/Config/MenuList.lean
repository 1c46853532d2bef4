import ReplayFirmware.Config.Runs

/-! The list of menus in any file, also in one whose items and options lack their parents: the menus
    are linked in the order in which they were made, and the current one is the last. -/

namespace Config

variable {malloc : Malloc} {s s' : Status} {l : List ℕ}

/-- The blocks of the menus, from the top to the current one. -/
structure MenuList (s : Status) (l : List ℕ) : Prop where
  linked : Dll.Linked (fun m => (s.menus m).next) (fun m => (s.menus m).last) s.menu_top l
  act : s.menu_act = l.getLast?
  old : ∀ m ∈ l, m < s.blocks

theorem start_menuList (blocks : ℕ) (records : Status) : MenuList (start blocks records) [] :=
  ⟨⟨rfl, trivial, List.nodup_nil⟩, rfl, fun _ h => absurd h List.not_mem_nil⟩

/-! ### What does not touch the menus -/

/-- The menus keep their links and titles. -/
structure SameMenus (s s' : Status) : Prop where
  top : s'.menu_top = s.menu_top
  act : s'.menu_act = s.menu_act
  menus : ∀ m, (s'.menus m).next = (s.menus m).next ∧ (s'.menus m).last = (s.menus m).last ∧
    (s'.menus m).menu_title = (s.menus m).menu_title
  blocks : s.blocks ≤ s'.blocks

theorem SameMenus.refl (s : Status) : SameMenus s s := ⟨rfl, rfl, fun _ => ⟨rfl, rfl, rfl⟩, Nat.le_refl _⟩

theorem SameMenus.trans {s'' : Status} (h : SameMenus s s') (h' : SameMenus s' s'') :
    SameMenus s s'' where
  top := h'.top.trans h.top
  act := h'.act.trans h.act
  menus m := ⟨(h'.menus m).1.trans (h.menus m).1, (h'.menus m).2.1.trans (h.menus m).2.1,
    (h'.menus m).2.2.trans (h.menus m).2.2⟩
  blocks := Nat.le_trans h.blocks h'.blocks

theorem MenuList.congr (h : MenuList s l) (hs : SameMenus s s') : MenuList s' l where
  linked := by
    rw [hs.top]
    exact h.linked.congr fun m _ => ⟨(hs.menus m).1, (hs.menus m).2.1⟩
  act := hs.act.trans h.act
  old m hm := Nat.lt_of_lt_of_le (h.old m hm) hs.blocks

theorem sameMenus_setItem (s : Status) (i : ℕ) (r : MenuItem) : SameMenus s (s.setItem i r) :=
  ⟨rfl, rfl, fun _ => ⟨rfl, rfl, rfl⟩, Nat.le_refl _⟩

theorem sameMenus_setOption (s : Status) (o : ℕ) (r : ItemOption) : SameMenus s (s.setOption o r) :=
  ⟨rfl, rfl, fun _ => ⟨rfl, rfl, rfl⟩, Nat.le_refl _⟩

theorem allocItem_sameMenus (h : allocItem malloc s = some s') : SameMenus s s' := by
  rw [allocItem] at h
  split at h
  · next raw m _ _ =>
    split at h
    · rw [← Option.some.inj h]
      exact ⟨rfl, rfl, fun _ => ⟨rfl, rfl, rfl⟩, Nat.le_succ _⟩
    · cases h
    · rw [← Option.some.inj h]
      have hkeep : ∀ c, (s.firstItem m (newItem raw.item none)).menus c
          = if c = m then { s.menus m with item_list := some s.blocks } else s.menus c :=
        fun c => Function.update_apply ..
      refine ⟨rfl, rfl, fun c => ?_, Nat.le_succ _⟩
      rw [hkeep]
      split
      · next heq => exact heq ▸ ⟨rfl, rfl, rfl⟩
      · exact ⟨rfl, rfl, rfl⟩
  · cases h

theorem allocOption_sameMenus (h : allocOption malloc s = some s') : SameMenus s s' := by
  rw [allocOption] at h
  split at h
  · split at h
    · rw [← Option.some.inj h]
      exact ⟨rfl, rfl, fun _ => ⟨rfl, rfl, rfl⟩, Nat.le_succ _⟩
    · cases h
    · rw [← Option.some.inj h]
      exact ⟨rfl, rfl, fun _ => ⟨rfl, rfl, rfl⟩, Nat.le_succ _⟩
  · cases h

/-! ### A new menu -/

/-- A new menu comes last, under its title. -/
theorem MenuList.allocMenu {title : List UInt8} (h : MenuList s l)
    (halloc : allocMenu malloc title s = some s') :
    MenuList s' (l ++ [s.blocks]) ∧ (s'.menus s.blocks).item_list = none ∧
      s'.blocks = s.blocks + 1 ∧
      (∃ raw, (s'.menus s.blocks).menu_title = strncpy raw title maxMenuString) ∧
      ∀ m ≠ s.blocks, (s'.menus m).menu_title = (s.menus m).menu_title := by
  rw [Config.allocMenu] at halloc
  have hold : s.blocks ∉ l := fun hb => absurd rfl (Nat.ne_of_lt (h.old _ hb))
  split at halloc
  · cases halloc
  next raw _ =>
    split at halloc
    · next act htop hact =>
      obtain ⟨l, rfl⟩ : ∃ l', l = l' ++ [act] := by
        rcases List.eq_nil_or_concat' l with rfl | ⟨l, a, rfl⟩
        · rw [h.act] at hact; cases hact
        · rw [h.act, List.getLast?_concat] at hact
          exact ⟨l, by rw [Option.some.inj hact]⟩
      rw [← Option.some.inj halloc]
      set r := newMenu raw.menu title (some act)
      have hself : (s.addMenu act r).menus s.blocks = r := Function.update_self ..
      have hkeep : ∀ c, c ≠ s.blocks → (s.addMenu act r).menus c
          = if c = act then { s.menus act with next := some s.blocks } else s.menus c :=
        fun c hc => update_fresh _ _ hc
      have hact' : act ≠ s.blocks := fun he => hold (he ▸ by simp)
      refine ⟨⟨h.linked.snoc hold ?_ ?_ ?_ ?_ ?_, ?_, ?_⟩, by rw [hself]; rfl, rfl,
        ⟨raw.menu.menu_title, by rw [hself]; rfl⟩, fun m hm => ?_⟩
      · rw [hkeep act hact', if_pos rfl]
      · rw [hkeep act hact', if_pos rfl]
      · rw [hself]; rfl
      · rw [hself]; rfl
      · intro b hb
        have hne : b ≠ act := fun he =>
          List.disjoint_of_nodup_append h.linked.nodup hb (List.mem_singleton.mpr he)
        rw [hkeep b fun he => hold (he ▸ List.mem_append_left _ hb), if_neg hne]
        exact ⟨rfl, rfl⟩
      · exact List.getLast?_concat.symm
      · intro m hm
        rcases List.mem_append.mp hm with hm | hm
        · exact Nat.lt_succ_of_lt (h.old m hm)
        · rw [List.mem_singleton.mp hm]
          exact Nat.lt_succ_self _
      · rw [hkeep m hm]
        split
        · next heq => rw [heq]
        · rfl
    · cases halloc
    · next htop =>
      obtain rfl : l = [] := List.head?_eq_none_iff.mp (h.linked.top_eq.symm.trans htop)
      rw [← Option.some.inj halloc]
      set r := newMenu raw.menu title none
      have hself : (s.firstMenu r).menus s.blocks = r := Function.update_self ..
      refine ⟨⟨Dll.Linked.first (by rw [hself]; rfl) (by rw [hself]; rfl), rfl, fun m hm => ?_⟩,
        by rw [hself]; rfl, rfl, ⟨raw.menu.menu_title, by rw [hself]; rfl⟩, fun m hm => ?_⟩
      · rw [List.mem_singleton.mp hm]
        exact Nat.lt_succ_self _
      · exact congrArg Menu.menu_title (Function.update_of_ne hm ..)

/-! ### Lines -/

theorem handleItem_sameMenus {vs : List Value} {v : UInt8}
    (h : handleItem malloc vs s = some (v, s')) : SameMenus s s' := by
  rw [handleItem] at h
  split at h
  · split at h
    · cases h
    · next act _ =>
      obtain ⟨s₁, htake, h⟩ := Option.bind_eq_some_iff.mp h
      have h₁ : SameMenus s s₁ := by
        split at htake
        · exact allocItem_sameMenus htake
        · exact Option.some.inj htake ▸ SameMenus.refl s
      split at h
      · cases h
      · next i _ =>
        have h₂ := h₁.trans (sameMenus_setItem s₁ i ((s₁.items i).configure vs).1)
        dsimp only at h
        split at h
        · cases h
          exact h₂
        · obtain ⟨s₃, halloc, heq⟩ := Option.map_eq_some_iff.mp h
          cases heq
          exact h₂.trans (allocOption_sameMenus halloc)
  · cases h
    exact .refl s

theorem finishOption_sameMenus (kind : OptionKind) (v0 v1 : Value) (i o : ℕ) (s : Status) :
    SameMenus s (finishOption kind v0 v1 i o s).2 := by
  obtain ⟨s₁, hs₁, h₁⟩ : ∃ s₁, (if kind = .default then
      s.setItem i { s.items i with selected_option := some o } else s) = s₁ ∧ SameMenus s s₁ := by
    split
    · exact ⟨_, rfl, sameMenus_setItem ..⟩
    · exact ⟨_, rfl, .refl s⟩
  rw [finishOption, hs₁]
  dsimp only
  split
  · exact h₁
  · refine h₁.trans (SameMenus.trans ?_ (sameMenus_setOption ..))
    split
    · exact sameMenus_setItem ..
    · exact .refl _

theorem handleOption_sameMenus {vs : List Value} {v : UInt8}
    (h : handleOption malloc vs s = some (v, s')) : SameMenus s s' := by
  unfold handleOption at h
  split at h
  · next v0 v1 rest =>
    split at h
    · split at h
      · cases h
      · obtain ⟨s₁, htake, h⟩ := Option.bind_eq_some_iff.mp h
        have h₁ : SameMenus s s₁ := by
          split at htake
          · exact allocOption_sameMenus htake
          · exact Option.some.inj htake ▸ SameMenus.refl s
        split at h
        · cases h
        · next o _ =>
          have h₂ := h₁.trans
            (sameMenus_setOption s₁ o { s₁.options o with conf_value := v1.intval })
          dsimp only at h
          split at h
          · cases h
            exact h₂
          · split at h
            · cases h
            · next i _ =>
              have h₃ := h₂.trans (finishOption_sameMenus (optionKind (v0 :: v1 :: rest)) v0 v1 i o _)
              rw [Option.some.inj h] at h₃
              exact h₃
    · cases h
      exact .refl s
  · cases h
    exact .refl s

theorem MenuList.addRom {filename : List UInt8} {size base : UInt32} {format : UInt8}
    (h : MenuList s l) (hadd : addRom malloc filename size base format s = some s') :
    ∃ l', MenuList s' l' := by
  rw [Config.addRom] at hadd
  obtain ⟨s₁, hentry, hadd⟩ := Option.bind_eq_some_iff.mp hadd
  obtain ⟨l', h₁⟩ : ∃ l', MenuList s₁ l' := by
    obtain ⟨s₀, hmenu, hitem⟩ := Option.bind_eq_some_iff.mp hentry
    split at hmenu
    · exact ⟨l, h.congr (Option.some.inj hmenu ▸ allocItem_sameMenus hitem)⟩
    · exact ⟨_, (h.allocMenu hmenu).1.congr (allocItem_sameMenus hitem)⟩
  split at hadd
  · cases hadd
  · obtain ⟨s₃, halloc, hadd⟩ := Option.bind_eq_some_iff.mp hadd
    split at hadd
    · cases hadd
    · refine ⟨l', h₁.congr (Option.some.inj hadd ▸ ?_)⟩
      exact (sameMenus_setItem ..).trans ((allocOption_sameMenus halloc).trans
        ((sameMenus_setOption ..).trans (sameMenus_setItem ..)))

/-- One line: the menus stay, or there is one more. -/
theorem MenuList.handle {d : Directive} {v : UInt8} (h : MenuList s l)
    (hd : handle malloc s d = some (v, s')) : ∃ l', MenuList s' l' := by
  cases d with
  | title vs =>
    rw [Config.handle] at hd
    unfold handleTitle at hd
    split at hd
    · obtain ⟨s₂, hboth, heq⟩ := Option.map_eq_some_iff.mp hd
      obtain ⟨s₁, hmenu, hitem⟩ := Option.bind_eq_some_iff.mp hboth
      cases heq
      exact ⟨_, (h.allocMenu hmenu).1.congr (allocItem_sameMenus hitem)⟩
    · cases hd
      exact ⟨l, h⟩
  | item vs => exact ⟨l, h.congr (handleItem_sameMenus hd)⟩
  | option vs => exact ⟨l, h.congr (handleOption_sameMenus hd)⟩
  | rom spi vs upload =>
    rw [Config.handle] at hd
    unfold handleRom at hd
    split at hd
    · cases hd
      exact ⟨l, h⟩
    · split at hd
      · next v0 v1 rest =>
        split at hd
        · cases hd
          exact ⟨l, h⟩
        · cases upload with
          | failed =>
            cases hd
            exact ⟨l, h.linked, h.act, h.old⟩
          | done staticbits =>
            obtain ⟨s₁, hadd, heq⟩ := Option.map_eq_some_iff.mp hd
            cases heq
            refine MenuList.addRom (l := l) ?_ hadd
            exact ⟨h.linked, h.act, h.old⟩
      · cases hd
        exact ⟨l, h⟩
  | other fails config_s config_d =>
    cases hd
    exact ⟨l, h.linked, h.act, h.old⟩

/-- The menus of any file that does not run into a null pointer. -/
theorem run_menuList : ∀ {ds rest : List Directive} {s s' : Status} {l : List ℕ}, MenuList s l →
    run malloc ds s = some (rest, s') → ∃ l', MenuList s' l'
  | [], _, _, _, l, h, hrun => by
    cases hrun
    exact ⟨l, h⟩
  | d :: ds, rest, s, s', l, h, hrun => by
    rw [run] at hrun
    split at hrun
    · cases hrun
    · next v s₁ hd =>
      obtain ⟨l₁, h₁⟩ := h.handle hd
      split at hrun
      · exact run_menuList h₁ hrun
      · cases hrun
        exact ⟨l₁, h₁⟩

end Config
