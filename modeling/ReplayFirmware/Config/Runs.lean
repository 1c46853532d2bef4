import ReplayFirmware.Config.Follow

/-! Whole files. A file keeps the tree when each `ITEM` has a menu in front of it, and each `OPTION`
    an item of the same menu. `ITEM` and `OPTION` do not look for their parent: the item or the option
    that is current is taken, which is a null pointer, or one of a menu before. -/

namespace Config

/-! ### Parents -/

/-- A line is not an item without a menu, nor an option without an item; lines that are refused for
    the number of their values need no parent. -/
def Directive.HasParent (d : Directive) (L : Level) : Prop :=
  match d with
  | .item vs => 2 ≤ vs.length ∧ vs.length ≤ 4 → L ≠ .nothing
  | .option vs => 2 ≤ vs.length ∧ vs.length ≤ 3 → L = .item
  | _ => True

def Parented : Level → List Directive → Prop
  | _, [] => True
  | L, d :: ds => d.HasParent L ∧ Parented (d.level L) ds

/-- The level behind these lines. -/
def levels (ds : List Directive) (L : Level) : Level := ds.foldl (fun L d => d.level L) L

theorem parented_snoc : ∀ {ds : List Directive} {d : Directive} {L : Level},
    Parented L (ds ++ [d]) ↔ Parented L ds ∧ d.HasParent (levels ds L)
  | [], d, L => by simp [Parented, levels]
  | _ :: ds, d, L => by
    rw [List.cons_append, Parented, Parented, parented_snoc, levels, levels, List.foldl_cons,
      and_assoc]

/-! ### Runs -/

variable {malloc : Malloc} {s : Status} {t : Tree}

/-- One line with a parent. -/
theorem handle_follows {d : Directive} {L : Level} (hg : Grants malloc) (h : Consistent s t)
    (hs : Stage s t L) (hd : d.HasParent L) : Follows d L t (handle malloc s d) := by
  cases d with
  | title vs => exact handleTitle_follows hg h hs vs
  | item vs => exact handleItem_follows hg h hs vs hd
  | option vs => exact handleOption_follows hg h hs vs hd
  | rom spi vs upload => exact handleRom_follows hg h hs spi vs upload
  | other fails config_s config_d =>
    have hlinks : SameLinks s { s with config_s := config_s, config_d := config_d } :=
      ⟨rfl, rfl, fun _ => ⟨rfl, rfl, rfl⟩, fun _ => ⟨rfl, rfl, rfl⟩, fun _ => ⟨rfl, rfl⟩⟩
    exact ⟨_, _, t, rfl, h.congr hlinks h.selected, fun _ => ⟨rfl, hs.congr rfl rfl rfl⟩⟩

/-- The lines up to the first that fails. -/
theorem run_consistent (hg : Grants malloc) : ∀ {ds : List Directive} {L : Level} {s : Status}
    {t : Tree}, Parented L ds → Consistent s t → Stage s t L →
    ∃ rest s' t', run malloc ds s = some (rest, s') ∧ Consistent s' t' ∧
      (rest = [] → Stage s' t' (levels ds L))
  | [], _, s, t, _, h, hs => ⟨[], s, t, rfl, h, fun _ => hs⟩
  | d :: ds, L, s, t, ⟨hd, hds⟩, h, hs => by
    obtain ⟨v, s₁, t₁, hhandle, h₁, hok⟩ := handle_follows hg h hs hd
    rw [run, hhandle]
    by_cases hv : v = 0
    · obtain ⟨-, hs₁⟩ := hok hv
      simp only [hv, if_true]
      exact run_consistent hg hds h₁ hs₁
    · simp only [hv, if_false]
      exact ⟨d :: ds, s₁, t₁, rfl, h₁, nofun⟩

/-- The lines of a file that all have their parents: after each of them the tree is consistent, and
    the line is attached to what it follows. -/
theorem parented_follows (hg : Grants malloc) (blocks : ℕ) (records : Status) (ds : List Directive)
    (d : Directive) (hp : Parented .nothing (ds ++ [d])) :
    ∃ rest s t, run malloc ds (start blocks records) = some (rest, s) ∧ Consistent s t ∧
      (rest = [] → Follows d (levels ds .nothing) t (handle malloc s d)) := by
  obtain ⟨hds, hd⟩ := parented_snoc.mp hp
  obtain ⟨rest, s, t, hrun, h, hstage⟩ := run_consistent hg hds (start_consistent blocks records)
    (.nothing rfl)
  exact ⟨rest, s, t, hrun, h, fun hrest => handle_follows hg h (hstage hrest) hd⟩

/-- A memory that is all zeros. -/
def zeroed : Malloc := fun _ => some
  { menu := ⟨none, none, fun _ => 0, none⟩
    item := ⟨none, none, fun _ => 0, none, none, 0, 0, fun _ => 0, 0⟩
    option := ⟨none, none, fun _ => 0, 0⟩ }

theorem zeroed_grants : Grants zeroed := fun _ => ⟨_, rfl⟩

/-- The status at power-up. -/
def powerUp : Status :=
  { menu_top := none, menu_act := none, menu_item_act := none, item_opt_act := none
    last_rom_adr := 0, config_s := 0, config_d := 0, blocks := 0
    menus := fun _ => ⟨none, none, fun _ => 0, none⟩
    items := fun _ => ⟨none, none, fun _ => 0, none, none, 0, 0, fun _ => 0, 0⟩
    options := fun _ => ⟨none, none, fun _ => 0, 0⟩ }

def value (s : String) (intval : UInt32) : Value := ⟨chars s, intval⟩

theorem parented_follows_switch : ∃ rest s t,
    run zeroed [.title [value "Video" 0], .item [value "Mode" 0, value "3" 3, value "D" 13]]
      (start 0 powerUp) = some (rest, s) ∧ Consistent s t ∧
    (rest = [] → Follows (.option [value "PAL" 0, value "1" 1])
      (levels [.title [value "Video" 0], .item [value "Mode" 0, value "3" 3, value "D" 13]] .nothing)
      t (handle zeroed s (.option [value "PAL" 0, value "1" 1]))) :=
  parented_follows zeroed_grants 0 powerUp _ _ ⟨trivial, nofun, fun _ => rfl, trivial⟩

/-! ### Lines without a parent -/

/-- No tree has an item that selects an option while it has none. -/
theorem Consistent.no_orphan {m n i o : ℕ} (h : Consistent s t) (htop : s.menu_top = some m)
    (hm : (s.menus m).next = some n) (hn : (s.menus n).item_list = some i)
    (hi : (s.items i).option_list = none) (ho : (s.items i).selected_option = some o) : False := by
  obtain ⟨⟨n', is⟩, hmem, rfl⟩ : ∃ node ∈ t, node.menu = n := by
    have hsecond := h.menus.forward
    rw [htop] at hsecond
    cases hl : t.map MenuNode.menu with
    | nil => rw [hl] at hsecond; cases hsecond
    | cons a l =>
      rw [hl] at hsecond
      cases hsecond with
      | cons htail =>
        rw [hm] at htail
        cases htail with
        | cons _ => exact List.mem_map.mp (hl ▸ List.mem_cons_of_mem _ (List.mem_cons_self ..))
  have hlist := (h.items _ hmem).top_eq
  rw [hn] at hlist
  cases is with
  | nil => cases hlist
  | cons item is =>
    obtain ⟨i', os⟩ := item
    obtain rfl : i = i' := Option.some.inj hlist
    have hitem : (⟨i, os⟩ : ItemNode) ∈ t.items :=
      List.mem_flatMap.mpr ⟨_, hmem, List.mem_cons_self ..⟩
    have hnone := (h.options _ hitem).top_eq
    rw [hi] at hnone
    have hos : os = [] := List.head?_eq_none_iff.mp hnone.symm
    exact List.not_mem_nil (hos ▸ h.selected _ hitem o ho)

/-- An `ITEM` without a menu follows a null pointer, and an `OPTION` without an item is selected by an
    item that it does not belong to. -/
theorem orphan_attached :
    handle zeroed (start 0 powerUp) (.item [value "Mode" 0, value "3" 3, value "D" 13]) = none ∧
    ∃ s s', run zeroed [.title [value "Video" 0], .item [value "Mode" 0, value "reset" 0],
        .title [value "Audio" 0]] (start 0 powerUp) = some ([], s) ∧
      handle zeroed s (.option [value "PAL" 0, value "0" 0]) = some (0, s') ∧
      ∀ t, ¬ Consistent s' t := by
  refine ⟨rfl, _, _, rfl, rfl, fun t h => ?_⟩
  exact h.no_orphan rfl rfl rfl rfl rfl

end Config
