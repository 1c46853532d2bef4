import Mathlib.Data.List.Perm.Subperm
import ReplayFirmware.Config.AddDefault

/-! Where `CFG_add_default` puts the menus. The menu of ROMs is taken out of the list and put in front
    of the "Replay Menu"; when it is there already, the link behind it is written to itself. -/

namespace Config

variable {malloc : Malloc} {s s' : Status} {l : List ℕ}

/-! ### The items are added -/

/-- There is a current menu, item and option. -/
structure Ready (s : Status) : Prop where
  menu : ∃ m, s.menu_act = some m
  item : ∃ i, s.menu_item_act = some i
  option : ∃ o, s.item_opt_act = some o

/-- The strings of a target fit into an item and its options. -/
structure Target.Fits (t : Target) : Prop where
  name : t.name.length < maxItemString
  file : t.file.length < maxOptionString
  dir : ∀ d ∈ t.dir, d.length < maxOptionString

theorem strcpyTo_of_lt {n : ℕ} {src : List UInt8} (dst : Chars) (h : src.length < n) :
    strcpyTo n dst src = some (strcpy dst src) := if_pos h

theorem strcpyTo_lt {n : ℕ} {dst a : Chars} {src : List UInt8} (h : strcpyTo n dst src = some a) :
    src.length < n := by
  rw [strcpyTo] at h
  split at h
  · assumption
  · cases h

theorem allocItem_grants {m : ℕ} (hg : Grants malloc) (hm : s.menu_act = some m)
    (hi : (s.menus m).item_list = none ∨ ∃ i, s.menu_item_act = some i) :
    ∃ s' i, allocItem malloc s = some s' ∧ s'.menu_item_act = some i := by
  obtain ⟨raw, hraw⟩ := hg s.blocks
  rw [allocItem, hraw, hm]
  cases hlist : (s.menus m).item_list with
  | none =>
    simp only [hlist]
    exact ⟨_, s.blocks, rfl, rfl⟩
  | some top =>
    obtain ⟨i, hi⟩ := hi.resolve_left (by rw [hlist]; exact Option.some_ne_none top)
    simp only [hlist, hi]
    exact ⟨_, s.blocks, rfl, rfl⟩

theorem allocOption_grants {i : ℕ} (hg : Grants malloc) (hi : s.menu_item_act = some i)
    (ho : (s.items i).option_list = none ∨ ∃ o, s.item_opt_act = some o) :
    ∃ s' o, allocOption malloc s = some s' ∧ s'.menu_item_act = some i ∧
      s'.item_opt_act = some o := by
  obtain ⟨raw, hraw⟩ := hg s.blocks
  rw [allocOption, hraw, hi]
  cases hlist : (s.items i).option_list with
  | none =>
    simp only [hlist]
    exact ⟨_, s.blocks, rfl, hi, rfl⟩
  | some top =>
    obtain ⟨o, ho⟩ := ho.resolve_left (by rw [hlist]; exact Option.some_ne_none top)
    simp only [hlist, ho]
    exact ⟨_, s.blocks, rfl, hi, rfl⟩

/-- An item that is added is the current one, with its option. -/
theorem addItem_ready {m : ℕ} {name action : List UInt8} (hg : Grants malloc)
    (hm : s.menu_act = some m)
    (hi : (s.menus m).item_list = none ∨ ∃ i, s.menu_item_act = some i)
    (hname : name.length < maxItemString) :
    ∃ s', addItem malloc name action s = some s' ∧ SameMenus s s' ∧ Ready s' := by
  obtain ⟨s₁, i, hitem, hi₁⟩ := allocItem_grants hg hm hi
  have h₁ := allocItem_sameMenus hitem
  rw [addItem, hitem, Option.bind_some, hi₁]
  simp only [strcpyTo_of_lt _ hname, Option.bind_some]
  set s₂ := s₁.setItem i _ with hs₂
  have hlist : (s₂.items i).option_list = none := by rw [hs₂, Status.setItem_items_self]
  obtain ⟨s₃, o, hoption, hi₃, ho₃⟩ := allocOption_grants hg (show s₂.menu_item_act = some i from hi₁)
    (Or.inl hlist)
  have h₃ := h₁.trans ((sameMenus_setItem s₁ i _).trans (allocOption_sameMenus hoption))
  exact ⟨s₃, hoption, h₃, ⟨m, h₃.act.trans hm⟩, ⟨i, hi₃⟩, ⟨o, ho₃⟩⟩

theorem Ready.addItem {name action : List UInt8} (hg : Grants malloc) (h : Ready s)
    (hname : name.length < maxItemString) :
    ∃ s', addItem malloc name action s = some s' ∧ SameMenus s s' ∧ Ready s' := by
  obtain ⟨m, hm⟩ := h.menu
  exact addItem_ready hg hm (.inr h.item) hname

theorem nameOption_ready {name : List UInt8} (h : Ready s) (hname : name.length < maxOptionString) :
    ∃ s', nameOption name s = some s' ∧ SameMenus s s' ∧ Ready s' := by
  obtain ⟨o, ho⟩ := h.option
  rw [nameOption, ho]
  simp only [strcpyTo_of_lt _ hname, Option.map_some]
  exact ⟨_, rfl, sameMenus_setOption .., h.menu, h.item, o, ho⟩

theorem addTarget_ready {t : Target} (hg : Grants malloc) (h : Ready s) (ht : t.Fits) :
    ∃ s', addTarget malloc t s = some s' ∧ SameMenus s s' ∧ Ready s' := by
  obtain ⟨s₁, hadd, h₁, hr₁⟩ : ∃ s', addItem malloc t.name (chars "iniload") s = some s' ∧
      SameMenus s s' ∧ Ready s' := h.addItem hg ht.name
  obtain ⟨s₂, hfile, h₂, hr₂⟩ := nameOption_ready hr₁ ht.file
  rw [addTarget, hadd, Option.bind_some, hfile, Option.bind_some]
  cases hdir : t.dir with
  | none => exact ⟨s₂, rfl, h₁.trans h₂, hr₂⟩
  | some dir =>
    obtain ⟨i, hi⟩ := hr₂.item
    obtain ⟨s₃, o, halloc, hi₃, ho₃⟩ := allocOption_grants hg hi (.inr hr₂.option)
    have h₃ := allocOption_sameMenus halloc
    have hcut : cutOption s₃ = some (s₃.setOption o { s₃.options o with last := none }) := by
      rw [cutOption, ho₃]
    have hr₃ : Ready (s₃.setOption o { s₃.options o with last := none }) :=
      ⟨(hr₂.menu).imp fun m hm => h₃.act.trans hm, ⟨i, hi₃⟩, ⟨o, ho₃⟩⟩
    obtain ⟨s₄, hname, h₄, hr₄⟩ := nameOption_ready hr₃ (ht.dir dir hdir)
    simp only [halloc, Option.bind_some, hcut]
    exact ⟨s₄, hname, ((h₁.trans h₂).trans h₃).trans ((sameMenus_setOption ..).trans h₄), hr₄⟩

theorem addTargets_ready (hg : Grants malloc) : ∀ {ts : List Target} {s : Status}, Ready s →
    (∀ t ∈ ts, t.Fits) → ∃ s', addTargets malloc ts s = some s' ∧ SameMenus s s'
  | [], s, _, _ => ⟨s, rfl, .refl s⟩
  | t :: ts, s, h, hfits => by
    rw [List.forall_mem_cons] at hfits
    obtain ⟨s₁, hadd, h₁, hr₁⟩ := addTarget_ready hg h hfits.1
    obtain ⟨s₂, hrest, h₂⟩ := addTargets_ready hg hr₁ hfits.2
    exact ⟨s₂, by rw [addTargets, hadd, Option.bind_some, hrest], h₁.trans h₂⟩

/-- A title that is written to an array is the title in it. -/
theorem strncpy_is (raw : Chars) {src : List UInt8} {n : ℕ} (h : src.length < n) :
    (strncpy raw src n).Is src := by
  intro i hi
  rw [List.mem_range] at hi
  rw [strncpy, if_pos (by omega)]

theorem SameMenus.titled (h : SameMenus s s') (title : String) (m : ℕ) :
    s'.titled title m = s.titled title m := by
  rw [Status.titled, Status.titled, (h.menus m).2.2]

theorem MenuList.allocMenu_grants (hg : Grants malloc) (h : MenuList s l) (title : List UInt8) :
    ∃ s', Config.allocMenu malloc title s = some s' := by
  obtain ⟨raw, hraw⟩ := hg s.blocks
  rw [Config.allocMenu, hraw, h.act, h.linked.top_eq]
  rcases List.eq_nil_or_concat' l with rfl | ⟨l, a, rfl⟩
  · exact ⟨_, rfl⟩
  · rw [List.getLast?_concat]
    cases l <;> exact ⟨_, rfl⟩

/-- The "Replay Menu" is the last one when all strings fit. -/
theorem addReplayMenu_menuList {targets : List Target} (hg : Grants malloc) (h : MenuList s l)
    (hfits : ∀ t ∈ targets, t.Fits) : ∃ s', addReplayMenu malloc targets s = some s' ∧
      MenuList s' (l ++ [s.blocks]) ∧ s'.titled "Replay Menu" s.blocks = true ∧
      s'.titled "ROMs" s.blocks = false ∧
      ∀ title, ∀ m ∈ l, s'.titled title m = s.titled title m := by
  obtain ⟨s₀, hmenu⟩ := h.allocMenu_grants hg (chars "Replay Menu")
  obtain ⟨h₀, hlist, -, ⟨raw, htitle⟩, hkeep⟩ := h.allocMenu hmenu
  have hact : s₀.menu_act = some s.blocks := h₀.act.trans List.getLast?_concat
  obtain ⟨s₁, hadd₁, h₁, hr₁⟩ : ∃ s', addItem malloc (chars "Load Target") (chars "iniselect") s₀
      = some s' ∧ SameMenus s₀ s' ∧ Ready s' := addItem_ready hg hact (.inl hlist) (by decide)
  obtain ⟨s₂, hadd₂, h₂, hr₂⟩ : ∃ s', addItem malloc (chars "Reset Target") (chars "reset") s₁
      = some s' ∧ SameMenus s₁ s' ∧ Ready s' := hr₁.addItem hg (by decide)
  obtain ⟨s₃, hadd₃, h₃, hr₃⟩ : ∃ s', addItem malloc (chars "Reboot Board") (chars "reboot") s₂
      = some s' ∧ SameMenus s₂ s' ∧ Ready s' := hr₂.addItem hg (by decide)
  obtain ⟨s₄, hadd₄, h₄, hr₄⟩ : ∃ s', addItem malloc (chars "SDCard over USB") (chars "mountmsc") s₃
      = some s' ∧ SameMenus s₃ s' ∧ Ready s' := hr₃.addItem hg (by decide)
  obtain ⟨s₅, hadd₅, h₅⟩ := addTargets_ready hg hr₄ hfits
  have hsame := (((h₁.trans h₂).trans h₃).trans h₄).trans h₅
  refine ⟨s₅, ?_, h₀.congr hsame, ?_, ?_, fun title m hm => ?_⟩
  · rw [addReplayMenu, hmenu, Option.bind_some, hadd₁, Option.bind_some, hadd₂, Option.bind_some,
      hadd₃, Option.bind_some, hadd₄, Option.bind_some, hadd₅]
  · rw [hsame.titled, Status.titled, htitle]
    exact decide_eq_true (strncpy_is raw (by decide))
  · rw [hsame.titled, Status.titled, htitle]
    refine decide_eq_false fun hroms => absurd (hroms 1 (by decide)) ?_
    rw [strncpy, if_pos (by decide)]
    decide
  · rw [hsame.titled, Status.titled, Status.titled, hkeep m fun he => absurd he
      (Nat.ne_of_lt (h.old m hm))]

/-- All strings fit when there is an outcome. -/
theorem nameOption_fits {name : List UInt8} (h : nameOption name s = some s') :
    name.length < maxOptionString := by
  rw [nameOption] at h
  split at h
  · cases h
  · obtain ⟨a, ha, -⟩ := Option.map_eq_some_iff.mp h
    exact strcpyTo_lt ha

theorem addItem_fits {name action : List UInt8} (h : addItem malloc name action s = some s') :
    name.length < maxItemString := by
  obtain ⟨s₁, -, h⟩ := Option.bind_eq_some_iff.mp h
  split at h
  · cases h
  · obtain ⟨a, ha, -⟩ := Option.bind_eq_some_iff.mp h
    exact strcpyTo_lt ha

theorem addTarget_fits {t : Target} (h : addTarget malloc t s = some s') : t.Fits := by
  obtain ⟨s₁, hadd, h⟩ := Option.bind_eq_some_iff.mp h
  obtain ⟨s₂, hfile, h⟩ := Option.bind_eq_some_iff.mp h
  refine ⟨addItem_fits hadd, nameOption_fits hfile, fun d hd => ?_⟩
  rw [Option.mem_def] at hd
  rw [hd] at h
  obtain ⟨s₃, -, h⟩ := Option.bind_eq_some_iff.mp h
  exact nameOption_fits h

theorem addTargets_fits : ∀ {ts : List Target} {s : Status}, addTargets malloc ts s = some s' →
    ∀ t ∈ ts, t.Fits
  | [], _, _ => fun _ h => absurd h List.not_mem_nil
  | t :: ts, _, h => by
    obtain ⟨s₁, hadd, h⟩ := Option.bind_eq_some_iff.mp h
    exact List.forall_mem_cons.mpr ⟨addTarget_fits hadd, addTargets_fits h⟩

theorem addReplayMenu_fits {targets : List Target} (h : addReplayMenu malloc targets s = some s') :
    ∀ t ∈ targets, t.Fits := by
  obtain ⟨s₀, -, h⟩ := Option.bind_eq_some_iff.mp h
  obtain ⟨s₁, -, h⟩ := Option.bind_eq_some_iff.mp h
  obtain ⟨s₂, -, h⟩ := Option.bind_eq_some_iff.mp h
  obtain ⟨s₃, -, h⟩ := Option.bind_eq_some_iff.mp h
  obtain ⟨s₄, -, h⟩ := Option.bind_eq_some_iff.mp h
  exact addTargets_fits h

/-! ### The links are found -/

/-- The link to the last of these nodes that passes a test. -/
def lastLink (p : ℕ → Bool) : List ℕ → List ℕ → Option (Dll.Link ℕ) → Option (Dll.Link ℕ)
  | _, [], k => k
  | front, m :: l, k => lastLink p (front ++ [m]) l (if p m then some (Dll.behind front) else k)

theorem lastLink_none {p : ℕ → Bool} : ∀ {l front : List ℕ} {k : Option (Dll.Link ℕ)},
    (∀ m ∈ l, p m = false) → lastLink p front l k = k
  | [], _, _, _ => rfl
  | m :: l, front, k, h => by
    rw [List.forall_mem_cons] at h
    rw [lastLink, h.1, lastLink_none h.2]
    rfl

theorem lastLink_append {p : ℕ → Bool} : ∀ {l₁ l₂ front : List ℕ} {m : ℕ}
    {k : Option (Dll.Link ℕ)}, p m = true → (∀ n ∈ l₂, p n = false) →
    lastLink p front (l₁ ++ m :: l₂) k = some (Dll.behind (front ++ l₁))
  | [], l₂, front, m, k, hm, h => by
    rw [List.nil_append, lastLink, hm, lastLink_none h, List.append_nil]
    rfl
  | n :: l₁, l₂, front, m, k, hm, h => by
    rw [List.cons_append, lastLink, lastLink_append hm h, List.append_assoc]
    rfl

/-- The loop over the menus. -/
theorem findLinks_eq : ∀ {l front : List ℕ} {fuel : ℕ} {rom_menu replay_menu : Option (Dll.Link ℕ)},
    Dll.Linked (fun m => (s.menus m).next) (fun m => (s.menus m).last) s.menu_top (front ++ l) →
    l.length < fuel →
    findLinks s fuel (Dll.behind front) rom_menu replay_menu
      = some (lastLink (s.titled "ROMs") front l rom_menu,
          lastLink (s.titled "Replay Menu") front l replay_menu)
  | [], front, fuel + 1, _, _, h, _ => by
    have hlink : s.link (Dll.behind front) = none := h.get_behind
    rw [findLinks, hlink]
    rfl
  | m :: l, front, fuel + 1, _, _, h, hfuel => by
    have hlink : s.link (Dll.behind front) = some m := h.get_behind
    rw [findLinks, hlink]
    rw [List.append_cons] at h
    have hbehind : Dll.Link.next m = Dll.behind (front ++ [m]) := (Dll.behind_snoc front m).symm
    simp only [hbehind]
    rw [findLinks_eq h (Nat.lt_of_succ_lt_succ hfuel)]
    rfl

/-! ### The menu is moved -/

/-- The last menu titled "ROMs" of a list. -/
def Status.lastRoms (s : Status) (l : List ℕ) : Option ℕ := (l.filter (s.titled "ROMs")).getLast?

def Status.nextOf (s : Status) (m : ℕ) : Ptr := (s.menus m).next

def Status.lastOf (s : Status) (m : ℕ) : Ptr := (s.menus m).last

/-- The menus are linked both ways, from the top to a last one. -/
def MenuLinks (s : Status) (l : List ℕ) : Prop := Dll.Linked s.nextOf s.lastOf s.menu_top l

theorem MenuList.links (h : MenuList s l) : Dll.Linked s.nextOf s.lastOf s.menu_top l := h.linked

section
variable (s) (m : ℕ) (p : Ptr) (k : Dll.Link ℕ)

/-- One field of one menu is set. -/
theorem update_field {β : Type*} (g : Menu → β) (r : Menu) :
    (fun c => g ((s.setMenu m r).menus c)) = Function.update (fun c => g (s.menus c)) m (g r) :=
  Function.comp_update g s.menus m r

@[simp] theorem Status.nextOf_setNext : (s.setNext m p).nextOf = Function.update s.nextOf m p :=
  update_field s m Menu.next _

@[simp] theorem Status.lastOf_setNext : (s.setNext m p).lastOf = s.lastOf :=
  (update_field s m Menu.last _).trans (Function.update_eq_self m s.lastOf)

@[simp] theorem Status.nextOf_setLast : (s.setLast m p).nextOf = s.nextOf :=
  (update_field s m Menu.next _).trans (Function.update_eq_self m s.nextOf)

@[simp] theorem Status.lastOf_setLast : (s.setLast m p).lastOf = Function.update s.lastOf m p :=
  update_field s m Menu.last _

@[simp] theorem Status.nextOf_setLink : (s.setLink k p).nextOf = k.setNext p s.nextOf := by
  cases k with
  | top => rfl
  | next m => exact s.nextOf_setNext m p

@[simp] theorem Status.lastOf_setLink : (s.setLink k p).lastOf = s.lastOf := by
  cases k with
  | top => rfl
  | next m => exact s.lastOf_setNext m p

theorem Status.menu_top_setLink : (s.setLink k p).menu_top = k.setTop p s.menu_top := by
  cases k <;> rfl

end

/-- What the assignments make of the links, when the menu has a menu behind it before and after. -/
theorem moveMenu_links (k k' : Dll.Link ℕ) (b : ℕ) {m a : ℕ} {next₁ next₂ last₁ : ℕ → Ptr} {top₁ : Ptr}
    (hm : s.link k = some m) (hnext : next₁ = k.setNext (s.nextOf m) s.nextOf)
    (htop : top₁ = k.setTop (s.nextOf m) s.menu_top) (ha : next₁ m = some a)
    (hlast : last₁ = Function.update s.lastOf a (s.lastOf m))
    (hnext₂ : next₂ = k'.setNext (some m) (Function.update next₁ m (k'.get top₁ next₁)))
    (hb : next₂ m = some b) :
    ∃ s', moveMenu k k' s = some s' ∧ s'.nextOf = next₂ ∧
      s'.lastOf = Function.update (Function.update last₁ m (last₁ b)) b (some m) ∧
      s'.menu_top = k'.setTop (some m) top₁ := by
  set s₁ := s.setLink k (s.nextOf m) with hs₁
  set s₂ := s₁.setLast a (s₁.lastOf m) with hs₂
  set s₃ := (s₂.setNext m (s₂.link k')).setLink k' (some m) with hs₃
  set s₄ := s₃.setLast m (s₃.lastOf b) with hs₄
  have h₁ : s₁.nextOf = next₁ := by rw [hs₁, Status.nextOf_setLink, hnext]
  have hl₂ : s₂.lastOf = last₁ := by
    rw [hs₂, Status.lastOf_setLast, hs₁, Status.lastOf_setLink, hlast]
  have hn₂ : s₂.nextOf = next₁ := by rw [hs₂, Status.nextOf_setLast, h₁]
  have ht₂ : s₂.menu_top = top₁ := by rw [htop]; exact s.menu_top_setLink _ k
  have h₃ : s₃.nextOf = next₂ := by
    rw [hs₃, Status.nextOf_setLink, Status.nextOf_setNext, hnext₂, hn₂, Status.link, ht₂]
    exact congrArg (fun n => k'.setNext (some m) (Function.update next₁ m (k'.get top₁ n))) hn₂
  have hl₃ : s₃.lastOf = last₁ := by
    rw [hs₃, Status.lastOf_setLink, Status.lastOf_setNext, hl₂]
  have h₄ : s₄.nextOf = next₂ := by rw [hs₄, Status.nextOf_setLast, h₃]
  refine ⟨s₄.setLast b (some m), ?_, ?_, ?_, ?_⟩
  · have e₁ : (s₁.menus m).next = some a := (congrFun h₁ m).trans ha
    have e₃ : (s₃.menus m).next = some b := (congrFun h₃ m).trans hb
    have e₄ : (s₄.menus m).next = some b := (congrFun h₄ m).trans hb
    rw [moveMenu, hm]
    dsimp only
    split
    · next heq => exact absurd (heq.symm.trans e₁) nofun
    next a' heq =>
      obtain rfl : a' = a := Option.some.inj (heq.symm.trans e₁)
      split
      · next heq => exact absurd (heq.symm.trans e₃) nofun
      next b' heq =>
        obtain rfl : b' = b := Option.some.inj (heq.symm.trans e₃)
        split
        · next heq => exact absurd (heq.symm.trans e₄) nofun
        next c heq =>
          obtain rfl : c = b' := Option.some.inj (heq.symm.trans e₄)
          rfl
  · rw [Status.nextOf_setLast, h₄]
  · rw [Status.lastOf_setLast, hs₄, Status.lastOf_setLast, hl₃]
  · exact (Status.menu_top_setLink ..).trans (congrArg _ ht₂)

/-- Other menus are in between. -/
theorem moveMenu_apart {l₁ q : List ℕ} {rom r : ℕ}
    (h : Dll.Linked s.nextOf s.lastOf s.menu_top (l₁ ++ rom :: (q ++ [r]))) (hq : q ≠ []) :
    ∃ s', moveMenu (Dll.behind l₁) (Dll.behind (l₁ ++ rom :: q)) s = some s' ∧
      Dll.Linked s'.nextOf s'.lastOf s'.menu_top (l₁ ++ q ++ [rom, r]) := by
  obtain ⟨x, q, rfl⟩ := List.exists_cons_of_ne_nil hq
  have hnext : s.nextOf rom = some x := h.node.2
  rw [List.cons_append] at h
  have h₁ := h.unlink
  rw [← List.cons_append, ← List.append_assoc] at h₁
  have hrom : rom ∉ l₁ ++ x :: q ++ [r] := by
    intro hm
    rw [List.append_assoc, List.cons_append] at hm
    exact (List.nodup_cons.mp (List.nodup_middle.mp h.nodup)).1 hm
  have hfront : rom ∉ l₁ ++ x :: q := fun hm => hrom (List.mem_append_left _ hm)
  have hbehind : Dll.behind (l₁ ++ rom :: x :: q) = Dll.behind (l₁ ++ x :: q) := by
    rw [Dll.behind_append l₁ (List.cons_ne_nil _ _), Dll.behind_append l₁ (List.cons_ne_nil _ _)]
    exact Dll.behind_append [rom] (List.cons_ne_nil _ _)
  have hget := h₁.get_behind
  obtain ⟨s', hmove, hn, hl, ht⟩ := moveMenu_links (Dll.behind l₁)
    (Dll.behind (l₁ ++ rom :: x :: q)) r h.get_behind rfl rfl
    ((Dll.setNext_behind_of_notMem (fun hm => hfront (List.mem_append_left _ hm)) ..).trans hnext) rfl
    rfl (by
      rw [hnext, hbehind, hget, Dll.setNext_behind_of_notMem hfront, Function.update_self]
      rfl)
  refine ⟨s', hmove, ?_⟩
  rw [hn, hl, ht, hnext, hbehind, hget]
  exact h₁.insert hrom

/-- The menu is the one in front already: it comes to be its own neighbour, and is in the list no
    more. -/
theorem moveMenu_adjacent {l₁ : List ℕ} {rom r : ℕ}
    (h : Dll.Linked s.nextOf s.lastOf s.menu_top (l₁ ++ [rom, r])) :
    ∃ s', moveMenu (Dll.behind l₁) (.next rom) s = some s' ∧
      Dll.Linked s'.nextOf s'.lastOf s'.menu_top (l₁ ++ [r]) := by
  have hnext : s.nextOf rom = some r := h.node.2
  have h₁ := h.unlink
  have hrom : rom ∉ l₁ ++ [r] := (List.nodup_cons.mp (List.nodup_middle.mp h.nodup)).1
  obtain ⟨s', hmove, hn, hl, ht⟩ := moveMenu_links (Dll.behind l₁) (.next rom) rom
    h.get_behind rfl rfl
    ((Dll.setNext_behind_of_notMem (fun hm => hrom (List.mem_append_left _ hm)) ..).trans hnext) rfl
    rfl (Function.update_self ..)
  refine ⟨s', hmove, ?_⟩
  rw [hn, hl, ht, hnext]
  refine h₁.congr fun c hc => ?_
  have hne : c ≠ rom := fun he => hrom (he ▸ hc)
  exact ⟨(Function.update_of_ne hne ..).trans (Function.update_of_ne hne ..),
    (Function.update_of_ne hne ..).trans (Function.update_of_ne hne ..)⟩

/-! ### What becomes of the menus -/

/-- Behind `s` the menus of `l` and the "Replay Menu" are linked both ways, each of them once, and the
    last menu of ROMs is right in front of the "Replay Menu". -/
def Rearranged (s s' : Status) (l : List ℕ) (replay : ℕ) : Prop :=
  ∃ l', MenuLinks s' l' ∧ l'.Perm (l ++ [replay]) ∧
    ∀ rom, s.lastRoms l = some rom → ∃ l₁ l₂, l' = l₁ ++ rom :: replay :: l₂

theorem MenuList.length_le (h : MenuList s l) : l.length ≤ s.blocks := by
  have hsub : l ⊆ List.range s.blocks := fun m hm => List.mem_range.mpr (h.old m hm)
  have hle := (List.subperm_of_subset h.linked.nodup hsub).length_le
  rwa [List.length_range] at hle

/-- A list up to the last element that passes a test. -/
theorem split_last (p : ℕ → Bool) : ∀ l : List ℕ, (∀ m ∈ l, p m = false) ∨
    ∃ l₁ a l₂, l = l₁ ++ a :: l₂ ∧ p a = true ∧ ∀ m ∈ l₂, p m = false
  | [] => .inl fun _ h => absurd h List.not_mem_nil
  | m :: l => by
    rcases split_last p l with hl | ⟨l₁, a, l₂, rfl, ha, hl₂⟩
    · cases hm : p m with
      | false => exact .inl (List.forall_mem_cons.mpr ⟨hm, hl⟩)
      | true => exact .inr ⟨[], m, l, rfl, hm, hl⟩
    · exact .inr ⟨m :: l₁, a, l₂, rfl, ha, hl₂⟩

theorem lastRoms_none (h : ∀ m ∈ l, s.titled "ROMs" m = false) : s.lastRoms l = none := by
  rw [Status.lastRoms, List.filter_eq_nil_iff.mpr fun m hm => by simp [h m hm]]
  rfl

theorem lastRoms_append {l₁ l₂ : List ℕ} {a : ℕ} (ha : s.titled "ROMs" a = true)
    (h : ∀ m ∈ l₂, s.titled "ROMs" m = false) : s.lastRoms (l₁ ++ a :: l₂) = some a := by
  have hnone : l₂.filter (s.titled "ROMs") = [] :=
    List.filter_eq_nil_iff.mpr fun m hm => by simp [h m hm]
  rw [Status.lastRoms, List.filter_append, List.filter_cons_of_pos ha, hnone, List.getLast?_concat]

theorem relink_finds {r : ℕ} (h : MenuList s (l ++ [r]))
    (hreplay : s.titled "Replay Menu" r = true) :
    findLinks s (s.blocks + 1) .top none none
      = some (lastLink (s.titled "ROMs") [] (l ++ [r]) none, some (Dll.behind l)) := by
  have hfuel : (l ++ [r]).length < s.blocks + 1 := Nat.lt_succ_of_le h.length_le
  have hfind := @findLinks_eq s (l ++ [r]) [] (s.blocks + 1) none none h.linked hfuel
  rw [lastLink_append hreplay fun _ hm => absurd hm List.not_mem_nil, List.nil_append] at hfind
  exact hfind

/-- The menus in front of the "Replay Menu" come as they are, with the last menu of ROMs behind the
    others, unless it was the last of all menus. -/
theorem relink_rearranges {r : ℕ} (h : MenuList s (l ++ [r]))
    (hreplay : s.titled "Replay Menu" r = true) (hr : s.titled "ROMs" r = false) :
    ∃ s', relink s = some s' ∧
      (Rearranged s s' l r ↔ ∀ m, l.getLast? = some m → s.titled "ROMs" m = false) := by
  have hfind := relink_finds h hreplay
  rcases split_last (s.titled "ROMs") l with hnone | ⟨l₁, rom, q, rfl, hrom, hq⟩
  · -- there is no menu of ROMs
    have hall : ∀ m ∈ l ++ [r], s.titled "ROMs" m = false := by
      intro m hm
      rcases List.mem_append.mp hm with hm | hm
      · exact hnone m hm
      · exact List.mem_singleton.mp hm ▸ hr
    rw [lastLink_none hall] at hfind
    refine ⟨s, by rw [relink, hfind], fun _ m hm => hnone m (List.mem_of_getLast? hm),
      fun _ => ⟨l ++ [r], h.links, List.Perm.refl _, fun rom hrom => ?_⟩⟩
    rw [lastRoms_none hnone] at hrom
    cases hrom
  have hq' : ∀ m ∈ q ++ [r], s.titled "ROMs" m = false := by
    intro m hm
    rcases List.mem_append.mp hm with hm | hm
    · exact hq m hm
    · exact List.mem_singleton.mp hm ▸ hr
  rw [List.append_assoc, List.cons_append, lastLink_append hrom hq', List.nil_append] at hfind
  have hlinks := h.links
  rw [List.append_assoc, List.cons_append] at hlinks
  have hrelink : relink s = moveMenu (Dll.behind l₁) (Dll.behind (l₁ ++ rom :: q)) s := by
    rw [relink, hfind]
  rcases List.eq_nil_or_concat' q with rfl | ⟨q, last, rfl⟩
  · -- it is in front of the "Replay Menu" already
    obtain ⟨s', hmove, hs'⟩ := moveMenu_adjacent hlinks
    rw [Dll.behind_snoc] at hrelink
    refine ⟨s', hrelink.trans hmove, ?_, fun hlast => ?_⟩
    · rintro ⟨l', hl', hperm, -⟩
      rw [hl'.forward.unique hs'.forward] at hperm
      have hlen := hperm.length_eq
      simp at hlen
    · have hbad := hlast rom List.getLast?_concat
      rw [hrom] at hbad
      cases hbad
  · obtain ⟨s', hmove, hs'⟩ := moveMenu_apart hlinks (by simp)
    refine ⟨s', hrelink.trans hmove, fun _ m hm => hq m ?_, fun _ => ⟨_, hs', ?_, fun m hm => ?_⟩⟩
    · rw [List.append_cons, ← List.append_assoc, List.getLast?_concat] at hm
      exact Option.some.inj hm ▸ List.mem_append_right _ (List.mem_singleton_self _)
    · have hperm := ((List.perm_append_singleton rom (q ++ [last])).append_left l₁).append_right [r]
      rw [← List.append_assoc, List.append_assoc] at hperm
      exact hperm
    · rw [lastRoms_append hrom hq] at hm
      exact ⟨l₁ ++ (q ++ [last]), [], by rw [Option.some.inj hm]⟩

/-- `CFG_add_default` behind any file: the menus are all there, in order, exactly when the last of them
    is not titled "ROMs" and the strings of the targets fit. -/
theorem addDefault_rearranges_iff {ds rest : List Directive} {blocks : ℕ} {records : Status}
    (hg : Grants malloc) (hrun : run malloc ds (start blocks records) = some (rest, s))
    (targets : List Target) : ∃ l, MenuLinks s l ∧
      ((∃ s', addDefault malloc targets s = some s' ∧ Rearranged s s' l s.blocks) ↔
        (∀ t ∈ targets, t.Fits) ∧ ∀ m, l.getLast? = some m → s.titled "ROMs" m = false) := by
  obtain ⟨l, h⟩ := run_menuList (start_menuList blocks records) hrun
  refine ⟨l, h.links, ?_⟩
  by_cases hfits : ∀ t ∈ targets, t.Fits
  · obtain ⟨s₁, hadd, h₁, hreplay, hr, htitles⟩ := addReplayMenu_menuList hg h hfits
    obtain ⟨s', hrelink, hiff⟩ := relink_rearranges h₁ hreplay hr
    have hroms : s₁.lastRoms l = s.lastRoms l :=
      congrArg List.getLast? (List.filter_congr fun m hm => htitles "ROMs" m hm)
    have hall : (∀ m, l.getLast? = some m → s₁.titled "ROMs" m = false) ↔
        ∀ m, l.getLast? = some m → s.titled "ROMs" m = false := by
      refine forall_congr' fun m => forall_congr' fun hm => ?_
      rw [htitles "ROMs" m (List.mem_of_getLast? hm)]
    rw [Rearranged, hroms, hall] at hiff
    have hdefault : addDefault malloc targets s = some s' := by
      rw [addDefault, hadd, Option.bind_some, hrelink]
    refine ⟨?_, fun hl => ⟨s', hdefault, hiff.mpr hl.2⟩⟩
    rintro ⟨s'', hs'', hre⟩
    rw [hdefault] at hs''
    exact ⟨hfits, hiff.mp (Option.some.inj hs'' ▸ hre)⟩
  · refine ⟨?_, fun hl => absurd hl.1 hfits⟩
    rintro ⟨s', hs', -⟩
    obtain ⟨s₁, hadd, -⟩ := Option.bind_eq_some_iff.mp hs'
    exact absurd (addReplayMenu_fits hadd) hfits

theorem addDefault_rearranges_video : ∃ rest s,
    run zeroed [.title [value "ROMs" 0], .title [value "Video" 0]] (start 0 powerUp)
      = some (rest, s) ∧ ∃ l, MenuLinks s l ∧
      ((∃ s', addDefault zeroed [] s = some s' ∧ Rearranged s s' l s.blocks) ↔
        (∀ t ∈ ([] : List Target), t.Fits) ∧
          ∀ m, l.getLast? = some m → s.titled "ROMs" m = false) :=
  let ⟨rest, s, hrun⟩ : ∃ rest s, run zeroed [.title [value "ROMs" 0], .title [value "Video" 0]]
    (start 0 powerUp) = some (rest, s) := ⟨_, _, rfl⟩
  ⟨rest, s, hrun, addDefault_rearranges_iff zeroed_grants hrun []⟩

/-- A file that ends with a ROM: behind `CFG_add_default` its menu is not in the list. -/
theorem roms_dropped : ∃ s s',
    run zeroed [.rom true [value "kick.rom" 0, value "0x80000" 0x80000] (.done 0)] (start 0 powerUp)
      = some ([], s) ∧ MenuLinks s [0] ∧ s.lastRoms [0] = some 0 ∧
    addDefault zeroed [] s = some s' ∧ ¬ Rearranged s s' [0] s.blocks := by
  refine ⟨_, _, rfl, ⟨rfl, ⟨rfl, rfl, trivial⟩, List.nodup_singleton 0⟩, rfl, rfl, ?_⟩
  rintro ⟨l', hl', hperm, -⟩
  have hlen : l'.length = 2 := hperm.length_eq
  have hthree : l' = [3] := hl'.forward.unique (.cons .nil)
  rw [hthree] at hlen
  cases hlen

end Config
