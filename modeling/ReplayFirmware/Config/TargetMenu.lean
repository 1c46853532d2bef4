import ReplayFirmware.Lib.Overlay
import ReplayFirmware.Config.Relink
import ReplayFirmware.Config.UpdateBits

/-! What the "Replay Menu" shows. Its items are read through the links, from the menu on: each with its
    name and the names of its options. Behind four items of its own come the targets, with the file as
    the first option and the directory as the second. -/

namespace Config
open Overlay

variable {malloc : Malloc} {s s' : Status} {l : List ℕ}

/-! ### What is shown -/

/-- The options from a pointer on have these names. -/
def OptionsNamed (s : Status) : Ptr → List (List UInt8) → Prop
  | p, [] => p = none
  | p, name :: names => ∃ o < s.blocks, p = some o ∧
      (s.options o).option_name.str maxOptionString = name ∧
      OptionsNamed s (s.options o).next names

/-- An item has the name, and the file and the directory as its options. -/
structure ItemShows (s : Status) (i : ℕ) (t : Target) : Prop where
  name : (s.items i).item_name.str maxItemString = t.name
  options : OptionsNamed s (s.items i).option_list (t.file :: t.dir.toList)

/-- The items from a pointer on. -/
def ItemsShow (s : Status) : Ptr → List Target → Prop
  | p, [] => p = none
  | p, t :: ts => ∃ i, p = some i ∧ ItemShows s i t ∧ ItemsShow s (s.items i).next ts

/-- The items that the "Replay Menu" always has, each with one option that has no name. -/
def ownItems : List Target :=
  ["Load Target", "Reset Target", "Reboot Board", "SDCard over USB"].map fun name =>
    ⟨chars name, none, []⟩

/-- The "Replay Menu" shows these targets behind its own items. -/
def ReplayShows (s : Status) (replay : ℕ) (ts : List Target) : Prop :=
  ItemsShow s (s.menus replay).item_list (ownItems ++ ts)

theorem OptionsNamed.unique : ∀ {p : Ptr} {ns ns' : List (List UInt8)}, OptionsNamed s p ns →
    OptionsNamed s p ns' → ns = ns'
  | _, [], [], _, _ => rfl
  | _, [], _ :: _, h, ⟨_, _, hp, _⟩ => by
    rw [show _ = none from h] at hp
    cases hp
  | _, _ :: _, [], ⟨_, _, hp, _⟩, h => by
    rw [show _ = none from h] at hp
    cases hp
  | _, _ :: _, _ :: _, ⟨_, _, hp, hname, h⟩, ⟨_, _, hp', hname', h'⟩ => by
    obtain rfl := Option.some.inj (hp.symm.trans hp')
    rw [← hname, ← hname', h.unique h']

theorem ItemShows.unique {i : ℕ} {t t' : Target} (h : ItemShows s i t) (h' : ItemShows s i t') :
    t = t' := by
  obtain ⟨hfile, hdir⟩ := List.cons.inj (h.options.unique h'.options)
  obtain ⟨name, dir, file⟩ := t
  obtain ⟨name', dir', file'⟩ := t'
  have hdir' : dir = dir' := by
    cases dir <;> cases dir' <;> simp_all
  rw [show name = name' from h.name.symm.trans h'.name, hdir', show file = file' from hfile]

theorem ItemsShow.unique : ∀ {p : Ptr} {ts ts' : List Target}, ItemsShow s p ts →
    ItemsShow s p ts' → ts = ts'
  | _, [], [], _, _ => rfl
  | _, [], _ :: _, h, ⟨_, hp, _⟩ => by
    rw [show _ = none from h] at hp
    cases hp
  | _, _ :: _, [], ⟨_, hp, _⟩, h => by
    rw [show _ = none from h] at hp
    cases hp
  | _, _ :: _, _ :: _, ⟨_, hp, hshow, h⟩, ⟨_, hp', hshow', h'⟩ => by
    obtain rfl := Option.some.inj (hp.symm.trans hp')
    rw [hshow.unique hshow', h.unique h']

theorem ReplayShows.unique {replay : ℕ} {ts ts' : List Target} (h : ReplayShows s replay ts)
    (h' : ReplayShows s replay ts') : ts = ts' := List.append_cancel_left (ItemsShow.unique h h')

/-! ### Strings -/

/-- The strings of a target are C strings. -/
structure Target.Strings (t : Target) : Prop where
  name : 0 ∉ t.name
  file : 0 ∉ t.file
  dir : ∀ d ∈ t.dir, 0 ∉ d

theorem strcpy_reads (a : Chars) {src : List UInt8} {n : ℕ} (h : src.length < n) (h0 : 0 ∉ src) :
    (strcpy a src).str n = src := by
  refine (textOf_eq_iff h0 (by simpa using h)).mpr fun i hi => ?_
  have hlt : i < (src ++ [0]).length := by
    rw [List.length_append]
    exact hi
  rw [List.getElem?_map, List.getElem?_range (by omega), Option.map_some, strcpy,
    List.getD_eq_getElem?_getD, List.getElem?_eq_getElem hlt, Option.getD_some]

/-- A string that is copied into an array is read there. -/
theorem strcpyTo_reads {a b : Chars} {src : List UInt8} {n : ℕ} (h : strcpyTo n a src = some b)
    (h0 : 0 ∉ src) : b.str n = src := by
  have hlt := strcpyTo_lt h
  rw [strcpyTo, if_pos hlt] at h
  rw [← Option.some.inj h, strcpy_reads a hlt h0]

/-! ### An item is added -/

/-- The next block is the current item, and shows `t`; older options are as they were. -/
structure NewItem (s s' : Status) (t : Target) : Prop where
  menu_act : s'.menu_act = s.menu_act
  options : ∀ o < s.blocks, s'.options o = s.options o
  blocks : s.blocks < s'.blocks
  current : s'.menu_item_act = some s.blocks
  shows : ItemShows s' s.blocks t
  next : (s'.items s.blocks).next = none

/-- What `CFG_alloc_menuitem_and_set_active` does, however it links the item. -/
structure AllocatedItem (s s' : Status) : Prop where
  menu_act : s'.menu_act = s.menu_act
  options : s'.options = s.options
  blocks : s'.blocks = s.blocks + 1
  current : s'.menu_item_act = some s.blocks
  item : ∃ raw last, s'.items s.blocks = newItem raw last

theorem allocItem_allocated (h : allocItem malloc s = some s') : AllocatedItem s s' := by
  rw [allocItem] at h
  split at h
  · split at h
    · rw [← Option.some.inj h]
      exact ⟨rfl, rfl, rfl, rfl, _, _, s.addItem_items_self _ _⟩
    · cases h
    · rw [← Option.some.inj h]
      exact ⟨rfl, rfl, rfl, rfl, _, _, s.firstItem_items_self _ _⟩
  · cases h

/-- An item that is filled in gets a name and one option, which has none. -/
structure FilledItem (s s' : Status) (i : ℕ) (name : List UInt8) : Prop where
  menu_act : s'.menu_act = s.menu_act
  menus : s'.menus = s.menus
  items : ∀ j ≠ i, s'.items j = s.items j
  options : ∀ o < s.blocks, s'.options o = s.options o
  blocks : s'.blocks = s.blocks + 1
  current : s'.menu_item_act = some i
  option : s'.item_opt_act = some s.blocks
  name : (s'.items i).item_name.str maxItemString = name
  list : (s'.items i).option_list = some s.blocks
  next : (s'.items i).next = (s.items i).next
  unnamed : (s'.options s.blocks).option_name.str maxOptionString = []
  single : (s'.options s.blocks).next = none

theorem addItem_filled {name action : List UInt8} (h : addItem malloc name action s = some s')
    (h0 : 0 ∉ name) : ∃ s₁, allocItem malloc s = some s₁ ∧ FilledItem s₁ s' s.blocks name := by
  rw [addItem] at h
  obtain ⟨s₁, halloc, h⟩ := Option.bind_eq_some_iff.mp h
  have h₁ := allocItem_allocated halloc
  rw [h₁.current] at h
  obtain ⟨item_name, hname, h⟩ := Option.bind_eq_some_iff.mp h
  refine ⟨s₁, halloc, ?_⟩
  set it : MenuItem := { s₁.items s.blocks with
    item_name := item_name, option_list := none, selected_option := none, conf_dynamic := 0
    conf_mask := 0, action_name := strcpy (s₁.items s.blocks).action_name action } with hit
  have hself : (s₁.setItem s.blocks it).items s.blocks = it := s₁.setItem_items_self _ it
  rw [allocOption, Status.setItem_menu_item_act, Status.setItem_blocks, h₁.current] at h
  split at h
  swap
  · cases h
  next raw i hraw hi =>
    obtain rfl : s.blocks = i := Option.some.inj hi
    rw [hself, hit] at h
    dsimp only at h
    rw [← Option.some.inj h]
    set s₂ := s₁.setItem s.blocks it with hs₂
    have hitem : ((s₂.firstOption s.blocks (newOption raw.option none)).items s.blocks)
        = { it with option_list := some s₁.blocks } := by
      rw [← hself]
      exact Function.update_self ..
    have hoption : (s₂.firstOption s.blocks (newOption raw.option none)).options s₁.blocks
        = newOption raw.option none := s₂.firstOption_options_self ..
    refine ⟨rfl, rfl, fun j hj => ?_, fun o ho => ?_, rfl, h₁.current, rfl, ?_, ?_, ?_, ?_, ?_⟩
    · exact (Function.update_of_ne hj ..).trans (s₁.setItem_items_of_ne _ it hj)
    · exact s₂.firstOption_options_of_ne _ _ (Nat.ne_of_lt ho)
    · rw [hitem]
      exact strcpyTo_reads hname h0
    · rw [hitem]
    · rw [hitem]
    · rw [hoption]
      exact cleared_str _ (by decide)
    · rw [hoption]
      rfl

/-- The next block is allocated as an item, and then shows `t`; no other item and no menu changes. -/
def Adds (malloc : Malloc) (s s' : Status) (t : Target) : Prop :=
  ∃ s₁, allocItem malloc s = some s₁ ∧ NewItem s s' t ∧ s'.menus = s₁.menus ∧
    ∀ j ≠ s.blocks, s'.items j = s₁.items j

theorem addItem_adds {name action : List UInt8} (h : addItem malloc name action s = some s')
    (h0 : 0 ∉ name) : Adds malloc s s' ⟨name, none, []⟩ := by
  obtain ⟨s₁, halloc, hfill⟩ := addItem_filled h h0
  have h₁ := allocItem_allocated halloc
  have hb₁ : s₁.blocks = s.blocks + 1 := h₁.blocks
  have hb : s'.blocks = s₁.blocks + 1 := hfill.blocks
  refine ⟨s₁, halloc, ⟨hfill.menu_act.trans h₁.menu_act, fun o ho => ?_, by omega, hfill.current,
    ⟨hfill.name, s₁.blocks, by omega, hfill.list, hfill.unnamed, hfill.single⟩, ?_⟩,
    hfill.menus, hfill.items⟩
  · rw [hfill.options o (by omega), h₁.options]
  · obtain ⟨raw, last, hitem⟩ := h₁.item
    rw [hfill.next, hitem]
    rfl

theorem nameOption_named {name : List UInt8} {o : ℕ} (h : nameOption name s = some s')
    (h0 : 0 ∉ name) (ho : s.item_opt_act = some o) : ∃ a : Chars, a.str maxOptionString = name ∧
      s' = s.setOption o { s.options o with option_name := a } := by
  rw [nameOption, ho] at h
  obtain ⟨a, ha, heq⟩ := Option.map_eq_some_iff.mp h
  exact ⟨a, strcpyTo_reads ha h0, heq.symm⟩

/-- The directory of a target is an option behind the option of its file. -/
theorem addDir_named {dir : List UInt8} {i o : ℕ}
    (h : ((allocOption malloc s).bind cutOption).bind (nameOption dir) = some s') (h0 : 0 ∉ dir)
    (hi : s.menu_item_act = some i) (ho : s.item_opt_act = some o)
    (hlist : (s.items i).option_list = some o) (hlt : o < s.blocks) :
    s'.menu_act = s.menu_act ∧ s'.menu_item_act = some i ∧ s'.menus = s.menus ∧ s'.items = s.items ∧
      (∀ o' < s.blocks, o' ≠ o → s'.options o' = s.options o') ∧ s'.blocks = s.blocks + 1 ∧
      s'.options o = { s.options o with next := some s.blocks } ∧
      (s'.options s.blocks).option_name.str maxOptionString = dir ∧
      (s'.options s.blocks).next = none := by
  obtain ⟨s₂, hcut, hname⟩ := Option.bind_eq_some_iff.mp h
  obtain ⟨s₁, halloc, hcut⟩ := Option.bind_eq_some_iff.mp hcut
  rw [allocOption, hi] at halloc
  split at halloc
  swap
  · cases halloc
  next raw i' hraw hi' =>
    obtain rfl : i = i' := Option.some.inj hi'
    simp only [hlist, ho] at halloc
    set r := newOption raw.option (some o) with hr
    obtain rfl := Option.some.inj halloc
    have hact : (s.addOption o r).item_opt_act = some s.blocks := rfl
    rw [cutOption, hact] at hcut
    set s₁ := s.addOption o r with hs₁
    obtain rfl := Option.some.inj hcut
    obtain ⟨a, ha, rfl⟩ := nameOption_named hname h0 hact
    have hne : ∀ o' < s.blocks, o' ≠ s.blocks := fun _ => Nat.ne_of_lt
    have hkeep : ∀ o' < s.blocks, s₁.options o'
        = Function.update s.options o { s.options o with next := some s.blocks } o' := fun o' ho' =>
      Function.update_of_ne (hne o' ho') ..
    refine ⟨rfl, hi, rfl, rfl, fun o' ho' hne' => ?_, rfl, ?_, ?_, ?_⟩
    · rw [Status.setOption_options_of_ne _ _ _ (hne o' ho'),
        Status.setOption_options_of_ne _ _ _ (hne o' ho'), hkeep o' ho', Function.update_of_ne hne']
    · rw [Status.setOption_options_of_ne _ _ _ (hne o hlt),
        Status.setOption_options_of_ne _ _ _ (hne o hlt), hkeep o hlt, Function.update_self]
    · rw [Status.setOption_options_self]
      exact ha
    · rw [Status.setOption_options_self, Status.setOption_options_self, hs₁,
        Status.addOption_options_self]
      rfl

theorem addTarget_adds {t : Target} (h : addTarget malloc t s = some s') (ht : t.Strings) :
    Adds malloc s s' t := by
  obtain ⟨s₂, hadd, h⟩ := Option.bind_eq_some_iff.mp h
  obtain ⟨s₃, hfile, h⟩ := Option.bind_eq_some_iff.mp h
  obtain ⟨s₁, halloc, hfill⟩ := addItem_filled hadd ht.name
  obtain ⟨raw, last, hitem⟩ := (allocItem_allocated halloc).item
  have h₁ := allocItem_allocated halloc
  have hb : s₂.blocks = s₁.blocks + 1 := hfill.blocks
  have hb₁ : s₁.blocks = s.blocks + 1 := h₁.blocks
  have hnext : (s₂.items s.blocks).next = none := by
    rw [hfill.next, hitem]
    rfl
  obtain ⟨a, ha, rfl⟩ := nameOption_named hfile ht.file hfill.option
  set s₃ := s₂.setOption s₁.blocks { s₂.options s₁.blocks with option_name := a } with hs₃
  have hself : s₃.options s₁.blocks = { s₂.options s₁.blocks with option_name := a } :=
    s₂.setOption_options_self _ _
  have hold : ∀ o < s.blocks, s₃.options o = s.options o := fun o ho => by
    rw [hs₃, Status.setOption_options_of_ne _ _ _ (by omega), hfill.options o (by omega), h₁.options]
  cases hdir : t.dir with
  | none =>
    rw [hdir] at h
    obtain rfl := Option.some.inj h
    refine ⟨s₁, halloc, ⟨hfill.menu_act.trans h₁.menu_act, hold, ?_, hfill.current,
      ⟨hfill.name, ?_⟩, hnext⟩, hfill.menus, hfill.items⟩
    · exact (show s.blocks < s₂.blocks by omega)
    · rw [hdir]
      refine ⟨s₁.blocks, show s₁.blocks < s₂.blocks by omega, hfill.list, ?_, ?_⟩
      · rw [hself]
        exact ha
      · rw [hself]
        exact hfill.single
  | some dir =>
    rw [hdir] at h
    obtain ⟨hmenu, hcur, hmenus, hitems, hopts, hblocks, hfirst, hdirname, hsingle⟩ :=
      addDir_named h (ht.dir dir hdir) (show s₃.menu_item_act = some s.blocks from hfill.current)
        (show s₃.item_opt_act = some s₁.blocks from hfill.option) hfill.list
        (show s₁.blocks < s₂.blocks by omega)
    have hb₃ : s₃.blocks = s₁.blocks + 1 := hb
    refine ⟨s₁, halloc, ⟨hmenu.trans (hfill.menu_act.trans h₁.menu_act), fun o ho => ?_, by omega,
      hcur, ⟨?_, ?_⟩, ?_⟩, hmenus.trans hfill.menus, fun j hj => ?_⟩
    · rw [hopts o (by omega) (by omega), hold o ho]
    · rw [hitems]
      exact hfill.name
    · rw [hdir, hitems]
      refine ⟨s₁.blocks, by omega, hfill.list, ?_, s₃.blocks, by omega, ?_, hdirname, hsingle⟩
      · rw [hfirst, hself]
        exact ha
      · rw [hfirst]
    · rw [hitems]
      exact hnext
    · rw [hitems]
      exact hfill.items j hj

/-! ### The items of the menu -/

/-- Items are added one after the other. -/
inductive AddsAll (malloc : Malloc) : Status → List Target → Status → Prop
  | nil (s : Status) : AddsAll malloc s [] s
  | cons {s s₁ s' : Status} {t : Target} {ts : List Target} : Adds malloc s s₁ t →
      AddsAll malloc s₁ ts s' → AddsAll malloc s (t :: ts) s'

theorem AddsAll.append {s₁ : Status} {ts ts' : List Target} (h : AddsAll malloc s ts s₁)
    (h' : AddsAll malloc s₁ ts' s') : AddsAll malloc s (ts ++ ts') s' := by
  induction h with
  | nil => exact h'
  | cons hadd _ ih => exact .cons hadd (ih h')

/-- What is older than a status is kept, but for the link behind the item `act`. -/
structure Extends (s s' : Status) (act : ℕ) : Prop where
  menus : s'.menus = s.menus
  items : ∀ j < s.blocks, j ≠ act → s'.items j = s.items j
  act : ∃ p, s'.items act = { s.items act with next := p }
  options : ∀ o < s.blocks, s'.options o = s.options o
  blocks : s.blocks ≤ s'.blocks

theorem OptionsNamed.congr (ho : ∀ o < s.blocks, s'.options o = s.options o)
    (hb : s.blocks ≤ s'.blocks) : ∀ {p : Ptr} {ns : List (List UInt8)}, OptionsNamed s p ns →
    OptionsNamed s' p ns
  | _, [], h => h
  | _, _ :: _, ⟨o, hlt, hp, hname, h⟩ => by
    refine ⟨o, Nat.lt_of_lt_of_le hlt hb, hp, ?_, ?_⟩
    · rw [ho o hlt]
      exact hname
    · rw [ho o hlt]
      exact h.congr ho hb

/-- An item keeps what it shows, whatever is linked behind it. -/
theorem ItemShows.extends {i act : ℕ} {t : Target} (h : ItemShows s i t) (he : Extends s s' act)
    (hi : i < s.blocks) : ItemShows s' i t := by
  obtain ⟨name, options⟩ := h
  have hsame : (s'.items i).item_name = (s.items i).item_name ∧
      (s'.items i).option_list = (s.items i).option_list := by
    by_cases hact : i = act
    · obtain ⟨p, hp⟩ := he.act
      rw [hact, hp]
      exact ⟨rfl, rfl⟩
    · rw [he.items i hi hact]
      exact ⟨rfl, rfl⟩
  exact ⟨by rw [hsame.1]; exact name, by rw [hsame.2]; exact options.congr he.options he.blocks⟩

/-- An item that is added behind another one is linked to it. -/
theorem Adds.extends {t : Target} {m act top : ℕ} (h : Adds malloc s s' t)
    (hm : s.menu_act = some m) (hlist : (s.menus m).item_list = some top)
    (hact : s.menu_item_act = some act) (hlt : act < s.blocks) :
    Extends s s' act ∧ (s'.items act).next = some s.blocks := by
  obtain ⟨s₁, halloc, hnew, hmenus, hitems⟩ := h
  rw [allocItem, hm, hact] at halloc
  split at halloc
  swap
  · cases halloc
  next raw m' hraw hm' =>
    obtain rfl : m = m' := Option.some.inj hm'
    simp only [hlist] at halloc
    set r := newItem raw.item (some act)
    obtain rfl := Option.some.inj halloc
    have hkeep : ∀ j < s.blocks, s'.items j
        = Function.update s.items act { s.items act with next := some s.blocks } j := fun j hj => by
      rw [hitems j (Nat.ne_of_lt hj)]
      exact Function.update_of_ne (Nat.ne_of_lt hj) ..
    have hself : s'.items act = { s.items act with next := some s.blocks } := by
      rw [hkeep act hlt, Function.update_self]
    refine ⟨⟨hmenus, fun j hj hne => ?_, ⟨_, hself⟩, hnew.options, Nat.le_of_lt hnew.blocks⟩, ?_⟩
    · rw [hkeep j hj, Function.update_of_ne hne]
    · rw [hself]

/-- An item that is added to a menu without items is linked to the menu. -/
theorem Adds.first {t : Target} {m : ℕ} (h : Adds malloc s s' t) (hm : s.menu_act = some m)
    (hlist : (s.menus m).item_list = none) : (s'.menus m).item_list = some s.blocks := by
  obtain ⟨s₁, halloc, hnew, hmenus, -⟩ := h
  rw [allocItem, hm] at halloc
  split at halloc
  swap
  · cases halloc
  next raw m' hraw hm' =>
    obtain rfl : m = m' := Option.some.inj hm'
    simp only [hlist] at halloc
    have hself : (s.firstItem m (newItem raw.item none)).menus m
        = { s.menus m with item_list := some s.blocks } := Function.update_self ..
    obtain rfl := Option.some.inj halloc
    rw [hmenus, hself]

/-- The items that are added are the ones behind the item that was current. -/
theorem AddsAll.shows {ts : List Target} (h : AddsAll malloc s ts s') : ∀ {m act top : ℕ},
    s.menu_act = some m → (s.menus m).item_list = some top → s.menu_item_act = some act →
    act < s.blocks → (s.items act).next = none →
    ItemsShow s' (s'.items act).next ts ∧ Extends s s' act := by
  induction h with
  | nil s =>
    exact fun _ _ _ _ hend => ⟨hend, ⟨rfl, fun _ _ _ => rfl, ⟨_, rfl⟩, fun _ _ => rfl, Nat.le_refl _⟩⟩
  | @cons s s₁ s' t ts hadd _ ih =>
    intro m act top hm hlist hact hlt hend
    obtain ⟨hext, hlink⟩ := hadd.extends hm hlist hact hlt
    obtain ⟨_, -, hnew, -, -⟩ := hadd
    obtain ⟨hshow, hext'⟩ := ih (hnew.menu_act.trans hm) (by rw [hext.menus]; exact hlist)
      hnew.current hnew.blocks hnew.next
    have hact' : s'.items act = s₁.items act :=
      hext'.items act (Nat.lt_trans hlt hnew.blocks) (Nat.ne_of_lt hlt)
    refine ⟨⟨s.blocks, by rw [hact']; exact hlink, hnew.shows.extends hext' hnew.blocks, hshow⟩, ?_⟩
    refine ⟨hext'.menus.trans hext.menus, fun j hj hne => ?_, ?_, fun o ho => ?_,
      Nat.le_trans hext.blocks hext'.blocks⟩
    · rw [hext'.items j (Nat.lt_trans hj hnew.blocks) (Nat.ne_of_lt hj), hext.items j hj hne]
    · rw [hact']
      exact hext.act
    · rw [hext'.options o (Nat.lt_trans ho hnew.blocks), hext.options o ho]

/-- A menu without items shows the items that are added to it. -/
theorem AddsAll.fill {t : Target} {ts : List Target} {m : ℕ} (h : AddsAll malloc s (t :: ts) s')
    (hm : s.menu_act = some m) (hlist : (s.menus m).item_list = none) :
    ItemsShow s' (s'.menus m).item_list (t :: ts) := by
  cases h with
  | @cons _ s₁ _ _ _ hadd hrest =>
    have hfirst := hadd.first hm hlist
    obtain ⟨_, -, hnew, -, -⟩ := hadd
    obtain ⟨hshow, hext⟩ := hrest.shows (hnew.menu_act.trans hm) hfirst hnew.current hnew.blocks
      hnew.next
    exact ⟨s.blocks, by rw [hext.menus]; exact hfirst, hnew.shows.extends hext hnew.blocks, hshow⟩

theorem addTargets_addsAll : ∀ {ts : List Target} {s : Status}, addTargets malloc ts s = some s' →
    (∀ t ∈ ts, t.Strings) → AddsAll malloc s ts s'
  | [], s, h, _ => Option.some.inj h ▸ .nil s
  | t :: ts, s, h, hts => by
    rw [List.forall_mem_cons] at hts
    obtain ⟨s₁, hadd, h⟩ := Option.bind_eq_some_iff.mp h
    exact .cons (addTarget_adds hadd hts.1) (addTargets_addsAll h hts.2)

/-- What `CFG_add_default` makes of the targets before it links the menus anew. -/
theorem addReplayMenu_shows {ts : List Target} (hl : MenuList s l)
    (h : addReplayMenu malloc ts s = some s') (hts : ∀ t ∈ ts, t.Strings) :
    ReplayShows s' s.blocks ts := by
  obtain ⟨s₀, hmenu, h⟩ := Option.bind_eq_some_iff.mp h
  obtain ⟨s₁, h₁, h⟩ := Option.bind_eq_some_iff.mp h
  obtain ⟨s₂, h₂, h⟩ := Option.bind_eq_some_iff.mp h
  obtain ⟨s₃, h₃, h⟩ := Option.bind_eq_some_iff.mp h
  obtain ⟨s₄, h₄, h⟩ := Option.bind_eq_some_iff.mp h
  obtain ⟨hl₀, hlist, -⟩ := hl.allocMenu hmenu
  have hact : s₀.menu_act = some s.blocks := hl₀.act.trans List.getLast?_concat
  exact AddsAll.fill (.cons (addItem_adds h₁ (by decide)) (.cons (addItem_adds h₂ (by decide))
    (.cons (addItem_adds h₃ (by decide)) (.cons (addItem_adds h₄ (by decide))
      (addTargets_addsAll h hts))))) hact hlist

/-! ### The menus are linked anew -/

/-- The items, the options and what menus have as items. -/
structure SameItems (s s' : Status) : Prop where
  items : s'.items = s.items
  options : s'.options = s.options
  lists : ∀ m, (s'.menus m).item_list = (s.menus m).item_list
  blocks : s'.blocks = s.blocks

theorem SameItems.refl (s : Status) : SameItems s s := ⟨rfl, rfl, fun _ => rfl, rfl⟩

theorem SameItems.trans {s₁ : Status} (h : SameItems s s₁) (h' : SameItems s₁ s') : SameItems s s' :=
  ⟨h'.items.trans h.items, h'.options.trans h.options, fun m => (h'.lists m).trans (h.lists m),
    h'.blocks.trans h.blocks⟩

theorem sameItems_setMenu {m : ℕ} {r : Menu} (hr : r.item_list = (s.menus m).item_list) :
    SameItems s (s.setMenu m r) := by
  refine ⟨rfl, rfl, fun c => ?_, rfl⟩
  by_cases hc : c = m
  · rw [hc, Status.setMenu_menus_self, hr]
  · rw [Status.setMenu_menus_of_ne _ _ _ hc]

theorem sameItems_setLink (k : Dll.Link ℕ) (p : Ptr) : SameItems s (s.setLink k p) := by
  cases k with
  | top => exact ⟨rfl, rfl, fun _ => rfl, rfl⟩
  | next m => exact sameItems_setMenu rfl

theorem moveMenu_sameItems {k k' : Dll.Link ℕ} (h : moveMenu k k' s = some s') : SameItems s s' := by
  have hlast : ∀ (s : Status) (m : ℕ) (p : Ptr), SameItems s (s.setLast m p) :=
    fun _ _ _ => sameItems_setMenu rfl
  have hnext : ∀ (s : Status) (m : ℕ) (p : Ptr), SameItems s (s.setNext m p) :=
    fun _ _ _ => sameItems_setMenu rfl
  rw [moveMenu] at h
  split at h
  · cases h
  dsimp only at h
  split at h
  · cases h
  split at h
  · cases h
  split at h
  · cases h
  rw [← Option.some.inj h]
  exact (((((sameItems_setLink _ _).trans (hlast _ _ _)).trans (hnext _ _ _)).trans
    (sameItems_setLink _ _)).trans (hlast _ _ _)).trans (hlast _ _ _)

theorem relink_sameItems (h : relink s = some s') : SameItems s s' := by
  rw [relink] at h
  split at h
  · cases h
  · exact moveMenu_sameItems h
  · exact Option.some.inj h ▸ .refl s

theorem OptionsNamed.same (hs : SameItems s s') {p : Ptr} {ns : List (List UInt8)}
    (h : OptionsNamed s p ns) : OptionsNamed s' p ns :=
  h.congr (fun o _ => congrFun hs.options o) (Nat.le_of_eq hs.blocks.symm)

theorem ItemsShow.same (hs : SameItems s s') : ∀ {p : Ptr} {ts : List Target}, ItemsShow s p ts →
    ItemsShow s' p ts
  | _, [], h => h
  | _, _ :: _, ⟨i, hp, ⟨hname, hoptions⟩, h⟩ => by
    refine ⟨i, hp, ⟨?_, ?_⟩, ?_⟩
    · rw [hs.items]
      exact hname
    · rw [hs.items]
      exact hoptions.same hs
    · rw [hs.items]
      exact h.same hs

/-- The "Replay Menu" of `CFG_add_default` shows the targets that it is made with. -/
theorem addDefault_shows {ts : List Target} (hl : MenuList s l)
    (h : addDefault malloc ts s = some s') (hts : ∀ t ∈ ts, t.Strings) :
    ReplayShows s' s.blocks ts := by
  obtain ⟨s₁, hadd, hrelink⟩ := Option.bind_eq_some_iff.mp h
  have hs := relink_sameItems hrelink
  rw [ReplayShows, hs.lists]
  exact (addReplayMenu_shows hl hadd hts).same hs

/-- `CFG_add_default` comes back exactly when all strings fit. -/
theorem addDefault_isSome_iff {ts : List Target} (hg : Grants malloc) (hl : MenuList s l) :
    (∃ s', addDefault malloc ts s = some s') ↔ ∀ t ∈ ts, t.Fits := by
  constructor
  · rintro ⟨s', h⟩
    obtain ⟨s₁, hadd, -⟩ := Option.bind_eq_some_iff.mp h
    exact addReplayMenu_fits hadd
  · intro hfits
    obtain ⟨s₁, hadd, h₁, hreplay, hroms, -⟩ := addReplayMenu_menuList hg hl hfits
    obtain ⟨s', hrelink, -⟩ := relink_rearranges h₁ hreplay hroms
    exact ⟨s', by rw [addDefault, hadd, Option.bind_some, hrelink]⟩

end Config
