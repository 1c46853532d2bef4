import ReplayFirmware.Config.Lines
import ReplayFirmware.Config.TargetMenu

/-! The strings of the menu, in their arrays.

    A string ends within its array when it was copied with room for its NUL. `strncpy` with the size of
    the array leaves no NUL behind a string that fills it. Whatever else the menu is built with leaves
    strings that end, and writes nothing behind an array. -/

namespace Config
open Ini

/-! ### Arrays -/

/-- There is a NUL in the first `n` characters. -/
def Chars.Ends (a : Chars) (n : ℕ) : Prop := ∃ i < n, a i = 0

/-- Nothing behind the first `n` characters is written. -/
def SameBeyond (n : ℕ) (a b : Chars) : Prop := ∀ j, n ≤ j → b j = a j

section
variable {a b c : Chars} {n : ℕ} {src : List UInt8}

theorem SameBeyond.trans (h : SameBeyond n a b) (h' : SameBeyond n b c) : SameBeyond n a c :=
  fun j hj => (h' j hj).trans (h j hj)

/-- `strncpy` leaves a NUL exactly when the string does not fill the array. -/
theorem strncpy_ends_iff (h0 : 0 ∉ src) : (strncpy a src n).Ends n ↔ src.length < n := by
  constructor
  · rintro ⟨i, hi, hzero⟩
    rw [strncpy, if_pos hi, List.getD_eq_getElem?_getD] at hzero
    by_contra hlen
    rw [List.getElem?_eq_getElem (by omega), Option.getD_some] at hzero
    exact h0 (hzero ▸ List.getElem_mem _)
  · intro hlen
    refine ⟨src.length, hlen, ?_⟩
    rw [strncpy, if_pos hlen, List.getD_eq_getElem?_getD, List.getElem?_eq_none (Nat.le_refl _)]
    rfl

theorem strncpy_beyond : SameBeyond n a (strncpy a src n) := fun _ hj => if_neg (Nat.not_lt.mpr hj)

theorem strcpy_ends (h : src.length < n) : (strcpy a src).Ends n := by
  refine ⟨src.length, h, ?_⟩
  rw [strcpy, List.getD_eq_getElem?_getD, List.getElem?_concat_length]
  rfl

theorem strcpy_beyond (h : src.length < n) : SameBeyond n a (strcpy a src) := by
  intro j hj
  rw [strcpy, List.getD_eq_getElem?_getD, List.getElem?_eq_none (by simp; omega)]
  rfl

theorem length_take_pred (hn : 0 < n) : (src.take (n - 1)).length < n := by
  rw [List.length_take]
  omega

theorem emptied_ends (hn : 0 < n) : Chars.Ends (Function.update a 0 0) n :=
  ⟨0, hn, Function.update_self ..⟩

theorem emptied_beyond (hn : 0 < n) : SameBeyond n a (Function.update a 0 0) :=
  fun _ hj => Function.update_of_ne (by omega) ..

end

/-! ### The records -/

/-- The arrays of a record. -/
inductive Field where | title | item | action | option
deriving DecidableEq

def Field.size : Field → ℕ
  | title => maxMenuString
  | item | action => maxItemString
  | option => maxOptionString

/-- The array of record `k`. -/
def Field.get (s : Status) (k : ℕ) : Field → Chars
  | title => (s.menus k).menu_title
  | item => (s.items k).item_name
  | action => (s.items k).action_name
  | option => (s.options k).option_name

/-- What the memory of a new record holds there. -/
def Field.raw (r : Raw) : Field → Chars
  | title => r.menu.menu_title
  | item => r.item.item_name
  | action => r.item.action_name
  | option => r.option.option_name

theorem Field.size_pos (f : Field) : 0 < f.size := by cases f <;> decide

/-- All strings end within their arrays. -/
def Terminated (s : Status) : Prop := ∀ (f : Field) (k : ℕ), (f.get s k).Ends f.size

/-- Nothing behind an array is written, in a record that was there or in the memory of a new one. -/
def InBounds (malloc : Malloc) (s s' : Status) : Prop :=
  ∀ (f : Field) (k : ℕ), SameBeyond f.size (f.get s k) (f.get s' k) ∨
    ∃ raw, malloc k = some raw ∧ SameBeyond f.size (f.raw raw) (f.get s' k)

/-- Each array is as it was, or its string ends and nothing behind it is written. -/
def Stores (malloc : Malloc) (s s' : Status) : Prop :=
  ∀ (f : Field) (k : ℕ), f.get s' k = f.get s k ∨ ((f.get s' k).Ends f.size ∧
    (SameBeyond f.size (f.get s k) (f.get s' k) ∨
      ∃ raw, malloc k = some raw ∧ SameBeyond f.size (f.raw raw) (f.get s' k)))

section
variable {malloc : Malloc} {s s' s'' : Status} {k : ℕ}

theorem Stores.refl (s : Status) : Stores malloc s s := fun _ _ => Or.inl rfl

theorem Stores.of_eq (h : ∀ (f : Field) (k : ℕ), f.get s' k = f.get s k) : Stores malloc s s' :=
  fun f k => Or.inl (h f k)

theorem Stores.trans (h : Stores malloc s s') (h' : Stores malloc s' s'') : Stores malloc s s'' := by
  intro f k
  rcases h' f k with heq | ⟨hends, hbeyond⟩
  · rw [heq]
    exact h f k
  · refine Or.inr ⟨hends, ?_⟩
    rcases hbeyond with hbeyond | hraw
    · rcases h f k with heq | ⟨-, hbefore | ⟨raw, hraw, hbefore⟩⟩
      · rw [heq] at hbeyond
        exact Or.inl hbeyond
      · exact Or.inl (hbefore.trans hbeyond)
      · exact Or.inr ⟨raw, hraw, hbefore.trans hbeyond⟩
    · exact Or.inr hraw

theorem Stores.terminated (h : Stores malloc s s') (ht : Terminated s) : Terminated s' := by
  intro f k
  rcases h f k with heq | ⟨hends, -⟩
  · rw [heq]
    exact ht f k
  · exact hends

theorem Stores.inBounds (h : Stores malloc s s') : InBounds malloc s s' := by
  intro f k
  rcases h f k with heq | ⟨-, hbeyond⟩
  · rw [heq]
    exact Or.inl fun _ _ => rfl
  · exact hbeyond

theorem InBounds.trans (h : InBounds malloc s s') (h' : InBounds malloc s' s'') :
    InBounds malloc s s'' := by
  intro f k
  rcases h' f k with hbeyond | hraw
  · rcases h f k with hbefore | ⟨raw, hraw, hbefore⟩
    · exact Or.inl (hbefore.trans hbeyond)
    · exact Or.inr ⟨raw, hraw, hbefore.trans hbeyond⟩
  · exact Or.inr hraw

/-! ### Allocations -/

/-- A record is changed, but not there. -/
theorem update_keep {α β : Type*} (g : α → β) {h : ℕ → α} {i : ℕ} {r : α} (hr : g r = g (h i)) (k : ℕ) :
    g (Function.update h i r k) = g (h k) := by
  rw [Function.update_apply]
  split
  · next hk => rw [hr, hk]
  · rfl

/-- A record is new, and another one is changed, but not there. -/
theorem update_new {α β : Type*} (g : α → β) {h h' : ℕ → α} (hh : ∀ k, g (h' k) = g (h k)) (b : ℕ)
    (r : α) (k : ℕ) : g (Function.update h' b r k) = if k = b then g r else g (h k) := by
  rw [Function.update_apply]
  split
  · rfl
  · exact hh k

/-- A new menu changes no array but its title. -/
theorem allocMenu_get {title : List UInt8} (h : allocMenu malloc title s = some s') :
    ∃ raw, malloc s.blocks = some raw ∧ ∀ (f : Field) (k : ℕ), f.get s' k =
      if f = .title ∧ k = s.blocks then strncpy raw.menu.menu_title title maxMenuString
      else f.get s k := by
  rw [allocMenu] at h
  split at h
  · cases h
  · next raw hraw =>
    refine ⟨raw, hraw, fun f k => ?_⟩
    split at h
    · cases h
      cases f with
      | title =>
        simp only [true_and]
        exact update_new Menu.menu_title (update_keep Menu.menu_title (by rfl)) s.blocks _ k
      | item => rfl
      | action => rfl
      | option => rfl
    · cases h
    · cases h
      cases f with
      | title =>
        simp only [true_and]
        exact update_new Menu.menu_title (fun _ => rfl) s.blocks _ k
      | item => rfl
      | action => rfl
      | option => rfl

/-- A new item changes no array but its own, which are empty. -/
theorem allocItem_get (h : allocItem malloc s = some s') :
    ∃ raw, malloc s.blocks = some raw ∧ ∀ (f : Field) (k : ℕ), f.get s' k =
      if (f = .item ∨ f = .action) ∧ k = s.blocks then Function.update (f.raw raw) 0 0
      else f.get s k := by
  rw [allocItem] at h
  split at h
  · next raw m hraw hm =>
    refine ⟨raw, hraw, fun f k => ?_⟩
    split at h
    · cases h
      cases f with
      | title => rfl
      | option => rfl
      | item =>
        simp only [true_or, true_and]
        exact update_new MenuItem.item_name (update_keep MenuItem.item_name (by rfl)) s.blocks _ k
      | action =>
        simp only [or_true, true_and]
        exact update_new MenuItem.action_name (update_keep MenuItem.action_name (by rfl)) s.blocks _ k
    · cases h
    · cases h
      cases f with
      | title => exact update_keep Menu.menu_title (by rfl) k
      | option => rfl
      | item =>
        simp only [true_or, true_and]
        exact update_new MenuItem.item_name (fun _ => rfl) s.blocks _ k
      | action =>
        simp only [or_true, true_and]
        exact update_new MenuItem.action_name (fun _ => rfl) s.blocks _ k
  · cases h

/-- A new option changes no array but its name, which is empty. -/
theorem allocOption_get (h : allocOption malloc s = some s') :
    ∃ raw, malloc s.blocks = some raw ∧ ∀ (f : Field) (k : ℕ), f.get s' k =
      if f = .option ∧ k = s.blocks then Function.update (f.raw raw) 0 0 else f.get s k := by
  rw [allocOption] at h
  split at h
  · next raw i hraw hi =>
    refine ⟨raw, hraw, fun f k => ?_⟩
    split at h
    · cases h
      cases f with
      | title => rfl
      | item => rfl
      | action => rfl
      | option =>
        simp only [true_and]
        exact update_new ItemOption.option_name (update_keep ItemOption.option_name (by rfl)) s.blocks _ k
    · cases h
    · cases h
      cases f with
      | title => rfl
      | item => exact update_keep MenuItem.item_name (by rfl) k
      | action => exact update_keep MenuItem.action_name (by rfl) k
      | option =>
        simp only [true_and]
        exact update_new ItemOption.option_name (fun _ => rfl) s.blocks _ k
  · cases h

theorem allocMenu_stores {title : List UInt8} (h : allocMenu malloc title s = some s')
    (h0 : 0 ∉ title) (hlen : title.length < maxMenuString) : Stores malloc s s' := by
  obtain ⟨raw, hraw, hget⟩ := allocMenu_get h
  intro f k
  rw [hget]
  split
  · next hnew =>
    obtain ⟨rfl, rfl⟩ := hnew
    exact Or.inr ⟨(strncpy_ends_iff h0).mpr hlen, Or.inr ⟨raw, hraw, strncpy_beyond⟩⟩
  · exact Or.inl rfl

theorem allocItem_stores (h : allocItem malloc s = some s') : Stores malloc s s' := by
  obtain ⟨raw, hraw, hget⟩ := allocItem_get h
  intro f k
  rw [hget]
  split
  · next hnew =>
    obtain ⟨-, rfl⟩ := hnew
    exact Or.inr ⟨emptied_ends f.size_pos, Or.inr ⟨raw, hraw, emptied_beyond f.size_pos⟩⟩
  · exact Or.inl rfl

theorem allocOption_stores (h : allocOption malloc s = some s') : Stores malloc s s' := by
  obtain ⟨raw, hraw, hget⟩ := allocOption_get h
  intro f k
  rw [hget]
  split
  · next hnew =>
    obtain ⟨-, rfl⟩ := hnew
    exact Or.inr ⟨emptied_ends f.size_pos, Or.inr ⟨raw, hraw, emptied_beyond f.size_pos⟩⟩
  · exact Or.inl rfl

/-- An array that is written, in a record that was there. -/
def Written (n : ℕ) (a b : Chars) : Prop := b = a ∨ (b.Ends n ∧ SameBeyond n a b)

theorem setItem_get (i : ℕ) (r : MenuItem) (f : Field) (k : ℕ) : f.get (s.setItem i r) k =
    if f = .item ∧ k = i then r.item_name
    else if f = .action ∧ k = i then r.action_name else f.get s k := by
  cases f with
  | title => rfl
  | option => rfl
  | item =>
    simp only [true_and]
    exact update_new MenuItem.item_name (fun _ => rfl) i r k
  | action =>
    simp only [true_and]
    exact update_new MenuItem.action_name (fun _ => rfl) i r k

theorem setItem_stores {i : ℕ} {r : MenuItem} (hname : Written maxItemString (s.items i).item_name r.item_name)
    (haction : Written maxItemString (s.items i).action_name r.action_name) :
    Stores malloc s (s.setItem i r) := by
  have hor : ∀ {f : Field} {a b : Chars}, Written f.size a b → b = a ∨ (b.Ends f.size ∧
      (SameBeyond f.size a b ∨ ∃ raw, malloc i = some raw ∧ SameBeyond f.size (f.raw raw) b)) :=
    fun h => h.imp_right fun h => ⟨h.1, Or.inl h.2⟩
  intro f k
  rw [setItem_get]
  split
  · next hk =>
    obtain ⟨rfl, rfl⟩ := hk
    exact hor (f := .item) hname
  · split
    · next hk =>
      obtain ⟨rfl, rfl⟩ := hk
      exact hor (f := .action) haction
    · exact Or.inl rfl

theorem setOption_get (o : ℕ) (r : ItemOption) (f : Field) (k : ℕ) : f.get (s.setOption o r) k =
    if f = .option ∧ k = o then r.option_name else f.get s k := by
  cases f with
  | title => rfl
  | item => rfl
  | action => rfl
  | option =>
    simp only [true_and]
    exact update_new ItemOption.option_name (fun _ => rfl) o r k

theorem setOption_stores {o : ℕ} {r : ItemOption}
    (hname : Written maxOptionString (s.options o).option_name r.option_name) :
    Stores malloc s (s.setOption o r) := by
  intro f k
  rw [setOption_get]
  split
  · next hk =>
    obtain ⟨rfl, rfl⟩ := hk
    exact hname.imp_right fun h => ⟨h.1, Or.inl h.2⟩
  · exact Or.inl rfl

theorem written_strncpy {n : ℕ} {a : Chars} {src : List UInt8} (h0 : 0 ∉ src)
    (hlen : src.length < n) : Written n a (strncpy a src n) :=
  Or.inr ⟨(strncpy_ends_iff h0).mpr hlen, strncpy_beyond⟩

theorem written_strcpy {n : ℕ} {a : Chars} {src : List UInt8} (hlen : src.length < n) :
    Written n a (strcpy a src) :=
  Or.inr ⟨strcpy_ends hlen, strcpy_beyond hlen⟩

/-! ### ROMs and targets -/

theorem addRom_stores {filename : List UInt8} {size base : UInt32} {format : UInt8}
    (h : addRom malloc filename size base format s = some s') : Stores malloc s s' := by
  rw [addRom] at h
  obtain ⟨s₁, hentry, h⟩ := Option.bind_eq_some_iff.mp h
  obtain ⟨s₀, hmenu, hitem⟩ := Option.bind_eq_some_iff.mp hentry
  have hfirst : Stores malloc s s₀ := by
    split at hmenu
    · cases hmenu
      exact .refl s
    · exact allocMenu_stores hmenu (by decide) (by decide)
  split at h
  · cases h
  · next i hi =>
    obtain ⟨s₂, hoption, h⟩ := Option.bind_eq_some_iff.mp h
    split at h
    · cases h
    · next o ho =>
      cases h
      refine ((hfirst.trans (allocItem_stores hitem)).trans (setItem_stores ?_ ?_)).trans
        (((allocOption_stores hoption).trans (setOption_stores ?_)).trans (setItem_stores ?_ ?_))
      · exact written_strcpy (romName_length base size)
      · exact written_strcpy (by decide)
      · exact written_strcpy (length_take_pred (by decide))
      · exact Or.inl rfl
      · exact Or.inl rfl

theorem addItem_stores {name action : List UInt8} (haction : action.length < maxItemString)
    (h : addItem malloc name action s = some s') : Stores malloc s s' := by
  obtain ⟨s₁, hitem, h⟩ := Option.bind_eq_some_iff.mp h
  split at h
  · cases h
  · next i hi =>
    obtain ⟨item_name, hname, hoption⟩ := Option.bind_eq_some_iff.mp h
    have hlen := strcpyTo_lt hname
    rw [strcpyTo_of_lt _ hlen] at hname
    cases hname
    refine ((allocItem_stores hitem).trans (setItem_stores ?_ ?_)).trans (allocOption_stores hoption)
    · exact written_strcpy hlen
    · exact written_strcpy haction

theorem nameOption_stores {name : List UInt8} (h : nameOption name s = some s') :
    Stores malloc s s' := by
  rw [nameOption] at h
  split at h
  · cases h
  · next o ho =>
    obtain ⟨option_name, hname, rfl⟩ := Option.map_eq_some_iff.mp h
    have hlen := strcpyTo_lt hname
    rw [strcpyTo_of_lt _ hlen] at hname
    cases hname
    exact setOption_stores (written_strcpy hlen)

theorem cutOption_stores (h : cutOption s = some s') : Stores malloc s s' := by
  rw [cutOption] at h
  split at h
  · cases h
  · cases h
    exact setOption_stores (Or.inl rfl)

theorem addTarget_stores {t : Target} (h : addTarget malloc t s = some s') : Stores malloc s s' := by
  obtain ⟨s₁, hitem, h⟩ := Option.bind_eq_some_iff.mp h
  obtain ⟨s₂, hfile, h⟩ := Option.bind_eq_some_iff.mp h
  have hname : Stores malloc s₁ s₂ := nameOption_stores hfile
  have hstores := (addItem_stores (by decide) hitem).trans hname
  split at h
  · cases h
    exact hstores
  · obtain ⟨s₃, hcut, hdir⟩ := Option.bind_eq_some_iff.mp h
    obtain ⟨s₄, hoption, hcut⟩ := Option.bind_eq_some_iff.mp hcut
    exact ((hstores.trans (allocOption_stores hoption)).trans (cutOption_stores hcut)).trans
      (nameOption_stores hdir)

theorem addTargets_stores : ∀ {ts : List Target} {s : Status}, addTargets malloc ts s = some s' →
    Stores malloc s s'
  | [], _, h => by
    cases h
    exact .refl _
  | t :: ts, _, h => by
    obtain ⟨s₁, hadd, h⟩ := Option.bind_eq_some_iff.mp h
    exact (addTarget_stores hadd).trans (addTargets_stores h)

theorem setMenu_stores {m : ℕ} {r : Menu} (hr : r.menu_title = (s.menus m).menu_title) :
    Stores malloc s (s.setMenu m r) := by
  refine .of_eq fun f k => ?_
  cases f with
  | title => exact update_keep Menu.menu_title hr k
  | item => rfl
  | action => rfl
  | option => rfl

theorem setLink_stores (k : Dll.Link ℕ) (p : Ptr) : Stores malloc s (s.setLink k p) := by
  cases k with
  | top => exact .of_eq fun f _ => by cases f <;> rfl
  | next m => exact setMenu_stores rfl

theorem moveMenu_stores {k k' : Dll.Link ℕ} (h : moveMenu k k' s = some s') : Stores malloc s s' := by
  have hlast : ∀ (s : Status) (m : ℕ) (p : Ptr), Stores malloc s (s.setLast m p) :=
    fun _ _ _ => setMenu_stores rfl
  have hnext : ∀ (s : Status) (m : ℕ) (p : Ptr), Stores malloc s (s.setNext m p) :=
    fun _ _ _ => setMenu_stores rfl
  rw [moveMenu] at h
  split at h
  · cases h
  dsimp only at h
  split at h
  · cases h
  split at h
  · cases h
  split at h
  · cases h
  rw [← Option.some.inj h]
  exact (((((setLink_stores _ _).trans (hlast _ _ _)).trans (hnext _ _ _)).trans
    (setLink_stores _ _)).trans (hlast _ _ _)).trans (hlast _ _ _)

/-- What `CFG_add_default` stores ends within its array, if it comes back. -/
theorem addDefault_stores {ts : List Target} (h : addDefault malloc ts s = some s') :
    Stores malloc s s' := by
  obtain ⟨s₁, hadd, hrelink⟩ := Option.bind_eq_some_iff.mp h
  obtain ⟨m, hmenu, hadd⟩ := Option.bind_eq_some_iff.mp hadd
  obtain ⟨s₂, hload, hadd⟩ := Option.bind_eq_some_iff.mp hadd
  obtain ⟨s₃, hreset, hadd⟩ := Option.bind_eq_some_iff.mp hadd
  obtain ⟨s₄, hreboot, hadd⟩ := Option.bind_eq_some_iff.mp hadd
  obtain ⟨s₅, hcard, htargets⟩ := Option.bind_eq_some_iff.mp hadd
  have hown := ((((allocMenu_stores hmenu (by decide) (by decide)).trans
    (addItem_stores (by decide) hload)).trans (addItem_stores (by decide) hreset)).trans
    (addItem_stores (by decide) hreboot)).trans (addItem_stores (by decide) hcard)
  refine (hown.trans (addTargets_stores htargets)).trans ?_
  rw [relink] at hrelink
  split at hrelink
  · cases hrelink
  · exact moveMenu_stores hrelink
  · exact Option.some.inj hrelink ▸ .refl _

end

end Config
