import ReplayFirmware.Config.Arrays
import ReplayFirmware.Config.Missing

/-! The strings that the lines of the INI file leave in the status and in the menu.

    The path of the core, the title of a menu and the names of items, actions and options are copied
    with the size of their arrays: they end there exactly when they are shorter. -/

namespace Config.Handlers
open Ini Guarded
open Ini.InPlace (ValueString)

/-! ### The status -/

/-- All strings of the status and of the menu end within their arrays. -/
structure State.Terminated (st : State) : Prop where
  menu : Config.Terminated st.menu
  bin_file : st.setup.bin_file.Ends sizeofBinFile
  hotkey_string : st.setup.hotkey_string.Ends sizeofHotkeyString

/-- Nothing behind an array is written. -/
structure State.InBounds (malloc : Malloc) (st st' : State) : Prop where
  menu : Config.InBounds malloc st.menu st'.menu
  bin_file : SameBeyond sizeofBinFile st.setup.bin_file st'.setup.bin_file
  hotkey_string : SameBeyond sizeofHotkeyString st.setup.hotkey_string st'.setup.hotkey_string

/-- Each array is as it was, or its string ends and nothing behind it is written. -/
structure Kept (malloc : Malloc) (st st' : State) : Prop where
  menu : Stores malloc st.menu st'.menu
  bin_file : Written sizeofBinFile st.setup.bin_file st'.setup.bin_file
  hotkey_string : Written sizeofHotkeyString st.setup.hotkey_string st'.setup.hotkey_string

theorem Written.ends {n : ℕ} {a b : Chars} (h : Written n a b) (ha : a.Ends n) : b.Ends n := by
  rcases h with rfl | h
  · exact ha
  · exact h.1

theorem Written.sameBeyond {n : ℕ} {a b : Chars} (h : Written n a b) : SameBeyond n a b := by
  rcases h with rfl | h
  · exact fun _ _ => rfl
  · exact h.2

variable {malloc : Malloc} {st st' : State}

theorem Kept.terminated (h : Kept malloc st st') (ht : st.Terminated) : st'.Terminated :=
  ⟨h.menu.terminated ht.menu, Written.ends h.bin_file ht.bin_file,
    Written.ends h.hotkey_string ht.hotkey_string⟩

theorem Kept.inBounds (h : Kept malloc st st') : st.InBounds malloc st' :=
  ⟨h.menu.inBounds, Written.sameBeyond h.bin_file, Written.sameBeyond h.hotkey_string⟩

/-- A step that leaves the arrays of the status alone. -/
theorem Kept.of_menu (h : Stores malloc st.menu st'.menu)
    (hbin : st'.setup.bin_file = st.setup.bin_file)
    (hhotkey : st'.setup.hotkey_string = st.setup.hotkey_string) : Kept malloc st st' :=
  ⟨h, Or.inl hbin, Or.inl hhotkey⟩

/-- A step that leaves all arrays alone. -/
theorem Kept.of_get (h : ∀ (f : Field) (k : ℕ), f.get st'.menu k = f.get st.menu k)
    (hbin : st'.setup.bin_file = st.setup.bin_file)
    (hhotkey : st'.setup.hotkey_string = st.setup.hotkey_string) : Kept malloc st st' :=
  ⟨.of_eq h, Or.inl hbin, Or.inl hhotkey⟩

theorem Kept.of_same (h : st'.menu = st.menu) (hbin : st'.setup.bin_file = st.setup.bin_file)
    (hhotkey : st'.setup.hotkey_string = st.setup.hotkey_string) : Kept malloc st st' :=
  ⟨.of_eq fun _ _ => by rw [h], Or.inl hbin, Or.inl hhotkey⟩

/-! ### Handlers that copy no name -/

variable {env : Env} {v : ValueString}

/-- Whatever state there is behind the handler, the arrays are kept. -/
def Leaves (env : Env) (st : State) (x : Result (UInt8 × State)) : Prop :=
  Gives x fun r => Kept env.malloc st r.2

theorem leaves_ok {r : UInt8 × State} (h : Kept env.malloc st r.2) : Leaves env st (.ok r) := gives_ok.mpr h

theorem leaves_bind {α : Type} {x : Result α} {g : α → Result (UInt8 × State)}
    (h : ∀ a, Leaves env st (g a)) : Leaves env st (x >>= g) := gives_bind.mpr (gives_of_forall h)

theorem leaves_ite {c : Prop} [Decidable c] {x y : Result (UInt8 × State)} (hx : Leaves env st x)
    (hy : Leaves env st y) : Leaves env st (if c then x else y) :=
  gives_ite.mpr ⟨fun _ => hx, fun _ => hy⟩

theorem leaves_same {r : UInt8 × State} (h : r.2.menu = st.menu)
    (hbin : r.2.setup.bin_file = st.setup.bin_file)
    (hhotkey : r.2.setup.hotkey_string = st.setup.hotkey_string) : Leaves env st (.ok r) :=
  leaves_ok (.of_same h hbin hhotkey)

theorem setupClock_leaves : Leaves env st (handleSetupClock env v st) := by
  refine leaves_ite (leaves_same rfl rfl rfl) (leaves_ite (leaves_same rfl rfl rfl)
    (leaves_ite (leaves_same rfl rfl rfl) (leaves_bind fun vs => leaves_ite ?_ ?_)))
  · exact leaves_bind fun _ => leaves_same rfl rfl rfl
  · exact leaves_same rfl rfl rfl

theorem setupCoder_leaves : Leaves env st (handleSetupCoder v st) := by
  rw [handleSetupCoder]
  split
  · exact leaves_same rfl rfl rfl
  · exact leaves_ite (leaves_same rfl rfl rfl) (leaves_same rfl rfl rfl)

theorem setupVfilter_leaves : Leaves env st (handleSetupVfilter env v st) :=
  leaves_bind fun _ => leaves_ite
    (leaves_bind fun _ => leaves_bind fun _ => leaves_bind fun _ => leaves_same rfl rfl rfl)
    (leaves_same rfl rfl rfl)

theorem setupPhase_leaves : Leaves env st (handleSetupPhase env v st) :=
  leaves_bind fun _ => leaves_ite (leaves_bind fun _ => leaves_same rfl rfl rfl)
    (leaves_same rfl rfl rfl)

theorem setupEnTwi_leaves : Leaves env st (handleSetupEnTwi env v st) :=
  leaves_bind fun _ => leaves_ite (leaves_bind fun _ => leaves_same rfl rfl rfl)
    (leaves_same rfl rfl rfl)

theorem setupEnSpi_leaves : Leaves env st (handleSetupEnSpi env v st) :=
  leaves_bind fun _ => leaves_ite
    (leaves_bind fun _ => leaves_bind fun _ => leaves_same rfl rfl rfl) (leaves_same rfl rfl rfl)

theorem setupSpiClk_leaves : Leaves env st (handleSetupSpiClk env v st) := by
  refine leaves_bind fun _ => leaves_ite (leaves_bind fun _ => leaves_ite ?_ ?_) ?_
  · exact gives_error.mpr trivial
  · exact leaves_ite (leaves_same rfl rfl rfl) (leaves_same rfl rfl rfl)
  · exact leaves_same rfl rfl rfl

theorem setupButton_leaves : Leaves env st (handleSetupButton v st) :=
  leaves_ite (leaves_same rfl rfl rfl) (leaves_ite (leaves_same rfl rfl rfl)
    (leaves_ite (leaves_same rfl rfl rfl) (leaves_same rfl rfl rfl)))

theorem setupHotkey_leaves : Leaves env st (handleSetupHotkey env v st) := by
  refine leaves_ite (leaves_ok ⟨.refl _, Or.inl rfl, ?_⟩) (leaves_same rfl rfl rfl)
  exact written_strcpy (length_take_pred (by decide))

theorem setupClockmon_leaves : Leaves env st (handleSetupClockmon v st) :=
  leaves_ite (leaves_same rfl rfl rfl) (leaves_ite (leaves_same rfl rfl rfl) (leaves_same rfl rfl rfl))

theorem setupOsdInit_leaves : Leaves env st (handleSetupOsdInit v st) :=
  leaves_ite (leaves_same rfl rfl rfl) (leaves_ite (leaves_same rfl rfl rfl) (leaves_same rfl rfl rfl))

theorem setupOsdTimeout_leaves : Leaves env st (handleSetupOsdTimeout env v st) :=
  leaves_bind fun _ => leaves_ite
    (leaves_bind fun _ => leaves_ite (leaves_same rfl rfl rfl) (leaves_same rfl rfl rfl))
    (leaves_same rfl rfl rfl)

theorem setupVideo_leaves : Leaves env st (handleSetupVideo env v st) :=
  leaves_ite (leaves_bind fun _ => leaves_ite (leaves_bind fun _ => leaves_same rfl rfl rfl)
    (leaves_same rfl rfl rfl)) (leaves_same rfl rfl rfl)

theorem setupConfig_leaves : Leaves env st (handleSetupConfig env v st) := by
  refine leaves_ite (leaves_bind fun _ => leaves_ite (leaves_bind fun _ => leaves_bind fun _ => ?_) ?_) ?_
  · exact leaves_ok (.of_get (fun f _ => by cases f <;> rfl) rfl rfl)
  · exact leaves_same rfl rfl rfl
  · exact leaves_same rfl rfl rfl

theorem setupInfo_leaves : Leaves env st (handleSetupInfo env v st) := by
  refine leaves_bind fun _ => leaves_ite (leaves_bind fun _ => ?_) (leaves_same rfl rfl rfl)
  split
  · exact gives_error.mpr trivial
  · exact leaves_same rfl rfl rfl

theorem targetsTarget_leaves : Leaves env st (handleTargetsTarget env v st) := by
  refine leaves_bind fun _ => leaves_ite (leaves_ite ?_ (gives_error.mpr trivial)) (leaves_same rfl rfl rfl)
  exact leaves_bind fun _ => leaves_bind fun _ => leaves_bind fun _ => leaves_same rfl rfl rfl

theorem uploadVerify_leaves : Leaves env st (handleUploadVerify env v st) :=
  leaves_bind fun _ => leaves_ite (leaves_bind fun _ => leaves_same rfl rfl rfl)
    (leaves_same rfl rfl rfl)

theorem uploadData_leaves : Leaves env st (handleUploadData env v st) := by
  refine leaves_ite (leaves_same rfl rfl rfl) (leaves_bind fun _ => leaves_ite ?_ (leaves_same rfl rfl rfl))
  refine leaves_bind fun _ => leaves_ite ?_ (leaves_same rfl rfl rfl)
  refine leaves_bind fun _ => leaves_bind fun _ => leaves_ite (leaves_same rfl rfl rfl) ?_
  refine leaves_ite ?_ (leaves_same rfl rfl rfl)
  exact leaves_ite (leaves_same rfl rfl rfl) (leaves_same rfl rfl rfl)

theorem uploadLaunch_leaves : Leaves env st (handleUploadLaunch env v st) :=
  leaves_bind fun _ => leaves_ite
    (leaves_bind fun _ => leaves_bind fun _ => leaves_bind fun _ => leaves_same rfl rfl rfl)
    (leaves_same rfl rfl rfl)

theorem filesMount_leaves (ch : ℕ) : Leaves env st (handleFilesMount env v st ch) :=
  leaves_bind fun _ => leaves_ite (leaves_bind fun _ => leaves_ite
    (leaves_bind fun _ => leaves_ite (leaves_same rfl rfl rfl) (leaves_same rfl rfl rfl))
    (leaves_same rfl rfl rfl)) (leaves_same rfl rfl rfl)

theorem filesChaCfg_leaves : Leaves env st (handleFilesChaCfg env v st) := by
  refine leaves_bind fun _ => leaves_bind fun mode => ?_
  cases mode with
  | none => exact leaves_same rfl rfl rfl
  | some mode => exact leaves_bind fun _ => leaves_same rfl rfl rfl

theorem filesChbCfg_leaves : Leaves env st (handleFilesChbCfg env v st) := by
  refine leaves_bind fun _ => leaves_bind fun mode => ?_
  cases mode with
  | none => exact leaves_same rfl rfl rfl
  | some mode => exact leaves_bind fun _ => leaves_same rfl rfl rfl

theorem gives_follow {α : Type} {o : Option α} {Q : α → Prop} :
    Gives (follow o) Q ↔ ∀ a, o = some a → Q a := by
  cases o with
  | none => simp [follow]
  | some a => simp [follow]

theorem gives_text {vs : List ValueEntry} {i : ℕ} {Q : List UInt8 → Prop} :
    Gives (text vs i) Q ↔ ∀ t, strval vs i = some t → Q t := by
  rw [text]
  cases strval vs i with
  | none => simp
  | some t => simp

theorem gives_parseList {n : ℕ} {Q : List ValueEntry → Prop} : Gives (parseList env v n) Q ↔
    ∀ vs, valueList v n env.buffer = some vs → Q vs := by
  rw [parseList]
  cases valueList v n env.buffer with
  | none => simp
  | some vs => simp

theorem uploadRom_leaves : Leaves env st (handleUploadRom env v st) := by
  refine leaves_ite (leaves_same rfl rfl rfl) (leaves_bind fun _ => leaves_bind fun filename => ?_)
  refine leaves_ite (leaves_same rfl rfl rfl) ?_
  refine leaves_bind fun _ => leaves_bind fun _ => leaves_bind fun _ => leaves_bind fun _ => ?_
  dsimp only
  split
  · exact leaves_ok (.of_get (fun f _ => by cases f <;> rfl) rfl rfl)
  · refine gives_bind.mpr (gives_follow.mpr fun menu hmenu => gives_ok.mpr ?_)
    split at hmenu
    · next hwarn =>
      rw [if_pos hwarn]
      exact .of_menu (.trans (.of_eq fun f _ => by cases f <;> rfl) (addRom_stores hmenu)) rfl rfl
    · next hwarn =>
      rw [if_neg hwarn]
      exact .of_menu (.trans (.of_eq fun f _ => by cases f <;> rfl) (addRom_stores hmenu)) rfl rfl

/-! ### Handlers that copy names -/

/-- A string is shorter than an array, or there is none. -/
def shorter (n : ℕ) (t : Option (List UInt8)) : Bool := t.all fun t => t.length < n

/-- The name of the action of an `ITEM`. -/
def actionOf (vs : List ValueEntry) : Option (List UInt8) :=
  if vs.length = 2 then strval vs 1
  else if vs.length = 3 ∧ (strval vs 2).any (fun t => isDynamic t || isStatic t) = false then strval vs 1
  else none

/-- The names that the handler copies with the size of their arrays are shorter. -/
def Handler.short (vs : List ValueEntry) : Handler → Bool
  | menuTitle => shorter maxMenuString (strval vs 0)
  | menuItem => shorter maxItemString (strval vs 0) && shorter maxItemString (actionOf vs)
  | menuOption => shorter maxOptionString (strval vs 0)
  | _ => true

/-- The names in a value are shorter than their arrays, and so is a path that is one. -/
def Short (h : Handler) (v : ValueString) (b : ValueBuffer) : Prop :=
  (h = .setupBin → v.chars.length < sizeofBinFile) ∧
    ∀ vs, valueList v h.room b = some vs → h.short vs = true

theorem zero_notMem_strval {vs : List ValueEntry} {n i : ℕ} {b : ValueBuffer} {t : List UInt8}
    (h : valueList v n b = some vs) (ht : strval vs i = some t) : 0 ∉ t := by
  obtain ⟨e, he, hs⟩ := Option.bind_eq_some_iff.mp ht
  exact (text_valueList h (List.mem_of_getElem? he) hs).1

theorem shorter_some {n : ℕ} {t : List UInt8} : shorter n (some t) = true ↔ t.length < n := by
  rw [shorter, Option.all_some, decide_eq_true_eq]

theorem short_iff {h : Handler} {b : ValueBuffer} {vs : List ValueEntry} (hbin : h ≠ .setupBin)
    (hvs : valueList v h.room b = some vs) : Short h v b ↔ h.short vs = true := by
  rw [Short, hvs]
  simp only [hbin, false_implies, true_and, Option.some.injEq, forall_eq']

/-- A step that keeps the arrays, if anything. -/
theorem terminated_iff {p : Prop} (hst : st.Terminated) (hkept : p → Kept malloc st st')
    (hshort : st'.Terminated → p) : (st'.Terminated ∧ st.InBounds malloc st') ↔ p :=
  ⟨fun h => hshort h.1, fun hp => ⟨(hkept hp).terminated hst, (hkept hp).inBounds⟩⟩

theorem setupBin_iff_short (hst : st.Terminated) (h : handleSetupBin v st = .ok (0, st')) :
    (st'.Terminated ∧ st.InBounds malloc st') ↔ v.chars.length < sizeofBinFile := by
  cases h
  refine terminated_iff hst (fun hlen => ?_) fun hterm => (strncpy_ends_iff v.nonzero).mp hterm.bin_file
  exact ⟨.refl _, written_strncpy v.nonzero hlen, Or.inl rfl⟩

theorem one_ne {r : UInt8 × State} (h : r.1 = 1) : r.1 ≠ 0 := by
  rw [h]
  decide

/-- What an accepted `TITLE` does. -/
theorem menuTitle_gives : Gives (handleMenuTitle env v st) fun r => r.1 = 0 →
    ∃ vs t menu, valueList v 8 env.buffer = some vs ∧ strval vs 0 = some t ∧
      (allocMenu env.malloc t st.menu).bind (allocItem env.malloc) = some menu ∧
      r.2 = { st with menu := menu } := by
  refine gives_bind.mpr (gives_parseList.mpr fun vs hvs => gives_ite.mpr ⟨fun _ => ?_, fun _ => ?_⟩)
  · refine gives_bind.mpr (gives_of_forall fun _ => gives_bind.mpr (gives_text.mpr fun t ht => ?_))
    refine gives_bind.mpr (gives_follow.mpr fun menu hmenu => gives_ok.mpr fun _ => ?_)
    exact ⟨vs, t, menu, hvs, ht, hmenu, rfl⟩
  · exact gives_ok.mpr fun h => absurd h (one_ne rfl)

theorem menuTitle_iff_short (hst : st.Terminated) (h : handleMenuTitle env v st = .ok (0, st')) :
    (st'.Terminated ∧ st.InBounds env.malloc st') ↔ Short .menuTitle v env.buffer := by
  obtain ⟨vs, t, menu, hvs, ht, hmenu, hst'⟩ := menuTitle_gives _ h rfl
  obtain rfl : st' = { st with menu := menu } := hst'
  obtain ⟨s₁, halloc, hitem⟩ := Option.bind_eq_some_iff.mp hmenu
  have h0 := zero_notMem_strval hvs ht
  rw [short_iff (by decide) hvs, Handler.short, ht, shorter_some]
  refine terminated_iff hst (fun hlen => ?_) fun hterm => ?_
  · exact .of_menu ((allocMenu_stores halloc h0 hlen).trans (allocItem_stores hitem)) rfl rfl
  · obtain ⟨raw, _, hget⟩ := allocMenu_get halloc
    obtain ⟨_, _, hget'⟩ := allocItem_get hitem
    have htitle := hterm.menu .title st.menu.blocks
    rw [hget', if_neg (by simp), hget, if_pos ⟨rfl, rfl⟩] at htitle
    exact (strncpy_ends_iff h0).mp htitle

/-- The array that a name is copied to, if there is one. -/
def copied (a : Chars) : Option (List UInt8) → Chars
  | none => a
  | some t => strncpy a t maxItemString

theorem copied_ends_iff {a : Chars} {o : Option (List UInt8)} (ha : a.Ends maxItemString)
    (h0 : ∀ t, o = some t → 0 ∉ t) :
    (copied a o).Ends maxItemString ↔ shorter maxItemString o = true := by
  cases o with
  | none => exact iff_of_true ha rfl
  | some t =>
    rw [shorter_some]
    exact strncpy_ends_iff (h0 t rfl)

theorem written_copied {a : Chars} {o : Option (List UInt8)} (h0 : ∀ t, o = some t → 0 ∉ t)
    (h : shorter maxItemString o = true) : Written maxItemString a (copied a o) := by
  cases o with
  | none => exact Or.inl rfl
  | some t => exact written_strncpy (h0 t rfl) (shorter_some.mp h)

theorem actionOf_eq {vs : List ValueEntry} {t : List UInt8} (h : actionOf vs = some t) :
    strval vs 1 = some t := by
  rw [actionOf] at h
  split at h
  · exact h
  · split at h
    · exact h
    · cases h

/-- The names that `ITEM` stores. -/
theorem configure_gives (it : MenuItem) (vs : List ValueEntry) : Gives (configure it vs) fun r =>
    r.2 = 0 → ∃ t, strval vs 0 = some t ∧ r.1.item_name = copied it.item_name (some t) ∧
      r.1.action_name = copied it.action_name (actionOf vs) := by
  refine gives_bind.mpr (gives_text.mpr fun t ht => gives_ite.mpr ⟨fun h2 => ?_, fun h2 => ?_⟩)
  · refine gives_bind.mpr (gives_text.mpr fun action haction => gives_ok.mpr fun _ => ?_)
    refine ⟨t, ht, rfl, ?_⟩
    rw [actionOf, if_pos h2, haction]
    rfl
  · refine gives_ite.mpr ⟨fun h3 => ?_, fun h3 => ?_⟩
    · refine gives_bind.mpr (gives_of_forall fun mask => gives_bind.mpr (gives_text.mpr fun kind hkind => ?_))
      have haction : actionOf vs = if (isDynamic kind || isStatic kind) = false then strval vs 1 else none := by
        rw [actionOf, if_neg h2, hkind, Option.any_some]
        simp only [h3, true_and]
      refine gives_ite.mpr ⟨fun hdyn => gives_ok.mpr fun _ => ⟨t, ht, rfl, ?_⟩, fun hdyn => ?_⟩
      · rw [haction, hdyn]
        rfl
      refine gives_ite.mpr ⟨fun hstat => gives_ok.mpr fun _ => ⟨t, ht, rfl, ?_⟩, fun hstat => ?_⟩
      · rw [haction, hstat, Bool.or_true]
        rfl
      refine gives_bind.mpr (gives_text.mpr fun action hname => gives_bind.mpr (gives_of_forall fun value => ?_))
      refine gives_ok.mpr fun _ => ⟨t, ht, rfl, ?_⟩
      rw [haction, if_pos (by rw [Bool.eq_false_of_not_eq_true hdyn, Bool.eq_false_of_not_eq_true hstat]; rfl),
        hname]
      rfl
    · have haction : actionOf vs = none := by
        rw [actionOf, if_neg h2, if_neg fun h => h3 h.1]
      rw [haction]
      refine gives_bind.mpr (gives_of_forall fun mask => gives_bind.mpr (gives_of_forall fun shift => ?_))
      refine gives_bind.mpr (gives_of_forall fun kind => ?_)
      refine gives_ite.mpr ⟨fun _ => gives_ok.mpr fun _ => ⟨t, ht, rfl, rfl⟩, fun _ => ?_⟩
      refine gives_ite.mpr ⟨fun _ => gives_ok.mpr fun _ => ⟨t, ht, rfl, rfl⟩, fun _ => ?_⟩
      exact gives_ok.mpr fun h => absurd (show (1 : UInt8) = 0 from h) (by decide)

/-- What an accepted `ITEM` does. -/
theorem menuItem_gives : Gives (handleMenuItem env v st) fun r => r.1 = 0 →
    ∃ vs menu i it menu', valueList v 8 env.buffer = some vs ∧ Stores env.malloc st.menu menu ∧
      configure (menu.items i) vs = .ok (it, 0) ∧
      allocOption env.malloc (menu.setItem i it) = some menu' ∧ r.2 = { st with menu := menu' } := by
  refine gives_bind.mpr (gives_parseList.mpr fun vs hvs => gives_ite.mpr ⟨fun _ => ?_, fun _ => ?_⟩)
  · refine gives_bind.mpr (gives_of_forall fun act => gives_bind.mpr (gives_follow.mpr fun menu hmenu => ?_))
    refine gives_bind.mpr (gives_of_forall fun i => gives_bind.mpr fun r hr => ?_)
    refine gives_ite.mpr ⟨fun _ => gives_ok.mpr fun h => absurd h (one_ne rfl), fun h0 => ?_⟩
    refine gives_bind.mpr (gives_follow.mpr fun menu' hmenu' => gives_ok.mpr fun _ => ?_)
    refine ⟨vs, menu, i, r.1, menu', hvs, ?_, ?_, hmenu', rfl⟩
    · split at hmenu
      · exact allocItem_stores hmenu
      · exact Option.some.inj hmenu ▸ .refl _
    · rw [hr, ← not_not.mp h0]
  · exact gives_ok.mpr fun h => absurd h (one_ne rfl)

theorem menuItem_iff_short (hst : st.Terminated) (h : handleMenuItem env v st = .ok (0, st')) :
    (st'.Terminated ∧ st.InBounds env.malloc st') ↔ Short .menuItem v env.buffer := by
  obtain ⟨vs, menu, i, it, menu', hvs, hmenu, hit, hoption, hst'⟩ := menuItem_gives _ h rfl
  obtain rfl : st' = { st with menu := menu' } := hst'
  obtain ⟨t, ht, hname, haction⟩ := configure_gives _ _ _ hit rfl
  have h0 : ∀ t', some t = some t' → 0 ∉ t' := fun t' heq =>
    zero_notMem_strval hvs (ht.trans heq)
  have h0' : ∀ t', actionOf vs = some t' → 0 ∉ t' := fun t' heq =>
    zero_notMem_strval hvs (actionOf_eq heq)
  rw [short_iff (by decide) hvs, Handler.short, ht, Bool.and_eq_true]
  refine terminated_iff hst (fun hlen => ?_) fun hterm => ?_
  · refine .of_menu ((hmenu.trans (setItem_stores ?_ ?_)).trans (allocOption_stores hoption)) rfl rfl
    · rw [hname]
      exact written_copied h0 hlen.1
    · rw [haction]
      exact written_copied h0' hlen.2
  · obtain ⟨_, _, hget⟩ := allocOption_get hoption
    have hterm' := hmenu.terminated hst.menu
    have hitem := hterm.menu .item i
    have hact := hterm.menu .action i
    rw [hget, if_neg (by simp), setItem_get, if_pos ⟨rfl, rfl⟩, hname] at hitem
    rw [hget, if_neg (by simp), setItem_get, if_neg (by simp), if_pos ⟨rfl, rfl⟩, haction] at hact
    exact ⟨(copied_ends_iff (hterm' .item i) h0).mp hitem, (copied_ends_iff (hterm' .action i) h0').mp hact⟩

/-- An option that is taken gets its name last. -/
theorem finishOption_gives {kind : OptionKind} {v0 v1 : Value} {i o : ℕ} {s : Status}
    (h : (finishOption kind v0 v1 i o s).1 = 0) : ∃ s₁, Stores malloc s s₁ ∧
      (finishOption kind v0 v1 i o s).2 = s₁.setOption o { s₁.options o with
        option_name := strncpy (s₁.options o).option_name v0.strval maxOptionString } := by
  have hselect : ∀ {s : Status} {r : MenuItem}, r.item_name = (s.items i).item_name →
      r.action_name = (s.items i).action_name → Stores malloc s (s.setItem i r) :=
    fun h h' => setItem_stores (Or.inl h) (Or.inl h')
  rw [finishOption] at h ⊢
  have hdefault : Stores malloc s (if kind = .default then
      s.setItem i { s.items i with selected_option := some o } else s) := by
    split
    · exact hselect rfl rfl
    · exact .refl s
  dsimp only at h ⊢
  generalize (if kind = .default then
    s.setItem i { s.items i with selected_option := some o } else s) = s₀ at h hdefault ⊢
  split at h
  · exact absurd (show (1 : UInt8) = 0 from h) (by decide)
  · next hmask =>
    rw [if_neg hmask]
    refine ⟨_, hdefault.trans ?_, rfl⟩
    split
    · exact hselect rfl rfl
    · exact .refl s₀

/-- What an accepted `OPTION` does. -/
theorem menuOption_gives : Gives (handleMenuOption env v st) fun r => r.1 = 0 →
    ∃ vs t menu o, valueList v 8 env.buffer = some vs ∧ strval vs 0 = some t ∧
      Stores env.malloc st.menu menu ∧ r.2 = { st with menu := menu.setOption o { menu.options o with
        option_name := strncpy (menu.options o).option_name t maxOptionString } } := by
  refine gives_bind.mpr (gives_parseList.mpr fun vs hvs => gives_ite.mpr ⟨fun _ => ?_, fun _ => ?_⟩)
  · refine gives_bind.mpr (gives_of_forall fun act => gives_bind.mpr (gives_follow.mpr fun menu hmenu => ?_))
    refine gives_bind.mpr (gives_of_forall fun o => gives_bind.mpr (gives_of_forall fun value => ?_))
    refine gives_bind.mpr (gives_of_forall fun kind => ?_)
    refine gives_ite.mpr ⟨fun _ => gives_ok.mpr fun h => absurd h (one_ne rfl), fun _ => ?_⟩
    refine gives_bind.mpr (gives_of_forall fun i => ?_)
    refine gives_ite.mpr ⟨fun _ => gives_ok.mpr fun h => absurd h (one_ne rfl), fun _ => ?_⟩
    refine gives_bind.mpr (gives_text.mpr fun t ht => gives_ok.mpr fun h => ?_)
    obtain ⟨s₁, (hs₁ : Stores env.malloc _ s₁), heq⟩ := finishOption_gives h
    refine ⟨vs, t, s₁, o, hvs, ht, ?_, ?_⟩
    · have hfirst : Stores env.malloc st.menu menu := by
        split at hmenu
        · exact allocOption_stores hmenu
        · exact Option.some.inj hmenu ▸ .refl _
      exact (hfirst.trans (setOption_stores (r := { menu.options o with conf_value := value })
        (Or.inl rfl))).trans hs₁
    · dsimp only
      rw [heq]
  · exact gives_ok.mpr fun h => absurd h (one_ne rfl)

theorem menuOption_iff_short (hst : st.Terminated) (h : handleMenuOption env v st = .ok (0, st')) :
    (st'.Terminated ∧ st.InBounds env.malloc st') ↔ Short .menuOption v env.buffer := by
  obtain ⟨vs, t, menu, o, hvs, ht, hmenu, hst'⟩ := menuOption_gives _ h rfl
  obtain rfl : st' = { st with menu := _ } := hst'
  have h0 := zero_notMem_strval hvs ht
  rw [short_iff (by decide) hvs, Handler.short, ht, shorter_some]
  refine terminated_iff hst (fun hlen => ?_) fun hterm => ?_
  · exact .of_menu (hmenu.trans (setOption_stores (written_strncpy h0 hlen))) rfl rfl
  · have hoption := hterm.menu .option o
    rw [setOption_get, if_pos ⟨rfl, rfl⟩] at hoption
    exact (strncpy_ends_iff h0).mp hoption

/-! ### Lines and runs -/

/-- An accepted line leaves strings that end within their arrays exactly when the names in it are
    shorter than these. -/
theorem run_iff_short {hd : Handler} (hst : st.Terminated) (h : hd.run env v st = .ok (0, st')) :
    (st'.Terminated ∧ st.InBounds env.malloc st') ↔ Short hd v env.buffer := by
  have hother : Leaves env st (hd.run env v st) → Short hd v env.buffer →
      ((st'.Terminated ∧ st.InBounds env.malloc st') ↔ Short hd v env.buffer) :=
    fun hleaves hshort => terminated_iff hst (fun _ => hleaves _ h) fun _ => hshort
  cases hd with
  | setupBin =>
    rw [setupBin_iff_short hst h]
    exact ⟨fun hlen => ⟨fun _ => hlen, fun _ _ => rfl⟩, fun hshort => hshort.1 rfl⟩
  | menuTitle => exact menuTitle_iff_short hst h
  | menuItem => exact menuItem_iff_short hst h
  | menuOption => exact menuOption_iff_short hst h
  | setupClock => exact hother setupClock_leaves ⟨nofun, fun _ _ => rfl⟩
  | setupCoder => exact hother setupCoder_leaves ⟨nofun, fun _ _ => rfl⟩
  | setupPhase => exact hother setupPhase_leaves ⟨nofun, fun _ _ => rfl⟩
  | setupVfilter => exact hother setupVfilter_leaves ⟨nofun, fun _ _ => rfl⟩
  | setupEnTwi => exact hother setupEnTwi_leaves ⟨nofun, fun _ _ => rfl⟩
  | setupEnSpi => exact hother setupEnSpi_leaves ⟨nofun, fun _ _ => rfl⟩
  | setupSpiClk => exact hother setupSpiClk_leaves ⟨nofun, fun _ _ => rfl⟩
  | setupButton => exact hother setupButton_leaves ⟨nofun, fun _ _ => rfl⟩
  | setupHotkey => exact hother setupHotkey_leaves ⟨nofun, fun _ _ => rfl⟩
  | setupClockmon => exact hother setupClockmon_leaves ⟨nofun, fun _ _ => rfl⟩
  | setupOsdInit => exact hother setupOsdInit_leaves ⟨nofun, fun _ _ => rfl⟩
  | setupOsdTimeout => exact hother setupOsdTimeout_leaves ⟨nofun, fun _ _ => rfl⟩
  | setupVideo => exact hother setupVideo_leaves ⟨nofun, fun _ _ => rfl⟩
  | setupConfig => exact hother setupConfig_leaves ⟨nofun, fun _ _ => rfl⟩
  | setupInfo => exact hother setupInfo_leaves ⟨nofun, fun _ _ => rfl⟩
  | targetsTarget => exact hother targetsTarget_leaves ⟨nofun, fun _ _ => rfl⟩
  | uploadVerify => exact hother uploadVerify_leaves ⟨nofun, fun _ _ => rfl⟩
  | uploadData => exact hother uploadData_leaves ⟨nofun, fun _ _ => rfl⟩
  | uploadLaunch => exact hother uploadLaunch_leaves ⟨nofun, fun _ _ => rfl⟩
  | uploadRom => exact hother uploadRom_leaves ⟨nofun, fun _ _ => rfl⟩
  | filesChaMount => exact hother (filesMount_leaves 0) ⟨nofun, fun _ _ => rfl⟩
  | filesChbMount => exact hother (filesMount_leaves 1) ⟨nofun, fun _ _ => rfl⟩
  | filesChaCfg => exact hother filesChaCfg_leaves ⟨nofun, fun _ _ => rfl⟩
  | filesChbCfg => exact hother filesChbCfg_leaves ⟨nofun, fun _ _ => rfl⟩

/-- A line of the INI file, with what its handler finds. -/
structure Line where
  pass : Pass
  iniSection : Symbol
  name : Symbol
  value : ValueString
  env : Env

def Line.parse (l : Line) (st : State) : Result (UInt8 × State) :=
  parseHandler l.env l.value st l.pass l.iniSection l.name

def Line.Short (l : Line) : Prop :=
  ∀ hd ∈ handlerOf l.pass l.iniSection l.name, Handlers.Short hd l.value l.env.buffer

theorem Line.parse_iff_short {l : Line} (hst : st.Terminated) (h : l.parse st = .ok (0, st')) :
    (st'.Terminated ∧ st.InBounds l.env.malloc st') ↔ l.Short := by
  rw [Line.parse, parseHandler] at h
  cases hd : handlerOf l.pass l.iniSection l.name with
  | none =>
    rw [hd] at h
    cases h
    exact terminated_iff hst (fun _ => .of_same rfl rfl rfl) fun _ => by simp [Line.Short, hd]
  | some hd' =>
    rw [hd] at h
    rw [run_iff_short hst h]
    simp [Line.Short, hd]

/-- Lines that are accepted, one after the other. -/
inductive Accepted : State → List Line → State → Prop
  | nil (st : State) : Accepted st [] st
  | cons {l : Line} {ls : List Line} {st st₁ st' : State} (h : l.parse st = .ok (0, st₁))
      (hls : Accepted st₁ ls st') : Accepted st (l :: ls) st'

/-- The strings end in every state that is reached. -/
theorem Accepted.terminated {ls : List Line} (h : Accepted st ls st') (hst : st.Terminated)
    (hshort : ∀ l ∈ ls, l.Short) : st'.Terminated := by
  induction h with
  | nil st => exact hst
  | cons h hls ih =>
    have hline := (Line.parse_iff_short hst h).mpr (hshort _ List.mem_cons_self)
    exact ih hline.1 fun l hl => hshort l (List.mem_cons_of_mem _ hl)

/-- What an accepted line stores ends within its array, and in bounds, exactly when its names are
    shorter than their arrays; what `CFG_add_default` copies for the targets is in bounds exactly when
    their strings are. In a run of lines with such names all strings end. -/
theorem stored_iff_short (l : Line) (malloc : Malloc) (ts : List Target) (s : Status) (menus : List ℕ)
    (ls : List Line) (st : State) :
    (∀ st', st.Terminated → l.parse st = .ok (0, st') →
      ((st'.Terminated ∧ st.InBounds l.env.malloc st') ↔ l.Short)) ∧
    (Grants malloc → MenuList s menus → Config.Terminated s →
      ((∃ s', addDefault malloc ts s = some s' ∧ Config.Terminated s' ∧
        Config.InBounds malloc s s') ↔ ∀ t ∈ ts, t.Fits)) ∧
    ∀ st', st.Terminated → Accepted st ls st' → (∀ l ∈ ls, l.Short) → st'.Terminated := by
  refine ⟨fun st' hst h => Line.parse_iff_short hst h, ?_,
    fun st' hst h hshort => h.terminated hst hshort⟩
  intro hg hl hs
  rw [← addDefault_isSome_iff hg hl]
  constructor
  · rintro ⟨s', h, -⟩
    exact ⟨s', h⟩
  · rintro ⟨s', h⟩
    exact ⟨s', h, (addDefault_stores h).terminated hs, (addDefault_stores h).inBounds⟩

theorem blank_terminated : blank.Terminated :=
  ⟨fun f k => ⟨0, f.size_pos, by cases f <;> rfl⟩, ⟨0, by decide, rfl⟩, ⟨0, by decide, rfl⟩⟩

/-- `BIN` with a path of `n` letters. -/
def binLine (n : ℕ) (h : n < maxLineLen) : Line where
  pass := .pre
  iniSection := .setup
  name := .bin
  value := ⟨List.replicate n 0x61, by simp, by rw [List.length_replicate]; exact h⟩
  env := plenty InPlace.emptyBuffer

/-- A path of 85 letters is followed by its NUL. -/
theorem shortPath_terminated : ∃ st', (binLine 85 (by decide)).parse blank = .ok (0, st') ∧
    st'.Terminated ∧ blank.InBounds (plenty InPlace.emptyBuffer).malloc st' := by
  refine ⟨_, rfl, ?_⟩
  have hline := (stored_iff_short (binLine 85 (by decide)) (plenty InPlace.emptyBuffer).malloc []
    blank.menu [] [] blank).1 _ blank_terminated rfl
  refine hline.mpr fun hd hmem => ?_
  cases hmem
  refine ⟨fun _ => ?_, fun _ _ => rfl⟩
  rw [binLine, List.length_replicate]
  decide

/-- A path of 86 letters fills the array, which then has no NUL. -/
theorem longPath_unterminated : ¬∀ (l : Line) (st st' : State), st.Terminated →
    l.parse st = .ok (0, st') → st'.Terminated := by
  intro h
  have hterm := h (binLine 86 (by decide)) blank _ blank_terminated rfl
  have hlen := (strncpy_ends_iff (binLine 86 (by decide)).value.nonzero).mp hterm.bin_file
  rw [binLine, List.length_replicate] at hlen
  exact absurd hlen (by decide)

end Config.Handlers
