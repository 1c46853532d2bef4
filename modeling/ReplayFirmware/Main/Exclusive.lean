import ReplayFirmware.Lib.Steps
import ReplayFirmware.Main.Loop
import ReplayFirmware.Menu.Hosted

/-! Who works on the card.

    The firmware gives the card to the USB host when the user asks for it, and does not touch it
    until the user takes it back. `USB_MountMassStorage` ejects the drives and unmounts the
    partition; but it looks for drives only where the partition is mounted, and a path that names no
    file is inserted without one. -/

namespace Main
open FileIO.Slots Menu

variable {b b' : State}

/-! ### The property and its invariant -/

/-- No drive is inserted. -/
def NoneInserted (s : FileIO.Slots.State) : Prop := ∀ k, (s.handle k).inserted = false

/-- While the USB host has the card, the firmware has nothing of it. -/
def Exclusive (b : State) : Prop :=
  b.usb_mounted = true →
    b.fs_mounted_ok = false ∧ b.mounted = false ∧ b.fatFs = false ∧ NoneInserted b.slots

/-- Where the partition is not mounted there is no volume and no file system, nor while the host has
    the card, and the menu knows who has it. -/
structure Inv (b : State) : Prop where
  unmounted : b.mounted = false → b.fatFs = false ∧ b.fs_mounted_ok = false
  released : b.usb_mounted = true → b.mounted = false
  hosted : Hosted b.menu

/-- A key gives the card to the host only where the partition is mounted or no drive is inserted. -/
def Cleared (b : State) : Event → Prop
  | .keys osd key env _ _ _ =>
    osd = true → Call.act .toggleUsb ∈ (handleUi (b.env env) key b.menu).2.1 →
      b.usb_mounted = false → b.mounted = true ∨ NoneInserted b.slots
  | _ => True

/-- The card stays where it is, and nothing of it is mounted; while the host has it and the firmware
    has no file system, no drive is inserted. -/
structure NoMore (b b' : State) : Prop where
  usb : b'.usb_mounted = b.usb_mounted
  type : b'.type = b.type
  fatFs : b'.fatFs = b.fatFs
  fs : b'.fs_mounted_ok = true → b.fs_mounted_ok = true
  hosted : Hosted b.menu → Hosted b'.menu
  slots : b.usb_mounted = true → b.fs_mounted_ok = false → NoneInserted b.slots →
    NoneInserted b'.slots

theorem NoMore.fs_false (h : NoMore b b') (hfs : b.fs_mounted_ok = false) :
    b'.fs_mounted_ok = false := by
  rw [← Bool.not_eq_true]
  exact fun hfs' => absurd (hfs.symm.trans (h.fs hfs')) Bool.false_ne_true

theorem NoMore.trans {b'' : State} (h : NoMore b b') (h' : NoMore b' b'') : NoMore b b'' where
  usb := h'.usb.trans h.usb
  type := h'.type.trans h.type
  fatFs := h'.fatFs.trans h.fatFs
  fs := fun hfs => h.fs (h'.fs hfs)
  hosted := fun hh => h'.hosted (h.hosted hh)
  slots := fun hm hfs hs => h'.slots (h.usb.trans hm) (h.fs_false hfs) (h.slots hm hfs hs)

theorem NoMore.refl (b : State) : NoMore b b := ⟨rfl, rfl, rfl, id, id, fun _ _ h => h⟩

theorem NoMore.mounted (h : NoMore b b') : b'.mounted = b.mounted := by
  rw [State.mounted, h.type, State.mounted]

theorem NoMore.inv (h : NoMore b b') (hb : Inv b) : Inv b' := by
  refine ⟨fun hun => ?_, fun hm => h.mounted.trans (hb.released (h.usb ▸ hm)), h.hosted hb.hosted⟩
  rw [h.mounted] at hun
  obtain ⟨hfat, hfs⟩ := hb.unmounted hun
  exact ⟨h.fatFs.trans hfat, h.fs_false hfs⟩

theorem NoMore.exclusive (h : NoMore b b') (hx : Exclusive b) : Exclusive b' := by
  intro hm
  rw [h.usb] at hm
  obtain ⟨hfs, hun, hfat, hs⟩ := hx hm
  exact ⟨h.fs_false hfs, h.mounted.trans hun, h.fatFs.trans hfat, h.slots hm hfs hs⟩

/-! ### The drives -/

theorem ejectAll_noneInserted : ∀ (ks : List (Fin 2 × Fin 4)) {s : FileIO.Slots.State},
    NoneInserted s → NoneInserted (ejectAll ks s)
  | [], _, h => h
  | k :: ks, s, h => by
    rw [ejectAll, List.foldl_cons, h k]
    exact ejectAll_noneInserted ks h

theorem init_noneInserted (s : FileIO.Slots.State) : NoneInserted (init s) :=
  fun _ => inserted_zero ..

/-- The top of the loop, where the drives are ejected -/
theorem top_noMore (detect : Bool) : NoMore b (top detect b) where
  usb := rfl
  type := rfl
  fatFs := rfl
  fs := id
  hosted := fun h => h.congr rfl rfl
  slots := fun _ _ h => ejectAll_noneInserted byDrive h

theorem drives_noMore : NoMore b (drives b) := by
  rw [drives]
  split
  · exact ⟨rfl, rfl, rfl, id, fun _ => (hosted_setState .showStatus b.menu).congr rfl rfl,
      fun _ _ _ => init_noneInserted _⟩
  · exact ⟨rfl, rfl, rfl, id, id, fun _ _ h => h⟩

/-! ### The card -/

theorem mounted_mountPartition (answer : Bool × Fin 5) (b : State) :
    (mountPartition answer b).mounted = true := by
  have htype : ∀ i : Fin 5, i.val.toUInt8 + 9 ≠ 0 := by decide
  exact decide_eq_true (htype answer.2)

/-- Where no mount was tried, nothing has changed. -/
theorem tryMount_cases : ∀ (answers : List (Bool × Fin 5)) (b : State),
    (tryMount answers b).menu = b.menu ∧
      (tryMount answers b = b ∨ (tryMount answers b).mounted = true)
  | [], b => ⟨rfl, Or.inl rfl⟩
  | answer :: answers, b => by
    rw [tryMount]
    split
    · exact ⟨rfl, Or.inl rfl⟩
    · obtain ⟨hmenu, h⟩ := tryMount_cases answers (mountPartition answer b)
      refine ⟨hmenu, Or.inr ?_⟩
      rcases h with h | h
      · rw [h]
        exact mounted_mountPartition answer b
      · exact h

/-- The card is read again only when the host does not have it. -/
theorem cardStart_cases (a : CardAnswers) (b : State) :
    NoMore b (cardStart a b) ∨
      ((cardStart a b).menu = b.menu ∧ b.usb_mounted = false ∧ (cardStart a b).mounted = true) := by
  have hlost : ∀ ok, NoMore b { b with card_init_ok := ok, fs_mounted_ok := false } := fun _ =>
    ⟨rfl, rfl, rfl, fun h => absurd h Bool.false_ne_true, id, fun _ _ h => h⟩
  rw [cardStart]
  split
  · split
    · exact Or.inl (.refl b)
    · next hnot =>
      rw [not_or, Bool.not_eq_true] at hnot
      split
      · obtain ⟨hmenu, h⟩ := tryMount_cases ((List.finRange 3).map a.mount)
          { b with card_init_ok := true, fs_mounted_ok := false }
        rcases h with h | h
        · rw [h]
          exact Or.inl (hlost true)
        · exact Or.inr ⟨hmenu, hnot.2, h⟩
      · exact Or.inl (hlost false)
  · exact Or.inl (hlost false)

theorem cardStart_inv (a : CardAnswers) (hb : Inv b) : Inv (cardStart a b) := by
  rcases cardStart_cases a b with h | ⟨hmenu, hm, hmounted⟩
  · exact h.inv hb
  · refine ⟨fun hun => absurd (hun.symm.trans hmounted) Bool.false_ne_true, fun hm' => ?_,
      hmenu ▸ hb.hosted⟩
    rw [State.usb_mounted, hmenu] at hm'
    exact absurd (hm.symm.trans hm') Bool.false_ne_true

theorem cardStart_exclusive (a : CardAnswers) (hx : Exclusive b) : Exclusive (cardStart a b) := by
  rcases cardStart_cases a b with h | ⟨hmenu, hm, -⟩
  · exact h.exclusive hx
  · intro hm'
    rw [State.usb_mounted, hmenu] at hm'
    exact absurd (hm.symm.trans hm') Bool.false_ne_true

/-- When the card comes or goes it is started, or not; nothing is mounted after it. -/
theorem card_noMore (detect : Bool) (a : CardAnswers) (deconfigured : Bool) (b : State) :
    ∃ t, NoMore b t ∧ (NoMore t (card detect a deconfigured b) ∨
      NoMore (cardStart a t) (card detect a deconfigured b)) := by
  have hrest : ∀ (p q r : Prop) [Decidable p] [Decidable q] [Decidable r] (t : State), NoMore t
      (if p then { t with phase := .top, menu := { t.menu with coreLoaded := false } }
      else if q then { t with phase := .drives, menu := { t.menu with coreLoaded := false } }
      else if r then
        { t with phase := .drives, menu := { setDefaults t.menu with coreLoaded := false } }
      else { t with phase := .drives }) := by
    intro p q r _ _ _ t
    split
    · exact ⟨rfl, rfl, rfl, id, fun h => h.congr rfl rfl, fun _ _ h => h⟩
    · split
      · exact ⟨rfl, rfl, rfl, id, fun h => h.congr rfl rfl, fun _ _ h => h⟩
      · split
        · exact ⟨rfl, rfl, rfl, id, fun h => h.congr rfl rfl, fun _ _ h => h⟩
        · exact ⟨rfl, rfl, rfl, id, id, fun _ _ h => h⟩
  refine ⟨{ b with card_detected := detect, card_was_removed := b.card_detected && !detect },
    ⟨rfl, rfl, rfl, id, id, fun _ _ h => h⟩, ?_⟩
  rw [card]
  dsimp only
  split
  · exact Or.inr (hrest ..)
  · exact Or.inl (hrest ..)

/-! ### A core -/

theorem load_noMore {sdcard done default' : Bool} (h : load sdcard done default' b = some b') :
    NoMore b b' := by
  have hprepare : NoMore b
      (if b.fs_mounted_ok = true then { b with menu := { b.menu with prepareSdcard := false } }
        else b) := by
    split
    · exact ⟨rfl, rfl, rfl, id, fun h => h.congr rfl rfl, fun _ _ h => h⟩
    · exact ⟨rfl, rfl, rfl, id, id, fun _ _ h => h⟩
  rw [load] at h
  dsimp only at h
  generalize (if b.fs_mounted_ok = true then
    { b with menu := { b.menu with prepareSdcard := false } } else b) = t at h hprepare
  refine hprepare.trans ?_
  split at h
  · cases h
    exact ⟨rfl, rfl, rfl, id, fun h => h.congr rfl rfl, fun _ _ h => h⟩
  · split at h
    · split at h
      · cases h
        exact ⟨rfl, rfl, rfl, id, fun h => h.congr rfl rfl, fun _ _ h => h⟩
      · cases h
    · cases h
      exact ⟨rfl, rfl, rfl, id, fun h => h.congr rfl rfl, fun _ _ h => h⟩

/-- An insert changes nothing but the slots. -/
theorem insert_slots {a : Answers} {ch : Fin 2} {drive_number : Fin 4} {path : List UInt8}
    (h : b.insert a ch drive_number path = some b') : ∃ s, b' = { b with slots := s } := by
  obtain ⟨s, -, rfl⟩ := Option.map_eq_some_iff.mp h
  exact ⟨s, rfl⟩

theorem mountAll_slots : ∀ {ms : List Mount} {b b' : State}, mountAll ms b = some b' →
    ∃ s, b' = { b with slots := s }
  | [], b, _, h => ⟨b.slots, (Option.some.inj h).symm⟩
  | m :: ms, b, b', h => by
    obtain ⟨b₁, hinsert, h⟩ := Option.bind_eq_some_iff.mp h
    obtain ⟨s, rfl⟩ := insert_slots hinsert
    obtain ⟨s', rfl⟩ := mountAll_slots h
    exact ⟨s', rfl⟩

/-- The images of the INI file are inserted when the card can be read. -/
theorem cfgInit_noMore {a : InitAnswers} (h : cfgInit a b = some b') :
    NoMore b b' := by
  have hdrives : NoMore b (setDrives a b) :=
    ⟨rfl, rfl, rfl, id, fun h => h.congr rfl rfl, fun _ _ h => h⟩
  rw [cfgInit] at h
  split at h
  · dsimp only at h
    split at h
    · next hfs =>
      obtain ⟨s, rfl⟩ := mountAll_slots h
      refine hdrives.trans ⟨rfl, rfl, rfl, id, id, fun _ hno => ?_⟩
      exact absurd (hno.symm.trans hfs) Bool.false_ne_true
    · cases h
      exact hdrives
  · cases h
    exact .refl b

theorem initCore_noMore {a : InitAnswers} (h : initCore a b = some b') :
    NoMore b b' := by
  obtain ⟨b₁, hcfg, rfl⟩ := Option.map_eq_some_iff.mp h
  have hfirst : NoMore b b₁ := by
    split at hcfg
    · cases hcfg
      exact ⟨rfl, rfl, rfl, id, id, fun _ _ h => h⟩
    · exact cfgInit_noMore hcfg
  refine hfirst.trans ?_
  dsimp only
  split
  · exact ⟨rfl, rfl, rfl, id, fun _ => (hosted_setState .showStatus _).congr rfl rfl,
      fun _ _ h => h⟩
  · exact ⟨rfl, rfl, rfl, id, fun _ => (hosted_setState .noMenu _).congr rfl rfl,
      fun _ _ h => h⟩

/-! ### The keys -/

variable {a : Answers} {path : List UInt8}

/-- What is no toggle changes the slots at most. -/
theorem performAll_slots {usb_mounted : Bool} : ∀ {calls : List Call} {b b' : State},
    Call.act .toggleUsb ∉ calls → performAll a path usb_mounted calls b = some b' →
      ∃ s, b' = { b with slots := s }
  | [], b, _, _, h => ⟨b.slots, (Option.some.inj h).symm⟩
  | call :: calls, b, b', hc, h => by
    obtain ⟨b₁, hcall, h⟩ := Option.bind_eq_some_iff.mp h
    have hslots : ∃ s, b₁ = { b with slots := s } := by
      cases call with
      | eject ch n =>
        obtain ⟨i, -, rfl⟩ := Option.map_eq_some_iff.mp hcall
        exact ⟨_, rfl⟩
      | insert ch n =>
        obtain ⟨i, -, hcall⟩ := Option.bind_eq_some_iff.mp hcall
        exact insert_slots hcall
      | togProtect ch n =>
        obtain ⟨i, -, rfl⟩ := Option.map_eq_some_iff.mp hcall
        exact ⟨_, rfl⟩
      | act action =>
        cases action with
        | toggleUsb => exact absurd (List.mem_cons_self ..) hc
        | _ => exact ⟨b.slots, (Option.some.inj hcall).symm⟩
      | _ => exact ⟨b.slots, (Option.some.inj hcall).symm⟩
    obtain ⟨s, rfl⟩ := hslots
    obtain ⟨s', rfl⟩ := performAll_slots (fun hmem => hc (List.mem_cons_of_mem _ hmem)) h
    exact ⟨s', rfl⟩

/-- Actions that are no toggle change nothing. -/
theorem performAll_acts {usb_mounted : Bool} : ∀ {calls : List Call} {b : State},
    Call.act .toggleUsb ∉ calls → Acts calls → performAll a path usb_mounted calls b = some b
  | [], _, _, _ => rfl
  | call :: calls, b, hc, hacts => by
    obtain ⟨action, rfl⟩ := hacts call (List.mem_cons_self ..)
    have hcall : perform a path usb_mounted b (.act action) = some b := by
      cases action with
      | toggleUsb => exact absurd (List.mem_cons_self ..) hc
      | _ => rfl
    rw [performAll, hcall, Option.bind_some]
    exact performAll_acts (fun hmem => hc (List.mem_cons_of_mem _ hmem))
      fun c hmem => hacts c (List.mem_cons_of_mem _ hmem)

/-- What is no toggle leaves the card where it is. -/
theorem keeps_noMore {r : Result} (hr : Keeps b.menu r)
    (hacts : b.usb_mounted = true → Acts r.2.1)
    (h : performAll a path b.usb_mounted r.2.1 b = some b') : NoMore b { b' with menu := r.1 } := by
  obtain ⟨s, rfl⟩ := performAll_slots hr.calls h
  refine ⟨hr.mounted, rfl, rfl, id, hr.hosted, fun hm _ hs => ?_⟩
  have hsame := Option.some.inj (h.symm.trans (performAll_acts hr.calls (hacts hm)))
  exact (congrArg State.slots hsame : s = b.slots) ▸ hs

/-- The user takes the card back. -/
theorem unmount_keeps {r : Result} (hb : Inv b) (hr : Toggles b.menu r)
    (hm : b.usb_mounted = true) :
    Inv { unmountMassStorage b with menu := r.1 } ∧
      Exclusive { unmountMassStorage b with menu := r.1 } := by
  have hback : r.1.usbMounted = false := by
    rw [hr.mounted, show b.menu.usbMounted = true from hm]
    rfl
  exact ⟨⟨hb.unmounted, fun hm' => absurd (hback.symm.trans hm') Bool.false_ne_true, hr.hosted⟩,
    fun hm' => absurd (hback.symm.trans hm') Bool.false_ne_true⟩

/-- The user gives the card to the host. -/
theorem mount_keeps {r : Result} (hb : Inv b) (hr : Toggles b.menu r) (hm : b.usb_mounted = false) :
    Inv { mountMassStorage b with menu := r.1 } ∧
      (Exclusive { mountMassStorage b with menu := r.1 } ↔
        b.mounted = true ∨ NoneInserted b.slots) := by
  have hgiven : r.1.usbMounted = true := by
    rw [hr.mounted, show b.menu.usbMounted = false from hm]
    rfl
  rw [mountMassStorage]
  split
  · next hmounted =>
    refine ⟨⟨fun _ => ⟨rfl, rfl⟩, fun _ => rfl, hr.hosted⟩, fun _ => Or.inl hmounted, fun _ _ => ?_⟩
    exact ⟨rfl, rfl, rfl, init_noneInserted _⟩
  · next hmounted =>
    rw [Bool.not_eq_true] at hmounted
    obtain ⟨hfat, hfs⟩ := hb.unmounted hmounted
    refine ⟨⟨fun _ => ⟨hfat, hfs⟩, fun _ => hmounted, hr.hosted⟩,
      fun hx => Or.inr (hx hgiven).2.2.2, ?_⟩
    rintro (h | hs) -
    · exact absurd (hmounted.symm.trans h) Bool.false_ne_true
    · exact ⟨hfs, hmounted, hfat, hs⟩

/-- What the keys come to in the menu. -/
theorem handleKeys_spec {osd button : Bool} {key : UInt16} {env : Env} (hb : Inv b)
    (h : handleKeys osd key env a path b = some b') :
    (NoMore b b' ∧ Cleared b (.keys osd key env a path button)) ∨
      Inv b' ∧ (Exclusive b' ↔ Cleared b (.keys osd key env a path button)) := by
  rw [handleKeys] at h
  split at h
  · next hosd =>
    obtain ⟨t, hall, rfl⟩ := Option.map_eq_some_iff.mp h
    rcases @handleUi_moves (b.env env) key b.menu rfl with hr | hr
    · refine Or.inl ⟨keeps_noMore hr (fun hm => handleUi_acts hb.hosted hm) hall, ?_⟩
      exact fun _ hmem => absurd hmem hr.calls
    · refine Or.inr ?_
      rw [hr.calls] at hall
      have ht : (if b.usb_mounted = true then unmountMassStorage b else mountMassStorage b) = t :=
        Option.some.inj hall
      subst ht
      by_cases hm : b.usb_mounted = true
      · rw [if_pos hm]
        obtain ⟨hinv, hx⟩ := unmount_keeps hb hr hm
        exact ⟨hinv, fun _ _ _ hno => absurd (hno.symm.trans hm) Bool.false_ne_true, fun _ => hx⟩
      · rw [if_neg hm]
        rw [Bool.not_eq_true] at hm
        obtain ⟨hinv, hiff⟩ := mount_keeps hb hr hm
        refine ⟨hinv, fun hx _ _ _ => hiff.mp hx, fun hc => hiff.mpr (hc hosd ?_ hm)⟩
        exact hr.calls ▸ List.mem_singleton_self _
  · next hosd =>
    cases h
    exact Or.inl ⟨.refl b, fun hosd' => absurd hosd' hosd⟩

/-- After the menu a core may be asked for; the card stays where it is. -/
theorem keys_handled {osd button : Bool} {key : UInt16} {env : Env}
    (h : keys osd key env a path button b = some b') :
    ∃ t, handleKeys osd key env a path b = some t ∧ NoMore t b' ∧ NoMore b' t := by
  obtain ⟨t, ht, h⟩ := Option.bind_eq_some_iff.mp h
  split at h
  · cases h
  · cases h
    exact ⟨t, ht, ⟨rfl, rfl, rfl, id, fun h => h.congr rfl rfl, fun _ _ h => h⟩,
      ⟨rfl, rfl, rfl, id, fun h => h.congr rfl rfl, fun _ _ h => h⟩⟩

/-! ### Every phase -/

theorem NoMore.spec {e : Event} (h : NoMore b b') (hb : Inv b) (hc : Cleared b e) :
    Inv b' ∧ (Exclusive b → (Exclusive b' ↔ Cleared b e)) :=
  ⟨h.inv hb, fun hx => ⟨fun _ => hc, fun _ => h.exclusive hx⟩⟩

theorem keys_spec {osd button : Bool} {key : UInt16} {env : Env} (hb : Inv b)
    (h : keys osd key env a path button b = some b') :
    Inv b' ∧ (Exclusive b → (Exclusive b' ↔ Cleared b (.keys osd key env a path button))) := by
  obtain ⟨t, ht, hafter, hbefore⟩ := keys_handled h
  rcases handleKeys_spec hb ht with ⟨hless, hc⟩ | ⟨hinv, hiff⟩
  · exact (hless.trans hafter).spec hb hc
  · exact ⟨hafter.inv hinv, fun _ => ⟨fun hx => hiff.mp (hbefore.exclusive hx),
      fun hc => hafter.exclusive (hiff.mpr hc)⟩⟩

/-- What a phase preserves. -/
theorem step_spec {e : Event} (hb : Inv b) (h : step b e = some b') :
    Inv b' ∧ (Exclusive b → (Exclusive b' ↔ Cleared b e)) := by
  unfold step at h
  split at h
  · cases h
    exact (top_noMore _).spec hb trivial
  · next a _ =>
    cases h
    have hphase : NoMore (cardStart a b) { cardStart a b with phase := .load } :=
      ⟨rfl, rfl, rfl, id, id, fun _ _ h => h⟩
    refine ⟨hphase.inv (cardStart_inv a hb), fun hx => ⟨fun _ => trivial, fun _ => ?_⟩⟩
    exact hphase.exclusive (cardStart_exclusive a hx)
  · exact (load_noMore h).spec hb trivial
  · exact (initCore_noMore h).spec hb trivial
  · exact keys_spec hb h
  · next detect a deconfigured _ =>
    cases h
    obtain ⟨t, hfirst, hlast | hlast⟩ := card_noMore detect a deconfigured b
    · exact (hfirst.trans hlast).spec hb trivial
    · refine ⟨hlast.inv (cardStart_inv a (hfirst.inv hb)), fun hx => ?_⟩
      refine ⟨fun _ => trivial, fun _ => ?_⟩
      exact hlast.exclusive (cardStart_exclusive a (hfirst.exclusive hx))
  · cases h
    exact drives_noMore.spec hb trivial
  · cases h

/-! ### Runs -/

theorem powerUp_inv (type : UInt8) : Inv (powerUp type) :=
  ⟨fun _ => ⟨rfl, rfl⟩, fun hm => absurd hm Bool.false_ne_true,
    fun hm => absurd hm Bool.false_ne_true⟩

/-- In every run the partition is unmounted while the host has the card. -/
theorem released_always (type : UInt8) (events : List Event) :
    Steps.AllStates step Inv (powerUp type) events :=
  Steps.allStates_of_inv (fun _ _ _ hb h => (step_spec hb h).1) events (powerUp_inv type)

/-- From power-up on the firmware and the host never have the card together, if and only if every
    key that gives it to the host finds the partition mounted or the drives empty. -/
theorem exclusive_iff (type : UInt8) (events : List Event) :
    Steps.AllStates step Exclusive (powerUp type) events ↔
      Steps.AllSteps step Cleared (powerUp type) events :=
  Steps.allStates_iff (fun _ _ _ hb h => (step_spec hb h).1)
    (fun _ _ _ hb hx h => (step_spec hb h).2 hx) events (powerUp_inv type)
    fun hm => absurd hm Bool.false_ne_true

/-! ### A drive that is left inserted -/

/-- Nothing going on but keys. -/
def quiet : Env where
  osdTimer := false
  scanTimer := false
  newRate := false
  srecords := none
  inserted := fun _ _ => false
  protect := fun _ _ => false
  isDir := false
  isDot := false
  named := true
  uploaded := false
  unmounted := true

/-- A core with one drive and a menu for it, from a card that is mounted at once. -/
def booted : List Event :=
  [.top true, .start ⟨true, fun _ => (true, 4)⟩, .load true false false,
    .init
      { syscon := true, ena := fun _ => 1, drv := fun _ => 0, mounts := []
        menuTop := [[⟨[0x44], .chaSelect, 0, [[]]⟩, ⟨[0x55], .mountmsc, 0, [[]]⟩]]
        removable := fun _ => true, osd_init := true }]

/-- A key, and whether there is a card after it. -/
def turn (env : Env) (path : List UInt8) (detect : Bool) (key : UInt16) : List Event :=
  [.keys true key env imageAnswers path false, .card detect ⟨false, fun _ => (false, 0)⟩ false,
    .drives]

/-- The browser enters a directory whose name is shown as `?`, as FatFs gives a name that is not in
    its code page, and is left. The host gets the card, which is then taken out, and the user ends
    the mode. The browser finds nothing; its empty entry makes an image of the path `\?\`. The host
    gets the card once more. -/
def leftInserted : List Event :=
  booted ++ [keyRight, keyDown, keyEnter].flatMap (turn quiet [] true)
    ++ turn { quiet with isDir := true } [] true keyEnter
    ++ [keyEsc, keyDown, keyEnter, keyLeft, keyEnter].flatMap (turn quiet [] true)
    ++ [0, keyEsc, keyLeft, keyEnter, keyRight, keyUp, keyEnter].flatMap (turn quiet [] false)
    ++ turn quiet [0x5C, 0x3F, 0x5C] false keyEnter
    ++ [keyDown, keyEnter, keyLeft, keyEnter].flatMap (turn quiet [] false)

theorem drive_left_inserted :
    ¬∀ type events, Steps.AllStates step Exclusive (powerUp type) events := by
  intro hall
  have hsome : (Steps.run step (powerUp 0) leftInserted).isSome = true := by decide +kernel
  have hleft : ∀ b ∈ Steps.run step (powerUp 0) leftInserted,
      b.usb_mounted = true ∧ (b.slots.handle (0, 0)).inserted = true := by decide +kernel
  obtain ⟨b, hrun⟩ := Option.isSome_iff_exists.mp hsome
  obtain ⟨hm, hi⟩ := hleft b hrun
  have hx : Exclusive b := Steps.AllStates.reached (hall 0 (leftInserted ++ [])) hrun
  exact absurd (hi.symm.trans ((hx hm).2.2.2 (0, 0))) Bool.false_ne_true.symm

end Main
