import ReplayFirmware.Menu.HandleUi

/-! The menu while the USB host has the card.

    Whoever asks for a state gets the USB screen instead, or a hidden menu, or a pop-up: from none of them
    the file browser can be reached. One action alone hands the card over or takes it back. -/

namespace Menu

variable {env : Env} {key : UInt16} {s s' : Status} {calls : List Call} {update : Bool}

/-! ### Handlers that leave the card where it is -/

/-- While the host has the card, the menu is hidden, asks a question or shows the USB screen. -/
def Hosted (s : Status) : Prop :=
  s.usbMounted = true →
    s.menuState = .noMenu ∨ s.menuState = .popupMenu ∨ s.menuState = .usbStatus

/-- The card stays where it is. -/
structure Keeps (s : Status) (r : Result) : Prop where
  mounted : r.1.usbMounted = s.usbMounted
  hosted : Hosted s → Hosted r.1
  calls : Call.act .toggleUsb ∉ r.2.1

/-- The card goes to the other side. -/
structure Toggles (s : Status) (r : Result) : Prop where
  mounted : r.1.usbMounted = !s.usbMounted
  hosted : Hosted r.1
  calls : r.2.1 = [.act .toggleUsb]

theorem hosted_setState (state : MenuState) (s : Status) : Hosted (setState state s) := by
  intro hm
  replace hm : s.usbMounted = true := hm
  rw [setState, hm]
  by_cases hno : state = .noMenu
  · exact Or.inl (by simp [hno])
  · by_cases hpopup : state = .popupMenu
    · exact Or.inr (Or.inl (by simp [hpopup]))
    · exact Or.inr (Or.inr (by simp [hno, hpopup]))

theorem Hosted.congr (h : Hosted s) (hm : s'.usbMounted = s.usbMounted)
    (hs : s'.menuState = s.menuState) : Hosted s' := by
  rw [Hosted, hm, hs]
  exact h

/-- The screen stays the same. -/
theorem keeps_same (hc : Call.act .toggleUsb ∉ calls) (hm : s'.usbMounted = s.usbMounted)
    (hs : s'.menuState = s.menuState) : Keeps s (s', calls, update) :=
  ⟨hm, fun h => h.congr hm hs, hc⟩

/-- Another screen is asked for. -/
theorem keeps_state (state : MenuState) (t : Status) (hc : Call.act .toggleUsb ∉ calls)
    (ht : t.usbMounted = s.usbMounted) (hm : s'.usbMounted = t.usbMounted)
    (hs : s'.menuState = (setState state t).menuState) : Keeps s (s', calls, update) :=
  ⟨hm.trans ht, fun _ => (hosted_setState state t).congr hm hs, hc⟩

theorem Keeps.trans {r : Result} (hm : s'.usbMounted = s.usbMounted) (hh : Hosted s → Hosted s')
    (h : Keeps s' r) : Keeps s r := ⟨h.mounted.trans hm, fun hs => h.hosted (hh hs), h.calls⟩

theorem executeSelect_keeps (ch : Channel) (drive : UInt32) :
    Keeps s (executeSelect env ch drive s) := by
  rw [executeSelect]
  split
  · split
    · split
      · exact keeps_same (by simp) rfl rfl
      · exact keeps_same (by simp) rfl rfl
    · exact keeps_state .fileBrowser s (by simp) rfl rfl rfl
  · exact keeps_same (by simp) rfl rfl

theorem menuExecute_keeps (item : Item) : Keeps s (menuExecute env item s) := by
  rw [menuExecute]
  split
  · exact executeSelect_keeps .a _
  · exact executeSelect_keeps .b _
  · exact keeps_state .fileBrowser s (by simp) rfl rfl rfl
  · exact keeps_state .fileBrowser s (by simp) rfl rfl rfl
  · exact keeps_state .fileBrowser s (by simp) rfl rfl rfl
  · exact keeps_state .noMenu s (by simp) rfl rfl rfl
  · split
    · exact keeps_state .fileBrowser s (by simp) rfl rfl rfl
    · exact keeps_same (by simp) rfl rfl
  · split
    · exact keeps_state .noMenu s (by simp) rfl rfl rfl
    · exact keeps_same (by simp) rfl rfl
  · exact keeps_same (by simp) rfl rfl
  · exact keeps_state .popupMenu s (by simp) rfl rfl rfl
  · exact keeps_state .popupMenu s (by simp) rfl rfl rfl
  · exact keeps_state .popupMenu s (by simp) rfl rfl rfl
  · exact keeps_state .popupMenu s (by simp) rfl rfl rfl
  · exact keeps_same (by simp) rfl rfl
  · exact keeps_same (by simp) rfl rfl

theorem browserExecute_keeps (item : Item) : Keeps s (browserExecute env item s) := by
  rw [browserExecute]
  split
  · split
    · exact keeps_state .showMenu s (by simp) rfl rfl rfl
    · exact keeps_same (by simp) rfl rfl
  · split
    · exact keeps_state .showMenu s (by simp) rfl rfl rfl
    · exact keeps_same (by simp) rfl rfl
  · exact keeps_state .noMenu s (by simp) rfl rfl rfl
  · split
    · exact keeps_state .noMenu s (by simp) rfl rfl rfl
    · exact keeps_same (by simp) rfl rfl
  · split
    · exact keeps_state .showStatus s (by simp) rfl rfl rfl
    · exact keeps_state .showStatus s (by simp) rfl rfl rfl
  · split
    · exact keeps_state .showMenu s (by simp) rfl rfl rfl
    · exact keeps_state .showMenu s (by simp) rfl rfl rfl
  · exact keeps_same (by simp) rfl rfl

theorem keyActionMenu_keeps {m : KeyMapping} (hm : m ∈ keymappingsMenu) :
    Keeps s (m.action env key s) := by
  rw [keymappingsMenu] at hm
  simp only [List.mem_cons, List.not_mem_nil, or_false] at hm
  rcases hm with rfl | rfl | rfl | rfl | rfl | rfl | rfl
  · change Keeps s (keyActionMenuProtect env key s)
    rw [keyActionMenuProtect]
    split
    · split
      · exact keeps_same (by simp) rfl rfl
      · split
        · exact keeps_same (by simp) rfl rfl
        · exact keeps_same (by simp) rfl rfl
    · exact keeps_same (by simp) rfl rfl
  · change Keeps s (keyActionMenuLeft env key s)
    rw [keyActionMenuLeft]
    split
    · split
      · split
        · exact keeps_same (by simp) rfl rfl
        · exact keeps_same (by simp) rfl rfl
      · exact keeps_same (by simp) rfl rfl
    · split
      · exact keeps_same (by simp) rfl rfl
      · exact keeps_state .showStatus s (by simp) rfl rfl rfl
  · change Keeps s (keyActionMenuRight env key s)
    rw [keyActionMenuRight]
    split
    · split
      · split
        · exact keeps_same (by simp) rfl rfl
        · exact keeps_same (by simp) rfl rfl
      · exact keeps_same (by simp) rfl rfl
    · split
      · split
        · exact keeps_same (by simp) rfl rfl
        · exact keeps_state .showStatus s (by simp) rfl rfl rfl
      · exact keeps_state .showStatus s (by simp) rfl rfl rfl
  · change Keeps s (keyActionMenuUp env key s)
    rw [keyActionMenuUp]
    split
    · split
      · split
        · exact keeps_same (by simp) rfl rfl
        · exact keeps_same (by simp) rfl rfl
      · split
        · exact keeps_same (by simp) rfl rfl
        · exact keeps_same (by simp) rfl rfl
    · exact keeps_same (by simp) rfl rfl
  · change Keeps s (keyActionMenuDown env key s)
    rw [keyActionMenuDown]
    split
    · split
      · split
        · exact keeps_same (by simp) rfl rfl
        · exact keeps_same (by simp) rfl rfl
      · exact keeps_same (by simp) rfl rfl
    · exact keeps_same (by simp) rfl rfl
    · split
      · split
        · exact keeps_same (by simp) rfl rfl
        · exact keeps_same (by simp) rfl rfl
      · exact keeps_same (by simp) rfl rfl
  · change Keeps s (keyActionMenuEnter env key s)
    rw [keyActionMenuEnter]
    split
    · exact menuExecute_keeps _
    · exact keeps_same (by simp) rfl rfl
  · change Keeps s (keyActionMenuEsc env key s)
    rw [keyActionMenuEsc]
    split
    · exact keeps_same (by simp) rfl rfl
    · exact keeps_state .popupMenu s (by simp) rfl rfl rfl

theorem keyActionFilebrowser_keeps {m : KeyMapping} (hm : m ∈ keymappingsFilebrowser) :
    Keeps s (m.action env key s) := by
  have hmove : Keeps s (keyActionFilebrowserMove env key s) := keeps_same (by simp) rfl rfl
  rw [keymappingsFilebrowser] at hm
  simp only [List.mem_cons, List.not_mem_nil, or_false] at hm
  rcases hm with rfl | rfl | rfl | rfl | rfl | rfl | rfl | rfl | rfl | rfl | rfl
  · exact hmove
  · exact hmove
  · exact hmove
  · exact hmove
  · exact hmove
  · exact hmove
  · change Keeps s (keyActionFilebrowserEnter env key s)
    rw [keyActionFilebrowserEnter]
    split
    · exact keeps_same (by simp) rfl rfl
    · split
      · split
        · exact keeps_same (by simp) rfl rfl
        · exact browserExecute_keeps _
      · exact keeps_same (by simp) rfl rfl
  · exact keeps_state .showMenu s (by simp) rfl rfl rfl
  · exact keeps_same (by simp) rfl rfl
  · exact hmove
  · change Keeps s (keyActionFilebrowserDefault env key s)
    rw [keyActionFilebrowserDefault]
    split
    · exact keeps_same (by simp) rfl rfl
    · exact keeps_same (by simp) rfl rfl

theorem keyActionShowstatus_keeps {m : KeyMapping} (hm : m ∈ keymappingsShowstatus) :
    Keeps s (m.action env key s) := by
  rw [keymappingsShowstatus] at hm
  simp only [List.mem_cons, List.not_mem_nil, or_false] at hm
  rcases hm with rfl | rfl
  · change Keeps s (keyActionShowstatusLeft env key s)
    rw [keyActionShowstatusLeft]
    split
    · exact keeps_state .showMenu { s with menuAct := some (s.menuTop.length - 1) } (by simp) rfl rfl rfl
    · exact keeps_same (by simp) rfl rfl
  · change Keeps s (keyActionShowstatusRight env key s)
    rw [keyActionShowstatusRight]
    split
    · exact keeps_state .showMenu { s with menuAct := some 0 } (by simp) rfl rfl rfl
    · exact keeps_same (by simp) rfl rfl

/-! ### The pop-up -/

/-- What `_MENU_update` does about the card; `FF_UnmountPartition` does not fail. -/
theorem menuUpdate_moves (henv : env.unmounted = true) :
    Keeps s (menuUpdate env s) ∨ Toggles s (menuUpdate env s) := by
  rw [menuUpdate]
  split
  · exact Or.inl (keeps_same (by simp) rfl rfl)
  · split
    · refine Or.inr ⟨?_, ?_, rfl⟩
      · by_cases hm : s.usbMounted = true
        · simp [setState, hm]
        · simp [setState, hm]
      · exact (hosted_setState .showStatus _).congr rfl rfl
    · split
      · exact Or.inl (keeps_state .showStatus s (by simp) rfl rfl rfl)
      · split
        · exact Or.inl (keeps_state .showStatus (initUi s) (by simp) rfl rfl rfl)
        · split
          · exact Or.inl (keeps_state .showStatus s (by simp) rfl rfl rfl)
          · exact Or.inl (keeps_state .showStatus s (by simp) rfl rfl rfl)

theorem keyActionPopup_moves (henv : env.unmounted = true) {m : KeyMapping}
    (hm : m ∈ keymappingsPopup) :
    Keeps s (m.action env key s) ∨ Toggles s (m.action env key s) := by
  rw [keymappingsPopup] at hm
  simp only [List.mem_cons, List.not_mem_nil, or_false] at hm
  rcases hm with rfl | rfl | rfl | rfl
  · exact Or.inl (keeps_same (by simp) rfl rfl)
  · exact Or.inl (keeps_same (by simp) rfl rfl)
  · change Keeps s (keyActionPopupEnter env key s) ∨ Toggles s (keyActionPopupEnter env key s)
    rw [keyActionPopupEnter]
    split
    · rcases @menuUpdate_moves env (setState .noMenu s) henv with h | h
      · exact Or.inl ⟨h.mounted, fun _ => h.hosted (hosted_setState .noMenu s), h.calls⟩
      · exact Or.inr ⟨h.mounted, h.hosted, h.calls⟩
    · exact Or.inl (keeps_state .noMenu s (by simp) rfl rfl rfl)
  · exact Or.inl (keeps_state .showMenu s (by simp) rfl rfl rfl)

/-! ### `MENU_handle_ui` -/

/-- The handlers of all screens. -/
theorem moves_of_mem (henv : env.unmounted = true) {state : MenuState} {m : KeyMapping}
    (hm : m ∈ keymappings state) :
    Keeps s (m.action env key s) ∨ Toggles s (m.action env key s) := by
  cases state with
  | noMenu => exact absurd hm List.not_mem_nil
  | showMenu => exact Or.inl (keyActionMenu_keeps hm)
  | fileBrowser => exact Or.inl (keyActionFilebrowser_keeps hm)
  | showStatus => exact Or.inl (keyActionShowstatus_keeps hm)
  | popupMenu => exact keyActionPopup_moves henv hm
  | usbStatus =>
    rw [List.mem_singleton.mp hm]
    exact Or.inl (keeps_state .popupMenu s (by simp) rfl rfl rfl)

theorem pressKey_moves (henv : env.unmounted = true) :
    Keeps s (pressKey env key update s) ∨ Toggles s (pressKey env key update s) := by
  rw [pressKey]
  split
  · next hfind => exact moves_of_mem henv (List.mem_of_find?_eq_some hfind)
  · exact Or.inl (keeps_same (by simp) rfl rfl)

theorem timeout_keeps : (timeout env key update s).1.usbMounted = s.usbMounted ∧
    (Hosted s → Hosted (timeout env key update s).1) := by
  rw [timeout]
  split
  · split
    · exact ⟨rfl, id⟩
    · split
      · split
        · exact ⟨rfl, id⟩
        · exact ⟨rfl, fun _ => hosted_setState .noMenu _⟩
      · exact ⟨rfl, id⟩
  · split
    · exact ⟨rfl, fun _ => (hosted_setState .showStatus s).congr rfl rfl⟩
    · exact ⟨rfl, id⟩

theorem verify_keeps : (verify env s).usbMounted = s.usbMounted ∧
    (Hosted s → Hosted (verify env s)) := by
  rw [verify]
  split
  · split
    · exact ⟨rfl, id⟩
    · exact ⟨rfl, fun _ => (hosted_setState .popupMenu s).congr rfl rfl⟩
  · exact ⟨rfl, id⟩

/-- Drawing the screen changes nothing but the cursor. -/
theorem finish_same (env : Env) (r : Result) :
    (finish env r).1.usbMounted = r.1.usbMounted ∧ (finish env r).1.menuState = r.1.menuState ∧
      (finish env r).2.1 = r.2.1 := by
  obtain ⟨t, calls, update⟩ := r
  rw [finish]
  dsimp only
  split
  · rw [updateUi]
    split
    · exact ⟨rfl, rfl, rfl⟩
    · exact ⟨rfl, rfl, rfl⟩
  · exact ⟨rfl, rfl, rfl⟩

theorem finish_moves {r : Result} (h : Keeps s r ∨ Toggles s r) :
    Keeps s (finish env r) ∨ Toggles s (finish env r) := by
  obtain ⟨hm, hs, hc⟩ := finish_same env r
  rcases h with h | h
  · exact Or.inl ⟨hm.trans h.mounted, fun hh => (h.hosted hh).congr hm hs, hc ▸ h.calls⟩
  · exact Or.inr ⟨hm.trans h.mounted, h.hosted.congr hm hs, hc.trans h.calls⟩

/-- A key leaves the card where it is, or hands it to the other side. -/
theorem handleUi_moves (henv : env.unmounted = true) :
    Keeps s (handleUi env key s) ∨ Toggles s (handleUi env key s) := by
  rw [handleUi]
  split
  · exact Or.inl (keeps_same (by simp) rfl rfl)
  have ht := @timeout_keeps env key { s with update := false } s.update
  split
  · next s' heq =>
    rw [heq] at ht
    exact Or.inl ⟨ht.1, fun h => ht.2 (h.congr rfl rfl), by simp⟩
  · next s' heq =>
    rw [heq] at ht
    have hv := @verify_keeps env s'
    have hmounted : (verify env s').usbMounted = s.usbMounted := hv.1.trans ht.1
    have hhosted : Hosted s → Hosted (verify env s') := fun h => hv.2 (ht.2 (h.congr rfl rfl))
    dsimp only
    split
    · split
      · exact Or.inl (keeps_state .noMenu (verify env s') (by simp) hmounted rfl rfl)
      · exact finish_moves (Or.inl (keeps_state .showStatus (verify env s') (by simp) hmounted rfl rfl))
    · rcases @pressKey_moves env key (verify env s') s.update henv with h | h
      · exact finish_moves (Or.inl (h.trans hmounted hhosted))
      · exact finish_moves (Or.inr ⟨by rw [h.mounted, hmounted], h.hosted, h.calls⟩)

/-! ### What the host's screens do -/

/-- Nothing but actions. -/
def Acts (calls : List Call) : Prop := ∀ c ∈ calls, ∃ action, c = .act action

theorem menuUpdate_acts : Acts (menuUpdate env s).2.1 := by
  have hact : ∀ action, Acts [.act action] := fun action c hc => ⟨action, List.mem_singleton.mp hc⟩
  rw [menuUpdate]
  split
  · exact hact _
  · split
    · exact hact _
    · split
      · exact hact _
      · split
        · exact hact _
        · split
          · exact hact _
          · exact hact _

/-- While the host has the card, a key makes nobody insert or eject an image. -/
theorem handleUi_acts (h : Hosted s) (hm : s.usbMounted = true) : Acts (handleUi env key s).2.1 := by
  have hnil : Acts [] := fun _ hc => absurd hc List.not_mem_nil
  rw [handleUi]
  split
  · exact hnil
  have ht := @timeout_keeps env key { s with update := false } s.update
  split
  · exact hnil
  · next s' heq =>
    rw [heq] at ht
    have hv := @verify_keeps env s'
    have hscreen := hv.2 (ht.2 (h.congr rfl rfl)) ((hv.1.trans ht.1).trans hm)
    dsimp only
    split
    · split
      · exact hnil
      · rw [(finish_same _ _).2.2]
        exact hnil
    · rw [(finish_same _ _).2.2, pressKey]
      split
      swap
      · exact hnil
      next m hfind =>
        have hmem := List.mem_of_find?_eq_some hfind
        rcases hscreen with hs | hs | hs
        · rw [hs] at hmem
          exact absurd hmem List.not_mem_nil
        · rw [hs] at hmem
          simp only [keymappings, keymappingsPopup, List.mem_cons, List.not_mem_nil, or_false] at hmem
          rcases hmem with rfl | rfl | rfl | rfl
          · exact hnil
          · exact hnil
          · dsimp only
            rw [keyActionPopupEnter]
            split
            · exact menuUpdate_acts
            · exact hnil
          · exact hnil
        · rw [hs] at hmem
          rw [List.mem_singleton.mp hmem]
          exact hnil

end Menu
