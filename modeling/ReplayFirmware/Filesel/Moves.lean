import ReplayFirmware.Filesel.Browse

/-! Every run of scans and moves keeps the browser a window on the sorted directory, with an entry of it
    selected; until a scan has found something, nothing is selected and moves do nothing. -/

namespace Filesel
open Libc Nearest

variable {vol : Volume} {L : List FileEntry} {s : TDirScan} {base : ℤ}

/-! ### Steps -/

theorem toNat_add_of_lt {a b : UInt8} (h : a.toNat + b.toNat < 256) :
    (a + b).toNat = a.toNat + b.toNat := by
  rw [UInt8.toNat_add, Nat.mod_eq_of_lt h]

theorem toNat_sel_add {sel : UInt8} (h : sel.toNat < 255) : (sel + 1).toNat = sel.toNat + 1 :=
  toNat_add_of_lt (b := 1) (Nat.add_lt_of_lt_sub h)

theorem toNat_sel_sub {sel : UInt8} (h : 1 ≤ sel.toNat) : (sel - 1).toNat = sel.toNat - 1 :=
  UInt8.toNat_sub_of_le _ _ (UInt8.le_iff_toNat_le.mpr h)

theorem Stands.current (h : Stands L s base) :
    (s.sel - s.offset).toNat = s.sel.toNat - s.offset.toNat :=
  UInt8.toNat_sub_of_le _ _ (UInt8.le_iff_toNat_le.mpr h.window.1)

/-- A step inside the window. -/
theorem Stands.move (h : Stands L s base) {sel : UInt8} (hsel : 117 ≤ sel.toNat)
    (hwin : s.offset.toNat ≤ sel.toNat ∧ sel.toNat < s.offset.toNat + 12)
    (hpos : 0 ≤ position base sel ∧ position base sel < L.length) :
    Stands L { s with sel := sel } base :=
  ⟨⟨h.ref, h.prev, h.next⟩, h.offset_ge, h.offset_le, hsel, hwin, hpos⟩

/-- `SCAN_NEXT` goes to the successor. -/
theorem Stands.update_next (h : Stands (listed (s.entries vol)) s base)
    (hlt : position base s.sel + 1 < (listed (s.entries vol)).length) :
    ∃ s' base', update vol .next s = some (scanOk, s') ∧ s'.entries vol = s.entries vol ∧
      Stands (listed (s.entries vol)) s' base' ∧
      position base' s'.sel = position base s.sel + 1 := by
  have h1 := h.offset_ge
  have h2 := h.offset_le
  have h3 := h.sel_ge
  obtain ⟨h4, h5⟩ := h.window
  obtain ⟨hp0, hp1⟩ := h.selected
  have hsel : (s.sel + 1).toNat = s.sel.toNat + 1 := toNat_sel_add (by omega)
  have hpos : position base (s.sel + 1) = position base s.sel + 1 := by
    rw [position, position, hsel]
    omega
  have hcheck : checkIndex s (s.sel + 1) = true :=
    (h.checkIndex (by omega) (by omega)).mpr (by omega)
  rw [update, if_pos hcheck]
  by_cases hedge : s.sel - s.offset ≥ 11
  · rw [if_pos hedge]
    have hnew : position (position base s.sel) 129 = position base s.sel + 1 := by
      rw [position, show (129 : UInt8).toNat = 129 from rfl]
      omega
    exact ⟨_, _, rfl, rescan_entries s s.sel,
      (rescan_view h.toView h.check hp0).stands (by decide) (by decide) (by decide) (by decide)
        (by omega),
      hnew⟩
  · rw [if_neg hedge]
    have hin : s.sel.toNat - s.offset.toNat < 11 := by
      rw [← h.current]
      exact UInt8.lt_iff_toNat_lt.mp (UInt8.not_le.mp hedge)
    exact ⟨_, base, rfl, rfl, h.move (by omega) (by omega) (by omega), hpos⟩

/-- At the last entry it changes nothing. -/
theorem Stands.update_next_end (vol : Volume) (h : Stands L s base) (hend : position base s.sel + 1 = L.length) :
    update vol .next s = some (scanEnd, s) := by
  have h2 := h.offset_le
  have h3 := h.sel_ge
  obtain ⟨h4, h5⟩ := h.window
  have hsel : (s.sel + 1).toNat = s.sel.toNat + 1 := toNat_sel_add (by omega)
  have hcheck : ¬ checkIndex s (s.sel + 1) = true := by
    rw [h.checkIndex (by omega) (by omega), position, hsel]
    rw [position] at hend
    omega
  rw [update, if_neg hcheck]

/-- `SCAN_PREV` goes to the predecessor. -/
theorem Stands.update_prev (h : Stands (listed (s.entries vol)) s base) (hlt : 0 < position base s.sel) :
    ∃ s' base', update vol .prev s = some (scanOk, s') ∧ s'.entries vol = s.entries vol ∧
      Stands (listed (s.entries vol)) s' base' ∧
      position base' s'.sel = position base s.sel - 1 := by
  have h1 := h.offset_ge
  have h2 := h.offset_le
  have h3 := h.sel_ge
  obtain ⟨h4, h5⟩ := h.window
  obtain ⟨hp0, hp1⟩ := h.selected
  have hsel : (s.sel - 1).toNat = s.sel.toNat - 1 := toNat_sel_sub (by omega)
  have hpos : position base (s.sel - 1) = position base s.sel - 1 := by
    rw [position, position, hsel]
    omega
  have hcheck : checkIndex s (s.sel - 1) = true :=
    (h.checkIndex (by omega) (by omega)).mpr (by omega)
  rw [update, if_pos hcheck]
  by_cases hedge : s.sel - s.offset ≤ 1
  · rw [if_pos hedge]
    have hnew : position (position base s.sel) 127 = position base s.sel - 1 := by
      rw [position, show (127 : UInt8).toNat = 127 from rfl]
      omega
    exact ⟨_, _, rfl, rescan_entries s s.sel,
      (rescan_view h.toView h.check hp0).stands (by decide) (by decide) (by decide) (by decide)
        (by omega),
      hnew⟩
  · rw [if_neg hedge]
    have hin : 1 < s.sel.toNat - s.offset.toNat := by
      rw [← h.current]
      exact UInt8.lt_iff_toNat_lt.mp (UInt8.not_le.mp hedge)
    exact ⟨_, base, rfl, rfl, h.move (by omega) (by omega) (by omega), hpos⟩

/-- At the first entry it changes nothing. -/
theorem Stands.update_prev_end (vol : Volume) (h : Stands L s base) (hend : position base s.sel = 0) :
    update vol .prev s = some (scanEnd, s) := by
  have h2 := h.offset_le
  have h3 := h.sel_ge
  obtain ⟨h4, h5⟩ := h.window
  have hsel : (s.sel - 1).toNat = s.sel.toNat - 1 := toNat_sel_sub (by omega)
  have hcheck : ¬ checkIndex s (s.sel - 1) = true := by
    rw [h.checkIndex (by omega) (by omega), position, hsel]
    rw [position] at hend
    omega
  rw [update, if_neg hcheck]

/-! ### Pages -/

/-- Looking up from below the window meets the selected index at the latest. -/
theorem lastVisible_finds (hcheck : checkIndex s s.sel = true) (hwin : s.offset.toNat ≤ s.sel.toNat) :
    ∀ (fuel : ℕ) (sel : UInt8), s.sel.toNat ≤ sel.toNat → sel.toNat - s.sel.toNat < fuel →
      ∃ idx, lastVisible s fuel sel = some (some idx) ∧ checkIndex s idx = true ∧
        s.sel.toNat ≤ idx.toNat ∧ idx.toNat ≤ sel.toNat ∧
        ∀ j, idx.toNat < j.toNat → j.toNat ≤ sel.toNat → ¬ checkIndex s j = true
  | fuel + 1, sel, hle, hfuel => by
    rw [lastVisible, if_pos (UInt8.le_iff_toNat_le.mpr (hwin.trans hle))]
    by_cases hc : checkIndex s sel = true
    · rw [if_pos hc]
      exact ⟨sel, rfl, hc, hle, Nat.le_refl _, fun j hlt hle => by omega⟩
    · rw [if_neg hc]
      have hne : sel.toNat ≠ s.sel.toNat := fun heq => hc (by rwa [UInt8.toNat_inj.mp heq])
      have hsub : (sel - 1).toNat = sel.toNat - 1 := toNat_sel_sub (by omega)
      obtain ⟨idx, hrun, hidx, hge, hle', hno⟩ := lastVisible_finds hcheck hwin fuel (sel - 1)
        (by omega) (by omega)
      refine ⟨idx, hrun, hidx, hge, by omega, fun j hj hjle => ?_⟩
      by_cases heq : j.toNat = sel.toNat
      · rwa [UInt8.toNat_inj.mp heq]
      · exact hno j hj (by omega)

/-- Looking down from its first line does, too. -/
theorem firstVisible_finds (hcheck : checkIndex s s.sel = true)
    (hwin : s.sel.toNat < s.offset.toNat + maxDirEntries) :
    ∀ (fuel : ℕ) (sel : UInt8), sel.toNat ≤ s.sel.toNat → s.sel.toNat - sel.toNat < fuel →
      ∃ idx, firstVisible s fuel sel = some (some idx) ∧ checkIndex s idx = true ∧
        sel.toNat ≤ idx.toNat ∧ idx.toNat ≤ s.sel.toNat ∧
        ∀ j, sel.toNat ≤ j.toNat → j.toNat < idx.toNat → ¬ checkIndex s j = true
  | fuel + 1, sel, hle, hfuel => by
    rw [firstVisible, if_pos (by omega)]
    by_cases hc : checkIndex s sel = true
    · rw [if_pos hc]
      exact ⟨sel, rfl, hc, Nat.le_refl _, hle, fun j hge hlt => by omega⟩
    · rw [if_neg hc]
      have hne : sel.toNat ≠ s.sel.toNat := fun heq => hc (by rwa [UInt8.toNat_inj.mp heq])
      have hlt := s.sel.toNat_lt
      have hadd : (sel + 1).toNat = sel.toNat + 1 := toNat_sel_add (by omega)
      obtain ⟨idx, hrun, hidx, hge, hle', hno⟩ := firstVisible_finds hcheck hwin fuel (sel + 1)
        (by omega) (by omega)
      refine ⟨idx, hrun, hidx, by omega, hle', fun j hj hjlt => ?_⟩
      by_cases heq : j.toNat = sel.toNat
      · rwa [UInt8.toNat_inj.mp heq]
      · exact hno j (by omega) hjlt

/-- Behind a page the window is around the entry that the page has ended on. -/
theorem page_stands (h : View (listed (s.entries vol)) s base) {idx current : UInt8}
    (hidx : checkIndex s idx = true) (hlo : 116 ≤ idx.toNat) (hhi : idx.toNat ≤ 140)
    (hcur : current.toNat ≤ 11) :
    Stands (listed (s.entries vol)) { rescan vol s idx with offset := 128 - current, sel := 128 }
      (position base idx) := by
  obtain ⟨hp0, hp1⟩ := (h.checkIndex hlo hhi).mp hidx
  have h128 : (128 : UInt8).toNat = 128 := rfl
  have hoff : (128 - current).toNat = 128 - current.toNat :=
    UInt8.toNat_sub_of_le _ _ (UInt8.le_iff_toNat_le.mpr (by rw [h128]; omega))
  have hpos : position (position base idx) 128 = position base idx := by
    rw [position, h128]
    omega
  exact (rescan_view h hidx hp0).stands (by omega) (by omega) (by decide) (by omega) (by omega)

/-- `SCAN_NEXT_PAGE` puts the last line first, or selects the last entry when there is none behind it. -/
theorem Stands.update_nextPage (h : Stands (listed (s.entries vol)) s base) :
    ∃ s' base', update vol .nextPage s = some (scanOk, s') ∧ s'.entries vol = s.entries vol ∧
      Stands (listed (s.entries vol)) s' base' ∧
      (position base s.offset + 12 < (listed (s.entries vol)).length ∧
          position base' s'.offset = position base s.offset + 11 ∨
        (listed (s.entries vol)).length ≤ position base s.offset + 12 ∧
          position base' s'.offset = position base s.offset ∧
          position base' s'.sel + 1 = (listed (s.entries vol)).length) := by
  have h1 := h.offset_ge
  have h2 := h.offset_le
  obtain ⟨h4, h5⟩ := h.window
  have h128 : (128 : UInt8).toNat = 128 := rfl
  have htop : (s.offset + 12).toNat = s.offset.toNat + 12 :=
    toNat_add_of_lt (b := 12) (by rw [show (12 : UInt8).toNat = 12 from rfl]; omega)
  obtain ⟨idx, hrun, hidx, hge, hle, hno⟩ := lastVisible_finds h.check h4 256 (s.offset + 12)
    (by omega) (by omega)
  obtain ⟨hp0, hp1⟩ := (h.checkIndex (by omega) (by omega)).mp hidx
  have hcur : (idx - s.offset).toNat = idx.toNat - s.offset.toNat :=
    UInt8.toNat_sub_of_le _ _ (UInt8.le_iff_toNat_le.mpr (by omega))
  rw [update, hrun]
  by_cases hlast : idx - s.offset = 12
  · have hidx12 : idx.toNat = s.offset.toNat + 12 := by
      rw [hlast, show (12 : UInt8).toNat = 12 from rfl] at hcur
      omega
    refine ⟨_, _, rfl, rescan_entries s idx, page_stands h.toView hidx (by omega) (by omega) ?_,
      Or.inl ?_⟩
    · rw [if_pos hlast]
      decide
    · simp only [if_pos hlast, show (128 : UInt8) - 1 = 127 from rfl, position] at hp0 hp1 ⊢
      rw [show (127 : UInt8).toNat = 127 from rfl]
      omega
  · have hne : (idx - s.offset).toNat ≠ 12 := fun heq => hlast (UInt8.toNat_inj.mp heq)
    have hoff : (128 - (idx - s.offset)).toNat = 128 - (idx - s.offset).toNat :=
      UInt8.toNat_sub_of_le _ _ (UInt8.le_iff_toNat_le.mpr (by rw [h128]; omega))
    have hsucc : (idx + 1).toNat = idx.toNat + 1 := toNat_sel_add (by omega)
    have hend := hno (idx + 1) (by omega) (by omega)
    rw [h.checkIndex (by omega) (by omega), position, hsucc] at hend
    refine ⟨_, _, rfl, rescan_entries s idx, page_stands h.toView hidx (by omega) (by omega) ?_,
      Or.inr ?_⟩
    · rw [if_neg hlast]
      omega
    · simp only [if_neg hlast, position, hoff, h128] at hp0 hp1 ⊢
      omega

/-- `SCAN_PREV_PAGE` puts the first line last, or selects the first entry when it is in the window. -/
theorem Stands.update_prevPage (h : Stands (listed (s.entries vol)) s base) :
    ∃ s' base', update vol .prevPage s = some (scanOk, s') ∧ s'.entries vol = s.entries vol ∧
      Stands (listed (s.entries vol)) s' base' ∧
      (0 ≤ position base s.offset ∧ position base' s'.offset = position base s.offset - 11 ∧
          position base' s'.sel = position base s.offset ∨
        position base s.offset < 0 ∧ position base' s'.offset = position base s.offset ∧
          position base' s'.sel = 0) := by
  have h1 := h.offset_ge
  have h2 := h.offset_le
  obtain ⟨h4, h5⟩ := h.window
  have h128 : (128 : UInt8).toNat = 128 := rfl
  obtain ⟨idx, hrun, hidx, hge, hle, hno⟩ := firstVisible_finds h.check h5 256 s.offset h4
    (by omega)
  obtain ⟨hp0, hp1⟩ := (h.checkIndex (by omega) (by omega)).mp hidx
  have hcur : (idx - s.offset).toNat = idx.toNat - s.offset.toNat :=
    UInt8.toNat_sub_of_le _ _ (UInt8.le_iff_toNat_le.mpr hge)
  rw [update, hrun]
  by_cases hfirst : idx - s.offset = 0
  · have hidx0 : idx.toNat = s.offset.toNat := by
      rw [hfirst, show (0 : UInt8).toNat = 0 from rfl] at hcur
      omega
    refine ⟨_, _, rfl, rescan_entries s idx, page_stands h.toView hidx (by omega) (by omega) ?_,
      Or.inl ?_⟩
    · rw [if_pos hfirst]
      decide
    · simp only [if_pos hfirst, show (128 : UInt8) - 11 = 117 from rfl, position, h128] at hp0 hp1 ⊢
      rw [show (117 : UInt8).toNat = 117 from rfl]
      omega
  · have hne : (idx - s.offset).toNat ≠ 0 := fun heq => hfirst (UInt8.toNat_inj.mp heq)
    have hoff : (128 - (idx - s.offset)).toNat = 128 - (idx - s.offset).toNat :=
      UInt8.toNat_sub_of_le _ _ (UInt8.le_iff_toNat_le.mpr (by rw [h128]; omega))
    have hpred : (idx - 1).toNat = idx.toNat - 1 := toNat_sel_sub (by omega)
    have hend := hno (idx - 1) (by omega) (by omega)
    rw [h.checkIndex (by omega) (by omega), position, hpred] at hend
    refine ⟨_, _, rfl, rescan_entries s idx, page_stands h.toView hidx (by omega) (by omega) ?_,
      Or.inr ?_⟩
    · rw [if_neg hfirst]
      omega
    · simp only [if_neg hfirst, position, hoff, h128] at hp0 hp1 ⊢
      omega

/-! ### Before a scan, and in an empty directory -/

/-- Nothing is there to select. -/
structure Blank (s : TDirScan) : Prop where
  refc : s.refc = 0
  dPrev : s.dPrev = .none
  dNext : s.dNext = .none
  offset : s.offset = 128

theorem Blank.check (h : Blank s) (idx : UInt8) : checkIndex s idx = false := by
  rw [checkIndex, h.refc, h.dPrev, h.dNext]
  split
  · rfl
  split
  · exact decide_eq_false (Nat.not_lt_zero _)
  · exact decide_eq_false (Nat.not_lt_zero _)

theorem Blank.lastVisible (h : Blank s) : ∀ (fuel : ℕ) (sel : UInt8), sel.toNat + 1 < 128 + fuel →
    lastVisible s (fuel + 1) sel = some none
  | fuel, sel, hfuel => by
    rw [Filesel.lastVisible, h.check, h.offset]
    by_cases hge : sel ≥ 128
    · rw [if_pos hge, if_neg Bool.false_ne_true]
      have hge' : 128 ≤ sel.toNat := UInt8.le_iff_toNat_le.mp hge
      cases fuel with
      | zero => omega
      | succ fuel => exact h.lastVisible fuel (sel - 1) (by rw [toNat_sel_sub (by omega)]; omega)
    · rw [if_neg hge]

theorem Blank.firstVisible (h : Blank s) : ∀ (fuel : ℕ) (sel : UInt8), 141 ≤ sel.toNat + fuel →
    firstVisible s (fuel + 1) sel = some none
  | fuel, sel, hfuel => by
    have h128 : (128 : UInt8).toNat = 128 := rfl
    have hmax : maxDirEntries = 12 := rfl
    rw [Filesel.firstVisible, h.check, h.offset, h128, hmax]
    by_cases hlt : sel.toNat < 128 + 12 + 1
    · rw [if_pos hlt, if_neg Bool.false_ne_true]
      cases fuel with
      | zero => omega
      | succ fuel => exact h.firstVisible fuel (sel + 1) (by rw [toNat_sel_add (by omega)]; omega)
    · rw [if_neg hlt]

/-- Moves do nothing. -/
theorem Blank.update (h : Blank s) (opt : ScanOpt) : update vol opt s = some (scanEnd, s) := by
  cases opt with
  | next => rw [Filesel.update, h.check, if_neg Bool.false_ne_true]
  | prev => rw [Filesel.update, h.check, if_neg Bool.false_ne_true]
  | nextPage =>
    rw [Filesel.update, h.lastVisible 255 _ (by rw [h.offset]; decide)]
    rfl
  | prevPage =>
    rw [Filesel.update, h.firstVisible 255 _ (by rw [h.offset]; decide)]
    rfl

theorem forget_blank (s : TDirScan) (e : Edit) : Blank (e.apply s) := by
  cases e with
  | changeDir pPath => exact ⟨rfl, rfl, rfl, rfl⟩
  | delFilterChar => exact ⟨rfl, rfl, rfl, rfl⟩
  | addFilterChar letter =>
    rw [Edit.apply]
    split
    · exact ⟨rfl, rfl, rfl, rfl⟩
    · exact ⟨rfl, rfl, rfl, rfl⟩

/-! ### Jumps -/

/-- What `Filesel_ScanFind` keeps has the initial that it looks for. -/
theorem foldl_lowest_some {isDir : Bool} {search : UInt8} {e : FileEntry} :
    ∀ {es : List FileEntry} {found : Option FileEntry},
      es.foldl (lowestStep isDir search) found = some e →
        e ∈ es ∧ initialIs isDir search e = true ∨ found = some e
  | [], _, h => Or.inr h
  | x :: xs, found, h => by
    rw [List.foldl_cons] at h
    rcases foldl_lowest_some h with ⟨he, hi⟩ | hx
    · exact Or.inl ⟨List.mem_cons_of_mem x he, hi⟩
    · rw [lowestStep.eq_def] at hx
      by_cases hi : initialIs isDir search x = true
      · rw [if_pos hi] at hx
        have hor : x = e ∨ found = some e := by
          cases found with
          | none => exact Or.inl (Option.some.inj hx)
          | some e' =>
            simp only at hx
            split at hx
            · exact Or.inl (Option.some.inj hx)
            · exact Or.inr hx
        rcases hor with rfl | hf
        · exact Or.inl ⟨List.mem_cons_self, hi⟩
        · exact Or.inr hf
      · rw [if_neg hi] at hx
        exact Or.inr hx

/-- It keeps nothing only where no entry has it. -/
theorem foldl_lowest_none {isDir : Bool} {search : UInt8} :
    ∀ {es : List FileEntry} {found : Option FileEntry},
      es.foldl (lowestStep isDir search) found = none ↔
        found = none ∧ ∀ e ∈ es, initialIs isDir search e = false
  | [], found => ⟨fun h => ⟨h, fun _ he => absurd he List.not_mem_nil⟩, fun h => h.1⟩
  | x :: xs, found => by
    rw [List.foldl_cons, foldl_lowest_none, List.forall_mem_cons, ← and_assoc]
    refine and_congr_left fun _ => ?_
    rw [lowestStep.eq_def]
    by_cases hi : initialIs isDir search x = true
    · rw [if_pos hi, hi]
      cases found with
      | none => exact ⟨fun h => absurd h (Option.some_ne_none x), fun h => absurd h.2 (by decide)⟩
      | some e' =>
        refine ⟨fun h => ?_, fun h => absurd h.1 (Option.some_ne_none e')⟩
        simp only at h
        split at h
        · exact absurd h (Option.some_ne_none x)
        · exact absurd h (Option.some_ne_none e')
    · rw [if_neg hi]
      exact ⟨fun h => ⟨h, Bool.eq_false_iff.mpr hi⟩, fun h => h.1⟩

theorem initialIs_same {isDir : Bool} {search : UInt8} {a b : FileEntry} (h : Same a b) :
    initialIs isDir search a = initialIs isDir search b := by
  rw [initialIs, initialIs, h.1, h.2]

/-- It keeps the first of the entries that sort the same. -/
theorem lowest_first {isDir : Bool} {search : UInt8} (es : List FileEntry) : ∀ {e : FileEntry},
    lowest isDir search es = some e → e ∈ firsts es ∧
      ∀ y ∈ es, initialIs isDir search y = true → e.key ≤ y.key := by
  induction es using List.reverseRec with
  | nil =>
    rintro e ⟨⟩
  | append_singleton es x ih =>
    rintro e he
    rw [lowest, List.foldl_append, List.foldl_cons, List.foldl_nil, ← lowest, lowestStep.eq_def] at he
    have hnew : (∀ a ∈ es, ¬ Same a x) → x ∈ firsts (es ++ [x]) := by
      rintro hno
      rw [firsts_append, if_neg fun ⟨a, ha, hax⟩ => hno a ha hax]
      exact List.mem_append_right _ List.mem_cons_self
    have hold : e ∈ firsts es → e ∈ firsts (es ++ [x]) := fun hmem => by
      rw [firsts_append]
      exact List.mem_append_left _ hmem
    by_cases hi : initialIs isDir search x = true
    · rw [if_pos hi] at he
      cases hl : lowest isDir search es with
      | none =>
        rw [hl] at he
        obtain rfl := Option.some.inj he
        have hno := (foldl_lowest_none.mp hl).2
        refine ⟨hnew fun a ha hax => ?_, fun y hy hyi => ?_⟩
        · rw [← initialIs_same hax, hno a ha] at hi
          exact Bool.false_ne_true hi
        · rcases List.mem_append.mp hy with hy | hy
          · rw [hno y hy] at hyi
            exact absurd hyi Bool.false_ne_true
          · rw [List.mem_singleton.mp hy]
      | some e0 =>
        rw [hl] at he
        simp only at he
        obtain ⟨hmem, hle⟩ := ih hl
        by_cases hlt : compareDirEntries x e0 < 0
        · rw [if_pos hlt] at he
          obtain rfl := Option.some.inj he
          have hkey := (compareDirEntries_compares x e0).lt.mp hlt
          refine ⟨hnew fun a ha hax => ?_, fun y hy hyi => ?_⟩
          · have := hle a ha (by rw [initialIs_same hax]; exact hi)
            rw [key_eq_iff.mpr hax] at this
            exact absurd hkey (not_lt_of_ge this)
          · rcases List.mem_append.mp hy with hy | hy
            · exact le_of_lt (lt_of_lt_of_le hkey (hle y hy hyi))
            · rw [List.mem_singleton.mp hy]
        · rw [if_neg hlt] at he
          obtain rfl := Option.some.inj he
          refine ⟨hold hmem, fun y hy hyi => ?_⟩
          rcases List.mem_append.mp hy with hy | hy
          · exact hle y hy hyi
          · rw [List.mem_singleton.mp hy]
            exact not_lt.mp fun h => hlt ((compareDirEntries_compares x e0).lt.mpr h)
    · rw [if_neg hi] at he
      obtain ⟨hmem, hle⟩ := ih he
      refine ⟨hold hmem, fun y hy hyi => ?_⟩
      rcases List.mem_append.mp hy with hy | hy
      · exact hle y hy hyi
      · rw [List.mem_singleton.mp hy] at hyi
        exact absurd hyi hi

end Filesel
