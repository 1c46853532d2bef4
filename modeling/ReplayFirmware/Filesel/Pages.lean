import ReplayFirmware.Filesel.Runs

/-! Paging through the file browser.

    A page begins with the line that the page before it ended with, until an end of the directory is in
    the window; from then on the window stays and the entry at that end is selected. So the pages cover
    the directory, whichever entries sort the same in it. -/

namespace Filesel
open Libc Nearest

/-! ### What is shown -/

/-- `Filesel_GetLine` -/
def getLine (s : TDirScan) (pos : UInt8) : FileEntry := getEntry s (s.offset + pos)

/-- One of the lines shows the name of the entry, as the name of an entry of its kind. -/
def Visible (s : TDirScan) (e : FileEntry) : Prop :=
  ∃ pos : UInt8, pos.toNat < maxDirEntries ∧ checkIndex s (s.offset + pos) = true ∧ Same (getLine s pos) e

/-- The first entry is selected. -/
def AtFirst (vol : Volume) (s : TDirScan) : Prop :=
  checkIndex s s.sel = true ∧ getEntry s s.sel ∈ s.entries vol ∧
    ∀ e ∈ s.entries vol, compareDirEntries (getEntry s s.sel) e ≤ 0

/-- The last entry is selected. -/
def AtLast (vol : Volume) (s : TDirScan) : Prop :=
  checkIndex s s.sel = true ∧ getEntry s s.sel ∈ s.entries vol ∧
    ∀ e ∈ s.entries vol, 0 ≤ compareDirEntries (getEntry s s.sel) e

/-- `e` stands between `a` and `b`, in one direction or the other. -/
def Between (a e b : FileEntry) : Prop :=
  compareDirEntries a e ≤ 0 ∧ compareDirEntries e b ≤ 0 ∨
    compareDirEntries b e ≤ 0 ∧ compareDirEntries e a ≤ 0

/-- The pages show every entry, skip none, and come to an end. -/
structure Covers (vol : Volume) (opt : ScanOpt) (AtEnd : TDirScan → Prop) (page : ℕ → TDirScan) :
    Prop where
  turns : ∀ k, update vol opt (page k) = some (scanOk, page (k + 1))
  entries : ∀ k, (page k).entries vol = (page 0).entries vol
  shows : ∀ e ∈ (page 0).entries vol, ∃ k, Visible (page k) e
  ends : ∃ m, ∀ k, m ≤ k → AtEnd (page k)
  overlaps : ∀ k, ∃ e ∈ (page 0).entries vol, Visible (page k) e ∧ Visible (page (k + 1)) e
  skips_none : ∀ k, ∀ e ∈ (page 0).entries vol, ∀ a b, Visible (page k) a → Visible (page (k + 1)) b →
    Between a e b → Visible (page k) e ∨ Visible (page (k + 1)) e

/-! ### A walk in steps of eleven -/

section
variable {d : ℕ → ℤ}

/-- The walk comes to its end. -/
theorem walk_ends {ended : ℕ → Prop}
    (h : ∀ k, 0 < d k ∧ d (k + 1) = d k - 11 ∨ d k ≤ 0 ∧ d (k + 1) = d k ∧ ended (k + 1)) :
    ∃ m, ∀ k, m ≤ k → ended k := by
  have hstop : ∃ m, d m ≤ 0 := by
    by_contra hno
    have hpos : ∀ k, 0 < d k := fun k => not_le.mp fun hk => hno ⟨k, hk⟩
    have hfar : ∀ k : ℕ, d k = d 0 - 11 * k := by
      intro k
      induction k with
      | zero => omega
      | succ k ih =>
        rcases h k with ⟨-, hk⟩ | ⟨hk, -⟩
        · omega
        · exact absurd (hpos k) (not_lt_of_ge hk)
    have := hpos (d 0).toNat
    rw [hfar] at this
    omega
  obtain ⟨m, hm⟩ := hstop
  have hstay : ∀ k : ℕ, d (m + k) ≤ 0 := by
    intro k
    induction k with
    | zero => exact hm
    | succ k ih =>
      rcases h (m + k) with ⟨hk, -⟩ | ⟨-, hk, -⟩
      · omega
      · rw [← Nat.add_assoc, hk]
        exact ih
  refine ⟨m + 1, fun k hk => ?_⟩
  obtain ⟨j, rfl⟩ := Nat.exists_eq_add_of_le hk
  rcases h (m + j) with ⟨hpos, -⟩ | ⟨-, -, hend⟩
  · exact absurd (hstay j) (not_le_of_gt hpos)
  · rwa [show m + 1 + j = m + j + 1 by omega]

/-- The windows of twelve on the walk leave nothing out. -/
theorem walk_covers (h : ∀ k, 0 < d k ∧ d (k + 1) = d k - 11 ∨ d k ≤ 0 ∧ d (k + 1) = d k) {x : ℤ}
    (h0 : x ≤ d 0) (hx : -11 ≤ x) : ∃ k, d k - 11 ≤ x ∧ x ≤ d k := by
  have hfar : ∀ k : ℕ, (∃ j, d j - 11 ≤ x ∧ x ≤ d j) ∨ x ≤ d k ∧ d k = d 0 - 11 * k := by
    intro k
    induction k with
    | zero => exact Or.inr ⟨h0, by omega⟩
    | succ k ih =>
      rcases ih with hj | ⟨hle, hk⟩
      · exact Or.inl hj
      · by_cases hin : d k - 11 ≤ x
        · exact Or.inl ⟨k, hin, hle⟩
        · rcases h k with ⟨-, hstep⟩ | ⟨hstop, -⟩
          · exact Or.inr ⟨by omega, by omega⟩
          · omega
  rcases hfar (d 0 - x).toNat with hj | ⟨hle, hk⟩
  · exact hj
  · exact ⟨_, by omega, hle⟩

end

/-! ### Pages and positions -/

variable {vol : Volume} {L : List FileEntry} {s s' : TDirScan} {top sel : ℤ}

/-- The first line stands for position `top`, and position `sel` is selected. -/
def Page (L : List FileEntry) (s : TDirScan) (top sel : ℤ) : Prop :=
  ∃ base, Stands L s base ∧ position base s.offset = top ∧ position base s.sel = sel

theorem Page.sel_in (h : Page L s top sel) : 0 ≤ sel ∧ sel < L.length ∧ top ≤ sel ∧ sel < top + 12 := by
  obtain ⟨base, hs, rfl, rfl⟩ := h
  obtain ⟨h0, h1⟩ := hs.selected
  obtain ⟨h2, h3⟩ := hs.window
  exact ⟨h0, h1, by rw [position, position]; omega, by rw [position, position]; omega⟩

theorem Page.selected (h : Page L s top sel) :
    checkIndex s s.sel = true ∧ L[sel.toNat]? = some (getEntry s s.sel) := by
  obtain ⟨base, hs, -, rfl⟩ := h
  exact ⟨hs.check, hs.getEntry hs.check⟩

/-- A line of the page and the position that it stands for. -/
theorem Page.line (h : Page L s top sel) {pos : UInt8} (hpos : pos.toNat < 12) :
    (checkIndex s (s.offset + pos) = true ↔ 0 ≤ top + pos.toNat ∧ top + pos.toNat < L.length) ∧
      (checkIndex s (s.offset + pos) = true → L[(top + pos.toNat).toNat]? = some (getLine s pos)) := by
  obtain ⟨base, hs, rfl, -⟩ := h
  have h1 := hs.offset_ge
  have h2 := hs.offset_le
  have hidx : (s.offset + pos).toNat = s.offset.toNat + pos.toNat := toNat_add_of_lt (by omega)
  have heq : position base (s.offset + pos) = position base s.offset + pos.toNat := by
    rw [position, position, hidx]
    omega
  rw [← heq]
  exact ⟨hs.checkIndex (by omega) (by omega), hs.getEntry⟩

/-- What stands in the window is shown. -/
theorem Page.shows (h : Page L s top sel) {p : ℕ} {a e : FileEntry} (hp : L[p]? = some a)
    (hae : Same a e) (htop : top ≤ p) (hlt : p < top + 12) : Visible s e := by
  obtain ⟨hplt, -⟩ := List.getElem?_eq_some_iff.mp hp
  have hpos : (UInt8.ofNat (p - top).toNat).toNat = (p - top).toNat :=
    UInt8.toNat_ofNat_of_lt' (by rw [UInt8.size]; omega)
  obtain ⟨hcheck, hline⟩ := @Page.line _ _ _ _ h (UInt8.ofNat (p - top).toNat) (by omega)
  have hc := hcheck.mpr (by omega)
  have hl := hline hc
  rw [show (top + ((UInt8.ofNat (p - top).toNat).toNat : ℤ)).toNat = p by omega, hp] at hl
  refine ⟨UInt8.ofNat (p - top).toNat, by rw [maxDirEntries]; omega, hc, ?_⟩
  rw [← Option.some.inj hl]
  exact hae

/-- What is shown stands in the window. -/
theorem Page.of_visible (h : Page L s top sel) {e : FileEntry} (hv : Visible s e) :
    ∃ (p : ℕ) (a : FileEntry), L[p]? = some a ∧ Same a e ∧ top ≤ p ∧ p < top + 12 := by
  obtain ⟨pos, hpos, hcheck, hsame⟩ := hv
  rw [maxDirEntries] at hpos
  obtain ⟨hc, hline⟩ := h.line hpos
  obtain ⟨h0, -⟩ := hc.mp hcheck
  exact ⟨(top + pos.toNat).toNat, getLine s pos, hline hcheck, hsame, by omega, by omega⟩

theorem Page.next (h : Page (listed (s.entries vol)) s top sel) :
    ∃ s' top' sel', update vol .nextPage s = some (scanOk, s') ∧ s'.entries vol = s.entries vol ∧
      Page (listed (s.entries vol)) s' top' sel' ∧
      (top + 12 < (listed (s.entries vol)).length ∧ top' = top + 11 ∨
        (listed (s.entries vol)).length ≤ top + 12 ∧ top' = top ∧
          sel' + 1 = (listed (s.entries vol)).length) := by
  obtain ⟨base, hs, rfl, -⟩ := h
  obtain ⟨s', base', hrun, hentries, hs', hstep⟩ := hs.update_nextPage
  exact ⟨s', _, _, hrun, hentries, ⟨base', hs', rfl, rfl⟩, hstep⟩

theorem Page.prev (h : Page (listed (s.entries vol)) s top sel) :
    ∃ s' top' sel', update vol .prevPage s = some (scanOk, s') ∧ s'.entries vol = s.entries vol ∧
      Page (listed (s.entries vol)) s' top' sel' ∧
      (0 ≤ top ∧ top' = top - 11 ∨ top < 0 ∧ top' = top ∧ sel' = 0) := by
  obtain ⟨base, hs, rfl, -⟩ := h
  obtain ⟨s', base', hrun, hentries, hs', hstep⟩ := hs.update_prevPage
  refine ⟨s', _, _, hrun, hentries, ⟨base', hs', rfl, rfl⟩, ?_⟩
  rcases hstep with ⟨h0, htop, -⟩ | hstay
  · exact Or.inl ⟨h0, htop⟩
  · exact Or.inr hstay

/-- Page after page. -/
theorem exists_pages {opt : ScanOpt} {es : List FileEntry} {R : ℤ → ℤ → ℤ → Prop}
    (hturn : ∀ s top sel, s.entries vol = es → Page (listed es) s top sel →
      ∃ s' top' sel', update vol opt s = some (scanOk, s') ∧ s'.entries vol = es ∧
        Page (listed es) s' top' sel' ∧ R top top' sel')
    (hes : s.entries vol = es) (h : Page (listed es) s top sel) :
    ∃ (page : ℕ → TDirScan) (tops sels : ℕ → ℤ), page 0 = s ∧ tops 0 = top ∧
      ∀ k, update vol opt (page k) = some (scanOk, page (k + 1)) ∧ (page k).entries vol = es ∧
        Page (listed es) (page k) (tops k) (sels k) ∧ R (tops k) (tops (k + 1)) (sels (k + 1)) := by
  choose next ntop nsel hnext using hturn
  let St := { x : TDirScan × ℤ × ℤ // x.1.entries vol = es ∧ Page (listed es) x.1 x.2.1 x.2.2 }
  let turn : St → St := fun x =>
    ⟨(next _ _ _ x.2.1 x.2.2, ntop _ _ _ x.2.1 x.2.2, nsel _ _ _ x.2.1 x.2.2),
      (hnext _ _ _ x.2.1 x.2.2).2.1, (hnext _ _ _ x.2.1 x.2.2).2.2.1⟩
  let pages : ℕ → St := fun k => Nat.rec ⟨(s, top, sel), hes, h⟩ (fun _ x => turn x) k
  refine ⟨fun k => (pages k).1.1, fun k => (pages k).1.2.1, fun k => (pages k).1.2.2, rfl, rfl,
    fun k => ?_⟩
  obtain ⟨hrun, -, -, hR⟩ := hnext _ _ _ (pages k).2.1 (pages k).2.2
  exact ⟨hrun, (pages k).2.1, (pages k).2.2, hR⟩

/-! ### The order of positions -/

theorem key_lt_of_lt (hL : Sorted FileEntry.key L) {i j : ℕ} {a b : FileEntry} (ha : L[i]? = some a)
    (hb : L[j]? = some b) (hij : i < j) : a.key < b.key := by
  obtain ⟨hi, rfl⟩ := List.getElem?_eq_some_iff.mp ha
  obtain ⟨hj, rfl⟩ := List.getElem?_eq_some_iff.mp hb
  exact List.pairwise_iff_getElem.mp hL i j hi hj hij

theorem le_of_key_le (hL : Sorted FileEntry.key L) {i j : ℕ} {a b : FileEntry} (ha : L[i]? = some a)
    (hb : L[j]? = some b) (hle : a.key ≤ b.key) : i ≤ j :=
  not_lt.mp fun hlt => not_lt_of_ge hle (key_lt_of_lt hL hb ha hlt)

theorem key_le_of_le (hL : Sorted FileEntry.key L) {i j : ℕ} {a b : FileEntry} (ha : L[i]? = some a)
    (hb : L[j]? = some b) (hij : i ≤ j) : a.key ≤ b.key := by
  rcases lt_or_eq_of_le hij with hlt | rfl
  · exact le_of_lt (key_lt_of_lt hL ha hb hlt)
  · rw [Option.some.inj (ha.symm.trans hb)]

/-- Every entry has a position, and every position an entry. -/
theorem exists_position {es : List FileEntry} {e : FileEntry} (he : e ∈ es) :
    ∃ (p : ℕ) (a : FileEntry), (listed es)[p]? = some a ∧ Same a e := by
  obtain ⟨a, ha, hae⟩ := exists_first he
  obtain ⟨p, hp⟩ := List.getElem?_of_mem ((listed_perm es).mem_iff.mpr ha)
  exact ⟨p, a, hp, hae⟩

theorem mem_of_position {es : List FileEntry} {p : ℕ} {a : FileEntry} (h : (listed es)[p]? = some a) :
    a ∈ es :=
  firsts_subset ((listed_perm es).mem_iff.mp (List.mem_of_getElem? h))

theorem le_compare {a b : FileEntry} : compareDirEntries a b ≤ 0 ↔ a.key ≤ b.key :=
  (compareDirEntries_compares a b).le

theorem compare_ge {a b : FileEntry} : 0 ≤ compareDirEntries a b ↔ b.key ≤ a.key := by
  rw [← not_lt, ← not_lt, (compareDirEntries_compares a b).lt]

theorem Page.atFirst_iff (h : Page (listed (s.entries vol)) s top sel) : AtFirst vol s ↔ sel = 0 := by
  obtain ⟨hcheck, hsel⟩ := h.selected
  obtain ⟨h0, hlt, -, -⟩ := h.sel_in
  have hsorted := listed_sorted (s.entries vol)
  constructor
  · rintro ⟨-, -, hle⟩
    have hfirst := List.getElem?_eq_getElem (l := listed (s.entries vol)) (i := 0) (by omega)
    have := le_of_key_le hsorted hsel hfirst (le_compare.mp (hle _ (mem_of_position hfirst)))
    omega
  · rintro rfl
    refine ⟨hcheck, mem_of_position hsel, fun e he => le_compare.mpr ?_⟩
    obtain ⟨p, a, hp, hae⟩ := exists_position he
    rw [← key_eq_iff.mpr hae]
    exact key_le_of_le hsorted hsel hp (by omega)

theorem Page.atLast_iff (h : Page (listed (s.entries vol)) s top sel) :
    AtLast vol s ↔ sel + 1 = (listed (s.entries vol)).length := by
  obtain ⟨hcheck, hsel⟩ := h.selected
  obtain ⟨h0, hlt, -, -⟩ := h.sel_in
  have hsorted := listed_sorted (s.entries vol)
  constructor
  · rintro ⟨-, -, hge⟩
    have hlast := List.getElem?_eq_getElem (l := listed (s.entries vol))
      (i := (listed (s.entries vol)).length - 1) (by omega)
    have := le_of_key_le hsorted hlast hsel (compare_ge.mp (hge _ (mem_of_position hlast)))
    omega
  · rintro hend
    refine ⟨hcheck, mem_of_position hsel, fun e he => compare_ge.mpr ?_⟩
    obtain ⟨p, a, hp, hae⟩ := exists_position he
    obtain ⟨hplt, -⟩ := List.getElem?_eq_some_iff.mp hp
    rw [← key_eq_iff.mpr hae]
    exact key_le_of_le hsorted hp hsel (by omega)

/-! ### The pages cover the directory -/

section
variable {opt : ScanOpt} {AtEnd : TDirScan → Prop} {es : List FileEntry} {page : ℕ → TDirScan}
  {tops sels : ℕ → ℤ}

/-- Windows that meet skip nothing. -/
theorem covers_of_windows
    (hpages : ∀ k, update vol opt (page k) = some (scanOk, page (k + 1)) ∧ (page k).entries vol = es ∧
      Page (listed es) (page k) (tops k) (sels k))
    (hmeet : ∀ k, ∃ p : ℤ, 0 ≤ p ∧ p < (listed es).length ∧ (tops k ≤ p ∧ p < tops k + 12) ∧
      tops (k + 1) ≤ p ∧ p < tops (k + 1) + 12)
    (hall : ∀ p : ℕ, p < (listed es).length → ∃ k, tops k ≤ p ∧ p < tops k + 12)
    (hends : ∃ m, ∀ k, m ≤ k → AtEnd (page k)) : Covers vol opt AtEnd page := by
  have hL := listed_sorted es
  have hes : (page 0).entries vol = es := (hpages 0).2.1
  refine ⟨fun k => (hpages k).1, fun k => (hpages k).2.1.trans hes.symm, ?_, hends, fun k => ?_,
    fun k => ?_⟩
  · rw [hes]
    rintro e he
    obtain ⟨p, a, hp, hae⟩ := exists_position he
    obtain ⟨k, hle, hlt⟩ := hall p (List.getElem?_eq_some_iff.mp hp).1
    exact ⟨k, (hpages k).2.2.shows hp hae hle hlt⟩
  · obtain ⟨p, h0, hlt, hin, hin'⟩ := hmeet k
    have hp := List.getElem?_eq_getElem (l := listed es) (i := p.toNat) (by omega)
    rw [hes]
    exact ⟨_, mem_of_position hp, (hpages k).2.2.shows hp ⟨rfl, rfl⟩ (by omega) (by omega),
      (hpages (k + 1)).2.2.shows hp ⟨rfl, rfl⟩ (by omega) (by omega)⟩
  · rw [hes]
    rintro e he a b ha hb hbetween
    obtain ⟨p, e', hp, hpe⟩ := exists_position he
    obtain ⟨i, a', hi, hia, hilo, hihi⟩ := (hpages k).2.2.of_visible ha
    obtain ⟨j, b', hj, hjb, hjlo, hjhi⟩ := (hpages (k + 1)).2.2.of_visible hb
    obtain ⟨q, -, -, hq, hq'⟩ := hmeet k
    simp only [Between, le_compare] at hbetween
    rw [← key_eq_iff.mpr hpe, ← key_eq_iff.mpr hia, ← key_eq_iff.mpr hjb] at hbetween
    have hin : i ≤ p ∧ p ≤ j ∨ j ≤ p ∧ p ≤ i := by
      rcases hbetween with ⟨h1, h2⟩ | ⟨h1, h2⟩
      · exact Or.inl ⟨le_of_key_le hL hi hp h1, le_of_key_le hL hp hj h2⟩
      · exact Or.inr ⟨le_of_key_le hL hj hp h1, le_of_key_le hL hp hi h2⟩
    by_cases hwin : tops k ≤ p ∧ (p : ℤ) < tops k + 12
    · exact Or.inl ((hpages k).2.2.shows hp hpe hwin.1 hwin.2)
    · exact Or.inr ((hpages (k + 1)).2.2.shows hp hpe (by omega) (by omega))

end

/-- From the first entry, down to the last one. -/
theorem nextPages_cover (h : Page (listed (s.entries vol)) s top sel) (hfirst : AtFirst vol s) :
    ∃ page, page 0 = s ∧ Covers vol .nextPage (AtLast vol) page := by
  have hsel := h.atFirst_iff.mp hfirst
  obtain ⟨-, -, htop, htop'⟩ := h.sel_in
  obtain ⟨page, tops, sels, h0, htop0, hpages⟩ := @exists_pages vol s top sel .nextPage _
    (fun top top' sel' => top + 12 < (listed (s.entries vol)).length ∧ top' = top + 11 ∨
      (listed (s.entries vol)).length ≤ top + 12 ∧ top' = top ∧
        sel' + 1 = (listed (s.entries vol)).length)
    (fun s₁ top₁ sel₁ hes h₁ => by
      rw [← hes] at h₁ ⊢
      exact h₁.next) rfl h
  have hlen := h.sel_in.2.1
  have hwalk : ∀ k, 0 < (listed (s.entries vol)).length - 12 - tops k ∧
      (listed (s.entries vol)).length - 12 - tops (k + 1)
        = (listed (s.entries vol)).length - 12 - tops k - 11 ∨
      (listed (s.entries vol)).length - 12 - tops k ≤ 0 ∧
        (listed (s.entries vol)).length - 12 - tops (k + 1)
          = (listed (s.entries vol)).length - 12 - tops k ∧
        sels (k + 1) + 1 = (listed (s.entries vol)).length := by
    intro k
    have := (hpages k).2.2.2
    omega
  refine ⟨page, h0, @covers_of_windows _ _ _ _ _ tops sels
    (fun k => ⟨(hpages k).1, (hpages k).2.1, (hpages k).2.2.1⟩) (fun k => ?_) (fun p hp => ?_) ?_⟩
  · have hin := (hpages k).2.2.1.sel_in
    rcases (hpages k).2.2.2 with ⟨hlt, hstep⟩ | ⟨-, hstep, -⟩
    · exact ⟨tops k + 11, by omega, by omega, by omega, by omega⟩
    · exact ⟨sels k, by omega, by omega, by omega, by omega⟩
  · obtain ⟨k, hlo, hhi⟩ := walk_covers (d := fun k => (listed (s.entries vol)).length - 12 - tops k)
      (x := (listed (s.entries vol)).length - 12 - p)
      (fun k => (hwalk k).imp_right fun h => ⟨h.1, h.2.1⟩) (by omega) (by omega)
    exact ⟨k, by omega, by omega⟩
  · obtain ⟨m, hm⟩ := @walk_ends (fun k => (listed (s.entries vol)).length - 12 - tops k)
      (fun k => sels k + 1 = (listed (s.entries vol)).length) hwalk
    refine ⟨m, fun k hk => ?_⟩
    obtain ⟨-, hes, hpage, -⟩ := hpages k
    have hend := hm k hk
    rw [← hes] at hpage hend
    exact hpage.atLast_iff.mpr hend

/-- From the last entry, up to the first one. -/
theorem prevPages_cover (h : Page (listed (s.entries vol)) s top sel) (hlast : AtLast vol s) :
    ∃ page, page 0 = s ∧ Covers vol .prevPage (AtFirst vol) page := by
  have hsel := h.atLast_iff.mp hlast
  obtain ⟨-, -, htop, htop'⟩ := h.sel_in
  obtain ⟨page, tops, sels, h0, htop0, hpages⟩ := @exists_pages vol s top sel .prevPage _
    (fun top top' sel' => 0 ≤ top ∧ top' = top - 11 ∨ top < 0 ∧ top' = top ∧ sel' = 0)
    (fun s₁ top₁ sel₁ hes h₁ => by
      rw [← hes] at h₁ ⊢
      exact h₁.prev) rfl h
  have hwalk : ∀ k, 0 < tops k + 1 ∧ tops (k + 1) + 1 = tops k + 1 - 11 ∨
      tops k + 1 ≤ 0 ∧ tops (k + 1) + 1 = tops k + 1 ∧ sels (k + 1) = 0 := by
    intro k
    have := (hpages k).2.2.2
    omega
  refine ⟨page, h0, @covers_of_windows _ _ _ _ _ tops sels
    (fun k => ⟨(hpages k).1, (hpages k).2.1, (hpages k).2.2.1⟩) (fun k => ?_) (fun p hp => ?_) ?_⟩
  · have hin := (hpages k).2.2.1.sel_in
    rcases (hpages k).2.2.2 with ⟨hle, hstep⟩ | ⟨-, hstep, -⟩
    · exact ⟨tops k, by omega, by omega, by omega, by omega⟩
    · exact ⟨sels k, by omega, by omega, by omega, by omega⟩
  · obtain ⟨k, hlo, hhi⟩ := walk_covers (d := fun k => tops k + 1) (x := p - 10) 
      (fun k => (hwalk k).imp_right fun h => ⟨h.1, h.2.1⟩) (by omega) (by omega)
    exact ⟨k, by omega, by omega⟩
  · obtain ⟨m, hm⟩ := @walk_ends (fun k => tops k + 1) (fun k => sels k = 0) hwalk
    refine ⟨m, fun k hk => ?_⟩
    obtain ⟨-, hes, hpage, -⟩ := hpages k
    rw [← hes] at hpage
    exact hpage.atFirst_iff.mpr (hm k hk)

/-- An entry is selected only where the browser stands on the directory. -/
theorem page_of_run {ops : List Op} {e : Edit} (hrun : run vol ops (e.apply s) = some s')
    (hcheck : checkIndex s' s'.sel = true) : ∃ top sel, Page (listed (s'.entries vol)) s' top sel := by
  obtain ⟨s₁, hrun₁, -, hfind, hno⟩ := @run_blank vol ops _ (forget_blank s e)
  obtain rfl := Option.some.inj (hrun.symm.trans hrun₁)
  have hblank : ¬ Blank s' := fun hb => by
    rw [hb.check] at hcheck
    exact Bool.false_ne_true hcheck
  by_cases hf : ∃ op ∈ ops, op.Finds ((e.apply s).entries vol)
  · rcases hfind hf with ⟨base, hs⟩ | ⟨hb, -⟩
    · exact ⟨_, _, base, hs, rfl, rfl⟩
    · exact absurd hb hblank
  · have heq := hno fun op hop hfinds => hf ⟨op, hop, hfinds⟩
    exact absurd (heq ▸ forget_blank s e) hblank

/-- In every state of the browser: pages down from the first entry, and pages up from the last one, show
    every entry of the directory, skip none, and come to the other end of it. -/
theorem pages_cover (vol : Volume) (s s' : TDirScan) (e : Edit) (ops : List Op)
    (hrun : run vol ops (e.apply s) = some s') :
    (AtFirst vol s' → ∃ page, page 0 = s' ∧ Covers vol .nextPage (AtLast vol) page) ∧
      (AtLast vol s' → ∃ page, page 0 = s' ∧ Covers vol .prevPage (AtFirst vol) page) := by
  refine ⟨fun hfirst => ?_, fun hlast => ?_⟩
  · obtain ⟨top, sel, hpage⟩ := page_of_run hrun hfirst.1
    exact nextPages_cover hpage hfirst
  · obtain ⟨top, sel, hpage⟩ := page_of_run hrun hlast.1
    exact prevPages_cover hpage hlast

theorem pages_cover_two : ∃ page, page 0 = scanFirst twoFiles ((Edit.changeDir [0x2F]).apply unscanned) ∧
    Covers twoFiles .nextPage (AtLast twoFiles) page :=
  (pages_cover twoFiles unscanned _ (.changeDir [0x2F]) [.scanFirst] rfl).1
    ⟨by decide +kernel, by decide +kernel, by decide +kernel⟩

end Filesel
