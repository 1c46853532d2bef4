import ReplayFirmware.Filesel.Neighbours

/-! Moving in the file browser.

    Steps stay in the window while they can; at its edges, and for pages and jumps, the directory is
    scanned again from another reference. Whatever the reference, an index stands for a position in the
    sorted directory. -/

namespace Filesel
open Libc Nearest

/-! ### The operations -/

/-- `SCAN_OK` -/
def scanOk : UInt8 := 0

/-- `SCAN_END`, which is `SCAN_OK` too. -/
def scanEnd : UInt8 := 0

/-- `SCAN_NEXT`, `SCAN_PREV`, `SCAN_NEXT_PAGE`, `SCAN_PREV_PAGE` -/
inductive ScanOpt where | next | prev | nextPage | prevPage
  deriving DecidableEq

/-- The loop of `SCAN_NEXT_PAGE`: the last index of the window with an entry. Its counter takes 256
    values; a loop that has met them all does not end. -/
def lastVisible (s : TDirScan) : ℕ → UInt8 → Option (Option UInt8)
  | 0, _ => none
  | fuel + 1, sel =>
    if sel ≥ s.offset then
      if checkIndex s sel then some (some sel) else lastVisible s fuel (sel - 1)
    else some none

/-- The loop of `SCAN_PREV_PAGE`: the first index of the window with an entry. -/
def firstVisible (s : TDirScan) : ℕ → UInt8 → Option (Option UInt8)
  | 0, _ => none
  | fuel + 1, sel =>
    if sel.toNat < s.offset.toNat + maxDirEntries + 1 then
      if checkIndex s sel then some (some sel) else firstVisible s fuel (sel + 1)
    else some none

/-- The scan around the entry at an index. -/
def rescan (vol : Volume) (s : TDirScan) (sel : UInt8) : TDirScan :=
  scanUpdate vol { s with dRef := getEntry s sel }

/-- `Filesel_Update` -/
def update (vol : Volume) (opt : ScanOpt) (s : TDirScan) : Option (UInt8 × TDirScan) :=
  let current := s.sel - s.offset
  match opt with
  | .next =>
    let sel := s.sel + 1
    if checkIndex s sel then
      if current ≥ 11 then
        some (scanOk, { rescan vol s s.sel with offset := 128, sel := 129 })
      else some (scanOk, { s with sel := sel })
    else some (scanEnd, s)
  | .prev =>
    let sel := s.sel - 1
    if checkIndex s sel then
      if current ≤ 1 then
        some (scanOk, { rescan vol s s.sel with offset := 116, sel := 127 })
      else some (scanOk, { s with sel := sel })
    else some (scanEnd, s)
  | .nextPage =>
    (lastVisible s 256 (s.offset + 12)).map fun found =>
      match found with
      | none => (scanEnd, s)
      | some sel =>
        let current := sel - s.offset
        let current := if current = 12 then 1 else current
        (scanOk, { rescan vol s sel with offset := 128 - current, sel := 128 })
  | .prevPage =>
    (firstVisible s 256 s.offset).map fun found =>
      match found with
      | none => (scanEnd, s)
      | some sel =>
        let current := sel - s.offset
        let current := if current = 0 then 11 else current
        (scanOk, { rescan vol s sel with offset := 128 - current, sel := 128 })

/-- What the user does in a directory. -/
inductive Op where
  | scanFirst
  | scanFind (search : UInt8)
  | update (opt : ScanOpt)

def Op.apply (vol : Volume) (s : TDirScan) : Op → Option TDirScan
  | .scanFirst => some (Filesel.scanFirst vol s)
  | .scanFind search => some (Filesel.scanFind vol search s)
  | .update opt => (Filesel.update vol opt s).map Prod.snd

def run (vol : Volume) : List Op → TDirScan → Option TDirScan
  | [], s => some s
  | op :: ops, s => (op.apply vol s).bind (run vol ops)

/-- Everything found is forgotten. -/
def forget (s : TDirScan) : TDirScan :=
  { s with total_entries := 0, dPrev := .none, dNext := .none, refc := 0, offset := 128, sel := 128 }

/-- What starts a new directory or a new filter. -/
inductive Edit where
  | changeDir (pPath : List UInt8)
  | addFilterChar (letter : UInt8)
  | delFilterChar

/-- `Filesel_ChangeDir`, `Filesel_AddFilterChar` and `Filesel_DelFilterChar`; a letter 0 ends the string
    where it ended before. -/
def Edit.apply (s : TDirScan) : Edit → TDirScan
  | .changeDir pPath => { forget s with pPath := pPath, file_filter := [] }
  | .addFilterChar letter =>
    let len := s.file_filter.length
    if len < 12 - 1 ∧ letter ≠ 0 then { forget s with file_filter := s.file_filter ++ [letter] }
    else forget s
  | .delFilterChar => { forget s with file_filter := s.file_filter.dropLast }

/-! ### What the browser shows -/

/-- The selected entry is number `i` of the sorted directory. -/
def SelectedAt (vol : Volume) (s : TDirScan) (i : ℕ) : Prop :=
  checkIndex s s.sel = true ∧ (sortedEntries (s.entries vol))[i]? = some (getEntry s s.sel)

/-- The reference, if there is one. -/
def TDirScan.ref (s : TDirScan) : List FileEntry := if s.refc ≠ 0 then [s.dRef] else []

/-- The browser is a window on the sorted directory, with an entry of it selected in the window, and
    steps go from entry to entry. -/
structure Browses (vol : Volume) (s : TDirScan) : Prop where
  consecutive : ∃ before after, sortedEntries (s.entries vol)
    = before ++ (s.dPrev.val.reverse ++ s.ref ++ s.dNext.val) ++ after
  selected : s.entries vol ≠ [] → ∃ i, SelectedAt vol s i
  window : s.entries vol ≠ [] →
    s.offset.toNat ≤ s.sel.toNat ∧ s.sel.toNat - s.offset.toNat < maxDirEntries
  next : ∀ i, SelectedAt vol s i → i + 1 < (s.entries vol).length →
    ∃ s', update vol .next s = some (scanOk, s') ∧ s'.entries vol = s.entries vol ∧
      SelectedAt vol s' (i + 1)
  prev : ∀ i, SelectedAt vol s (i + 1) →
    ∃ s', update vol .prev s = some (scanOk, s') ∧ s'.entries vol = s.entries vol ∧
      SelectedAt vol s' i
  last : ∀ i, SelectedAt vol s i → i + 1 = (s.entries vol).length →
    update vol .next s = some (scanEnd, s)
  first : SelectedAt vol s 0 → update vol .prev s = some (scanEnd, s)
  empty : s.entries vol = [] → ∀ opt, update vol opt s = some (scanEnd, s)

/-- The operation finds an entry to select. -/
def Op.Finds (entries : List FileEntry) : Op → Prop
  | .scanFirst => True
  | .scanFind search => ∃ e ∈ entries, toupper (charAt e.fileName.chars 0) = search
  | .update _ => False

/-! ### Indices and positions -/

/-- The scans have gone around position `base`, or, when that is -1, from the start. -/
structure View (L : List FileEntry) (s : TDirScan) (base : ℤ) : Prop where
  ref : s.refc = 0 ∧ base = -1 ∨ s.refc = 1 ∧ 0 ≤ base ∧ L[base.toNat]? = some s.dRef
  prev : s.dPrev.val = (L.take base.toNat).reverse.take maxDirEntries
  next : s.dNext.val = (L.drop (base + 1).toNat).take maxDirEntries

/-- The position that an index stands for. -/
def position (base : ℤ) (idx : UInt8) : ℤ := base + idx.toNat - 128

variable {vol : Volume} {L : List FileEntry} {s : TDirScan} {base : ℤ}

theorem View.base_lt (h : View L s base) : -1 ≤ base ∧ base < max 1 L.length := by
  rcases h.ref with ⟨-, rfl⟩ | ⟨-, h0, hx⟩
  · omega
  · obtain ⟨hlt, -⟩ := List.getElem?_eq_some_iff.mp hx
    omega

/-- The index of a neighbour before the reference. -/
theorem toNat_before {idx : UInt8} (h : idx < 128) : (127 - idx).toNat = 127 - idx.toNat ∧ idx.toNat < 128 := by
  have hlt : idx.toNat < 128 := UInt8.lt_iff_toNat_lt.mp h
  have hle : idx ≤ 127 := UInt8.le_iff_toNat_le.mpr (Nat.le_of_lt_succ hlt)
  exact ⟨UInt8.toNat_sub_of_le _ _ hle, hlt⟩

/-- The index of a neighbour behind it. -/
theorem toNat_behind {idx : UInt8} (h0 : idx ≠ 128) (h : ¬ idx < 128) :
    (idx - 129).toNat = idx.toNat - 129 ∧ 129 ≤ idx.toNat := by
  have hge : 128 ≤ idx.toNat := UInt8.le_iff_toNat_le.mp (UInt8.not_lt.mp h)
  have hne : idx.toNat ≠ 128 := fun heq => h0 (UInt8.toNat_inj.mp heq)
  have hle : 129 ≤ idx.toNat := by omega
  exact ⟨UInt8.toNat_sub_of_le _ _ (UInt8.le_iff_toNat_le.mpr hle), hle⟩

/-- Which indices have an entry. -/
theorem View.checkIndex (h : View L s base) {idx : UInt8} (hlo : 116 ≤ idx.toNat)
    (hhi : idx.toNat ≤ 140) :
    checkIndex s idx = true ↔ 0 ≤ position base idx ∧ position base idx < L.length := by
  obtain ⟨hge, hlt⟩ := h.base_lt
  have hmax : maxDirEntries = 12 := rfl
  rw [Filesel.checkIndex, position]
  by_cases h0 : idx = 128
  · subst h0
    have h128 : (128 : UInt8).toNat = 128 := rfl
    rw [if_pos rfl, decide_eq_true_eq, h128]
    rcases h.ref with ⟨hr, rfl⟩ | ⟨hr, hb, hx⟩
    · exact ⟨fun hn => absurd hr hn, fun hn => by omega⟩
    · obtain ⟨hxlt, -⟩ := List.getElem?_eq_some_iff.mp hx
      exact ⟨fun _ => by omega, fun _ => by rw [hr]; decide⟩
  · rw [if_neg h0]
    by_cases hb : idx < 128
    · obtain ⟨hn, hb'⟩ := toNat_before hb
      rw [if_pos hb, decide_eq_true_eq, hn, h.prev, List.length_take, List.length_reverse,
        List.length_take]
      omega
    · obtain ⟨hn, hb'⟩ := toNat_behind h0 hb
      rw [if_neg hb, decide_eq_true_eq, hn, h.next, List.length_take, List.length_drop]
      omega

/-- Which entry an index has. -/
theorem View.getEntry (h : View L s base) {idx : UInt8} (hcheck : Filesel.checkIndex s idx = true) :
    L[(position base idx).toNat]? = some (getEntry s idx) := by
  obtain ⟨hge, hlt⟩ := h.base_lt
  rw [Filesel.checkIndex] at hcheck
  rw [Filesel.getEntry, position]
  by_cases h0 : idx = 128
  · subst h0
    have h128 : (128 : UInt8).toNat = 128 := rfl
    rw [if_pos rfl, decide_eq_true_eq] at hcheck
    rw [if_pos rfl, if_pos hcheck, h128]
    rcases h.ref with ⟨hr, -⟩ | ⟨-, -, hx⟩
    · exact absurd hr hcheck
    · rw [show base + ((128 : ℕ) : ℤ) - 128 = base by omega]
      exact hx
  · rw [if_neg h0] at hcheck ⊢
    by_cases hb : idx < 128
    · obtain ⟨hn, hb'⟩ := toNat_before hb
      rw [if_pos hb, decide_eq_true_eq, hn, h.prev, List.length_take, List.length_reverse,
        List.length_take] at hcheck
      rw [if_pos hb, hn, List.getD_eq_getElem?_getD, h.prev, List.getElem?_take_of_lt (by omega),
        List.getElem?_reverse (by rw [List.length_take]; omega), List.length_take,
        List.getElem?_take_of_lt (by omega),
        show min base.toNat L.length - 1 - (127 - idx.toNat) = (base + idx.toNat - 128).toNat by omega,
        List.getElem?_eq_getElem (by omega), Option.getD_some]
    · obtain ⟨hn, hb'⟩ := toNat_behind h0 hb
      rw [if_neg hb, decide_eq_true_eq, hn, h.next, List.length_take, List.length_drop] at hcheck
      rw [if_neg hb, hn, List.getD_eq_getElem?_getD, h.next, List.getElem?_take_of_lt (by omega),
        List.getElem?_drop,
        show (base + 1).toNat + (idx.toNat - 129) = (base + idx.toNat - 128).toNat by omega,
        List.getElem?_eq_getElem (by omega), Option.getD_some]

/-! ### The scans -/

/-- `Filesel_ScanFirst` looks from the start. -/
theorem scanFirst_view (vol : Volume) (s : TDirScan) :
    View (listed (s.entries vol)) (scanFirst vol s) (-1) :=
  ⟨Or.inl ⟨rfl, rfl⟩, rfl, scanFirst_dNext vol s⟩

theorem scanUpdate_fields (vol : Volume) (s : TDirScan) : (scanUpdate vol s).refc = 1 ∧
    (scanUpdate vol s).dRef = s.dRef ∧ (scanUpdate vol s).entries vol = s.entries vol := by
  rw [scanUpdate, foldl_scanUpdateStep]
  exact ⟨rfl, rfl, rfl⟩

/-- `Filesel_ScanUpdate` looks from its reference. -/
theorem scanUpdate_view {k : ℕ} (hk : (listed (s.entries vol))[k]? = some s.dRef) :
    View (listed (s.entries vol)) (scanUpdate vol s) k := by
  obtain ⟨hrefc, href, -⟩ := scanUpdate_fields vol s
  obtain ⟨hlt, hx⟩ := List.getElem?_eq_some_iff.mp hk
  have hsplit : listed (s.entries vol) = (listed (s.entries vol)).take k
      ++ s.dRef :: (listed (s.entries vol)).drop (k + 1) := by
    rw [← hx, ← List.drop_eq_getElem_cons hlt, List.take_append_drop]
  obtain ⟨hprev, hnext⟩ := scanUpdate_eq hsplit
  refine ⟨Or.inr ⟨hrefc, by omega, ?_⟩, hprev, hnext⟩
  rw [href]
  exact hk

/-- The selected index is in the window and has an entry. -/
structure Stands (L : List FileEntry) (s : TDirScan) (base : ℤ) : Prop extends View L s base where
  offset_ge : 116 ≤ s.offset.toNat
  offset_le : s.offset.toNat ≤ 128
  sel_ge : 117 ≤ s.sel.toNat
  window : s.offset.toNat ≤ s.sel.toNat ∧ s.sel.toNat < s.offset.toNat + 12
  selected : 0 ≤ position base s.sel ∧ position base s.sel < L.length

theorem Stands.check (h : Stands L s base) : checkIndex s s.sel = true := by
  obtain ⟨h1, h2⟩ := h.window
  have h3 := h.offset_le
  have h4 := h.sel_ge
  exact (h.checkIndex (by omega) (by omega)).mpr h.selected

/-- A window put somewhere around the reference. -/
theorem View.stands (h : View L s base) {offset sel : UInt8} (hge : 116 ≤ offset.toNat)
    (hle : offset.toNat ≤ 128) (hsel : 117 ≤ sel.toNat)
    (hwin : offset.toNat ≤ sel.toNat ∧ sel.toNat < offset.toNat + 12)
    (hpos : 0 ≤ position base sel ∧ position base sel < L.length) :
    Stands L { s with offset := offset, sel := sel } base :=
  ⟨⟨h.ref, h.prev, h.next⟩, hge, hle, hsel, hwin, hpos⟩

/-- A scan around an entry with an index sees the directory from there. -/
theorem rescan_view (h : View (listed (s.entries vol)) s base) {idx : UInt8} (hidx : checkIndex s idx = true)
    (hp : 0 ≤ position base idx) :
    View (listed (s.entries vol)) (rescan vol s idx) (position base idx) := by
  have hview := scanUpdate_view (s := { s with dRef := getEntry s idx }) (h.getEntry hidx)
  rw [Int.toNat_of_nonneg hp] at hview
  exact hview

theorem rescan_entries (s : TDirScan) (idx : UInt8) :
    (rescan vol s idx).entries vol = s.entries vol :=
  (scanUpdate_fields vol { s with dRef := getEntry s idx }).2.2

end Filesel
