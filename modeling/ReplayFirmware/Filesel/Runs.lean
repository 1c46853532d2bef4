import ReplayFirmware.Filesel.Moves

/-! Runs of the file browser: from the first scan that finds something on, it is a window on the sorted
    directory with an entry selected in it. -/

namespace Filesel
open Libc Nearest

variable {vol : Volume} {s : TDirScan} {base : ℤ}

/-- An entry is selected, unless there is none. -/
def Shown (vol : Volume) (s : TDirScan) : Prop :=
  (∃ base, Stands (sortedEntries (s.entries vol)) s base) ∨ (Blank s ∧ s.entries vol = [])

/-- The same, where entries may sort the same. -/
def Rests (vol : Volume) (s : TDirScan) : Prop :=
  (∃ base, Stands (listed (s.entries vol)) s base) ∨ (Blank s ∧ s.entries vol = [])

theorem Rests.shown (hd : Distinct (s.entries vol)) (h : Rests vol s) : Shown vol s := by
  rw [Rests, listed_eq hd] at h
  exact h

theorem listed_ne_nil {es : List FileEntry} (h : es ≠ []) : 0 < (listed es).length := by
  obtain ⟨e, es', rfl⟩ := List.exists_cons_of_ne_nil h
  rw [(listed_perm _).length_eq, firsts]
  exact Nat.succ_pos _

theorem length_sortedEntries (es : List FileEntry) : (sortedEntries es).length = es.length :=
  (sortedEntries_perm es).length_eq

/-- `Filesel_ScanFirst` selects the first entry. -/
theorem scanFirst_rests (vol : Volume) (s : TDirScan) : Rests vol (scanFirst vol s) := by
  by_cases h0 : s.entries vol = []
  · refine Or.inr ⟨⟨rfl, rfl, ?_, rfl⟩, h0⟩
    rw [scanFirst, h0]
    rfl
  · have hlen := listed_ne_nil h0
    have hpos : position (-1) 129 = 0 := rfl
    exact Or.inl ⟨-1, (scanFirst_view vol s).stands (by decide) (by decide) (by decide) (by decide)
      (by rw [hpos]; omega)⟩

/-- Where `Filesel_ScanFind` finds an entry it selects one, and otherwise it changes nothing. -/
theorem scanFind_rests (vol : Volume) (s : TDirScan) (search : UInt8) :
    (Op.Finds (s.entries vol) (.scanFind search) → Rests vol (scanFind vol search s)) ∧
      (¬ Op.Finds (s.entries vol) (.scanFind search) → scanFind vol search s = s) := by
  rw [scanFind]
  simp only
  generalize hfound : (if (getEntry s s.sel).isDir then
    (lowest false search (s.entries vol)).or (lowest true search (s.entries vol))
    else (lowest true search (s.entries vol)).or (lowest false search (s.entries vol))) = found
  cases found with
  | none =>
    have hboth : lowest false search (s.entries vol) = none ∧ lowest true search (s.entries vol) = none := by
      split at hfound
      · exact Option.or_eq_none_iff.mp hfound
      · exact (Option.or_eq_none_iff.mp hfound).symm
    refine ⟨fun ⟨e, he, hi⟩ => ?_, fun _ => rfl⟩
    cases hdir : e.isDir with
    | false =>
      have hno := (foldl_lowest_none.mp hboth.1).2 e he
      rw [initialIs, hi, hdir] at hno
      exact absurd hno (by simp only [and_self, decide_true, Bool.true_eq_false, not_false_eq_true])
    | true =>
      have hno := (foldl_lowest_none.mp hboth.2).2 e he
      rw [initialIs, hi, hdir] at hno
      exact absurd hno (by simp only [and_self, decide_true, Bool.true_eq_false, not_false_eq_true])
  | some mydir =>
    have hmem : ∀ isDir, lowest isDir search (s.entries vol) = some mydir →
        mydir ∈ s.entries vol ∧ initialIs isDir search mydir = true := by
      intro isDir hl
      rcases foldl_lowest_some hl with h | h
      · exact h
      · cases h
    have hone : ∃ isDir, lowest isDir search (s.entries vol) = some mydir := by
      split at hfound
      · rcases Option.or_eq_some_iff.mp hfound with h | ⟨-, h⟩
        · exact ⟨_, h⟩
        · exact ⟨_, h⟩
      · rcases Option.or_eq_some_iff.mp hfound with h | ⟨-, h⟩
        · exact ⟨_, h⟩
        · exact ⟨_, h⟩
    obtain ⟨isDir, hl⟩ := hone
    obtain ⟨he, hi⟩ := hmem isDir hl
    refine ⟨fun _ => ?_, fun hno => absurd ⟨mydir, he, (of_decide_eq_true hi).1⟩ hno⟩
    obtain ⟨k, hk⟩ := List.getElem?_of_mem ((listed_perm _).mem_iff.mpr (lowest_first _ hl).1)
    have hlt := (List.getElem?_eq_some_iff.mp hk).1
    have hview : View (listed (s.entries vol)) (scanUpdate vol { s with dRef := mydir }) k :=
      scanUpdate_view (s := { s with dRef := mydir }) hk
    have hentries := (scanUpdate_fields vol { s with dRef := mydir }).2.2
    have hpos : position k 128 = k := by
      rw [position, show (128 : UInt8).toNat = 128 from rfl]
      omega
    have hstands : Stands (listed (s.entries vol))
        { scanUpdate vol { s with dRef := mydir } with offset := 127, sel := 128 } k :=
      hview.stands (by decide) (by decide) (by decide) (by decide) (by omega)
    refine Or.inl ⟨k, ?_⟩
    rw [show TDirScan.entries vol { scanUpdate vol { s with dRef := mydir } with
      offset := 127, sel := 128 } = s.entries vol from hentries]
    exact hstands

theorem scanFind_entries (search : UInt8) : (scanFind vol search s).entries vol = s.entries vol := by
  rw [scanFind]
  simp only
  split
  · rfl
  · next mydir _ => exact (scanUpdate_fields vol { s with dRef := mydir }).2.2

/-! ### Runs -/

/-- An operation on a directory that is shown. -/
theorem apply_rests (h : Rests vol s) (op : Op) :
    ∃ s', op.apply vol s = some s' ∧ s'.entries vol = s.entries vol ∧ Rests vol s' := by
  cases op with
  | scanFirst => exact ⟨_, rfl, rfl, scanFirst_rests vol s⟩
  | scanFind search =>
    refine ⟨_, rfl, scanFind_entries search, ?_⟩
    by_cases hf : Op.Finds (s.entries vol) (.scanFind search)
    · exact (scanFind_rests vol s search).1 hf
    · rw [(scanFind_rests vol s search).2 hf]
      exact h
  | update opt =>
    rw [Op.apply]
    rcases h with ⟨base, hs⟩ | ⟨hb, h0⟩
    · have hstep : ∃ r s' base', update vol opt s = some (r, s') ∧ s'.entries vol = s.entries vol ∧
          Stands (listed (s.entries vol)) s' base' := by
        cases opt with
        | next =>
          by_cases hlt : position base s.sel + 1 < (listed (s.entries vol)).length
          · obtain ⟨s', base', hrun, hentries, hs', -⟩ := hs.update_next hlt
            exact ⟨_, s', base', hrun, hentries, hs'⟩
          · have hend := hs.update_next_end vol (by have := hs.selected; omega)
            exact ⟨_, s, base, hend, rfl, hs⟩
        | prev =>
          by_cases hlt : 0 < position base s.sel
          · obtain ⟨s', base', hrun, hentries, hs', -⟩ := hs.update_prev hlt
            exact ⟨_, s', base', hrun, hentries, hs'⟩
          · have hend := hs.update_prev_end vol (by have := hs.selected; omega)
            exact ⟨_, s, base, hend, rfl, hs⟩
        | nextPage =>
          obtain ⟨s', base', hrun, hentries, hs', -⟩ := hs.update_nextPage
          exact ⟨_, s', base', hrun, hentries, hs'⟩
        | prevPage =>
          obtain ⟨s', base', hrun, hentries, hs', -⟩ := hs.update_prevPage
          exact ⟨_, s', base', hrun, hentries, hs'⟩
      obtain ⟨r, s', base', hrun, hentries, hs'⟩ := hstep
      rw [hrun]
      refine ⟨s', rfl, hentries, Or.inl ⟨base', ?_⟩⟩
      rw [hentries]
      exact hs'
    · rw [hb.update]
      exact ⟨s, rfl, rfl, Or.inr ⟨hb, h0⟩⟩

theorem run_rests : ∀ (ops : List Op) {s : TDirScan}, Rests vol s →
    ∃ s', run vol ops s = some s' ∧ s'.entries vol = s.entries vol ∧ Rests vol s'
  | [], s, h => ⟨s, rfl, rfl, h⟩
  | op :: ops, s, h => by
    obtain ⟨s₁, hop, hentries, h₁⟩ := apply_rests h op
    obtain ⟨s', hrun, hentries', h'⟩ := run_rests ops h₁
    refine ⟨s', ?_, hentries'.trans hentries, h'⟩
    rw [run, hop]
    exact hrun

/-- An operation before any scan. -/
theorem apply_blank (h : Blank s) (op : Op) :
    ∃ s', op.apply vol s = some s' ∧ s'.entries vol = s.entries vol ∧
      (op.Finds (s.entries vol) → Rests vol s') ∧ (¬ op.Finds (s.entries vol) → s' = s) := by
  cases op with
  | scanFirst => exact ⟨_, rfl, rfl, fun _ => scanFirst_rests vol s, fun hno => absurd trivial hno⟩
  | scanFind search => exact ⟨_, rfl, scanFind_entries search, scanFind_rests vol s search⟩
  | update opt =>
    rw [Op.apply, h.update]
    exact ⟨s, rfl, rfl, fun hno => absurd hno id, fun _ => rfl⟩

/-- A run before any scan, and from the first scan that finds something on. -/
theorem run_blank : ∀ (ops : List Op) {s : TDirScan}, Blank s →
    ∃ s', run vol ops s = some s' ∧ s'.entries vol = s.entries vol ∧
      ((∃ op ∈ ops, op.Finds (s.entries vol)) → Rests vol s') ∧
      ((∀ op ∈ ops, ¬ op.Finds (s.entries vol)) → s' = s)
  | [], s, _ => ⟨s, rfl, rfl, fun ⟨_, hop, _⟩ => absurd hop List.not_mem_nil, fun _ => rfl⟩
  | op :: ops, s, h => by
    obtain ⟨s₁, hop, hentries, hfind, hno⟩ := apply_blank h op
    by_cases hf : op.Finds (s.entries vol)
    · obtain ⟨s', hrun, hentries', h'⟩ := run_rests ops (hfind hf)
      refine ⟨s', ?_, hentries'.trans hentries, fun _ => h',
        fun hall => absurd hf (hall op List.mem_cons_self)⟩
      rw [run, hop]
      exact hrun
    · obtain rfl := hno hf
      obtain ⟨s', hrun, hentries', hsome, hnone⟩ := run_blank ops h
      refine ⟨s', ?_, hentries', ?_, fun hall => hnone fun o ho => hall o (List.mem_cons_of_mem op ho)⟩
      · rw [run, hop]
        exact hrun
      · rintro ⟨o, ho, hfo⟩
        rcases List.mem_cons.mp ho with rfl | ho
        · exact absurd hfo hf
        · exact hsome ⟨o, ho, hfo⟩

/-! ### What is shown -/

theorem SelectedAt.position_eq (hd : Distinct (s.entries vol))
    (h : Stands (sortedEntries (s.entries vol)) s base) {i : ℕ} (hi : SelectedAt vol s i) :
    position base s.sel = i := by
  have hsel := h.getEntry h.check
  have hnodup : (sortedEntries (s.entries vol)).Nodup :=
    (sortedEntries_sorted hd).imp fun hlt heq => absurd (congrArg FileEntry.key heq) (ne_of_lt hlt)
  obtain ⟨hlt, -⟩ := List.getElem?_eq_some_iff.mp hi.2
  have hinj := (List.getElem?_inj hlt hnodup).mp (hi.2.trans hsel.symm)
  have := h.selected.1
  omega

theorem Stands.selectedAt (h : Stands (sortedEntries (s.entries vol)) s base) {i : ℕ}
    (hi : position base s.sel = i) : SelectedAt vol s i := by
  have hsel := h.getEntry h.check
  rw [hi, Int.toNat_natCast] at hsel
  exact ⟨h.check, hsel⟩

/-- The neighbours and the reference stand side by side in the sorted directory. -/
theorem View.consecutive {L : List FileEntry} (h : View L s base) :
    ∃ before after, L = before ++ (s.dPrev.val.reverse ++ s.ref ++ s.dNext.val) ++ after := by
  have hsplit : L = L.take base.toNat ++ s.ref ++ L.drop (base + 1).toNat := by
    rcases h.ref with ⟨hr, rfl⟩ | ⟨hr, h0, hx⟩
    · rw [TDirScan.ref, if_neg fun hn => hn hr]
      rfl
    · obtain ⟨hlt, hx⟩ := List.getElem?_eq_some_iff.mp hx
      rw [TDirScan.ref, if_pos (by rw [hr]; decide), ← hx, List.append_assoc, List.singleton_append,
        show (base + 1).toNat = base.toNat + 1 by omega, ← List.drop_eq_getElem_cons hlt,
        List.take_append_drop]
  obtain ⟨before, hbefore⟩ : s.dPrev.val.reverse <:+ L.take base.toNat := by
    rw [h.prev, ← List.reverse_prefix, List.reverse_reverse]
    exact List.take_prefix _ _
  obtain ⟨after, hafter⟩ : s.dNext.val <+: L.drop (base + 1).toNat := by
    rw [h.next]
    exact List.take_prefix _ _
  refine ⟨before, after, ?_⟩
  rw [← hbefore, ← hafter] at hsplit
  rw [hsplit]
  simp only [List.append_assoc]

/-- A directory that is shown is browsed. -/
theorem Shown.browses (hd : Distinct (s.entries vol)) (h : Shown vol s) : Browses vol s := by
  have hlen := length_sortedEntries (s.entries vol)
  rcases h with ⟨base, hs⟩ | ⟨hb, h0⟩
  · have hl : Stands (listed (s.entries vol)) s base := by
      rw [listed_eq hd]
      exact hs
    have hne : s.entries vol ≠ [] := fun h0 => by
      have hsel := hs.selected
      rw [hlen, h0, List.length_nil] at hsel
      omega
    exact
      { consecutive := hs.consecutive
        selected := fun _ => ⟨_, hs.selectedAt (Int.toNat_of_nonneg hs.selected.1).symm⟩
        window := fun _ => ⟨hs.window.1, by have := hs.window; rw [maxDirEntries]; omega⟩
        next := fun i hi hlt => by
          have hpos := hi.position_eq hd hs
          obtain ⟨s', base', hrun, hentries, hs', hpos'⟩ := hl.update_next (by rw [listed_eq hd]; omega)
          rw [listed_eq hd, ← hentries] at hs'
          exact ⟨s', hrun, hentries, hs'.selectedAt (by rw [hpos', hpos]; rfl)⟩
        prev := fun i hi => by
          have hpos := hi.position_eq hd hs
          obtain ⟨s', base', hrun, hentries, hs', hpos'⟩ := hl.update_prev (by omega)
          rw [listed_eq hd, ← hentries] at hs'
          exact ⟨s', hrun, hentries, hs'.selectedAt (by omega)⟩
        last := fun i hi hend => by
          have hpos := hi.position_eq hd hs
          exact hs.update_next_end vol (by omega)
        first := fun hi => by
          have hpos := hi.position_eq hd hs
          exact hs.update_prev_end vol hpos
        empty := fun h0 => absurd h0 hne }
  · have hno : ∀ i, ¬ SelectedAt vol s i := fun i hi => by
      have hcheck := hi.1
      rw [hb.check] at hcheck
      exact Bool.false_ne_true hcheck
    exact
      { consecutive := ⟨[], [], by rw [TDirScan.ref, hb.refc, hb.dPrev, hb.dNext, h0]; rfl⟩
        selected := fun hne => absurd h0 hne
        window := fun hne => absurd h0 hne
        next := fun i hi => absurd hi (hno i)
        prev := fun i hi => absurd hi (hno _)
        last := fun i hi => absurd hi (hno i)
        first := fun hi => absurd hi (hno 0)
        empty := fun _ opt => hb.update opt }

theorem letter_no_nul : (0 : UInt8) ∉ [0x41] := by decide

theorem letter_ne_nil : [(0x41 : UInt8)] ≠ [] := List.cons_ne_nil _ _

def oneFile : Volume := fun _ =>
  some [{ fattrib := 0, fname := [0x41], no_nul := letter_no_nul, ne_nil := letter_ne_nil }]

/-- The root directory, before any scan. -/
def started : TDirScan :=
  (Edit.changeDir [0x2F]).apply
    { file_exts := none, pPath := [], file_filter := [], total_entries := 0, refc := 0, offset := 0
      sel := 0, dPrev := .none, dRef := nullEntry, dNext := .none }

theorem started_entries : started.entries oneFile =
    [{ attrib := 0, fileName := { chars := [0x41], no_nul := by decide, fits := by decide } }] := by
  decide

end Filesel
