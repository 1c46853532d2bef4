import ReplayFirmware.Filesel.Scan
import Mathlib.Data.List.Induction

/-! What the scans find: the neighbours of the reference in the sorted directory.

    Two entries that sort the same are one to them: they keep the first one that they meet. A name that is
    cut can be that of another entry; otherwise a directory has no two such entries. -/

namespace Filesel
open Libc Compare Nearest

/-- The list that the browser is a window on. -/
def sortedEntries (es : List FileEntry) : List FileEntry :=
  es.insertionSort fun a b => compareDirEntries a b ≤ 0

/-- No two entries are of one kind and have one name. -/
def Distinct (es : List FileEntry) : Prop := es.Pairwise fun a b => ¬ Same a b

theorem Distinct.keys {es : List FileEntry} (h : Distinct es) :
    es.Pairwise fun a b => a.key ≠ b.key :=
  h.imp fun hab hkey => hab (key_eq_iff.mp hkey)

theorem sortedEntries_perm (es : List FileEntry) : (sortedEntries es).Perm es :=
  List.perm_insertionSort _ es

theorem sortedEntries_sorted {es : List FileEntry} (h : Distinct es) :
    Sorted FileEntry.key (sortedEntries es) := by
  have hrel : (fun a b => compareDirEntries a b ≤ 0) = fun a b => a.key ≤ b.key :=
    funext fun a => funext fun b => propext (compareDirEntries_compares a b).le
  have hle : (sortedEntries es).Pairwise fun a b => a.key ≤ b.key := by
    have : IsTrans FileEntry fun a b => compareDirEntries a b ≤ 0 := by
      rw [hrel]
      exact ⟨fun _ _ _ => le_trans⟩
    have : Std.Total fun a b => compareDirEntries a b ≤ 0 := by
      rw [hrel]
      exact ⟨fun _ _ => le_total _ _⟩
    exact (List.pairwise_insertionSort _ es).imp (compareDirEntries_compares _ _).le.mp
  have hne := (sortedEntries_perm es).symm.pairwise h.keys fun h => h.symm
  exact hle.imp₂ (fun _ _ => lt_of_le_of_ne) hne

/-! ### Entries that sort the same -/

instance : DecidableRel Same := fun a b =>
  inferInstanceAs (Decidable (a.isDir = b.isDir ∧ a.fileName = b.fileName))

theorem Same.symm {a b : FileEntry} (h : Same a b) : Same b a := ⟨h.1.symm, h.2.symm⟩

theorem Same.trans {a b c : FileEntry} (h : Same a b) (h' : Same b c) : Same a c :=
  ⟨h.1.trans h'.1, h.2.trans h'.2⟩

/-- The first of the entries that are of one kind and have one name. -/
def firsts : List FileEntry → List FileEntry
  | [] => []
  | e :: es => e :: (firsts es).filter fun b => ¬ Same e b

theorem firsts_subset : ∀ {es : List FileEntry} {e : FileEntry}, e ∈ firsts es → e ∈ es
  | x :: es, e, h => by
    rcases List.mem_cons.mp h with rfl | h
    · exact List.mem_cons_self
    · exact List.mem_cons_of_mem x (firsts_subset (List.mem_filter.mp h).1)

theorem firsts_distinct : ∀ es : List FileEntry, Distinct (firsts es)
  | [] => List.Pairwise.nil
  | e :: es => by
    refine List.pairwise_cons.mpr ⟨fun b hb => ?_, (firsts_distinct es).filter _⟩
    exact of_decide_eq_true (List.mem_filter.mp hb).2

/-- Every entry is the same as one of them. -/
theorem exists_first : ∀ {es : List FileEntry} {e : FileEntry}, e ∈ es → ∃ a ∈ firsts es, Same a e
  | x :: es, e, h => by
    by_cases hx : Same x e
    · exact ⟨x, List.mem_cons_self, hx⟩
    · rcases List.mem_cons.mp h with rfl | h
      · exact absurd ⟨rfl, rfl⟩ hx
      · obtain ⟨a, ha, hae⟩ := exists_first h
        refine ⟨a, List.mem_cons_of_mem x (List.mem_filter.mpr ⟨ha, ?_⟩), hae⟩
        exact decide_eq_true fun hxa => hx (hxa.trans hae)

theorem firsts_eq_self : ∀ {es : List FileEntry}, Distinct es → firsts es = es
  | [], _ => rfl
  | e :: es, h => by
    obtain ⟨he, hes⟩ := List.pairwise_cons.mp h
    rw [firsts, firsts_eq_self hes, List.filter_eq_self.mpr fun b hb => decide_eq_true (he b hb)]

/-- One more entry is one of them when none before is the same. -/
theorem firsts_append (x : FileEntry) : ∀ es : List FileEntry,
    firsts (es ++ [x]) = firsts es ++ if ∃ e ∈ es, Same e x then [] else [x]
  | [] => by
    rw [if_neg fun ⟨e, he, _⟩ => List.not_mem_nil he]
    rfl
  | e :: es => by
    rw [List.cons_append, firsts, firsts_append x es, List.filter_append, firsts, List.cons_append]
    congr 2
    by_cases hes : ∃ a ∈ es, Same a x
    · obtain ⟨a, ha, hax⟩ := hes
      rw [if_pos ⟨a, ha, hax⟩, if_pos ⟨a, List.mem_cons_of_mem e ha, hax⟩, List.filter_nil]
    · rw [if_neg hes]
      by_cases hex : Same e x
      · rw [if_pos ⟨e, List.mem_cons_self, hex⟩,
          List.filter_cons_of_neg (by rw [decide_eq_true_eq]; exact fun h => h hex), List.filter_nil]
      · rw [List.filter_eq_self.mpr fun b hb => decide_eq_true (List.mem_singleton.mp hb ▸ hex), if_neg]
        rintro ⟨a, ha, hax⟩
        rcases List.mem_cons.mp ha with rfl | ha
        · exact hex hax
        · exact hes ⟨a, ha, hax⟩

/-- A filter that cannot tell entries that sort the same leaves the first of what it leaves. -/
theorem firsts_filter {p : FileEntry → Bool} (hp : ∀ a b, Same a b → p a = p b) :
    ∀ es : List FileEntry, firsts (es.filter p) = (firsts es).filter p
  | [] => rfl
  | e :: es => by
    have hcomm : ∀ l : List FileEntry, (l.filter p).filter (fun b => ¬ Same e b)
        = (l.filter fun b => ¬ Same e b).filter p := fun l => by
      rw [List.filter_filter, List.filter_filter]
      exact List.filter_congr fun a _ => Bool.and_comm _ _
    by_cases he : p e = true
    · rw [List.filter_cons_of_pos he, firsts, firsts, firsts_filter hp es, List.filter_cons_of_pos he,
        hcomm]
    · rw [List.filter_cons_of_neg he, firsts, firsts_filter hp es, List.filter_cons_of_neg he, ← hcomm]
      refine (List.filter_eq_self.mpr fun b hb => decide_eq_true (p := ¬ Same e b) ?_).symm
      intro heb
      rw [hp e b heb] at he
      exact he (List.mem_filter.mp hb).2

/-- The list that the browser is a window on, whatever the directory. -/
def listed (es : List FileEntry) : List FileEntry := sortedEntries (firsts es)

theorem listed_sorted (es : List FileEntry) : Sorted FileEntry.key (listed es) :=
  sortedEntries_sorted (firsts_distinct es)

theorem listed_perm (es : List FileEntry) : (listed es).Perm (firsts es) := sortedEntries_perm _

theorem listed_eq {es : List FileEntry} (h : Distinct es) : listed es = sortedEntries es := by
  rw [listed, firsts_eq_self h]

section
variable {κ : Type*} [LinearOrder κ] {key : FileEntry → κ} {cmp : FileEntry → FileEntry → ℤ}

/-- The inner loops keep the nearest. -/
theorem insertEntry_eq_keep (hcmp : ∀ a b, Compares (cmp a b) (key a) (key b)) {mydir : FileEntry} :
    ∀ {room : ℕ} {es : List FileEntry}, es.length ≤ room → (∀ e ∈ es, key e ≠ key mydir) →
      insertEntry cmp mydir room es = keep key room es mydir
  | 0, es, hlen, _ => by
    rw [insertEntry, List.eq_nil_of_length_eq_zero (Nat.le_zero.mp hlen)]
    rfl
  | room + 1, [], _, _ => by
    rw [insertEntry, keep, List.orderedInsert_nil, List.take_succ_cons, List.take_nil]
  | room + 1, e :: es, hlen, hne => by
    have hev : cmp mydir e ≠ 0 := fun h0 =>
      hne e List.mem_cons_self ((hcmp mydir e).eq.mp h0).symm
    rw [insertEntry, keep, List.orderedInsert_cons, if_neg hev]
    by_cases hlt : cmp mydir e < 0
    · rw [if_pos hlt, if_pos ((hcmp mydir e).le.mp (le_of_lt hlt))]
    · have hnle : ¬ key mydir ≤ key e := fun hle => by
        have := (hcmp mydir e).le.mpr hle
        omega
      rw [if_neg hlt, if_neg hnle, List.take_succ_cons,
        insertEntry_eq_keep hcmp (Nat.le_of_succ_le_succ hlen)
          fun e' he' => hne e' (List.mem_cons_of_mem e he')]
      rfl

theorem mem_keep {n : ℕ} {l : List FileEntry} {x e : FileEntry} (he : e ∈ keep key n l x) :
    e = x ∨ e ∈ l := List.mem_orderedInsert _ |>.mp (List.mem_of_mem_take he)

/-- A scan keeps the nearest of what it meets. -/
theorem foldl_insert (hcmp : ∀ a b, Compares (cmp a b) (key a) (key b)) :
    ∀ (mydirs : List FileEntry) (l : DirEntries), (mydirs ++ l.val).Pairwise (fun a b => key a ≠ key b) →
      (mydirs.foldl (fun l mydir => l.insert cmp mydir) l).val
        = mydirs.foldl (keep key maxDirEntries) l.val
  | [], _, _ => rfl
  | x :: xs, l, hne => by
    obtain ⟨hx, hxs⟩ := List.pairwise_cons.mp hne
    obtain ⟨hxs, hl, hxl⟩ := List.pairwise_append.mp hxs
    have hkeep : (l.insert cmp x).val = keep key maxDirEntries l.val x :=
      insertEntry_eq_keep hcmp l.property
        fun e he => (hx e (List.mem_append_right _ he)).symm
    rw [List.foldl_cons, List.foldl_cons, ← hkeep]
    refine foldl_insert hcmp xs (l.insert cmp x) ?_
    rw [hkeep]
    refine List.pairwise_append.mpr ⟨hxs, ?_, ?_⟩
    · have hins : (l.val.orderedInsert (fun a b => key a ≤ key b) x).Pairwise
          fun a b => key a ≠ key b := by
        refine (List.perm_orderedInsert _ x l.val).symm.pairwise (l := x :: l.val) ?_ fun h => h.symm
        exact List.pairwise_cons.mpr ⟨fun e he => hx e (List.mem_append_right _ he), hl⟩
      exact hins.sublist (List.take_sublist _ _)
    · intro e he e' he'
      rcases mem_keep he' with rfl | he'
      · exact (hx e (List.mem_append_left _ he)).symm
      · exact hxl e he e' he'

/-- All the elements of a sorted list, in any order, leave its first ones. -/
theorem foldl_insert_take (hcmp : ∀ a b, Compares (cmp a b) (key a) (key b))
    {mydirs whole : List FileEntry} (hw : Sorted key whole) (hp : mydirs.Perm whole) :
    (mydirs.foldl (fun (l : DirEntries) mydir => l.insert cmp mydir) DirEntries.none).val = whole.take maxDirEntries := by
  rw [foldl_insert hcmp mydirs DirEntries.none]
  · exact foldl_keep maxDirEntries mydirs List.Pairwise.nil hw (by rw [List.append_nil]; exact hp)
  · show (mydirs ++ []).Pairwise _
    rw [List.append_nil]
    exact hp.symm.pairwise (hw.imp ne_of_lt) fun h => h.symm

/-- An entry that sorts the same as one already met changes nothing, kept or fallen off. -/
theorem insertEntry_skip (hcmp : ∀ a b, Compares (cmp a b) (key a) (key b)) {x : FileEntry} :
    ∀ (room : ℕ) {whole : List FileEntry}, Sorted key whole → (∃ e ∈ whole, key e = key x) →
      insertEntry cmp x room (whole.take room) = whole.take room
  | 0, _, _, _ => rfl
  | room + 1, [], _, ⟨_, he, _⟩ => absurd he List.not_mem_nil
  | room + 1, y :: whole, hw, ⟨e, he, hex⟩ => by
    obtain ⟨hy, hw⟩ := List.pairwise_cons.mp hw
    rw [List.take_succ_cons, insertEntry]
    rcases List.mem_cons.mp he with rfl | he
    · rw [if_pos ((hcmp x e).eq.mpr hex.symm)]
    · have hgt : key y < key x := hex ▸ hy e he
      rw [if_neg fun h0 => ne_of_gt hgt ((hcmp x y).eq.mp h0),
        if_neg fun hlt => lt_asymm hgt ((hcmp x y).lt.mp hlt),
        insertEntry_skip hcmp room hw ⟨e, he, hex⟩]

/-- A scan of a directory is one of its first entries. -/
theorem foldl_insert_firsts (hcmp : ∀ a b, Compares (cmp a b) (key a) (key b))
    (hkey : ∀ a b, key a = key b ↔ Same a b) (es : List FileEntry) :
    es.foldl (fun (l : DirEntries) mydir => l.insert cmp mydir) DirEntries.none
      = (firsts es).foldl (fun l mydir => l.insert cmp mydir) DirEntries.none := by
  induction es using List.reverseRec with
  | nil => rfl
  | append_singleton es x ih =>
    rw [List.foldl_append, List.foldl_cons, List.foldl_nil, firsts_append, ih]
    by_cases hex : ∃ e ∈ es, Same e x
    · rw [if_pos hex, List.append_nil]
      obtain ⟨e, he, hex⟩ := hex
      obtain ⟨a, ha, hae⟩ := exists_first he
      obtain ⟨whole, hw, hp⟩ := @exists_sorted _ _ _ key _
        ((firsts_distinct es).imp fun hab h => hab ((hkey _ _).mp h))
      refine Subtype.ext ?_
      rw [DirEntries.insert]
      simp only
      rw [foldl_insert_take hcmp hw hp]
      exact insertEntry_skip hcmp _ hw ⟨a, hp.mem_iff.mp ha, (hkey a x).mpr (hae.trans hex)⟩
    · rw [if_neg hex, List.foldl_append, List.foldl_cons, List.foldl_nil]

end

/-! ### The scans -/

/-- `Filesel_ScanFirst` finds the first entries. -/
theorem scanFirst_dNext (vol : Volume) (s : TDirScan) :
    (scanFirst vol s).dNext.val = (listed (s.entries vol)).take maxDirEntries := by
  rw [scanFirst]
  simp only
  rw [foldl_insert_firsts compareDirEntries_compares fun _ _ => key_eq_iff]
  exact foldl_insert_take compareDirEntries_compares (listed_sorted _) (listed_perm _).symm

/-- The two sides of `Filesel_ScanUpdate` are two scans. -/
theorem foldl_scanUpdateStep : ∀ (mydirs : List FileEntry) (s : TDirScan),
    mydirs.foldl scanUpdateStep s =
      { s with
        dPrev := (below FileEntry.key s.dRef mydirs).foldl
          (fun l mydir => l.insert (fun a b => -compareDirEntries a b) mydir) s.dPrev
        dNext := (above FileEntry.key s.dRef mydirs).foldl
          (fun l mydir => l.insert compareDirEntries mydir) s.dNext }
  | [], _ => rfl
  | e :: es, s => by
    have hc := compareDirEntries_compares e s.dRef
    rw [List.foldl_cons, scanUpdateStep]
    rcases lt_trichotomy e.key s.dRef.key with hlt | heq | hgt
    · rw [if_neg (fun h => lt_asymm hlt (hc.gt.mp h)), if_pos (hc.lt.mpr hlt), foldl_scanUpdateStep es,
        below_cons es hlt, above_cons_skip es (lt_asymm hlt)]
      rfl
    · rw [if_neg (fun h => ne_of_gt (hc.gt.mp h) heq), if_neg (fun h => ne_of_lt (hc.lt.mp h) heq),
        foldl_scanUpdateStep es, below_cons_skip es (fun h => ne_of_lt h heq),
        above_cons_skip es (fun h => ne_of_gt h heq)]
    · rw [if_pos (hc.gt.mpr hgt), foldl_scanUpdateStep es, above_cons es hgt,
        below_cons_skip es (lt_asymm hgt)]
      rfl

/-- `Filesel_ScanUpdate` finds the nearest entries on both sides of its reference, which need not be an
    entry of the directory. -/
theorem scanUpdate_sides (vol : Volume) (s : TDirScan) :
    (scanUpdate vol s).dPrev.val
        = (below FileEntry.key s.dRef (listed (s.entries vol))).reverse.take maxDirEntries ∧
      (scanUpdate vol s).dNext.val
        = (above FileEntry.key s.dRef (listed (s.entries vol))).take maxDirEntries := by
  have hsorted := listed_sorted (s.entries vol)
  have hperm := (listed_perm (s.entries vol)).symm
  rw [scanUpdate, foldl_scanUpdateStep]
  simp only
  refine ⟨?_, ?_⟩
  · rw [foldl_insert_firsts (fun a b => (compareDirEntries_compares a b).neg)
      fun _ _ => OrderDual.toDual_inj.trans key_eq_iff]
    refine foldl_insert_take (fun a b => (compareDirEntries_compares a b).neg) ?_ ?_
    · exact List.pairwise_reverse.mpr (hsorted.filter _)
    · rw [below, firsts_filter fun a b hab => by rw [key_eq_iff.mpr hab]]
      exact (hperm.filter _).trans (List.reverse_perm _).symm
  · rw [foldl_insert_firsts compareDirEntries_compares fun _ _ => key_eq_iff]
    refine foldl_insert_take compareDirEntries_compares (hsorted.filter _) ?_
    rw [above, firsts_filter fun a b hab => by rw [key_eq_iff.mpr hab]]
    exact hperm.filter _

/-- The neighbours of an entry of the directory stand side by side with it. -/
theorem scanUpdate_eq {vol : Volume} {s : TDirScan}
    {before after : List FileEntry} (hs : listed (s.entries vol) = before ++ s.dRef :: after) :
    (scanUpdate vol s).dPrev.val = before.reverse.take maxDirEntries ∧
      (scanUpdate vol s).dNext.val = after.take maxDirEntries := by
  have hsorted := listed_sorted (s.entries vol)
  obtain ⟨hprev, hnext⟩ := scanUpdate_sides vol s
  rw [hs] at hsorted hprev hnext
  rw [hprev, hnext, hsorted.below, hsorted.above]
  exact ⟨rfl, rfl⟩

/-- The entries in ascending order, none lost and none twice. -/
structure Sorts (es whole : List FileEntry) : Prop where
  ascending : whole.Pairwise fun a b => compareDirEntries a b < 0
  perm : whole.Perm es

theorem sortedEntries_sorts {es : List FileEntry} (h : Distinct es) : Sorts es (sortedEntries es) :=
  ⟨(sortedEntries_sorted h).imp (compareDirEntries_compares _ _).lt.mpr, sortedEntries_perm es⟩

/-- Whatever the order of the directory, `Filesel_ScanFirst` finds its smallest entries, and
    `Filesel_ScanUpdate` the smallest above the reference and the largest below it. -/
theorem scans_nearest (vol : Volume) (s : TDirScan) (h : Distinct (s.entries vol)) :
    Sorts (s.entries vol) (sortedEntries (s.entries vol)) ∧
      ((scanFirst vol s).dPrev.val = [] ∧
        (scanFirst vol s).dNext.val = (sortedEntries (s.entries vol)).take maxDirEntries ∧
        (scanFirst vol s).total_entries = (s.entries vol).length.toUInt32) ∧
      (scanUpdate vol s).dNext.val = ((sortedEntries (s.entries vol)).filter
        fun e => compareDirEntries e s.dRef > 0).take maxDirEntries ∧
      (scanUpdate vol s).dPrev.val = ((sortedEntries (s.entries vol)).filter
        fun e => compareDirEntries e s.dRef < 0).reverse.take maxDirEntries := by
  have hfirst := scanFirst_dNext vol s
  obtain ⟨hprev, hnext⟩ := scanUpdate_sides vol s
  rw [listed_eq h] at hfirst hprev hnext
  refine ⟨sortedEntries_sorts h, ⟨rfl, hfirst, rfl⟩, ?_, ?_⟩
  · rw [hnext, above]
    simp only [gt_iff_lt, (compareDirEntries_compares _ _).gt]
  · rw [hprev, below]
    simp only [(compareDirEntries_compares _ _).lt]

/-- Two files, the second one first. -/
def twoFiles : Volume := fun _ =>
  some [{ fattrib := 0, fname := [0x42], no_nul := by decide, ne_nil := by decide },
    { fattrib := 0, fname := [0x41], no_nul := by decide, ne_nil := by decide }]

def unscanned : TDirScan :=
  { file_exts := none, pPath := [0x2F], file_filter := [], total_entries := 0, refc := 0, offset := 128
    sel := 128, dPrev := .none, dRef := nullEntry, dNext := .none }

theorem scans_nearest_two : (scanFirst twoFiles unscanned).dNext.val
    = (sortedEntries (unscanned.entries twoFiles)).take maxDirEntries := by
  have h : (unscanned.entries twoFiles).Pairwise fun a b => ¬ Same a b := by decide
  exact (scans_nearest twoFiles unscanned h).2.1.2.1

end Filesel
