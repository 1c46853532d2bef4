import ReplayFirmware.Lib.Compare
import ReplayFirmware.Libc.Strings

/-! The order of the file browser: the parent directory, then the other directories, then files; by
    name, with digits as numbers and letters without case; and where that does not decide, by the
    characters.

    `CompareDirEntries` is the comparison of a linear order, in which two entries are equal when they
    are of one kind and have one name. -/

namespace Filesel
open Libc Compare

/-- `FF_MAX_FILENAME` -/
def maxFilename : ℕ := 86

/-- A name in a `FileName` array: the NUL behind it is inside the array. -/
structure FileName where
  chars : List UInt8
  no_nul : 0 ∉ chars
  fits : chars.length < maxFilename
  deriving DecidableEq

/-- `FILEENTRY`; `FF_DIRENT` has the same two fields of an entry. -/
structure FileEntry where
  attrib : UInt8
  fileName : FileName
  deriving DecidableEq

/-- `Attrib & FF_FAT_ATTR_DIR` -/
def FileEntry.isDir (e : FileEntry) : Bool := e.attrib &&& 0x10 ≠ 0

/-- The name of the parent directory. -/
def dotdot : List UInt8 := [0x2E, 0x2E]

/-- `CompareDirEntries` -/
def compareDirEntries (pDir1 pDir2 : FileEntry) : ℤ :=
  if pDir1.isDir ∧ ¬ pDir2.isDir then -1
  else if ¬ pDir1.isDir ∧ pDir2.isDir then 1
  else
    let rc := stricmpLogical pDir1.fileName.chars pDir2.fileName.chars
    if pDir1.isDir ∧ pDir1.fileName.chars = dotdot ∧ rc ≠ 0 then -1
    else if pDir2.isDir ∧ pDir2.fileName.chars = dotdot ∧ rc ≠ 0 then 1
    else if rc = 0 then strncmp maxFilename pDir1.fileName.chars pDir2.fileName.chars
    else rc

/-! ### What a name sorts by -/

/-- A name as `_stricmp_logical` sees it: numbers, and behind all numbers the characters. -/
def tokens : List UInt8 → List ℕ
  | [] => []
  | c :: s =>
    if _ : isdigit c = true then
      ((strtoul (c :: s)).1 &&& 0x7FFFFFFF) :: tokens (strtoul (c :: s)).2
    else (0x80000000 + (tolower c).toNat) :: tokens s
termination_by s => s.length
decreasing_by
  · exact strtoul_length c s ‹_›
  · exact Nat.lt_succ_self _

theorem and_mask_lt (n : ℕ) : n &&& 0x7FFFFFFF < 0x80000000 :=
  Nat.lt_of_le_of_lt Nat.and_le_right (by decide)

theorem tokens_nil : tokens [] = [] := by rw [tokens]

theorem tokens_digit {c : UInt8} (s : List UInt8) (hc : isdigit c = true) :
    tokens (c :: s) = ((strtoul (c :: s)).1 &&& 0x7FFFFFFF) :: tokens (strtoul (c :: s)).2 := by
  rw [tokens, dif_pos hc]

theorem tokens_char {c : UInt8} (s : List UInt8) (hc : ¬ isdigit c = true) :
    tokens (c :: s) = (0x80000000 + (tolower c).toNat) :: tokens s := by
  rw [tokens, dif_neg hc]

theorem tokens_cons (c : UInt8) (s : List UInt8) : ∃ n ns, tokens (c :: s) = n :: ns := by
  by_cases hc : isdigit c = true
  · exact ⟨_, _, tokens_digit s hc⟩
  · exact ⟨_, _, tokens_char s hc⟩

/-- Numbers come before characters. -/
theorem tokens_lt {c1 c2 : UInt8} (s1 s2 : List UInt8) (h1 : isdigit c1 = true)
    (h2 : ¬ isdigit c2 = true) : tokens (c1 :: s1) < tokens (c2 :: s2) := by
  rw [tokens_digit s1 h1, tokens_char s2 h2, List.cons_lt_cons_iff]
  exact Or.inl (Nat.lt_of_lt_of_le (and_mask_lt _) (Nat.le_add_right _ _))

theorem no_nul_strtoul {s : List UInt8} (h : 0 ∉ s) : 0 ∉ (strtoul s).2 :=
  fun h0 => h ((List.dropWhile_suffix isdigit).subset h0)

theorem toNat_pos_of_ne {c : UInt8} (hc : c ≠ 0) : 0 < c.toNat := by
  rcases Nat.eq_zero_or_pos c.toNat with h0 | h0
  · exact absurd (UInt8.toNat_inj.mp h0) hc
  · exact h0

/-- `_stricmp_logical` compares the tokens. -/
theorem stricmpLogical_compares (a b : List UInt8) (ha : 0 ∉ a) (hb : 0 ∉ b) :
    Compares (stricmpLogical a b) (tokens a) (tokens b) := by
  fun_induction stricmpLogical a b with
  | case1 => exact compares_refl _
  | case2 c2 s2 =>
    have hc := toNat_pos_of_ne (List.ne_of_not_mem_cons hb).symm
    obtain ⟨n, ns, hn⟩ := tokens_cons c2 s2
    rw [tokens_nil, hn]
    exact compares_of_lt (by omega) (List.nil_lt_cons _ _)
  | case3 c1 s1 =>
    have hc := toNat_pos_of_ne (List.ne_of_not_mem_cons ha).symm
    obtain ⟨n, ns, hn⟩ := tokens_cons c1 s1
    rw [tokens_nil, hn]
    exact compares_of_gt (by omega) (List.nil_lt_cons _ _)
  | case4 c1 s1 c2 s2 _ h1 => exact compares_of_lt (by omega) (tokens_lt s1 s2 h1.1 h1.2)
  | case5 c1 s1 c2 s2 _ _ h2 => exact compares_of_gt (by omega) (tokens_lt s2 s1 h2.2 h2.1)
  | case6 c1 s1 c2 s2 hd h1 h2 d1 d2 v hv ih =>
    have hd1 : isdigit c1 = true := by tauto
    have hd2 : isdigit c2 = true := by tauto
    have h := (compares_sub d1 d2).cons fun _ => ih (no_nul_strtoul ha) (no_nul_strtoul hb)
    rw [if_pos hv] at h
    rw [tokens_digit s1 hd1, tokens_digit s2 hd2]
    exact h
  | case7 c1 s1 c2 s2 hd h1 h2 d1 d2 v hv =>
    have hd1 : isdigit c1 = true := by tauto
    have hd2 : isdigit c2 = true := by tauto
    rw [tokens_digit s1 hd1, tokens_digit s2 hd2]
    exact (compares_sub d1 d2).cons_of_ne hv
  | case8 c1 s1 c2 s2 hd v hv ih =>
    have h := (compares_add_sub 0x80000000 (tolower c1).toNat (tolower c2).toNat).cons fun _ =>
      ih (List.not_mem_of_not_mem_cons ha) (List.not_mem_of_not_mem_cons hb)
    rw [if_pos hv] at h
    rw [tokens_char s1 fun h1 => hd (Or.inl h1), tokens_char s2 fun h2 => hd (Or.inr h2)]
    exact h
  | case9 c1 s1 c2 s2 hd v hv =>
    rw [tokens_char s1 fun h1 => hd (Or.inl h1), tokens_char s2 fun h2 => hd (Or.inr h2)]
    exact (compares_add_sub 0x80000000 _ _).cons_of_ne hv

/-- `_strncmp` compares the characters of names. -/
theorem strncmp_compares : ∀ (n : ℕ) (a b : List UInt8), 0 ∉ a → 0 ∉ b → a.length < n →
    b.length < n → Compares (strncmp n a b) (a.map UInt8.toNat) (b.map UInt8.toNat)
  | n, [], [], _, _, _, _ => by
    rw [strncmp]
    exact compares_refl _
  | n, [], c2 :: s2, _, hb, _, _ => by
    have hc := toNat_pos_of_ne (List.ne_of_not_mem_cons hb).symm
    rw [strncmp]
    exact compares_of_lt (by omega) (List.nil_lt_cons _ _)
  | n, c1 :: s1, [], ha, _, _, _ => by
    have hc := toNat_pos_of_ne (List.ne_of_not_mem_cons ha).symm
    rw [strncmp]
    exact compares_of_gt (by omega) (List.nil_lt_cons _ _)
  | n, c1 :: s1, c2 :: s2, ha, hb, hla, hlb => by
    rw [List.length_cons] at hla hlb
    have ih := strncmp_compares (n - 1) s1 s2 (List.not_mem_of_not_mem_cons ha)
      (List.not_mem_of_not_mem_cons hb) (by omega) (by omega)
    have h := (compares_sub c1.toNat c2.toNat).cons fun _ => ih
    rw [strncmp]
    simp only [show n - 1 > 0 by omega, and_true]
    exact h

/-- What an entry sorts by: its kind, whether it is the parent, its tokens and its characters. -/
def FileEntry.key (e : FileEntry) : ℕ ×ₗ ℕ ×ₗ List ℕ ×ₗ List ℕ :=
  toLex (if e.isDir then 0 else 1, toLex (if e.isDir ∧ e.fileName.chars = dotdot then 0 else 1,
    toLex (tokens e.fileName.chars, e.fileName.chars.map UInt8.toNat)))

theorem tolower_eq_dot {c : UInt8} (h : tolower c = 0x2E) : c = 0x2E := by
  rw [tolower] at h
  split at h
  · next hup =>
    have hle : 0x41 ≤ c.toNat := UInt8.le_iff_toNat_le.mp (of_decide_eq_true hup).1
    have hor : (c ||| 0x20).toNat = 0x2E := congrArg UInt8.toNat h
    rw [UInt8.toNat_or] at hor
    have := @Nat.left_le_or c.toNat (0x20 : UInt8).toNat
    omega
  · exact h

/-- Only a dot has the token of a dot. -/
theorem tokens_dot {s : List UInt8} {ns : List ℕ} (h : tokens s = (0x80000000 + 0x2E) :: ns) :
    ∃ s', s = 0x2E :: s' ∧ tokens s' = ns := by
  cases s with
  | nil => exact absurd (tokens_nil.symm.trans h) (List.cons_ne_nil _ _).symm
  | cons c s =>
    by_cases hc : isdigit c = true
    · rw [tokens_digit s hc, List.cons.injEq] at h
      have := and_mask_lt (strtoul (c :: s)).1
      omega
    · rw [tokens_char s hc, List.cons.injEq] at h
      have hdot : tolower c = 0x2E := UInt8.toNat_inj.mp (Nat.add_left_cancel h.1)
      exact ⟨s, by rw [tolower_eq_dot hdot], h.2⟩

/-- Only the name of the parent has its tokens. -/
theorem eq_dotdot_of_tokens {s : List UInt8} (h : tokens s = tokens dotdot) : s = dotdot := by
  have hdd : tokens dotdot = [0x80000000 + 0x2E, 0x80000000 + 0x2E] := by
    rw [dotdot, tokens_char _ (by decide), tokens_char _ (by decide), tokens_nil]
    rfl
  obtain ⟨s₁, rfl, h₁⟩ := tokens_dot (h.trans hdd)
  obtain ⟨s₂, rfl, h₂⟩ := tokens_dot h₁
  cases s₂ with
  | nil => rfl
  | cons c s =>
    obtain ⟨n, ns, hn⟩ := tokens_cons c s
    exact absurd (hn.symm.trans h₂) (List.cons_ne_nil _ _)

/-- `CompareDirEntries` compares the keys. -/
theorem compareDirEntries_compares (a b : FileEntry) :
    Compares (compareDirEntries a b) a.key b.key := by
  have hs := strncmp_compares maxFilename a.fileName.chars b.fileName.chars a.fileName.no_nul
    b.fileName.no_nul a.fileName.fits b.fileName.fits
  have hrc := stricmpLogical_compares a.fileName.chars b.fileName.chars a.fileName.no_nul
    b.fileName.no_nul
  have hname := hrc.lex fun _ => hs
  rw [compareDirEntries, FileEntry.key, FileEntry.key]
  by_cases ha : a.isDir = true <;> by_cases hb : b.isDir = true
  · -- two directories: the parent comes first
    simp only [ha, hb, not_true, and_false, false_and, if_false, true_and, if_true]
    refine Compares.lex_same ?_ 0
    by_cases hda : a.fileName.chars = dotdot <;> by_cases hdb : b.fileName.chars = dotdot
    · have hrc0 : stricmpLogical a.fileName.chars b.fileName.chars = 0 := hrc.eq.mpr (by rw [hda, hdb])
      rw [if_neg fun h => h.2 hrc0, if_neg fun h => h.2 hrc0, if_pos hda, if_pos hdb]
      exact hname.lex_same 0
    · have hrc0 : stricmpLogical a.fileName.chars b.fileName.chars ≠ 0 := fun h0 =>
        hdb (eq_dotdot_of_tokens ((hrc.eq.mp h0).symm.trans (by rw [hda])))
      rw [if_pos ⟨hda, hrc0⟩, if_pos hda, if_neg hdb]
      exact compares_lex_of_lt (by decide) (by decide)
    · have hrc0 : stricmpLogical a.fileName.chars b.fileName.chars ≠ 0 := fun h0 =>
        hda (eq_dotdot_of_tokens ((hrc.eq.mp h0).trans (by rw [hdb])))
      rw [if_neg fun h => hda h.1, if_pos ⟨hdb, hrc0⟩, if_neg hda, if_pos hdb]
      exact compares_lex_of_gt (by decide) (by decide)
    · rw [if_neg fun h => hda h.1, if_neg fun h => hdb h.1, if_neg hda, if_neg hdb]
      exact hname.lex_same 1
  · rw [if_pos ⟨ha, hb⟩, if_pos ha, if_neg hb]
    exact compares_lex_of_lt (by decide) (by decide)
  · rw [if_neg fun h => h.2 hb, if_pos ⟨ha, hb⟩, if_neg ha, if_pos hb]
    exact compares_lex_of_gt (by decide) (by decide)
  · rw [if_neg fun h => ha h.1, if_neg fun h => hb h.2, if_neg fun h => ha h.1,
      if_neg fun h => hb h.1, if_neg ha, if_neg hb,
      if_neg (show ¬ (a.isDir = true ∧ a.fileName.chars = dotdot) from fun h => ha h.1),
      if_neg (show ¬ (b.isDir = true ∧ b.fileName.chars = dotdot) from fun h => hb h.1)]
    exact (hname.lex_same 1).lex_same 1

/-- Two entries of one kind and one name. -/
def Same (a b : FileEntry) : Prop := a.isDir = b.isDir ∧ a.fileName = b.fileName

/-- Two entries sort the same only when they are of one kind and have one name. -/
theorem key_eq_iff {a b : FileEntry} : a.key = b.key ↔ Same a b := by
  constructor
  · intro h
    rw [FileEntry.key, FileEntry.key, toLex_inj, Prod.mk.injEq, toLex_inj, Prod.mk.injEq, toLex_inj,
      Prod.mk.injEq] at h
    obtain ⟨hdir, -, -, hchars⟩ := h
    refine ⟨?_, ?_⟩
    · by_cases ha : a.isDir = true <;> by_cases hb : b.isDir = true
      · rw [ha, hb]
      · rw [if_pos ha, if_neg hb] at hdir
        exact absurd hdir (by decide)
      · rw [if_neg ha, if_pos hb] at hdir
        exact absurd hdir (by decide)
      · rw [Bool.not_eq_true] at ha hb
        rw [ha, hb]
    · have hlist := List.map_injective_iff.mpr (fun _ _ => UInt8.toNat_inj.mp) hchars
      cases hna : a.fileName
      cases hnb : b.fileName
      rw [hna, hnb] at hlist
      simp only at hlist
      subst hlist
      rfl
  · rintro ⟨hdir, hname⟩
    rw [FileEntry.key, FileEntry.key, hdir, hname]

/-- A comparison of a strict total order on the kinds and the names of entries, with the parent before the
    other directories, and those before files. -/
structure Orders (cmp : FileEntry → FileEntry → ℤ) : Prop where
  zero : ∀ a b, cmp a b = 0 ↔ Same a b
  antisymm : ∀ a b, cmp a b < 0 ↔ 0 < cmp b a
  total : ∀ a b, cmp a b < 0 ∨ Same a b ∨ cmp b a < 0
  exclusive : ∀ a b, ¬ (cmp a b < 0 ∧ cmp b a < 0) ∧ ¬ (cmp a b < 0 ∧ Same a b)
  trans : ∀ a b c, cmp a b < 0 → cmp b c < 0 → cmp a c < 0
  parent : ∀ a b, a.isDir = true → a.fileName.chars = dotdot → b.isDir = true →
    b.fileName.chars ≠ dotdot → cmp a b < 0
  directories : ∀ a b, a.isDir = true → b.isDir = false → cmp a b < 0

theorem compareDirEntries_orders : Orders compareDirEntries where
  zero a b := (compareDirEntries_compares a b).eq.trans key_eq_iff
  antisymm a b := (compareDirEntries_compares a b).lt.trans (compareDirEntries_compares b a).gt.symm
  total a b := by
    rw [(compareDirEntries_compares a b).lt, (compareDirEntries_compares b a).lt, ← key_eq_iff]
    exact lt_trichotomy a.key b.key
  exclusive a b := by
    rw [(compareDirEntries_compares a b).lt, (compareDirEntries_compares b a).lt, ← key_eq_iff]
    exact ⟨fun h => lt_asymm h.1 h.2, fun h => ne_of_lt h.1 h.2⟩
  trans a b c hab hbc := by
    rw [(compareDirEntries_compares _ _).lt] at hab hbc ⊢
    exact hab.trans hbc
  parent a b ha hda hb hdb := by
    rw [(compareDirEntries_compares a b).lt, FileEntry.key, FileEntry.key, if_pos ha, if_pos hb,
      if_pos ⟨ha, hda⟩, if_neg (fun h : b.isDir = true ∧ _ => hdb h.2)]
    exact Prod.Lex.toLex_lt_toLex.mpr (Or.inr ⟨rfl, Prod.Lex.toLex_lt_toLex.mpr (Or.inl Nat.zero_lt_one)⟩)
  directories a b ha hb := by
    rw [(compareDirEntries_compares a b).lt, FileEntry.key, FileEntry.key, if_pos ha,
      if_neg (Bool.eq_false_iff.mp hb)]
    exact Prod.Lex.toLex_lt_toLex.mpr (Or.inl Nat.zero_lt_one)

end Filesel
