import ReplayFirmware.Libc.Strings
import Mathlib.Logic.Function.Iterate
import Mathlib.Data.List.Basic
import Mathlib.Tactic.Common

/-! The path of the file browser, which is edited in place.

    A directory that is entered is appended with a backslash; leaving it goes back to the backslash
    before. No other separator is looked for, and a path that does not end with a backslash runs into the
    name that is appended. -/

namespace Menu.BackDir
open Libc

/-! ### The path -/

/-- The loop of `_MENU_back_dir`, from `i` down. -/
def backLoop (pPath : List UInt8) : ℕ → List UInt8
  | 0 => pPath
  | i + 1 => if pPath[i]? = some 0x5C then pPath.take (i + 1) else backLoop pPath i

def root : List UInt8 := [0x5C]

/-- `_MENU_back_dir` -/
def menuBackDir (pPath : List UInt8) : List UInt8 :=
  if pPath.length < 2 then root else backLoop pPath (pPath.length - 1)

/-- `FF_MAX_FILENAME` -/
def maxFilename : ℕ := 260 / 3

/-- `FF_MAX_PATH`: the size of the path, with its NUL. -/
def maxPath : ℕ := 2600 / 8

/-- What `key_action_filebrowser_enter` makes of the path for a directory. -/
def enterDir (act_dir fileName : List UInt8) : List UInt8 :=
  if strnicmpEq fileName [0x2E] maxFilename then act_dir
  else if strnicmpEq fileName [0x2E, 0x2E] maxFilename then menuBackDir act_dir
  else act_dir ++ fileName ++ [0x5C]

/-- A name in a directory. -/
structure Name where
  chars : List UInt8
  ne_nil : chars ≠ []
  noBackslash : 0x5C ∉ chars

/-- The directory is neither the current one nor the one above. -/
def Name.Below (n : Name) : Prop :=
  strnicmpEq n.chars [0x2E] maxFilename = false ∧ strnicmpEq n.chars [0x2E, 0x2E] maxFilename = false

inductive Step where
  | enter (n : Name)
  | back

def Step.run : Step → List UInt8 → List UInt8
  | enter n, p => enterDir p n.chars
  | back, p => menuBackDir p

/-- The paths that are reached. -/
def reached : List Step → List UInt8 → List (List UInt8)
  | [], p => [p]
  | s :: ss, p => p :: reached ss (s.run p)

/-! ### What is wanted -/

/-- A directory that is entered is left again, going back ends at the root, and the path fits. -/
structure Holds (p : List UInt8) : Prop where
  restored : ∀ n : Name, n.Below → menuBackDir (enterDir p n.chars) = p
  rooted : ∃ k, ∀ j, k ≤ j → menuBackDir^[j] p = root
  fits : p.length < maxPath

/-- The path begins and ends with a backslash. -/
def Rooted (p : List UInt8) : Prop := p.head? = some 0x5C ∧ p.getLast? = some 0x5C

/-- There is room for every name that is appended. -/
def Room : List Step → List UInt8 → Prop
  | [], _ => True
  | s :: ss, p => (∀ n, s = .enter n → n.Below → p.length + n.chars.length + 1 < maxPath) ∧
      Room ss (s.run p)

/-! ### Going back -/

variable {p : List UInt8}

/-- The last backslash below `i`, if there is one. -/
theorem backLoop_cases : ∀ i, backLoop p i = p ∧ (∀ k < i, p[k]? ≠ some 0x5C) ∨
    ∃ j < i, p[j]? = some 0x5C ∧ backLoop p i = p.take (j + 1) ∧ ∀ k, j < k → k < i → p[k]? ≠ some 0x5C
  | 0 => Or.inl ⟨rfl, fun k hk => absurd hk (Nat.not_lt_zero k)⟩
  | i + 1 => by
    rw [backLoop]
    split
    · next h => exact Or.inr ⟨i, Nat.lt_succ_self i, h, rfl, fun k hk hk' => absurd hk' (by omega)⟩
    · next h =>
      rcases backLoop_cases i with ⟨heq, hno⟩ | ⟨j, hj, hget, heq, hno⟩
      · refine Or.inl ⟨heq, fun k hk => ?_⟩
        rcases Nat.lt_succ_iff_lt_or_eq.mp hk with hk | rfl
        · exact hno k hk
        · exact h
      · refine Or.inr ⟨j, Nat.lt_succ_of_lt hj, hget, heq, fun k hjk hk => ?_⟩
        rcases Nat.lt_succ_iff_lt_or_eq.mp hk with hk | rfl
        · exact hno k hjk hk
        · exact h

theorem menuBackDir_short (h : p.length < 2) : menuBackDir p = root := if_pos h

theorem menuBackDir_root : menuBackDir root = root := rfl

/-- A path that begins with a backslash gets shorter, and begins and ends with one. -/
theorem menuBackDir_shorter (hp : p.head? = some 0x5C) (hlen : 2 ≤ p.length) :
    Rooted (menuBackDir p) ∧ (menuBackDir p).length < p.length := by
  have hfirst : p[0]? = some 0x5C := by rw [← List.head?_eq_getElem?, hp]
  rw [menuBackDir, if_neg (by omega)]
  rcases backLoop_cases (p := p) (p.length - 1) with ⟨-, hno⟩ | ⟨j, hj, hget, heq, -⟩
  · exact absurd hfirst (hno 0 (by omega))
  · rw [heq]
    refine ⟨⟨?_, ?_⟩, by rw [List.length_take]; omega⟩
    · rw [List.head?_take, if_neg (by omega), hp]
    · rw [List.getLast?_take]
      simp [hget]

theorem menuBackDir_rooted (hp : Rooted p) : Rooted (menuBackDir p) := by
  rcases Nat.lt_or_ge p.length 2 with hlt | hge
  · rw [menuBackDir_short hlt]
    exact ⟨rfl, rfl⟩
  · exact (menuBackDir_shorter hp.1 hge).1

theorem menuBackDir_fits (h : p.length < maxPath) (hp : Rooted p) :
    (menuBackDir p).length < maxPath := by
  rcases Nat.lt_or_ge p.length 2 with hlt | hge
  · rw [menuBackDir_short hlt]
    decide
  · exact Nat.lt_trans (menuBackDir_shorter hp.1 hge).2 h

theorem iterate_root (j : ℕ) : menuBackDir^[j] root = root :=
  Function.iterate_fixed menuBackDir_root j

/-- From a path with a backslash in front every way back ends at the root. -/
theorem reaches_root : ∀ {n : ℕ} {p : List UInt8}, p.length ≤ n → p.head? = some 0x5C →
    ∃ k, menuBackDir^[k] p = root
  | 0, p, hlen, hp => by
    rw [List.eq_nil_of_length_eq_zero (Nat.le_zero.mp hlen)] at hp
    cases hp
  | n + 1, p, hlen, hp => by
    rcases Nat.lt_or_ge p.length 2 with hlt | hge
    · exact ⟨1, menuBackDir_short hlt⟩
    · obtain ⟨hrooted, hshort⟩ := menuBackDir_shorter hp hge
      obtain ⟨k, hk⟩ := reaches_root (n := n) (by omega) hrooted.1
      exact ⟨k + 1, hk⟩

/-- A path with another character in front keeps it. -/
theorem menuBackDir_stuck (hlen : 2 ≤ p.length) (hp : p.head? ≠ some 0x5C) :
    2 ≤ (menuBackDir p).length ∧ (menuBackDir p).head? ≠ some 0x5C := by
  rw [menuBackDir, if_neg (by omega)]
  rcases backLoop_cases (p := p) (p.length - 1) with ⟨heq, -⟩ | ⟨j, hj, hget, heq, -⟩
  · rw [heq]
    exact ⟨hlen, hp⟩
  · have hpos : j ≠ 0 := by
      rintro rfl
      exact hp (by rw [List.head?_eq_getElem?, hget])
    rw [heq, List.length_take, List.head?_take, if_neg (by omega)]
    exact ⟨by omega, hp⟩

theorem rooted_iff : (∃ k, ∀ j, k ≤ j → menuBackDir^[j] p = root) ↔
    p.length < 2 ∨ p.head? = some 0x5C := by
  constructor
  · rintro ⟨k, hk⟩
    by_contra hno
    rw [not_or, Nat.not_lt] at hno
    have hstuck : ∀ j, 2 ≤ (menuBackDir^[j] p).length ∧ (menuBackDir^[j] p).head? ≠ some 0x5C := by
      intro j
      induction j with
      | zero => exact hno
      | succ j ih =>
        rw [Function.iterate_succ_apply']
        exact menuBackDir_stuck ih.1 ih.2
    exact (hstuck k).2 (by rw [hk k (Nat.le_refl k)]; rfl)
  · intro h
    have hreach : ∃ k, menuBackDir^[k] p = root := by
      rcases h with hlt | hp
      · exact ⟨1, menuBackDir_short hlt⟩
      · exact reaches_root (Nat.le_refl _) hp
    obtain ⟨k, hk⟩ := hreach
    refine ⟨k, fun j hj => ?_⟩
    obtain ⟨i, rfl⟩ := Nat.exists_eq_add_of_le' hj
    rw [Function.iterate_add_apply, hk, iterate_root]

/-! ### Entering -/

theorem enterDir_below {n : Name} (hn : n.Below) : enterDir p n.chars = p ++ n.chars ++ [0x5C] := by
  rw [enterDir, hn.1, hn.2]
  rfl

/-- What is left of a directory that was entered. -/
theorem menuBackDir_enterDir {n : Name} (hn : n.Below) : menuBackDir (enterDir p n.chars) = p ↔
    p.getLast? = some 0x5C := by
  have hpos := List.length_pos_of_ne_nil n.ne_nil
  have hlen : (p ++ n.chars ++ [0x5C]).length = p.length + n.chars.length + 1 := by
    rw [List.length_append, List.length_append]
    rfl
  rw [enterDir_below hn, menuBackDir, if_neg (by omega), hlen, Nat.add_sub_cancel,
    List.getLast?_eq_getElem?]
  have hin : ∀ k < p.length, (p ++ n.chars ++ [0x5C])[k]? = p[k]? := fun k hk => by
    rw [List.append_assoc, List.getElem?_append_left hk]
  rcases backLoop_cases (p := p ++ n.chars ++ [0x5C]) (p.length + n.chars.length) with
    ⟨heq, hno⟩ | ⟨j, hj, hget, heq, hno⟩
  · rw [heq]
    refine iff_of_false (fun h => ?_) fun hlast => ?_
    · rw [h] at hlen
      omega
    · have hp : 0 < p.length := by
        by_contra hzero
        rw [List.getElem?_eq_none (by omega)] at hlast
        cases hlast
      exact hno (p.length - 1) (by omega) ((hin _ (by omega)).trans hlast)
  · have hjp : j < p.length := by
      by_contra hge
      rw [List.append_assoc, List.getElem?_append_right (by omega),
        List.getElem?_append_left (by omega)] at hget
      exact n.noBackslash (List.mem_of_getElem? hget)
    have htake : (p ++ n.chars ++ [0x5C]).take (j + 1) = p.take (j + 1) := by
      rw [List.append_assoc, List.take_append_of_le_length (by omega)]
    rw [heq, htake]
    constructor
    · intro h
      have hj1 := congrArg List.length h
      rw [List.length_take] at hj1
      rw [show p.length - 1 = j by omega, ← hin j hjp, hget]
    · intro hlast
      have hj1 : j = p.length - 1 := by
        by_contra hne
        exact hno (p.length - 1) (by omega) (by omega) ((hin _ (by omega)).trans hlast)
      exact List.take_of_length_le (by omega)

/-- There is a directory. -/
def games : Name := ⟨[0x67, 0x61, 0x6D, 0x65, 0x73], by decide, by decide⟩

theorem games_below : games.Below := ⟨by decide, by decide⟩

theorem holds_iff : Holds p ↔ Rooted p ∧ p.length < maxPath := by
  constructor
  · intro h
    have hlast := (menuBackDir_enterDir games_below).mp (h.restored games games_below)
    refine ⟨⟨?_, hlast⟩, h.fits⟩
    rcases rooted_iff.mp h.rooted with hlt | hp
    · match p, hlt, hlast with
      | [c], _, hlast => exact hlast
    · exact hp
  · rintro ⟨hrooted, hfits⟩
    exact ⟨fun n hn => (menuBackDir_enterDir hn).mpr hrooted.2, rooted_iff.mpr (Or.inr hrooted.1), hfits⟩

/-! ### Steps -/

theorem enterDir_rooted {n : Name} (hp : Rooted p) : Rooted (enterDir p n.chars) := by
  rw [enterDir]
  split
  · exact hp
  · split
    · exact menuBackDir_rooted hp
    · refine ⟨?_, List.getLast?_concat⟩
      rw [List.append_assoc, List.head?_append, hp.1]
      rfl

theorem run_rooted (s : Step) (hp : Rooted p) : Rooted (s.run p) := by
  cases s with
  | enter n => exact enterDir_rooted hp
  | back => exact menuBackDir_rooted hp

theorem run_fits_iff (s : Step) (hp : Rooted p) (h : p.length < maxPath) : (s.run p).length < maxPath ↔
    ∀ n, s = .enter n → n.Below → p.length + n.chars.length + 1 < maxPath := by
  cases s with
  | back => exact iff_of_true (menuBackDir_fits h hp) fun n hn => by cases hn
  | enter n =>
    have hbelow : (∀ m, Step.enter n = .enter m → m.Below → p.length + m.chars.length + 1 < maxPath) ↔
        (n.Below → p.length + n.chars.length + 1 < maxPath) :=
      ⟨fun hall => hall n rfl, fun hn m hm => by cases hm; exact hn⟩
    rw [hbelow, Step.run]
    by_cases hn : n.Below
    · rw [enterDir_below hn, forall_prop_of_true hn]
      rw [List.length_append, List.length_append]
      exact Iff.rfl
    · refine iff_of_true ?_ fun h' => absurd h' hn
      rw [enterDir]
      split
      · exact h
      · split
        · exact menuBackDir_fits h hp
        · next h1 h2 => exact absurd ⟨Bool.not_eq_true _ ▸ h1, Bool.not_eq_true _ ▸ h2⟩ hn

/-- In all paths of a run what is entered is left again, going back ends at the root, and the path fits,
    exactly when the first path begins and ends with a backslash and fits, and there is room for the
    names. -/
theorem reached_iff : ∀ (ss : List Step) (p : List UInt8), (∀ q ∈ reached ss p, Holds q) ↔
    Rooted p ∧ p.length < maxPath ∧ Room ss p
  | [], p => by
    rw [reached, List.forall_mem_singleton, holds_iff]
    exact ⟨fun h => ⟨h.1, h.2, trivial⟩, fun h => ⟨h.1, h.2.1⟩⟩
  | s :: ss, p => by
    rw [reached, List.forall_mem_cons, holds_iff, reached_iff ss, Room]
    constructor
    · rintro ⟨⟨hp, hfits⟩, -, hfits', hroom⟩
      exact ⟨hp, hfits, (run_fits_iff s hp hfits).mp hfits', hroom⟩
    · rintro ⟨hp, hfits, hstep, hroom⟩
      exact ⟨⟨hp, hfits⟩, run_rooted s hp, (run_fits_iff s hp hfits).mpr hstep, hroom⟩

/-- From `/`, where the browser looks for the firmware, a directory is entered and not left. -/
theorem slash_stuck : ¬∀ (ss : List Step) (p : List UInt8), ∀ q ∈ reached ss p, Holds q := by
  intro h
  have hslash := (h [] [0x2F] [0x2F] List.mem_cons_self).restored games games_below
  exact absurd hslash (by decide)

end Menu.BackDir
