import ReplayFirmware.Ini.Parser

/-! What the result of a parse says. The parse stops behind the first line that fails and returns
    the number of that line, in eight bits; 0 is also what it returns when no line failed.

    The count of the lines has 32 bits: a line whose count is 0 does not stop the parse. -/

namespace Ini
open FatFs

variable {σ : Type}

/-- The numbers of the lines that fail, when all lines are parsed one after the other. -/
def failing (k : Client σ) : List (List UInt8) → ℕ → Progress σ → List ℕ
  | [], _, _ => []
  | l :: ls, n, p =>
    let lineBuffer := l.take (maxLineLen - 1)
    let later := failing k ls (n + 1) (parseLine k 1 lineBuffer p).2
    if Parsed k lineBuffer p then later else n :: later

/-- The failing lines of an input. -/
def errors (k : Client σ) (input : List UInt8) (config : σ) : List ℕ :=
  failing k (lines input) 1 (initial config)

/-- The failing line that stops the parse. -/
def stop (failing : List ℕ) : Option ℕ := failing.find? fun n => n % 2 ^ 32 ≠ 0

/-- The parse returns the number of the line that stops it. -/
theorem parseAll_fst (k : Client σ) : ∀ (ls : List (List UInt8)) (n : ℕ) (p : Progress σ),
    (parseAll k ls (UInt32.ofNat n) p).1 = UInt32.ofNat ((stop (failing k ls n p)).getD 0)
  | [], _, _ => rfl
  | l :: ls, n, p => by
    have ih := parseAll_fst k ls (n + 1) (parseLine k 1 (l.take (maxLineLen - 1)) p).2
    rw [UInt32.ofNat_add] at ih
    rw [parseAll, failing, parseLine_eq]
    by_cases hp : Parsed k (l.take (maxLineLen - 1)) p
    · simp only [if_pos hp, if_true]
      exact ih
    · simp only [if_neg hp]
      have hzero : UInt32.ofNat n = 0 ↔ n % 2 ^ 32 = 0 := by
        rw [← UInt32.toNat_inj, UInt32.toNat_ofNat', UInt32.toNat_zero]
      rw [stop]
      by_cases hn : n % 2 ^ 32 = 0
      · rw [if_pos (hzero.mpr hn), List.find?_cons_of_neg (by simpa using hn)]
        exact ih
      · rw [if_neg (mt hzero.mp hn), List.find?_cons_of_pos (by simpa using hn)]
        rfl

/-- A parse returns 0 exactly when no line stops it, or the number of the one that does is a
    multiple of 256. -/
theorem parse_fst_eq_zero (k : Client σ) (input : List UInt8) (config : σ) :
    (parse k input config).1 = 0 ↔ ∀ n ∈ stop (errors k input config), n % 256 = 0 := by
  have hfst := parseAll_fst k (lines input) 1 (initial config)
  rw [show UInt32.ofNat 1 = 1 from rfl] at hfst
  rw [parse, notifyEnd, errors, hfst]
  cases hstop : stop (failing k (lines input) 1 (initial config)) with
  | none => simp
  | some n =>
    have hne : n % 2 ^ 32 ≠ 0 := by simpa using List.find?_some hstop
    have hword : UInt32.ofNat ((some n).getD 0) ≠ 0 := by
      rw [Option.getD_some, ne_eq, ← UInt32.toNat_inj, UInt32.toNat_ofNat', UInt32.toNat_zero]
      exact hne
    rw [if_neg hword, ← UInt8.toNat_inj, UInt32.toNat_toUInt8, Option.getD_some, UInt32.toNat_ofNat']
    simp only [Option.mem_def, Option.some.injEq, forall_eq', UInt8.toNat_zero]
    omega

/-- The result is 0 exactly when every line was parsed and its handler call succeeded. -/
def Faithful (result : Option (UInt8 × Progress σ)) (errors : List ℕ) : Prop :=
  ∃ r, result = some r ∧ (r.1 = 0 ↔ errors = [])

/-- No line fails, or the line that stops the parse does not have a multiple of 256 as its number. -/
def Counted (errors : List ℕ) : Prop := errors = [] ∨ ∃ n ∈ stop errors, n % 256 ≠ 0

theorem parse_faithful (k : Client σ) (input : List UInt8) (config : σ) :
    Faithful (some (parse k input config)) (errors k input config) ↔
      Counted (errors k input config) := by
  have hzero := parse_fst_eq_zero k input config
  constructor
  · rintro ⟨r, hr, hiff⟩
    cases hr
    by_cases he : errors k input config = []
    · exact Or.inl he
    · refine Or.inr ?_
      by_contra hno
      push Not at hno
      exact he (hiff.mp (hzero.mpr hno))
  · intro h
    refine ⟨_, rfl, hzero.trans ⟨fun hall => ?_, fun he => ?_⟩⟩
    · rcases h with he | ⟨n, hn, hmod⟩
      · exact he
      · exact absurd (hall n hn) hmod
    · rw [he]
      intro n hn
      cases hn

/-- Both parsers return, and say what happened exactly when the failing lines can be counted. -/
theorem parsers_faithful_iff (k : Client σ) (config : σ) :
    (∀ pFile : FIL, Readable pFile → (Faithful (parseIni k pFile config)
        (errors k pFile.rest config) ↔ Counted (errors k pFile.rest config))) ∧
      ∀ str : List UInt8, Faithful (parseIniFromString k str config) (errors k str config) ↔
        Counted (errors k str config) := by
  refine ⟨fun pFile h => ?_, fun str => ?_⟩
  · rw [parseIni_eq k h]
    exact parse_faithful k pFile.rest config
  · rw [parseIniFromString_eq]
    exact parse_faithful k str config

/-- A file without an error is reported so. -/
theorem setupFile_faithful : Faithful
    (parseIni content (f_open (iniFile "[SETUP]\nEN_SPI=1") false) ())
    (errors content (f_open (iniFile "[SETUP]\nEN_SPI=1") false).rest ()) :=
  ((parsers_faithful_iff content ()).1 _ (f_open_readable le_rfl false)).mpr
    (Or.inl (by decide))

/-! ### A failure in line 256 -/

/-- 255 empty lines, and a section that is not closed. -/
def unclosed : List UInt8 := List.replicate 255 0x0A ++ [0x5B]

/-- The unclosed section is reported as success. -/
theorem unclosed_unreported :
    ¬ Faithful (parseIniFromString content unclosed ()) (errors content unclosed ()) := by
  have hlines : lines unclosed = List.replicate 255 [] ++ [[0x5B]] := by decide +kernel
  have herrors : errors content unclosed () = [256] := by
    rw [errors, hlines]
    decide +kernel
  have hzero : (parse content unclosed ()).1 = 0 := by
    rw [parse_fst_eq_zero, herrors]
    decide
  rintro ⟨r, hr, hiff⟩
  rw [parseIniFromString_eq] at hr
  rw [← Option.some.inj hr, herrors] at hiff
  exact List.cons_ne_nil _ _ (hiff.mp hzero)

end Ini
