import ReplayFirmware.FatFs.Wrapper
import ReplayFirmware.Ini.ParseLine

/-! `ParseIni` and `ParseIniFromString`: a file or a string, line after line.

    Both read their input through a `getC` of their own, into a line buffer of 128 characters. What
    they make of it is stated over the input alone: it is cut into lines, a line is cut to 127
    characters, and the parse stops behind the first line with an error. -/

namespace Ini
open FatFs

variable {σ ρ : Type}

/-! ### The loops -/

def maxLineLen : ℕ := 128

def eof : ℤ := -1

/-- The loop that fills the line buffer, with room for `n` characters; `ch` is the last character
    read. -/
def fillLine (getC : ρ → Option (ℤ × ρ)) : ℕ → ℤ → ρ → Option (List UInt8 × ℤ × ρ)
  | 0, ch, r => some ([], ch, r)
  | n + 1, _, r =>
    match getC r with
    | none => none
    | some (ch, r) =>
      if ch ≥ 0 ∧ ch ≠ 0x0A then
        match fillLine getC n ch r with
        | none => none
        | some (line, ch', r) => some (ch.toNat.toUInt8 :: line, ch', r)
      else some ([], ch, r)

/-- The loop that reads the rest of a line that was too long for the buffer. -/
def skipLine (getC : ρ → Option (ℤ × ρ)) : ℕ → ℤ → ρ → Option (ℤ × ρ)
  | 0, _, _ => none
  | fuel + 1, ch, r =>
    if ch ≠ eof ∧ ch ≠ 0x0A then
      match getC r with
      | none => none
      | some (ch, r) => skipLine getC fuel ch r
    else some (ch, r)

/-- The loop over the lines. -/
def parseLines (k : Client σ) (getC : ρ → Option (ℤ × ρ)) :
    ℕ → UInt32 → ρ → Progress σ → Option (UInt32 × Progress σ)
  | 0, _, _, _ => none
  | fuel + 1, lineNumber, r, p =>
    match fillLine getC (maxLineLen - 1) 0 r with
    | none => none
    | some (lineBuffer, ch, r) =>
      match skipLine getC (fuel + 1) ch r with
      | none => none
      | some (ch, r) =>
        let (lineError, p) := parseLine k lineNumber lineBuffer p
        if ch ≠ eof ∧ lineError = 0 then parseLines k getC fuel (lineNumber + 1) r p
        else some (lineError, p)

/-- The end of a parse: the handler is told of the end of the file, unless there was an error. The
    number of the line is returned in eight bits. -/
def notifyEnd (k : Client σ) (r : UInt32 × Progress σ) : UInt8 × Progress σ :=
  if r.1 = 0 then (0, ({ r.2 with iniSection := .unknown }.call k .unknown none).2)
  else (r.1.toUInt8, r.2)

def initial (config : σ) : Progress σ := ⟨.unknown, config, []⟩

/-! ### The two parsers -/

/-- `FF_GetC`: there is no answer when a character that the file has cannot be read. -/
def FF_GetC (fp : FIL) : Option (ℤ × FIL) :=
  if FF_isEOF fp then some (eof, fp)
  else
    match f_read fp 1 with
    | (c :: _, fp) => some (c.toNat, fp)
    | ([], _) => none

/-- `ParseIni` -/
def parseIni (k : Client σ) (pFile : FIL) (config : σ) : Option (UInt8 × Progress σ) :=
  (parseLines k FF_GetC (pFile.objsize + 2) 1 pFile (initial config)).map (notifyEnd k)

/-- `(str < strend ? *str++ : -1)`; `char` is unsigned. -/
def nextChar : List UInt8 → Option (ℤ × List UInt8)
  | [] => some (eof, [])
  | c :: str => some (c.toNat, str)

/-- `ParseIniFromString` -/
def parseIniFromString (k : Client σ) (str : List UInt8) (config : σ) :
    Option (UInt8 × Progress σ) :=
  (parseLines k nextChar (str.length + 2) 1 str (initial config)).map (notifyEnd k)

/-! ### The lines of an input -/

/-- The lines of an input: one more than it has line feeds. -/
def lines : List UInt8 → List (List UInt8)
  | [] => [[]]
  | c :: cs =>
    if c = 0x0A then [] :: lines cs
    else
      match lines cs with
      | [] => [[c]]
      | l :: ls => (c :: l) :: ls

/-- The lines parsed in their order, up to the first error. -/
def parseAll (k : Client σ) : List (List UInt8) → UInt32 → Progress σ → UInt32 × Progress σ
  | [], _, p => (0, p)
  | l :: ls, lineNumber, p =>
    let r := parseLine k lineNumber (l.take (maxLineLen - 1)) p
    if r.1 = 0 then parseAll k ls (lineNumber + 1) r.2 else r

/-- A reader delivers the bytes that are left of its input, and then the end. -/
structure Reads (getC : ρ → Option (ℤ × ρ)) (rest : ρ → List UInt8) (ok : ρ → Prop) : Prop where
  nil : ∀ r, ok r → rest r = [] → ∃ r', getC r = some (eof, r') ∧ rest r' = [] ∧ ok r'
  cons : ∀ r c cs, ok r → rest r = c :: cs →
    ∃ r', getC r = some ((c.toNat : ℤ), r') ∧ rest r' = cs ∧ ok r'

/-- What is left behind the first line feed. -/
def behind (cs : List UInt8) : List UInt8 := (cs.dropWhile (· ≠ 0x0A)).drop 1

/-- The first line. -/
def front (cs : List UInt8) : List UInt8 := cs.takeWhile (· ≠ 0x0A)

theorem lines_ne_nil (cs : List UInt8) : lines cs ≠ [] := by
  cases cs with
  | nil => exact List.cons_ne_nil _ _
  | cons c cs =>
    rw [lines]
    split
    · exact List.cons_ne_nil _ _
    · split
      · exact List.cons_ne_nil _ _
      · exact List.cons_ne_nil _ _

/-- An input is its first line and, behind a line feed, the lines that follow. -/
theorem lines_eq : ∀ cs : List UInt8,
    lines cs = front cs :: if 0x0A ∈ cs then lines (behind cs) else []
  | [] => rfl
  | c :: cs => by
    rw [lines, front, behind]
    by_cases hc : c = 0x0A
    · subst hc
      simp
    · have ih := lines_eq cs
      rw [if_neg hc, ih]
      simp [front, behind, hc, Ne.symm hc]

/-- The character that ends the first line. -/
def mark (cs : List UInt8) : ℤ := if 0x0A ∈ cs then 0x0A else eof

theorem mark_cons {c : UInt8} (hc : c ≠ 0x0A) (cs : List UInt8) : mark (c :: cs) = mark cs := by
  simp [mark, Ne.symm hc]

theorem behind_cons {c : UInt8} (hc : c ≠ 0x0A) (cs : List UInt8) : behind (c :: cs) = behind cs := by
  simp [behind, hc]

theorem length_behind {cs : List UInt8} (h : 0x0A ∈ cs) : (behind cs).length < cs.length := by
  have hpos : 0 < cs.length := List.length_pos_of_mem h
  have hle : (cs.dropWhile (· ≠ 0x0A)).length ≤ cs.length := (List.dropWhile_suffix _).length_le
  rw [behind, List.length_drop]
  omega

/-- A character that is read is neither negative nor, unless it is one, a line feed. -/
theorem read_char {c : UInt8} (hc : c ≠ 0x0A) :
    (c.toNat : ℤ) ≥ 0 ∧ (c.toNat : ℤ) ≠ 0x0A ∧ (c.toNat : ℤ) ≠ eof := by
  have hne : c.toNat ≠ 0x0A := fun h => hc (UInt8.toNat_inj.mp h)
  refine ⟨Int.natCast_nonneg _, fun h => hne (by exact_mod_cast h), ?_⟩
  rw [eof]
  omega

section
variable {getC : ρ → Option (ℤ × ρ)} {rest : ρ → List UInt8} {ok : ρ → Prop}

/-- The rest of a line is read up to its end. -/
theorem Reads.skips (h : Reads getC rest ok) : ∀ (cs : List UInt8) (fuel : ℕ) (ch : ℤ) (r : ρ),
    ok r → rest r = cs → cs.length + 2 ≤ fuel → ch ≠ eof → ch ≠ 0x0A →
    ∃ r', skipLine getC fuel ch r = some (mark cs, r') ∧ rest r' = behind cs ∧ ok r'
  | _, 0, _, _, _, _, hf, _, _ => absurd hf (by omega)
  | _, 1, _, _, _, _, hf, _, _ => absurd hf (by omega)
  | [], fuel + 2, ch, r, hr, hcs, _, heof, hlf => by
    obtain ⟨r', hget, hrest, hok⟩ := h.nil r hr hcs
    refine ⟨r', ?_, hrest, hok⟩
    rw [skipLine, if_pos ⟨heof, hlf⟩, hget]
    rfl
  | c :: cs, fuel + 2, ch, r, hr, hcs, hf, heof, hlf => by
    obtain ⟨r', hget, hrest, hok⟩ := h.cons r c cs hr hcs
    rw [List.length_cons] at hf
    rw [skipLine, if_pos ⟨heof, hlf⟩, hget]
    by_cases hc : c = 0x0A
    · subst hc
      exact ⟨r', rfl, hrest, hok⟩
    · obtain ⟨-, hlf', heof'⟩ := read_char hc
      rw [mark_cons hc, behind_cons hc]
      exact h.skips cs (fuel + 1) c.toNat r' hok hrest (by omega) heof' hlf'

/-- The buffer is filled with the first line, as far as there is room: the line is then read to its
    end, or there is more of it to read. -/
theorem Reads.fills (h : Reads getC rest ok) : ∀ (n : ℕ) (ch : ℤ) (r : ρ), ok r → ch ≠ eof →
    ch ≠ 0x0A → ∃ ch' r', fillLine getC n ch r = some ((front (rest r)).take n, ch', r') ∧ ok r' ∧
      (ch' = mark (rest r) ∧ rest r' = behind (rest r) ∨
        ch' ≠ eof ∧ ch' ≠ 0x0A ∧ mark (rest r') = mark (rest r) ∧
          behind (rest r') = behind (rest r) ∧ (rest r').length ≤ (rest r).length)
  | 0, ch, r, hr, heof, hlf => ⟨ch, r, rfl, hr, Or.inr ⟨heof, hlf, rfl, rfl, le_rfl⟩⟩
  | n + 1, ch, r, hr, _, _ => by
    rw [fillLine]
    cases hcs : rest r with
    | nil =>
      obtain ⟨r', hget, hrest, hok⟩ := h.nil r hr hcs
      rw [hget]
      exact ⟨eof, r', rfl, hok, Or.inl ⟨rfl, hrest⟩⟩
    | cons c cs =>
      obtain ⟨r', hget, hrest, hok⟩ := h.cons r c cs hr hcs
      rw [hget]
      by_cases hc : c = 0x0A
      · subst hc
        exact ⟨0x0A, r', rfl, hok, Or.inl ⟨rfl, hrest⟩⟩
      · obtain ⟨hnn, hlf', heof'⟩ := read_char hc
        obtain ⟨ch', r'', hfill, hok', hend⟩ := h.fills n c.toNat r' hok heof' hlf'
        rw [hrest] at hfill hend
        refine ⟨ch', r'', ?_, hok', ?_⟩
        · have hfront : front (c :: cs) = c :: front cs := by simp [front, hc]
          simp only [if_pos (And.intro hnn hlf'), hfill, hfront, List.take_succ_cons, Int.toNat_natCast,
            Nat.toUInt8_eq, UInt8.ofNat_toNat]
        · rw [mark_cons hc, behind_cons hc]
          rcases hend with hdone | ⟨h1, h2, h3, h4, h5⟩
          · exact Or.inl hdone
          · exact Or.inr ⟨h1, h2, h3, h4, h5.trans (Nat.le_succ _)⟩

/-- What the loop over the lines makes of an input, whatever it is read through. -/
theorem Reads.parses (h : Reads getC rest ok) (k : Client σ) :
    ∀ (fuel : ℕ) (lineNumber : UInt32) (r : ρ) (p : Progress σ), ok r →
      (rest r).length + 2 ≤ fuel →
      parseLines k getC fuel lineNumber r p = some (parseAll k (lines (rest r)) lineNumber p)
  | 0, _, _, _, _, hf => absurd hf (by omega)
  | fuel + 1, lineNumber, r, p, hr, hf => by
    obtain ⟨ch, r', hfill, hok, hend⟩ := h.fills (maxLineLen - 1) 0 r hr (by decide) (by decide)
    obtain ⟨r'', hskip, hrest, hok'⟩ : ∃ r'', skipLine getC (fuel + 1) ch r'
        = some (mark (rest r), r'') ∧ rest r'' = behind (rest r) ∧ ok r'' := by
      rcases hend with ⟨hch, hbehind⟩ | ⟨heof, hlf, hmark, hbehind, hle⟩
      · refine ⟨r', ?_, hbehind, hok⟩
        rw [skipLine, if_neg, hch]
        rw [hch, mark]
        split <;> decide
      · have hread := h.skips (rest r') (fuel + 1) ch r' hok rfl (by omega) heof hlf
        rwa [hmark, hbehind] at hread
    rw [parseLines, hfill]
    simp only [hskip]
    rw [lines_eq, parseAll]
    by_cases hlf : 0x0A ∈ rest r
    · have hne : mark (rest r) ≠ eof := by
        rw [mark, if_pos hlf]
        decide
      have hlen := length_behind hlf
      have ih := h.parses k fuel (lineNumber + 1) r''
        (parseLine k lineNumber ((front (rest r)).take (maxLineLen - 1)) p).2 hok'
        (by rw [hrest]; omega)
      rw [hrest] at ih
      simp only [hlf, hne, ne_eq, not_false_eq_true, true_and, if_true, ih]
      split <;> rfl
    · have heq : mark (rest r) = eof := if_neg hlf
      simp only [hlf, heq, ne_eq, not_true_eq_false, false_and, if_false, parseAll]
      split
      · next h0 => exact congrArg some (Prod.ext h0 rfl)
      · rfl

end

/-! ### The two readers -/

/-- The rest of the file can be read. -/
structure Readable (fp : FIL) : Prop where
  ok : fp.Ok
  err : fp.err = false
  readable : fp.objsize ≤ fp.readable

theorem Readable.rest_eq {fp : FIL} (h : Readable fp) : fp.rest = fp.data.drop fp.fptr := by
  have hle := h.readable
  rw [FIL.rest, h.err, if_neg (by decide), List.take_of_length_le]
  rw [List.length_drop]
  exact Nat.sub_le_sub_right hle _

theorem Readable.getC {fp : FIL} (h : Readable fp) (hlt : fp.fptr < fp.objsize) :
    FF_GetC fp = some ((fp.data[fp.fptr].toNat : ℤ), fp.moved 1) ∧ Readable (fp.moved 1) := by
  have hread := FF_Read_eq h.ok h.err (n := 1) hlt (hlt.trans_le h.readable)
  rw [FF_Read, List.drop_eq_getElem_cons hlt, List.take_succ_cons, List.take_zero] at hread
  have heof : ¬ FF_isEOF fp = true := fun he => absurd (of_decide_eq_true he) (Nat.ne_of_lt hlt)
  refine ⟨?_, h.ok.moved hlt, h.err, h.readable⟩
  rw [FF_GetC, if_neg heof, hread]

/-- `FF_GetC` delivers the file from its position on. -/
theorem getC_reads : Reads FF_GetC FIL.rest Readable where
  nil fp h hrest := by
    rw [h.rest_eq, List.drop_eq_nil_iff] at hrest
    have heof : FF_isEOF fp = true := decide_eq_true (Nat.le_antisymm h.ok.fptr_le hrest)
    exact ⟨fp, if_pos heof, FIL.rest_of_isEOF heof, h⟩
  cons fp c cs h hrest := by
    rw [h.rest_eq] at hrest
    have hlt : fp.fptr < fp.objsize := by
      rw [FIL.objsize]
      by_contra hge
      rw [List.drop_of_length_le (Nat.not_lt.mp hge)] at hrest
      cases hrest
    rw [List.drop_eq_getElem_cons hlt, List.cons.injEq] at hrest
    obtain ⟨hget, hmoved⟩ := h.getC hlt
    rw [hrest.1] at hget
    exact ⟨fp.moved 1, hget, hmoved.rest_eq.trans hrest.2, hmoved⟩

/-- The string is delivered from its pointer on. -/
theorem nextChar_reads : Reads nextChar id fun _ => True where
  nil str _ hrest := ⟨[], by rw [show str = [] from hrest, nextChar], rfl, trivial⟩
  cons str c cs _ hrest := ⟨cs, by rw [show str = c :: cs from hrest, nextChar], rfl, trivial⟩

/-- What a parse makes of an input. -/
def parse (k : Client σ) (input : List UInt8) (config : σ) : UInt8 × Progress σ :=
  notifyEnd k (parseAll k (lines input) 1 (initial config))

/-! ### The calls of a parse -/

section
variable {k : Client σ} {P Q : σ → List Call → Prop}

/-- A line calls the handler once, behind `FreeList`, or it does not. -/
theorem parseLine_calls (hfree : ∀ c cs, P c cs → Q (k.freeList c) cs) (hskip : ∀ c cs, Q c cs → P c cs)
    (hcall : ∀ c cs iniSection name value, Q c cs →
      P (k.parseHandle c iniSection name value).2 (cs ++ [⟨iniSection, name, value⟩]))
    (lineNumber : UInt32) (lineBuffer : List UInt8) {p : Progress σ} (h : P p.config p.calls) :
    P (parseLine k lineNumber lineBuffer p).2.config (parseLine k lineNumber lineBuffer p).2.calls := by
  have hq := hfree _ _ h
  have hp := hskip _ _ hq
  rw [parseLine]
  split
  · exact hp
  · exact hp
  · dsimp only
    split
    · split
      · split
        · exact hp
        · split
          · exact hp
          · exact hcall _ _ _ _ _ hq
      · exact hp
    · split
      · split
        · exact hcall _ _ _ _ _ hq
        · exact hp
      · exact hp

theorem parseAll_calls (hfree : ∀ c cs, P c cs → Q (k.freeList c) cs) (hskip : ∀ c cs, Q c cs → P c cs)
    (hcall : ∀ c cs iniSection name value, Q c cs →
      P (k.parseHandle c iniSection name value).2 (cs ++ [⟨iniSection, name, value⟩])) :
    ∀ (ls : List (List UInt8)) (lineNumber : UInt32) {p : Progress σ}, P p.config p.calls →
      P (parseAll k ls lineNumber p).2.config (parseAll k ls lineNumber p).2.calls
  | [], _, _, h => h
  | l :: ls, lineNumber, p, h => by
    have hline := parseLine_calls hfree hskip hcall lineNumber (l.take (maxLineLen - 1)) h
    rw [parseAll]
    split
    · exact parseAll_calls hfree hskip hcall ls (lineNumber + 1) hline
    · exact hline

/-- What holds of a dataset before any call, and is carried on by every call, holds behind a parse; the
    call that tells of the end of the file has no `FreeList` in front of it. -/
theorem parse_calls (hfree : ∀ c cs, P c cs → Q (k.freeList c) cs) (hskip : ∀ c cs, Q c cs → P c cs)
    (hcall : ∀ c cs iniSection name value, Q c cs →
      P (k.parseHandle c iniSection name value).2 (cs ++ [⟨iniSection, name, value⟩]))
    (hend : ∀ c cs, P c cs →
      P (k.parseHandle c .unknown .unknown none).2 (cs ++ [⟨.unknown, .unknown, none⟩]))
    (input : List UInt8) {config : σ} (h : P config []) :
    P (parse k input config).2.config (parse k input config).2.calls := by
  have hall := parseAll_calls hfree hskip hcall (lines input) 1 (p := initial config) h
  rw [parse, notifyEnd]
  split
  · exact hend _ _ hall
  · exact hall

end

/-! ### The two parsers on an input -/

theorem parseIni_eq (k : Client σ) {pFile : FIL} (h : Readable pFile) (config : σ) :
    parseIni k pFile config = some (parse k pFile.rest config) := by
  have hlen : pFile.rest.length ≤ pFile.objsize := by
    rw [h.rest_eq, List.length_drop]
    exact Nat.sub_le _ _
  rw [parseIni, getC_reads.parses k _ 1 pFile _ h (Nat.add_le_add_right hlen 2)]
  rfl

theorem parseIniFromString_eq (k : Client σ) (str : List UInt8) (config : σ) :
    parseIniFromString k str config = some (parse k str config) := by
  have hlines := nextChar_reads.parses k (str.length + 2) 1 str (initial config) trivial le_rfl
  rw [parseIniFromString, hlines]
  rfl

/-- A file that can be read, opened at its top. -/
theorem f_open_readable {file : File} (h : file.data.length ≤ file.readable) (write : Bool) :
    Readable (f_open file write) := ⟨f_open_ok file write, rfl, h⟩

/-- The bytes of a file and the same bytes as a string are parsed alike: both parses return, with
    the same result, after the same calls of the handler. -/
theorem parseIni_eq_fromString (k : Client σ) (config : σ) (file : File)
    (h : file.data.length ≤ file.readable) :
    ∃ result, parseIni k (f_open file false) config = some result ∧
      parseIniFromString k file.data config = some result := by
  refine ⟨parse k file.data config, ?_, parseIniFromString_eq k file.data config⟩
  rw [parseIni_eq k (f_open_readable h false), f_open_rest, List.take_of_length_le h]

theorem iniFile_size (text : String) : (text.toList.map fun c => c.toNat.toUInt8).length ≤
    (text.toList.map fun c => c.toNat.toUInt8).length := le_rfl

/-- A file of one cluster with the given bytes. -/
def iniFile (text : String) : File where
  data := text.toList.map fun c => c.toNat.toUInt8
  slack := fun _ => 0
  cap := (text.toList.map fun c => c.toNat.toUInt8).length
  csize := 512
  readable := (text.toList.map fun c => c.toNat.toUInt8).length
  size_le := iniFile_size text
  csize_pos := sector_pos

/-- A handler that succeeds. -/
def content : Client Unit := ⟨fun _ _ _ _ => (0, ()), id⟩

theorem setupFile_eq_fromString : ∃ result,
    parseIni content (f_open (iniFile "[SETUP]\r\nEN_SPI = 1") false) () = some result ∧
      parseIniFromString content (iniFile "[SETUP]\r\nEN_SPI = 1").data () = some result :=
  parseIni_eq_fromString content () _ le_rfl

end Ini
