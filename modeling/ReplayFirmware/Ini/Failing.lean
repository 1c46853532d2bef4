import ReplayFirmware.Ini.Parser

/-! `ParseIni` on a file that can be read up to some place only.

    The end of the input is told from the position, and a read that fails leaves the position where it
    is: `FF_GetC` goes on to return what its variable happens to hold. The parse ends when there is no
    such place, or when a line in front of it is refused. -/

namespace Ini
open FatFs

variable {σ ρ : Type}

/-! ### Reads that fail -/

/-- `FF_GetC`, with `junk n` for the character that is not read the n-th time. -/
def getCFailing (junk : ℕ → UInt8) (r : FIL × ℕ) : Option (ℤ × FIL × ℕ) :=
  if FF_isEOF r.1 then some (eof, r)
  else
    match f_read r.1 1 with
    | (c :: _, fp) => some (c.toNat, fp, r.2)
    | ([], fp) => some ((junk r.2).toNat, fp, r.2 + 1)

/-- Whatever is returned for characters that cannot be read, the loops come to their end. -/
def Ends (k : Client σ) (file : File) (config : σ) : Prop :=
  ∀ junk : ℕ → UInt8, ∃ fuel result,
    parseLines k (getCFailing junk) fuel 1 (f_open file false, 0) (initial config) = some result

/-- A line that is complete in front of the place is refused. -/
def RefusedBefore (k : Client σ) (file : File) (config : σ) : Prop :=
  (parseAll k (lines (file.data.take file.readable)).dropLast 1 (initial config)).1 ≠ 0

/-- The file has a place that cannot be read, and the position is not behind it. -/
structure Failing (fp : FIL) : Prop where
  ok : fp.Ok
  fptr_le : fp.fptr ≤ fp.readable
  readable_lt : fp.readable < fp.objsize

theorem Failing.not_eof {fp : FIL} (h : Failing fp) : ¬FF_isEOF fp = true := fun he =>
  absurd (of_decide_eq_true he) (Nat.ne_of_lt (Nat.lt_of_le_of_lt h.fptr_le h.readable_lt))

theorem Failing.f_read {fp : FIL} (h : Failing fp) : Failing (f_read fp 1).2 := by
  have hle := h.fptr_le
  have hlt := h.readable_lt
  refine ⟨f_read_ok h.ok 1, ?_, ?_⟩
  · rw [f_read_eq h.ok]
    change fp.fptr + fp.avail 1 ≤ fp.readable
    rw [FIL.avail]
    split
    · exact hle
    · omega
  · rw [f_read_eq h.ok]
    exact hlt

/-- The reader that takes the place for the end of the file. -/
def getCQuiet (r : FIL × ℕ) : Option (ℤ × FIL × ℕ) :=
  match f_read r.1 1 with
  | (c :: _, fp) => some (c.toNat, fp, r.2)
  | ([], fp) => some (eof, fp, r.2)

theorem getCQuiet_reads : Reads getCQuiet (fun r => r.1.rest) fun r => Failing r.1 where
  nil r h hrest := by
    obtain ⟨hb, hdrop⟩ := f_read_one h.ok
    rw [hrest] at hb hdrop
    refine ⟨((f_read r.1 1).2, r.2), ?_, hdrop, h.f_read⟩
    rw [getCQuiet, show f_read r.1 1 = ([], (f_read r.1 1).2) from Prod.ext hb rfl]
  cons r c cs h hrest := by
    obtain ⟨hb, hdrop⟩ := f_read_one h.ok
    rw [hrest] at hb hdrop
    refine ⟨((f_read r.1 1).2, r.2), ?_, hdrop, h.f_read⟩
    rw [getCQuiet, show f_read r.1 1 = ([c], (f_read r.1 1).2) from Prod.ext hb rfl]

/-- One reader delivers every character that another one delivers. -/
def Covers (g g' : ρ → Option (ℤ × ρ)) (ok : ρ → Prop) : Prop :=
  ∀ r ch r', ok r → g r = some (ch, r') → ch ≠ eof → g' r = some (ch, r') ∧ ok r'

theorem getCFailing_covers (junk : ℕ → UInt8) :
    Covers getCQuiet (getCFailing junk) fun r => Failing r.1 := by
  intro r ch r' h hget hch
  have hnext := h.f_read
  rw [getCQuiet] at hget
  rw [getCFailing, if_neg h.not_eof]
  split at hget
  · next heq =>
    rw [heq] at hnext
    cases hget
    exact ⟨rfl, hnext⟩
  · cases hget
    exact absurd rfl hch

/-! ### A line that is complete -/

section
variable {g g' : ρ → Option (ℤ × ρ)} {ok : ρ → Prop}

theorem Covers.fillLine (h : Covers g g' ok) : ∀ {n : ℕ} {ch ch' : ℤ} {r r' : ρ} {line : List UInt8},
    ok r → fillLine g n ch r = some (line, ch', r') → ch' ≠ eof →
      fillLine g' n ch r = some (line, ch', r') ∧ ok r'
  | 0, _, _, _, _, _, hok, hfill, _ => by
    cases hfill
    exact ⟨rfl, hok⟩
  | n + 1, ch, ch', r, r', line, hok, hfill, hch' => by
    rw [Ini.fillLine] at hfill ⊢
    cases hget : g r with
    | none =>
      rw [hget] at hfill
      cases hfill
    | some x =>
      obtain ⟨c, r₁⟩ := x
      rw [hget] at hfill
      dsimp only at hfill
      split at hfill
      · next hc =>
        have hne : c ≠ eof := fun h0 => absurd hc.1 (by rw [h0]; decide)
        obtain ⟨hget', hok₁⟩ := h r c r₁ hok hget hne
        rw [hget']
        dsimp only
        rw [if_pos hc]
        cases hrest : Ini.fillLine g n c r₁ with
        | none =>
          rw [hrest] at hfill
          cases hfill
        | some y =>
          obtain ⟨line₁, ch₁, r₂⟩ := y
          rw [hrest] at hfill
          cases hfill
          obtain ⟨hrest', hok'⟩ := h.fillLine hok₁ hrest hch'
          rw [hrest']
          exact ⟨rfl, hok'⟩
      · next hc =>
        cases hfill
        obtain ⟨hget', hok'⟩ := h r _ _ hok hget hch'
        rw [hget']
        dsimp only
        rw [if_neg hc]
        exact ⟨rfl, hok'⟩

theorem Covers.skipLine (h : Covers g g' ok) : ∀ {fuel : ℕ} {ch ch' : ℤ} {r r' : ρ},
    ok r → skipLine g fuel ch r = some (ch', r') → ch' ≠ eof →
      skipLine g' fuel ch r = some (ch', r') ∧ ok r'
  | 0, _, _, _, _, _, hskip, _ => by cases hskip
  | fuel + 1, ch, ch', r, r', hok, hskip, hch' => by
    rw [Ini.skipLine] at hskip ⊢
    split at hskip
    · next hc =>
      rw [if_pos hc]
      cases hget : g r with
      | none =>
        rw [hget] at hskip
        cases hskip
      | some x =>
        obtain ⟨c, r₁⟩ := x
        rw [hget] at hskip
        dsimp only at hskip
        by_cases hne : c = eof
        · -- the rest of the line would be at its end
          cases fuel with
          | zero => cases hskip
          | succ fuel =>
            rw [Ini.skipLine, if_neg fun hgo => hgo.1 hne] at hskip
            cases hskip
            exact absurd hne hch'
        · obtain ⟨hget', hok₁⟩ := h r c r₁ hok hget hne
          rw [hget']
          exact h.skipLine hok₁ hskip hch'
    · next hc =>
      cases hskip
      exact ⟨if_neg hc, hok⟩

end

/-- A line that is complete is read to its line feed. -/
theorem Reads.line {g : ρ → Option (ℤ × ρ)} {rest : ρ → List UInt8} {ok : ρ → Prop}
    (h : Reads g rest ok) (fuel : ℕ) {r : ρ} (hok : ok r) (hlf : 0x0A ∈ rest r)
    (hfuel : (rest r).length + 2 ≤ fuel) : ∃ ch r' r'',
      (fillLine g (maxLineLen - 1) 0 r = some ((front (rest r)).take (maxLineLen - 1), ch, r') ∧
        ch ≠ eof) ∧
      skipLine g fuel ch r' = some (0x0A, r'') ∧ rest r'' = behind (rest r) ∧ ok r'' := by
  have hmark : mark (rest r) = 0x0A := if_pos hlf
  obtain ⟨ch, r', hfill, hok', hend⟩ := h.fills (maxLineLen - 1) 0 r hok (by decide) (by decide)
  rcases hend with ⟨hch, hbehind⟩ | ⟨heof, hne, hmark', hbehind, hle⟩
  · rw [hmark] at hch
    obtain ⟨fuel, rfl⟩ : ∃ n, fuel = n + 1 := ⟨fuel - 1, by omega⟩
    refine ⟨ch, r', r', ⟨hfill, by rw [hch]; decide⟩, ?_, hbehind, hok'⟩
    rw [skipLine, if_neg fun hgo => hgo.2 hch, hch]
  · obtain ⟨r'', hskip, hrest, hok''⟩ := h.skips (rest r') fuel ch r' hok' rfl (by omega) heof hne
    rw [hmark', hmark] at hskip
    exact ⟨ch, r', r'', ⟨hfill, heof⟩, hskip, hrest.trans hbehind, hok''⟩

/-- The parse ends at a line that is complete and refused. -/
theorem Covers.stops {k : Client σ} {g g' : ρ → Option (ℤ × ρ)} {rest : ρ → List UInt8}
    {ok : ρ → Prop} (h : Covers g g' ok) (hr : Reads g rest ok) :
    ∀ (fuel : ℕ) (lineNumber : UInt32) (r : ρ) (p : Progress σ), ok r → (rest r).length + 2 ≤ fuel →
      (parseAll k (lines (rest r)).dropLast lineNumber p).1 ≠ 0 →
      ∃ result, parseLines k g' fuel lineNumber r p = some result
  | 0, _, _, _, _, hfuel, _ => absurd hfuel (by omega)
  | fuel + 1, lineNumber, r, p, hok, hfuel, hrefused => by
    rw [lines_eq] at hrefused
    by_cases hlf : 0x0A ∈ rest r
    swap
    · rw [if_neg hlf] at hrefused
      exact absurd rfl hrefused
    rw [if_pos hlf, List.dropLast_cons_of_ne_nil (lines_ne_nil _), parseAll] at hrefused
    obtain ⟨ch, r', r'', hfill, hskip, hrest, hok''⟩ := hr.line (fuel + 1) hok hlf hfuel
    obtain ⟨hfill', hok'⟩ := h.fillLine hok hfill.1 hfill.2
    obtain ⟨hskip', -⟩ := h.skipLine hok' hskip (by decide)
    rw [parseLines, hfill']
    simp only [hskip']
    split at hrefused
    · next herr =>
      have hlen := length_behind hlf
      rw [if_pos ⟨by decide, herr⟩]
      refine h.stops hr fuel (lineNumber + 1) r'' _ hok'' (by rw [hrest]; omega) ?_
      rwa [hrest]
    · next herr => exact ⟨_, if_neg fun hgo => herr hgo.2⟩

/-! ### Characters without an end -/

section
variable {g : ρ → Option (ℤ × ρ)} {P : ρ → Prop}

/-- A reader that goes on with characters that are neither a line feed nor the end. -/
def Endless (g : ρ → Option (ℤ × ρ)) (P : ρ → Prop) : Prop :=
  ∀ r, P r → ∃ (c : UInt8) (r' : ρ), c ≠ 0x0A ∧ g r = some ((c.toNat : ℤ), r') ∧ P r'

theorem Endless.fillLine (h : Endless g P) : ∀ (n : ℕ) {ch : ℤ} {r : ρ}, P r → ch ≠ eof → ch ≠ 0x0A →
    ∃ line ch' r', fillLine g n ch r = some (line, ch', r') ∧ ch' ≠ eof ∧ ch' ≠ 0x0A ∧ P r'
  | 0, ch, r, hr, heof, hlf => ⟨[], ch, r, rfl, heof, hlf, hr⟩
  | n + 1, ch, r, hr, _, _ => by
    obtain ⟨c, r₁, hc, hget, hr₁⟩ := h r hr
    obtain ⟨hnn, hlf, heof⟩ := read_char hc
    obtain ⟨line, ch', r', hfill, hend⟩ := h.fillLine n hr₁ heof hlf
    refine ⟨c :: line, ch', r', ?_, hend⟩
    rw [Ini.fillLine, hget]
    simp only [if_pos (And.intro hnn hlf), hfill, Int.toNat_natCast, Nat.toUInt8_eq,
      UInt8.ofNat_toNat]

theorem Endless.skipLine (h : Endless g P) : ∀ (fuel : ℕ) {ch : ℤ} {r : ρ}, P r → ch ≠ eof →
    ch ≠ 0x0A → skipLine g fuel ch r = none
  | 0, _, _, _, _, _ => rfl
  | fuel + 1, ch, r, hr, heof, hlf => by
    obtain ⟨c, r₁, hc, hget, hr₁⟩ := h r hr
    obtain ⟨-, hlf₁, heof₁⟩ := read_char hc
    rw [Ini.skipLine, if_pos ⟨heof, hlf⟩, hget]
    exact h.skipLine fuel hr₁ heof₁ hlf₁

/-- A line that does not end is not parsed. -/
theorem Endless.parseLines (h : Endless g P) (k : Client σ) (fuel : ℕ) (lineNumber : UInt32) {r : ρ}
    (p : Progress σ) (hr : P r) : parseLines k g fuel lineNumber r p = none := by
  cases fuel with
  | zero => rfl
  | succ fuel =>
    obtain ⟨line, ch, r', hfill, heof, hlf, hr'⟩ :=
      h.fillLine (maxLineLen - 1) hr (show (0 : ℤ) ≠ eof by decide) (by decide)
    rw [Ini.parseLines, hfill]
    simp only [h.skipLine (fuel + 1) hr' heof hlf]

/-- More steps make no difference to a line that is read to its end. -/
theorem skipLine_unique : ∀ {fuel fuel' : ℕ} {ch : ℤ} {r : ρ} {x y : ℤ × ρ},
    skipLine g fuel ch r = some x → skipLine g fuel' ch r = some y → x = y
  | 0, _, _, _, _, _, hx, _ => by cases hx
  | _ + 1, 0, _, _, _, _, _, hy => by cases hy
  | fuel + 1, fuel' + 1, ch, r, x, y, hx, hy => by
    rw [skipLine] at hx hy
    split at hx
    · next hgo =>
      rw [if_pos hgo] at hy
      cases hget : g r with
      | none =>
        rw [hget] at hx
        cases hx
      | some z =>
        rw [hget] at hx hy
        exact skipLine_unique hx hy
    · next hgo =>
      rw [if_neg hgo] at hy
      exact Option.some.inj (hx.symm.trans hy)

end

/-- The character `x` for every one that cannot be read: without a line feed in front of the place
    there is none behind it. -/
theorem getCFailing_endless : Endless (getCFailing fun _ => 0x78) fun r =>
    Failing r.1 ∧ 0x0A ∉ r.1.rest := by
  rintro r ⟨h, hlf⟩
  obtain ⟨hb, hdrop⟩ := f_read_one h.ok
  have hnext := h.f_read
  rw [getCFailing, if_neg h.not_eof]
  have hrest : 0x0A ∉ (f_read r.1 1).2.rest := fun hmem =>
    hlf (List.mem_of_mem_drop (hdrop ▸ hmem))
  split
  · next c cs fp heq =>
    rw [heq] at hb hnext hrest
    have hcs : c :: cs = r.1.rest.take 1 := hb
    have hc : c ∈ r.1.rest := List.mem_of_mem_take (hcs ▸ List.mem_cons_self)
    exact ⟨c, _, fun h0 => hlf (h0 ▸ hc), rfl, hnext, hrest⟩
  · next fp heq =>
    rw [heq] at hnext hrest
    exact ⟨0x78, _, by decide, rfl, hnext, hrest⟩

/-- Lines that are complete and not refused lead to one that has no end. -/
theorem parseLines_endless (k : Client σ) : ∀ (fuel : ℕ) (lineNumber : UInt32) (r : FIL × ℕ)
    (p : Progress σ), Failing r.1 → (parseAll k (lines r.1.rest).dropLast lineNumber p).1 = 0 →
      parseLines k (getCFailing fun _ => 0x78) fuel lineNumber r p = none
  | 0, _, _, _, _, _ => rfl
  | fuel + 1, lineNumber, r, p, h, hnone => by
    by_cases hlf : 0x0A ∈ r.1.rest
    swap
    · exact getCFailing_endless.parseLines k (fuel + 1) lineNumber p ⟨h, hlf⟩
    rw [lines_eq, if_pos hlf, List.dropLast_cons_of_ne_nil (lines_ne_nil _), parseAll] at hnone
    have hcovers := getCFailing_covers fun _ => 0x78
    obtain ⟨ch, r', r'', hfill, hskip, hrest, hok''⟩ :=
      getCQuiet_reads.line (r.1.rest.length + 2) h hlf le_rfl
    obtain ⟨hfill', hok'⟩ := hcovers.fillLine h hfill.1 hfill.2
    obtain ⟨hskip', -⟩ := hcovers.skipLine hok' hskip (by decide)
    rw [parseLines, hfill']
    cases hfuel : skipLine (getCFailing fun _ => 0x78) (fuel + 1) ch r' with
    | none => simp only [hfuel]
    | some x =>
      obtain rfl := skipLine_unique hfuel hskip'
      simp only [hfuel]
      split at hnone
      · next herr =>
        rw [if_pos ⟨by decide, herr⟩]
        refine parseLines_endless k fuel (lineNumber + 1) r'' _ hok'' ?_
        rwa [hrest]
      · next herr => exact absurd hnone herr

/-! ### The file -/

/-- `ParseIni` comes to its end, whatever is returned for characters that cannot be read, exactly when
    there are none, or a line in front of the first of them is refused. -/
theorem parseIni_ends_iff (k : Client σ) (file : File) (config : σ) :
    Ends k file config ↔ file.data.length ≤ file.readable ∨ RefusedBefore k file config := by
  have hrest : (f_open file false).rest = file.data.take file.readable := f_open_rest file false
  by_cases hle : file.data.length ≤ file.readable
  · refine iff_of_true (fun junk => ?_) (Or.inl hle)
    have hreads : Reads (getCFailing junk) (fun r => r.1.rest) fun r => Readable r.1 := by
      have hget : ∀ (r : FIL × ℕ) (ch : ℤ) (fp : FIL), FF_GetC r.1 = some (ch, fp) →
          getCFailing junk r = some (ch, fp, r.2) := by
        intro r ch fp hget
        rw [FF_GetC] at hget
        split at hget
        · next heof =>
          cases hget
          rw [getCFailing, if_pos heof]
        · next heof =>
          split at hget
          · next heq =>
            cases hget
            rw [getCFailing, if_neg heof, heq]
          · cases hget
      refine ⟨fun r h hr => ?_, fun r c cs h hr => ?_⟩
      · obtain ⟨fp, hgetc, hfp⟩ := getC_reads.nil r.1 h hr
        exact ⟨(fp, r.2), hget r eof fp hgetc, hfp⟩
      · obtain ⟨fp, hgetc, hfp⟩ := getC_reads.cons r.1 c cs h hr
        exact ⟨(fp, r.2), hget r _ fp hgetc, hfp⟩
    exact ⟨_, _, hreads.parses k _ 1 (f_open file false, 0) (initial config)
      (f_open_readable hle false) le_rfl⟩
  · have hfailing : Failing (f_open file false) :=
      ⟨f_open_ok file false, Nat.zero_le _, Nat.not_le.mp hle⟩
    rw [or_iff_right hle]
    constructor
    · intro hends hnone
      obtain ⟨fuel, result, hparse⟩ := hends fun _ => 0x78
      have hendless := parseLines_endless k fuel 1 (f_open file false, 0) (initial config) hfailing
        (hrest ▸ hnone)
      rw [hendless] at hparse
      cases hparse
    · intro hrefused junk
      have hrefused' : (parseAll k (lines (f_open file false).rest).dropLast 1 (initial config)).1 ≠ 0 := by
        rw [hrest]
        exact hrefused
      obtain ⟨result, hparse⟩ := (getCFailing_covers junk).stops getCQuiet_reads _ 1
        (f_open file false, 0) (initial config) hfailing le_rfl hrefused'
      exact ⟨_, result, hparse⟩

/-- A file of one character, which cannot be read. -/
def unreadable : File where
  data := [0x78]
  slack := fun _ => 0
  cap := 1
  csize := 512
  readable := 0
  size_le := le_rfl
  csize_pos := sector_pos

/-- The loop that reads the rest of a line never sees the end of the file. -/
theorem unreadable_endless :
    ¬∀ (k : Client Unit) (file : File), Ends k file () := by
  intro h
  obtain ⟨fuel, result, hparse⟩ := h content unreadable fun _ => 0x78
  have hfailing : Failing (f_open unreadable false) :=
    ⟨f_open_ok unreadable false, Nat.zero_le _, by decide⟩
  rw [parseLines_endless content fuel 1 (f_open unreadable false, 0) (initial ()) hfailing rfl]
    at hparse
  cases hparse

end Ini
