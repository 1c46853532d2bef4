import ReplayFirmware.Ini.Fields

/-! The numbers of a value: decimal, hexadecimal with `0x`, octal with `0`, binary with `*`, and with a
    minus sign.

    What `ParseList` reads is the number that is written, unless there is a sign: the string behind the
    sign is read, and the sign is lost. -/

namespace Ini
open InPlace Libc Libc.Stdlib

/-! ### Numerals -/

/-- Digits of a base. -/
structure Digits (base : ℕ) where
  chars : List UInt8
  ne_nil : chars ≠ []
  ok : ∀ c ∈ chars, isDigitOf base c = true

/-- A number as it is written; a decimal one does not begin with a 0, unless it is 0. -/
inductive Numeral where
  | decimal (ds : Digits 10) (first : ds.chars.head? = some 0x30 → ds.chars = [0x30])
      (range : valueOf 10 ds.chars < 2 ^ 32)
  | hex (x : UInt8) (mark : x = 0x78 ∨ x = 0x58) (ds : Digits 16)
      (range : valueOf 16 ds.chars < 2 ^ 32)
  | octal (ds : Digits 8) (range : valueOf 8 ds.chars < 2 ^ 32)
  | binary (ds : Digits 2) (range : valueOf 2 ds.chars < 2 ^ 32)
  | negative (ds : Digits 10) (pos : 0 < valueOf 10 ds.chars) (range : valueOf 10 ds.chars ≤ 2 ^ 31)

def Numeral.text : Numeral → List UInt8
  | decimal ds _ _ => ds.chars
  | hex x _ ds _ => 0x30 :: x :: ds.chars
  | octal ds _ => 0x30 :: ds.chars
  | binary ds _ => 0x2A :: ds.chars
  | negative ds _ _ => 0x2D :: ds.chars

/-- The number, modulo `2 ^ 32`. -/
def Numeral.value : Numeral → UInt32
  | decimal ds _ _ => (valueOf 10 ds.chars).toUInt32
  | hex _ _ ds _ => (valueOf 16 ds.chars).toUInt32
  | octal ds _ => (valueOf 8 ds.chars).toUInt32
  | binary ds _ => (valueOf 2 ds.chars).toUInt32
  | negative ds _ _ => -(valueOf 10 ds.chars).toUInt32

/-- There is a minus sign. -/
def Numeral.signed : Numeral → Bool
  | negative .. => true
  | _ => false

/-! ### Digits -/

theorem isDigitOf_mono {base base' : ℕ} {c : UInt8} (h : isDigitOf base c = true) (hb : base ≤ base') :
    isDigitOf base' c = true := by
  rw [isDigitOf, decide_eq_true_eq] at h ⊢
  omega

/-- A digit of any of the bases is a figure or a letter up to F. -/
theorem of_isDigitOf {c : UInt8} (h : isDigitOf 16 c = true) : isdigit c = true ∨
    (0x61 ≤ c.toNat ∧ c.toNat ≤ 0x66) ∨ (0x41 ≤ c.toNat ∧ c.toNat ≤ 0x46) := by
  rw [isDigitOf, digitValue, decide_eq_true_eq] at h
  split at h
  · next hd => exact Or.inl hd
  · split at h
    · next hl =>
      rw [islower, decide_eq_true_eq, UInt8.le_iff_toNat_le, UInt8.le_iff_toNat_le] at hl
      exact Or.inr (Or.inl ⟨hl.1, by omega⟩)
    · split at h
      · next hu =>
        rw [isupper, decide_eq_true_eq, UInt8.le_iff_toNat_le, UInt8.le_iff_toNat_le] at hu
        exact Or.inr (Or.inr ⟨hu.1, by omega⟩)
      · omega

theorem isdigit_iff (c : UInt8) : isdigit c = true ↔ 0x30 ≤ c.toNat ∧ c.toNat ≤ 0x39 := by
  rw [isdigit, decide_eq_true_eq, UInt8.le_iff_toNat_le, UInt8.le_iff_toNat_le]
  rfl

theorem isdigit_of_isDigitOf {c : UInt8} (h : isDigitOf 10 c = true) : isdigit c = true := by
  by_contra hd
  rw [isDigitOf, digitValue, if_neg hd, decide_eq_true_eq] at h
  split at h
  · omega
  · split at h <;> omega

/-- A digit is neither a blank nor a sign, nor one of these marks. -/
theorem digit_ne {c d : UInt8} (h : isDigitOf 16 c = true)
    (hd : d.toNat < 0x30 ∨ (0x39 < d.toNat ∧ d.toNat < 0x41) ∨ (0x46 < d.toNat ∧ d.toNat < 0x61) ∨
      0x66 < d.toNat) : c ≠ d := by
  rintro rfl
  rcases of_isDigitOf h with h | h
  · rw [isdigit_iff] at h
    omega
  · omega

theorem digit_not_space {c : UInt8} (h : isDigitOf 16 c = true) : isspace c = false := by
  rw [isspace, decide_eq_false_iff_not, UInt8.le_iff_toNat_le, UInt8.le_iff_toNat_le,
    ← UInt8.toNat_inj]
  have h9 : (0x09 : UInt8).toNat = 9 := rfl
  have hD : (0x0D : UInt8).toNat = 13 := rfl
  have h20 : (0x20 : UInt8).toNat = 32 := rfl
  rcases of_isDigitOf h with h | h
  · rw [isdigit_iff] at h
    omega
  · omega

/-! ### What is read -/

theorem sign_digit {c : UInt8} (h : isDigitOf 16 c = true) (t : List UInt8) :
    sign (c :: t) = (false, c :: t) := by
  rw [sign.eq_def]
  split
  · next heq => exact absurd (List.cons.inj heq).1 (digit_ne h (by decide))
  · next heq => exact absurd (List.cons.inj heq).1 (digit_ne h (by decide))
  · rfl

/-- A string that begins with a digit has neither blanks nor a sign in front of it. -/
theorem subject_digit {c : UInt8} (h : isDigitOf 16 c = true) (t : List UInt8) (base : ℕ) :
    subject (c :: t) base = (false, valueOf (prefixed base (c :: t)).1
      ((prefixed base (c :: t)).2.takeWhile (isDigitOf (prefixed base (c :: t)).1))) := by
  have hspace : ¬isspace c = true := by
    rw [digit_not_space h]
    exact Bool.false_ne_true
  rw [subject, List.dropWhile_cons_of_neg hspace, sign_digit h]

theorem prefixed_of_ne {base : ℕ} (h0 : base ≠ 0) (h16 : base ≠ 16) (s : List UInt8) :
    prefixed base s = (base, s) := by
  rw [prefixed.eq_def]
  split
  · rw [if_neg fun h => h.1.elim h0 h16, if_neg h0]
  · rw [if_neg h0]
  · rw [if_neg h0]

theorem prefixed_figure {c : UInt8} (h : c ≠ 0x30) (t : List UInt8) :
    prefixed 0 (c :: t) = (10, c :: t) := by
  rw [prefixed.eq_def]
  split
  · next heq => exact absurd (List.cons.inj heq).1 h
  · next heq => exact absurd (List.cons.inj heq).1 h
  · rfl

theorem prefixed_hex {x d : UInt8} (hx : x = 0x78 ∨ x = 0x58) (hd : isDigitOf 16 d = true)
    (t : List UInt8) : prefixed 0 (0x30 :: x :: d :: t) = (16, d :: t) :=
  if_pos ⟨Or.inl rfl, hx, hd⟩

theorem prefixed_octal {t : List UInt8} (h : ∀ c ∈ t, isDigitOf 8 c = true) :
    prefixed 0 (0x30 :: t) = (8, 0x30 :: t) := by
  rw [prefixed.eq_def]
  split
  · next x d t' heq =>
    have hx : isDigitOf 8 x = true := h x (by rw [(List.cons.inj heq).2]; exact List.mem_cons_self)
    have hx16 := isDigitOf_mono hx (by decide : 8 ≤ 16)
    rw [if_neg, if_pos rfl]
    rintro ⟨-, hmark | hmark, -⟩
    · exact digit_ne hx16 (by decide) hmark
    · exact digit_ne hx16 (by decide) hmark
  · rfl
  · next hno => exact absurd rfl (hno t)

theorem Digits.takeWhile_eq {base : ℕ} (ds : Digits base) :
    ds.chars.takeWhile (isDigitOf base) = ds.chars := List.takeWhile_eq_self_iff.mpr ds.ok

/-- Digits of a base that has no prefix. -/
theorem subject_digits {base : ℕ} (h0 : base ≠ 0) (h16 : base < 16) (ds : Digits base) :
    subject ds.chars base = (false, valueOf base ds.chars) := by
  obtain ⟨c, t, hct⟩ := List.exists_cons_of_ne_nil ds.ne_nil
  have hc : isDigitOf 16 c = true :=
    isDigitOf_mono (ds.ok c (by rw [hct]; exact List.mem_cons_self)) h16.le
  have hall := ds.takeWhile_eq
  rw [hct] at hall ⊢
  rw [subject_digit hc, prefixed_of_ne h0 h16.ne]
  dsimp only
  rw [hall]

/-- What `strtoul` gives for a number in range. -/
theorem strtoul_eq {s : List UInt8} {base n : ℕ} (h : subject s base = (false, n)) (hn : n < 2 ^ 32) :
    strtoul s base = n.toUInt32 := by
  rw [strtoul, h]
  exact if_neg (by simpa using hn)

/-- A figure in front decides that the notation is found out. -/
theorem number_figure {c : UInt8} (h : isdigit c = true) (t : List UInt8) :
    number (c :: t) = strtoul (c :: t) 0 := by
  have hc : 0x30 ≤ c.toNat ∧ c.toNat ≤ 0x39 := (isdigit_iff c).mp h
  rw [number.eq_def]
  split
  · next heq =>
    rw [(List.cons.inj heq).1] at hc
    exact absurd hc (by decide)
  · next heq =>
    rw [(List.cons.inj heq).1] at hc
    exact absurd hc (by decide)
  · next heq =>
    obtain ⟨rfl, rfl⟩ := List.cons.inj heq
    exact if_pos h
  · next heq => exact absurd heq (List.cons_ne_nil _ _)

/-- A number without a sign is read as it is written. -/
theorem number_of_unsigned (num : Numeral) (h : num.signed = false) : number num.text = num.value := by
  cases num with
  | decimal ds first range =>
    have hall := ds.takeWhile_eq
    obtain ⟨c, t, hct⟩ := List.exists_cons_of_ne_nil ds.ne_nil
    have hc : isDigitOf 10 c = true := ds.ok c (by rw [hct]; exact List.mem_cons_self)
    rw [Numeral.text, Numeral.value, hct, number_figure (isdigit_of_isDigitOf hc)]
    refine strtoul_eq ?_ (hct ▸ range)
    rw [hct] at hall first
    rw [subject_digit (isDigitOf_mono hc (by decide))]
    by_cases h0 : c = 0x30
    · rw [h0] at first ⊢
      rw [first rfl]
      rfl
    · rw [prefixed_figure h0]
      dsimp only
      rw [hall]
  | hex x mark ds range =>
    have hall := ds.takeWhile_eq
    obtain ⟨d, t, hdt⟩ := List.exists_cons_of_ne_nil ds.ne_nil
    have hd : isDigitOf 16 d = true := ds.ok d (by rw [hdt]; exact List.mem_cons_self)
    rw [Numeral.text, Numeral.value, hdt, number_figure (by decide)]
    refine strtoul_eq ?_ (hdt ▸ range)
    rw [hdt] at hall
    rw [subject_digit (by decide), prefixed_hex mark hd]
    dsimp only
    rw [hall]
  | octal ds range =>
    have hall := ds.takeWhile_eq
    rw [Numeral.text, Numeral.value, number_figure (by decide)]
    refine strtoul_eq ?_ range
    rw [subject_digit (by decide), prefixed_octal ds.ok]
    dsimp only
    rw [List.takeWhile_cons_of_pos (by decide), hall]
    rfl
  | binary ds range =>
    exact strtoul_eq (subject_digits (by decide) (by decide) ds) range
  | negative ds pos range => exact absurd h.symm Bool.false_ne_true

/-- What saturates is not negated. -/
theorem saturated_ne_neg {n : ℕ} (pos : 0 < n) (range : n ≤ 2 ^ 31) :
    (if 2 ^ 31 ≤ n then 0x7FFFFFFF else n.toUInt32) ≠ -n.toUInt32 := by
  by_cases hn : 2 ^ 31 ≤ n
  · obtain rfl : n = 2 ^ 31 := Nat.le_antisymm range hn
    decide
  · rw [if_neg hn, ne_eq, ← UInt32.toNat_inj, UInt32.toNat_neg]
    have hnat : n.toUInt32.toNat = n := Nat.mod_eq_of_lt (by omega)
    have hsize : UInt32.size = 4294967296 := rfl
    rw [hnat, hsize]
    omega

/-- A number with a sign is not. -/
theorem number_of_signed (num : Numeral) (h : num.signed = true) : number num.text ≠ num.value := by
  cases num with
  | negative ds pos range =>
    have hread : number (Numeral.negative ds pos range).text = strtol ds.chars 10 := rfl
    rw [hread, strtol, subject_digits (by decide) (by decide) ds, Numeral.value]
    exact saturated_ne_neg pos range
  | decimal ds first range => exact absurd h Bool.false_ne_true
  | hex x mark ds range => exact absurd h Bool.false_ne_true
  | octal ds range => exact absurd h Bool.false_ne_true
  | binary ds range => exact absurd h Bool.false_ne_true

/-! ### A number in a list -/

/-- A field that spells a number, in a list of plain fields, with room for it. -/
structure NumberField where
  list : FieldList
  maxlen : UInt16
  plain : ∀ f ∈ list.fields.take maxlen.toNat, f.field.plain = true
  index : ℕ
  room : index < maxlen.toNat
  field : Spaced
  field_eq : list.fields[index]? = some field
  num : Numeral
  text_eq : field.field.text = num.text

/-- The entry of the field has the number that is written. -/
def ReadsNumber (nf : NumberField) (b : ValueBuffer) : Prop :=
  ∃ es b', InPlace.parseList (nf.list.value.chars ++ [0]) nf.maxlen.toNat 0 (raw b.freeList)
      = some (es, b') ∧ ∃ e, es[nf.index]? = some e ∧ e.intval = nf.num.value

/-- An entry has the number of the text that is stored for it. -/
theorem intval_listEntries : ∀ (ts : List (Option (List UInt8))) (o i : ℕ) {t : List UInt8},
    (ts.map (Option.map cstr))[i]? = some (some t) →
    ∃ e, (listEntries o ts)[i]? = some e ∧ e.intval = number t
  | [], _, _, _, h => by cases h
  | none :: ts, o, 0, _, h => by cases h
  | none :: ts, o, i + 1, _, h => intval_listEntries ts o i h
  | some bs :: ts, o, 0, t, h => by
    have ht : cstr bs = t := by simpa using h
    exact ⟨_, rfl, congrArg number ht⟩
  | some bs :: ts, o, i + 1, _, h => intval_listEntries ts (o + bs.length) i h

/-- The entry of a field that spells a number has the number of this text. -/
theorem entry_number (nf : NumberField) (b : ValueBuffer) : ∃ es b',
    InPlace.parseList (nf.list.value.chars ++ [0]) nf.maxlen.toNat 0 (raw b.freeList) = some (es, b') ∧
      ∃ e, es[nf.index]? = some e ∧ e.intval = number nf.num.text := by
  have hroom := nf.room
  obtain ⟨hsplits, ts, hts, htexts⟩ := (storedTexts_spell [] nf.maxlen.toNat nf.list.ne_nil).mpr
    ⟨by omega, nf.plain⟩
  rw [← nf.list.spelled] at hsplits hts
  refine ⟨_, _, (parseList_entries ..).mpr ⟨hsplits, ts, hts, rfl, rfl⟩, ?_⟩
  refine intval_listEntries ts 0 nf.index ?_
  rw [htexts, texts, List.getElem?_map, List.getElem?_take_of_lt nf.room, nf.field_eq, Option.map_some,
    nf.text_eq]

/-- A number is read as it is written exactly when it has no sign. -/
theorem readsNumber_iff (nf : NumberField) (b : ValueBuffer) :
    ReadsNumber nf b ↔ nf.num.signed = false := by
  obtain ⟨es, b', hparse, e, he, hnum⟩ := entry_number nf b
  constructor
  · rintro ⟨es', b'', hparse', e', he', hvalue⟩
    obtain ⟨rfl, -⟩ := Prod.mk.inj (Option.some.inj (hparse.symm.trans hparse'))
    obtain rfl := Option.some.inj (he.symm.trans he')
    by_contra hsigned
    exact number_of_signed nf.num (Bool.eq_true_of_not_eq_false hsigned) (hnum.symm.trans hvalue)
  · intro hsigned
    exact ⟨es, b', hparse, e, he, hnum.trans (number_of_unsigned nf.num hsigned)⟩

/-- `-5` -/
def minusFive : NumberField where
  list :=
    { fields := [⟨[], .bare ⟨[0x2D, 0x35], by decide +kernel, by decide +kernel, by decide +kernel, by decide +kernel⟩, [],
        blanks_nil, blanks_nil⟩]
      ne_nil := List.cons_ne_nil _ _
      value := ⟨[0x2D, 0x35], by decide +kernel, by decide +kernel⟩
      spelled := rfl }
  maxlen := 8
  plain := fun f hf => by
    rw [List.mem_singleton.mp hf]
    rfl
  index := 0
  room := by decide +kernel
  field := ⟨[], .bare ⟨[0x2D, 0x35], by decide +kernel, by decide +kernel, by decide +kernel, by decide +kernel⟩, [],
    blanks_nil, blanks_nil⟩
  field_eq := rfl
  num := .negative ⟨[0x35], by decide +kernel, by decide +kernel⟩ (by decide +kernel) (by decide +kernel)
  text_eq := rfl

/-- It is read as 5. -/
theorem minusFive_read : ¬∀ (nf : NumberField) (b : ValueBuffer), ReadsNumber nf b := by
  intro h
  obtain ⟨es, b', hparse, e, he, hvalue⟩ := h minusFive emptyBuffer
  have hread : (InPlace.parseList (minusFive.list.value.chars ++ [0]) 8 0 (raw emptyBuffer.freeList)).map
      Prod.fst = some [⟨some 0, 5⟩] := by
    decide +kernel
  have hes : es = [⟨some 0, 5⟩] := Option.some.inj ((congrArg (Option.map Prod.fst) hparse).symm.trans hread)
  rw [hes] at he
  rw [← Option.some.inj he] at hvalue
  exact absurd hvalue (by decide)

end Ini
