import ReplayFirmware.Ini.ListInPlace

/-! The fields of a value: words and strings in quotes, with blanks around them and commas between them.

    A value is split into these fields as long as no string in quotes is empty or has a comma or the start
    of a comment in it. -/

namespace Ini
open InPlace Libc Splice

/-! ### Fields -/

/-- A word, or a number, without quotes. -/
structure Word where
  chars : List UInt8
  ne_nil : chars ≠ []
  head : ∀ c ∈ chars.head?, isspace c = false ∧ c ≠ 0x22
  last : stripTrailingSpaces chars = chars
  ok : ∀ c ∈ chars, c ≠ 0 ∧ passes 0x2C c = true

/-- What stands between quotes. -/
structure Quoted where
  chars : List UInt8
  ok : ∀ c ∈ chars, c ≠ 0 ∧ c ≠ 0x22

inductive Field where
  | bare (w : Word)
  | quoted (q : Quoted)

/-- The text of a field. -/
def Field.text : Field → List UInt8
  | bare w => w.chars
  | quoted q => q.chars

/-- The text of a field, as it is written. -/
def Field.spell : Field → List UInt8
  | bare w => w.chars
  | quoted q => 0x22 :: (q.chars ++ [0x22])

/-- A field that ends where its text does, and has one. -/
def Field.plain : Field → Bool
  | bare _ => true
  | quoted q => q.chars ≠ [] ∧ q.chars.all (passes 0x2C) = true

/-- A field with blanks around it. -/
structure Spaced where
  before : List UInt8
  field : Field
  after : List UInt8
  before_ok : ∀ c ∈ before, isspace c = true
  after_ok : ∀ c ∈ after, isspace c = true

/-- The fields, with commas between them. -/
def spell : List Spaced → List UInt8
  | [] => []
  | f :: fs =>
    f.before ++ (f.field.spell ++ f.after) ++ if fs.isEmpty then [] else 0x2C :: spell fs

/-! ### A field in a value -/

theorem isspace_passes {c : UInt8} (h : isspace c = true) : passes 0x2C c = true := by
  rw [isspace, decide_eq_true_eq] at h
  rw [passes, decide_eq_true_eq]
  refine ⟨?_, ?_, ?_⟩
  · rintro rfl
    revert h
    decide
  · rintro rfl
    revert h
    decide
  · rintro rfl
    revert h
    decide

theorem isspace_ne_quote {c : UInt8} (h : isspace c = true) : c ≠ 0x22 := by
  rintro rfl
  revert h
  decide

/-- A field does not begin with a blank. -/
theorem Field.head_spell : ∀ f : Field, ∃ c t, f.spell = c :: t ∧ isspace c = false
  | .bare w => by
    obtain ⟨c, t, hct⟩ := List.exists_cons_of_ne_nil w.ne_nil
    exact ⟨c, t, hct, (w.head c (by rw [hct]; rfl)).1⟩
  | .quoted q => ⟨0x22, q.chars ++ [0x22], rfl, by decide⟩

/-- The blanks in front of a field are passed. -/
theorem dropWhile_spaced (f : Spaced) (more : List UInt8) :
    (f.before ++ (f.field.spell ++ f.after) ++ more).dropWhile isspace =
      f.field.spell ++ f.after ++ more := by
  obtain ⟨c, t, hct, hc⟩ := f.field.head_spell
  rw [List.append_assoc, List.dropWhile_append_of_pos f.before_ok, hct, List.cons_append,
    List.cons_append, List.dropWhile_cons_of_neg (by rw [hc]; exact Bool.false_ne_true)]

/-- A field that goes on to the comma, or to the end. -/
theorem findChar_append {tok more : List UInt8} (htok : ∀ c ∈ tok, passes 0x2C c = true)
    (hmore : ∀ c ∈ more.head?, passes 0x2C c = false) : findChar (tok ++ more) 0x2C = (tok, more) := by
  rw [findChar, List.takeWhile_append_of_pos htok, List.dropWhile_append_of_pos htok]
  cases more with
  | nil => simp
  | cons c more =>
    have hc : ¬passes 0x2C c = true := by
      rw [hmore c rfl]
      exact Bool.false_ne_true
    rw [List.takeWhile_cons_of_neg hc, List.dropWhile_cons_of_neg hc, List.append_nil]

theorem Field.plain_passes {f : Field} (h : f.plain = true) : ∀ c ∈ f.spell, passes 0x2C c = true := by
  cases f with
  | bare w => exact fun c hc => (w.ok c hc).2
  | quoted q =>
    have hq : q.chars ≠ [] ∧ q.chars.all (passes 0x2C) = true := of_decide_eq_true h
    intro c hc
    rcases List.mem_cons.mp hc with rfl | hc
    · decide
    · rcases List.mem_append.mp hc with hc | hc
      · exact List.all_eq_true.mp hq.2 c hc
      · rw [List.mem_singleton.mp hc]
        decide

/-- Blanks behind a word are trimmed. -/
theorem stripTrailingSpaces_append {s t : List UInt8} (ht : ∀ c ∈ t, isspace c = true) :
    stripTrailingSpaces (s ++ t) = stripTrailingSpaces s := by
  rw [stripTrailingSpaces, stripTrailingSpaces, List.rdropWhile, List.rdropWhile, List.reverse_append,
    List.dropWhile_append_of_pos fun c hc => ht c (List.mem_reverse.mp hc)]

theorem cstr_padded {s : List UInt8} (hs : 0 ∉ s) {n : ℕ} (hn : s.length < n) :
    cstr (padded s n) = s := by
  obtain ⟨k, hk⟩ := Nat.exists_eq_add_of_lt hn
  have hall : ∀ c ∈ s, decide (c ≠ 0) = true := by
    intro c hc
    exact decide_eq_true fun h0 => hs (h0 ▸ hc)
  rw [padded, cstr, List.takeWhile_append_of_pos hall, hk,
    show s.length + k + 1 - s.length = k + 1 by omega, List.replicate_succ,
    List.takeWhile_cons_of_neg (by simp), List.append_nil]

/-- The last quote is the one behind the text. -/
theorem findQuote_append {s t : List UInt8} (ht : ∀ c ∈ t, isspace c = true) :
    findQuote (s ++ 0x22 :: t) = s.length + 1 := by
  have hdrop : (s ++ 0x22 :: t).rdropWhile (· ≠ 0x22) = s ++ [0x22] := by
    have hrev : ∀ c ∈ t.reverse, decide (c ≠ 0x22) = true := fun c hc =>
      decide_eq_true (isspace_ne_quote (ht c (List.mem_reverse.mp hc)))
    rw [List.rdropWhile, List.reverse_append, List.reverse_cons, List.append_assoc,
      List.dropWhile_append_of_pos hrev, List.singleton_append, List.dropWhile_cons_of_neg (by simp),
      List.reverse_cons, List.reverse_reverse]
  rw [findQuote, hdrop, List.length_append, List.length_singleton]

/-- What is stored for a plain field is its text. -/
theorem storedText_plain {f : Spaced} (h : f.field.plain = true) (more : List UInt8) :
    ∃ bs, storedText (f.field.spell ++ f.after) more = some (some bs) ∧ cstr bs = f.field.text := by
  have hne : f.field.spell ++ f.after ≠ [] := by
    obtain ⟨c, t, hct, -⟩ := f.field.head_spell
    rw [hct]
    exact List.cons_ne_nil _ _
  rw [storedText, if_neg hne]
  cases hf : f.field with
  | bare w =>
    have hhead : (w.chars ++ f.after).head? ≠ some 0x22 := by
      obtain ⟨c, t, hct⟩ := List.exists_cons_of_ne_nil w.ne_nil
      rw [hct]
      exact fun heq => (w.head c (by rw [hct]; rfl)).2 (Option.some.inj heq)
    have hzero : 0 ∉ w.chars := fun h0 => (w.ok 0 h0).1 rfl
    refine ⟨padded w.chars ((w.chars ++ f.after).length + 1), ?_, cstr_padded hzero ?_⟩
    · rw [Field.spell, entryText, if_neg hhead, stripTrailingSpaces_append f.after_ok, w.last]
      rfl
    · rw [List.length_append]
      omega
  | quoted q =>
    rw [hf] at h
    have hq : q.chars ≠ [] ∧ q.chars.all (passes 0x2C) = true := of_decide_eq_true h
    have hlen : q.chars.length ≠ 0 := fun h0 => hq.1 (List.length_eq_zero_iff.mp h0)
    have hzero : 0 ∉ q.chars := fun h0 => (q.ok 0 h0).1 rfl
    refine ⟨padded q.chars (q.chars.length + 1), ?_, cstr_padded hzero (Nat.lt_succ_self _)⟩
    have htail : (0x22 :: (q.chars ++ [0x22]) ++ f.after).tail = q.chars ++ 0x22 :: f.after := by simp
    rw [Field.spell, entryText, if_pos (by rfl), htail, findQuote_append f.after_ok,
      if_neg (Nat.succ_ne_zero _), if_neg (by simpa using hlen), Nat.add_sub_cancel, List.append_assoc]
    have htake : (q.chars ++ (0x22 :: f.after ++ more)).take q.chars.length = q.chars :=
      List.take_left' rfl
    exact congrArg (fun s => some (some (padded s (q.chars.length + 1)))) htake

/-- A quoted field that is not plain is cut short, or gets another text. -/
theorem storedText_not_plain {f : Spaced} (h : f.field.plain = false) {more : List UInt8}
    (hmore : ∀ c ∈ more.head?, passes 0x2C c = false) :
    let entry := findChar (f.field.spell ++ f.after ++ more) 0x2C
    closed entry.1 = false ∨
      ∃ bs, storedText entry.1 entry.2 = some (some bs) ∧ cstr bs ≠ f.field.text := by
  cases hf : f.field with
  | bare w =>
    rw [hf] at h
    exact absurd h.symm Bool.false_ne_true
  | quoted q =>
    rw [hf, Field.plain, decide_eq_false_iff_not, List.all_eq_true, not_and_or, not_not] at h
    have hspell : (Field.quoted q).spell ++ f.after ++ more =
        0x22 :: (q.chars ++ (0x22 :: f.after ++ more)) := by simp [Field.spell]
    rcases h with hnil | hstop
    · have hpass : ∀ c ∈ (Field.quoted q).spell ++ f.after, passes 0x2C c = true := by
        intro c hc
        rw [Field.spell, hnil] at hc
        rcases List.mem_append.mp hc with hc | hc
        · have hquote : c = 0x22 := by simpa using hc
          rw [hquote]
          decide
        · exact isspace_passes (f.after_ok c hc)
      rw [findChar_append hpass hmore]
      have htok : (Field.quoted q).spell ++ f.after = 0x22 :: 0x22 :: f.after := by
        rw [Field.spell, hnil]
        rfl
      have hone : findQuote (0x22 :: f.after) = 1 := findQuote_append (s := []) f.after_ok
      refine Or.inr ⟨padded ((0x22 :: f.after ++ more).take (f.after.length + 2)) (f.after.length + 3),
        ?_, ?_⟩
      · rw [htok, storedText, if_neg (List.cons_ne_nil _ _), entryText, if_pos (by rfl), List.tail_cons,
          hone]
        rfl
      · rw [Field.text, hnil, List.cons_append, List.take_succ_cons, padded, List.cons_append, cstr,
          List.takeWhile_cons_of_pos (by decide)]
        exact List.cons_ne_nil _ _
    · push Not at hstop
      obtain ⟨c, hc, hpass⟩ := hstop
      have hshort : (q.chars.takeWhile (passes 0x2C)).length ≠ q.chars.length := by
        intro heq
        have hall := (List.takeWhile_prefix (passes 0x2C)).eq_of_length heq
        exact hpass (List.takeWhile_eq_self_iff.mp hall c hc)
      have hfirst : (findChar ((Field.quoted q).spell ++ f.after ++ more) 0x2C).1 =
          0x22 :: q.chars.takeWhile (passes 0x2C) := by
        rw [hspell, findChar, List.takeWhile_cons_of_pos (by decide), List.takeWhile_append,
          if_neg hshort]
      refine Or.inl ?_
      rw [hfirst, closed, decide_eq_false_iff_not]
      rintro (hhead | hmem)
      · exact hhead rfl
      · exact (q.ok 0x22 ((List.takeWhile_prefix _).subset hmem)).2 rfl

/-! ### The fields of a list -/

/-- The texts of the fields that there is room for. -/
def texts (n : ℕ) (fs : List Spaced) : List (Option (List UInt8)) :=
  (fs.take n).map fun f => some f.field.text

/-- What follows a field. -/
theorem head?_more (fs : List Spaced) :
    ∀ c ∈ (if fs.isEmpty then [] else 0x2C :: spell fs).head?, passes 0x2C c = false := by
  cases fs with
  | nil => simp
  | cons f fs =>
    intro c hc
    rw [← Option.some.inj hc]
    decide

/-- The texts of the fields are stored exactly when these fields are plain. -/
theorem storedTexts_spell (low : List UInt8) : ∀ (n : ℕ) {fs : List Spaced}, fs ≠ [] →
    ((splits n (spell fs) = true ∧ ∃ ts, storedTexts low n (spell fs) = some ts ∧
      ts.map (Option.map cstr) = texts n fs) ↔ n ≠ 0 ∧ ∀ f ∈ fs.take n, f.field.plain = true)
  | 0, _, _ => by simp [splits]
  | n + 1, [], h => absurd rfl h
  | n + 1, f :: fs, _ => by
    have hne : spell (f :: fs) ≠ [] := by
      obtain ⟨c, t, hct, -⟩ := f.field.head_spell
      rw [spell, hct]
      simp
    have hmore := head?_more fs
    have hdrop : (spell (f :: fs)).dropWhile isspace =
        f.field.spell ++ f.after ++ if fs.isEmpty then [] else 0x2C :: spell fs :=
      dropWhile_spaced f _
    have htexts : texts (n + 1) (f :: fs) = some f.field.text :: texts n fs := rfl
    generalize spell (f :: fs) = s at hne hdrop ⊢
    rw [splits, storedTexts, findEntry_eq low hne, hdrop, htexts, List.take_succ_cons]
    simp only [List.forall_mem_cons]
    cases hplain : f.field.plain with
    | true =>
      obtain ⟨bs, hbs, htext⟩ := storedText_plain hplain
        (if fs.isEmpty then [] else 0x2C :: spell fs)
      have hfind : findChar (f.field.spell ++ f.after ++ if fs.isEmpty then [] else 0x2C :: spell fs)
          0x2C = (f.field.spell ++ f.after, if fs.isEmpty then [] else 0x2C :: spell fs) := by
        refine findChar_append (fun c hc => ?_) hmore
        exact (List.mem_append.mp hc).elim (f.field.plain_passes hplain c)
          fun hc => isspace_passes (f.after_ok c hc)
      have hclosed : closed (f.field.spell ++ f.after) = true :=
        (storedText_isSome_iff _ _).mp (by rw [hbs]; rfl)
      rw [hfind, hbs, hclosed]
      cases fs with
      | nil => simp [hne, htext, texts]
      | cons g gs =>
        rcases Nat.eq_zero_or_pos n with rfl | hn
        · simp [hne, htext, texts, storedTexts]
        · have ih := @storedTexts_spell low n (g :: gs) (List.cons_ne_nil _ _)
          have hn0 : n ≠ 0 := Nat.pos_iff_ne_zero.mp hn
          simp only [hn0, ne_eq, not_false_eq_true, true_and] at ih
          simp [hne, hn0, htext, ← ih]
    | false =>
      constructor
      · rintro ⟨hsplits, ts, hts, hmap⟩
        simp only [Bool.and_eq_true] at hsplits
        generalize (if fs.isEmpty then [] else 0x2C :: spell fs) = more at hmore hsplits hts
        rcases storedText_not_plain hplain hmore with hopen | ⟨bs, hbs, htext⟩
        · exact absurd (hsplits.1.2.symm.trans hopen) (by decide)
        · rw [hbs, Option.bind_some] at hts
          split at hts
          · obtain ⟨ts', -, rfl⟩ := Option.map_eq_some_iff.mp hts
            exact absurd (Option.some.inj (List.cons.inj hmap).1) htext
          · rw [← Option.some.inj hts] at hmap
            exact absurd (Option.some.inj (List.cons.inj hmap).1) htext
      · rintro ⟨-, hfalse, -⟩
        exact absurd hfalse Bool.false_ne_true

/-! ### `ParseList` -/

/-- The text of an entry, as it is read from the buffer. -/
def readEntry (bytes : List UInt8) (e : ListEntry) : Option (List UInt8) :=
  e.strval.map fun p => cstr (bytes.drop p)

theorem map_layout {g : Option (ℕ × List UInt8) → Option (List UInt8)} (hnone : g none = none) :
    ∀ (ts : List (Option (List UInt8))) (o : ℕ),
      (∀ p bs, some (p, bs) ∈ layout o ts → g (some (p, bs)) = some (cstr bs)) →
      (layout o ts).map g = ts.map (Option.map cstr)
  | [], _, _ => rfl
  | none :: ts, o, h => by
    rw [layout, List.map_cons, List.map_cons, hnone,
      map_layout hnone ts o fun p bs hp => h p bs (List.mem_cons_of_mem _ hp)]
    rfl
  | some bs :: ts, o, h => by
    rw [layout, List.map_cons, List.map_cons, h o bs List.mem_cons_self,
      map_layout hnone ts _ fun p bs hp => h p bs (List.mem_cons_of_mem _ hp)]
    rfl

/-- The texts that are stored are read back from the buffer. -/
theorem map_readEntry {b : ValueBuffer} {ts : List (Option (List UInt8))}
    (hlen : (laid ts).length ≤ maxLineLen) (hzero : ∀ bs, some bs ∈ ts → 0 ∈ bs) :
    (listEntries 0 ts).map (readEntry (splice b.bytes 0 (laid ts))) = ts.map (Option.map cstr) := by
  rw [listEntries, List.map_map]
  refine map_layout rfl ts 0 fun p bs hp => ?_
  have hread := (read_iff_kept b.length_eq hlen
    (fun l (hl : l ∈ ([] : List (List UInt8))) => absurd hl List.not_mem_nil)
    hp (hzero bs (mem_layout hp).1)).mpr fun i _ a ha => absurd ha (by simp [Overlay.lastAt])
  exact congrArg some hread

/-- What `ParseList` makes of a value with an empty buffer. -/
theorem parseList_entries (s : ValueString) (n : ℕ) (b : ValueBuffer) (es : List ListEntry)
    (b' : Values) :
    InPlace.parseList (s.chars ++ [0]) n 0 (raw b.freeList) = some (es, b') ↔
      splits n s.chars = true ∧ ∃ ts, storedTexts [] n s.chars = some ts ∧ es = listEntries 0 ts ∧
        b' = ⟨splice b.bytes 0 (laid ts), (laid ts).length⟩ := by
  rw [InPlace.parseList_eq [] n b.freeList s.at]
  by_cases hsplits : splits n s.chars = true
  · obtain ⟨ts, hts⟩ := Option.isSome_iff_exists.mp (storedTexts_isSome [] hsplits)
    obtain ⟨b'', hb'', hbytes⟩ := store_laid [] s b hsplits hts
    have hoffset : b''.offset = (laid ts).length :=
      (ValueBuffer.store_offset hb'').trans (Nat.zero_add _)
    rw [if_pos hsplits, hts, Option.bind_some, hb'', Option.map_some]
    constructor
    · intro heq
      obtain ⟨rfl, rfl⟩ := Prod.mk.inj (Option.some.inj heq)
      exact ⟨hsplits, ts, rfl, rfl, by rw [raw, hbytes, hoffset]⟩
    · rintro ⟨-, ts', hts', rfl, rfl⟩
      obtain rfl := Option.some.inj hts'
      rw [raw, hbytes, hoffset]
      rfl
  · rw [if_neg hsplits]
    exact ⟨fun h => absurd h (Option.some_ne_none _).symm, fun h => absurd h.1 hsplits⟩

/-- A value that is made of fields. -/
structure FieldList where
  fields : List Spaced
  ne_nil : fields ≠ []
  value : ValueString
  spelled : value.chars = spell fields

/-- The entries are the fields, as many as there is room for. -/
def SplitInto (fs : FieldList) (maxlen : UInt16) (b : ValueBuffer) : Prop :=
  ∃ es b', InPlace.parseList (fs.value.chars ++ [0]) maxlen.toNat 0 (raw b.freeList) = some (es, b') ∧
    es.map (readEntry b'.bytes) = texts maxlen.toNat fs.fields

/-- `ParseList` splits a value into its fields exactly when there is room for one, and none of those it
    has room for is an empty string in quotes, or one with a comma or the start of a comment in it. -/
theorem splitInto_iff (fs : FieldList) (maxlen : UInt16) (b : ValueBuffer) :
    SplitInto fs maxlen b ↔
      maxlen.toNat ≠ 0 ∧ ∀ f ∈ fs.fields.take maxlen.toNat, f.field.plain = true := by
  rw [← storedTexts_spell [] maxlen.toNat fs.ne_nil, SplitInto, ← fs.spelled]
  have hread : ∀ ts, splits maxlen.toNat fs.value.chars = true →
      storedTexts [] maxlen.toNat fs.value.chars = some ts →
      (listEntries 0 ts).map (readEntry (splice b.bytes 0 (laid ts))) = ts.map (Option.map cstr) := by
    intro ts hsplits hts
    have hlen := length_laid [] hsplits hts
    have hshort := fs.value.short
    exact map_readEntry (by omega) (zero_mem_storedTexts [] hts)
  constructor
  · rintro ⟨es, b', hparse, htexts⟩
    obtain ⟨hsplits, ts, hts, rfl, rfl⟩ := (parseList_entries ..).mp hparse
    exact ⟨hsplits, ts, hts, (hread ts hsplits hts).symm.trans htexts⟩
  · rintro ⟨hsplits, ts, hts, htexts⟩
    exact ⟨_, _, (parseList_entries ..).mpr ⟨hsplits, ts, hts, rfl, rfl⟩,
      (hread ts hsplits hts).trans htexts⟩

theorem blanks_nil : ∀ c ∈ ([] : List UInt8), isspace c = true := fun _ hc => absurd hc List.not_mem_nil

/-- `"a,b"` -/
def quotedComma : FieldList where
  fields := [⟨[], .quoted ⟨[0x61, 0x2C, 0x62], by decide +kernel⟩, [], blanks_nil, blanks_nil⟩]
  ne_nil := List.cons_ne_nil _ _
  value := ⟨[0x22, 0x61, 0x2C, 0x62, 0x22], by decide +kernel, by decide +kernel⟩
  spelled := rfl

/-- The comma ends the field, and the quote is not closed. -/
theorem quotedComma_split :
    ¬∀ (fs : FieldList) (maxlen : UInt16) (b : ValueBuffer), SplitInto fs maxlen b := by
  intro h
  obtain ⟨es, b', hparse, -⟩ := h quotedComma 8 emptyBuffer
  have hnone : InPlace.parseList (quotedComma.value.chars ++ [0]) 8 0 (raw emptyBuffer.freeList) = none := by
    decide
  exact absurd (hnone.symm.trans hparse) (Option.some_ne_none _).symm

end Ini
