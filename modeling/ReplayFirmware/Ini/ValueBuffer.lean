import ReplayFirmware.Lib.Overlay
import ReplayFirmware.Ini.Parser

/-! `ParseList`: the entries of a value, each of them copied to a buffer that all values share.

    An entry is a pointer into the buffer, as an index, or a null pointer when it is empty. The buffer is
    laid out anew from its front when a line begins. Behind the last comma, and in an empty value, the
    entry is looked for at address 0: what can be read there is a parameter. -/

namespace Ini
open Splice Overlay

variable (low : List UInt8)

/-! ### The buffer -/

/-- `s_ValueBuffer` and `s_CurrentValueOffset` -/
@[ext]
structure ValueBuffer where
  bytes : List UInt8
  offset : ℕ
  length_eq : bytes.length = maxLineLen
  offset_le : offset ≤ maxLineLen

/-- `FreeList` -/
def ValueBuffer.freeList (b : ValueBuffer) : ValueBuffer :=
  { b with offset := 0, offset_le := Nat.zero_le _ }

/-- A string and its NUL are written behind the last one. There is no outcome when they do not fit: it
    is written beyond the buffer, where the assertions are compiled out. -/
def ValueBuffer.store (b : ValueBuffer) (bs : List UInt8) : Option ValueBuffer :=
  if h : b.offset + bs.length ≤ maxLineLen then
    some ⟨splice b.bytes b.offset bs, b.offset + bs.length,
      (length_splice_of_le (b.length_eq.symm ▸ h)).trans b.length_eq, h⟩
  else none

/-! ### The entries -/

/-- A string in `n` characters, with NULs behind its end. -/
def padded (s : List UInt8) (n : ℕ) : List UInt8 := s ++ List.replicate (n - s.length) 0

/-- `FindCharr`, as the number of characters up to the last quote. -/
def findQuote (s : List UInt8) : ℕ := (s.rdropWhile (· ≠ 0x22)).length

/-- What is stored for an entry that is not empty; `after` is what comes behind it. The length of a text
    in quotes is that of a null pointer less its start when there is no end quote, and never fits. When
    the end quote is the first character, the length is that of the entry, from this quote on. -/
def entryText (tok after : List UInt8) : Option (List UInt8) :=
  if tok.head? = some 0x22 then
    if findQuote tok.tail = 0 then none
    else
      let len := if findQuote tok.tail = 1 then tok.length else findQuote tok.tail - 1
      some (padded ((tok.tail ++ after).take len) (len + 1))
  else some (padded (stripTrailingSpaces tok) (tok.length + 1))

def storeEntry (tok after : List UInt8) (b : ValueBuffer) : Option (Option ℕ × ValueBuffer) :=
  if tok = [] then some (none, b)
  else (entryText tok after).bind fun bs => (b.store bs).map fun b' => (some b.offset, b')

/-- The entry that is looked for from `s` on, and what comes behind it. -/
def findEntry (s : List UInt8) : List UInt8 × List UInt8 :=
  findChar ((findFirstChar s).getD (cstr low)) 0x2C

/-- `ParseList`, with room for `n` entries. -/
def parseList : ℕ → List UInt8 → ValueBuffer → Option (List (Option ℕ) × ValueBuffer)
  | 0, _, b => some ([], b)
  | n + 1, s, b =>
    (storeEntry (findEntry low s).1 (findEntry low s).2 b).bind fun (p, b) =>
      if (findEntry low s).2.head? = some 0x2C then
        (parseList n (findEntry low s).2.tail b).map fun (ps, b) => (p :: ps, b)
      else some ([p], b)

/-! ### The layout -/

/-- What is stored for an entry, if anything is. -/
def storedText (tok after : List UInt8) : Option (Option (List UInt8)) :=
  if tok = [] then some none else (entryText tok after).map some

/-- What is stored for the entries of a list. -/
def storedTexts : ℕ → List UInt8 → Option (List (Option (List UInt8)))
  | 0, _ => some []
  | n + 1, s =>
    (storedText (findEntry low s).1 (findEntry low s).2).bind fun t =>
      if (findEntry low s).2.head? = some 0x2C then
        (storedTexts n (findEntry low s).2.tail).map fun ts => t :: ts
      else some [t]

/-- The texts one behind the other. -/
def laid (ts : List (Option (List UInt8))) : List UInt8 := (ts.map fun t => t.getD []).flatten

/-- Each text with its index. -/
def layout : ℕ → List (Option (List UInt8)) → List (Option (ℕ × List UInt8))
  | _, [] => []
  | o, none :: ts => none :: layout o ts
  | o, some bs :: ts => some (o, bs) :: layout (o + bs.length) ts

/-- The pointers to the texts. -/
def places (o : ℕ) (ts : List (Option (List UInt8))) : List (Option ℕ) :=
  (layout o ts).map (Option.map Prod.fst)

theorem ValueBuffer.store_nil (b : ValueBuffer) : b.store [] = some b := by
  rw [store, dif_pos (show b.offset + ([] : List UInt8).length ≤ maxLineLen from b.offset_le)]
  exact congrArg some (ValueBuffer.ext (splice_nil ..) rfl)

/-- Two texts that are stored one behind the other are one. -/
theorem ValueBuffer.store_append (b : ValueBuffer) (as bs : List UInt8) :
    (b.store as).bind (·.store bs) = b.store (as ++ bs) := by
  by_cases has : b.offset + as.length ≤ maxLineLen
  · rw [store, dif_pos has, Option.bind_some, store, store]
    simp only [List.length_append, Nat.add_assoc]
    split
    · exact congrArg some (ValueBuffer.ext
        (splice_splice as bs (b.length_eq.symm ▸ b.offset_le)) rfl)
    · rfl
  · rw [store, dif_neg has, store, dif_neg (by rw [List.length_append]; omega)]
    rfl

theorem ValueBuffer.store_offset {b b' : ValueBuffer} {bs : List UInt8} (h : b.store bs = some b') :
    b'.offset = b.offset + bs.length := by
  rw [store] at h
  split at h
  · rw [← Option.some.inj h]
  · cases h

theorem laid_cons (t : Option (List UInt8)) (ts : List (Option (List UInt8))) :
    laid (t :: ts) = t.getD [] ++ laid ts := by
  rw [laid, List.map_cons, List.flatten_cons]
  rfl

theorem storeEntry_eq (tok after : List UInt8) (b : ValueBuffer) :
    storeEntry tok after b = (storedText tok after).bind fun t =>
      (b.store (t.getD [])).map fun b' => (t.map fun _ => b.offset, b') := by
  rw [storeEntry, storedText]
  split
  · rw [Option.bind_some, Option.getD_none, b.store_nil]
    rfl
  · rw [Option.bind_map]
    rfl

/-- The texts are stored one behind the other, in the order of the entries. -/
theorem parseList_eq : ∀ (n : ℕ) (s : List UInt8) (b : ValueBuffer),
    parseList low n s b = (storedTexts low n s).bind fun ts =>
      (b.store (laid ts)).map fun b' => (places b.offset ts, b')
  | 0, _, b => by
    rw [parseList, storedTexts, Option.bind_some, show laid [] = [] from rfl, b.store_nil]
    rfl
  | n + 1, s, b => by
    rw [parseList, storedTexts, storeEntry_eq]
    cases storedText (findEntry low s).1 (findEntry low s).2 with
    | none => rfl
    | some t =>
      have hcons := laid_cons t
      have hplaces : ∀ b' ts, b.store (t.getD []) = some b' →
          places b.offset (t :: ts) = (t.map fun _ => b.offset) :: places b'.offset ts := by
        intro b' ts hb'
        rw [ValueBuffer.store_offset hb']
        cases t <;> rfl
      simp only [Option.bind_some]
      split
      · cases hb' : b.store (t.getD []) with
        | none =>
          cases storedTexts low n (findEntry low s).2.tail with
          | none => rfl
          | some ts =>
            simp only [Option.map_some, Option.bind_some, hcons, ← ValueBuffer.store_append, hb']
            rfl
        | some b' =>
          simp only [Option.map_some, Option.bind_some]
          rw [parseList_eq n]
          cases storedTexts low n (findEntry low s).2.tail with
          | none => rfl
          | some ts =>
            simp only [Option.map_some, Option.bind_some, hcons, ← ValueBuffer.store_append, hb',
              hplaces b' ts hb', Option.map_map]
            rfl
      · have hone : laid [t] = t.getD [] := by rw [hcons, show laid [] = [] from rfl, List.append_nil]
        simp only [Option.bind_some, hone]
        cases hb' : b.store (t.getD []) with
        | none => rfl
        | some b' => exact congrArg (fun ps => some (ps, b')) (hplaces b' [] hb').symm

/-! ### What is read back -/

/-- Where a text is among the others. -/
theorem mem_layout : ∀ {ts : List (Option (List UInt8))} {o p : ℕ} {bs : List UInt8},
    some (p, bs) ∈ layout o ts →
      some bs ∈ ts ∧ ∃ front back, laid ts = front ++ bs ++ back ∧ p = o + front.length
  | [], _, _, _, h => absurd h List.not_mem_nil
  | none :: ts, o, p, bs, h => by
    rw [layout, List.mem_cons] at h
    obtain ⟨hmem, front, back, hlaid, hp⟩ := mem_layout (h.resolve_left nofun)
    exact ⟨List.mem_cons_of_mem _ hmem, front, back, hlaid, hp⟩
  | some as :: ts, o, p, bs, h => by
    have hcons : laid (some as :: ts) = as ++ laid ts := rfl
    rw [layout, List.mem_cons] at h
    rcases h with heq | h
    · obtain ⟨rfl, rfl⟩ := Prod.mk.inj (Option.some.inj heq)
      exact ⟨List.mem_cons_self, [], laid ts, by rw [hcons, List.nil_append], rfl⟩
    · obtain ⟨hmem, front, back, hlaid, hp⟩ := mem_layout h
      refine ⟨List.mem_cons_of_mem _ hmem, as ++ front, back, ?_, ?_⟩
      · rw [hcons, hlaid]
        simp only [List.append_assoc]
      · rw [hp, List.length_append, Nat.add_assoc]

theorem zero_mem_padded {s : List UInt8} {n : ℕ} (h : s.length < n) : 0 ∈ padded s n :=
  List.mem_append_right _ (List.mem_replicate.mpr ⟨by omega, rfl⟩)

/-- A text is stored with its NUL. -/
theorem zero_mem_entryText {tok after bs : List UInt8} (h : entryText tok after = some bs) :
    0 ∈ bs := by
  rw [entryText] at h
  split at h
  · split at h
    · cases h
    · rw [← Option.some.inj h]
      refine zero_mem_padded ?_
      rw [List.length_take]
      omega
  · rw [← Option.some.inj h]
    exact zero_mem_padded (Nat.lt_succ_of_le (List.rdropWhile_prefix Libc.isspace tok).length_le)

theorem zero_mem_storedText {tok after bs : List UInt8}
    (h : storedText tok after = some (some bs)) : 0 ∈ bs := by
  rw [storedText] at h
  split at h
  · cases h
  · obtain ⟨bs', hbs', heq⟩ := Option.map_eq_some_iff.mp h
    exact Option.some.inj heq ▸ zero_mem_entryText hbs'

theorem zero_mem_storedTexts : ∀ {n : ℕ} {s : List UInt8} {ts : List (Option (List UInt8))},
    storedTexts low n s = some ts → ∀ bs, some bs ∈ ts → 0 ∈ bs
  | 0, _, ts, h => by
    rw [← Option.some.inj h]
    exact fun _ hbs => absurd hbs List.not_mem_nil
  | n + 1, s, ts, h => by
    rw [storedTexts] at h
    obtain ⟨t, ht, h⟩ := Option.bind_eq_some_iff.mp h
    have hhead : ∀ bs, some bs = t → 0 ∈ bs := fun bs hbs => zero_mem_storedText (hbs ▸ ht)
    split at h
    · obtain ⟨ts', hts', rfl⟩ := Option.map_eq_some_iff.mp h
      intro bs hbs
      exact (List.mem_cons.mp hbs).elim (hhead bs) (zero_mem_storedTexts hts' bs)
    · rw [← Option.some.inj h]
      exact fun bs hbs => hhead bs (List.mem_singleton.mp hbs)

/-- The string of a text, with its NUL, is what the text begins with. -/
theorem cstr_stored {bs : List UInt8} (h : 0 ∈ bs) : (cstr bs).length < bs.length ∧
    ∀ i < (cstr bs).length + 1, bs[i]? = (cstr bs ++ [0])[i]? := by
  have hlt : (cstr bs).length < bs.length := by
    refine lt_of_le_of_ne (List.takeWhile_prefix _).length_le fun heq => ?_
    have hall := (List.takeWhile_prefix _).eq_of_length heq
    have hzero : 0 ∈ cstr bs := by
      rw [cstr, hall]
      exact h
    exact notMem_textOf bs hzero
  exact ⟨hlt, (textOf_eq_iff (notMem_textOf bs) hlt).mp rfl⟩

/-- What the later lists lay over a place leaves its text, up to the NUL, as it is. -/
def Kept (later : List (List UInt8)) (p : ℕ) (s : List UInt8) : Prop :=
  ∀ i < s.length + 1, ∀ a ∈ lastAt later (p + i), (s ++ [0])[i]? = some a

/-- A text is read through its pointer, behind later lists, exactly when they leave it as it is. -/
theorem read_iff_kept {d : List UInt8} {ts : List (Option (List UInt8))} {later : List (List UInt8)}
    {p : ℕ} {bs : List UInt8} (hd : d.length = maxLineLen) (hts : (laid ts).length ≤ maxLineLen)
    (hlater : ∀ l ∈ later, l.length ≤ maxLineLen) (hbs : some (p, bs) ∈ layout 0 ts)
    (hzero : 0 ∈ bs) :
    cstr ((overlays (splice d 0 (laid ts)) later).drop p) = cstr bs ↔ Kept later p (cstr bs) := by
  obtain ⟨-, front, back, hlaid, hp⟩ := mem_layout hbs
  rw [Nat.zero_add] at hp
  obtain ⟨hlt, htext⟩ := cstr_stored hzero
  have hlen : (splice d 0 (laid ts)).length = maxLineLen := by
    rw [length_splice_of_le (by omega), hd]
  have hroom : p + bs.length ≤ (laid ts).length := by
    rw [hlaid, hp]
    simp only [List.length_append]
    omega
  refine textOf_overlays_iff (notMem_textOf bs) (by rw [hlen]; exact by omega)
    (fun l hl => hlen ▸ hlater l hl) fun i hi => ?_
  have hget : (laid ts)[p + i]? = bs[i]? := by
    rw [hlaid, List.append_assoc, hp, List.getElem?_append_right (by omega),
      Nat.add_sub_cancel_left, List.getElem?_append_left (by omega)]
  have hsome : bs[i]?.isSome := by
    rw [List.getElem?_eq_getElem (by omega)]
    rfl
  rw [getElem?_splice_zero, hget, Option.or_of_isSome hsome]
  exact htext i hi

end Ini
