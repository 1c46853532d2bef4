import ReplayFirmware.Ini.InPlace
import ReplayFirmware.Ini.ValueBuffer
import ReplayFirmware.Libc.Stdlib

/-! `ParseList` as it works: on the string of the value and on the buffer of the values.

    There is no outcome when a null pointer is followed, when anything outside the string or the buffer
    is read or written, when an entry is written behind the end of the list, or when the length of an
    entry wraps. -/

namespace Ini.InPlace
open CStr Libc Splice

/-! ### The code -/

/-- `ini_list_t` -/
structure ListEntry where
  strval : Option ℕ
  intval : UInt32
deriving DecidableEq

/-- `s_ValueBuffer` and `s_CurrentValueOffset` -/
structure Values where
  bytes : List UInt8
  offset : ℕ
deriving DecidableEq

/-- `FindCharr` -/
def findCharr (v : List UInt8) (e min : ℕ) (c : UInt8) : Option (Option ℕ) :=
  (backward (fun x => x ≠ 0 ∧ x ≠ c) v min (e - 1)).bind fun p =>
    if p = min then v[p]?.map fun x => if x ≠ c then none else some p else some (some p)

/-- `send - start` -/
def distance (send : Option ℕ) (start : ℕ) : Option ℕ :=
  send.bind fun send => if start ≤ send then some (send - start) else none

/-- What `strncpy` writes to `len` characters. -/
def strncpy (v : List UInt8) : ℕ → ℕ → Option (List UInt8)
  | _, 0 => some []
  | start, len + 1 =>
    v[start]?.bind fun c =>
      if c = 0 then some (List.replicate (len + 1) 0) else (strncpy v (start + 1) len).map (c :: ·)

/-- The string and the NUL behind it are written to the buffer: where they are. -/
def Values.store (b : Values) (bs : List UInt8) : Option (ℕ × Values) :=
  if b.offset + bs.length ≤ b.bytes.length then
    some (b.offset, ⟨splice b.bytes b.offset bs, b.offset + bs.length⟩)
  else none

/-- The number of a string. -/
def number (s : List UInt8) : UInt32 :=
  match s with
  | 0x2A :: t => Stdlib.strtoul t 2
  | 0x2D :: t => Stdlib.strtol t 10
  | c :: _ => if isdigit c = true then Stdlib.strtoul s 0 else 0
  | [] => 0

/-- `send`: the last quote of the entry that ends at `«end»`; the string begins at `start`. -/
def endQuote (v : List UInt8) (start «end» : ℕ) : Option (Option ℕ) :=
  v[«end» - 1]?.bind fun c =>
    if c ≠ 0x22 then findCharr v «end» start 0x22 else some (some («end» - 1))

/-- A string in quotes; `start` is behind the first of them. -/
def quotedText (v : List UInt8) (start «end» : ℕ) : Option (List UInt8) :=
  (endQuote v start «end»).bind fun send =>
    (if send ≠ some start then distance send start else some («end» - (start - 1))).bind fun len =>
      (strncpy v start len).map (· ++ [0])

/-- An entry that is not empty. -/
def parseEntry (v : List UInt8) (start «end» : ℕ) (b : Values) : Option (ListEntry × Values) := do
  let (strval, b) ←
    if (← v[start]?) = 0x22 then b.store (← quotedText v (start + 1) «end»)
    else do
      let (strval, b) ← b.store ((← strncpy v start («end» - start)) ++ [0])
      let bytes ← stripTrailingSpaces b.bytes strval
      some (strval, { b with bytes := bytes })
  return (⟨some strval, number (← string b.bytes strval)⟩, b)

/-- An entry, which is cleared first. -/
def storeOne (v : List UInt8) (start «end» : ℕ) (b : Values) : Option (ListEntry × Values) :=
  if «end» - start ≠ 0 then parseEntry v start «end» b else some (⟨none, 0⟩, b)

/-- `ParseList`, from `«end»` on, with room for `n` entries. -/
def parseList (v : List UInt8) : ℕ → ℕ → Values → Option (List ListEntry × Values)
  | 0, _, _ => none
  | n + 1, «end», b => do
    let start ← (← findFirstChar v (some «end»))
    let «end» ← findChar v start 0x2C
    let (entry, b) ← storeOne v start «end» b
    if n = 0 then return ([entry], b)
    let c ← v[«end»]?
    if c = 0x3B ∨ c = 0x23 ∨ c = 0 then return ([entry], b)
    let (entries, b) ← parseList v n («end» + 1) b
    return (entry :: entries, b)

variable {v : List UInt8} {i : ℕ} {s : List UInt8}

/-! ### Quotes -/

theorem rdropWhile_cons (p : UInt8 → Bool) (c : UInt8) (s : List UInt8) : (c :: s).rdropWhile p =
    if s.rdropWhile p = [] ∧ p c = true then [] else c :: s.rdropWhile p := by
  induction s using List.reverseRecOn with
  | nil => by_cases hc : p c = true <;> simp [List.rdropWhile_singleton, hc]
  | append_singleton s d ih =>
    rw [← List.cons_append]
    by_cases hd : p d = true
    · rw [List.rdropWhile_concat_pos _ _ _ hd, List.rdropWhile_concat_pos _ _ _ hd, ih]
    · rw [List.rdropWhile_concat_neg _ _ _ hd, List.rdropWhile_concat_neg _ _ _ hd]
      simp

/-- A loop that goes back stops at NULs by itself. -/
theorem rdropWhile_nonzero (hs : 0 ∉ s) (p : UInt8 → Bool) :
    s.rdropWhile (fun c => c ≠ 0 ∧ p c) = s.rdropWhile p := by
  have hrev : (0 : UInt8) ∉ s.reverse := fun h0 => hs (List.mem_reverse.mp h0)
  rw [List.rdropWhile, List.rdropWhile]
  congr 1
  generalize s.reverse = t at hrev
  induction t with
  | nil => rfl
  | cons c t ih =>
    have hc : c ≠ 0 := fun h0 => hrev (h0 ▸ List.mem_cons_self)
    simp only [List.dropWhile_cons, hc, ne_eq, not_false_eq_true, true_and, Bool.decide_eq_true,
      ih fun h0 => hrev (List.mem_cons_of_mem c h0)]

/-- The last quote of what begins at `i`, if there is one. -/
theorem findCharr_eq {c : UInt8} {q t : List UInt8} (h : At v i (c :: q ++ t)) :
    findCharr v (i + (c :: q).length) i 0x22 =
      some (if findQuote (c :: q) = 0 then none else some (i + findQuote (c :: q) - 1)) := by
  have hget : ∀ k < q.length, v[i + 1 + k]? = q[k]? := fun k hk => by
    have htail : At v (i + 1) (q ++ t) := h.tail
    rw [htail.get k (by rw [List.length_append]; omega), List.append_assoc,
      List.getElem?_append_left hk]
  have hq : 0 ∉ q := fun h0 =>
    h.nonzero (List.mem_append_left t (List.mem_cons_of_mem c h0))
  rw [findCharr, List.length_cons, ← Nat.add_assoc, Nat.add_sub_cancel, backward_eq hget,
    Option.bind_some, findQuote, rdropWhile_cons]
  have hback : q.rdropWhile (fun x => x ≠ 0 ∧ x ≠ 0x22) = q.rdropWhile (· ≠ 0x22) := by
    rw [← rdropWhile_nonzero hq fun x => decide (x ≠ 0x22)]
    simp
  have hhead : v[i]? = some c := h.head
  rw [hback]
  by_cases hnil : q.rdropWhile (· ≠ 0x22) = []
  · rw [hnil, List.length_nil, Nat.add_zero, if_pos rfl, hhead]
    by_cases hc : c = 0x22
    · simp [hc]
    · simp [hc]
  · have hne : ¬i + (q.rdropWhile (· ≠ 0x22)).length = i := fun heq =>
      hnil (List.length_eq_zero_iff.mp (by omega))
    have hcons : ¬(q.rdropWhile (· ≠ 0x22) = [] ∧ decide (c ≠ 0x22) = true) := fun h0 => hnil h0.1
    rw [if_neg hne, if_neg hcons, List.length_cons, if_neg (Nat.succ_ne_zero _)]
    rfl

/-- What is copied from a string, filled up with NULs. -/
theorem strncpy_eq : ∀ {s : List UInt8} {i len : ℕ}, At v i s →
    strncpy v i len = some (padded (s.take len) len)
  | s, i, 0, _ => by
    rw [List.take_zero]
    rfl
  | [], i, len + 1, h => by
    have hend : v[i]? = some 0 := h.end
    rw [strncpy, hend]
    rfl
  | c :: s, i, len + 1, h => by
    have hc : c ≠ 0 := fun h0 => h.nonzero (h0 ▸ List.mem_cons_self)
    rw [strncpy, h.head, Option.bind_some, if_neg hc, strncpy_eq h.tail, Option.map_some, padded,
      padded, List.take_succ_cons, List.length_cons, Nat.add_sub_add_right]
    rfl

theorem padded_concat {n : ℕ} (h : s.length ≤ n) : padded s n ++ [0] = padded s (n + 1) := by
  rw [padded, padded, List.append_assoc, ← List.replicate_succ', Nat.succ_sub h]

theorem endQuote_eq {q after : List UInt8} (h : At v i (0x22 :: q ++ after)) :
    endQuote v (i + 1) (i + (0x22 :: q).length) =
      some (if q = [] then some i else if findQuote q = 0 then none else some (i + findQuote q)) := by
  rw [endQuote, List.length_cons, ← Nat.add_assoc, Nat.add_sub_cancel]
  rcases List.eq_nil_or_concat q with rfl | ⟨q', d, rfl⟩
  · have hhead : v[i]? = some 0x22 := h.head
    simp [hhead]
  · rw [List.concat_eq_append] at *
    have htail : At v (i + 1) (q' ++ [d] ++ after) := h.tail
    have hget : v[i + (q' ++ [d]).length]? = some d := by
      have hd : At v (i + 1 + q'.length) (d :: after) :=
        CStr.At.suffix (by rw [List.append_assoc] at htail; exact htail)
      rw [List.length_append, List.length_singleton, ← Nat.add_assoc, Nat.add_right_comm]
      exact hd.head
    rw [hget, Option.bind_some, if_neg (List.append_ne_nil_of_right_ne_nil _ (List.cons_ne_nil _ _))]
    by_cases hd : d = 0x22
    · have hfq : findQuote (q' ++ [d]) = (q' ++ [d]).length := by
        rw [findQuote, List.rdropWhile_concat_neg _ _ _ (by simp [hd])]
      rw [if_neg (not_not.mpr hd), hfq, if_neg (by simp)]
    · obtain ⟨c, t, hct⟩ : ∃ c t, q' ++ [d] = c :: t := by
        cases q' with
        | nil => exact ⟨d, [], rfl⟩
        | cons c q' => exact ⟨c, q' ++ [d], rfl⟩
      rw [hct] at htail
      rw [if_pos hd, hct, Nat.add_right_comm, findCharr_eq htail, Nat.add_right_comm]
      congr 1

theorem length_padded {n : ℕ} (h : s.length ≤ n) : (padded s n).length = n := by
  rw [padded, List.length_append, List.length_replicate]
  exact Nat.add_sub_cancel' h

/-- A string in quotes: there is no outcome without an end quote. -/
theorem quotedText_eq {q after : List UInt8} (h : At v i (0x22 :: q ++ after)) :
    quotedText v (i + 1) (i + (0x22 :: q).length) = entryText (0x22 :: q) after := by
  rw [quotedText, endQuote_eq h, entryText, Option.bind_some, List.head?_cons, if_pos rfl,
    List.tail_cons, List.length_cons]
  have htail : At v (i + 1) (q ++ after) := h.tail
  by_cases hq : q = []
  · subst hq
    have hdist : distance (some i) (i + 1) = none := if_neg (by omega)
    rw [if_pos rfl, if_pos (by simp), hdist]
    rfl
  · rw [if_neg hq]
    by_cases hfq : findQuote q = 0
    · rw [if_pos hfq, if_pos hfq]
      rfl
    · have hlen : (if some (i + findQuote q) ≠ some (i + 1) then distance (some (i + findQuote q)) (i + 1)
          else some (i + (q.length + 1) - (i + 1 - 1))) =
          some (if findQuote q = 1 then q.length + 1 else findQuote q - 1) := by
        by_cases hone : findQuote q = 1
        · rw [hone, if_neg (by simp), if_pos rfl]
          congr 1
          omega
        · rw [if_pos (by simpa using hone), if_neg hone, distance, Option.bind_some, if_pos (by omega)]
          congr 1
          omega
      rw [if_neg hfq, if_neg hfq, hlen, Option.bind_some, strncpy_eq htail, Option.map_some,
        padded_concat (List.length_take_le _ _)]

/-! ### Entries -/

/-- The buffer of the values, without its bounds. -/
def raw (b : ValueBuffer) : Values := ⟨b.bytes, b.offset⟩

theorem raw_store (b : ValueBuffer) (bs : List UInt8) :
    (raw b).store bs = (b.store bs).map fun b' => (b.offset, raw b') := by
  rw [Values.store, ValueBuffer.store]
  simp only [raw, b.length_eq]
  split
  · rfl
  · rfl

/-- What is stored with a NUL is a string at its index. -/
theorem at_splice {d bs : List UInt8} {o : ℕ} (ho : o ≤ d.length) (hbs : 0 ∈ bs) :
    At (splice d o bs) o (cstr bs) := by
  have hat := at_takeWhile hbs
  have hlt := hat.lt
  rw [Nat.zero_add] at hlt
  refine ⟨hat.nonzero, fun k hk => ?_⟩
  have hget := hat.get k hk
  rw [Nat.zero_add] at hget
  rw [getElem?_splice_mid ho (lt_of_le_of_lt hk hlt), hget]
  rfl

/-- Trimming writes NULs over the blanks. -/
theorem strip_append : ∀ {s : List UInt8} (a t : List UInt8),
    strip (a ++ s ++ t) a.length (a.length + s.length) =
      some (a ++ padded (Ini.stripTrailingSpaces s) s.length ++ t) := by
  intro s
  induction s using List.reverseRecOn with
  | nil =>
    intro a t
    cases a with
    | nil => rfl
    | cons c a => exact if_neg (Nat.lt_irrefl _)
  | append_singleton s c ih =>
    intro a t
    have hget : (a ++ (s ++ [c]) ++ t)[a.length + s.length]? = some c := by simp
    rw [List.length_append, List.length_singleton, ← Nat.add_assoc, strip, if_pos (by omega), hget,
      Option.bind_some]
    have hset : (a ++ (s ++ [c]) ++ t).set (a.length + s.length) 0 = a ++ s ++ (0 :: t) := by
      simp
    by_cases hc : isspace c = true
    · have hle : (s.rdropWhile isspace).length ≤ s.length :=
        (List.rdropWhile_prefix isspace s).length_le
      rw [if_pos hc, hset, ih, Ini.stripTrailingSpaces, Ini.stripTrailingSpaces,
        List.rdropWhile_concat_pos _ _ _ hc, ← padded_concat hle]
      simp
    · rw [if_neg hc, Ini.stripTrailingSpaces, List.rdropWhile_concat_neg _ _ _ hc]
      simp [padded]

theorem cstr_concat (hs : 0 ∉ s) : cstr (s ++ [0]) = s := by
  have hall : ∀ c ∈ s, decide (c ≠ 0) = true := by
    intro c hc
    exact decide_eq_true fun h0 => hs (h0 ▸ hc)
  rw [cstr, List.takeWhile_append_of_pos hall]
  simp

/-- A word is stored, and trimmed in the buffer. -/
theorem strip_splice (b : ValueBuffer) (hs : 0 ∉ s) :
    stripTrailingSpaces (splice b.bytes b.offset (s ++ [0])) b.offset =
      some (splice b.bytes b.offset (padded (Ini.stripTrailingSpaces s) (s.length + 1))) := by
  have hle : b.offset ≤ b.bytes.length := b.length_eq ▸ b.offset_le
  have hat := at_splice hle (List.mem_append_right s (List.mem_singleton_self 0))
  rw [cstr_concat hs] at hat
  have hfront : (b.bytes.take b.offset).length = b.offset := by
    rw [List.length_take, Nat.min_eq_left hle]
  have hstrip := @strip_append s (b.bytes.take b.offset) (0 :: b.bytes.drop (b.offset + (s.length + 1)))
  rw [hfront] at hstrip
  rw [stripTrailingSpaces, hat.strlen, Option.bind_some, splice, List.length_append,
    List.length_singleton]
  have hleft : b.bytes.take b.offset ++ (s ++ [0]) ++ b.bytes.drop (b.offset + (s.length + 1)) =
      b.bytes.take b.offset ++ s ++ 0 :: b.bytes.drop (b.offset + (s.length + 1)) := by simp
  have hstripped : (Ini.stripTrailingSpaces s).length ≤ s.length :=
    (List.rdropWhile_prefix isspace s).length_le
  rw [hleft, hstrip, splice, ← padded_concat hstripped]
  rw [List.length_append, length_padded hstripped, List.length_singleton]
  simp

/-- An entry is stored as its text. -/
theorem parseEntry_eq {tok after : List UInt8} (h : At v i (tok ++ after)) (hne : tok ≠ [])
    (b : ValueBuffer) :
    parseEntry v i (i + tok.length) (raw b) = (entryText tok after).bind fun bs =>
      (b.store bs).map fun b' => (⟨some b.offset, number (cstr bs)⟩, raw b') := by
  obtain ⟨c, q, rfl⟩ := List.exists_cons_of_ne_nil hne
  have hle : b.offset ≤ b.bytes.length := b.length_eq ▸ b.offset_le
  have hstring : ∀ {bs : List UInt8} {b' : ValueBuffer}, b.store bs = some b' → 0 ∈ bs →
      string (raw b').bytes b.offset = some (cstr bs) := by
    intro bs b' hb' h0
    rw [ValueBuffer.store] at hb'
    split at hb'
    · rw [← Option.some.inj hb']
      exact (at_splice hle h0).string
    · cases hb'
  rw [parseEntry]
  simp only [Option.bind_eq_bind, h.head, Option.bind_some]
  by_cases hc : c = 0x22
  · subst hc
    rw [if_pos rfl, quotedText_eq h]
    cases htext : entryText (0x22 :: q) after with
    | none => rfl
    | some bs =>
      rw [Option.bind_some, Option.bind_some, raw_store]
      cases hb' : b.store bs with
      | none => rfl
      | some b' =>
        simp only [Option.map_some, Option.bind_some, hstring hb' (zero_mem_entryText htext)]
        rfl
  · have hs : 0 ∉ c :: q := fun h0 => h.nonzero (List.mem_append_left after h0)
    have hcopy : strncpy v i (i + (c :: q).length - i) = some (c :: q) := by
      rw [Nat.add_sub_cancel_left, strncpy_eq h, List.take_left, padded, Nat.sub_self,
        List.replicate_zero, List.append_nil]
    have htext : entryText (c :: q) after =
        some (padded (Ini.stripTrailingSpaces (c :: q)) ((c :: q).length + 1)) := by
      rw [entryText, if_neg (by simpa using hc)]
    have hlen : (padded (Ini.stripTrailingSpaces (c :: q)) ((c :: q).length + 1)).length =
        (c :: q ++ [0]).length := by
      have hle : (Ini.stripTrailingSpaces (c :: q)).length ≤ (c :: q).length :=
        (List.rdropWhile_prefix isspace (c :: q)).length_le
      rw [length_padded (Nat.le_succ_of_le hle), List.length_append, List.length_singleton]
    have hstored : ∀ entry : ListEntry, (b.store (padded (Ini.stripTrailingSpaces (c :: q))
        ((c :: q).length + 1))).map (fun b' => (entry, raw b')) =
        ((raw b).store (padded (Ini.stripTrailingSpaces (c :: q)) ((c :: q).length + 1))).map
          fun r => (entry, r.2) := by
      intro entry
      rw [raw_store, Option.map_map]
      rfl
    rw [if_neg hc, hcopy, htext, Option.bind_some, Option.bind_some, hstored, Values.store,
      Values.store, hlen]
    by_cases hfit : (raw b).offset + (c :: q ++ [0]).length ≤ (raw b).bytes.length
    · have hstrip := strip_splice b hs
      have hzero : 0 ∈ padded (Ini.stripTrailingSpaces (c :: q)) ((c :: q).length + 1) :=
        zero_mem_entryText htext
      rw [if_pos hfit, if_pos hfit, Option.bind_some]
      simp only [raw] at hstrip ⊢
      rw [hstrip, Option.bind_some, (at_splice hle hzero).string]
      rfl
    · rw [if_neg hfit, if_neg hfit]
      rfl

/-! ### The list -/

/-- What an entry with this text, at this place, is in the list. -/
def listEntry : Option (ℕ × List UInt8) → ListEntry
  | none => ⟨none, 0⟩
  | some (p, bs) => ⟨some p, number (cstr bs)⟩

/-- A quote at the front of an entry is not its last. -/
def closed (tok : List UInt8) : Bool := tok.head? ≠ some 0x22 ∨ 0x22 ∈ tok.tail

/-- There is an entry wherever one is looked for, with room for `n` of them, and quotes are closed. -/
def splits : ℕ → List UInt8 → Bool
  | 0, _ => false
  | n + 1, s =>
    let entry := Ini.findChar (s.dropWhile isspace) 0x2C
    s ≠ [] && closed entry.1 &&
      (n = 0 || entry.2.head? ≠ some 0x2C || splits n entry.2.tail)

theorem findQuote_eq_zero_iff (q : List UInt8) : findQuote q = 0 ↔ 0x22 ∉ q := by
  rw [findQuote, List.length_eq_zero_iff, List.rdropWhile_eq_nil_iff]
  constructor
  · intro h hq
    simpa using h 0x22 hq
  · intro h c hc
    exact decide_eq_true fun h0 => h (h0 ▸ hc)

/-- A text is stored for an entry exactly when its quotes are closed. -/
theorem storedText_isSome_iff (tok after : List UInt8) :
    (storedText tok after).isSome = true ↔ closed tok = true := by
  rw [storedText, closed, decide_eq_true_eq]
  by_cases hnil : tok = []
  · simp [hnil]
  · rw [if_neg hnil, Option.isSome_map, entryText]
    by_cases hq : tok.head? = some 0x22
    · rw [if_pos hq]
      by_cases hmem : 0x22 ∈ tok.tail
      · rw [if_neg fun h0 => (findQuote_eq_zero_iff _).mp h0 hmem]
        simp [hmem]
      · rw [if_pos ((findQuote_eq_zero_iff _).mpr hmem)]
        simp [hmem, hq]
    · rw [if_neg hq]
      simp [hq]

/-- One entry, with its number. -/
theorem storeOne_eq {tok after : List UInt8} (h : At v i (tok ++ after)) (b : ValueBuffer) :
    storeOne v i (i + tok.length) (raw b) =
      (storedText tok after).bind fun t => (b.store (t.getD [])).map fun b' =>
        (listEntry (t.map fun bs => (b.offset, bs)), raw b') := by
  rw [storeOne, Nat.add_sub_cancel_left, storedText]
  by_cases hnil : tok = []
  · rw [if_pos hnil, hnil, if_neg (by simp), Option.bind_some, Option.getD_none, b.store_nil]
    rfl
  · rw [if_neg hnil, if_pos (by simpa using hnil), parseEntry_eq h hnil, Option.bind_map]
    rfl

/-- The entries of texts that are stored from an index on. -/
def listEntries (o : ℕ) (ts : List (Option (List UInt8))) : List ListEntry :=
  (layout o ts).map listEntry

theorem listEntries_cons (o : ℕ) (t : Option (List UInt8)) (ts : List (Option (List UInt8))) :
    listEntries o (t :: ts) =
      listEntry (t.map fun bs => (o, bs)) :: listEntries (o + (t.getD []).length) ts := by
  cases t with
  | none => rfl
  | some bs => rfl

/-- An entry is looked for behind the blanks. -/
theorem findEntry_eq (low : List UInt8) (h : s ≠ []) :
    findEntry low s = Ini.findChar (s.dropWhile isspace) 0x2C := by
  rw [findEntry, Ini.findFirstChar, if_neg h]
  rfl

/-- What stops the search for the end of an entry. -/
theorem head?_findChar {c x : UInt8} (h : (Ini.findChar s c).2.head? = some x) :
    x = c ∨ x = 0x3B ∨ x = 0x23 := by
  have hstop : passes c x = false := by
    have hhead := List.head?_dropWhile_not (passes c) s
    rw [show s.dropWhile (passes c) = (Ini.findChar s c).2 from rfl, h] at hhead
    exact hhead
  rw [passes, decide_eq_false_iff_not] at hstop
  tauto

/-- `ParseList` stores the texts of the entries, as long as there is an entry wherever one is looked
    for. -/
theorem parseList_eq (low : List UInt8) : ∀ (n : ℕ) {s : List UInt8} {i : ℕ} (b : ValueBuffer),
    At v i s → parseList v n i (raw b) =
      if splits n s = true then
        (storedTexts low n s).bind fun ts =>
          (b.store (laid ts)).map fun b' => (listEntries b.offset ts, raw b')
      else none
  | 0, _, _, _, _ => rfl
  | n + 1, s, i, b, h => by
    rw [parseList, splits]
    simp only [Option.bind_eq_bind, findFirstChar_eq h, Option.bind_some]
    by_cases hnil : s = []
    · simp [hnil]
    · have hspaces := At.spaces h isspace
      have hentry := findEntry_eq low hnil
      rw [if_neg hnil, storedTexts, hentry]
      simp only [Option.bind_some, findChar_eq hspaces, getElem?_findChar hspaces]
      have hsplit : (Ini.findChar (s.dropWhile isspace) 0x2C).1 ++
          (Ini.findChar (s.dropWhile isspace) 0x2C).2 = s.dropWhile isspace :=
        List.takeWhile_append_dropWhile
      have hfirst := storeOne_eq (hsplit.symm ▸ hspaces) b
      have hrest := CStr.At.suffix (hsplit.symm ▸ hspaces)
      have hstop := @head?_findChar (s.dropWhile isspace) 0x2C
      have hclosed := storedText_isSome_iff (Ini.findChar (s.dropWhile isspace) 0x2C).1
        (Ini.findChar (s.dropWhile isspace) 0x2C).2
      rw [hfirst]
      generalize (Ini.findChar (s.dropWhile isspace) 0x2C).1 = tok at hrest hclosed ⊢
      generalize (Ini.findChar (s.dropWhile isspace) 0x2C).2 = rest at hrest hstop hclosed ⊢
      generalize i + (s.takeWhile isspace).length + tok.length = j at hrest ⊢
      cases ht : storedText tok rest with
      | none =>
        have hopen : closed tok = false := by
          rw [ht] at hclosed
          simpa using hclosed
        simp [hopen]
      | some t =>
        have hclose : closed tok = true := hclosed.mp (by rw [ht]; rfl)
        have hsingle : ((b.store (t.getD [])).map fun b' =>
              (listEntry (t.map fun bs => (b.offset, bs)), raw b')).bind
              (fun a => some ([a.1], a.2)) =
            (b.store (laid [t])).map fun b' => (listEntries b.offset [t], raw b') := by
          have hlaid : laid [t] = t.getD [] := (laid_cons t []).trans (List.append_nil _)
          rw [hlaid, listEntries_cons]
          cases b.store (t.getD []) with
          | none => rfl
          | some b' => rfl
        by_cases hcomma : rest.head? = some 0x2C
        · rcases Nat.eq_zero_or_pos n with rfl | hn
          · simpa [hclose, hcomma, hnil, storedTexts] using hsingle
          · have hne : n ≠ 0 := Nat.pos_iff_ne_zero.mp hn
            have htail : At v (j + 1) rest.tail := by
              rw [← List.cons_head?_tail hcomma] at hrest
              exact hrest.tail
            have hgo : ¬((some (0x2C : UInt8)).getD 0 = 0x3B ∨ (some (0x2C : UInt8)).getD 0 = 0x23 ∨
                (some (0x2C : UInt8)).getD 0 = 0) := by
              decide
            simp only [Option.bind_some, Option.bind_map, Function.comp_def, hclose, hnil, hcomma,
              ne_eq, not_true_eq_false, not_false_eq_true, decide_true, decide_false, Bool.or_false,
              Bool.false_or, Bool.true_and, hne, hgo, if_false, if_true,
              parseList_eq low n _ htail]
            by_cases hsplits : splits n rest.tail = true
            · simp only [if_pos hsplits]
              cases storedTexts low n rest.tail with
              | none => simp
              | some ts =>
                simp only [Option.bind_some, laid_cons, ← b.store_append, listEntries_cons]
                cases hb' : b.store (t.getD []) with
                | none => rfl
                | some b' =>
                  rw [Option.bind_some, Option.bind_some, ← ValueBuffer.store_offset hb']
                  cases b'.store (laid ts) with
                  | none => rfl
                  | some b'' => rfl
            · simp [if_neg hsplits]
        · have hstop' : rest.head?.getD 0 = 0x3B ∨ rest.head?.getD 0 = 0x23 ∨
              rest.head?.getD 0 = 0 := by
            cases hhead : rest.head? with
            | none => exact Or.inr (Or.inr rfl)
            | some x =>
              rcases hstop hhead with rfl | hx | hx
              · exact absurd hhead hcomma
              · exact Or.inl hx
              · exact Or.inr (Or.inl hx)
          simpa [hclose, hcomma, hnil, hstop'] using hsingle

/-! ### Safety -/

/-- A text takes one character more than its entry at most. -/
theorem length_storedText {tok after : List UInt8} {t : Option (List UInt8)}
    (h : storedText tok after = some t) : (t.getD []).length ≤ tok.length + 1 := by
  rw [storedText] at h
  split at h
  · rw [← Option.some.inj h]
    exact Nat.zero_le _
  · next hnil =>
    obtain ⟨c, q, rfl⟩ := List.exists_cons_of_ne_nil hnil
    obtain ⟨bs, hbs, rfl⟩ := Option.map_eq_some_iff.mp h
    rw [entryText] at hbs
    split at hbs
    · split at hbs
      · cases hbs
      · have hquote : findQuote q ≤ q.length := (List.rdropWhile_prefix _ q).length_le
        have hlen : (if findQuote q = 1 then (c :: q).length else findQuote q - 1) ≤ (c :: q).length := by
          rw [List.length_cons]
          split
          · exact le_rfl
          · omega
        rw [← Option.some.inj hbs, Option.getD_some]
        dsimp only [List.tail_cons]
        rw [length_padded ((List.length_take_le _ _).trans (Nat.le_succ _))]
        exact Nat.succ_le_succ hlen
    · have hle : (Ini.stripTrailingSpaces (c :: q)).length ≤ (c :: q).length :=
        (List.rdropWhile_prefix isspace (c :: q)).length_le
      rw [← Option.some.inj hbs, Option.getD_some, length_padded (Nat.le_succ_of_le hle)]

theorem length_laid (low : List UInt8) : ∀ {n : ℕ} {s : List UInt8}
    {ts : List (Option (List UInt8))}, splits n s = true → storedTexts low n s = some ts →
    (laid ts).length ≤ s.length + 1
  | 0, _, _, h, _ => absurd h Bool.false_ne_true
  | n + 1, s, ts, h, hts => by
    rw [splits] at h
    simp only [Bool.and_eq_true, Bool.or_eq_true, decide_eq_true_eq] at h
    obtain ⟨⟨hnil, -⟩, hrest⟩ := h
    have hentry := findEntry_eq low hnil
    have hsplit : (Ini.findChar (s.dropWhile isspace) 0x2C).1.length +
        (Ini.findChar (s.dropWhile isspace) 0x2C).2.length ≤ s.length := by
      rw [← List.length_append, Ini.findChar, List.takeWhile_append_dropWhile]
      exact (List.dropWhile_suffix isspace).length_le
    rw [storedTexts, hentry] at hts
    obtain ⟨t, ht, hts⟩ := Option.bind_eq_some_iff.mp hts
    have hone := length_storedText ht
    split at hts
    · next hcomma =>
      have hhead := congrArg List.length (List.cons_head?_tail hcomma)
      rw [List.length_cons] at hhead
      obtain ⟨ts', hts', rfl⟩ := Option.map_eq_some_iff.mp hts
      rw [laid_cons, List.length_append]
      rcases hrest with (rfl | hno) | hrest
      · have hnone : (laid ts').length = 0 := by
          rw [← Option.some.inj hts']
          rfl
        omega
      · exact absurd hcomma hno
      · have ih := length_laid low hrest hts'
        omega
    · have hnone : (laid []).length = 0 := rfl
      rw [← Option.some.inj hts, laid_cons, List.length_append]
      omega

theorem storedTexts_isSome (low : List UInt8) : ∀ {n : ℕ} {s : List UInt8}, splits n s = true →
    (storedTexts low n s).isSome = true
  | 0, _, h => absurd h Bool.false_ne_true
  | n + 1, s, h => by
    rw [splits] at h
    simp only [Bool.and_eq_true, Bool.or_eq_true, decide_eq_true_eq] at h
    obtain ⟨⟨hnil, hclosed⟩, hrest⟩ := h
    have hentry := findEntry_eq low hnil
    obtain ⟨t, ht⟩ := Option.isSome_iff_exists.mp ((storedText_isSome_iff _
      (Ini.findChar (s.dropWhile isspace) 0x2C).2).mpr hclosed)
    rw [storedTexts, hentry, ht, Option.bind_some]
    split
    · next hcomma =>
      rw [Option.isSome_map]
      rcases hrest with (rfl | hno) | hrest
      · rfl
      · exact absurd hcomma hno
      · exact storedTexts_isSome low hrest
    · rfl

/-- The string of a value, which is part of a line. -/
structure ValueString where
  chars : List UInt8
  nonzero : 0 ∉ chars
  short : chars.length < maxLineLen

/-- The string stands in its characters and its NUL. -/
theorem ValueString.at (s : ValueString) : At (s.chars ++ [0]) 0 s.chars :=
  ⟨s.nonzero, fun k _ => by rw [Nat.zero_add]⟩

/-- There is room for the texts of a value when `FreeList` has emptied the buffer. -/
theorem store_laid (low : List UInt8) (s : ValueString) {n : ℕ} (b : ValueBuffer)
    {ts : List (Option (List UInt8))} (h : splits n s.chars = true)
    (hts : storedTexts low n s.chars = some ts) :
    ∃ b', b.freeList.store (laid ts) = some b' ∧ b'.bytes = splice b.bytes 0 (laid ts) := by
  have hlen := length_laid low h hts
  have hshort := s.short
  refine ⟨_, dif_pos ?_, rfl⟩
  change 0 + (laid ts).length ≤ maxLineLen
  omega

/-- `ParseList` stays in the string, the buffer and the list, and no length wraps, exactly when there is
    an entry wherever one is looked for, and the quotes are closed. -/
theorem parseList_safe_iff (s : ValueString) (maxlen : UInt16) (b : ValueBuffer) :
    (parseList (s.chars ++ [0]) maxlen.toNat 0 (raw b.freeList)).isSome = true ↔
      splits maxlen.toNat s.chars = true := by
  rw [parseList_eq [] maxlen.toNat b.freeList s.at]
  by_cases h : splits maxlen.toNat s.chars = true
  · obtain ⟨ts, hts⟩ := Option.isSome_iff_exists.mp (storedTexts_isSome [] h)
    obtain ⟨b', hb', -⟩ := store_laid [] s b h hts
    rw [if_pos h, hts, Option.bind_some, hb']
    exact ⟨fun _ => h, fun _ => rfl⟩
  · rw [if_neg h]
    exact ⟨fun hsome => absurd hsome Bool.false_ne_true, fun hs => absurd hs h⟩

/-- `1,` -/
def openList : ValueString := ⟨[0x31, 0x2C], by decide, by decide⟩

/-- An empty buffer. -/
def emptyBuffer : ValueBuffer := ⟨List.replicate 128 0, 0, rfl, Nat.zero_le _⟩

/-- Behind the last comma an entry is looked for through a null pointer. -/
theorem openList_unsafe : ¬∀ (s : ValueString) (maxlen : UInt16) (b : ValueBuffer),
    (parseList (s.chars ++ [0]) maxlen.toNat 0 (raw b.freeList)).isSome = true := by
  intro h
  exact absurd (h openList 8 emptyBuffer) (by decide +kernel)

end Ini.InPlace
