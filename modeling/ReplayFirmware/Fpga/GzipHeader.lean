import Mathlib.Algebra.Order.Ring.Nat
import Mathlib.Data.Int.Basic
import Mathlib.Data.List.TakeDrop
import Mathlib.Tactic.Common

/-! The header of a gzip file, as the decompressor skips it.

    `read_gzip_header` is compared with the member header of the format. Name, comment and checksum are
    skipped as they are, in every combination. The length of an extra field is looked for 2 bytes behind
    its place, and in 4 bytes instead of 2: all that follows is shifted. -/

namespace Fpga

/-! ### The code -/

/-- The variables of `read_gzip_header` as they are found, `extra` in bytes. -/
structure Locals where
  c : UInt8
  extra : List UInt8

/-- A read over a variable: what is missing at the end of the input stays as it was. -/
def overwrite (old new : List UInt8) : List UInt8 := new ++ old.drop new.length

/-- `extra[0] | (extra[1] << 8)` -/
def skipLength (extra : List UInt8) : ℕ :=
  (extra.getD 0 0).toNat + 256 * (extra.getD 1 0).toNat |||
    ((extra.getD 2 0).toNat + 256 * (extra.getD 3 0).toNat) <<< 8

/-- `while (skip--)` -/
def skipLoop : ℕ → UInt8 → List UInt8 → UInt8 × List UInt8
  | 0, c, input => (c, input)
  | skip + 1, c, [] => skipLoop skip c []
  | skip + 1, _, b :: input => skipLoop skip b input

/-- `hdr.flg & fextra` -/
def skipExtra (l : Locals) (input : List UInt8) : UInt8 × List UInt8 :=
  let extra := overwrite l.extra (input.take 4)
  let input := input.drop 4
  let extra := overwrite extra (input.take 4)
  let input := input.drop 4
  skipLoop (skipLength extra) l.c input

/-- `do … while (c)`: at the end of the input `c` keeps its value, and the loop does not end unless that
    is 0. -/
def stringLoop : UInt8 → List UInt8 → Option (UInt8 × List UInt8)
  | c, [] => if c = 0 then some (0, []) else none
  | _, b :: input => if b = 0 then some (0, input) else stringLoop b input

/-- A string that the flags announce. -/
def skipString (present : Bool) (r : UInt8 × List UInt8) : Option (UInt8 × List UInt8) :=
  if present then stringLoop r.1 r.2 else some r

/-- The fields behind the fixed part, and what is left of the input. -/
def readFields (flg : UInt8) (l : Locals) (input : List UInt8) : Option (List UInt8) := do
  let r ← skipString (flg &&& 8 ≠ 0) (if flg &&& 4 ≠ 0 then skipExtra l input else (l.c, input))
  let r ← skipString (flg &&& 16 ≠ 0) r
  return if flg &&& 2 ≠ 0 then r.2.drop 2 else r.2

/-- `read_gzip_header` on what `read_embedded_buffer` has left: what is returned and what is left then,
    `none` if it never returns. -/
def readGzipHeader (l : Locals) (input : List UInt8) : Option (ℤ × List UInt8) :=
  let hdr := input.take 10
  let input := input.drop 10
  if hdr.length ≠ 10 then some (-1, input)
  else if hdr.getD 0 0 ≠ 0x1F ∨ hdr.getD 1 0 ≠ 0x8B then some (-1, input)
  else if hdr.getD 2 0 ≠ 8 then some (-1, input)
  else (readFields (hdr.getD 3 0) l input).map fun input => (0, input)

/-! ### The format -/

/-- The header of a member that is compressed by deflate. -/
structure Member where
  text : Bool
  mtime : List UInt8
  mtime_length : mtime.length = 4
  xfl : UInt8
  os : UInt8
  extra : Option (List UInt8)
  extra_length : ∀ e ∈ extra, e.length < 65536
  name : Option (List UInt8)
  name_plain : ∀ s ∈ name, 0 ∉ s
  comment : Option (List UInt8)
  comment_plain : ∀ s ∈ comment, 0 ∉ s
  crc : Option (UInt8 × UInt8)

namespace Member

def flags (m : Member) : UInt8 :=
  (if m.text then 1 else 0) ||| (if m.crc.isSome then 2 else 0) ||| (if m.extra.isSome then 4 else 0) |||
    (if m.name.isSome then 8 else 0) ||| (if m.comment.isSome then 16 else 0)

/-- The first ten bytes. -/
def fixed (m : Member) : List UInt8 := [0x1F, 0x8B, 8, m.flags] ++ m.mtime ++ [m.xfl, m.os]

/-- An extra field, behind its length. -/
def extraField : Option (List UInt8) → List UInt8
  | none => []
  | some e => [e.length.toUInt8, (e.length / 256).toUInt8] ++ e

def stringField : Option (List UInt8) → List UInt8
  | none => []
  | some s => s ++ [0]

def crcField : Option (UInt8 × UInt8) → List UInt8
  | none => []
  | some (a, b) => [a, b]

def encode (m : Member) : List UInt8 :=
  m.fixed ++ (extraField m.extra ++ (stringField m.name ++ (stringField m.comment ++ crcField m.crc)))

/-- The first string of the header. -/
def firstString (m : Member) : Option (List UInt8) := m.name.or m.comment

end Member

/-- Whatever follows the header, and whatever the variables hold: it is accepted, and exactly what follows
    is left. -/
def Accepts (m : Member) : Prop :=
  ∀ (l : Locals) (rest : List UInt8), readGzipHeader l (m.encode ++ rest) = some (0, rest)

/-- Where the code ends its skip of the extra field `e`, from the beginning of that: behind six bytes, as
    many as the third to the sixth of them say. -/
def skipEnd (e : List UInt8) (s : Option (List UInt8)) : ℕ :=
  6 + skipLength (((e ++ s.getD []).drop 2).take 4)

/-- There is no extra field, or the skip ends with it; before a string it may also end in the string, or
    where nothing but the string ends it. -/
def Placed (m : Member) : Prop :=
  ∀ e ∈ m.extra, match m.firstString with
    | none => skipEnd e none = e.length
    | some s => skipEnd e (some s) ≤ e.length + s.length ∧ 0 ∉ e.drop (skipEnd e (some s))

/-! ### Loops -/

variable {c : UInt8} {input : List UInt8}

theorem skipLoop_drop : ∀ (skip : ℕ) (c : UInt8) (input : List UInt8),
    (skipLoop skip c input).2 = input.drop skip
  | 0, _, _ => rfl
  | skip + 1, c, [] => by rw [skipLoop, skipLoop_drop skip, List.drop_nil, List.drop_nil]
  | skip + 1, _, b :: input => by rw [skipLoop, skipLoop_drop skip, List.drop_succ_cons]

/-- A string is skipped with the byte that ends it. -/
theorem stringLoop_string : ∀ (s : List UInt8) (c : UInt8) (rest : List UInt8), 0 ∉ s →
    stringLoop c (s ++ 0 :: rest) = some (0, rest)
  | [], _, _, _ => if_pos rfl
  | b :: s, _, rest, hs => by
    rw [List.cons_append, stringLoop, if_neg (List.ne_of_not_mem_cons hs).symm]
    exact stringLoop_string s b rest (List.not_mem_of_not_mem_cons hs)

/-- The loop ends with a zero at the latest. -/
theorem stringLoop_within : ∀ (s : List UInt8) (c : UInt8) (rest : List UInt8),
    ∃ t, stringLoop c (s ++ 0 :: rest) = some (0, t) ∧ rest.length ≤ t.length
  | [], _, rest => ⟨rest, if_pos rfl, le_refl _⟩
  | b :: s, _, rest => by
    rw [List.cons_append, stringLoop]
    split
    · refine ⟨_, rfl, ?_⟩
      rw [List.length_append, List.length_cons]
      omega
    · exact stringLoop_within s b rest

/-- The loop takes a byte, if there is one. -/
theorem stringLoop_shorter : ∀ {c : UInt8} {input : List UInt8} {r : UInt8 × List UInt8},
    stringLoop c input = some r → r.2.length ≤ input.length - 1
  | c, [], r, h => by
    rw [stringLoop] at h
    split at h
    · rw [← Option.some.inj h]
      exact le_refl 0
    · cases h
  | c, b :: input, r, h => by
    rw [stringLoop] at h
    rw [List.length_cons, Nat.add_sub_cancel]
    split at h
    · rw [← Option.some.inj h]
    · exact (stringLoop_shorter h).trans (Nat.sub_le _ 1)

/-- From within a string the loop goes on to its end at least. -/
theorem stringLoop_past : ∀ {s : List UInt8} {q : ℕ} {c : UInt8} {rest : List UInt8} {r : UInt8 × List UInt8},
    0 ∉ s → stringLoop c ((s ++ 0 :: rest).drop q) = some r → r.2.length ≤ rest.length
  | [], 0, _, rest, r, _, h => by
    rw [List.drop_zero, List.nil_append, stringLoop, if_pos rfl] at h
    rw [← Option.some.inj h]
  | [], q + 1, _, rest, r, _, h => by
    refine (stringLoop_shorter h).trans ?_
    rw [List.nil_append, List.drop_succ_cons, List.length_drop]
    exact (Nat.sub_le _ 1).trans (Nat.sub_le _ q)
  | b :: s, 0, _, rest, r, hs, h => by
    rw [List.drop_zero, stringLoop_string _ _ _ hs] at h
    rw [← Option.some.inj h]
  | b :: s, q + 1, _, rest, r, hs, h => by
    rw [List.cons_append, List.drop_succ_cons] at h
    exact stringLoop_past (List.not_mem_of_not_mem_cons hs) h

/-! ### The fields of a header -/

namespace Member

variable (m : Member)

theorem flags_bits : (m.flags &&& 2 ≠ 0 ↔ m.crc.isSome = true) ∧ (m.flags &&& 4 ≠ 0 ↔ m.extra.isSome = true) ∧
    (m.flags &&& 8 ≠ 0 ↔ m.name.isSome = true) ∧ (m.flags &&& 16 ≠ 0 ↔ m.comment.isSome = true) := by
  unfold flags
  generalize m.crc.isSome = a, m.extra.isSome = b, m.name.isSome = c, m.comment.isSome = d, m.text = e
  revert a b c d e
  decide

/-- The fields behind the extra field. -/
def tail : List UInt8 := stringField m.name ++ (stringField m.comment ++ crcField m.crc)

/-- What follows the first string. -/
def behindFirst : List UInt8 :=
  if m.name.isSome then stringField m.comment ++ crcField m.crc else crcField m.crc

theorem tail_eq {s : List UInt8} (h : m.firstString = some s) : m.tail = s ++ 0 :: m.behindFirst := by
  unfold firstString at h
  unfold tail behindFirst
  cases hname : m.name with
  | some n =>
    rw [hname, Option.some_or] at h
    rw [Option.some.inj h, Option.isSome_some, if_pos rfl, stringField, List.append_assoc]
    rfl
  | none =>
    rw [hname, Option.none_or] at h
    rw [h, Option.isSome_none, if_neg (by decide), stringField, stringField, List.append_assoc]
    rfl

theorem firstString_plain {s : List UInt8} (h : m.firstString = some s) : 0 ∉ s := by
  unfold firstString at h
  cases hname : m.name with
  | some n =>
    rw [hname, Option.some_or] at h
    exact m.name_plain s (by rw [hname, h]; rfl)
  | none =>
    rw [hname, Option.none_or] at h
    exact m.comment_plain s h

end Member

/-- `read_gzip_header` behind the extra field. -/
def afterExtra (m : Member) (r : UInt8 × List UInt8) : Option (List UInt8) := do
  let r ← skipString m.name.isSome r
  let r ← skipString m.comment.isSome r
  return if m.crc.isSome then r.2.drop 2 else r.2

variable {m : Member} {l : Locals} {rest r : List UInt8}

theorem readGzipHeader_encode : readGzipHeader l (m.encode ++ rest) =
    (afterExtra m (if m.extra.isSome then skipExtra l (Member.extraField m.extra ++ (m.tail ++ rest))
      else (l.c, m.tail ++ rest))).map fun input => (0, input) := by
  obtain ⟨hcrc, hextra, hname, hcomment⟩ := m.flags_bits
  have hlen : m.fixed.length = 10 := by
    rw [Member.fixed, List.length_append, List.length_append, m.mtime_length]
    rfl
  have hsplit : m.encode ++ rest = m.fixed ++ (Member.extraField m.extra ++ (m.tail ++ rest)) := by
    rw [Member.encode, ← Member.tail, List.append_assoc, List.append_assoc]
  have hfields : ∀ input, readFields m.flags l input =
      afterExtra m (if m.extra.isSome then skipExtra l input else (l.c, input)) := by
    intro input
    unfold readFields afterExtra
    simp only [hcrc, hextra, hname, hcomment, Bool.decide_eq_true]
  rw [hsplit, readGzipHeader]
  simp only [← hlen, List.take_left, List.drop_left]
  rw [if_neg (fun hf => hf rfl), if_neg (by rintro (hf | hf) <;> exact hf rfl), if_neg (fun hf => hf rfl),
    show m.fixed.getD 3 0 = m.flags from rfl, hfields]
  split
  · rfl
  · next hnone =>
    rw [Option.not_isSome_iff_eq_none.mp hnone]
    rfl

/-- From the first string on, or from anything in its place that only the same zero ends, the rest of the
    header is skipped. -/
theorem afterExtra_string {s u : List UInt8} (h : m.firstString = some s) (hu : 0 ∉ u) (c : UInt8) :
    afterExtra m (c, u ++ 0 :: (m.behindFirst ++ rest)) = some rest := by
  unfold Member.firstString at h
  unfold afterExtra Member.behindFirst
  have hcrc : ∀ input, (if m.crc.isSome = true then (Member.crcField m.crc ++ input).drop 2
      else Member.crcField m.crc ++ input) = input := by
    intro input
    cases m.crc with
    | none => rfl
    | some p => rfl
  cases hname : m.name with
  | some n =>
    rw [Option.isSome_some, skipString, if_pos rfl, stringLoop_string u c _ hu, if_pos rfl]
    cases hcomment : m.comment with
    | some k =>
      show (skipString true (0, Member.stringField (some k) ++ Member.crcField m.crc ++ rest)).bind _ = _
      rw [skipString, if_pos rfl, Member.stringField, List.append_assoc, List.append_assoc, List.cons_append,
        List.nil_append, stringLoop_string k 0 _ (m.comment_plain k hcomment)]
      exact congrArg some (hcrc rest)
    | none => exact congrArg some (hcrc rest)
  | none =>
    rw [hname, Option.none_or] at h
    rw [h, Option.isSome_none, Option.isSome_some, if_neg Bool.false_ne_true]
    show (skipString true (c, u ++ 0 :: (Member.crcField m.crc ++ rest))).bind _ = _
    rw [skipString, if_pos rfl, stringLoop_string u c _ hu]
    exact congrArg some (hcrc rest)

theorem crc_length (m : Member) (input : List UInt8) :
    (if m.crc.isSome = true then input.drop 2 else input).length =
      input.length - (Member.crcField m.crc).length := by
  cases m.crc with
  | none => rfl
  | some p => exact List.length_drop

theorem afterExtra_none (h : m.firstString = none) (c : UInt8) (input : List UInt8) :
    afterExtra m (c, input) = some (if m.crc.isSome then input.drop 2 else input) := by
  obtain ⟨hname, hcomment⟩ := Option.or_eq_none_iff.mp h
  unfold afterExtra
  rw [hname, hcomment]
  rfl

/-- A loop that begins behind the last string ends in what follows the header. -/
theorem late_length (hrest : rest ≠ []) {c : UInt8} {input : List UInt8} {t : UInt8 × List UInt8}
    (hloop : stringLoop c input = some t)
    (hlen : input.length ≤ (Member.crcField m.crc).length + rest.length) :
    (if m.crc.isSome = true then t.2.drop 2 else t.2).length < rest.length := by
  have hshort := stringLoop_shorter hloop
  have hpos := List.length_pos_iff.mpr hrest
  rw [crc_length]
  omega

/-- Behind the end of the first string too much is skipped. -/
theorem afterExtra_late {s : List UInt8} (h : m.firstString = some s) (hrest : rest ≠ []) {c : UInt8} (q : ℕ)
    (heq : afterExtra m (c, (m.behindFirst ++ rest).drop q) = some r) : r.length < rest.length := by
  unfold Member.firstString at h
  unfold afterExtra at heq
  obtain ⟨t, hname', heq⟩ := Option.bind_eq_some_iff.mp heq
  obtain ⟨t', hcomment', heq⟩ := Option.bind_eq_some_iff.mp heq
  rw [← Option.some.inj heq]
  unfold skipString at hname' hcomment'
  unfold Member.behindFirst at hname'
  cases hname : m.name with
  | some n =>
    rw [hname, Option.isSome_some, if_pos rfl, if_pos rfl] at hname'
    cases hcomment : m.comment with
    | some k =>
      rw [hcomment, Option.isSome_some, if_pos rfl] at hcomment'
      rw [hcomment, Member.stringField, List.append_assoc, List.append_assoc, List.cons_append,
        List.nil_append] at hname'
      have hpast := stringLoop_past (m.comment_plain k hcomment) hname'
      exact late_length hrest hcomment' (hpast.trans_eq List.length_append)
    | none =>
      rw [hcomment, Option.isSome_none, if_neg Bool.false_ne_true] at hcomment'
      rw [hcomment] at hname'
      obtain rfl := Option.some.inj hcomment'
      refine late_length hrest hname' ?_
      rw [Member.stringField, List.nil_append, List.length_drop, List.length_append]
      exact Nat.sub_le _ _
  | none =>
    rw [hname, Option.none_or] at h
    rw [hname, Option.isSome_none, if_neg Bool.false_ne_true, if_neg Bool.false_ne_true] at hname'
    rw [h, Option.isSome_some, if_pos rfl, ← Option.some.inj hname'] at hcomment'
    refine late_length hrest hcomment' ?_
    rw [List.length_drop, List.length_append]
    exact Nat.sub_le _ _

/-- Where a zero comes before the first string, too little is skipped. -/
theorem afterExtra_early {s u v : List UInt8} (h : m.firstString = some s) (hu : 0 ∉ u) {c : UInt8}
    (heq : afterExtra m (c, u ++ 0 :: (v ++ 0 :: (m.behindFirst ++ rest))) = some r) :
    rest.length < r.length := by
  unfold Member.firstString at h
  unfold afterExtra at heq
  obtain ⟨t, hname', heq⟩ := Option.bind_eq_some_iff.mp heq
  obtain ⟨t', hcomment', heq⟩ := Option.bind_eq_some_iff.mp heq
  rw [← Option.some.inj heq, crc_length]
  unfold skipString at hname' hcomment'
  unfold Member.behindFirst at hname'
  cases hname : m.name with
  | some n =>
    rw [hname, Option.isSome_some, if_pos rfl, if_pos rfl, stringLoop_string u c _ hu] at hname'
    rw [← Option.some.inj hname'] at hcomment'
    cases hcomment : m.comment with
    | some k =>
      rw [hcomment, Option.isSome_some, if_pos rfl] at hcomment'
      obtain ⟨w, hwithin, hlong⟩ :=
        stringLoop_within v 0 ((Member.stringField (some k) ++ Member.crcField m.crc) ++ rest)
      rw [← Option.some.inj (hwithin.symm.trans hcomment')]
      rw [Member.stringField, List.length_append, List.length_append, List.length_append,
        List.length_singleton] at hlong
      show _ < w.length - _
      omega
    | none =>
      rw [hcomment, Option.isSome_none, if_neg Bool.false_ne_true] at hcomment'
      rw [← Option.some.inj hcomment']
      simp only [Member.stringField, List.length_append, List.length_cons, List.nil_append]
      omega
  | none =>
    rw [hname, Option.none_or] at h
    rw [hname, Option.isSome_none, if_neg Bool.false_ne_true, if_neg Bool.false_ne_true] at hname'
    rw [h, Option.isSome_some, if_pos rfl, ← Option.some.inj hname', stringLoop_string u c _ hu] at hcomment'
    rw [← Option.some.inj hcomment']
    simp only [List.length_append, List.length_cons]
    omega

/-! ### The extra field -/

/-- A read of all four bytes leaves nothing of what was there. -/
theorem skipLength_overwrite {old new : List UInt8} (h : new.length = 4) :
    skipLength (overwrite old new) = skipLength new := by
  have hget : ∀ i, i < 4 → (overwrite old new).getD i 0 = new.getD i 0 := by
    intro i hi
    rw [overwrite, List.getD_eq_getElem?_getD, List.getD_eq_getElem?_getD,
      List.getElem?_append_left (by rw [h]; exact hi)]
  unfold skipLength
  rw [hget 0 (by decide), hget 1 (by decide), hget 2 (by decide), hget 3 (by decide)]

/-- The skip ends where the bytes of the extra field and of the first string say, or behind both. -/
theorem skipExtra_extra (l : Locals) (a b : UInt8) (e : List UInt8) (s : Option (List UInt8))
    (input : List UInt8) : ∃ c p, skipExtra l (a :: b :: (e ++ (s.getD [] ++ input))) =
      (c, (e ++ (s.getD [] ++ input)).drop p) ∧
      (p = skipEnd e s ∨ (e ++ s.getD []).length < p ∧ (e ++ s.getD []).length < skipEnd e s) := by
  rw [← List.append_assoc]
  set t := e ++ s.getD [] with ht
  set extra := overwrite (overwrite l.extra ((a :: b :: (t ++ input)).take 4))
    (((a :: b :: (t ++ input)).drop 4).take 4) with hextra
  refine ⟨(skipLoop (skipLength extra) l.c ((t ++ input).drop 6)).1, 6 + skipLength extra, ?_, ?_⟩
  · have hdrop : ((a :: b :: (t ++ input)).drop 4).drop 4 = (t ++ input).drop 6 := by
      rw [List.drop_drop]
      rfl
    show skipLoop (skipLength extra) l.c (((a :: b :: (t ++ input)).drop 4).drop 4) = _
    rw [hdrop, ← List.drop_drop, ← skipLoop_drop (skipLength extra) l.c]
  · by_cases hlen : 6 ≤ t.length
    · refine .inl ?_
      have htake : ((a :: b :: (t ++ input)).drop 4).take 4 = (t.drop 2).take 4 := by
        rw [List.drop_succ_cons, List.drop_succ_cons, List.drop_append_of_le_length (by omega),
          List.take_append_of_le_length (by rw [List.length_drop]; omega)]
      rw [hextra, htake, skipLength_overwrite, skipEnd]
      rw [List.length_take, List.length_drop]
      omega
    · refine .inr ⟨by omega, ?_⟩
      rw [skipEnd]
      omega

/-- A header is accepted, and exactly skipped, if and only if its extra field is placed well, where it has
    one. -/
theorem accepts_iff (m : Member) : Accepts m ↔ Placed m := by
  cases hextra : m.extra with
  | none =>
    refine iff_of_true (fun l rest => ?_) fun e he => absurd he (by rw [hextra]; exact Option.not_mem_none e)
    rw [readGzipHeader_encode, hextra, Option.isSome_none, if_neg Bool.false_ne_true]
    cases hfirst : m.firstString with
    | some s =>
      rw [m.tail_eq hfirst, List.append_assoc, List.cons_append,
        afterExtra_string hfirst (m.firstString_plain hfirst)]
      rfl
    | none =>
      obtain ⟨hname, hcomment⟩ := Option.or_eq_none_iff.mp hfirst
      rw [afterExtra_none hfirst, Member.tail, hname, hcomment]
      cases m.crc <;> rfl
  | some e =>
    have hplaced : Placed m ↔ match m.firstString with
        | none => skipEnd e none = e.length
        | some s => skipEnd e (some s) ≤ e.length + s.length ∧ 0 ∉ e.drop (skipEnd e (some s)) := by
      unfold Placed
      rw [hextra]
      exact ⟨fun h => h e rfl, fun h e' he' => Option.some.inj he' ▸ h⟩
    rw [hplaced]
    have hheader : ∀ l rest, readGzipHeader l (m.encode ++ rest) = (afterExtra m (skipExtra l
        (e.length.toUInt8 :: (e.length / 256).toUInt8 :: (e ++ (m.tail ++ rest))))).map fun input =>
          (0, input) := by
      intro l rest
      rw [readGzipHeader_encode, hextra, Option.isSome_some, if_pos rfl, Member.extraField, List.append_assoc]
      rfl
    cases hfirst : m.firstString with
    | none =>
      obtain ⟨hname, hcomment⟩ := Option.or_eq_none_iff.mp hfirst
      have htail : m.tail = Member.crcField m.crc := by rw [Member.tail, hname, hcomment]; rfl
      have hleft : ∀ l rest, ∃ p, readGzipHeader l (m.encode ++ rest) = some (0,
          if m.crc.isSome = true then ((e ++ (Member.crcField m.crc ++ rest)).drop p).drop 2
          else (e ++ (Member.crcField m.crc ++ rest)).drop p) ∧
          (p = skipEnd e none ∨ e.length < p ∧ e.length < skipEnd e none) := by
        intro l rest
        obtain ⟨c, p, heq, hp⟩ := skipExtra_extra l e.length.toUInt8 (e.length / 256).toUInt8 e none
          (Member.crcField m.crc ++ rest)
        rw [Option.getD_none, List.nil_append] at heq
        rw [Option.getD_none, List.append_nil] at hp
        refine ⟨p, ?_, hp⟩
        rw [hheader, htail, heq, afterExtra_none hfirst]
        rfl
      constructor
      · intro h
        obtain ⟨p, heq, hp⟩ := hleft ⟨0, []⟩ [1]
        have hlen := congrArg (fun r => (r.map fun r => r.2.length).getD 0) (heq.symm.trans (h ⟨0, []⟩ [1]))
        simp only [Option.map_some, Option.getD_some, crc_length, List.length_drop, List.length_append,
          List.length_singleton] at hlen
        omega
      · intro h l rest
        obtain ⟨p, heq, hp⟩ := hleft l rest
        obtain rfl : p = e.length := by omega
        rw [heq, List.drop_left]
        cases m.crc <;> rfl
    | some s =>
      have htail := m.tail_eq hfirst
      have hleft : ∀ l rest, ∃ c p, readGzipHeader l (m.encode ++ rest) = (afterExtra m
          (c, (e ++ (s ++ 0 :: (m.behindFirst ++ rest))).drop p)).map (fun input => (0, input)) ∧
          (p = skipEnd e (some s) ∨
            e.length + s.length < p ∧ e.length + s.length < skipEnd e (some s)) := by
        intro l rest
        obtain ⟨c, p, heq, hp⟩ := skipExtra_extra l e.length.toUInt8 (e.length / 256).toUInt8 e (some s)
          (0 :: (m.behindFirst ++ rest))
        rw [Option.getD_some] at heq
        rw [Option.getD_some, List.length_append] at hp
        refine ⟨c, p, ?_, hp⟩
        rw [hheader, htail, List.append_assoc, List.cons_append, heq]
      constructor
      · intro h
        obtain ⟨c, p, heq, hp⟩ := hleft ⟨0, []⟩ [1]
        obtain ⟨r, hr, hr'⟩ := Option.map_eq_some_iff.mp (heq.symm.trans (h ⟨0, []⟩ [1]))
        obtain rfl : r = [1] := congrArg Prod.snd hr'
        have hwithin : p ≤ e.length + s.length := by
          by_contra hlate
          have hdrop : (e ++ (s ++ 0 :: (m.behindFirst ++ [1]))).drop p =
              (m.behindFirst ++ [1]).drop (p - (e.length + s.length) - 1) := by
            have hp : p = (e ++ s).length + ((p - (e.length + s.length) - 1) + 1) := by
              rw [List.length_append]
              omega
            conv_lhs => rw [← List.append_assoc, hp]
            rw [List.drop_length_add_append, List.drop_succ_cons]
          rw [hdrop] at hr
          exact absurd (afterExtra_late hfirst (List.cons_ne_nil 1 []) _ hr) (lt_irrefl _)
        obtain rfl := hp.resolve_right fun hf => absurd hf.1 (by omega)
        refine ⟨hwithin, fun hzero => ?_⟩
        obtain ⟨u, v, huv, hu⟩ := List.eq_append_cons_of_mem hzero
        have hle : skipEnd e (some s) ≤ e.length := by
          by_contra hf
          rw [List.drop_eq_nil_of_le (by omega)] at hzero
          exact List.not_mem_nil hzero
        rw [List.drop_append_of_le_length hle, huv, List.append_assoc, List.cons_append, ← List.append_assoc v] at hr
        exact absurd (afterExtra_early hfirst hu hr) (lt_irrefl _)
      · rintro ⟨hle, hzero⟩ l rest
        obtain ⟨c, p, heq, hp⟩ := hleft l rest
        obtain rfl := hp.resolve_right fun hf => absurd hf.2 (by omega)
        have hplain : 0 ∉ (e ++ s).drop (skipEnd e (some s)) := by
          rw [List.drop_append]
          intro hf
          rcases List.mem_append.mp hf with hf | hf
          · exact hzero hf
          · exact m.firstString_plain hfirst (List.mem_of_mem_drop hf)
        rw [heq, ← List.append_assoc, List.drop_append_of_le_length (by rw [List.length_append]; exact hle),
          afterExtra_string hfirst hplain]
        rfl

/-- A header with an empty extra field. -/
def emptyExtra : Member where
  text := false
  mtime := [0, 0, 0, 0]
  mtime_length := rfl
  xfl := 0
  os := 3
  extra := some []
  extra_length := by rintro e ⟨⟩; decide
  name := none
  name_plain := by rintro s ⟨⟩
  comment := none
  comment_plain := by rintro s ⟨⟩
  crc := none

/-- An empty extra field swallows what follows. -/
theorem emptyExtra_refused : ¬∀ m, Accepts m := by
  intro hall
  have hleft := hall emptyExtra ⟨0, [0, 0, 0, 0]⟩ [0, 0, 0, 0, 0, 0, 0]
  exact absurd hleft (by decide)

end Fpga
