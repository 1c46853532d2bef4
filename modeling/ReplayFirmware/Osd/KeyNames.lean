import ReplayFirmware.Osd.SendPS2
import ReplayFirmware.Libc.Strings
import Mathlib.Data.List.TakeWhile
import Mathlib.Data.Nat.Bitwise

/-! The names of keys, as a hot key is set by them.

    A name is looked up by as many characters as the token has, so the beginning of a name stands for the
    key as well. What a key code is written as is read as the same code, for the codes that the menu works
    with. -/

namespace Osd
open Libc

/-! ### The table -/

/-- An entry of `StringToKeycode`. -/
structure Mapping where
  string : List UInt8
  keycode : UInt16
deriving DecidableEq

def Mapping.of (string : String) (keycode : UInt16) : Mapping :=
  ⟨string.toList.map fun c => c.toNat.toUInt8, keycode⟩

/-- `StringToKeycode`, without the end-of-table. -/
def stringToKeycode : List Mapping :=
  [.of "GUI" kfGui, .of "CTRL" kfCtrl, .of "SHIFT" kfShift, .of "ALT" kfAlt, .of "HOME" keyHome,
    .of "PGUP" 0x102, .of "PGDN" 0x103, .of "END" 0x104, .of "UP" 0x105, .of "DOWN" 0x106,
    .of "LEFT" 0x107, .of "RIGHT" 0x108, .of "DEL" 0x109, .of "INS" keyIns, .of "F1" keyF1,
    .of "F2" 0x202, .of "F3" 0x203, .of "F4" 0x204, .of "F5" 0x205, .of "F6" 0x206, .of "F7" 0x207,
    .of "F8" 0x208, .of "F9" 0x209, .of "F10" 0x20A, .of "F11" 0x20B, .of "F12" keyF12,
    .of "MENU" keyMenu, .of "ESC" keyEsc, .of "ENTER" keyEnter, .of "BACK" keyBack, .of "TAB" keyTab,
    .of "SPACE" 0x020, .of "PAUSE" keyPause, .of "SYSRQ" keySysrq]

/-- `is_modifer` -/
def Mapping.isModifier (m : Mapping) : Bool := m.keycode &&& keyMask = 0

/-! ### `OSD_GetKeyCodeFromString` -/

/-- A token of some characters, on top of the keys that came before it. An unknown name has no outcome,
    nor has a second key. -/
def readToken (keycode : UInt16) (value : List UInt8) (token_length : ℕ) : Option UInt16 :=
  if token_length > 1 then
    match stringToKeycode.find? (fun m => strnicmpEq value m.string token_length) with
    | none => none
    | some m =>
      if m.isModifier = false ∧ keycode &&& keyMask ≠ 0 then none else some (keycode ||| m.keycode)
  else if keycode &&& keyMask ≠ 0 then none
  else some (keycode ||| (toupper (charAt value 0)).toUInt16)

/-- What comes before a token is skipped. -/
def skip (value : List UInt8) : List UInt8 := value.dropWhile fun c => !isalnum c

def tokenLength (value : List UInt8) : ℕ := (value.takeWhile isalnum).length

theorem skip_length_le (value : List UInt8) : (skip value).length ≤ value.length :=
  (List.dropWhile_suffix _).length_le

theorem tokenLength_le (value : List UInt8) : tokenLength value ≤ value.length :=
  (List.takeWhile_prefix _).length_le

/-- The loop over the tokens. The length of one is counted in 16 bits, with no outcome where the count
    does not end. -/
def readTokens (value : List UInt8) (keycode : UInt16) : Option UInt16 :=
  if _ : tokenLength (skip value) = 0 then some keycode
  else if 0x10000 ≤ tokenLength (skip value) then none
  else match readToken keycode (skip value) (tokenLength (skip value)) with
    | none => some 0
    | some keycode => readTokens ((skip value).drop (tokenLength (skip value))) keycode
termination_by value.length
decreasing_by
  have hskip := skip_length_le value
  have htoken := tokenLength_le (skip value)
  rw [List.length_drop]
  omega

/-- `OSD_GetKeyCodeFromString` -/
def getKeyCodeFromString (string : List UInt8) : Option UInt16 := readTokens string 0

/-! ### `OSD_GetStringFromKeyCode` -/

/-- A dash between two names. -/
def dash (buffer : List UInt8) : List UInt8 := if buffer = [] then [] else buffer ++ [0x2D]

/-- The key is that of the entry, or has its modifier. -/
def Mapping.Matches (m : Mapping) (keycode : UInt16) : Prop :=
  (keycode &&& keyMask = m.keycode &&& keyMask ∧ m.isModifier = false) ∨
    (m.isModifier = true ∧ keycode &&& m.keycode = m.keycode)

instance (m : Mapping) (keycode : UInt16) : Decidable (m.Matches keycode) := by
  unfold Mapping.Matches
  infer_instance

/-- The loop over the table: the names that were found, and what they leave of the key code. -/
def nameKeys : List Mapping → List UInt8 → UInt16 → List UInt8 × UInt16
  | [], buffer, keycode => (buffer, keycode)
  | m :: ms, buffer, keycode =>
    if keycode = 0 then (buffer, keycode)
    else if m.Matches keycode then nameKeys ms (dash buffer ++ m.string) (keycode &&& ~~~m.keycode)
    else nameKeys ms buffer keycode

/-- `OSD_GetStringFromKeyCode` -/
def getStringFromKeyCode (keycode : UInt16) : List UInt8 :=
  let (buffer, keycode) := nameKeys stringToKeycode [] keycode
  if keycode ≠ 0 then
    let c := (keycode &&& keyMask).toUInt8
    dash buffer ++ if c = 0 then [] else [c]
  else buffer

/-! ### A string of tokens -/

/-- Letters and digits, one at least. -/
structure Token (token : List UInt8) : Prop where
  ne : token ≠ []
  alnum : ∀ c ∈ token, isalnum c = true

/-- No letter or digit comes first. -/
def Edge (rest : List UInt8) : Prop := ∀ c ∈ rest.head?, isalnum c = false

variable {token rest sep value buffer : List UInt8} {keycode k acc : UInt16}

theorem tokenLength_append (htoken : Token token) (hrest : Edge rest) :
    tokenLength (token ++ rest) = token.length := by
  have hnone : rest.takeWhile isalnum = [] := by
    cases rest with
    | nil => rfl
    | cons c cs => rw [List.takeWhile_cons_of_neg (by rw [hrest c rfl]; exact Bool.false_ne_true)]
  rw [tokenLength, List.takeWhile_append_of_pos htoken.alnum, hnone, List.append_nil]

theorem skip_append (hsep : ∀ c ∈ sep, isalnum c = false) (htoken : Token token) :
    skip (sep ++ (token ++ rest)) = token ++ rest := by
  rw [skip, List.dropWhile_append_of_pos fun c hc => by rw [hsep c hc]; rfl]
  obtain ⟨c, cs, rfl⟩ := List.exists_cons_of_ne_nil htoken.ne
  rw [List.cons_append, List.dropWhile_cons_of_neg]
  rw [htoken.alnum c List.mem_cons_self]
  exact Bool.false_ne_true

/-- Nothing behind the token matters. -/
theorem readToken_append (htoken : Token token) :
    readToken keycode (token ++ rest) token.length = readToken keycode token token.length := by
  obtain ⟨c, cs, rfl⟩ := List.exists_cons_of_ne_nil htoken.ne
  have heq : ∀ name, strnicmpEq (c :: cs ++ rest) name (c :: cs).length =
      strnicmpEq (c :: cs) name (c :: cs).length := by
    intro name
    rw [strnicmpEq, strnicmpEq, List.take_left, List.take_length]
  unfold readToken
  simp only [heq]
  rfl

/-- A letter or digit stands for itself. -/
theorem readToken_char {c : UInt8} (h : keycode &&& keyMask = 0) :
    readToken keycode [c] 1 = some (keycode ||| (toupper c).toUInt16) := by
  rw [readToken, if_neg (Nat.lt_irrefl 1), if_neg (not_not_intro h)]
  rfl

/-- The first token is read, then what is behind it. -/
theorem readTokens_token (hsep : ∀ c ∈ sep, isalnum c = false) (htoken : Token token) (hrest : Edge rest) :
    readTokens (sep ++ (token ++ rest)) keycode =
      if 0x10000 ≤ token.length then none
      else match readToken keycode token token.length with
        | none => some 0
        | some keycode => readTokens rest keycode := by
  rw [readTokens, skip_append hsep htoken, tokenLength_append htoken hrest,
    dif_neg (fun hf => htoken.ne (List.eq_nil_of_length_eq_zero hf)), readToken_append htoken,
    List.drop_left]

theorem readTokens_end (hsep : ∀ c ∈ sep, isalnum c = false) : readTokens sep keycode = some keycode := by
  have hskip : skip sep = [] := List.dropWhile_eq_nil_iff.mpr fun c hc => by rw [hsep c hc]; rfl
  rw [readTokens, hskip, dif_pos (show tokenLength [] = 0 from rfl)]

theorem readTokens_nil : readTokens [] keycode = some keycode :=
  readTokens_end fun _ hc => absurd hc List.not_mem_nil

/-! ### What is read -/

/-- A key code of the menu: neither repeated nor released, and no small letter. -/
def Plain (keycode : UInt16) : Prop :=
  keycode &&& 0xC000 = 0 ∧ ¬(0x61 ≤ keycode &&& keyMask ∧ keycode &&& keyMask ≤ 0x7A)

instance (keycode : UInt16) : Decidable (Plain keycode) := by
  unfold Plain
  infer_instance

theorem mapping_plain : ∀ m ∈ stringToKeycode, Plain m.keycode := by decide

/-- What holds of the 256 bytes. -/
theorem byte_of_range {P : UInt8 → Prop} (h : ∀ i ∈ List.range 256, P i.toUInt8) (c : UInt8) : P c := by
  have hbyte := h c.toNat (List.mem_range.mpr (UInt8.toNat_lt c))
  rwa [Nat.toUInt8, UInt8.ofNat_toNat] at hbyte

theorem toupper_plain : ∀ c, Plain (toupper c).toUInt16 := byte_of_range (by decide +kernel)

theorem toupper_ne_zero : ∀ c, isalnum c = true → (toupper c).toUInt16 ≠ 0 :=
  byte_of_range (by decide +kernel)

/-- A modifier leaves the key as it is, and a key comes where there was none. -/
theorem Plain.or (h : Plain keycode) (hk : Plain k)
    (hone : keycode &&& keyMask = 0 ∨ k &&& keyMask = 0) : Plain (keycode ||| k) := by
  refine ⟨by rw [or_and_flag, h.1, hk.1, UInt16.zero_or], ?_⟩
  rw [or_and_flag]
  rcases hone with hzero | hzero
  · rw [hzero, UInt16.zero_or]
    exact hk.2
  · rw [hzero, UInt16.or_zero]
    exact h.2

theorem readToken_plain {n : ℕ} (h : readToken keycode value n = some k) (hplain : Plain keycode) :
    Plain k := by
  unfold readToken at h
  split at h
  · split at h
    · cases h
    next m hfind =>
      split at h
      · cases h
      next hone =>
        cases h
        refine hplain.or (mapping_plain m (List.mem_of_find?_eq_some hfind)) ?_
        by_contra hf
        rw [not_or] at hf
        refine hone ⟨?_, hf.1⟩
        rw [Mapping.isModifier, decide_eq_false hf.2]
  · split at h
    · cases h
    next hzero =>
      cases h
      exact hplain.or (toupper_plain (charAt value 0)) (.inl (not_not.mp hzero))

theorem readTokens_plain (value : List UInt8) (keycode : UInt16) (hplain : Plain keycode) :
    ∀ {k}, readTokens value keycode = some k → Plain k := by
  fun_induction readTokens value keycode with
  | case1 value keycode _ =>
    rintro k ⟨⟩
    exact hplain
  | case2 => exact fun hf => nomatch hf
  | case3 =>
    rintro k ⟨⟩
    decide
  | case4 value keycode _ _ keycode' hread ih => exact ih (readToken_plain hread hplain)

/-! ### What is written -/

/-- The flags that have a name. -/
def kfNamed : UInt16 := 0x3C00

theorem clear_and (a b m : UInt16) : (a &&& ~~~b) &&& m = (a &&& m) &&& ~~~b := by
  rw [UInt16.and_assoc, UInt16.and_comm (~~~b), ← UInt16.and_assoc]

theorem and_or_flag (a b m : UInt16) : a &&& (b ||| m) = (a &&& b) ||| (a &&& m) := by
  rw [UInt16.and_comm, or_and_flag, UInt16.and_comm b, UInt16.and_comm m]

/-- Nothing is lost when a part is taken out. -/
theorem or_clear {a b : UInt16} (h : a &&& b = b) (c : UInt16) : c ||| b ||| (a &&& ~~~b) = c ||| a := by
  have hparts : (a &&& b) ||| (a &&& ~~~(a &&& b)) = a := by
    rw [← UInt16.toBitVec_inj]
    refine BitVec.eq_of_getElem_eq fun i hi => ?_
    simp only [UInt16.toBitVec_or, UInt16.toBitVec_and, UInt16.toBitVec_not, BitVec.getElem_or,
      BitVec.getElem_and, BitVec.getElem_not]
    cases a.toBitVec[i] <;> cases b.toBitVec[i] <;> rfl
  rw [h] at hparts
  rw [UInt16.or_assoc, hparts]

/-- An entry is a flag with a name, or a key. -/
theorem mapping_cases : ∀ m ∈ stringToKeycode,
    (m.isModifier = true ∧ ~~~m.keycode &&& keyMask = keyMask ∧
        ∃ i ∈ List.range 16, m.keycode = (2 ^ i).toUInt16) ∨
      (m.isModifier = false ∧ m.keycode &&& keyMask = m.keycode ∧ m.string.length ≤ 5) := by
  decide

theorem and_bit (a : UInt16) {i : ℕ} (hi : i ∈ List.range 16) :
    a &&& (2 ^ i).toUInt16 = 0 ∨ a &&& (2 ^ i).toUInt16 = (2 ^ i).toUInt16 := by
  have hpow : (2 ^ i).toUInt16.toNat = 2 ^ i := by
    rw [Nat.toUInt16, UInt16.toNat_ofNat']
    exact Nat.mod_eq_of_lt (Nat.pow_lt_pow_right (by decide) (List.mem_range.mp hi))
  have hand : (a &&& (2 ^ i).toUInt16).toNat = (a.toNat.testBit i).toNat * 2 ^ i := by
    rw [UInt16.toNat_and, hpow, Nat.and_two_pow]
  cases hbit : a.toNat.testBit i with
  | false =>
    refine .inl (UInt16.toNat_inj.mp ?_)
    rw [hand, hbit, Bool.toNat_false, Nat.zero_mul]
    rfl
  | true =>
    refine .inr (UInt16.toNat_inj.mp ?_)
    rw [hand, hbit, Bool.toNat_true, Nat.one_mul, hpow]

theorem matches_key {m : Mapping} (hm : m ∈ stringToKeycode) (hmod : m.isModifier = false)
    (h : m.Matches keycode) : keycode &&& keyMask = m.keycode := by
  rcases mapping_cases m hm with ⟨hmod', -⟩ | ⟨-, hmask, -⟩
  · rw [hmod] at hmod'
    cases hmod'
  rcases h with ⟨hkey, -⟩ | ⟨hmod', -⟩
  · rw [hkey, hmask]
  · rw [hmod] at hmod'
    cases hmod'

theorem matches_and {m : Mapping} (hm : m ∈ stringToKeycode) (h : m.Matches keycode) :
    keycode &&& m.keycode = m.keycode := by
  cases hmod : m.isModifier with
  | false => rw [← matches_key hm hmod h, ← UInt16.and_assoc, UInt16.and_self]
  | true =>
    rcases h with ⟨-, hmod'⟩ | ⟨-, hand⟩
    · rw [hmod] at hmod'
      cases hmod'
    · exact hand

/-- What is left of a key code is a part of it. -/
theorem nameKeys_part : ∀ (ms : List Mapping) (buffer : List UInt8) (keycode : UInt16),
    ∃ x, (nameKeys ms buffer keycode).2 = keycode &&& x
  | [], _, keycode => ⟨keycode, by rw [UInt16.and_self]; rfl⟩
  | m :: ms, buffer, keycode => by
    rw [nameKeys]
    split
    · exact ⟨keycode, by rw [UInt16.and_self]⟩
    split
    · obtain ⟨x, hx⟩ := nameKeys_part ms (dash buffer ++ m.string) (keycode &&& ~~~m.keycode)
      exact ⟨~~~m.keycode &&& x, by rw [hx, UInt16.and_assoc]⟩
    · exact nameKeys_part ms buffer keycode

/-- No modifier of the table is left. -/
theorem nameKeys_modifier {m : Mapping} (hmod : m.isModifier = true) (hm : m ∈ stringToKeycode) :
    ∀ (ms : List Mapping) (buffer : List UInt8) (keycode : UInt16), m ∈ ms →
      (nameKeys ms buffer keycode).2 &&& m.keycode = 0
  | m' :: ms, buffer, keycode, hmem => by
    have hgone : ∀ {buffer keycode}, keycode &&& m.keycode = 0 →
        (nameKeys ms buffer keycode).2 &&& m.keycode = 0 := by
      intro buffer keycode hzero
      obtain ⟨x, hx⟩ := nameKeys_part ms buffer keycode
      rw [hx, UInt16.and_assoc, UInt16.and_comm x, ← UInt16.and_assoc, hzero, UInt16.zero_and]
    rw [nameKeys]
    split
    next hzero => rw [hzero, UInt16.zero_and]
    rcases List.mem_cons.mp hmem with rfl | htail
    · split
      · refine hgone ?_
        rw [UInt16.and_assoc, UInt16.not_and_self, UInt16.and_zero]
      next hno =>
        refine hgone ?_
        rcases mapping_cases m hm with ⟨-, -, i, hi, hbit⟩ | ⟨hmod', -⟩
        · rw [hbit]
          refine (and_bit keycode hi).resolve_right fun hf => hno (.inr ⟨hmod, ?_⟩)
          rw [hbit]
          exact hf
        · rw [hmod] at hmod'
          cases hmod'
    · split
      · exact nameKeys_modifier hmod hm ms _ _ htail
      · exact nameKeys_modifier hmod hm ms _ _ htail

/-- A key is written, or left as it is. -/
theorem nameKeys_key : ∀ (ms : List Mapping), (∀ m ∈ ms, m ∈ stringToKeycode) →
    ∀ (buffer : List UInt8) (keycode : UInt16), (nameKeys ms buffer keycode).2 &&& keyMask = 0 ∨
      ((nameKeys ms buffer keycode).2 &&& keyMask = keycode &&& keyMask ∧
        ∀ m ∈ ms, m.isModifier = false → keycode &&& keyMask ≠ m.keycode)
  | [], _, _, _ => .inr ⟨rfl, fun _ hm => absurd hm List.not_mem_nil⟩
  | m :: ms, hms, buffer, keycode => by
    rw [nameKeys]
    split
    next hzero => exact .inl (by rw [hzero, UInt16.zero_and])
    have ih := nameKeys_key ms fun m hm => hms m (List.mem_cons_of_mem _ hm)
    have hm := hms m List.mem_cons_self
    have hcases := mapping_cases m hm
    split
    next hmatches =>
      rcases hcases with ⟨hmod, hnot, -⟩ | ⟨hmod, hmask, -⟩
      · have hkey : keycode &&& ~~~m.keycode &&& keyMask = keycode &&& keyMask := by
          rw [UInt16.and_assoc, hnot]
        have hnext := ih (dash buffer ++ m.string) (keycode &&& ~~~m.keycode)
        rw [hkey] at hnext
        refine hnext.imp_right fun h => ⟨h.1, fun m' hm' hmod' => ?_⟩
        rcases List.mem_cons.mp hm' with rfl | htail
        · rw [hmod] at hmod'
          cases hmod'
        · exact h.2 m' htail hmod'
      · obtain ⟨x, hx⟩ := nameKeys_part ms (dash buffer ++ m.string) (keycode &&& ~~~m.keycode)
        refine .inl ?_
        rw [hx, UInt16.and_assoc, UInt16.and_comm x, ← UInt16.and_assoc, clear_and, matches_key hm hmod hmatches,
          UInt16.and_not_self, UInt16.zero_and]
    next hno =>
      refine (ih buffer keycode).imp_right fun h => ⟨h.1, fun m' hm' hmod' hkey => ?_⟩
      rcases List.mem_cons.mp hm' with rfl | htail
      · rcases hcases with ⟨hmod, -⟩ | ⟨-, hmask, -⟩
        · rw [hmod] at hmod'
          cases hmod'
        · exact hno (.inl ⟨by rw [hmask, hkey], hmod'⟩)
      · exact h.2 m' htail hmod' hkey

/-! ### The round trip -/

/-- A buffer is read as some keys, whatever comes behind it. -/
def Reads (buffer : List UInt8) (acc : UInt16) : Prop :=
  ∀ rest, Edge rest → readTokens (buffer ++ rest) 0 = readTokens rest acc

theorem Reads.done (h : Reads buffer acc) : readTokens buffer 0 = some acc := by
  have hend := h [] fun c hc => by cases hc
  rw [List.append_nil, readTokens_nil] at hend
  exact hend

/-- A token goes behind a dash. -/
theorem Reads.next (h : Reads buffer acc) (htoken : Token token) (hshort : token.length < 0x10000)
    (hrest : Edge rest) (hread : readToken acc token token.length = some k) :
    readTokens (dash buffer ++ token ++ rest) 0 = readTokens rest k := by
  have hnext : ∀ sep, (∀ c ∈ sep, isalnum c = false) →
      readTokens (sep ++ (token ++ rest)) acc = readTokens rest k := by
    intro sep hsep
    rw [readTokens_token hsep htoken hrest, if_neg (Nat.not_le.mpr hshort), hread]
  unfold dash
  split
  next hnil =>
    have hzero := h.done
    rw [hnil, readTokens_nil, Option.some_inj] at hzero
    rw [hzero]
    exact hnext [] fun c hc => absurd hc List.not_mem_nil
  · rw [List.append_assoc, List.append_assoc, h _ (by rintro c ⟨⟩; decide)]
    refine hnext [0x2D] fun c hc => ?_
    rw [List.mem_singleton.mp hc]
    decide

/-- A name of the table is found under itself. -/
theorem mapping_found : ∀ m ∈ stringToKeycode, m.string ≠ [] ∧ m.string.all isalnum = true ∧
    1 < m.string.length ∧ m.string.length < 0x10000 ∧
      stringToKeycode.find? (fun m' => strnicmpEq m.string m'.string m.string.length) = some m := by
  decide

theorem Reads.name {m : Mapping} (h : Reads buffer acc) (hm : m ∈ stringToKeycode)
    (hone : m.isModifier = false → acc &&& keyMask = 0) :
    Reads (dash buffer ++ m.string) (acc ||| m.keycode) := by
  obtain ⟨hne, halnum, hlong, hshort, hfind⟩ := mapping_found m hm
  intro rest hrest
  refine h.next ⟨hne, List.all_eq_true.mp halnum⟩ hshort hrest ?_
  rw [readToken, if_pos hlong]
  simp only [hfind]
  exact if_neg fun hf => hf.2 (hone hf.1)

/-- What has been written and what is left make up the key code. -/
theorem nameKeys_reads : ∀ (ms : List Mapping), (∀ m ∈ ms, m ∈ stringToKeycode) →
    ∀ {buffer : List UInt8} {keycode acc : UInt16}, Reads buffer acc →
      (acc &&& keyMask = 0 ∨ keycode &&& keyMask = 0) →
      ∃ acc', Reads (nameKeys ms buffer keycode).1 acc' ∧
        acc' ||| (nameKeys ms buffer keycode).2 = acc ||| keycode ∧
        (acc' &&& keyMask = 0 ∨ (nameKeys ms buffer keycode).2 &&& keyMask = 0)
  | [], _, _, _, acc, hreads, hone => ⟨acc, hreads, rfl, hone⟩
  | m :: ms, hms, buffer, keycode, acc, hreads, hone => by
    have ih {buffer keycode acc} := @nameKeys_reads ms (fun m hm => hms m (List.mem_cons_of_mem _ hm))
      buffer keycode acc
    have hm := hms m List.mem_cons_self
    rw [nameKeys]
    split
    · exact ⟨acc, hreads, rfl, hone⟩
    split
    next hmatches =>
      have hfree : m.isModifier = false → acc &&& keyMask = 0 := by
        intro hmod
        refine hone.resolve_right fun hzero => ?_
        rw [matches_key hm hmod hmatches] at hzero
        rw [Mapping.isModifier, hzero, UInt16.zero_and] at hmod
        exact absurd hmod (by decide)
      have hnext : (acc ||| m.keycode) &&& keyMask = 0 ∨ (keycode &&& ~~~m.keycode) &&& keyMask = 0 := by
        rw [clear_and]
        cases hmod : m.isModifier with
        | false => exact .inr (by rw [matches_key hm hmod hmatches, UInt16.and_not_self])
        | true =>
          rw [Mapping.isModifier, decide_eq_true_eq] at hmod
          refine hone.imp (fun hacc => ?_) fun hkey => by rw [hkey, UInt16.zero_and]
          rw [or_and_flag, hacc, hmod, UInt16.zero_or]
      obtain ⟨acc', hreads', hcode, hone'⟩ := ih (hreads.name hm hfree) hnext
      exact ⟨acc', hreads', by rw [hcode, or_clear (matches_and hm hmatches)], hone'⟩
    · exact ih hreads hone

/-- The base key is a letter or digit, or has a name. -/
def Named (keycode : UInt16) : Prop :=
  (∃ c, isalnum c = true ∧ keycode &&& keyMask = c.toUInt16) ∨
    ∃ m ∈ stringToKeycode, m.isModifier = false ∧ keycode &&& keyMask = m.keycode

theorem modifiers_table : ∀ flag ∈ [kfGui, kfCtrl, kfShift, kfAlt],
    ∃ m ∈ stringToKeycode, m.isModifier = true ∧ m.keycode = flag :=
  forall_mem_of_all (by decide)

/-- Behind the table only the key is left. -/
theorem nameKeys_masked (hplain : Plain keycode) :
    (nameKeys stringToKeycode [] keycode).2 &&& keyMask = (nameKeys stringToKeycode [] keycode).2 := by
  have hflag : ∀ flag ∈ [kfGui, kfCtrl, kfShift, kfAlt],
      (nameKeys stringToKeycode [] keycode).2 &&& flag = 0 := by
    intro flag hflag
    obtain ⟨m, hm, hmod, rfl⟩ := modifiers_table flag hflag
    exact nameKeys_modifier hmod hm stringToKeycode [] keycode hm
  have hevent : (nameKeys stringToKeycode [] keycode).2 &&& 0xC000 = 0 := by
    obtain ⟨x, hx⟩ := nameKeys_part stringToKeycode [] keycode
    rw [hx, UInt16.and_assoc, UInt16.and_comm x, ← UInt16.and_assoc, hplain.1, UInt16.zero_and]
  generalize (nameKeys stringToKeycode [] keycode).2 = r at hflag hevent ⊢
  have hall : r &&& (keyMask ||| (kfGui ||| (kfCtrl ||| (kfShift ||| (kfAlt ||| 0xC000))))) = r := by
    rw [show keyMask ||| (kfGui ||| (kfCtrl ||| (kfShift ||| (kfAlt ||| 0xC000)))) = -1 by decide,
      UInt16.and_neg_one]
  simp only [and_or_flag] at hall
  rw [hflag kfGui (by decide), hflag kfCtrl (by decide), hflag kfShift (by decide), hflag kfAlt (by decide),
    hevent] at hall
  simpa only [UInt16.or_zero] using hall

theorem isalnum_lt : ∀ c, isalnum c = true → c ≠ 0 ∧ c.toUInt16 &&& keyMask = c.toUInt16 ∧
    c.toUInt16.toUInt8 = c ∧ (toupper c = c ∨ (0x61 ≤ c.toUInt16 ∧ c.toUInt16 ≤ 0x7A)) :=
  byte_of_range (by decide +kernel)

theorem roundTrip_of (hplain : Plain keycode) (hnamed : Named keycode) :
    getKeyCodeFromString (getStringFromKeyCode keycode) = some keycode := by
  have hstart : Reads [] 0 := fun rest _ => rfl
  obtain ⟨acc, hreads, hcode, hone⟩ :=
    @nameKeys_reads stringToKeycode (fun _ hm => hm) [] keycode 0 hstart (.inl UInt16.zero_and)
  have hmasked := nameKeys_masked hplain
  have hkey := nameKeys_key stringToKeycode (fun _ hm => hm) [] keycode
  rw [getKeyCodeFromString, getStringFromKeyCode]
  generalize nameKeys stringToKeycode [] keycode = r at hreads hcode hone hmasked hkey ⊢
  rw [UInt16.zero_or] at hcode
  by_cases hzero : r.2 = 0
  · rw [hzero, UInt16.or_zero] at hcode
    rw [← hcode]
    simp only [hzero, ne_eq, not_true, if_false]
    exact hreads.done
  have hne : r.2 &&& keyMask ≠ 0 := by rwa [hmasked]
  obtain ⟨hsame, hnone⟩ := hkey.resolve_left hne
  rcases hnamed with ⟨c, hc, hbase⟩ | ⟨m, hm, hmod, hbase⟩
  · have hlast : r.2 = c.toUInt16 := by rw [← hmasked, hsame, hbase]
    obtain ⟨hc0, hmask, hback, hupper⟩ := isalnum_lt c hc
    have hcap : toupper c = c := hupper.resolve_right fun hsmall => hplain.2 (by rwa [hbase])
    have hne0 : c.toUInt16 ≠ 0 := by rwa [hlast] at hzero
    simp only [hlast, hmask, hback, if_pos hne0, if_neg hc0]
    have hread : readToken acc [c] [c].length = some keycode := by
      rw [List.length_singleton, readToken_char (hone.resolve_right hne), hcap, ← hcode, hlast]
    have hnext := @Reads.next [c] [] _ _ _ hreads ⟨List.cons_ne_nil c [], by simpa using hc⟩
      (Nat.lt_of_le_of_lt (le_refl 1) (by decide)) (by rintro c ⟨⟩) hread
    rw [List.append_nil] at hnext
    rw [hnext, readTokens_nil]
  · exact absurd hbase (hnone m hm hmod)

/-- The key code comes back from its string, and the string is no longer than its buffer. -/
def RoundTrip (keycode : UInt16) : Prop :=
  getKeyCodeFromString (getStringFromKeyCode keycode) = some keycode ∧
    (getStringFromKeyCode keycode).length < 32

/-- As much as the names of the flags take, each with a dash. -/
def flagLength (ms : List Mapping) : ℕ :=
  ((ms.filter fun m => m.isModifier).map fun m => m.string.length + 1).sum

theorem dash_length_le (buffer : List UInt8) : (dash buffer).length ≤ buffer.length + 1 := by
  unfold dash
  split
  · exact Nat.zero_le _
  · rw [List.length_append, List.length_singleton]

/-- One key is written at most. -/
theorem nameKeys_length : ∀ (ms : List Mapping), (∀ m ∈ ms, m ∈ stringToKeycode) →
    ∀ (buffer : List UInt8) (keycode : UInt16), (nameKeys ms buffer keycode).1.length ≤
      buffer.length + flagLength ms + if keycode &&& keyMask = 0 then 0 else 6
  | [], _, buffer, keycode => by
    rw [nameKeys, Nat.add_assoc]
    exact Nat.le_add_right _ _
  | m :: ms, hms, buffer, keycode => by
    have ih := nameKeys_length ms fun m hm => hms m (List.mem_cons_of_mem _ hm)
    have hm := hms m List.mem_cons_self
    have hdash := dash_length_le buffer
    have hflags : flagLength ms ≤ flagLength (m :: ms) := by
      unfold flagLength
      rw [List.filter_cons]
      split
      · rw [List.map_cons, List.sum_cons]
        exact Nat.le_add_left _ _
      · exact le_rfl
    rw [nameKeys]
    split
    · exact (Nat.le_add_right _ _).trans (Nat.le_add_right _ _)
    split
    next hmatches =>
      have hnext := ih (dash buffer ++ m.string) (keycode &&& ~~~m.keycode)
      rw [List.length_append, clear_and] at hnext
      cases hmod : m.isModifier with
      | false =>
        rcases mapping_cases m hm with ⟨hmod', -⟩ | ⟨-, -, hshort⟩
        · rw [hmod] at hmod'
          cases hmod'
        have hkey := matches_key hm hmod hmatches
        have hne : m.keycode ≠ 0 := by
          intro hzero
          rw [Mapping.isModifier, hzero] at hmod
          exact absurd hmod (by decide)
        rw [hkey, UInt16.and_not_self, if_pos rfl] at hnext
        rw [hkey, if_neg hne]
        omega
      | true =>
        have hsum : flagLength (m :: ms) = m.string.length + 1 + flagLength ms := by
          rw [flagLength, List.filter_cons, if_pos hmod, List.map_cons, List.sum_cons]
          rfl
        have hmask : keycode &&& keyMask = 0 → keycode &&& keyMask &&& ~~~m.keycode = 0 := fun hf => by
          rw [hf, UInt16.zero_and]
        split at hnext <;> split <;> first | omega | exact absurd (hmask ‹_›) ‹_›
    · have hnext := ih buffer keycode
      omega

theorem flagLength_table : flagLength stringToKeycode = 19 := by decide

theorem getStringFromKeyCode_length (keycode : UInt16) : (getStringFromKeyCode keycode).length < 32 := by
  have hle := nameKeys_length stringToKeycode (fun _ hm => hm) [] keycode
  rw [getStringFromKeyCode]
  generalize nameKeys stringToKeycode [] keycode = r at hle ⊢
  rw [flagLength_table, List.length_nil] at hle
  have hdash := dash_length_le r.1
  dsimp only
  split
  · rw [List.length_append]
    split at hle <;> split <;> simp only [List.length_nil, List.length_singleton] <;> omega
  · split at hle <;> omega

theorem roundTrip_iff (hnamed : Named keycode) : RoundTrip keycode ↔ Plain keycode :=
  ⟨fun h => readTokens_plain _ 0 (by decide) h.1,
    fun hplain => ⟨roundTrip_of hplain hnamed, getStringFromKeyCode_length keycode⟩⟩

/-! ### Tokens that are no name -/

/-- No run of letters and digits is too long to be counted. -/
def Counted (before : List UInt8) : Prop :=
  ∀ run, run <:+: before → Token run → run.length < 0x10000

/-- With the token in a string there is no key code, whatever else is in the string. -/
def Rejected (token : List UInt8) : Prop :=
  ∀ before after, Edge before.reverse → Edge after → Counted before →
    getKeyCodeFromString (before ++ (token ++ after)) = some 0

/-- The first run of letters and digits in a string. -/
theorem split_string (before : List UInt8) : (∀ c ∈ before, isalnum c = false) ∨
    ∃ sep run rest, before = sep ++ (run ++ rest) ∧ (∀ c ∈ sep, isalnum c = false) ∧ Token run ∧
      Edge rest := by
  have hsep : ∀ c ∈ before.takeWhile (fun c => !isalnum c), isalnum c = false := fun c hc => by
    have := List.mem_takeWhile_imp hc
    simpa using this
  have hsplit : before.takeWhile (fun c => !isalnum c) ++ skip before = before :=
    List.takeWhile_append_dropWhile
  cases hskip : skip before with
  | nil =>
    rw [hskip, List.append_nil] at hsplit
    rw [hsplit] at hsep
    exact .inl hsep
  | cons c cs =>
    have hc : isalnum c = true := by
      have hhead := List.head?_dropWhile_not (fun c => !isalnum c) before
      rw [show before.dropWhile (fun c => !isalnum c) = c :: cs from hskip] at hhead
      simpa using hhead
    refine .inr ⟨_, (c :: cs).takeWhile isalnum, (c :: cs).dropWhile isalnum, ?_, hsep, ⟨?_, ?_⟩, ?_⟩
    · rw [List.takeWhile_append_dropWhile, ← hskip, hsplit]
    · rw [List.takeWhile_cons_of_pos hc]
      exact List.cons_ne_nil _ _
    · exact fun c hc => List.mem_takeWhile_imp hc
    · intro d hd
      have hhead := List.head?_dropWhile_not isalnum (c :: cs)
      rw [Option.mem_def] at hd
      rw [hd] at hhead
      simpa using hhead

theorem Edge.append (hrest : Edge rest) (hne : rest ≠ []) : Edge (rest ++ value) := by
  intro c hc
  rw [List.head?_append_of_ne_nil rest hne] at hc
  exact hrest c hc

/-- A token that is not read ends the loop, wherever it stands. -/
theorem readTokens_rejected (htoken : Token token) (hshort : token.length < 0x10000)
    (hread : ∀ keycode, readToken keycode token token.length = none) (hrest : Edge rest) :
    ∀ (before : List UInt8) (keycode : UInt16), Edge before.reverse → Counted before →
      readTokens (before ++ (token ++ rest)) keycode = some 0
  | before, keycode, hedge, hcounted => by
    rcases split_string before with hsep | ⟨sep, run, rest', hsplit, hsep, hrun, hedge'⟩
    · rw [readTokens_token hsep htoken hrest, if_neg (Nat.not_le.mpr hshort), hread]
    have hless : rest'.length < before.length := by
      have hpos := List.length_pos_iff.mpr hrun.ne
      rw [hsplit, List.length_append, List.length_append]
      omega
    rw [hsplit] at hedge hcounted ⊢
    have hne : rest' ≠ [] := by
      rintro rfl
      rw [List.append_nil, List.reverse_append] at hedge
      have hlast : run.reverse ≠ [] := fun hf => hrun.ne (List.reverse_eq_nil_iff.mp hf)
      obtain ⟨c, cs, hrev⟩ := List.exists_cons_of_ne_nil hlast
      rw [hrev] at hedge
      have hc := hrun.alnum c (List.mem_reverse.mp (by rw [hrev]; exact List.mem_cons_self))
      rw [hedge c rfl] at hc
      cases hc
    have hlt := hcounted run ⟨sep, rest', List.append_assoc _ _ _⟩ hrun
    rw [List.append_assoc, List.append_assoc, readTokens_token hsep hrun (hedge'.append hne),
      if_neg (Nat.not_le.mpr hlt)]
    cases readToken keycode run run.length with
    | none => rfl
    | some k =>
      refine readTokens_rejected htoken hshort hread hrest rest' k ?_ ?_
      · intro c hc
        refine hedge c ?_
        rw [List.reverse_append, List.reverse_append, List.append_assoc,
          List.head?_append_of_ne_nil _ fun hf => hne (List.reverse_eq_nil_iff.mp hf)]
        exact hc
      · intro run' hinner
        refine hcounted run' (hinner.trans ?_)
        exact ⟨sep ++ run, [], by rw [List.append_nil, List.append_assoc]⟩
termination_by before => before.length
decreasing_by exact hless

/-- A token that is rejected is short enough to be counted, and gives no key. -/
theorem Rejected.reads (h : Rejected token) (htoken : Token token) :
    token.length < 0x10000 ∧ ∀ k, readToken 0 token token.length = some k → k = 0 := by
  have hread := h [] [] (fun c hc => by cases hc) (fun c hc => by cases hc)
    fun run hrun hrun' => absurd (List.infix_nil.mp hrun) hrun'.ne
  rw [getKeyCodeFromString, readTokens_token (fun c hc => absurd hc List.not_mem_nil) htoken
    fun c hc => by cases hc] at hread
  split at hread
  · cases hread
  next hshort =>
    refine ⟨Nat.not_le.mp hshort, fun k hk => ?_⟩
    rw [hk] at hread
    simp only [readTokens_nil] at hread
    exact Option.some_inj.mp hread

/-- More than one character, not too many to be counted, and not the beginning of a name. -/
def Strange (token : List UInt8) : Prop :=
  1 < token.length ∧ token.length < 0x10000 ∧
    ∀ m ∈ stringToKeycode, ¬token.map tolower <+: m.string.map tolower

theorem strnicmpEq_iff (name : List UInt8) :
    strnicmpEq token name token.length = true ↔ token.map tolower <+: name.map tolower := by
  rw [strnicmpEq, decide_eq_true_eq, List.take_length, List.prefix_iff_eq_take, List.map_take,
    List.length_map]

theorem mapping_ne_zero : ∀ m ∈ stringToKeycode, m.keycode ≠ 0 := by decide

theorem rejected_iff (htoken : Token token) : Rejected token ↔ Strange token := by
  constructor
  · intro h
    obtain ⟨hshort, hnone⟩ := h.reads htoken
    have hlong : 1 < token.length := by
      by_contra hf
      have hpos := List.length_pos_iff.mpr htoken.ne
      obtain ⟨c, rfl⟩ := List.length_eq_one_iff.mp (show token.length = 1 by omega)
      have hc := hnone _ (readToken_char UInt16.zero_and)
      rw [UInt16.zero_or] at hc
      exact absurd hc (toupper_ne_zero c (htoken.alnum c List.mem_cons_self))
    refine ⟨hlong, hshort, fun m hm hpre => ?_⟩
    have hsome : (stringToKeycode.find? fun m => strnicmpEq token m.string token.length).isSome = true :=
      List.find?_isSome.mpr ⟨m, hm, (strnicmpEq_iff m.string).mpr hpre⟩
    obtain ⟨m', hfind⟩ := Option.isSome_iff_exists.mp hsome
    refine mapping_ne_zero m' (List.mem_of_find?_eq_some hfind) (hnone m'.keycode ?_)
    rw [readToken, if_pos hlong, hfind]
    simp only [UInt16.zero_and, ne_eq, not_true, and_false, if_false, UInt16.zero_or]
  · rintro ⟨hlong, hshort, hnone⟩ before after hbefore hafter hcounted
    refine readTokens_rejected htoken hshort (fun keycode => ?_) hafter before 0 hbefore hcounted
    have hfind : (stringToKeycode.find? fun m => strnicmpEq token m.string token.length) = none :=
      List.find?_eq_none.mpr fun m hm hf => hnone m hm ((strnicmpEq_iff m.string).mp hf)
    rw [readToken, if_pos hlong, hfind]

/-- A key code comes back from its name if and only if it is one of the menu, and a token that is no
    name is rejected if and only if it has more characters than one and no name begins with it. -/
theorem keyNames_iff (keycode : UInt16) (token : List UInt8) (hnamed : Named keycode) (htoken : Token token) :
    (RoundTrip keycode ↔ Plain keycode) ∧ (Rejected token ↔ Strange token) :=
  ⟨roundTrip_iff hnamed, rejected_iff htoken⟩

theorem cursorHome_names : (RoundTrip 0x2901 ↔ Plain 0x2901) ∧
    (Rejected [0x46, 0x31, 0x33] ↔ Strange [0x46, 0x31, 0x33]) :=
  keyNames_iff 0x2901 [0x46, 0x31, 0x33] (.inr ⟨.of "HOME" keyHome, by decide⟩)
    ⟨List.cons_ne_nil _ _, forall_mem_of_all (by decide)⟩

/-- `HO` is taken for `HOME`. -/
theorem ho_accepted : ¬∀ keycode token, Named keycode → Token token →
    (∀ m ∈ stringToKeycode, token.map tolower ≠ m.string.map tolower) →
    RoundTrip keycode ∧ Rejected token := by
  intro h
  have htoken : Token [0x48, 0x4F] := ⟨List.cons_ne_nil _ _, forall_mem_of_all (by decide)⟩
  have hho := (h 0x101 [0x48, 0x4F] (.inr ⟨.of "HOME" keyHome, by decide⟩) htoken
    (by decide)).2
  have hread : readToken 0 [0x48, 0x4F] 2 = some 0x101 := by decide
  exact absurd ((hho.reads htoken).2 0x101 hread) (by decide)

end Osd
