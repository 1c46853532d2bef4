import ReplayFirmware.Ini.Parser
import ReplayFirmware.Libc.CStr

/-! `ParseLine` as it works, in place. The line buffer is cut into strings by NULs that are written to
    it; a pointer into it is an index, and a null pointer is `none`.

    There is no outcome when a null pointer is followed, or anything outside the buffer is read or
    written. -/

namespace Ini.InPlace
open CStr Libc

variable {σ : Type} {b : List UInt8} {i : ℕ} {s : List UInt8}

/-! ### The code -/

/-- The loop of `StripTrailingSpaces`, for the string that begins at `s`. -/
def strip (b : List UInt8) (s : ℕ) : ℕ → Option (List UInt8)
  | 0 => some b
  | p + 1 =>
    if s < p + 1 then b[p]?.bind fun c => if isspace c = true then strip (b.set p 0) s p else some b
    else some b

/-- `StripTrailingSpaces` -/
def stripTrailingSpaces (b : List UInt8) (s : ℕ) : Option (List UInt8) :=
  (strlen b (some s)).bind fun n => strip b s (s + n)

/-- `FindFirstChar` -/
def findFirstChar (b : List UInt8) : Option ℕ → Option (Option ℕ)
  | none => some none
  | some s =>
    b[s]?.bind fun c =>
      if c = 0 then some none else (forward (fun c => c ≠ 0 ∧ isspace c) b s).map some

/-- `FindLastChar` -/
def findLastChar (b : List UInt8) (s : Option ℕ) (len : UInt16) : Option (Option ℕ) :=
  match s with
  | none => some none
  | some s => (backward isspace b s (s + len.toNat - 1)).map some

/-- `FindChar` -/
def findChar (b : List UInt8) (s : ℕ) (c : UInt8) : Option ℕ :=
  forward (fun x => x ≠ 0 ∧ passes c x) b s

/-- The line of a section; `start` is behind its bracket. -/
def parseSection (k : Client σ) (lineNumber : UInt32) (b : List UInt8) (start : ℕ) (p : Progress σ) :
    Option (UInt32 × Progress σ) := do
  let «end» ← findChar b start 0x5D
  if (← b[«end»]?) = 0x5D then
    let b ← write b «end» 0
    let entry := lookup (← string b start)
    let p := { p with iniSection := entry.token }
    if entry.token = .unknown then return (lineNumber, p)
    else if entry.isSection = false then return (lineNumber, p)
    else
      let r := p.call k .unknown none
      return (if r.1 ≠ 0 then lineNumber else 0, r.2)
  else return (lineNumber, p)

/-- The line of a keyword, which begins at `start`. -/
def parseName (k : Client σ) (lineNumber : UInt32) (b : List UInt8) (start : ℕ) (p : Progress σ) :
    Option (UInt32 × Progress σ) := do
  let «end» ← findChar b (start + 1) 0x3D
  if (← b[«end»]?) = 0x3D then
    let b ← write b «end» 0
    let b ← stripTrailingSpaces b start
    let value ← findFirstChar b (some («end» + 1))
    let last ← findLastChar b value (← strlen b value).toUInt16
    let b ← write b ((← last) + 1) 0
    let entry := lookup (← string b start)
    let lineError :=
      if entry.token = .unknown then lineNumber
      else if entry.isSection = true then lineNumber
      else 0
    let r := p.call k entry.token (← value.mapM (string b))
    return (if r.1 ≠ 0 then lineNumber else lineError, r.2)
  else return (0, p)

/-- `ParseLine` -/
def parseLine (k : Client σ) (lineNumber : UInt32) (lineBuffer : List UInt8) (p : Progress σ) :
    Option (UInt32 × Progress σ) := do
  let p := { p with config := k.freeList p.config }
  let b ← stripTrailingSpaces lineBuffer 0
  match ← findFirstChar b (some 0) with
  | none => return (0, p)
  | some start =>
    let c ← b[start]?
    if c = 0x5B then parseSection k lineNumber b (start + 1) p
    else if c ≠ 0 ∧ c ≠ 0x3B ∧ c ≠ 0x23 then parseName k lineNumber b start p
    else return (0, p)

/-! ### What the helpers find -/

/-- What trimming a string leaves alone. -/
structure Stripped (b : List UInt8) (i : ℕ) (s : List UInt8) (b' : List UInt8) : Prop where
  string : At b' i (Ini.stripTrailingSpaces s)
  frame : ∀ j t, At b j t → i + s.length < j → At b' j t

theorem strip_eq : ∀ {s : List UInt8} {b : List UInt8} {i : ℕ}, At b i s →
    ∃ b', strip b i (i + s.length) = some b' ∧ Stripped b i s b' := by
  intro s
  induction s using List.reverseRecOn with
  | nil =>
    intro b i h
    refine ⟨b, ?_, h, fun j t ht _ => ht⟩
    cases i with
    | zero => rfl
    | succ i => exact if_neg (Nat.lt_irrefl _)
  | append_singleton s c ih =>
    intro b i h
    have hget : b[i + s.length]? = some c := h.suffix.head
    rw [List.length_append, List.length_singleton, ← Nat.add_assoc, strip, if_pos (by omega), hget,
      Option.bind_some]
    by_cases hc : isspace c = true
    · obtain ⟨b', hstrip, hb'⟩ := ih h.cut
      refine ⟨b', by rw [if_pos hc, hstrip], ?_, fun j t ht hj => ?_⟩
      · rw [Ini.stripTrailingSpaces, List.rdropWhile_concat_pos _ _ _ hc]
        exact hb'.string
      · rw [List.length_append, List.length_singleton] at hj
        exact hb'.frame j t (ht.set (Or.inl (by omega))) (by omega)
    · refine ⟨b, by rw [if_neg hc], ?_, fun j t ht _ => ht⟩
      rw [Ini.stripTrailingSpaces, List.rdropWhile_concat_neg _ _ _ hc]
      exact h

theorem stripTrailingSpaces_eq (h : At b i s) :
    ∃ b', stripTrailingSpaces b i = some b' ∧ Stripped b i s b' := by
  rw [stripTrailingSpaces, h.strlen, Option.bind_some]
  exact strip_eq h

/-- Behind the blanks there is the rest of the string. -/
theorem At.spaces (h : At b i s) (p : UInt8 → Bool) :
    At b (i + (s.takeWhile p).length) (s.dropWhile p) :=
  CStr.At.suffix (s := s.takeWhile p) (by rw [List.takeWhile_append_dropWhile]; exact h)

/-- A loop that stops at NULs by itself. -/
theorem takeWhile_nonzero (hs : 0 ∉ s) (p : UInt8 → Bool) :
    s.takeWhile (fun c => c ≠ 0 ∧ p c) = s.takeWhile p := by
  induction s with
  | nil => rfl
  | cons c s ih =>
    have hc : c ≠ 0 := fun h0 => hs (h0 ▸ List.mem_cons_self)
    simp only [List.takeWhile_cons, hc, ne_eq, not_false_eq_true, true_and, Bool.decide_eq_true,
      ih fun h0 => hs (List.mem_cons_of_mem c h0)]

theorem findFirstChar_eq (h : At b i s) : findFirstChar b (some i) =
    some (if s = [] then none else some (i + (s.takeWhile isspace).length)) := by
  rw [findFirstChar]
  cases s with
  | nil =>
    have hend : b[i]? = some 0 := h.end
    rw [hend]
    rfl
  | cons c s =>
    have hc : c ≠ 0 := fun h0 => h.nonzero (h0 ▸ List.mem_cons_self)
    rw [h.head, Option.bind_some, if_neg hc, h.forward (by decide), takeWhile_nonzero h.nonzero,
      if_neg (List.cons_ne_nil c s)]
    rfl

theorem findChar_eq (h : At b i s) (c : UInt8) :
    findChar b i c = some (i + (Ini.findChar s c).1.length) := by
  rw [findChar, h.forward (by simp), takeWhile_nonzero h.nonzero]
  rfl

/-- A character in front of a string that ends in blanks is kept. -/
theorem max_rdropWhile (p : UInt8 → Bool) (c : UInt8) (s : List UInt8) :
    max 1 ((c :: s).rdropWhile p).length = (s.rdropWhile p).length + 1 := by
  induction s using List.reverseRecOn with
  | nil =>
    by_cases hc : p c = true
    · rw [List.rdropWhile_singleton, if_pos hc]
      rfl
    · rw [List.rdropWhile_singleton, if_neg hc]
      rfl
  | append_singleton s d ih =>
    rw [← List.cons_append]
    by_cases hd : p d = true
    · rw [List.rdropWhile_concat_pos _ _ _ hd, List.rdropWhile_concat_pos _ _ _ hd, ih]
    · rw [List.rdropWhile_concat_neg _ _ _ hd, List.rdropWhile_concat_neg _ _ _ hd]
      simp

/-- The last character that is kept; it is in front of the string when the string is empty. -/
theorem findLastChar_eq (h : At b i s) (hi : 0 < i) (hlen : s.length < 65536) :
    ∃ last, findLastChar b (some i) s.length.toUInt16 = some (some last) ∧
      last + 1 = i + (s.take (Ini.findLastChar s)).length := by
  have hnat : s.length.toUInt16.toNat = s.length := Nat.mod_eq_of_lt hlen
  rw [findLastChar, hnat]
  cases s with
  | nil =>
    refine ⟨i - 1, ?_, Nat.sub_add_cancel hi⟩
    obtain ⟨n, rfl⟩ := Nat.exists_eq_add_of_lt hi
    have hfirst : 0 + n + 1 + ([] : List UInt8).length - 1 = n := by
      rw [List.length_nil]
      omega
    rw [hfirst, Nat.add_sub_cancel, Nat.zero_add]
    cases n with
    | zero => rfl
    | succ n => exact congrArg (Option.map some) (if_neg (by omega))
  | cons c s =>
    have hget : ∀ k < s.length, b[i + 1 + k]? = s[k]? := fun k hk => by
      rw [h.tail.get k hk.le, List.getElem?_append_left hk]
    refine ⟨i + (s.rdropWhile isspace).length, ?_, ?_⟩
    · rw [List.length_cons, ← Nat.add_assoc, Nat.add_sub_cancel, backward_eq hget]
      rfl
    · have hle := (List.rdropWhile_prefix isspace s).length_le
      rw [List.length_take, Ini.findLastChar, max_rdropWhile, List.length_cons]
      omega

/-- What a string continues with, or its NUL. -/
theorem getElem?_findChar (h : At b i s) (c : UInt8) :
    b[i + (Ini.findChar s c).1.length]? = some ((Ini.findChar s c).2.head?.getD 0) := by
  have hrest : At b (i + (Ini.findChar s c).1.length) (Ini.findChar s c).2 := At.spaces h (passes c)
  cases hs : (Ini.findChar s c).2 with
  | nil =>
    rw [hs] at hrest
    exact hrest.end
  | cons d t =>
    rw [hs] at hrest
    exact hrest.head

/-- The character that is looked for is there, or it is not. -/
theorem head?_getD_eq {rest : List UInt8} {c : UInt8} (hc : c ≠ 0) :
    rest.head?.getD 0 = c ↔ rest.head? = some c := by
  cases rest with
  | nil => exact ⟨fun h => absurd h.symm hc, fun h => absurd h (by simp)⟩
  | cons d rest => simp

/-- Where a string is cut: what is in front of the character, and what is behind it. -/
theorem cut_findChar {c : UInt8} (h : At b i s) (hhead : (Ini.findChar s c).2.head? = some c) :
    write b (i + (Ini.findChar s c).1.length) 0
        = some (b.set (i + (Ini.findChar s c).1.length) 0) ∧
      At (b.set (i + (Ini.findChar s c).1.length) 0) i (Ini.findChar s c).1 ∧
      At (b.set (i + (Ini.findChar s c).1.length) 0) (i + (Ini.findChar s c).1.length + 1)
        (Ini.findChar s c).2.tail := by
  have hsplit : (Ini.findChar s c).1 ++ (Ini.findChar s c).2 = s :=
    List.takeWhile_append_dropWhile
  have hrest : (Ini.findChar s c).2 = c :: (Ini.findChar s c).2.tail :=
    (List.cons_head?_tail hhead).symm
  have hat : At b i ((Ini.findChar s c).1 ++ (Ini.findChar s c).2) := hsplit.symm ▸ h
  refine ⟨if_pos ?_, hat.cut, ?_⟩
  · exact lt_of_le_of_lt (Nat.add_le_add_left
      (by rw [← congrArg List.length hsplit, List.length_append]; omega) i) h.lt
  · have htail := hat.suffix
    rw [hrest] at htail
    exact htail.tail.set (Or.inl (Nat.lt_succ_self _))

/-- A string that is cut behind its first character. -/
theorem cut_cons {c : UInt8} (h : At b i (c :: s)) (d : UInt8) :
    At (b.set (i + 1 + (Ini.findChar s d).1.length) 0) i (c :: (Ini.findChar s d).1) := by
  have hsplit : (c :: (Ini.findChar s d).1) ++ (Ini.findChar s d).2 = c :: s :=
    congrArg (c :: ·) List.takeWhile_append_dropWhile
  have hcut := CStr.At.cut (hsplit.symm ▸ h)
  rw [List.length_cons, Nat.add_comm _ 1, ← Nat.add_assoc] at hcut
  exact hcut

/-! ### `ParseLine` -/

/-- The line of a section, as a string. -/
theorem parseSection_eq (k : Client σ) (lineNumber : UInt32) (p : Progress σ) (h : At b i s) :
    parseSection k lineNumber b i p = some (
      if (Ini.findChar s 0x5D).2.head? = some 0x5D then
        let entry := lookup (Ini.findChar s 0x5D).1
        let p := { p with iniSection := entry.token }
        if entry.token = .unknown then (lineNumber, p)
        else if entry.isSection = false then (lineNumber, p)
        else
          let r := p.call k .unknown none
          (if r.1 ≠ 0 then lineNumber else 0, r.2)
      else (lineNumber, p)) := by
  rw [parseSection, findChar_eq h]
  simp only [Option.bind_eq_bind, Option.bind_some, getElem?_findChar h]
  by_cases hhead : (Ini.findChar s 0x5D).2.head? = some 0x5D
  · obtain ⟨hwrite, hname, -⟩ := cut_findChar h hhead
    rw [if_pos ((head?_getD_eq (by decide)).mpr hhead), if_pos hhead, hwrite, Option.bind_some,
      hname.string, Option.bind_some]
    split_ifs <;> rfl
  · rw [if_neg (mt (head?_getD_eq (by decide)).mp hhead), if_neg hhead]
    rfl

/-- The line of a keyword, as a string: there is no outcome when nothing follows its `=`. -/
theorem parseName_eq (k : Client σ) (lineNumber : UInt32) (p : Progress σ) {c : UInt8}
    (h : At b i (c :: s)) (hs : s.length < 65536) :
    parseName k lineNumber b i p =
      if (Ini.findChar s 0x3D).2.head? = some 0x3D then
        if (Ini.findChar s 0x3D).2 = [0x3D] then none
        else
          let entry := lookup (Ini.stripTrailingSpaces (c :: (Ini.findChar s 0x3D).1))
          let value := (Ini.findFirstChar (Ini.findChar s 0x3D).2.tail).map fun v =>
            v.take (Ini.findLastChar v)
          let lineError :=
            if entry.token = .unknown then lineNumber
            else if entry.isSection = true then lineNumber
            else 0
          let r := p.call k entry.token value
          some (if r.1 ≠ 0 then lineNumber else lineError, r.2)
      else some (0, p) := by
  rw [parseName, findChar_eq h.tail]
  simp only [Option.bind_eq_bind, Option.bind_some, getElem?_findChar h.tail]
  by_cases hhead : (Ini.findChar s 0x3D).2.head? = some 0x3D
  · obtain ⟨hwrite, -, htail⟩ := cut_findChar h.tail hhead
    have hname := cut_cons h 0x3D
    have hrest := List.cons_head?_tail hhead
    have hle : (Ini.findChar s 0x3D).2.length < 65536 :=
      lt_of_le_of_lt (List.dropWhile_suffix _).length_le hs
    rw [if_pos ((head?_getD_eq (by decide)).mpr hhead), if_pos hhead, hwrite, Option.bind_some]
    generalize (Ini.findChar s 0x3D).1 = name at hname htail ⊢
    generalize (Ini.findChar s 0x3D).2 = rest at htail hrest hle ⊢
    generalize b.set (i + 1 + name.length) 0 = b₁ at hname htail ⊢
    obtain ⟨b₂, hstrip, hb₂⟩ := stripTrailingSpaces_eq hname
    have htail₂ := hb₂.frame _ _ htail (by rw [List.length_cons]; omega)
    rw [hstrip, Option.bind_some, findFirstChar_eq htail₂, Option.bind_some, Ini.findFirstChar]
    by_cases htl : rest.tail = []
    · rw [htl] at hrest ⊢
      rw [if_pos rfl, if_pos hrest.symm]
      rfl
    · have hne : rest ≠ [0x3D] := fun heq => htl (by rw [heq]; rfl)
      have hpos : i + (c :: name).length < i + 1 + name.length + 1 + (rest.tail.takeWhile isspace).length := by
        rw [List.length_cons]
        omega
      have hvalue := At.spaces htail₂ isspace
      have hshort : (rest.tail.dropWhile isspace).length < 65536 := by
        have h1 := (List.dropWhile_suffix (l := rest.tail) isspace).length_le
        rw [List.length_tail] at h1
        omega
      rw [if_neg htl, if_neg htl, if_neg hne]
      generalize i + 1 + name.length + 1 + (rest.tail.takeWhile isspace).length = j at hvalue hpos ⊢
      generalize rest.tail.dropWhile isspace = v at hvalue hshort ⊢
      obtain ⟨last, hlast, hcut⟩ := findLastChar_eq hvalue (Nat.zero_lt_of_lt hpos) hshort
      have hsplit := List.take_append_drop (Ini.findLastChar v) v
      have hstripped := (List.rdropWhile_prefix isspace (c :: name)).length_le
      have hname₃ := hb₂.string.set (v := 0)
        (Or.inr (Nat.lt_of_lt_of_le (Nat.lt_of_le_of_lt (Nat.add_le_add_left hstripped i) hpos)
          (Nat.le_add_right j (v.take (Ini.findLastChar v)).length)))
      have hvalue₃ := CStr.At.cut (hsplit.symm ▸ hvalue)
      have hlt := hvalue.lt
      rw [← congrArg List.length hsplit, List.length_append] at hlt
      rw [hvalue.strlen, Option.bind_some, hlast, Option.bind_some, Option.bind_some, hcut,
        write, if_pos (by omega), Option.bind_some, hname₃.string, Option.bind_some, Option.mapM_some,
        hvalue₃.string]
      rfl
  · rw [if_neg (mt (head?_getD_eq (by decide)).mp hhead), if_neg hhead]
    rfl

/-- A line buffer with a line in it. -/
structure LineBuffer where
  bytes : List UInt8
  length_eq : bytes.length = maxLineLen
  nul : 0 ∈ bytes

/-- The line is a name and `=`, and nothing follows. -/
def valueless (line : List UInt8) : Bool :=
  match Ini.findFirstChar (Ini.stripTrailingSpaces line) with
  | some (c :: start) =>
    c ≠ 0x5B ∧ c ≠ 0x3B ∧ c ≠ 0x23 ∧ (Ini.findChar start 0x3D).2 = [0x3D]
  | _ => false

/-- In place the parser does what it does with strings, unless there is no value. -/
theorem parseLine_eq (k : Client σ) (lineNumber : UInt32) (l : LineBuffer) (p : Progress σ) :
    parseLine k lineNumber l.bytes p =
      if valueless (cstr l.bytes) then none else some (Ini.parseLine k lineNumber l.bytes p) := by
  have hline := at_takeWhile l.nul
  obtain ⟨b, hstrip, hb⟩ := stripTrailingSpaces_eq hline
  have hat : At b 0 (Ini.stripTrailingSpaces (cstr l.bytes)) := hb.string
  have hlen : (Ini.stripTrailingSpaces (cstr l.bytes)).length < 65536 := by
    have h1 := (List.rdropWhile_prefix isspace (cstr l.bytes)).length_le
    have h2 := hline.lt
    rw [l.length_eq, Nat.zero_add] at h2
    exact lt_trans (lt_of_le_of_lt h1 h2) (by decide)
  rw [parseLine, Ini.parseLine, valueless]
  simp only [Option.bind_eq_bind, hstrip, Option.bind_some, findFirstChar_eq hat, Ini.findFirstChar]
  generalize Ini.stripTrailingSpaces (cstr l.bytes) = line at hat hlen
  by_cases hnil : line = []
  · simp only [if_pos hnil]
    rfl
  · simp only [if_neg hnil]
    have hrest := At.spaces hat isspace
    have hshort := (List.dropWhile_suffix (l := line) isspace).length_le
    generalize line.dropWhile isspace = rest at hrest hshort ⊢
    generalize 0 + (line.takeWhile isspace).length = i at hrest ⊢
    cases rest with
    | nil =>
      have hend : b[i]? = some 0 := hrest.end
      rw [hend]
      rfl
    | cons c start =>
      have hc : c ≠ 0 := fun h0 => hrest.nonzero (h0 ▸ List.mem_cons_self)
      rw [hrest.head, Option.bind_some]
      by_cases hbracket : c = 0x5B
      · rw [if_pos hbracket, parseSection_eq k lineNumber _ hrest.tail]
        simp [hbracket]
      · by_cases hcomment : c ≠ 0x3B ∧ c ≠ 0x23
        · rw [List.length_cons] at hshort
          rw [if_neg hbracket, if_pos ⟨hc, hcomment⟩,
            parseName_eq k lineNumber _ hrest (by omega)]
          by_cases hvalue : (Ini.findChar start 0x3D).2 = [0x3D]
          · simp [hbracket, hcomment, hvalue]
          · simp only [hbracket, hcomment, hvalue, if_false, ne_eq, not_false_eq_true, and_false,
              decide_false, Bool.false_eq_true]
            split
            · rfl
            · rfl
        · rw [if_neg hbracket, if_neg fun h => hcomment h.2]
          have hfalse : ¬ (c ≠ 0x5B ∧ c ≠ 0x3B ∧ c ≠ 0x23 ∧ (Ini.findChar start 0x3D).2 = [0x3D]) :=
            fun h => hcomment ⟨h.2.1, h.2.2.1⟩
          simp only [hbracket, hcomment, hfalse, if_false, decide_false, Bool.false_eq_true]
          rfl

/-- `ParseLine` stays in its buffer exactly when there is a value behind the `=` of a name. -/
theorem parseLine_safe_iff (k : Client σ) (lineNumber : UInt32) (l : LineBuffer) (p : Progress σ) :
    (parseLine k lineNumber l.bytes p).isSome = true ↔ valueless (cstr l.bytes) = false := by
  rw [parseLine_eq]
  cases valueless (cstr l.bytes) with
  | true => simp
  | false => simp

/-- A line with a name and no value. -/
def binLine : LineBuffer where
  bytes := [0x42, 0x49, 0x4E, 0x3D] ++ List.replicate 124 0
  length_eq := rfl
  nul := by decide

/-- The length of the value that is not there is asked for. -/
theorem binLine_unsafe :
    ¬∀ l : LineBuffer, (parseLine content 1 l.bytes (initial ())).isSome = true := by
  intro h
  exact absurd (h binLine) (by decide +kernel)

end Ini.InPlace
