import ReplayFirmware.Osd.Independence

/-! The buffer of the scancodes.

    Scancodes are put into eight bytes until they are a key, and the buffer is emptied when they are one,
    when they cannot become one, or when no more come in time. A call in which the front button is the
    key does not look at the scancodes, and with one that comes in such a call the codes in the buffer can
    be none that it waits for: then it is not emptied any more while others follow. Without such a call
    it never runs over, and a key that finds it empty is decoded. -/

namespace Osd

/-! ### Keys and their scancodes -/

/-- The codes that a longer sequence begins with. -/
def lead (x : UInt8) : Prop := x = 0xE0 ∨ x = 0xE1 ∨ x = 0xF0

instance : DecidablePred lead := fun _ => inferInstanceAs (Decidable (_ ∨ _))

/-- What a key is that sends one scancode. -/
def plain (x : UInt8) : Decoded :=
  if x = 0x12 ∨ x = 0x59 then .modifier kfShift
  else if x = 0x11 then .modifier kfAlt
  else if x = 0x14 then .modifier kfCtrl
  else if convASCII x ≠ 0 then .key (convASCII x).toUInt16
  else if convFx x ≠ 0 then .key (keyFx ||| (convFx x).toUInt16)
  else if x = 0x84 then .key keySysrq
  else .ignored

/-- What a key is that sends E0 before its scancode. -/
def extended (x : UInt8) : Decoded :=
  if x = 0x11 then .modifier kfAlt
  else if x = 0x14 then .modifier kfCtrl
  else if x = 0x1F ∨ x = 0x27 then .modifier kfGui
  else if convPosx x ≠ 0 then .key (keyPosx ||| (convPosx x).toUInt16)
  else if x = 0x12 then .silent
  else if x = 0x7C then .key keySysrq
  else if convASCII x ≠ 0 then .key (convASCII x).toUInt16
  else .ignored

/-- A complete key sequence, the flag of a release, and what it is. -/
inductive Sequence : List UInt8 → UInt16 → Decoded → Prop
  | make {x : UInt8} (h : ¬lead x) : Sequence [x] 0 (plain x)
  | release {x : UInt8} (h : ¬lead x) : Sequence [0xF0, x] kfReleased (plain x)
  | extendedMake {x : UInt8} (h : ¬lead x) : Sequence [0xE0, x] 0 (extended x)
  | extendedRelease {x : UInt8} (h : ¬lead x) : Sequence [0xE0, 0xF0, x] kfReleased (extended x)
  | pause : Sequence [0xE1, 0x14, 0x77, 0xE1, 0xF0, 0x14, 0xF0, 0x77] 0 .pause

/-! ### Buffers with given codes -/

/-- A buffer in which these codes have come. -/
def Keys.of (p : List UInt8) : Keys := { keybuf := fun i => p.getD i 0, keypos := p.length }

/-- One more scancode. -/
def Keys.push (k : Keys) (x : UInt8) : Keys :=
  { keybuf := Function.update k.keybuf k.keypos x, keypos := k.keypos + 1 }

theorem SameKeys.push {p : List UInt8} {k : Keys} (h : SameKeys (Keys.of p) k) (x : UInt8) :
    SameKeys (Keys.of (p ++ [x])) (k.push x) := by
  have hpos : k.keypos = p.length := h.keypos
  refine ⟨by rw [Keys.push, hpos, Keys.of, List.length_append, List.length_singleton], fun i hi => ?_⟩
  have hi : i < p.length + 1 := by simpa [Keys.of] using hi
  rw [Keys.push, hpos, Keys.of]
  by_cases hlast : i = p.length
  · subst hlast
    simp
  · have hlt : i < p.length := by omega
    simp only [Function.update_of_ne hlast, List.getD_eq_getElem?_getD, List.getElem?_append_left hlt]
    exact (h.keybuf i hlt).trans List.getD_eq_getElem?_getD

theorem not_lead {x : UInt8} (h : ¬lead x) : x ≠ 0xE0 ∧ x ≠ 0xE1 ∧ x ≠ 0xF0 := by
  rw [lead, not_or, not_or] at h
  exact h

/-- One scancode is the key that it stands for. -/
theorem decode_plain {x : UInt8} (h : ¬lead x) {k : Keys} (hpos : k.keypos = 1) (hx : k.keybuf 0 = x) :
    decode k = plain x := by
  obtain ⟨h0, h1, h2⟩ := not_lead h
  rw [decode, plain, hx, hpos]
  simp only [convFlags, h0, h1, h2, false_and, if_false, or_false, and_true, ne_eq, false_or, not_true,
    not_false_eq_true, if_true]
  by_cases hshift : x = 0x12 ∨ x = 0x59
  · simp only [if_pos hshift]
    rfl
  by_cases halt : x = 0x11
  · simp only [if_neg hshift, if_pos halt]
    rfl
  by_cases hctrl : x = 0x14
  · simp only [if_neg hshift, if_neg halt, if_pos hctrl]
    rfl
  simp only [if_neg hshift, if_neg halt, if_neg hctrl, not_true, if_false]

/-- A scancode behind E0 is the key that it stands for there. -/
theorem decode_extended {x : UInt8} (h : ¬lead x) {k : Keys} (hpos : k.keypos = 2)
    (h0 : k.keybuf 0 = 0xE0) (hx : k.keybuf 1 = x) : decode k = extended x := by
  obtain ⟨-, -, hbreak⟩ := not_lead h
  have hascii : convASCII 0xE0 = 0 := by decide
  have hfx : convFx 0xE0 = 0 := by decide
  rw [decode, extended, h0, hx, hpos]
  simp only [convFlags, hascii, hfx, true_and, if_true, ne_eq, not_true, if_false, and_true,
    show ¬((0xE0 : UInt8) = 0x12 ∨ (0xE0 : UInt8) = 0x59) by decide, show (0xE0 : UInt8) ≠ 0x11 by decide,
    show (0xE0 : UInt8) ≠ 0x14 by decide, show ¬((2 : ℕ) = 3) by decide, false_or,
    show (0 : UInt8) ≠ 0x1F by decide, show (0 : UInt8) ≠ 0x27 by decide, or_false,
    show ¬((0xE0 : UInt8) = 0x84) by decide, show ¬((0xE0 : UInt8) = 0xE1) by decide, false_and, hbreak,
    not_false_eq_true]
  by_cases halt : x = 0x11
  · simp only [if_pos halt]
    rfl
  by_cases hctrl : x = 0x14
  · simp only [if_neg halt, if_pos hctrl]
    rfl
  by_cases hgui : x = 0x1F ∨ x = 0x27
  · simp only [if_neg halt, if_neg hctrl, if_pos hgui]
    rfl
  simp only [if_neg halt, if_neg hctrl, if_neg hgui, not_true, if_false]
  by_cases h12 : x = 0x12
  · simp only [if_pos (Or.inl h12 : x = 0x12 ∨ x = 0x7C), if_pos h12]
  · simp only [h12, false_or, if_false]

/-! ### Waiting for more -/

/-- More codes are waited for. -/
def Waits (p : List UInt8) : Prop :=
  (takeBreak (Keys.of p)).2 = 0 ∧ SameKeys (Keys.of p) (takeBreak (Keys.of p)).1 ∧
    decode (Keys.of p) = .pending

/-- The codes are taken: what they are, and whether the key is released. -/
def Takes (p : List UInt8) (key_break : UInt16) (d : Decoded) : Prop :=
  (takeBreak (Keys.of p)).2 = key_break ∧ decode (takeBreak (Keys.of p)).1 = d

theorem takeBreak_none {k : Keys} (h3 : ¬(k.keybuf 1 = 0xF0 ∧ k.keypos = 3))
    (h2 : ¬(k.keybuf 0 = 0xF0 ∧ k.keypos = 2)) : takeBreak k = (k, 0) := by
  rw [takeBreak, if_neg h3]
  exact if_neg h2

theorem takeBreak_two {k : Keys} (h0 : k.keybuf 0 = 0xF0) (hpos : k.keypos = 2) : takeBreak k =
    ({ keybuf := Function.update k.keybuf 0 (k.keybuf 1), keypos := 1 }, kfReleased) := by
  have h3 : ¬(k.keybuf 1 = 0xF0 ∧ k.keypos = 3) := fun hf => absurd (hpos.symm.trans hf.2) (by decide)
  rw [takeBreak, if_neg h3]
  exact if_pos ⟨h0, hpos⟩

theorem takeBreak_three {k : Keys} (h0 : k.keybuf 0 ≠ 0xF0) (h1 : k.keybuf 1 = 0xF0) (hpos : k.keypos = 3) :
    takeBreak k = ({ keybuf := Function.update k.keybuf 1 (k.keybuf 2), keypos := 2 }, kfReleased) := by
  have h3 : k.keybuf 1 = 0xF0 ∧ k.keypos = 3 := ⟨h1, hpos⟩
  unfold takeBreak
  simp only [if_pos h3, Function.update_of_ne (show (0 : ℕ) ≠ 1 by decide)]
  exact if_neg fun hf => h0 hf.1

theorem waits_of {p : List UInt8} (h3 : ¬((Keys.of p).keybuf 1 = 0xF0 ∧ (Keys.of p).keypos = 3))
    (h2 : ¬((Keys.of p).keybuf 0 = 0xF0 ∧ (Keys.of p).keypos = 2)) (hdecode : decode (Keys.of p) = .pending) :
    Waits p := by
  rw [Waits, takeBreak_none h3 h2]
  exact ⟨rfl, SameKeys.refl _, hdecode⟩

/-- The rest of a key sequence is waited for. -/
theorem Sequence.waits {seq : List UInt8} {key_break : UInt16} {d : Decoded} (h : Sequence seq key_break d)
    {n : ℕ} (hn : 0 < n) (hlt : n < seq.length) : Waits (seq.take n) := by
  cases h with
  | make h => exact absurd (show n < 1 from hlt) (by omega)
  | release h =>
    obtain rfl : n = 1 := by simp at hlt; omega
    show Waits [0xF0]
    exact waits_of (by decide) (by decide) (by decide)
  | extendedMake h =>
    obtain rfl : n = 1 := by simp at hlt; omega
    show Waits [0xE0]
    exact waits_of (by decide) (by decide) (by decide)
  | extendedRelease h =>
    obtain rfl | rfl : n = 1 ∨ n = 2 := by simp at hlt; omega
    · show Waits [0xE0]
      exact waits_of (by decide) (by decide) (by decide)
    · show Waits [0xE0, 0xF0]
      exact waits_of (by decide) (by decide) (by decide)
  | pause =>
    obtain rfl | rfl | rfl | rfl | rfl | rfl | rfl :
        n = 1 ∨ n = 2 ∨ n = 3 ∨ n = 4 ∨ n = 5 ∨ n = 6 ∨ n = 7 := by simp at hlt; omega
    all_goals exact waits_of (by decide) (by decide) (by decide)

/-- A complete sequence is taken for what it is. -/
theorem Sequence.takes {seq : List UInt8} {key_break : UInt16} {d : Decoded} (h : Sequence seq key_break d) :
    Takes seq key_break d := by
  cases h with
  | @make x h =>
    rw [Takes, takeBreak_none (k := Keys.of [x]) (fun hf => absurd hf.2 (by decide : ¬1 = 3))
      fun hf => absurd hf.2 (by decide : ¬1 = 2)]
    exact ⟨rfl, decode_plain h rfl rfl⟩
  | @release x h =>
    rw [Takes, takeBreak_two (k := Keys.of [0xF0, x]) rfl rfl]
    exact ⟨rfl, decode_plain h rfl rfl⟩
  | @extendedMake x h =>
    rw [Takes, takeBreak_none (k := Keys.of [0xE0, x]) (fun hf => absurd hf.2 (by decide : ¬2 = 3))
      fun hf => absurd hf.1 (by decide : ¬(0xE0 : UInt8) = 0xF0)]
    exact ⟨rfl, decode_extended h rfl rfl rfl⟩
  | @extendedRelease x h =>
    rw [Takes, takeBreak_three (k := Keys.of [0xE0, 0xF0, x]) (by decide : (0xE0 : UInt8) ≠ 0xF0) rfl rfl]
    exact ⟨rfl, decode_extended h rfl rfl rfl⟩
  | pause => exact ⟨by decide, by decide⟩

/-- Only codes that have come count. -/
theorem Waits.same {p : List UInt8} (h : Waits p) {k : Keys} (hk : SameKeys (Keys.of p) k) (hp : p ≠ []) :
    SameKeys (Keys.of p) (takeBreak k).1 ∧ (takeBreak k).2 = 0 ∧ decode (takeBreak k).1 = .pending := by
  obtain ⟨hbreak, hsame, hdecode⟩ := h
  obtain ⟨htaken, hflag⟩ := takeBreak_same hk
  have hof := hsame.trans htaken
  exact ⟨hof, hflag.trans hbreak, (decode_same hof (List.length_pos_iff.mpr hp)).trans hdecode⟩

theorem Takes.same {p : List UInt8} {key_break : UInt16} {d : Decoded} (h : Takes p key_break d) {k : Keys}
    (hk : SameKeys (Keys.of p) k) (hp : p ≠ []) :
    (takeBreak k).2 = key_break ∧ decode (takeBreak k).1 = d := by
  obtain ⟨htaken, hflag⟩ := takeBreak_same hk
  have hpos := takeBreak_pos (k := Keys.of p) (List.length_pos_iff.mpr hp)
  exact ⟨hflag.trans h.1, (decode_same htaken hpos).trans h.2⟩

/-! ### The bound -/

/-- What is in the buffer between calls: it waits for more, and the eighth code is the last one. -/
inductive Pending (k : Keys) : Prop
  | none (h : k.keypos = 0)
  | release (h : k.keypos = 1) (h0 : k.keybuf 0 = 0xF0)
  | extended (h : k.keypos = 1) (h0 : k.keybuf 0 = 0xE0)
  | extendedRelease (h : k.keypos = 2) (h0 : k.keybuf 0 = 0xE0) (h1 : k.keybuf 1 = 0xF0)
  | pause (h : 0 < k.keypos) (hlt : k.keypos < 8) (h0 : k.keybuf 0 = 0xE1)

theorem Pending.lt {k : Keys} (h : Pending k) : k.keypos < 8 := by
  cases h with
  | none h | release h | extended h | extendedRelease h => omega
  | pause h hlt => exact hlt

theorem Pending.same {k k' : Keys} (h : Pending k) (hk : SameKeys k k') : Pending k' := by
  obtain ⟨hpos, hbuf⟩ := hk
  cases h with
  | none h => exact .none (hpos.trans h)
  | release h h0 => exact .release (hpos.trans h) ((hbuf 0 (by omega)).trans h0)
  | extended h h0 => exact .extended (hpos.trans h) ((hbuf 0 (by omega)).trans h0)
  | extendedRelease h h0 h1 =>
    exact .extendedRelease (hpos.trans h) ((hbuf 0 (by omega)).trans h0) ((hbuf 1 (by omega)).trans h1)
  | pause h hlt h0 => exact .pause (by omega) (by omega) ((hbuf 0 h).trans h0)

/-- What is not the one is the other. -/
theorem ite_other {α : Type} {c : Prop} [Decidable c] {a b d : α} (h : (if c then a else b) = d)
    (hne : a ≠ d) : ¬c ∧ b = d := by
  split at h
  · exact absurd h hne
  · next hc => exact ⟨hc, h⟩

/-- What waiting says of the codes. -/
theorem decode_pending {k : Keys} (h : decode k = .pending) : lead (k.keybuf 0) ∧
    (k.keybuf 0 = 0xE0 → k.keypos = 2 → k.keybuf 1 = 0xF0) ∧ (k.keybuf 0 = 0xE1 → k.keypos ≠ 8) := by
  obtain ⟨-, h⟩ := ite_other h Decoded.noConfusion
  obtain ⟨-, h⟩ := ite_other h Decoded.noConfusion
  obtain ⟨-, h⟩ := ite_other h Decoded.noConfusion
  obtain ⟨-, h⟩ := ite_other h Decoded.noConfusion
  obtain ⟨-, h⟩ := ite_other h (by split <;> exact Decoded.noConfusion)
  obtain ⟨-, h⟩ := ite_other h Decoded.noConfusion
  obtain ⟨hpause, h⟩ := ite_other h Decoded.noConfusion
  obtain ⟨hignored, -⟩ := ite_other h Decoded.noConfusion
  rw [not_or, not_and, not_and, not_and, not_and] at hignored
  refine ⟨?_, fun h0 hpos => ?_, fun h0 hpos => hpause ⟨h0, hpos⟩⟩
  · rw [lead]
    by_contra hno
    rw [not_or, not_or] at hno
    exact hignored.2 hno.1 hno.2.1 hno.2.2
  · by_contra h1
    exact hignored.1 h0 h1 hpos

/-- What is in the buffer when it is looked at: one code more than what waited, at most. -/
structure Shaped (k : Keys) : Prop where
  pos : 0 < k.keypos
  le : k.keypos ≤ 8
  extended : k.keybuf 0 = 0xE0 → 2 < k.keypos → k.keypos = 3 ∧ k.keybuf 1 = 0xF0
  release : k.keybuf 0 = 0xF0 → k.keypos ≤ 2

theorem Pending.shaped {k : Keys} (h : Pending k) (hpos : 0 < k.keypos) : Shaped k := by
  refine ⟨hpos, Nat.le_of_lt h.lt, fun h0 hlt => ?_, fun h0 => ?_⟩
  · cases h with
    | none h | release h | extended h | extendedRelease h => omega
    | pause _ _ h1 => exact absurd (h0.symm.trans h1) (by decide)
  · cases h with
    | none h | release h | extended h | extendedRelease h => omega
    | pause _ _ h1 => exact absurd (h0.symm.trans h1) (by decide)

theorem Pending.push {k : Keys} (h : Pending k) (x : UInt8) : Shaped (k.push x) := by
  have hold : ∀ i < k.keypos, (k.push x).keybuf i = k.keybuf i := fun i hi =>
    Function.update_of_ne (by omega) _ _
  have hpos : (k.push x).keypos = k.keypos + 1 := rfl
  refine ⟨Nat.succ_pos _, h.lt, fun h0 hlt => ?_, fun h0 => ?_⟩
  · rw [hpos] at hlt ⊢
    rw [hold 0 (by omega)] at h0
    rw [hold 1 (by omega)]
    cases h with
    | none h | release h | extended h => omega
    | extendedRelease h _ h1 => exact ⟨by omega, h1⟩
    | pause _ _ h1 => exact absurd (h0.symm.trans h1) (by decide)
  · rw [hpos]
    by_contra hlt
    rw [hold 0 (by omega)] at h0
    cases h with
    | none h | release h | extended h => omega
    | extendedRelease _ h1 | pause _ _ h1 => exact absurd (h0.symm.trans h1) (by decide)

/-- What waits on has one of the forms. -/
theorem pending_of {k : Keys} (hpos : 0 < k.keypos) (hle : k.keypos ≤ 8)
    (hext : k.keybuf 0 = 0xE0 → k.keypos ≤ 2) (hrel : k.keybuf 0 = 0xF0 → k.keypos = 1)
    (hdecode : decode k = .pending) : Pending k := by
  obtain ⟨hlead, htwo, height⟩ := decode_pending hdecode
  rcases hlead with h0 | h0 | h0
  · have hle2 := hext h0
    by_cases h2 : k.keypos = 2
    · exact .extendedRelease h2 h0 (htwo h0 h2)
    · exact .extended (by omega) h0
  · have := height h0
    exact .pause hpos (by omega) h0
  · exact .release (hrel h0) h0

/-- Codes that have been looked at, and wait on. -/
theorem Shaped.pending {k : Keys} (h : Shaped k) (hdecode : decode (takeBreak k).1 = .pending) :
    Pending (takeBreak k).1 := by
  by_cases h3 : k.keybuf 1 = 0xF0 ∧ k.keypos = 3
  · have h0 : k.keybuf 0 ≠ 0xF0 := fun h0 => by
      have := h.release h0
      omega
    have htaken : (takeBreak k).1 = { keybuf := Function.update k.keybuf 1 (k.keybuf 2), keypos := 2 } := by
      rw [takeBreak_three h0 h3.1 h3.2]
    have hkept : Function.update k.keybuf 1 (k.keybuf 2) 0 = k.keybuf 0 := Function.update_of_ne (by decide) _ _
    rw [htaken] at hdecode ⊢
    exact pending_of Nat.two_pos (show 2 ≤ 8 by decide) (fun _ => Nat.le_refl 2)
      (fun hf => absurd (hkept.symm.trans hf) h0) hdecode
  · by_cases h2 : k.keybuf 0 = 0xF0 ∧ k.keypos = 2
    · have htaken : (takeBreak k).1 = { keybuf := Function.update k.keybuf 0 (k.keybuf 1), keypos := 1 } := by
        rw [takeBreak_two h2.1 h2.2]
      rw [htaken] at hdecode ⊢
      exact pending_of Nat.one_pos (show 1 ≤ 8 by decide) (fun _ => show 1 ≤ 2 by decide) (fun _ => rfl) hdecode
    · have htaken : (takeBreak k).1 = k := by rw [takeBreak_none h3 h2]
      rw [htaken] at hdecode ⊢
      refine pending_of h.pos h.le (fun h0 => ?_) (fun h0 => ?_) hdecode
      · by_contra hlt
        obtain ⟨hpos, h1⟩ := h.extended h0 (by omega)
        exact h3 ⟨h1, hpos⟩
      · have hle := h.release h0
        have hne : k.keypos ≠ 2 := fun hf => h2 ⟨h0, hf⟩
        have hpos := h.pos
        omega

/-! ### A call -/

/-- The call finds the front button newly pressed, and takes that for its key. -/
def pressed (s : Statics) (c : Call) : Bool := c.button && c.button_on && !s.button_pressed

/-- The front button keeps to itself. -/
theorem frontButton_spec {s t : Statics} {c : Call} {key : UInt16} (h : frontButton s c = some (t, key)) :
    t.keys = s.keys ∧ t.key_flags = s.key_flags ∧ t.old_key_code = s.old_key_code ∧
      t.ps2_delay = s.ps2_delay ∧ key = if pressed s c then keyMenu else 0 := by
  unfold frontButton at h
  rw [pressed]
  by_cases hon : (c.button && c.button_on) = true
  · rw [if_pos hon] at h
    rw [hon, Bool.true_and]
    by_cases hnew : (!s.button_pressed) = true
    · rw [if_pos hnew] at h
      obtain ⟨rfl, rfl⟩ := Prod.mk.inj (Option.some.inj h)
      exact ⟨rfl, rfl, rfl, rfl, (if_pos hnew).symm⟩
    · rw [if_neg hnew] at h
      split at h
      · cases h
      · obtain ⟨rfl, rfl⟩ := Prod.mk.inj (Option.some.inj h)
        exact ⟨rfl, rfl, rfl, rfl, (if_neg hnew).symm⟩
  · rw [if_neg hon] at h
    have hfalse : (c.button && c.button_on && !s.button_pressed) = false := by
      rw [Bool.not_eq_true] at hon
      rw [hon, Bool.false_and]
    rw [hfalse]
    split at h <;> obtain ⟨rfl, rfl⟩ := Prod.mk.inj (Option.some.inj h) <;> exact ⟨rfl, rfl, rfl, rfl, rfl⟩

/-- A scancode is put into the buffer, or what is there stays, or it is emptied. -/
theorem bufferKey_spec {s : Statics} (hlt : s.keys.keypos < 8) (c : Call) : ∃ t, bufferKey s c = some t ∧
    t.key_flags = s.key_flags ∧ t.old_key_code = s.old_key_code ∧
      ((∃ x, c.osd_enabled = true ∧ c.newkey = some x ∧ t.keys = s.keys.push x) ∨
        ¬(c.osd_enabled = true ∧ c.newkey ≠ none) ∧ (t.keys = s.keys ∨ t.keys.keypos = 0)) := by
  unfold bufferKey
  by_cases hosd : c.osd_enabled = true
  · rw [if_pos hosd]
    cases hnew : c.newkey with
    | some x =>
      simp only
      rw [if_neg (by omega)]
      exact ⟨_, rfl, rfl, rfl, Or.inl ⟨x, hosd, rfl, rfl⟩⟩
    | none =>
      refine ⟨_, rfl, ?_⟩
      split
      · exact ⟨rfl, rfl, Or.inr ⟨fun h => h.2 rfl, Or.inr rfl⟩⟩
      · exact ⟨rfl, rfl, Or.inr ⟨fun h => h.2 rfl, Or.inl rfl⟩⟩
  · rw [if_neg hosd]
    exact ⟨_, rfl, rfl, rfl, Or.inr ⟨fun h => hosd h.1, Or.inr rfl⟩⟩

@[simp] theorem markRepeat_keys (s : Statics) (key_code : UInt16) :
    (markRepeat s key_code).1.keys = s.keys := by
  unfold markRepeat
  split
  · split <;> rfl
  · rfl

@[simp] theorem flagsTimeout_keys (s : Statics) (c : Call) : (flagsTimeout s c).keys = s.keys := by
  unfold flagsTimeout
  split <;> rfl

/-- The buffer is emptied, but for codes that wait for more. -/
theorem convertKeys_keys (s : Statics) (c : Call) (key_break : UInt16) :
    decode s.keys = .pending ∧ (convertKeys s c key_break).1 = s ∨
      decode s.keys ≠ .pending ∧ (convertKeys s c key_break).1.keys.keypos = 0 := by
  unfold convertKeys
  cases hd : decode s.keys with
  | pending => exact Or.inl ⟨rfl, rfl⟩
  | modifier _ | key _ | pause | silent | ignored => exact Or.inr ⟨Decoded.noConfusion, rfl⟩

theorem processKeys_keys (s : Statics) (c : Call) : (processKeys s c).1.keys =
    (convertKeys { s with keys := (takeBreak s.keys).1 } c (takeBreak s.keys).2).1.keys := by
  rw [processKeys]
  exact markRepeat_keys ..

/-- Codes that are looked at are taken, or wait as they should. -/
theorem processKeys_pending {s : Statics} (h : Shaped s.keys) (c : Call) : Pending (processKeys s c).1.keys := by
  rw [processKeys_keys]
  rcases convertKeys_keys { s with keys := (takeBreak s.keys).1 } c (takeBreak s.keys).2 with
    ⟨hdecode, hsame⟩ | ⟨-, hempty⟩
  · rw [hsame]
    exact h.pending hdecode
  · exact .none hempty

/-- The part of a call before the serial port, when no scancode comes with the button. -/
theorem ps2Key_pending {s : Statics} (h : Pending s.keys) {c : Call}
    (hpress : pressed s c = true → c.osd_enabled = true → c.newkey = none) :
    ∃ t r, ps2Key s c = some (t, r) ∧ Pending t.keys := by
  unfold ps2Key
  cases hbutton : frontButton s c with
  | none => exact ⟨s, _, rfl, h⟩
  | some a =>
    obtain ⟨s₁, key⟩ := a
    obtain ⟨hkeys, -, -, -, hkey⟩ := frontButton_spec hbutton
    obtain ⟨s₂, hbuf, -, -, hcase⟩ := bufferKey_spec (s := s₁) (by rw [hkeys]; exact h.lt) c
    simp only [hbuf]
    refine ⟨_, _, rfl, ?_⟩
    rw [flagsTimeout_keys]
    rw [hkeys] at hcase
    rcases hcase with ⟨x, hosd, hnew, hpush⟩ | ⟨-, hsame⟩
    · have hquiet : pressed s c = false := by
        by_contra hp
        rw [Bool.not_eq_false] at hp
        rw [hpress hp hosd] at hnew
        cases hnew
      have hzero : key = 0 := by rw [hkey, hquiet]; rfl
      rw [if_pos ⟨by rw [hpush]; exact Nat.succ_ne_zero _, hzero⟩]
      exact processKeys_pending (by rw [hpush]; exact h.push x) c
    · have hpend : Pending s₂.keys := by
        rcases hsame with heq | hempty
        · rw [heq]
          exact h
        · exact .none hempty
      split
      · next hgo => exact processKeys_pending (hpend.shaped (Nat.pos_of_ne_zero hgo.1)) c
      · exact hpend

/-- The condition on a call: no scancode comes when the button is the key, and no ESC is looked ahead
    from while scancodes are pending. -/
def Orderly (s : Statics × Usart) (i : Call × Arrivals) : Prop :=
  (pressed s.1 i.1 = true → i.1.osd_enabled = true → i.1.newkey = none) ∧ Apart s i

instance (s : Statics × Usart) (i : Call × Arrivals) : Decidable (Orderly s i) :=
  inferInstanceAs (Decidable (_ ∧ _))

theorem Apart.quiet {s : Statics × Usart} {i : Call × Arrivals} {t : Statics} {outs : List Out}
    (h : Apart s i) (hps2 : ps2Key s.1 i.1 = some (t, 0, outs)) :
    escNext s.2 i.2 = true → t.keys.keypos = 0 := by
  rw [Apart, hps2] at h
  exact h rfl

/-- The serial port leaves the scancodes that are pending. -/
theorem usartKey_same {s : Statics} {u : Usart} {a : Arrivals} (h : escNext u a = true → s.keys.keypos = 0)
    (c : Call) : SameKeys s.keys (usartKey s u c a).1.keys ∧
      (usartKey s u c a).1.key_flags = s.key_flags := by
  obtain ⟨keys, _, _, hkeys, heq⟩ := usartKey_agree h c
  rw [heq]
  exact ⟨hkeys, rfl⟩

/-- A call is its first part, and the serial port behind it when that gives no key. -/
theorem getKeyCode_same {s : Statics × Usart} {i : Call × Arrivals} (ha : Apart s i) {t : Statics}
    {r : UInt16 × List Out} (hps2 : ps2Key s.1 i.1 = some (t, r)) :
    ∃ s' o, getKeyCode s i = some (s', o) ∧ SameKeys t.keys s'.1.keys ∧ s'.1.key_flags = t.key_flags ∧
      (r.1 ≠ 0 → o.ps2 = true ∧ o.key_code = r.1) := by
  obtain ⟨key_code, outs⟩ := r
  unfold getKeyCode
  simp only [hps2]
  by_cases hkey : key_code ≠ 0
  · rw [if_pos hkey]
    exact ⟨_, _, rfl, SameKeys.refl _, rfl, fun _ => ⟨rfl, rfl⟩⟩
  · rw [if_neg hkey]
    rw [not_not] at hkey
    subst hkey
    obtain ⟨hsame, hflags⟩ := usartKey_same (ha.quiet hps2) i.1
    exact ⟨_, _, rfl, hsame, hflags, fun hne => absurd rfl hne⟩

theorem getKeyCode_pending (s : Statics × Usart) (i : Call × Arrivals) (h : Pending s.1.keys)
    (ho : Orderly s i) : ∃ r, getKeyCode s i = some r ∧ Pending r.1.1.keys := by
  obtain ⟨t, r, hps2, hpend⟩ := ps2Key_pending h ho.1
  obtain ⟨s', o, hrun, hsame, -⟩ := getKeyCode_same ho.2 hps2
  exact ⟨(s', o), hrun, hpend.same hsame⟩

/-! ### A key that is decoded -/

/-- The code that is returned for a key: the menu key for the hotkey, and a mark when it comes again. -/
def reported (s : Statics) (c : Call) (key_break code : UInt16) : UInt16 :=
  (markRepeat s (if code = c.hotkey then key_break ||| keyMenu else code)).2

/-- What the call that brings the last scancode has to do: nothing is left in the buffer, a key is
    returned, and a modifier held or let go. -/
structure Taken (s : Statics) (c : Call) (key_break : UInt16) (d : Decoded) (s' : Statics) (r : Returned) :
    Prop where
  empty : s'.keys.keypos = 0
  key : ∀ x, d = .key x →
    r.ps2 = true ∧ r.key_code = reported s c key_break (key_break ||| s.key_flags ||| x)
  pause : d = .pause → r.ps2 = true ∧ r.key_code = reported s c key_break (s.key_flags ||| keyPause)
  modifier : ∀ x, d = .modifier x → timerCheck (c.time .flags + 500) (c.time .flagsCheck) = false →
    s'.key_flags = if key_break ≠ 0 then s.key_flags &&& ~~~x else s.key_flags ||| x

/-- Nothing times out: the core is asked for scancodes, and pending ones are not given up. -/
def InTime (s : Statics × Usart) (i : Call × Arrivals) : Prop :=
  i.1.osd_enabled = true ∧ (frontButton s.1 i.1).isSome = true ∧
    (i.1.newkey = none → timerCheck s.1.ps2_delay (i.1.time .ps2) = false)

/-- Calls that bring a sequence of scancodes in time, the last one of them its last. -/
structure Brings (s : Statics × Usart) (calls : List (Call × Arrivals)) (last : Call × Arrivals)
    (seq : List UInt8) : Prop where
  codes : (calls ++ [last]).filterMap (fun i => i.1.newkey) = seq
  ends : last.1.newkey ≠ none
  inTime : Unwinding.Along getKeyCode InTime s (calls ++ [last])

theorem Sequence.length_le {seq : List UInt8} {key_break : UInt16} {d : Decoded}
    (h : Sequence seq key_break d) : seq.length ≤ 8 := by
  cases h <;> simp

theorem bufferKey_code {s : Statics} {c : Call} {x : UInt8} (hlt : s.keys.keypos < 8)
    (hosd : c.osd_enabled = true) (hnew : c.newkey = some x) :
    bufferKey s c = some { s with keys := s.keys.push x, ps2_delay := c.time .ps2 + 10 } := by
  unfold bufferKey
  rw [if_pos hosd, hnew]
  exact if_neg (by omega)

theorem bufferKey_idle {s : Statics} {c : Call} (hosd : c.osd_enabled = true) (hnew : c.newkey = none)
    (htime : timerCheck s.ps2_delay (c.time .ps2) = false) : bufferKey s c = some s := by
  unfold bufferKey
  rw [if_pos hosd, hnew]
  simp only [htime, Bool.false_eq_true, and_false, if_false]

/-- A call that brings one more scancode. -/
theorem ps2Key_code {s : Statics} {p : List UInt8} (h : SameKeys (Keys.of p) s.keys) (hlt : p.length < 8)
    {c : Call} {x : UInt8} (hosd : c.osd_enabled = true) (hnew : c.newkey = some x)
    (hbutton : (frontButton s c).isSome = true) (hquiet : pressed s c = false) :
    ∃ t, t.key_flags = s.key_flags ∧ t.old_key_code = s.old_key_code ∧
      SameKeys (Keys.of (p ++ [x])) t.keys ∧
      ps2Key s c = some (flagsTimeout (processKeys t c).1 c, (processKeys t c).2) := by
  obtain ⟨⟨s₁, key⟩, hb⟩ := Option.isSome_iff_exists.mp hbutton
  obtain ⟨hkeys, hflags, hold, -, hkey⟩ := frontButton_spec hb
  have hpos : s₁.keys.keypos = p.length := by
    rw [hkeys]
    exact h.keypos
  have hbuf := bufferKey_code (s := s₁) (by omega) hosd hnew
  refine ⟨{ s₁ with keys := s₁.keys.push x, ps2_delay := c.time .ps2 + 10 }, hflags, hold,
    by rw [hkeys]; exact h.push x, ?_⟩
  unfold ps2Key
  simp only [hb, hbuf]
  rw [if_pos ⟨Nat.succ_ne_zero _, by rw [hkey, hquiet]; rfl⟩]

/-- Codes that wait for more are looked at again and stay. -/
theorem processKeys_waits {s : Statics} {p : List UInt8} (hw : Waits p) (hp : p ≠ [])
    (h : SameKeys (Keys.of p) s.keys) (c : Call) : SameKeys (Keys.of p) (processKeys s c).1.keys := by
  obtain ⟨hsame, -, hdecode⟩ := hw.same h hp
  rw [processKeys_keys]
  rcases convertKeys_keys { s with keys := (takeBreak s.keys).1 } c (takeBreak s.keys).2 with
    ⟨-, heq⟩ | ⟨hne, -⟩
  · rw [heq]
    exact hsame
  · exact absurd hdecode hne

/-- A call that brings none. -/
theorem ps2Key_idle {s : Statics} {p : List UInt8} (h : SameKeys (Keys.of p) s.keys)
    (hw : p ≠ [] → Waits p) {c : Call} (hosd : c.osd_enabled = true) (hnew : c.newkey = none)
    (hbutton : (frontButton s c).isSome = true) (htime : timerCheck s.ps2_delay (c.time .ps2) = false) :
    ∃ t r, ps2Key s c = some (t, r) ∧ SameKeys (Keys.of p) t.keys := by
  obtain ⟨⟨s₁, key⟩, hb⟩ := Option.isSome_iff_exists.mp hbutton
  obtain ⟨hkeys, -, -, hdelay, -⟩ := frontButton_spec hb
  have hbuf := bufferKey_idle (s := s₁) hosd hnew (by rw [hdelay]; exact htime)
  unfold ps2Key
  simp only [hb, hbuf]
  refine ⟨_, _, rfl, ?_⟩
  rw [flagsTimeout_keys]
  rw [← hkeys] at h
  split
  · next hgo =>
    have hp : p ≠ [] := fun hnil => hgo.1 (h.keypos.trans (by rw [hnil]; rfl))
    exact processKeys_waits (hw hp) hp h c
  · exact h

/-- What a call makes of scancodes that it takes. -/
theorem processKeys_eq {s : Statics} {key_break : UInt16} (hbreak : (takeBreak s.keys).2 = key_break) (c : Call)
    {t : Statics} {code : UInt16} {ignored : ℕ}
    (hconv : convertKeys { s with keys := (takeBreak s.keys).1 } c key_break = (t, code, ignored)) :
    (processKeys s c).1 = (markRepeat t (if code = c.hotkey then key_break ||| keyMenu else code)).1 ∧
      (processKeys s c).2.1 = (markRepeat t (if code = c.hotkey then key_break ||| keyMenu else code)).2 := by
  unfold processKeys
  simp only [hbreak, hconv, decide_eq_true_eq, and_self]

theorem markRepeat_code {s t : Statics} (h : t.old_key_code = s.old_key_code) (key_code : UInt16) :
    (markRepeat t key_code).2 = (markRepeat s key_code).2 := by
  unfold markRepeat
  rw [h]
  split
  · split <;> rfl
  · rfl

@[simp] theorem markRepeat_flags (s : Statics) (key_code : UInt16) :
    (markRepeat s key_code).1.key_flags = s.key_flags ∧
      (markRepeat s key_code).1.ps2_flags_delay = s.ps2_flags_delay := by
  unfold markRepeat
  split
  · split <;> exact ⟨rfl, rfl⟩
  · exact ⟨rfl, rfl⟩

theorem or_ne_zero {a b : UInt16} (h : b ≠ 0) : a ||| b ≠ 0 := fun hf => h (UInt16.or_eq_zero_iff.mp hf).2

theorem or_ne_zero' {a b : UInt16} (h : a ≠ 0) : a ||| b ≠ 0 := fun hf => h (UInt16.or_eq_zero_iff.mp hf).1

theorem markRepeat_ne_zero (s : Statics) {key_code : UInt16} (h : key_code ≠ 0) :
    (markRepeat s key_code).2 ≠ 0 := by
  unfold markRepeat
  split
  · split
    · exact or_ne_zero' h
    · exact h
  · exact h

/-- A key is never reported as none. -/
theorem reported_ne_zero (s : Statics) (c : Call) {key_break code : UInt16} (h : code ≠ 0) :
    reported s c key_break code ≠ 0 := by
  refine markRepeat_ne_zero s ?_
  split
  · exact or_ne_zero (by decide)
  · exact h

theorem toUInt16_ne_zero {x : UInt8} (h : x ≠ 0) : x.toUInt16 ≠ 0 := fun hf =>
  h (UInt8.toUInt16_inj.mp hf)

theorem plain_ne_zero {x : UInt8} {k : UInt16} (h : plain x = .key k) : k ≠ 0 := by
  unfold plain at h
  split_ifs at h with _ _ _ hascii _ _
  · obtain rfl := Decoded.key.inj h
    exact toUInt16_ne_zero hascii
  · obtain rfl := Decoded.key.inj h
    exact or_ne_zero' (by decide)
  · obtain rfl := Decoded.key.inj h
    decide

theorem extended_ne_zero {x : UInt8} {k : UInt16} (h : extended x = .key k) : k ≠ 0 := by
  unfold extended at h
  split_ifs at h with _ _ _ _ _ _ hascii
  · obtain rfl := Decoded.key.inj h
    exact or_ne_zero' (by decide)
  · obtain rfl := Decoded.key.inj h
    decide
  · obtain rfl := Decoded.key.inj h
    exact toUInt16_ne_zero hascii

theorem Sequence.key_ne_zero {seq : List UInt8} {key_break : UInt16} {d : Decoded}
    (h : Sequence seq key_break d) {k : UInt16} (hd : d = .key k) : k ≠ 0 := by
  cases h with
  | make _ | release _ => exact plain_ne_zero hd
  | extendedMake _ | extendedRelease _ => exact extended_ne_zero hd
  | pause => cases hd

theorem Sequence.not_pending {seq : List UInt8} {key_break : UInt16} {d : Decoded}
    (h : Sequence seq key_break d) : d ≠ .pending := by
  cases h with
  | make _ | release _ =>
    unfold plain
    split_ifs <;> exact Decoded.noConfusion
  | extendedMake _ | extendedRelease _ =>
    unfold extended
    split_ifs <;> exact Decoded.noConfusion
  | pause => exact Decoded.noConfusion

theorem flagsTimeout_flags {s : Statics} {c : Call} (h : timerCheck s.ps2_flags_delay (c.time .flagsCheck) = false) :
    (flagsTimeout s c).key_flags = s.key_flags := by
  unfold flagsTimeout
  rw [if_neg]
  exact fun hf => Bool.noConfusion (h.symm.trans hf.2)

/-- The call that brings the last scancode takes the key. -/
theorem ps2Key_taken {s : Statics} {p : List UInt8} {x : UInt8} {key_break : UInt16} {d : Decoded}
    (hseq : Sequence (p ++ [x]) key_break d) (h : SameKeys (Keys.of p) s.keys) {c : Call}
    (hosd : c.osd_enabled = true) (hnew : c.newkey = some x) (hbutton : (frontButton s c).isSome = true)
    (hquiet : pressed s c = false) :
    ∃ t r, ps2Key s c = some (t, r) ∧ t.keys.keypos = 0 ∧
      (∀ k, d = .key k → r.1 ≠ 0 ∧ r.1 = reported s c key_break (key_break ||| s.key_flags ||| k)) ∧
      (d = .pause → r.1 ≠ 0 ∧ r.1 = reported s c key_break (s.key_flags ||| keyPause)) ∧
      ∀ k, d = .modifier k → timerCheck (c.time .flags + 500) (c.time .flagsCheck) = false →
        t.key_flags = if key_break ≠ 0 then s.key_flags &&& ~~~k else s.key_flags ||| k := by
  have hlt : p.length < 8 := by
    have := hseq.length_le
    rw [List.length_append, List.length_singleton] at this
    omega
  obtain ⟨s₁, hflags, hold, hkeys, hrun⟩ := ps2Key_code h hlt hosd hnew hbutton hquiet
  obtain ⟨hbreak, hdecode⟩ := hseq.takes.same hkeys (List.append_ne_nil_of_right_ne_nil p (List.cons_ne_nil x []))
  have hempty : (processKeys s₁ c).1.keys.keypos = 0 := by
    rw [processKeys_keys]
    rcases convertKeys_keys { s₁ with keys := (takeBreak s₁.keys).1 } c (takeBreak s₁.keys).2 with
      ⟨hpend, -⟩ | ⟨-, hzero⟩
    · exact absurd (hdecode.symm.trans hpend) hseq.not_pending
    · exact hzero
  -- the code of a key in the state before the call
  have hcode : ∀ (t : Statics) {code : UInt16} (ignored : ℕ), code ≠ 0 → t.old_key_code = s.old_key_code →
      convertKeys { s₁ with keys := (takeBreak s₁.keys).1 } c key_break = (t, code, ignored) →
      (processKeys s₁ c).2.1 ≠ 0 ∧ (processKeys s₁ c).2.1 = reported s c key_break code := by
    intro t _ _ hne ht hconv
    have heq := (processKeys_eq hbreak c hconv).2.trans (markRepeat_code ht _)
    exact ⟨by rw [heq]; exact reported_ne_zero s c hne, heq⟩
  refine ⟨_, _, hrun, by rw [flagsTimeout_keys]; exact hempty, fun k hd => ?_, fun hd => ?_, fun k hd htime => ?_⟩
  · refine hcode { s₁ with keys := (takeBreak s₁.keys).1 }.clear 0
      (or_ne_zero (hseq.key_ne_zero hd)) hold ?_
    rw [convertKeys, hdecode, hd, ← hflags]
  · refine hcode { s₁ with keys := (takeBreak s₁.keys).1 }.clear 0
      (or_ne_zero (by decide)) hold ?_
    rw [convertKeys, hdecode, hd, ← hflags]
  · have hconv : convertKeys { s₁ with keys := (takeBreak s₁.keys).1 } c key_break =
        ({ ({ s₁ with keys := (takeBreak s₁.keys).1 } : Statics).clear with
          ps2_flags_delay := c.time .flags + 500
          key_flags := if key_break ≠ 0 then s₁.key_flags &&& ~~~k else s₁.key_flags ||| k }, 0, 0) := by
      rw [convertKeys, hdecode, hd]
    obtain ⟨hstate, -⟩ := processKeys_eq hbreak c hconv
    have hkept := markRepeat_flags { ({ s₁ with keys := (takeBreak s₁.keys).1 } : Statics).clear with
          ps2_flags_delay := c.time .flags + 500
          key_flags := if key_break ≠ 0 then s₁.key_flags &&& ~~~k else s₁.key_flags ||| k }
      (if (0 : UInt16) = c.hotkey then key_break ||| keyMenu else 0)
    rw [← hstate] at hkept
    rw [flagsTimeout_flags (by rw [hkept.2]; exact htime), hkept.1, ← hflags]

/-- Calls that bring the rest of a sequence in time bring the key. -/
theorem brings_taken {seq : List UInt8} {key_break : UInt16} {d : Decoded} (hseq : Sequence seq key_break d)
    {last : Call × Arrivals} (hends : last.1.newkey ≠ none) :
    ∀ (calls : List (Call × Arrivals)) {s : Statics × Usart} {p : List UInt8},
      SameKeys (Keys.of p) s.1.keys →
      p ++ (calls ++ [last]).filterMap (fun i => i.1.newkey) = seq →
      Unwinding.Along getKeyCode Orderly s (calls ++ [last]) →
      Unwinding.Along getKeyCode InTime s (calls ++ [last]) →
      ∃ t s' r, Unwinding.after getKeyCode s calls = some t ∧ getKeyCode t last = some (s', r) ∧
        Taken t.1 last.1 key_break d s'.1 r
  | [], s, p, h, hcodes, horderly, htime => by
    obtain ⟨⟨hpress, hapart⟩, -⟩ := horderly
    obtain ⟨⟨hosd, hbutton, -⟩, -⟩ := htime
    obtain ⟨x, hnew⟩ := Option.ne_none_iff_exists'.mp hends
    have hquiet : pressed s.1 last.1 = false := by
      by_contra hp
      rw [Bool.not_eq_false] at hp
      exact hends (hpress hp hosd)
    rw [List.nil_append, List.filterMap_cons, hnew] at hcodes
    subst hcodes
    obtain ⟨t, r, hps2, hempty, hkey, hpause, hmod⟩ := ps2Key_taken hseq h hosd hnew hbutton hquiet
    obtain ⟨s', o, hrun, hsame, hflags, hgives⟩ := getKeyCode_same hapart hps2
    refine ⟨s, s', o, rfl, hrun, hsame.keypos.trans hempty, fun k hd => ?_, fun hd => ?_, fun k hd hin => ?_⟩
    · obtain ⟨hne, heq⟩ := hkey k hd
      exact ⟨(hgives hne).1, (hgives hne).2.trans heq⟩
    · obtain ⟨hne, heq⟩ := hpause hd
      exact ⟨(hgives hne).1, (hgives hne).2.trans heq⟩
    · exact hflags.trans (hmod k hd hin)
  | i :: calls, s, p, h, hcodes, horderly, htime => by
    obtain ⟨⟨hpress, hapart⟩, horderly⟩ := horderly
    obtain ⟨⟨hosd, hbutton, hin⟩, htime⟩ := htime
    -- the last call brings one more
    have hmore : (calls ++ [last]).filterMap (fun i => i.1.newkey) ≠ [] := by
      obtain ⟨x, hnew⟩ := Option.ne_none_iff_exists'.mp hends
      rw [List.filterMap_append, List.filterMap_cons, hnew]
      exact List.append_ne_nil_of_right_ne_nil _ (List.cons_ne_nil x _)
    have hwaits : ∀ {p' : List UInt8}, p' ≠ [] →
        p' ++ (calls ++ [last]).filterMap (fun i => i.1.newkey) = seq → Waits p' := by
      intro p' hp' hcodes'
      have htake : seq.take p'.length = p' := by rw [← hcodes', List.take_left]
      rw [← htake]
      refine hseq.waits (List.length_pos_iff.mpr hp') ?_
      have := List.length_pos_iff.mpr hmore
      rw [← hcodes', List.length_append]
      omega
    obtain ⟨p', t, r, hps2, hcodes', hsame⟩ : ∃ p' t r, ps2Key s.1 i.1 = some (t, r) ∧
        p' ++ (calls ++ [last]).filterMap (fun i => i.1.newkey) = seq ∧ SameKeys (Keys.of p') t.keys := by
      cases hnew : i.1.newkey with
      | none =>
        rw [List.cons_append, List.filterMap_cons, hnew] at hcodes
        obtain ⟨t, r, hps2, hsame⟩ := ps2Key_idle h (fun hp => hwaits hp hcodes) hosd hnew hbutton (hin hnew)
        exact ⟨p, t, r, hps2, hcodes, hsame⟩
      | some x =>
        have hquiet : pressed s.1 i.1 = false := by
          by_contra hp
          rw [Bool.not_eq_false] at hp
          rw [hpress hp hosd] at hnew
          cases hnew
        rw [List.cons_append, List.filterMap_cons, hnew, List.append_cons] at hcodes
        have hne : p ++ [x] ≠ [] := List.append_ne_nil_of_right_ne_nil p (List.cons_ne_nil x [])
        have hlt : p.length < 8 := by
          have hle := hseq.length_le
          rw [← hcodes, List.length_append, List.length_append, List.length_singleton] at hle
          omega
        obtain ⟨t, -, -, hkeys, hps2⟩ := ps2Key_code h hlt hosd hnew hbutton hquiet
        refine ⟨p ++ [x], _, _, hps2, hcodes, ?_⟩
        rw [flagsTimeout_keys]
        exact processKeys_waits (hwaits hne hcodes) hne hkeys i.1
    obtain ⟨s', o, hrun, hkept, -⟩ := getKeyCode_same hapart hps2
    rw [hrun] at horderly htime
    obtain ⟨t', s'', r', hafter, hlast, htaken⟩ :=
      brings_taken hseq hends calls (hsame.trans hkept) hcodes' horderly htime
    exact ⟨t', s'', r', by rw [Unwinding.after, hrun]; exact hafter, hlast, htaken⟩

/-! ### Every run -/

/-- At no time there are more codes in the buffer than it holds. -/
def Bounded (calls : List (Call × Arrivals)) : Prop :=
  ∀ sofar, sofar <+: calls → ∃ s, Unwinding.after getKeyCode (Statics.init, Usart.empty) sofar = some s ∧
    s.1.keys.keypos ≤ 8

/-- A key sequence that comes behind whatever has come before is decoded, where it begins in a state
    with the property. -/
def Decodes (Begins : Statics → Prop) (calls : List (Call × Arrivals)) : Prop :=
  ∀ garbage codes last s seq key_break d, garbage ++ (codes ++ [last]) <+: calls →
    Unwinding.after getKeyCode (Statics.init, Usart.empty) garbage = some s → Begins s.1 →
    Sequence seq key_break d → Brings s codes last seq →
    ∃ t s' r, Unwinding.after getKeyCode s codes = some t ∧ getKeyCode t last = some (s', r) ∧
      Taken t.1 last.1 key_break d s'.1 r

/-- In a run of orderly calls the buffer never runs over, and a key that finds it empty is decoded. -/
theorem keybuf_decodes (calls : List (Call × Arrivals))
    (h : Unwinding.Along getKeyCode Orderly (Statics.init, Usart.empty) calls) :
    Bounded calls ∧ Decodes (fun s => s.keys.keypos = 0) calls := by
  refine ⟨fun sofar hsofar => ?_, ?_⟩
  · obtain ⟨rest, rfl⟩ := hsofar
    obtain ⟨s, hs, hpend⟩ := Unwinding.after_inv getKeyCode_pending sofar
      (show Pending (Statics.init, Usart.empty).1.keys from .none rfl) (Unwinding.along_append h).1
    exact ⟨s, hs, Nat.le_of_lt hpend.lt⟩
  · rintro garbage codes last s seq key_break d ⟨rest, rfl⟩ hs hempty hseq ⟨hcodes, hends, htime⟩
    rw [List.append_assoc] at h
    have horderly := ((Unwinding.along_append ((Unwinding.along_append h).2 s hs)).1)
    refine brings_taken hseq hends codes (p := []) ⟨hempty, fun i hi => absurd hi (Nat.not_lt_zero i)⟩ ?_
      horderly htime
    exact hcodes

/-- A call that finds the front button pressed. -/
def pressWith (newkey : Option UInt8) : Call := { callWith newkey with button := true }

/-- A cursor key with the button between its scancodes, and the key let go. -/
theorem between_decodes : Bounded [(callWith (some 0xE0), Arrivals.none), (pressWith none, Arrivals.none),
      (callWith (some 0x75), Arrivals.none), (callWith (some 0xE0), Arrivals.none)] ∧
    Decodes (fun s => s.keys.keypos = 0) [(callWith (some 0xE0), Arrivals.none),
      (pressWith none, Arrivals.none), (callWith (some 0x75), Arrivals.none),
      (callWith (some 0xE0), Arrivals.none)] :=
  keybuf_decodes _ (by decide)

/-- With the second scancode in the call of the button nothing that follows empties the buffer. -/
def overrun : List (Call × Arrivals) :=
  (callWith (some 0xE0), Arrivals.none) :: (pressWith (some 0x00), Arrivals.none) ::
    List.replicate 7 (callWith (some 0x00), Arrivals.none)

theorem press_overruns : ¬∀ calls, Bounded calls ∧ Decodes (fun _ => True) calls := by
  intro h
  obtain ⟨s, hs, -⟩ := (h overrun).1 overrun ⟨[], List.append_nil _⟩
  have hnone : (Unwinding.after getKeyCode (Statics.init, Usart.empty) overrun).isNone = true := by
    decide
  rw [hs] at hnone
  cases hnone

end Osd
