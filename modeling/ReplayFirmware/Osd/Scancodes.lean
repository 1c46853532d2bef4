import Mathlib.Logic.Function.Basic
import Mathlib.Data.List.Basic

/-! The scancodes of a key.

    A key sends up to eight scancodes. `decode` says what the codes that have come so far are: a key,
    one of the modifiers, a key the menu has no use for, or the beginning of something longer. -/

namespace Osd

/-! ### Key codes -/

def kfGui : UInt16 := 0x0400
def kfCtrl : UInt16 := 0x0800
def kfShift : UInt16 := 0x1000
def kfAlt : UInt16 := 0x2000
def kfRepeated : UInt16 := 0x4000
def kfReleased : UInt16 := 0x8000

def keyPosx : UInt16 := 0x100
def keyFx : UInt16 := 0x200
def keyMenu : UInt16 := 0x20C
def keySysrq : UInt16 := 0x3FC
def keyPause : UInt16 := 0x3FD
def keyFlash : UInt16 := 0x3FE
def keyEsc : UInt16 := 0x01B
def keyEnter : UInt16 := 0x00D
def keyBack : UInt16 := 0x008
def keyTab : UInt16 := 0x009

/-- `KEY_MASK`: the key without its modifiers. -/
def keyMask : UInt16 := 0x03FF

/-! ### Tables -/

/-- `keycode_table`: the character of a scancode, 0 where there is none. -/
def keycodeTable : List UInt8 :=
  [0, 0, 0, 0, 0, 0, 0, 0, 0, 0, 0, 0, 0, 9, 0x60, 0,
   0, 0, 0, 0, 0, 0x51, 0x31, 0, 0, 0, 0x5A, 0x53, 0x41, 0x57, 0x32, 0,
   0, 0x43, 0x58, 0x44, 0x45, 0x34, 0x33, 0, 0, 0x20, 0x56, 0x46, 0x54, 0x52, 0x35, 0,
   0, 0x4E, 0x42, 0x48, 0x47, 0x59, 0x36, 0, 0, 0, 0x4D, 0x4A, 0x55, 0x37, 0x38, 0,
   0, 0x2C, 0x4B, 0x49, 0x4F, 0x30, 0x39, 0, 0, 0x2E, 0x2F, 0x4C, 0x3B, 0x50, 0x2D, 0,
   0, 0, 0x27, 0, 0x5B, 0x3D, 0, 0, 0, 0, 13, 0x5D, 0, 0x5C, 0, 0,
   0, 0x5C, 0, 0, 0, 0, 8, 0, 0, 0x31, 0, 0x34, 0x37, 0, 0, 0,
   0x30, 0x2E, 0x32, 0x35, 0x36, 0x38, 27, 0, 0, 0x2B, 0x33, 0x2D, 0x2A, 0x39, 0, 0]

/-- `OSD_ConvASCII` -/
def convASCII (keycode : UInt8) : UInt8 :=
  if keycode &&& 0x80 ≠ 0 then 0 else keycodeTable.getD (keycode &&& 0x7F).toNat 0

/-- One more than the place of a scancode in a table, 0 where it does not stand. -/
def place (table : List UInt8) (keycode : UInt8) : UInt8 :=
  match table.findIdx? (· = keycode) with
  | some i => i.toUInt8 + 1
  | none => 0

/-- `OSD_ConvFx` -/
def convFx : UInt8 → UInt8 :=
  place [0x05, 0x06, 0x04, 0x0C, 0x03, 0x0B, 0x83, 0x0A, 0x01, 0x09, 0x78, 0x07]

/-- `OSD_ConvPosx` -/
def convPosx : UInt8 → UInt8 :=
  place [0x6C, 0x7D, 0x7A, 0x69, 0x75, 0x72, 0x6B, 0x74, 0x71, 0x70]

/-- `OSD_ConvFlags` -/
def convFlags (keycode1 keycode2 keycode3 : UInt8) : UInt16 :=
  if keycode1 = 0x12 ∨ keycode1 = 0x59 then kfShift
  else if keycode1 = 0x11 ∨ keycode1 = 0xE0 ∧ keycode2 = 0x11 then kfAlt
  else if keycode1 = 0x14 ∨ keycode1 = 0xE0 ∧ keycode2 = 0x14 then kfCtrl
  else if keycode1 = 0xE0 ∧ (keycode2 = 0x1F ∨ keycode3 = 0x1F ∨ keycode2 = 0x27 ∨ keycode3 = 0x27) then
    kfGui
  else 0

/-! ### The buffer -/

/-- The scancodes of a key that have come so far: `keybuf` and `keypos`. -/
structure Keys where
  keybuf : ℕ → UInt8
  keypos : ℕ

/-- The break code of a released key is taken out; the keys, and the flag of the release. -/
def takeBreak (k : Keys) : Keys × UInt16 :=
  let r : Keys × UInt16 :=
    if k.keybuf 1 = 0xF0 ∧ k.keypos = 3 then
      ({ keybuf := Function.update k.keybuf 1 (k.keybuf 2), keypos := 2 }, kfReleased)
    else (k, 0)
  if r.1.keybuf 0 = 0xF0 ∧ r.1.keypos = 2 then
    ({ keybuf := Function.update r.1.keybuf 0 (r.1.keybuf 1), keypos := 1 }, kfReleased)
  else r

/-- What scancodes are. -/
inductive Decoded where
  | modifier (x : UInt16)
  | key (x : UInt16)
  | pause
  | silent
  | ignored
  | pending
  deriving DecidableEq

/-- What the scancodes of a buffer are. -/
def decode (k : Keys) : Decoded :=
  let b0 := k.keybuf 0
  let b1 := k.keybuf 1
  let flags := convFlags b0 (if k.keypos = 2 then b1 else 0) (if k.keypos = 3 then k.keybuf 2 else 0)
  let pos := if b0 = 0xE0 ∧ k.keypos = 2 then convPosx b1 else 0
  let extended := if b0 = 0xE0 ∧ k.keypos = 2 then convASCII b1 else 0
  if flags ≠ 0 then .modifier flags
  else if convASCII b0 ≠ 0 then .key (convASCII b0).toUInt16
  else if convFx b0 ≠ 0 then .key (keyFx ||| (convFx b0).toUInt16)
  else if pos ≠ 0 then .key (keyPosx ||| pos.toUInt16)
  -- E0 12 and E0 7C are the two halves of one key, of which the first says nothing
  else if b0 = 0xE0 ∧ (b1 = 0x12 ∨ b1 = 0x7C) ∧ k.keypos = 2 ∨ b0 = 0x84 ∧ k.keypos = 1 then
    if b0 = 0xE0 ∧ b1 = 0x12 then .silent else .key keySysrq
  else if extended ≠ 0 then .key extended.toUInt16
  else if b0 = 0xE1 ∧ k.keypos = 8 then .pause
  else if b0 = 0xE0 ∧ b1 ≠ 0xF0 ∧ k.keypos = 2 ∨ b0 ≠ 0xE0 ∧ b0 ≠ 0xE1 ∧ b0 ≠ 0xF0 then .ignored
  else .pending

/-! ### What is behind the codes does not count -/

/-- The same codes have come. -/
structure SameKeys (k k' : Keys) : Prop where
  keypos : k'.keypos = k.keypos
  keybuf : ∀ i < k.keypos, k'.keybuf i = k.keybuf i

theorem SameKeys.refl (k : Keys) : SameKeys k k := ⟨rfl, fun _ _ => rfl⟩

theorem SameKeys.symm {k k' : Keys} (h : SameKeys k k') : SameKeys k' k :=
  ⟨h.keypos.symm, fun i hi => (h.keybuf i (by rwa [h.keypos] at hi)).symm⟩

theorem SameKeys.trans {k k' k'' : Keys} (h : SameKeys k k') (h' : SameKeys k' k'') : SameKeys k k'' :=
  ⟨h'.keypos.trans h.keypos, fun i hi => (h'.keybuf i (by rwa [h.keypos])).trans (h.keybuf i hi)⟩

/-- The code of a key is left when its break is taken out. -/
theorem takeBreak_pos {k : Keys} (h : 0 < k.keypos) : 0 < (takeBreak k).1.keypos := by
  unfold takeBreak
  simp only
  split_ifs <;> first | exact Nat.one_pos | exact Nat.two_pos | exact h

theorem takeBreak_same {k k' : Keys} (h : SameKeys k k') :
    SameKeys (takeBreak k).1 (takeBreak k').1 ∧ (takeBreak k').2 = (takeBreak k).2 := by
  obtain ⟨hpos, hbuf⟩ := h
  unfold takeBreak
  simp only
  have h1 : (k'.keybuf 1 = 0xF0 ∧ k'.keypos = 3) ↔ k.keybuf 1 = 0xF0 ∧ k.keypos = 3 := by
    rw [hpos]
    refine and_congr_left fun h3 => ?_
    rw [hbuf 1 (by omega)]
  by_cases h3 : k.keybuf 1 = 0xF0 ∧ k.keypos = 3
  · rw [if_pos h3, if_pos (h1.mpr h3)]
    -- two codes are left, the second one moved up
    have h0 := hbuf 0 (by omega)
    have h2 := hbuf 2 (by omega)
    simp only [Function.update_of_ne (show (0 : ℕ) ≠ 1 by decide), Function.update_self, h0, h2, and_true]
    split
    · refine ⟨⟨rfl, fun i hi => ?_⟩, rfl⟩
      obtain rfl : i = 0 := by simpa using hi
      simp only [Function.update_self]
    · refine ⟨⟨rfl, fun i hi => ?_⟩, rfl⟩
      obtain rfl | rfl : i = 0 ∨ i = 1 := by
        have : i < 2 := hi
        omega
      · simp only [Function.update_of_ne (show (0 : ℕ) ≠ 1 by decide), h0]
      · simp only [Function.update_self]
  · rw [if_neg h3, if_neg (fun hf => h3 (h1.mp hf))]
    have hcond : (k'.keybuf 0 = 0xF0 ∧ k'.keypos = 2) ↔ k.keybuf 0 = 0xF0 ∧ k.keypos = 2 := by
      rw [hpos]
      refine and_congr_left fun h2 => ?_
      rw [hbuf 0 (by omega)]
    simp only [hcond]
    split
    · next h2 =>
      refine ⟨⟨rfl, fun i hi => ?_⟩, rfl⟩
      obtain rfl : i = 0 := by simpa using hi
      simp only [Function.update_self]
      exact hbuf 1 (by omega)
    · exact ⟨⟨hpos, hbuf⟩, rfl⟩

theorem decode_same {k k' : Keys} (h : SameKeys k k') (hpos : 0 < k.keypos) : decode k' = decode k := by
  obtain ⟨hkeypos, hbuf⟩ := h
  have h0 := hbuf 0 hpos
  unfold decode
  simp only [hkeypos, h0]
  by_cases h2 : k.keypos = 2
  · rw [hbuf 1 (by omega)]
    simp only [h2, show ¬(2 = 3) by decide, if_false]
  · have h3 : (if k.keypos = 3 then k'.keybuf 2 else 0) = if k.keypos = 3 then k.keybuf 2 else 0 := by
      split
      · rw [hbuf 2 (by omega)]
      · rfl
    simp only [h2, h3, and_false, false_or, if_false]
    by_cases h84 : k.keybuf 0 = 0x84
    · simp only [h84, show ¬((0x84 : UInt8) = 0xE0) by decide, false_and, if_false]
    · simp only [h84, false_and, if_false]

end Osd
