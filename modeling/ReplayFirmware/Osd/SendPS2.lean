import ReplayFirmware.Osd.KeyBuffer

/-! Keys that are sent to the core as scancodes, and decoded from them again.

    `OSD_SendPS2` looks a key up in the tables by which `OSD_GetKeyCode` decodes it. The break code of a
    cursor key has F0 and E0 in the one order where it is sent, and in the other where it is decoded: the
    key comes back as pressed. A small letter comes back as the capital, and a key that is in no table is
    not sent. All others come back as they are. -/

namespace Osd

/-! ### `OSD_SendPS2` -/

def keyHome : UInt16 := 0x101
def keyIns : UInt16 := 0x10A
def keyF1 : UInt16 := 0x201
def keyF12 : UInt16 := 0x20C

/-- `Fx_KEY` -/
def fxKey : List UInt8 := [0x05, 0x06, 0x04, 0x0C, 0x03, 0x0B, 0x83, 0x0A, 0x01, 0x09, 0x78, 0x07]

/-- `Pos_KEY` -/
def posKey : List UInt8 := [0x6C, 0x7D, 0x7A, 0x69, 0x75, 0x72, 0x6B, 0x74, 0x71, 0x70]

/-- `unshift_table`: symbols, and the keys that they are on. -/
def unshiftTable : List (UInt16 × UInt16) :=
  [(0x21, 0x31), (0x22, 0x27), (0x23, 0x33), (0x24, 0x34), (0x25, 0x35), (0x26, 0x37), (0x28, 0x39),
   (0x29, 0x30), (0x2A, 0x38), (0x2B, 0x3D), (0x3A, 0x3B), (0x3C, 0x2C), (0x3E, 0x2E), (0x3F, 0x2F),
   (0x40, 0x32), (0x5E, 0x36), (0x5F, 0x2D), (0x7B, 0x5B), (0x7C, 0x5C), (0x7D, 0x5D), (0x7E, 0x60)]

/-- A small letter or a symbol becomes the key that it is on, and whether that is shifted. -/
def unshift (keycode : UInt16) : UInt16 × Bool :=
  if 0x61 ≤ keycode ∧ keycode ≤ 0x7A then (keycode &&& 0x5F, false)
  else match unshiftTable.find? (fun e => keycode = e.1) with
    | some e => (e.2, true)
    | none => (keycode, false)

/-- The scancode of a key, 0 where it has none; whether it is shifted, and whether E0 comes before it. -/
def scancodeOf (keycode : UInt16) : UInt8 × Bool × Bool :=
  if keycode ≤ 0x7F then
    let (key, shifted) := unshift keycode
    (((keycodeTable.findIdx? fun c => key = c.toUInt16).getD 0).toUInt8, shifted, false)
  else if keyF1 ≤ keycode ∧ keycode ≤ keyF12 then
    (fxKey.getD ((keycode &&& ~~~keyFx) - 1).toNat 0, false, false)
  else if keyHome ≤ keycode ∧ keycode ≤ keyIns then
    (posKey.getD ((keycode &&& ~~~keyPosx) - 1).toNat 0, false, true)
  else (0, false, false)

/-- `OSD_SendPS2`: the scancodes that are sent. -/
def sendPS2 (keycode : UInt16) : List UInt8 :=
  let gui := keycode &&& kfGui ≠ 0
  let ctrl := keycode &&& kfCtrl ≠ 0
  let shift := keycode &&& kfShift ≠ 0
  let alt := keycode &&& kfAlt ≠ 0
  let make := keycode &&& kfReleased = 0
  let (scancode, shifted, extended) := scancodeOf (keycode &&& keyMask)
  if scancode = 0 then []
  else if make then
    (if gui then [0xE0, 0x1F, 0xE0, 0x27] else []) ++ (if ctrl then [0x14, 0xE0, 0x14] else []) ++
      (if shift ∨ shifted then [0x12, 0x59] else []) ++ (if alt then [0x11, 0xE0, 0x11] else []) ++
      (if extended then [0xE0] else []) ++ [scancode]
  else
    [0xF0] ++ (if extended then [0xE0] else []) ++ [scancode] ++
      (if alt then [0xF0, 0x11, 0xF0, 0xE0, 0x11] else []) ++
      (if shift ∨ shifted then [0xF0, 0x12, 0xF0, 0x59] else []) ++
      (if ctrl then [0xF0, 0x14, 0xF0, 0xE0, 0x14] else []) ++
      (if gui then [0xF0, 0xE0, 0x1F, 0xF0, 0xE0, 0x27] else [])

/-! ### The decoder -/

/-- A scancode goes through the decoder of `OSD_GetKeyCode`: the key that it completes, 0 for none. -/
def decodeByte (c : Call) (s : Statics) (x : UInt8) : Statics × UInt16 :=
  let k := takeBreak (s.keys.push x)
  let r := convertKeys { s with keys := k.1 } c k.2
  (r.1, r.2.1)

/-- The keys that a stream of scancodes gives. -/
def feed (c : Call) : Statics → List UInt8 → List UInt16
  | _, [] => []
  | s, x :: xs =>
    let r := decodeByte c s x
    (if r.2 ≠ 0 then [r.2] else []) ++ feed c r.1 xs

variable {c : Call} {s : Statics} {p : List UInt8} {x : UInt8}

/-- Codes that wait for more give no key yet. -/
theorem decodeByte_waits (h : SameKeys (Keys.of p) s.keys) (hw : Waits (p ++ [x])) :
    ∃ t, decodeByte c s x = (t, 0) ∧ SameKeys (Keys.of (p ++ [x])) t.keys ∧ t.key_flags = s.key_flags := by
  obtain ⟨hsame, -, hdecode⟩ := hw.same (h.push x) (List.append_ne_nil_of_right_ne_nil p (List.cons_ne_nil x []))
  unfold decodeByte convertKeys
  simp only [hdecode]
  exact ⟨_, rfl, hsame, rfl⟩

/-- The last scancode gives the key. -/
theorem decodeByte_key {key_break k : UInt16} (h : SameKeys (Keys.of p) s.keys)
    (hseq : Sequence (p ++ [x]) key_break (.key k)) :
    (decodeByte c s x).2 = key_break ||| s.key_flags ||| k := by
  obtain ⟨hbreak, hdecode⟩ := hseq.takes.same (h.push x)
    (List.append_ne_nil_of_right_ne_nil p (List.cons_ne_nil x []))
  unfold decodeByte convertKeys
  simp only [hdecode, hbreak]

theorem feed_silent {t : Statics} {xs : List UInt8} (h : decodeByte c s x = (t, 0)) :
    feed c s (x :: xs) = feed c t xs := by
  rw [feed, h]
  rfl

theorem feed_last {k : UInt16} (h : (decodeByte c s x).2 = k) (hk : k ≠ 0) : feed c s [x] = [k] := by
  rw [feed, feed, h, if_pos hk]
  rfl

/-- The beginning of a sequence, one code longer. -/
theorem take_concat (p : List UInt8) (x : UInt8) (q : List UInt8) :
    (p ++ x :: q).take (p.length + 1) = p ++ [x] := by
  rw [List.take_length_add_append, List.take_succ_cons, List.take_zero]

/-- The rest of a key sequence gives the key. -/
theorem feed_rest {key_break k : UInt16} : ∀ (q : List UInt8) {s : Statics} {p : List UInt8},
    Sequence (p ++ q) key_break (.key k) → SameKeys (Keys.of p) s.keys → q ≠ [] →
      feed c s q = [key_break ||| s.key_flags ||| k]
  | [], _, _, _, _, hq => absurd rfl hq
  | [x], s, p, hseq, h, _ =>
    feed_last (decodeByte_key h hseq) (or_ne_zero (hseq.key_ne_zero rfl))
  | x :: y :: q, s, p, hseq, h, _ => by
    have hwaits : Waits (p ++ [x]) := by
      rw [← take_concat p x (y :: q)]
      refine hseq.waits (Nat.succ_pos _) ?_
      rw [List.length_append, List.length_cons, List.length_cons]
      omega
    obtain ⟨t, hbyte, hsame, hflags⟩ := decodeByte_waits (c := c) h hwaits
    rw [feed_silent hbyte, ← hflags]
    rw [List.append_cons] at hseq
    exact feed_rest (y :: q) hseq hsame (List.cons_ne_nil y q)

/-- A complete sequence gives its key, where nothing is pending. -/
theorem feed_sequence {seq : List UInt8} {key_break k : UInt16} (hseq : Sequence seq key_break (.key k))
    (hempty : s.keys.keypos = 0) : feed c s seq = [key_break ||| s.key_flags ||| k] := by
  refine feed_rest (p := []) seq hseq ⟨hempty, fun i hi => absurd hi (Nat.not_lt_zero i)⟩ ?_
  rintro rfl
  cases hseq

/-! ### The tables -/

/-- A table is gone through entry by entry, not value by value of their type. -/
theorem forall_mem_of_all {α : Type} {l : List α} {q : α → Prop} [DecidablePred q]
    (h : (l.all fun a => decide (q a)) = true) : ∀ a ∈ l, q a :=
  fun a ha => of_decide_eq_true (List.all_eq_true.mp h a ha)

theorem plain_table : ∀ i ∈ List.range 128, keycodeTable.getD i 0 ≠ 0 →
    plain i.toUInt8 = .key (keycodeTable.getD i 0).toUInt16 := by decide +kernel

theorem plain_fxKey : ∀ i ∈ List.range 12, ¬lead (fxKey.getD i 0) ∧
    plain (fxKey.getD i 0) = .key (keyFx ||| (i + 1).toUInt16) := by decide

theorem extended_posKey : ∀ i ∈ List.range 10, ¬lead (posKey.getD i 0) ∧
    extended (posKey.getD i 0) = .key (keyPosx ||| (i + 1).toUInt16) := by decide

theorem not_lead_ofNat {i : ℕ} (h : i < 128) : ¬lead i.toUInt8 := by
  have hval : i.toUInt8.toNat = i := by
    rw [Nat.toUInt8, UInt8.toNat_ofNat']
    omega
  rintro (h0 | h0 | h0) <;>
    · have := congrArg UInt8.toNat h0
      rw [hval] at this
      simp at this
      omega

/-- What the search in the table finds is the character. -/
theorem findIdx_table {key : UInt16} {sc : UInt8}
    (h : ((keycodeTable.findIdx? fun c => key = c.toUInt16).getD 0).toUInt8 = sc) (hsc : sc ≠ 0) :
    ¬lead sc ∧ plain sc = .key key := by
  cases hfind : keycodeTable.findIdx? (fun c => decide (key = c.toUInt16)) with
  | none =>
    rw [hfind] at h
    exact absurd h.symm hsc
  | some i =>
    rw [hfind, Option.getD_some] at h
    obtain ⟨hlt, hkey, hfirst⟩ := List.findIdx?_eq_some_iff_getElem.mp hfind
    rw [decide_eq_true_eq] at hkey
    have hi : i < 128 := hlt
    have hpos : 0 < i := Nat.pos_of_ne_zero fun hf => hsc (by rw [← h, hf]; rfl)
    have hne : key ≠ 0 := by
      have := hfirst 0 hpos
      rw [Bool.not_eq_true, decide_eq_false_iff_not] at this
      exact this
    have hentry : key = (keycodeTable.getD i 0).toUInt16 := by
      rw [List.getD_eq_getElem?_getD, List.getElem?_eq_getElem hlt, Option.getD_some]
      exact hkey
    have hchar : keycodeTable.getD i 0 ≠ 0 := fun hf => hne (by rw [hentry, hf]; rfl)
    rw [← h, plain_table i (List.mem_range.mpr hi) hchar, ← hentry]
    exact ⟨not_lead_ofNat hi, rfl⟩

/-! ### The round trip -/

/-- The code of a key without modifiers, pressed or released. -/
def keyCode (key : UInt16) (released : Bool) : UInt16 := if released then kfReleased ||| key else key

/-- What is sent for a key comes back as the key, where nothing is pending and no modifier held. -/
def RoundTrips (key : UInt16) (released : Bool) : Prop :=
  ∀ (c : Call) (s : Statics), s.keys.keypos = 0 → s.key_flags = 0 →
    feed c s (sendPS2 (keyCode key released)) = [keyCode key released]

variable {key : UInt16} {released : Bool}

/-- A key has none of the bits outside of the mask. -/
theorem and_flag {m : UInt16} (h : key &&& keyMask = key) (hm : keyMask &&& m = 0) : key &&& m = 0 := by
  rw [← h, UInt16.and_assoc, hm, UInt16.and_zero]

theorem or_and_flag (a b m : UInt16) : (a ||| b) &&& m = (a &&& m) ||| (b &&& m) := by
  rw [← UInt16.toBitVec_inj, UInt16.toBitVec_and, UInt16.toBitVec_or, BitVec.and_or_distrib_right]
  rfl

theorem keyCode_mask (h : key &&& keyMask = key) : keyCode key released &&& keyMask = key := by
  unfold keyCode
  split
  · rw [or_and_flag, h, show kfReleased &&& keyMask = 0 by decide, UInt16.zero_or]
  · exact h

theorem keyCode_flag {m : UInt16} (h : key &&& keyMask = key) (hm : keyMask &&& m = 0)
    (hr : kfReleased &&& m = 0) : keyCode key released &&& m = 0 := by
  unfold keyCode
  split
  · rw [or_and_flag, and_flag h hm, hr, UInt16.or_zero]
  · exact and_flag h hm

theorem keyCode_released (released : Bool) (h : key &&& keyMask = key) :
    keyCode key released &&& kfReleased = 0 ↔ released = false := by
  cases released with
  | true =>
    refine ⟨fun hf => absurd hf ?_, fun hf => Bool.noConfusion hf⟩
    show (kfReleased ||| key) &&& kfReleased ≠ 0
    rw [or_and_flag]
    exact or_ne_zero' (by decide)
  | false => exact ⟨fun _ => rfl, fun _ => and_flag h (by decide)⟩

/-- Without modifiers and a shift the scancode is sent alone, behind E0 and F0. -/
theorem sendPS2_plain (released : Bool) {sc : UInt8} {ext : Bool} (h : key &&& keyMask = key)
    (hcode : scancodeOf key = (sc, false, ext)) (hsc : sc ≠ 0) :
    sendPS2 (keyCode key released) =
      (if released then [0xF0] else []) ++ (if ext then [0xE0] else []) ++ [sc] := by
  unfold sendPS2
  simp only [keyCode_mask h, hcode, if_neg hsc, keyCode_flag (m := kfGui) h (by decide) (by decide),
    keyCode_flag (m := kfCtrl) h (by decide) (by decide), keyCode_flag (m := kfShift) h (by decide) (by decide),
    keyCode_flag (m := kfAlt) h (by decide) (by decide), ne_eq, not_true, if_false, false_or, List.nil_append,
    List.append_nil, keyCode_released _ h]
  cases released <;> cases ext <;> simp

/-- A key that is decoded from its scancode comes back. -/
theorem roundTrips_of {seq : List UInt8} {key' : UInt16}
    (hsend : sendPS2 (keyCode key released) = seq)
    (hseq : Sequence seq (if released then kfReleased else 0) (.key key')) :
    RoundTrips key released ↔ keyCode key' released = keyCode key released := by
  have hfeed : ∀ (c : Call) (s : Statics), s.keys.keypos = 0 → s.key_flags = 0 →
      feed c s (sendPS2 (keyCode key released)) = [keyCode key' released] := by
    intro c s hempty hflags
    rw [hsend, feed_sequence hseq hempty, hflags, UInt16.or_zero, keyCode]
    cases released
    · rw [if_neg Bool.false_ne_true, if_neg Bool.false_ne_true, UInt16.zero_or]
    · rfl
  constructor
  · intro h
    have hboth := (hfeed (callWith none) Statics.init rfl rfl).symm.trans (h (callWith none) Statics.init rfl rfl)
    exact (List.cons.inj hboth).1
  · intro heq c s hempty hflags
    rw [hfeed c s hempty hflags, heq]

/-- F0 is forgotten when E0 follows it. -/
theorem feed_reordered (hempty : s.keys.keypos = 0) {k : UInt16} (hx : ¬lead x) (hk : extended x = .key k) :
    feed c s [0xF0, 0xE0, x] = [s.key_flags ||| k] := by
  have hstart : SameKeys (Keys.of []) s.keys := ⟨hempty, fun i hi => absurd hi (Nat.not_lt_zero i)⟩
  have hwaits : Waits ([] ++ [0xF0]) := waits_of (by decide) (by decide) (by decide)
  obtain ⟨t, hbyte, hsame, hflags⟩ := decodeByte_waits (c := c) hstart hwaits
  have htwo : SameKeys (Keys.of [0xF0, 0xE0]) (t.keys.push 0xE0) := hsame.push 0xE0
  have hone : SameKeys (Keys.of [0xE0]) (takeBreak (Keys.of [0xF0, 0xE0])).1 := by
    refine ⟨by decide, fun i hi => ?_⟩
    obtain rfl : i = 0 := Nat.lt_one_iff.mp hi
    decide
  have htaken := hone.trans (takeBreak_same htwo).1
  have hpend : decode (takeBreak (t.keys.push 0xE0)).1 = .pending :=
    (decode_same htaken Nat.one_pos).trans (by decide)
  have hnext : decodeByte c t 0xE0 = ({ t with keys := (takeBreak (t.keys.push 0xE0)).1 }, 0) := by
    unfold decodeByte convertKeys
    simp only [hpend]
  have hseq : Sequence ([0xE0] ++ [x]) 0 (.key k) := hk ▸ Sequence.extendedMake hx
  rw [feed_silent hbyte, feed_silent hnext,
    feed_rest (s := { t with keys := (takeBreak (t.keys.push 0xE0)).1 }) [x] hseq htaken (List.cons_ne_nil x []),
    UInt16.zero_or, ← hflags]

theorem keyCode_inj {key' : UInt16} (h : key &&& keyMask = key) (h' : key' &&& keyMask = key') :
    keyCode key' released = keyCode key released ↔ key' = key :=
  ⟨fun heq => by rw [← keyCode_mask h', heq, keyCode_mask h], fun heq => by rw [heq]⟩

/-- A code between two others is one of those counted from the first. -/
theorem exists_count {a b : UInt16} (ha : a ≤ key) (hb : key ≤ b) :
    ∃ i ∈ List.range (b.toNat - a.toNat + 1), key = (a.toNat + i).toUInt16 := by
  rw [UInt16.le_iff_toNat_le] at ha hb
  refine ⟨key.toNat - a.toNat, List.mem_range.mpr (by omega), ?_⟩
  rw [Nat.add_sub_cancel' ha, Nat.toUInt16, UInt16.ofNat_toNat]

theorem scancodeOf_fx : ∀ i ∈ List.range 12,
    scancodeOf (keyF1.toNat + i).toUInt16 = (fxKey.getD i 0, false, false) ∧
      keyFx ||| (i + 1).toUInt16 = (keyF1.toNat + i).toUInt16 := by decide

theorem fxKey_ne_zero : ∀ i ∈ List.range 12, fxKey.getD i 0 ≠ 0 := by decide

theorem posKey_ne_zero : ∀ i ∈ List.range 10, posKey.getD i 0 ≠ 0 := by decide

theorem scancodeOf_pos : ∀ i ∈ List.range 10,
    scancodeOf (keyHome.toNat + i).toUInt16 = (posKey.getD i 0, false, true) ∧
      keyPosx ||| (i + 1).toUInt16 = (keyHome.toNat + i).toUInt16 := by decide

/-- A character comes back as the key that it is on. -/
theorem roundTrips_char (h : key &&& keyMask = key) (hchar : key ≤ 0x7F) (hcode : (scancodeOf key).1 ≠ 0)
    (hshift : (scancodeOf key).2.1 = false) : RoundTrips key released ↔ ¬(0x61 ≤ key ∧ key ≤ 0x7A) := by
  obtain ⟨sc, hsc⟩ : ∃ sc, ((keycodeTable.findIdx? fun c => (unshift key).1 = c.toUInt16).getD 0).toUInt8 = sc :=
    ⟨_, rfl⟩
  have heq : scancodeOf key = (sc, (unshift key).2, false) := by
    rw [← hsc]
    exact if_pos hchar
  rw [heq] at hcode hshift
  have hfalse : (unshift key).2 = false := hshift
  obtain ⟨hlead, hplain⟩ := findIdx_table hsc hcode
  have hsend := sendPS2_plain released h (heq.trans (by rw [hfalse])) hcode
  have hseq : Sequence ((if released then [0xF0] else []) ++ [] ++ [sc])
      (if released then kfReleased else 0) (.key (unshift key).1) := by
    rw [← hplain]
    cases released
    · exact .make hlead
    · exact .release hlead
  rw [roundTrips_of hsend hseq]
  by_cases hsmall : 0x61 ≤ key ∧ key ≤ 0x7A
  · have hunshift : (unshift key).1 = key &&& 0x5F := congrArg Prod.fst (if_pos hsmall)
    refine iff_of_false (fun hf => ?_) (not_not_intro hsmall)
    have hmask : key &&& 0x5F &&& keyMask = key &&& 0x5F := by
      rw [UInt16.and_assoc, show (0x5F : UInt16) &&& keyMask = 0x5F by decide]
    rw [hunshift, keyCode_inj h hmask] at hf
    have hle : key.toNat ≤ 0x5F := by
      rw [← hf, UInt16.toNat_and]
      exact Nat.and_le_right
    have hlow := UInt16.le_iff_toNat_le.mp hsmall.1
    rw [show (0x61 : UInt16).toNat = 0x61 from rfl] at hlow
    omega
  · refine iff_of_true ?_ hsmall
    have hunshift : (unshift key).1 = key := by
      unfold unshift at hfalse ⊢
      rw [if_neg hsmall] at hfalse ⊢
      split at hfalse
      · cases hfalse
      · rfl
    rw [hunshift]

/-- A key that has a scancode comes back, if and only if it is not a small letter, and no cursor key that
    is released. -/
theorem roundTrips_iff (h : key &&& keyMask = key) (hcode : (scancodeOf key).1 ≠ 0)
    (hshift : (scancodeOf key).2.1 = false) : RoundTrips key released ↔
      ¬(0x61 ≤ key ∧ key ≤ 0x7A) ∧ ¬(released = true ∧ keyHome ≤ key ∧ key ≤ keyIns) := by
  by_cases hchar : key ≤ 0x7F
  · have hno : ¬(released = true ∧ keyHome ≤ key ∧ key ≤ keyIns) := fun hf =>
      absurd (UInt16.le_trans hf.2.1 hchar) (by decide)
    rw [and_iff_left hno]
    exact roundTrips_char h hchar hcode hshift
  have hsmall : ¬(0x61 ≤ key ∧ key ≤ 0x7A) := fun hf => hchar (UInt16.le_trans hf.2 (by decide))
  rw [and_iff_right hsmall]
  by_cases hfx : keyF1 ≤ key ∧ key ≤ keyF12
  · obtain ⟨i, hi, rfl⟩ := exists_count hfx.1 hfx.2
    obtain ⟨heq, hkey⟩ := scancodeOf_fx i hi
    obtain ⟨hlead, hplain⟩ := plain_fxKey i hi
    rw [heq] at hcode
    have hseq : Sequence ((if released then [0xF0] else []) ++ [] ++ [fxKey.getD i 0])
        (if released then kfReleased else 0) (.key (keyF1.toNat + i).toUInt16) := by
      rw [← hkey, ← hplain]
      cases released
      · exact .make hlead
      · exact .release hlead
    rw [roundTrips_of (sendPS2_plain _ h heq hcode) hseq]
    refine iff_of_true rfl ?_
    rintro ⟨-, -, hins⟩
    exact absurd (UInt16.le_trans hfx.1 hins) (by decide)
  by_cases hpos : keyHome ≤ key ∧ key ≤ keyIns
  · rw [and_iff_left hpos]
    obtain ⟨i, hi, rfl⟩ := exists_count hpos.1 hpos.2
    obtain ⟨heq, hkey⟩ := scancodeOf_pos i hi
    obtain ⟨hlead, hextended⟩ := extended_posKey i hi
    rw [heq] at hcode
    have hsend := sendPS2_plain released h heq hcode
    rw [hkey] at hextended
    cases released with
    | false =>
      have hseq : Sequence [0xE0, posKey.getD i 0] 0 (.key (keyHome.toNat + i).toUInt16) := by
        rw [← hextended]
        exact .extendedMake hlead
      rw [roundTrips_of hsend hseq]
      exact iff_of_true rfl Bool.false_ne_true
    | true =>
      refine iff_of_false (fun hf => ?_) (not_not_intro rfl)
      have hback := hf (callWith none) Statics.init rfl rfl
      rw [hsend] at hback
      have hmade := feed_reordered (c := callWith none) (s := Statics.init) rfl hlead hextended
      have hcodes := (List.cons.inj (hmade.symm.trans hback)).1
      have hbit := congrArg (· &&& kfReleased) hcodes
      rw [show Statics.init.key_flags = 0 from rfl, UInt16.zero_or] at hbit
      have hzero := (keyCode_released true h).mp (hbit.symm.trans (and_flag h (by decide)))
      cases hzero
  · exact absurd (by rw [scancodeOf, if_neg hchar, if_neg hfx, if_neg hpos]) hcode

/-- For a key without a scancode nothing is sent. -/
theorem not_roundTrips (h : key &&& keyMask = key) (hcode : (scancodeOf key).1 = 0) :
    ¬RoundTrips key released := by
  intro hback
  have hnone : sendPS2 (keyCode key released) = [] := by
    unfold sendPS2
    simp only [keyCode_mask h, hcode, if_true]
  have hfeed := hback (callWith none) Statics.init rfl rfl
  rw [hnone] at hfeed
  cases hfeed

/-- A character of the table, or a function or cursor key. -/
def InTables (key : UInt16) : Prop :=
  (key ≠ 0 ∧ ∃ c ∈ keycodeTable, key = c.toUInt16) ∨ (keyF1 ≤ key ∧ key ≤ keyF12) ∨
    (keyHome ≤ key ∧ key ≤ keyIns)

instance : DecidablePred InTables := fun key => by
  unfold InTables
  infer_instance

/-- The search finds a place other than the first, if and only if the character is one of the table. -/
theorem findIdx_ne_zero : ((keycodeTable.findIdx? fun c => key = c.toUInt16).getD 0).toUInt8 ≠ 0 ↔
    key ≠ 0 ∧ ∃ c ∈ keycodeTable, key = c.toUInt16 := by
  constructor
  · intro hcode
    obtain ⟨i, hfind⟩ : ∃ i, (keycodeTable.findIdx? fun c => key = c.toUInt16) = some i :=
      Option.ne_none_iff_exists'.mp fun hf => hcode (by rw [hf]; rfl)
    obtain ⟨hlt, hkey, hfirst⟩ := List.findIdx?_eq_some_iff_getElem.mp hfind
    have hpos : 0 < i := Nat.pos_of_ne_zero fun hf => hcode (by rw [hfind, hf]; rfl)
    have hne := hfirst 0 hpos
    rw [Bool.not_eq_true, decide_eq_false_iff_not] at hne
    exact ⟨hne, keycodeTable[i], List.getElem_mem hlt, of_decide_eq_true hkey⟩
  · rintro ⟨hne, c, hc, heq⟩ hcode
    obtain ⟨i, hfind⟩ : ∃ i, (keycodeTable.findIdx? fun c => key = c.toUInt16) = some i :=
      Option.isSome_iff_exists.mp (List.findIdx?_isSome.trans (List.any_eq_true.mpr ⟨c, hc, decide_eq_true heq⟩))
    obtain ⟨hlt, hkey, -⟩ := List.findIdx?_eq_some_iff_getElem.mp hfind
    rw [hfind, Option.getD_some] at hcode
    have hi : i < 128 := hlt
    obtain rfl : i = 0 := by
      have hval := congrArg UInt8.toNat hcode
      rw [Nat.toUInt8, UInt8.toNat_ofNat', UInt8.toNat_zero] at hval
      omega
    exact hne (of_decide_eq_true hkey)

theorem unshift_plain (hshift : ∀ e ∈ unshiftTable, key ≠ e.1) :
    unshift key = (if 0x61 ≤ key ∧ key ≤ 0x7A then key &&& 0x5F else key, false) := by
  unfold unshift
  split
  · rfl
  · have hfind : (unshiftTable.find? fun e => key = e.1) = none :=
      List.find?_eq_none.mpr fun e he hf => hshift e he (of_decide_eq_true hf)
    rw [hfind]

theorem table_capital : ∀ c ∈ keycodeTable, ¬(0x61 ≤ c.toUInt16 ∧ c.toUInt16 ≤ 0x7A) :=
  forall_mem_of_all (by decide)

/-- A character of the table has a scancode, and is no small letter. -/
theorem inTables_char (hchar : key ≤ 0x7F) (hshift : ∀ e ∈ unshiftTable, key ≠ e.1) :
    (scancodeOf key).2.1 = false ∧
      (InTables key ↔ (scancodeOf key).1 ≠ 0 ∧ ¬(0x61 ≤ key ∧ key ≤ 0x7A)) := by
  have hcode : scancodeOf key =
      (((keycodeTable.findIdx? fun c => (unshift key).1 = c.toUInt16).getD 0).toUInt8, (unshift key).2, false) :=
    if_pos hchar
  have hno : ¬((keyF1 ≤ key ∧ key ≤ keyF12) ∨ (keyHome ≤ key ∧ key ≤ keyIns)) := by
    rintro (hf | hf) <;> exact absurd (UInt16.le_trans hf.1 hchar) (by decide)
  rw [hcode, unshift_plain hshift, InTables, or_iff_left hno]
  refine ⟨rfl, ?_⟩
  by_cases hsmall : 0x61 ≤ key ∧ key ≤ 0x7A
  · refine iff_of_false ?_ fun hf => hf.2 hsmall
    rintro ⟨-, c, hc, rfl⟩
    exact table_capital c hc hsmall
  · rw [and_iff_left hsmall, if_neg hsmall]
    exact findIdx_ne_zero.symm

theorem table_le : ∀ c ∈ keycodeTable, c.toUInt16 ≤ 0x7F := forall_mem_of_all (by decide)

theorem inTables_iff (hshift : ∀ e ∈ unshiftTable, key ≠ e.1) : (scancodeOf key).2.1 = false ∧
    (InTables key ↔ (scancodeOf key).1 ≠ 0 ∧ ¬(0x61 ≤ key ∧ key ≤ 0x7A)) := by
  by_cases hchar : key ≤ 0x7F
  · exact inTables_char hchar hshift
  have hsmall : ¬(0x61 ≤ key ∧ key ≤ 0x7A) := fun hf => hchar (UInt16.le_trans hf.2 (by decide))
  have htable : ¬(key ≠ 0 ∧ ∃ c ∈ keycodeTable, key = c.toUInt16) := by
    rintro ⟨-, c, hc, rfl⟩
    exact hchar (table_le c hc)
  rw [and_iff_left hsmall, InTables, or_iff_right htable]
  by_cases hfx : keyF1 ≤ key ∧ key ≤ keyF12
  · obtain ⟨i, hi, rfl⟩ := exists_count hfx.1 hfx.2
    rw [(scancodeOf_fx i hi).1]
    exact ⟨rfl, iff_of_true (.inl hfx) (fxKey_ne_zero i hi)⟩
  by_cases hpos : keyHome ≤ key ∧ key ≤ keyIns
  · obtain ⟨i, hi, rfl⟩ := exists_count hpos.1 hpos.2
    rw [(scancodeOf_pos i hi).1]
    exact ⟨rfl, iff_of_true (.inr hpos) (posKey_ne_zero i hi)⟩
  · rw [scancodeOf, if_neg hchar, if_neg hfx, if_neg hpos]
    exact ⟨rfl, iff_of_false (not_or.mpr ⟨hfx, hpos⟩) (not_not_intro rfl)⟩

/-- What is sent for a key that no symbol is put in place of comes back as the same key, if and only if
    it is in the tables, and not a cursor key that is released. -/
theorem sendPS2_roundTrips (key : UInt16) (released : Bool) (h : key &&& keyMask = key)
    (hshift : ∀ e ∈ unshiftTable, key ≠ e.1) : RoundTrips key released ↔
      InTables key ∧ ¬(released = true ∧ keyHome ≤ key ∧ key ≤ keyIns) := by
  obtain ⟨hplain, htables⟩ := inTables_iff hshift
  by_cases hcode : (scancodeOf key).1 = 0
  · refine iff_of_false (not_roundTrips h hcode) fun hf => ?_
    exact (htables.mp hf.1).1 hcode
  · rw [roundTrips_iff h hcode hplain, htables, and_iff_right hcode]

/-- The break code of a letter. -/
theorem letter_roundTrips : RoundTrips 0x41 true ↔
    InTables 0x41 ∧ ¬(true = true ∧ keyHome ≤ 0x41 ∧ (0x41 : UInt16) ≤ keyIns) :=
  sendPS2_roundTrips 0x41 true (by decide) (forall_mem_of_all (by decide))

/-- The cursor key that is released comes back as pressed. -/
theorem up_pressed : ¬∀ key released, key &&& keyMask = key → (∀ e ∈ unshiftTable, key ≠ e.1) →
    InTables key → RoundTrips key released := by
  intro hall
  have hback := hall 0x105 true (by decide) (forall_mem_of_all (by decide +kernel)) (by decide +kernel)
    (callWith none) Statics.init rfl rfl
  exact absurd hback (by decide)

end Osd
