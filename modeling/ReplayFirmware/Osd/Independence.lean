import ReplayFirmware.Lib.Unwinding
import ReplayFirmware.Osd.GetKeyCode

/-! What the serial port does to the keyboard.

    Two runs that differ in the serial bytes alone are compared call by call. What a call looks at of
    the keyboard's state is the same in both, as long as no ESC is looked ahead from while a key has
    sent some of its scancodes and not all. -/

namespace Osd

/-! ### Two runs -/

/-- The sequence of key codes of the button and the keyboard that calls return, from the start of the
    firmware on. -/
def ps2Codes (calls : List (Call × Arrivals)) : Option (List UInt16) :=
  (Unwinding.run getKeyCode (Statics.init, Usart.empty) calls).map (List.filterMap Returned.ps2Code)

/-- Two states the keyboard does not tell apart: they differ in what the serial port keeps, and behind
    the scancodes that have come. -/
def Agree (s t : Statics) : Prop :=
  ∃ keys esc_delay meta_key, SameKeys s.keys keys ∧
    t = { s with keys := keys, esc_delay := esc_delay, meta_key := meta_key }

theorem Agree.refl (s : Statics) : Agree s s := ⟨s.keys, s.esc_delay, s.meta_key, SameKeys.refl _, rfl⟩

theorem Agree.symm {s t : Statics} (h : Agree s t) : Agree t s := by
  obtain ⟨keys, esc_delay, meta_key, hkeys, rfl⟩ := h
  exact ⟨s.keys, s.esc_delay, s.meta_key, hkeys.symm, rfl⟩

theorem Agree.trans {s t r : Statics} (h : Agree s t) (h' : Agree t r) : Agree s r := by
  obtain ⟨keys, esc_delay, meta_key, hkeys, rfl⟩ := h
  obtain ⟨keys', esc_delay', meta_key', hkeys', rfl⟩ := h'
  exact ⟨keys', esc_delay', meta_key', hkeys.trans hkeys', rfl⟩

theorem Agree.clear {s t : Statics} (h : Agree s t) : Agree s.clear t.clear := by
  obtain ⟨keys, esc_delay, meta_key, -, rfl⟩ := h
  exact ⟨{ keys with keypos := 0 }, esc_delay, meta_key, ⟨rfl, fun _ hi => absurd hi (Nat.not_lt_zero _)⟩,
    rfl⟩

theorem frontButton_agree {s t : Statics} (h : Agree s t) (c : Call) :
    Unwinding.Alike Agree id (frontButton s c) (frontButton t c) := by
  obtain ⟨keys, esc_delay, meta_key, hkeys, rfl⟩ := h
  unfold frontButton
  simp only
  split_ifs
  · exact .goes ⟨keys, esc_delay, meta_key, hkeys, rfl⟩ rfl
  · exact .astray
  · exact .goes ⟨keys, esc_delay, meta_key, hkeys, rfl⟩ rfl
  · exact .goes ⟨keys, esc_delay, meta_key, hkeys, rfl⟩ rfl
  · exact .goes ⟨keys, esc_delay, meta_key, hkeys, rfl⟩ rfl

theorem bufferKey_agree {s t : Statics} (h : Agree s t) (c : Call) :
    bufferKey s c = none ∧ bufferKey t c = none ∨
      ∃ s' t', bufferKey s c = some s' ∧ bufferKey t c = some t' ∧ Agree s' t' := by
  have hclear := h.clear
  obtain ⟨keys, esc_delay, meta_key, hkeys, rfl⟩ := h
  unfold bufferKey
  by_cases hosd : c.osd_enabled = true
  · simp only [if_pos hosd]
    cases c.newkey with
    | some x =>
      simp only [hkeys.keypos]
      by_cases hfull : 8 ≤ s.keys.keypos
      · exact Or.inl ⟨if_pos hfull, if_pos hfull⟩
      · refine Or.inr ⟨_, _, if_neg hfull, if_neg hfull, ?_⟩
        refine ⟨{ keybuf := Function.update keys.keybuf s.keys.keypos x, keypos := s.keys.keypos + 1 },
          esc_delay, meta_key, ⟨rfl, fun i hi => ?_⟩, rfl⟩
        have hi : i < s.keys.keypos + 1 := hi
        by_cases hlast : i = s.keys.keypos
        · simp only [hlast, Function.update_self]
        · simp only [Function.update_of_ne hlast]
          exact hkeys.keybuf i (by omega)
    | none =>
      simp only [hkeys.keypos]
      refine Or.inr ⟨_, _, rfl, rfl, ?_⟩
      split
      · exact hclear
      · exact ⟨keys, esc_delay, meta_key, hkeys, rfl⟩
  · simp only [if_neg hosd]
    exact Or.inr ⟨_, _, rfl, rfl, hclear⟩

theorem convertKeys_agree {s t : Statics} (h : Agree s t) (hpos : 0 < s.keys.keypos) (c : Call)
    (key_break : UInt16) :
    Agree (convertKeys s c key_break).1 (convertKeys t c key_break).1 ∧
      (convertKeys t c key_break).2 = (convertKeys s c key_break).2 := by
  have hclear := h.clear
  obtain ⟨keys, esc_delay, meta_key, hkeys, rfl⟩ := h
  unfold convertKeys
  simp only [decode_same hkeys hpos, hkeys.keypos]
  cases decode s.keys with
  | modifier x =>
    obtain ⟨keys', esc_delay', meta_key', hkeys', heq⟩ := hclear
    exact ⟨⟨keys', esc_delay', meta_key', hkeys', by simp only [heq]⟩, rfl⟩
  | key _ | pause | silent | ignored => exact ⟨hclear, rfl⟩
  | pending => exact ⟨⟨keys, esc_delay, meta_key, hkeys, rfl⟩, rfl⟩

theorem markRepeat_agree {s t : Statics} (h : Agree s t) (key_code : UInt16) :
    Agree (markRepeat s key_code).1 (markRepeat t key_code).1 ∧
      (markRepeat t key_code).2 = (markRepeat s key_code).2 := by
  obtain ⟨keys, esc_delay, meta_key, hkeys, rfl⟩ := h
  unfold markRepeat
  simp only
  split_ifs
  · exact ⟨⟨keys, esc_delay, meta_key, hkeys, rfl⟩, rfl⟩
  · exact ⟨⟨keys, esc_delay, meta_key, hkeys, rfl⟩, rfl⟩
  · exact ⟨⟨keys, esc_delay, meta_key, hkeys, rfl⟩, rfl⟩

theorem flagsTimeout_agree {s t : Statics} (h : Agree s t) (c : Call) :
    Agree (flagsTimeout s c) (flagsTimeout t c) := by
  obtain ⟨keys, esc_delay, meta_key, hkeys, rfl⟩ := h
  unfold flagsTimeout
  simp only
  split
  · exact ⟨keys, esc_delay, meta_key, hkeys, rfl⟩
  · exact ⟨keys, esc_delay, meta_key, hkeys, rfl⟩

/-- Only codes that have come are ignored. -/
theorem convertKeys_ignored (s : Statics) (c : Call) (key_break : UInt16) :
    (convertKeys s c key_break).2.2 = 0 ∨ (convertKeys s c key_break).2.2 = s.keys.keypos := by
  unfold convertKeys
  cases decode s.keys with
  | ignored => exact Or.inr rfl
  | modifier _ | key _ | pause | silent | pending => exact Or.inl rfl

theorem forward_same {keybuf keybuf' : ℕ → UInt8} {n : ℕ} (hn : n ≠ 0)
    (h : ∀ i < n, keybuf' i = keybuf i) (key_break : UInt16) :
    forward keybuf' key_break n = forward keybuf key_break n := by
  unfold forward
  rw [h 0 (Nat.pos_of_ne_zero hn)]
  simp only
  refine congrArg (fun l => _ ++ l ++ _) (List.map_congr_left fun j hj => ?_)
  rw [List.mem_range'_1] at hj
  rw [h j (by omega)]

theorem processKeys_agree {s t : Statics} (h : Agree s t) (hpos : 0 < s.keys.keypos) (c : Call) :
    Agree (processKeys s c).1 (processKeys t c).1 ∧ (processKeys t c).2 = (processKeys s c).2 := by
  obtain ⟨keys, esc_delay, meta_key, hkeys, rfl⟩ := h
  obtain ⟨hbreak, hflag⟩ := takeBreak_same hkeys
  have htaken : Agree { s with keys := (takeBreak s.keys).1 }
      { s with keys := (takeBreak keys).1, esc_delay := esc_delay, meta_key := meta_key } :=
    ⟨(takeBreak keys).1, esc_delay, meta_key, hbreak, rfl⟩
  obtain ⟨hconv, hresult⟩ := convertKeys_agree htaken (takeBreak_pos hpos) c (takeBreak s.keys).2
  have hignored := convertKeys_ignored { s with keys := (takeBreak s.keys).1 } c (takeBreak s.keys).2
  unfold processKeys
  simp only [hflag]
  generalize convertKeys { s with keys := (takeBreak s.keys).1 } c (takeBreak s.keys).2 = r
    at hconv hresult hignored
  generalize convertKeys
      { s with keys := (takeBreak keys).1, esc_delay := esc_delay, meta_key := meta_key } c
      (takeBreak s.keys).2 = r' at hconv hresult
  obtain ⟨hmark, hcode⟩ := markRepeat_agree hconv
    (if (decide (r.2.1 = c.hotkey)) = true then (takeBreak s.keys).2 ||| keyMenu else r.2.1)
  rw [hresult, hcode]
  refine ⟨hmark, Prod.ext rfl (congrArg (List.append _) ?_)⟩
  split
  · next hsome =>
    refine forward_same hsome.1 (fun i hi => hbreak.keybuf i ?_) _
    exact lt_of_lt_of_eq hi (hignored.resolve_left hsome.1)
  · rfl

/-- The part of a call before the serial port does not tell the two apart. -/
theorem ps2Key_agree {s t : Statics} (h : Agree s t) (c : Call) :
    Unwinding.Alike Agree id (ps2Key s c) (ps2Key t c) := by
  have hbutton := frontButton_agree h c
  unfold ps2Key
  generalize frontButton s c = a at hbutton
  generalize frontButton t c = b at hbutton
  cases hbutton with
  | astray => exact .goes h rfl
  | @goes s' t' key key' hagree hkey =>
    obtain rfl : key = key' := hkey
    rcases bufferKey_agree hagree c with ⟨hs, ht⟩ | ⟨s'', t'', hs, ht, hbuf⟩
    · simp only [hs, ht]
      exact .astray
    · simp only [hs, ht]
      have hpos : t''.keys.keypos = s''.keys.keypos := by
        obtain ⟨keys, _, _, hkeys, rfl⟩ := hbuf
        exact hkeys.keypos
      rw [hpos]
      split
      · next hgo =>
        obtain ⟨hproc, hresult⟩ := processKeys_agree hbuf (Nat.pos_of_ne_zero hgo.1) c
        exact .goes (flagsTimeout_agree hproc c) hresult.symm
      · exact .goes (flagsTimeout_agree hbuf c) rfl

/-! ### The serial port beside the keyboard -/

/-- The call finds an ESC at the head of the ring. -/
def escNext (u : Usart) (a : Arrivals) : Bool :=
  getValid (receive u a.valid) && peekc (receive (receive u a.valid) a.peek) = 0x1B

/-- Where a call that comes to the serial port finds an ESC there, no scancode is pending. -/
def Apart (s : Statics × Usart) (i : Call × Arrivals) : Prop :=
  match ps2Key s.1 i.1 with
  | none => True
  | some (t, key_code, _) => key_code = 0 → escNext s.2 i.2 = true → t.keys.keypos = 0

instance (s : Statics × Usart) (i : Call × Arrivals) : Decidable (Apart s i) := by
  unfold Apart
  exact match ps2Key s.1 i.1 with
    | none => inferInstanceAs (Decidable True)
    | some (_, _, _) => inferInstanceAs (Decidable (_ → _ → _))

/-- An ESC sequence leaves all but the bytes of the buffer as it was. -/
theorem escape_agree {s : Statics} (hpos : s.keys.keypos = 0) (u : Usart) (c : Call) (last : List UInt8) :
    Agree s (escape s u c last).1 := by
  have hkeys : SameKeys s.keys { s.keys with keybuf := (peekBuf u s.keys.keybuf 8).2 } :=
    ⟨rfl, fun i hi => absurd hi (by rw [hpos]; exact Nat.not_lt_zero i)⟩
  unfold escape
  simp only
  split
  · exact ⟨_, _, _, hkeys, rfl⟩
  · split_ifs <;> exact ⟨_, _, _, hkeys, rfl⟩

theorem usartKey_agree {s : Statics} {u : Usart} {a : Arrivals} (h : escNext u a = true → s.keys.keypos = 0)
    (c : Call) : Agree s (usartKey s u c a).1 := by
  unfold usartKey
  simp only
  split_ifs with hvalid hpeek
  · exact Agree.refl s
  · exact ⟨s.keys, s.esc_delay, 0, SameKeys.refl _, rfl⟩
  · refine escape_agree (h ?_) _ c _
    rw [escNext, Bool.and_eq_true]
    exact ⟨by simpa using hvalid, by simpa using hpeek⟩

/-- A state, and one that has seen no serial byte. -/
def Beside (s t : Statics × Usart) : Prop := Agree s.1 t.1 ∧ getValid t.2 = false

theorem getKeyCode_beside {s t : Statics × Usart} {i : Call × Arrivals} (h : Beside s t) (ha : Apart s i) :
    Unwinding.Alike Beside Returned.ps2Code (getKeyCode s i) (getKeyCode t (i.1, Arrivals.none)) := by
  have hps2 := ps2Key_agree h.1 i.1
  unfold Apart at ha
  unfold getKeyCode
  simp only
  generalize ps2Key s.1 i.1 = a at hps2 ha
  generalize ps2Key t.1 i.1 = b at hps2
  cases hps2 with
  | astray => exact .astray
  | @goes s' t' o p hagree hsame =>
    obtain rfl : o = p := hsame
    obtain ⟨key_code, outs⟩ := o
    simp only at ha ⊢
    split
    · exact .goes ⟨hagree, h.2⟩ rfl
    · next hzero =>
      have hquiet : usartKey t' t.2 i.1 Arrivals.none = (t', t.2, 0) := by
        have hvalid : (!getValid t.2) = true := by rw [h.2]; rfl
        exact if_pos hvalid
      rw [hquiet]
      have hserial := usartKey_agree (ha (not_not.mp hzero)) i.1
      exact .goes ⟨hserial.symm.trans hagree, h.2⟩ rfl

/-- The key codes of the button and the keyboard are those that come without any serial byte, in every
    run in which no ESC meets a pending scancode. -/
theorem ps2Codes_quiet {calls : List (Call × Arrivals)}
    (h : Unwinding.Along getKeyCode Apart (Statics.init, Usart.empty) calls) :
    ps2Codes calls = ps2Codes (calls.map fun i => (i.1, Arrivals.none)) := by
  have hrun := Unwinding.run_alike (P := Apart) (fun s t i hb ha => getKeyCode_beside hb ha) calls
    (show Beside (Statics.init, Usart.empty) (Statics.init, Usart.empty) from ⟨Agree.refl _, rfl⟩) h
  have hfilter : ∀ x : Option (List Returned), x.map (List.filterMap Returned.ps2Code)
      = (x.map (List.map Returned.ps2Code)).map (List.filterMap id) := by
    intro x
    rw [Option.map_map]
    refine congrArg (fun f => x.map f) (funext fun l => ?_)
    show _ = List.filterMap id (l.map Returned.ps2Code)
    rw [List.filterMap_map]
    rfl
  rw [ps2Codes, ps2Codes, hfilter, hfilter, hrun]

/-- A call that finds a scancode, or none, at time 0. -/
def callWith (newkey : Option UInt8) : Call :=
  { osd_enabled := true, hotkey := keyMenu, menu_enabled := true, button_on := true, button := false
    newkey := newkey, time := fun _ => 0 }

/-- The cursor key, the same from the serial port, and an A. -/
theorem ps2Codes_quiet_between :
    ps2Codes [(callWith (some 0xE0), Arrivals.none), (callWith (some 0x75), Arrivals.none),
        (callWith none, { Arrivals.none with valid := [0x1B, 0x5B, 0x41] }),
        (callWith (some 0x1C), Arrivals.none)]
      = ps2Codes ([(callWith (some 0xE0), Arrivals.none), (callWith (some 0x75), Arrivals.none),
        (callWith none, { Arrivals.none with valid := [0x1B, 0x5B, 0x41] }),
        (callWith (some 0x1C), Arrivals.none)].map fun i => (i.1, Arrivals.none)) :=
  ps2Codes_quiet (by decide)

/-- An ESC between the two scancodes of the cursor key makes it an S. -/
theorem esc_garbles : ¬ ∀ calls : List (Call × Arrivals),
    ps2Codes calls = ps2Codes (calls.map fun i => (i.1, Arrivals.none)) := by
  intro h
  have hboth := h [(callWith (some 0xE0), Arrivals.none),
    (callWith none, { Arrivals.none with valid := [0x1B] }), (callWith (some 0x75), Arrivals.none)]
  have hserial : ps2Codes [(callWith (some 0xE0), Arrivals.none),
      (callWith none, { Arrivals.none with valid := [0x1B] }), (callWith (some 0x75), Arrivals.none)]
      = some [0x53] := by decide
  have hquiet : ps2Codes [(callWith (some 0xE0), Arrivals.none), (callWith none, Arrivals.none),
      (callWith (some 0x75), Arrivals.none)] = some [0x105] := by decide
  rw [hserial] at hboth
  exact absurd (hboth.trans hquiet) (by decide)

end Osd
