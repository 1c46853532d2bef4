import ReplayFirmware.Ini.Entries
import ReplayFirmware.Lib.Latest
import ReplayFirmware.Msg.Printf

/-! The messages of the status page, and the `INFO` line of an INI file that adds one.

    The text of the line is the format of the message: it is shown as it is if there is no `%` in it. The
    status page keeps the latest eight messages, without those that say what the one before said. -/

namespace Msg
open Ini Latest
open Ini.InPlace (ValueString emptyBuffer)

/-! ### The status page -/

/-- `info` and `info_start_idx` of the status. -/
structure Status where
  info : ℕ → List UInt8
  info_start_idx : ℕ
  start_lt : info_start_idx < 8

def powerUp : Status := ⟨fun _ => [], 0, by decide⟩

/-- The part of a message that is visible: `MAX_MENU_STRING - 3` characters. -/
def visible (s : List UInt8) : List UInt8 := s.take 30

/-- The format of a line is `%c %s`. -/
def lineFormat : List UInt8 := [0x25, 0x63, 0x20, 0x25, 0x73]

/-- What `sprintf` makes of this format. -/
def line (t : UInt8) (s : List UInt8) : List UInt8 := [t, 0x20] ++ s

/-- `info_start_idx`, incremented -/
def Status.nextIdx (st : Status) : ℕ := if 7 ≤ st.info_start_idx then 0 else st.info_start_idx + 1

theorem Status.nextIdx_lt (st : Status) : st.nextIdx < 8 := by
  rw [nextIdx]
  split <;> omega

/-- `_MSG_to_osd` -/
def toOsd (s : List UInt8) (t : UInt8) (st : Status) : Status :=
  let s := visible s
  if (st.info st.info_start_idx).drop 2 = s then st
  else
    { info := fun i => if i = st.nextIdx then line t s else st.info i
      info_start_idx := st.nextIdx
      start_lt := st.nextIdx_lt }

/-- A character and a string as the arguments of `lineFormat`. -/
def lineArgs (t : UInt8) (s : List UInt8) : Args where
  word k := if k = 0 then t.toUInt32 else 0
  string _ := some s

theorem line_eq (t : UInt8) (s : List UInt8) : tfpFormat (lineArgs t s) lineFormat = some (line t s) := by
  simp [tfpFormat, lineFormat, formatLoop, flags, conversion, Conv.put, putchw, lineArgs, line,
    Libc.isdigit]

/-! ### The handler -/

/-- The text that `MSG_output` shows, `s`: there is none when the format is a null pointer, when a string
    cannot be read, or when there is no room for it in its 256 characters. -/
def message (a : Args) (fmt : Option (List UInt8)) : Option (List UInt8) :=
  (fmt.bind (tfpFormat a)).bind fun s => if s.length < 256 then some (cstr s) else none

/-- `MSG_output`, of a message of the type `t`. -/
def output (a : Args) (t : UInt8) (fmt : Option (List UInt8)) (st : Status) : Option Status :=
  (message a fmt).map fun s => toOsd s t st

/-- `_CFG_handle_SETUP_INFO`; the arguments of `INFO` are whatever there is. -/
def handleInfo (a : Args) (valueList : List ValueEntry) (st : Status) : Option Status :=
  match valueList with
  | [e] => output a 0x49 e.strval st
  | _ => some st

/-! ### What is shown -/

/-- A text without `%` is shown as it is. -/
theorem message_plain {t : List UInt8} (hzero : 0 ∉ t) (hlen : t.length ≤ maxLineLen) (ht : 0x25 ∉ t)
    (a : Args) : message a (some t) = some t := by
  have hroom : t.length < 256 := Nat.lt_of_le_of_lt hlen (by decide)
  have hcstr : cstr t = t := List.takeWhile_eq_self_iff.mpr fun c hc =>
    decide_eq_true fun h0 => hzero (h0 ▸ hc)
  rw [message, Option.bind_some, tfpFormat, formatLoop_plain a (Nat.le_refl _) ht, Option.bind_some,
    if_pos hroom, hcstr]

/-- A text with `%` is not what comes out for both of two numbers. -/
theorem percent_notMem {t : List UInt8} (hzero : 0 ∉ t)
    (h : ∀ v, message (sameWord v) (some t) = some t) : 0x25 ∉ t := by
  have hout : ∀ v, v = 0x41 ∨ v = 0x42 → formatLoop (sameWord v) t.length 0 t = some t := by
    intro v hv
    obtain ⟨s, hs, hcut⟩ := Option.bind_eq_some_iff.mp (h v)
    have hnonzero := formatLoop_nonzero hv hzero hs
    have hcstr : cstr s = s := List.takeWhile_eq_self_iff.mpr fun c hc =>
      decide_eq_true fun h0 => hnonzero (h0 ▸ hc)
    split at hcut
    · rw [← Option.some.inj hcut, hcstr]
      rw [← Option.some.inj hcut, hcstr] at hs
      exact hs
    · cases hcut
  intro hmem
  have hlt := (formatLoop_shorter (Nat.le_refl _) (hout 0x41 (Or.inl rfl)) (hout 0x42 (Or.inr rfl))).2
  exact Nat.lt_irrefl _ (hlt hmem)

theorem Status.nextIdx_ne (st : Status) : st.nextIdx ≠ st.info_start_idx := by
  have hlt := st.start_lt
  rw [nextIdx]
  split <;> omega

/-- What is visible of a message can be told from the status page. -/
theorem visible_eq {s s' : List UInt8} {t : UInt8} {st : Status} (h : toOsd s t st = toOsd s' t st) :
    visible s = visible s' := by
  rw [toOsd, toOsd] at h
  by_cases hs : (st.info st.info_start_idx).drop 2 = visible s
  · by_cases hs' : (st.info st.info_start_idx).drop 2 = visible s'
    · exact hs.symm.trans hs'
    · rw [if_pos hs, if_neg hs'] at h
      exact absurd (congrArg Status.info_start_idx h).symm st.nextIdx_ne
  · by_cases hs' : (st.info st.info_start_idx).drop 2 = visible s'
    · rw [if_neg hs, if_pos hs'] at h
      exact absurd (congrArg Status.info_start_idx h) st.nextIdx_ne
    · rw [if_neg hs, if_neg hs'] at h
      have hinfo := congrFun (congrArg Status.info h) st.nextIdx
      dsimp only at hinfo
      rw [if_pos rfl, if_pos rfl, line, line] at hinfo
      exact List.append_cancel_left hinfo

/-! ### All the messages -/

/-- The lines, as a ring. -/
def Status.ring (st : Status) : Cells (List UInt8) := ⟨st.info, st.info_start_idx⟩

/-- The lines, the newest first. -/
def Status.lines (st : Status) : List (List UInt8) := latest 8 st.ring

/-- A line says something that the one before does not, behind its mark. -/
def News (a b : List UInt8) : Prop := a.drop 2 ≠ b.drop 2

instance : DecidableRel News := fun a b => inferInstanceAs (Decidable (a.drop 2 ≠ b.drop 2))

/-- A message, with the mark of its type. -/
structure Message where
  mark : UInt8
  text : List UInt8

def Message.line (m : Message) : List UInt8 := Msg.line m.mark (visible m.text)

/-- The messages, one after the other. -/
def play (ms : List Message) (st : Status) : Status :=
  ms.foldl (fun st m => toOsd m.text m.mark st) st

theorem ring_toOsd (m : Message) (st : Status) :
    (toOsd m.text m.mark st).ring = post News 8 st.ring m.line := by
  have hnext : next 8 st.ring = st.nextIdx := by
    have hlt := st.start_lt
    change (if 8 ≤ st.info_start_idx + 1 then 0 else st.info_start_idx + 1) = st.nextIdx
    rw [Status.nextIdx]
    split_ifs
    · rfl
    · omega
    · omega
    · rfl
  have hnews : News (st.ring.cell st.ring.newest) m.line ↔
      (st.info st.info_start_idx).drop 2 ≠ visible m.text := Iff.rfl
  rw [toOsd, post]
  by_cases h : (st.info st.info_start_idx).drop 2 = visible m.text
  · rw [if_pos h, if_neg (hnews.not.mpr (not_not_intro h))]
  · rw [if_neg h, if_pos (hnews.mpr h), push, hnext]
    rfl

theorem ring_play : ∀ (ms : List Message) (st : Status),
    (play ms st).ring = (ms.map Message.line).foldl (post News 8) st.ring
  | [], _ => rfl
  | m :: ms, st => by
    rw [List.map_cons, List.foldl_cons, ← ring_toOsd]
    exact ring_play ms (toOsd m.text m.mark st)

/-- The lines are the latest that say something new. -/
theorem lines_play (ms : List Message) (st : Status) : (play ms st).lines =
    (((ms.map Message.line).destutter' News (st.info st.info_start_idx)).reverse ++
      st.lines.tail).take 8 := by
  rw [Status.lines, ring_play]
  exact latest_posts News st.start_lt

/-! ### The message of an `INFO` line -/

/-- The text of the entry is added to the status page, as far as it is visible, and nothing else. -/
def Shown (e : ValueEntry) (st : Status) : Prop :=
  ∃ t, e.strval = some t ∧ ∀ a, handleInfo a [e] st = some (toOsd t 0x49 st)

/-- The text of the entry is a message as it is: nothing in it is taken for a conversion. -/
def Verbatim (e : ValueEntry) : Prop := ∃ t, e.strval = some t ∧ ∀ a, message a (some t) = some t

theorem Verbatim.shown {e : ValueEntry} (h : Verbatim e) (st : Status) : Shown e st := by
  obtain ⟨t, ht, hmessage⟩ := h
  refine ⟨t, ht, fun a => ?_⟩
  rw [handleInfo, output, ht, hmessage a]
  rfl

variable {v : ValueString} {b : ValueBuffer} {e : ValueEntry}

theorem verbatim_iff (h : valueList v 8 b = some [e]) :
    Verbatim e ↔ ∃ t, e.strval = some t ∧ 0x25 ∉ t := by
  constructor
  · rintro ⟨t, ht, hmessage⟩
    have hzero := (text_valueList h (List.mem_singleton_self e) ht).1
    exact ⟨t, ht, percent_notMem hzero fun v => hmessage (sameWord v)⟩
  · rintro ⟨t, ht, hpct⟩
    obtain ⟨hzero, hlen⟩ := text_valueList h (List.mem_singleton_self e) ht
    exact ⟨t, ht, message_plain hzero hlen hpct⟩

/-- A text that is visible as a whole is shown only if it is a message as it is. -/
theorem Shown.verbatim {st : Status} {t : List UInt8} (h : Shown e st) (ht : e.strval = some t)
    (hlen : t.length < 30) : ∀ a, message a (some t) = some t := by
  obtain ⟨t', ht', hshown⟩ := h
  obtain rfl := Option.some.inj (ht.symm.trans ht')
  intro a
  have hout := hshown a
  rw [handleInfo, output, ht] at hout
  obtain ⟨s, hs, hst⟩ := Option.map_eq_some_iff.mp hout
  have hvisible : s.take 30 = t.take 30 := visible_eq hst
  have hshort : s.length < 30 := by
    have hlength := congrArg List.length hvisible
    rw [List.length_take, List.length_take] at hlength
    omega
  rw [List.take_of_length_le hshort.le, List.take_of_length_le hlen.le] at hvisible
  rw [hs, hvisible]

/-- The one entry of an `INFO` line is shown, and never interpreted, exactly when it has a text without
    `%`; a text that is visible as a whole is shown only then. The status page always has the latest
    messages that say something new, in order. -/
theorem handleInfo_shows (h : valueList v 8 b = some [e]) (st : Status) :
    (Shown e st ∧ Verbatim e ↔ ∃ t, e.strval = some t ∧ 0x25 ∉ t) ∧
      (Shown e st → ∃ t, e.strval = some t ∧ (0x25 ∉ t ∨ 30 ≤ t.length)) ∧
      ∀ ms, (play ms powerUp).lines =
        (((ms.map Message.line).destutter' News []).reverse ++ List.replicate 7 []).take 8 ∧
        ((ms.map Message.line).destutter' News []).IsChain News := by
  refine ⟨⟨fun hshown => (verbatim_iff h).mp hshown.2, fun htext => ?_⟩, fun hshown => ?_, fun ms => ?_⟩
  · have hverbatim := (verbatim_iff h).mpr htext
    exact ⟨hverbatim.shown st, hverbatim⟩
  · obtain ⟨t, ht, -⟩ := id hshown
    refine ⟨t, ht, ?_⟩
    by_cases hlen : t.length < 30
    · have hmessage := hshown.verbatim ht hlen
      have hzero := (text_valueList h (List.mem_singleton_self e) ht).1
      exact Or.inl (percent_notMem hzero fun v => hmessage (sameWord v))
    · exact Or.inr (Nat.le_of_not_lt hlen)
  · exact ⟨lines_play ms powerUp, List.isChain_destutter' News _ _⟩

/-- `INFO = ready` -/
def ready : ValueString := ⟨[0x72, 0x65, 0x61, 0x64, 0x79], by decide, by decide⟩

theorem handleInfo_shows_ready : Shown ⟨some ready.chars, 0⟩ powerUp := by
  have hlist : valueList ready 8 emptyBuffer = some [⟨some ready.chars, 0⟩] := by decide +kernel
  exact ((handleInfo_shows hlist powerUp).1.mpr ⟨_, rfl, by decide⟩).1

/-- `INFO = 100%` -/
def percent : ValueString := ⟨[0x31, 0x30, 0x30, 0x25], by decide, by decide⟩

/-- It is shown as `100`. -/
theorem percent_lost : ¬∀ (v : ValueString) (b : ValueBuffer) (e : ValueEntry) (st : Status),
    valueList v 8 b = some [e] → Shown e st := by
  intro h
  have hlist : valueList percent 8 emptyBuffer = some [⟨some percent.chars, 100⟩] := by
    decide +kernel
  obtain ⟨t, ht, hshown⟩ := h percent emptyBuffer _ powerUp hlist
  rw [← Option.some.inj ht] at hshown
  have hline := congrArg (Option.map fun st => st.info 1) (hshown (sameWord 0))
  exact absurd hline (by decide)

end Msg
