import Mathlib.Algebra.Order.Ring.Nat
import Mathlib.Data.List.Basic

/-! The queue of the USB keyboard, from `usbhid.cpp`.

    Key events are put into a ring of 16 places as they come, and taken out one for each poll, as PS/2
    scancodes. An event that finds 15 others waiting is dropped, by an explicit guard, and so a release can
    be lost: what is delivered are the events that were queued, in order. -/

namespace UsbHid

/-! ### Scancodes -/

/-- `OEMtoPS2` -/
def oemToPS2 : List UInt8 :=
  [0x00, 0x00, 0x00, 0x00, 0x1C, 0x32, 0x21, 0x23, 0x24, 0x2B, 0x34, 0x33, 0x43, 0x3B, 0x42, 0x4B,
   0x3A, 0x31, 0x44, 0x4D, 0x15, 0x2D, 0x1B, 0x2C, 0x3C, 0x2A, 0x1D, 0x22, 0x35, 0x1A, 0x16, 0x1E,
   0x26, 0x25, 0x2E, 0x36, 0x3D, 0x3E, 0x46, 0x45, 0x5A, 0x76, 0x66, 0x0D, 0x29, 0x4E, 0x55, 0x54,
   0x5B, 0x5D, 0x5D, 0x4C, 0x52, 0x0E, 0x41, 0x49, 0x4A, 0x58, 0x05, 0x06, 0x04, 0x0C, 0x03, 0x0B,
   0x83, 0x0A, 0x01, 0x09, 0x78, 0x07, 0xFC, 0x7E, 0x00, 0xF0, 0xEC, 0xFD, 0xF1, 0xE9, 0xFA, 0xF4,
   0xEB, 0xF2, 0xF5, 0x77, 0xCA, 0x7C, 0x7B, 0x79, 0xDA, 0x69, 0x72, 0x7A, 0x6B, 0x73, 0x74, 0x6C,
   0x75, 0x7D, 0x70, 0x71, 0x61, 0xAF, 0xB7, 0x0F, 0x08, 0x10, 0x18, 0x20, 0x28, 0x30, 0x38, 0x40,
   0x48, 0x50, 0x57, 0x5F]

/-- `OEMtoPS2meta` -/
def oemToPS2meta : List UInt8 := [0x14, 0x12, 0x11, 0x9F, 0x94, 0x59, 0x91, 0xA7]

/-- What lies behind the two tables. -/
structure Beyond where
  oem : UInt8
  oemMeta : UInt8

variable (beyond : Beyond)

/-- `GetPS2`; the length is compared with `>`. -/
def getPS2 (oem : UInt8) : UInt8 :=
  if oem.toNat > oemToPS2.length then 0 else oemToPS2.getD oem.toNat beyond.oem

/-- `GetPS2Meta` -/
def getPS2Meta (keyMeta : UInt8) : UInt8 :=
  if keyMeta.toNat > oemToPS2meta.length then 0 else oemToPS2meta.getD keyMeta.toNat beyond.oemMeta

/-- `ExpandPS2` -/
def expandPS2 (scan : UInt8) (make : Bool) : List UInt8 :=
  (if scan &&& 0x80 ≠ 0 then [0xE0] else []) ++ (if make then [] else [0xF0]) ++ [scan &&& 0x7F]

structure KeyData where
  keyCode : UInt8
  keyMeta : UInt8
  keyDown : Bool
  deriving DecidableEq

def ps2Break : List UInt8 := [0xE0, 0x7E, 0xE0, 0xF0, 0x7E]

def ps2Pause : List UInt8 := [0xE1, 0x14, 0x77, 0xE1, 0xF0, 0x14, 0xF0, 0x77]

/-- What `GetNextScanCode` makes of an event, nothing for one that it does not know. -/
def scanCode (data : KeyData) : Option (List UInt8) :=
  if data.keyCode = 0 then
    let ps2 := getPS2Meta beyond data.keyMeta
    if ps2 = 0 then none else some (expandPS2 ps2 data.keyDown)
  else if data.keyCode = 0x48 ∧ data.keyDown = true then
    some (if data.keyMeta ≠ 0 then ps2Break else ps2Pause)
  else
    let ps2 := getPS2 beyond data.keyCode
    if ps2 = 0 then none else some (expandPS2 ps2 data.keyDown)

/-! ### The queue -/

structure Keyboard where
  m_Put : UInt32
  m_Get : UInt32
  m_KeyData : Fin 16 → KeyData

/-- `MAX_SCANCODES` -/
theorem maxScancodes : NeZero 16 := ⟨by decide⟩

/-- `& (MAX_SCANCODES - 1)` -/
def slot (n : UInt32) : Fin 16 := ⟨n.toNat % 16, Nat.mod_lt _ (by decide)⟩

attribute [local instance] maxScancodes in
/-- `PutKey`: the keyboard, and whether the key was not dropped. -/
def Keyboard.putKey (s : Keyboard) (data : KeyData) : Keyboard × Bool :=
  if slot (s.m_Put - s.m_Get) = 15 then (s, false)
  else
    ({ s with
      m_KeyData := fun i => if i = slot s.m_Put then data else s.m_KeyData i
      m_Put := s.m_Put + 1 }, true)

attribute [local instance] maxScancodes in
/-- `PopKey` -/
def Keyboard.popKey (s : Keyboard) : Keyboard × Option KeyData :=
  if slot (s.m_Put - s.m_Get) = 0 then (s, none)
  else ({ s with m_Get := s.m_Get + 1 }, some (s.m_KeyData (slot s.m_Get)))

/-- What comes from the USB host stack, and a poll. -/
inductive Event where
  | controlKeysChanged (before after : UInt8)
  | keyDown (mod key : UInt8)
  | keyUp (mod key : UInt8)
  | poll

/-- What an event does to the queue. -/
inductive Op where
  | put (data : KeyData)
  | poll

/-- `OnControlKeysChanged`, `OnKeyDown` and `OnKeyUp` -/
def Event.ops : Event → List Op
  | .controlKeysChanged before after =>
    ((List.range 8).filter fun i => (before ^^^ after) &&& (1 <<< i).toUInt8 ≠ 0).map fun i =>
      .put ⟨0, i.toUInt8, after &&& (1 <<< i).toUInt8 ≠ 0⟩
  | .keyDown mod key => [.put ⟨key, if mod &&& 0x11 ≠ 0 then 1 else 0, true⟩]
  | .keyUp _ key => [.put ⟨key, 0, false⟩]
  | .poll => [.poll]

/-- What has become of an event: queued, dropped, or taken by a poll, which returns its scancodes. -/
inductive Outcome where
  | queued (data : KeyData)
  | dropped (data : KeyData)
  | polled (data : Option KeyData) (scan : Option (List UInt8))
  deriving DecidableEq

/-- `PutKey` and `GetNextScanCode` -/
def step (s : Keyboard) : Op → Keyboard × Outcome
  | .put data => ((s.putKey data).1, if (s.putKey data).2 then .queued data else .dropped data)
  | .poll => (s.popKey.1, .polled s.popKey.2 (s.popKey.2.bind (scanCode beyond)))

def run : Keyboard → List Op → Keyboard × List Outcome
  | s, [] => (s, [])
  | s, op :: ops =>
    let r := step beyond s op
    let rest := run r.1 ops
    (rest.1, r.2 :: rest.2)

def Keyboard.init (garbage : Fin 16 → KeyData) : Keyboard := ⟨0, 0, garbage⟩

/-- As many polls as are needed in any case until the queue is empty. -/
def drain : List Op := List.replicate 15 .poll

/-- What becomes of these events, and the polls that empty the queue after them. -/
def outcomes (garbage : Fin 16 → KeyData) (events : List Event) : List Outcome :=
  (run beyond (.init garbage) (events.flatMap Event.ops ++ drain)).2

/-! ### What is delivered -/

/-- The events that were queued. -/
def queued (outs : List Outcome) : List KeyData :=
  outs.filterMap fun
    | .queued data => some data
    | _ => none

/-- The scancodes that polls returned. -/
def delivered (outs : List Outcome) : List (List UInt8) :=
  outs.filterMap fun
    | .polled _ scan => scan
    | _ => none

/-- A press and a release of one key or modifier. -/
def Pair (press release : KeyData) : Prop :=
  press.keyDown = true ∧ release.keyDown = false ∧ press.keyCode = release.keyCode ∧
    (press.keyCode = 0 → press.keyMeta = release.keyMeta)

/-! ### The ring as a queue -/

/-- How many events wait. -/
def Keyboard.count (s : Keyboard) : ℕ := (s.m_Put - s.m_Get).toNat

/-- The events that wait. -/
def Keyboard.pending (s : Keyboard) : List KeyData :=
  (List.range s.count).map fun i => s.m_KeyData ⟨(s.m_Get.toNat + i) % 16, Nat.mod_lt _ (by decide)⟩

variable {s : Keyboard}

theorem slot_eq_iff (h : s.count ≤ 15) (n : Fin 16) : slot (s.m_Put - s.m_Get) = n ↔ s.count = n.val := by
  rw [Fin.ext_iff]
  show s.count % 16 = n.val ↔ _
  omega

theorem length_pending : s.pending.length = s.count := by
  rw [Keyboard.pending, List.length_map, List.length_range]

theorem put_toNat : s.m_Put.toNat = (s.m_Get.toNat + s.count) % 2 ^ 32 := by
  have hput := s.m_Put.toNat_lt
  have hget := s.m_Get.toNat_lt
  rw [Keyboard.count, UInt32.toNat_sub]
  omega

/-- An event is queued behind the others, or dropped where 15 wait. -/
theorem putKey_pending (data : KeyData) (h : s.count ≤ 15) : (s.putKey data).1.count ≤ 15 ∧
    ((s.putKey data).2 = true ∧ (s.putKey data).1.pending = s.pending ++ [data] ∨
      (s.putKey data).2 = false ∧ (s.putKey data).1 = s ∧ s.count = 15) := by
  unfold Keyboard.putKey
  by_cases hfull : slot (s.m_Put - s.m_Get) = 15
  · rw [if_pos hfull]
    exact ⟨h, .inr ⟨rfl, rfl, (slot_eq_iff h 15).mp hfull⟩⟩
  · rw [if_neg hfull]
    have hlt : s.count < 15 := by
      have hne : s.count ≠ 15 := fun hf => hfull ((slot_eq_iff h 15).mpr hf)
      omega
    have hput := put_toNat (s := s)
    have hcount : (s.m_Put + 1 - s.m_Get).toNat = s.count + 1 := by
      have hget := s.m_Get.toNat_lt
      rw [UInt32.toNat_sub, UInt32.toNat_add, hput, UInt32.toNat_one]
      omega
    refine ⟨by show (s.m_Put + 1 - s.m_Get).toNat ≤ 15; omega, .inl ⟨rfl, ?_⟩⟩
    show (List.range (s.m_Put + 1 - s.m_Get).toNat).map _ = _
    rw [hcount, List.range_succ, List.map_append, List.map_singleton]
    congr 1
    · refine List.map_congr_left fun i hi => if_neg fun hf => ?_
      have hval : (s.m_Get.toNat + i) % 16 = s.m_Put.toNat % 16 := congrArg Fin.val hf
      have hi := List.mem_range.mp hi
      omega
    · refine congrArg (fun d => [d]) (if_pos (Fin.ext ?_))
      show (s.m_Get.toNat + s.count) % 16 = s.m_Put.toNat % 16
      omega

/-- The first event that waits is taken, if there is one. -/
theorem popKey_pending (h : s.count ≤ 15) : s.popKey.1.count ≤ 15 ∧
    s.pending = s.popKey.2.toList ++ s.popKey.1.pending ∧ s.popKey.1.count = s.count - 1 := by
  unfold Keyboard.popKey
  by_cases hempty : slot (s.m_Put - s.m_Get) = 0
  · rw [if_pos hempty]
    have hzero : s.count = 0 := (slot_eq_iff h 0).mp hempty
    exact ⟨h, rfl, by rw [hzero]⟩
  · rw [if_neg hempty]
    have hpos : s.count ≠ 0 := fun hf => hempty ((slot_eq_iff h 0).mpr hf)
    have hcount : (s.m_Put - (s.m_Get + 1)).toNat = s.count - 1 := by
      have hput := put_toNat (s := s)
      have hget := s.m_Get.toNat_lt
      rw [UInt32.toNat_sub, UInt32.toNat_add, hput, UInt32.toNat_one]
      omega
    refine ⟨by show (s.m_Put - (s.m_Get + 1)).toNat ≤ 15; omega, ?_, hcount⟩
    show s.pending = [_] ++ (List.range (s.m_Put - (s.m_Get + 1)).toNat).map _
    rw [hcount, Keyboard.pending, show s.count = s.count - 1 + 1 by omega, List.range_succ_eq_map,
      List.map_cons, List.map_map, List.singleton_append]
    refine congrArg₂ List.cons rfl (List.map_congr_left fun i _ => congrArg s.m_KeyData (Fin.ext ?_))
    show (s.m_Get.toNat + (i + 1)) % 16 = ((s.m_Get + 1).toNat + i) % 16
    rw [UInt32.toNat_add, UInt32.toNat_one]
    omega

/-! ### Runs -/

/-- The events that polls have taken. -/
def taken (outs : List Outcome) : List KeyData :=
  outs.filterMap fun
    | .polled data _ => data
    | _ => none

theorem queued_cons (o : Outcome) (outs : List Outcome) : queued (o :: outs) = queued [o] ++ queued outs :=
  List.filterMap_append (l := [o])

theorem taken_cons (o : Outcome) (outs : List Outcome) : taken (o :: outs) = taken [o] ++ taken outs :=
  List.filterMap_append (l := [o])

theorem delivered_cons (o : Outcome) (outs : List Outcome) :
    delivered (o :: outs) = delivered [o] ++ delivered outs :=
  List.filterMap_append (l := [o])

/-- What waits and what is queued is what is taken and what still waits. -/
theorem step_conserves (h : s.count ≤ 15) (op : Op) : (step beyond s op).1.count ≤ 15 ∧
    s.pending ++ queued [(step beyond s op).2] = taken [(step beyond s op).2] ++ (step beyond s op).1.pending ∧
      delivered [(step beyond s op).2] = (taken [(step beyond s op).2]).filterMap (scanCode beyond) := by
  cases op with
  | put data =>
    obtain ⟨hcount, ⟨hput, hpending⟩ | ⟨hput, hsame, -⟩⟩ := putKey_pending data h
    · refine ⟨hcount, ?_⟩
      rw [step, hput, hpending]
      exact ⟨rfl, rfl⟩
    · refine ⟨hcount, ?_⟩
      rw [step, hput, hsame]
      exact ⟨List.append_nil _, rfl⟩
  | poll =>
    obtain ⟨hcount, hpending, -⟩ := popKey_pending h
    refine ⟨hcount, ?_⟩
    rw [step, hpending]
    cases s.popKey.2 with
    | none => exact ⟨List.append_nil _, rfl⟩
    | some data =>
      refine ⟨List.append_nil _, ?_⟩
      show (some (scanCode beyond data)).join.toList = (some (scanCode beyond data)).join.toList
      rfl

theorem run_conserves : ∀ (ops : List Op) {s : Keyboard}, s.count ≤ 15 →
    (run beyond s ops).1.count ≤ 15 ∧
      s.pending ++ queued (run beyond s ops).2 = taken (run beyond s ops).2 ++ (run beyond s ops).1.pending ∧
        delivered (run beyond s ops).2 = (taken (run beyond s ops).2).filterMap (scanCode beyond)
  | [], s, h => ⟨h, List.append_nil _, rfl⟩
  | op :: ops, s, h => by
    obtain ⟨hcount, hqueue, hscan⟩ := step_conserves beyond h op
    obtain ⟨hcount', hqueue', hscan'⟩ := run_conserves ops hcount
    refine ⟨hcount', ?_, ?_⟩
    · show s.pending ++ queued ((step beyond s op).2 :: _) = taken ((step beyond s op).2 :: _) ++ _
      rw [queued_cons, taken_cons, ← List.append_assoc, hqueue, List.append_assoc, hqueue', List.append_assoc]
      rfl
    · show delivered ((step beyond s op).2 :: _) = (taken ((step beyond s op).2 :: _)).filterMap _
      rw [delivered_cons, taken_cons, hscan, hscan', List.filterMap_append]

theorem run_append : ∀ (a b : List Op) (s : Keyboard),
    (run beyond s (a ++ b)).1 = (run beyond (run beyond s a).1 b).1
  | [], _, _ => rfl
  | _ :: a, b, _ => run_append a b _

theorem run_polls : ∀ (n : ℕ) {s : Keyboard}, s.count ≤ 15 →
    (run beyond s (List.replicate n .poll)).1.count = s.count - n
  | 0, _, _ => rfl
  | n + 1, s, h => by
    obtain ⟨hcount, -, hless⟩ := popKey_pending h
    rw [List.replicate_succ]
    refine (run_polls n (s := (step beyond s .poll).1) hcount).trans ?_
    show s.popKey.1.count - n = _
    rw [hless, Nat.sub_sub, Nat.add_comm]

theorem init_count (garbage : Fin 16 → KeyData) : (Keyboard.init garbage).count = 0 := by
  show (0 - 0 : UInt32).toNat = 0
  decide

/-- Once the queue is drained, all that was queued was taken. -/
theorem outcomes_taken (garbage : Fin 16 → KeyData) (events : List Event) :
    taken (outcomes beyond garbage events) = queued (outcomes beyond garbage events) ∧
      delivered (outcomes beyond garbage events) =
        (queued (outcomes beyond garbage events)).filterMap (scanCode beyond) := by
  have hstart := (init_count garbage).trans_le (Nat.zero_le 15)
  obtain ⟨hcount, hqueue, hscan⟩ := run_conserves beyond (events.flatMap Event.ops ++ drain) hstart
  have hrest : (run beyond (.init garbage) (events.flatMap Event.ops ++ drain)).1.pending = [] := by
    have hevents := (run_conserves beyond (events.flatMap Event.ops) hstart).1
    refine List.eq_nil_of_length_eq_zero ?_
    have hpolls := run_polls beyond 15 hevents
    rw [length_pending, run_append, drain, hpolls]
    exact Nat.sub_eq_zero_of_le hevents
  have hinit : (Keyboard.init garbage).pending = [] :=
    List.eq_nil_of_length_eq_zero (length_pending.trans (init_count garbage))
  rw [hrest, List.append_nil, hinit, List.nil_append] at hqueue
  have htaken : taken (outcomes beyond garbage events) = queued (outcomes beyond garbage events) := hqueue.symm
  exact ⟨htaken, htaken ▸ hscan⟩

/-! ### Presses and releases -/

/-- A key or modifier that is known has one scancode, which is sent as it is and behind F0. -/
theorem scanCode_pair {press release : KeyData} (h : Pair press release) (hpause : press.keyCode ≠ 0x48)
    {x : List UInt8} (hx : scanCode beyond press = some x) :
    ∃ ps2, x = expandPS2 ps2 true ∧ scanCode beyond release = some (expandPS2 ps2 false) := by
  obtain ⟨hdown, hup, hcode, hmeta⟩ := h
  unfold scanCode at hx ⊢
  rw [← hcode, hup]
  rw [hdown, if_neg (fun hf : press.keyCode = 0x48 ∧ true = true => hpause hf.1)] at hx
  rw [if_neg (fun hf : press.keyCode = 0x48 ∧ false = true => hpause hf.1)]
  by_cases hzero : press.keyCode = 0
  · rw [if_pos hzero] at hx ⊢
    rw [← hmeta hzero]
    dsimp only at hx ⊢
    split at hx
    · cases hx
    · next hne => exact ⟨_, (Option.some.inj hx).symm, if_neg hne⟩
  · rw [if_neg hzero] at hx ⊢
    dsimp only at hx ⊢
    split at hx
    · cases hx
    · next hne => exact ⟨_, (Option.some.inj hx).symm, if_neg hne⟩

/-- What is delivered are the scancodes of the events that were queued, in order; an event is dropped only
    where 15 others wait; and of a press that is delivered and a release that is queued, Pause aside, the
    release is delivered behind the press. -/
theorem outcomes_delivered (beyond : Beyond) (garbage : Fin 16 → KeyData) (events : List Event) :
    delivered (outcomes beyond garbage events) =
        (queued (outcomes beyond garbage events)).filterMap (scanCode beyond) ∧
      (∀ a data b, events.flatMap Event.ops = a ++ .put data :: b →
        (((run beyond (.init garbage) a).1.putKey data).2 = false ↔
          (run beyond (.init garbage) a).1.pending.length = 15)) ∧
      ∀ press release x, Pair press release → press.keyCode ≠ 0x48 → scanCode beyond press = some x →
        [press, release].Sublist (queued (outcomes beyond garbage events)) →
        ∃ ps2, x = expandPS2 ps2 true ∧
          [x, expandPS2 ps2 false].Sublist (delivered (outcomes beyond garbage events)) := by
  have hscan := (outcomes_taken beyond garbage events).2
  refine ⟨hscan, fun a data b _ => ?_, fun press release x hpair hpause hx hsub => ?_⟩
  · have hcount := (run_conserves beyond a ((init_count garbage).trans_le (Nat.zero_le 15))).1
    rw [length_pending]
    obtain ⟨-, ⟨hput, hpending⟩ | ⟨hput, -, hfull⟩⟩ := putKey_pending data hcount
    · refine iff_of_false (fun hf => Bool.noConfusion (hput.symm.trans hf)) fun hf => ?_
      have hlen := congrArg List.length hpending
      rw [length_pending, List.length_append, length_pending, hf] at hlen
      have hle := (putKey_pending data hcount).1
      rw [hlen, List.length_singleton] at hle
      omega
    · exact iff_of_true hput hfull
  · obtain ⟨ps2, rfl, hrelease⟩ := scanCode_pair beyond hpair hpause hx
    refine ⟨ps2, rfl, ?_⟩
    have hcodes := hsub.filterMap (scanCode beyond)
    rw [hscan]
    simpa only [List.filterMap_cons, hx, hrelease, List.filterMap_nil] using hcodes

/-- The release of `A` finds 15 other keys waiting, and is dropped. -/
theorem release_dropped : ¬∀ (beyond : Beyond) (garbage : Fin 16 → KeyData) (events : List Event),
    ∀ press release x, Pair press release →
      [Op.put press, Op.put release].Sublist (events.flatMap Event.ops) → scanCode beyond press = some x →
      x ∈ delivered (outcomes beyond garbage events) →
      ∃ y, scanCode beyond release = some y ∧ y ∈ delivered (outcomes beyond garbage events) := by
  intro hall
  let events : List Event := [.keyDown 0 4, .poll] ++ List.replicate 15 (.keyDown 0 5) ++ [.keyUp 0 4]
  have hsub : [Op.put ⟨4, 0, true⟩, Op.put ⟨4, 0, false⟩].Sublist (events.flatMap Event.ops) := by
    refine .cons_cons _ (List.singleton_sublist.mpr ?_)
    exact List.mem_flatMap.mpr ⟨.keyUp 0 4, List.mem_append_right _ List.mem_cons_self, List.mem_cons_self⟩
  obtain ⟨y, hy, hmem⟩ := hall ⟨0, 0⟩ (fun _ => ⟨0, 0, false⟩) events ⟨4, 0, true⟩ ⟨4, 0, false⟩ [0x1C]
    ⟨rfl, rfl, rfl, fun _ => rfl⟩ hsub (by decide) (by decide)
  have hrelease : scanCode ⟨0, 0⟩ ⟨4, 0, false⟩ = some [0xF0, 0x1C] := by decide
  obtain rfl : [0xF0, 0x1C] = y := Option.some.inj (hrelease.symm.trans hy)
  exact absurd hmem (by decide)

end UsbHid
