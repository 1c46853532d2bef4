import Mathlib.Algebra.Order.Ring.Nat
import Mathlib.Data.List.Basic
import Mathlib.Logic.Function.Basic

/-! Double buffering in a READ(10) on the Vidor board, from `usb/msc.c` and
    `hardware_vidor/msc_hardware.cpp`.

    A sector is read into one buffer while the other one goes to the host. Before a transfer is armed the
    one before is awaited, on the endpoint that the caller names and not on the one that is armed, for
    100 ms at most, and not at all for the last sector: that one is awaited behind it. All times are ticks;
    both buffers are aligned and in RAM, so no packet is copied. -/

namespace UsbVidor

variable {α : Type}

/-! ### The code -/

/-- How long the n-th read from the card and the n-th transfer take, and the 100 ms of the n-th timer; and
    how long endpoint 1 looks busy to the n-th poll when it is not the one that is armed. -/
structure Timing where
  read : ℕ → ℕ
  transfer : ℕ → ℕ
  timer : ℕ → ℕ
  other : ℕ → ℕ

/-- The bus: the buffer that is in transfer and when that ends, and what the host has. -/
structure Bus (α : Type) where
  now : ℕ
  TwoSectors : Bool → α
  flying : Option (Bool × ℕ)
  received : List α
  raced : Bool

/-- Time goes by. -/
def Bus.after (s : Bus α) (ticks : ℕ) : Bus α := { s with now := s.now + ticks }

/-- `epBank1IsReady`, for so many more ticks. -/
def Bus.busy (s : Bus α) : ℕ := s.flying.elim 0 fun f => f.2 - s.now

/-- A transfer that has ended is with the host. -/
def Bus.settle (s : Bus α) : Bus α :=
  match s.flying with
  | some (buf, ends) =>
    if ends ≤ s.now then { s with flying := none, received := s.received ++ [s.TwoSectors buf] } else s
  | none => s

/-- The loop that polls an endpoint while the timer runs. -/
def pollLoop : ℕ → ℕ → ℕ
  | busy + 1, timer + 1 => pollLoop busy timer + 1
  | _, _ => 0

/-- `Card_ReadM`; a buffer that is in transfer must not be written. -/
def cardReadM (data : α) (duration : ℕ) (buf : Bool) (s : Bus α) : Bus α :=
  ({ s with
    TwoSectors := Function.update s.TwoSectors buf data
    raced := s.raced || s.flying.any fun f => f.1 = buf ∧ s.now < f.2 } : Bus α).after duration

/-- `epBank1SetAddress` … `epBank1SetReady`; an endpoint that is in transfer must not be armed. -/
def Bus.arm (buf : Bool) (transfer : ℕ) (s : Bus α) : Bus α :=
  let s := s.settle
  { s with flying := some (buf, s.now + transfer), raced := s.raced || s.flying.isSome }

def FIXED_EP_BULK_IN : ℕ := 1

/-- `MSCHardware::send` of the n-th sector. -/
def send (pluggedEndpoint : ℕ) (t : Timing) (i : ℕ) (buf async : Bool) (s : Bus α) : Bus α :=
  let busy := if FIXED_EP_BULK_IN = pluggedEndpoint then s.busy else t.other i
  let s := if async then s.after (pollLoop busy (t.timer i)) else s
  let s := s.arm buf (t.transfer i)
  if async then s else (s.after (pollLoop s.busy (t.timer i))).settle

/-- The loop of `OPERATIONCODE_READ_10`: `left` sectors are to come. -/
def readLoop (pluggedEndpoint : ℕ) (t : Timing) (sectors : ℕ → α) (numSectors : ℕ) :
    ℕ → ℕ → Bus α → Bus α
  | 0, _, s => s
  | left + 1, i, s =>
    let buf : Bool := i % 2 = 1
    let last : Bool := i + 1 = numSectors
    let s := cardReadM (sectors i) (t.read i) buf s
    readLoop pluggedEndpoint t sectors numSectors left (i + 1) (send pluggedEndpoint t i buf (!last) s)

/-- A READ(10) of so many sectors, from an idle endpoint. -/
def readTen (pluggedEndpoint : ℕ) (t : Timing) (sectors : ℕ → α) (numSectors : ℕ) (TwoSectors : Bool → α) :
    Bus α :=
  readLoop pluggedEndpoint t sectors numSectors numSectors 0 ⟨0, TwoSectors, none, [], false⟩

/-! ### Races -/

/-- No buffer and no transfer is spoilt, and on return the host has the sectors in order. -/
def RaceFree (pluggedEndpoint : ℕ) (t : Timing) (sectors : ℕ → α) (numSectors : ℕ)
    (TwoSectors : Bool → α) : Prop :=
  (readTen pluggedEndpoint t sectors numSectors TwoSectors).raced = false ∧
    (readTen pluggedEndpoint t sectors numSectors TwoSectors).received = (List.range numSectors).map sectors

/-- How long the n-th transfer is put off at most: not at all for the last sector, and as long as the wrong
    endpoint looks busy when the one that is armed is not endpoint 1. -/
def putOff (pluggedEndpoint : ℕ) (t : Timing) (numSectors i : ℕ) : ℕ :=
  if i + 1 = numSectors then 0
  else if FIXED_EP_BULK_IN = pluggedEndpoint then t.timer i
  else min (t.other i) (t.timer i)

/-- Each transfer ends while the next sector is read or waits, and the last one while it is awaited. -/
def InTime (pluggedEndpoint : ℕ) (t : Timing) (numSectors : ℕ) : Prop :=
  (∀ i, i + 1 < numSectors → t.transfer i ≤ t.read (i + 1) + putOff pluggedEndpoint t numSectors (i + 1)) ∧
    (0 < numSectors → t.transfer (numSectors - 1) ≤ t.timer (numSectors - 1))

/-! ### One sector -/

theorem pollLoop_eq : ∀ (busy timer : ℕ), pollLoop busy timer = min busy timer
  | 0, _ => by rw [pollLoop, Nat.zero_min]; exact fun _ _ h => absurd h (Nat.succ_ne_zero _).symm
  | _ + 1, 0 => rfl
  | busy + 1, timer + 1 => by rw [pollLoop, pollLoop_eq, Nat.add_min_add_right]

variable {pluggedEndpoint numSectors : ℕ} {t : Timing} {sectors : ℕ → α} {s : Bus α} {i : ℕ}

/-- Sector `i` is on its way, and all before it are with the host. -/
structure Sent (t : Timing) (sectors : ℕ → α) (s : Bus α) (i : ℕ) : Prop where
  flying : s.flying = some (decide (i % 2 = 1), s.now + t.transfer i)
  held : s.TwoSectors (decide (i % 2 = 1)) = sectors i
  received : s.received = (List.range i).map sectors
  raced : s.raced = false

/-- Nothing is on its way, and the first sectors are with the host. -/
structure Idle (sectors : ℕ → α) (s : Bus α) (i : ℕ) : Prop where
  flying : s.flying = none
  received : s.received = (List.range i).map sectors
  raced : s.raced = false

theorem buffers_alternate (i : ℕ) : (decide (i % 2 = 1)) ≠ decide ((i + 1) % 2 = 1) := by
  rw [ne_eq, decide_eq_decide]
  omega

/-- A transfer that has come to its end. -/
theorem settle_done {buf : Bool} {ends : ℕ} (hfly : s.flying = some (buf, ends)) (h : ends ≤ s.now) :
    s.settle = { s with flying := none, received := s.received ++ [s.TwoSectors buf] } := by
  rw [Bus.settle, hfly]
  exact if_pos h

theorem settle_late {buf : Bool} {ends : ℕ} (hfly : s.flying = some (buf, ends)) (h : ¬ends ≤ s.now) :
    s.settle = s := by
  rw [Bus.settle, hfly]
  exact if_neg h

theorem settle_idle (hfly : s.flying = none) : s.settle = s := by
  rw [Bus.settle, hfly]

/-- A race is never made good. -/
theorem settle_raced (s : Bus α) : s.settle.raced = s.raced := by
  rw [Bus.settle]
  split
  · split <;> rfl
  · rfl

theorem arm_raced {buf : Bool} {transfer : ℕ} (h : s.raced = true) : (s.arm buf transfer).raced = true := by
  rw [Bus.arm]
  simp only [settle_raced, h, Bool.true_or]

theorem send_async (buf : Bool) : send pluggedEndpoint t i buf true s =
    (s.after (min (if FIXED_EP_BULK_IN = pluggedEndpoint then s.busy else t.other i)
      (t.timer i))).arm buf (t.transfer i) := by
  rw [← pollLoop_eq]
  rfl

theorem send_wait (buf : Bool) : send pluggedEndpoint t i buf false s =
    ((s.arm buf (t.transfer i)).after
      (min (s.arm buf (t.transfer i)).busy (t.timer i))).settle := by
  rw [← pollLoop_eq]
  rfl

theorem send_raced {buf : Bool} : ∀ {async : Bool}, s.raced = true →
    (send pluggedEndpoint t i buf async s).raced = true
  | true, h => by
    rw [send_async]
    exact arm_raced h
  | false, h => by
    rw [send_wait, settle_raced]
    show (s.arm buf (t.transfer i)).raced = true
    exact arm_raced h

theorem readLoop_raced : ∀ {left i : ℕ} {s : Bus α}, s.raced = true →
    (readLoop pluggedEndpoint t sectors numSectors left i s).raced = true
  | 0, _, _, h => h
  | _ + 1, _, s, h => by
    rw [readLoop]
    refine readLoop_raced (send_raced ?_)
    show (s.raced || _) = true
    rw [h, Bool.true_or]

/-- The sector behind one that is on its way is read and armed after some wait. -/
theorem Sent.next (h : Sent t sectors s i) (wait : ℕ) :
    let buf : Bool := (i + 1) % 2 = 1
    let s' := (cardReadM (sectors (i + 1)) (t.read (i + 1)) buf s).after wait
    (t.transfer i ≤ t.read (i + 1) + wait → Sent t sectors (s'.arm buf (t.transfer (i + 1))) (i + 1)) ∧
      (¬t.transfer i ≤ t.read (i + 1) + wait → (s'.arm buf (t.transfer (i + 1))).raced = true) := by
  intro buf s'
  have hother := buffers_alternate i
  have hfly : s'.flying = some (decide (i % 2 = 1), s.now + t.transfer i) := h.flying
  have hclean : s'.raced = false := by
    show (s.raced || s.flying.any _) = false
    rw [h.raced, h.flying, Option.any_some, decide_eq_false fun hbuf => hother hbuf.1]
    rfl
  have hnow : s'.now = s.now + (t.read (i + 1) + wait) := Nat.add_assoc _ _ _
  have hends : s.now + t.transfer i ≤ s'.now ↔ t.transfer i ≤ t.read (i + 1) + wait := by
    rw [hnow, Nat.add_le_add_iff_left]
  rw [← hends, Bus.arm]
  constructor
  · intro hle
    rw [settle_done hfly hle]
    refine ⟨rfl, Function.update_self _ _ _, ?_, ?_⟩
    · show s.received ++ [Function.update s.TwoSectors buf (sectors (i + 1)) _] = _
      rw [Function.update_of_ne hother, h.held, h.received, List.range_succ, List.map_append,
        List.map_singleton]
    · show (s'.raced || _) = false
      rw [hclean]
      rfl
  · intro hlate
    rw [settle_late hfly hlate]
    show (_ || s'.flying.isSome) = true
    rw [hfly, Option.isSome_some, Bool.or_true]

/-- The first sector finds nothing on its way. -/
theorem Idle.first (h : Idle sectors s 0) (wait : ℕ) :
    Sent t sectors (((cardReadM (sectors 0) (t.read 0) false s).after wait).arm false (t.transfer 0)) 0 := by
  have hfly : ((cardReadM (sectors 0) (t.read 0) false s).after wait).flying = none := h.flying
  rw [Bus.arm, settle_idle hfly]
  have hheld : Function.update s.TwoSectors false (sectors 0) (decide (0 % 2 = 1)) = sectors 0 :=
    Function.update_self _ _ _
  refine ⟨rfl, hheld, h.received, ?_⟩
  show (s.raced || s.flying.any _ || s.flying.isSome) = false
  rw [h.raced, h.flying]
  rfl

/-- The wait behind the last sector. -/
theorem Sent.await (h : Sent t sectors s i) :
    let s' := (s.after (min s.busy (t.timer i))).settle
    (s'.raced = false ∧ s'.received = (List.range (i + 1)).map sectors) ↔ t.transfer i ≤ t.timer i := by
  have hbusy : s.busy = t.transfer i := by
    rw [Bus.busy, h.flying]
    exact Nat.add_sub_cancel_left _ _
  have hfly : (s.after (min s.busy (t.timer i))).flying =
      some (decide (i % 2 = 1), s.now + t.transfer i) := h.flying
  have hends : s.now + t.transfer i ≤ (s.after (min s.busy (t.timer i))).now ↔
      t.transfer i ≤ t.timer i := by
    rw [Bus.after, Nat.add_le_add_iff_left, hbusy, Nat.le_min, and_iff_right (le_refl _)]
  by_cases hle : t.transfer i ≤ t.timer i
  · rw [settle_done hfly (hends.mpr hle)]
    refine iff_of_true ⟨h.raced, ?_⟩ hle
    show s.received ++ [s.TwoSectors _] = _
    rw [h.held, h.received, List.range_succ, List.map_append, List.map_singleton]
  · rw [settle_late hfly fun h => hle (hends.mp h)]
    refine iff_of_false (fun hall => ?_) hle
    have hlen := congrArg List.length (h.received.symm.trans hall.2)
    rw [List.length_map, List.length_map, List.length_range, List.length_range] at hlen
    omega

/-! ### All sectors -/

/-- From a sector that is on its way to the end. -/
theorem readLoop_iff : ∀ (left i : ℕ) {s : Bus α}, Sent t sectors s i → i + 1 + (left + 1) = numSectors →
    let run := readLoop pluggedEndpoint t sectors numSectors (left + 1) (i + 1) s
    (run.raced = false ∧ run.received = (List.range numSectors).map sectors) ↔
      (∀ j, i ≤ j → j + 1 < numSectors →
        t.transfer j ≤ t.read (j + 1) + putOff pluggedEndpoint t numSectors (j + 1)) ∧
      t.transfer (numSectors - 1) ≤ t.timer (numSectors - 1)
  | 0, i, s, h, hn => by
    subst hn
    intro run
    have hrun : run = send pluggedEndpoint t (i + 1) (decide ((i + 1) % 2 = 1)) false
        (cardReadM (sectors (i + 1)) (t.read (i + 1)) (decide ((i + 1) % 2 = 1)) s) := by
      show readLoop _ _ _ _ _ _ _ = _
      rw [readLoop, readLoop]
      simp only [Nat.zero_add, decide_true, Bool.not_true]
    obtain ⟨hgood, hrace⟩ := h.next 0
    have hwait : putOff pluggedEndpoint t (i + 1 + (0 + 1)) (i + 1) = 0 := if_pos rfl
    have hearlier : (∀ j, i ≤ j → j + 1 < i + 1 + (0 + 1) →
        t.transfer j ≤ t.read (j + 1) + putOff pluggedEndpoint t (i + 1 + (0 + 1)) (j + 1)) ↔
          t.transfer i ≤ t.read (i + 1) + 0 := by
      refine ⟨fun hall => hwait ▸ hall i (le_refl _) (by omega), fun hle j hj hlt => ?_⟩
      obtain rfl : j = i := by omega
      rwa [hwait]
    rw [hearlier, hrun, send_wait]
    by_cases hle : t.transfer i ≤ t.read (i + 1) + 0
    · rw [and_iff_right hle]
      exact (hgood hle).await
    · rw [settle_raced]
      exact iff_of_false (fun hall => Bool.noConfusion ((hrace hle).symm.trans hall.1)) fun hall => hle hall.1
  | left + 1, i, s, h, hn => by
    intro run
    have hmore : ¬i + 1 + 1 = numSectors := by omega
    set wait := min (if FIXED_EP_BULK_IN = pluggedEndpoint then
      (cardReadM (sectors (i + 1)) (t.read (i + 1)) (decide ((i + 1) % 2 = 1)) s).busy
      else t.other (i + 1)) (t.timer (i + 1)) with hwait
    have hrun : run = readLoop pluggedEndpoint t sectors numSectors (left + 1) (i + 1 + 1)
        (((cardReadM (sectors (i + 1)) (t.read (i + 1)) (decide ((i + 1) % 2 = 1)) s).after wait).arm
          (decide ((i + 1) % 2 = 1)) (t.transfer (i + 1))) := by
      show readLoop _ _ _ _ _ _ _ = _
      rw [readLoop]
      simp only [decide_eq_false hmore, Bool.not_false, send_async]
      rfl
    have hbusy : (cardReadM (sectors (i + 1)) (t.read (i + 1)) (decide ((i + 1) % 2 = 1)) s).busy =
        t.transfer i - t.read (i + 1) := by
      rw [Bus.busy]
      show s.flying.elim 0 _ = _
      rw [h.flying]
      exact Nat.add_sub_add_left _ _ _
    have hmet : t.transfer i ≤ t.read (i + 1) + wait ↔
        t.transfer i ≤ t.read (i + 1) + putOff pluggedEndpoint t numSectors (i + 1) := by
      rw [hwait, hbusy, putOff, if_neg hmore]
      split
      · omega
      · rfl
    have hearlier : (∀ j, i ≤ j → j + 1 < numSectors →
        t.transfer j ≤ t.read (j + 1) + putOff pluggedEndpoint t numSectors (j + 1)) ↔
          t.transfer i ≤ t.read (i + 1) + wait ∧ ∀ j, i + 1 ≤ j → j + 1 < numSectors →
            t.transfer j ≤ t.read (j + 1) + putOff pluggedEndpoint t numSectors (j + 1) := by
      rw [hmet]
      refine ⟨fun hall => ⟨hall i (le_refl _) (by omega), fun j hj => hall j (by omega)⟩,
        fun hall j hj hlt => ?_⟩
      rcases Nat.eq_or_lt_of_le hj with rfl | hj
      · exact hall.1
      · exact hall.2 j hj hlt
    obtain ⟨hgood, hrace⟩ := h.next wait
    rw [hearlier, hrun]
    by_cases hle : t.transfer i ≤ t.read (i + 1) + wait
    · rw [and_iff_right hle]
      exact readLoop_iff left (i + 1) (hgood hle) (by omega)
    · refine iff_of_false (fun hall => ?_) fun hall => hle hall.1.1
      exact Bool.noConfusion ((readLoop_raced (hrace hle)).symm.trans hall.1)

/-- A READ(10) is free of races exactly when each transfer ends in time. -/
theorem raceFree_iff (pluggedEndpoint : ℕ) (t : Timing) (sectors : ℕ → α) (numSectors : ℕ)
    (TwoSectors : Bool → α) :
    RaceFree pluggedEndpoint t sectors numSectors TwoSectors ↔ InTime pluggedEndpoint t numSectors := by
  have hidle : Idle sectors ⟨0, TwoSectors, none, [], false⟩ 0 := ⟨rfl, rfl, rfl⟩
  rw [RaceFree, InTime, readTen]
  match numSectors with
  | 0 =>
    exact iff_of_true ⟨rfl, rfl⟩
      ⟨fun i hi => absurd hi (Nat.not_lt_zero _), fun h => absurd h (lt_irrefl 0)⟩
  | 1 =>
    have hnone : ∀ i, i + 1 < 1 → t.transfer i ≤ t.read (i + 1) + putOff pluggedEndpoint t 1 (i + 1) :=
      fun i hi => absurd hi (by omega)
    rw [and_iff_right hnone, forall_prop_of_true Nat.one_pos, readLoop, readLoop]
    simp only [Nat.zero_add, decide_true, Bool.not_true, send_wait]
    exact (hidle.first 0).await
  | left + 2 =>
    rw [readLoop]
    simp only [decide_eq_false (show ¬0 + 1 = left + 2 by omega), Bool.not_false, send_async]
    have hsent := @Idle.first α t sectors _ hidle (min (if FIXED_EP_BULK_IN = pluggedEndpoint then
      (cardReadM (sectors 0) (t.read 0) false ⟨0, TwoSectors, none, [], false⟩).busy
      else t.other 0) (t.timer 0))
    have hrun := @readLoop_iff α pluggedEndpoint (left + 2) t sectors left 0 _ hsent (by omega)
    refine hrun.trans ?_
    simp only [Nat.zero_le, forall_const, Nat.succ_pos]

/-- The last sector is armed at once: a card that is faster than the host spoils the one before. -/
theorem last_unawaited : ¬∀ (pluggedEndpoint : ℕ) (t : Timing) (sectors : ℕ → ℕ) (numSectors : ℕ)
    (TwoSectors : Bool → ℕ), RaceFree pluggedEndpoint t sectors numSectors TwoSectors := by
  intro h
  have hrace := (h 1 ⟨fun _ => 1, fun _ => 5, fun _ => 100, fun _ => 0⟩ id 2 (fun _ => 0)).1
  exact absurd hrace (by decide)

end UsbVidor
