import ReplayFirmware.FileIO.Slots
import Mathlib.Data.Fintype.Pi

/-! What the core knows of the drives.

    The status byte of a channel is sent when a drive is inserted, ejected or protected, but not when an
    insert fails and not when the slots are cleared, though both change the status of a slot. The core
    is told the truth all along a run exactly when these find the slot with the status that they leave
    it with. -/

namespace FileIO.Slots
open Function Owned Steps

variable {s s' : State} {op : Op} {a : Answers} {ch : Fin 2} {drive_number : Fin 4}
  {path : List UInt8} {b : UInt8}

/-- Bit `i` says that slot `i` is inserted, bit `4 + i` that it can be written. -/
def Encodes (b : UInt8) (pDrive : Fin 4 → Slot) : Prop :=
  ∀ i : Fin 4, b.toNat.testBit i = (pDrive i).inserted ∧ b.toNat.testBit (4 + i) = (pDrive i).writable

/-- What a channel has been sent last, if anything, encodes its slots. -/
def Synced (s : State) : Prop :=
  ∀ ch b, s.sent ch = some b → Encodes b fun i => s.handle (ch, i)

/-- A failed insert, and clearing the slots, find what they leave: a slot that is not inserted and can be
    written, or not, as before. Nothing is asked of a channel that has not been told anything. -/
def Told (s : State) : Op → Prop
  | .insert a ch drive_number path => Accepts a (s.driver ch) drive_number path ∨
      ((s.sent ch).isSome = true → (s.handle (ch, drive_number)).inserted = false ∧
        ((s.handle (ch, drive_number)).writable = true ↔ failedStatus a path = 0))
  | .init => ∀ ch drive_number, (s.sent ch).isSome = true →
      (s.handle (ch, drive_number)).inserted = false ∧ (s.handle (ch, drive_number)).writable = true
  | _ => True

/-! ### The byte -/

theorem statusLoop_bits : ∀ (ins wr : Fin 4 → Bool) (i : Fin 4),
    (((List.finRange 4).foldl (fun status i =>
      let status := if ins i then status ||| (0x01 <<< i.val.toUInt8) else status
      if wr i then status ||| (0x10 <<< i.val.toUInt8) else status) (0 : UInt8)).toNat.testBit i
        = ins i) ∧
    (((List.finRange 4).foldl (fun status i =>
      let status := if ins i then status ||| (0x01 <<< i.val.toUInt8) else status
      if wr i then status ||| (0x10 <<< i.val.toUInt8) else status) (0 : UInt8)).toNat.testBit (4 + i)
        = wr i) := by
  decide

theorem driveStatus_encodes (pDrive : Fin 4 → Slot) : Encodes (driveStatus pDrive) pDrive :=
  statusLoop_bits (fun i => (pDrive i).inserted) fun i => (pDrive i).writable

/-- A byte encodes other slots as well exactly when they have the same status. -/
theorem Encodes.iff {f g : Fin 4 → Slot} (h : Encodes b f) :
    Encodes b g ↔ ∀ i, (f i).inserted = (g i).inserted ∧ (f i).writable = (g i).writable := by
  refine forall_congr' fun i => ?_
  rw [(h i).1, (h i).2]

/-! ### What one call tells -/

/-- A slot that has changed is told with the rest of its channel. -/
theorem synced_updated (h : Synced s) (pDrive : Slot) (driver : Fin 2 → UInt8) (files descs : Pool) :
    Synced (updateDriveStatus ch
      ⟨update s.handle (ch, drive_number) pDrive, driver, files, descs, s.sent⟩) := by
  intro ch' b hb
  by_cases hch : ch' = ch
  · subst hch
    simp only [updateDriveStatus, update_self] at hb
    obtain rfl := Option.some.inj hb
    exact driveStatus_encodes _
  · simp only [updateDriveStatus, update_of_ne hch] at hb
    have hne : ∀ i, (ch', i) ≠ (ch, drive_number) := fun i heq => hch (congrArg Prod.fst heq)
    simp only [updateDriveStatus, update_of_ne (hne _)]
    exact h ch' b hb

/-- A change that is not told has to leave the status as it was. -/
theorem synced_quiet_iff (h : Synced s) (pDrive : Slot) (driver : Fin 2 → UInt8)
    (files descs : Pool) :
    Synced ⟨update s.handle (ch, drive_number) pDrive, driver, files, descs, s.sent⟩ ↔
      ((s.sent ch).isSome = true →
        (s.handle (ch, drive_number)).inserted = pDrive.inserted ∧
        (s.handle (ch, drive_number)).writable = pDrive.writable) := by
  constructor
  · intro h' hsome
    obtain ⟨b, hb⟩ := Option.isSome_iff_exists.mp hsome
    have hsame := ((h ch b hb).iff.mp (h' ch b hb)) drive_number
    simp only [update_self] at hsame
    exact hsame
  · intro hsame ch' b hb
    refine (h ch' b hb).iff.mpr fun i => ?_
    by_cases hk : (ch', i) = (ch, drive_number)
    · obtain ⟨rfl, rfl⟩ := Prod.ext_iff.mp hk
      simp only [update_self]
      exact hsame (Option.isSome_iff_exists.mpr ⟨b, hb⟩)
    · simp only [update_of_ne hk, and_self]

/-- The status that a failed insert leaves. -/
theorem same_status_iff {status : UInt8} (hstatus : status = 0 ∨ status = statReadonly) (pDrive : Slot)
    (file desc : Option ℕ) (name : List UInt8) :
    pDrive.inserted = Slot.inserted ⟨status, file, desc, name⟩ ∧
        pDrive.writable = Slot.writable ⟨status, file, desc, name⟩ ↔
      pDrive.inserted = false ∧ (pDrive.writable = true ↔ status = 0) := by
  rcases hstatus with rfl | rfl
  · rw [inserted_zero, writable_zero, eq_self_iff_true, iff_true]
  · rw [inserted_readonly, not_writable_readonly, iff_false_intro (by decide : ¬statReadonly = 0),
      iff_false, Bool.not_eq_true]

theorem insert_synced_iff (h : Synced s) (hins : Inserts a ch drive_number path s s') :
    Synced s' ↔ Told s (.insert a ch drive_number path) := by
  cases hins with
  | absent hopen =>
    have hnot : ¬Accepts a (s.driver ch) drive_number path := by
      rintro ⟨status, fSource, st, h0, -⟩
      exact Option.some_ne_none _ (h0.symm.trans hopen)
    have hfailed : failedStatus a path = statReadonly := by rw [failedStatus, hopen]
    rw [Told, or_iff_right hnot, synced_quiet_iff h, hfailed]
    exact imp_congr_right fun _ => same_status_iff (Or.inr rfl) _ _ _ _
  | refused hopen hv =>
    rename_i status fSource
    have hnot : ¬Accepts a (s.driver ch) drive_number path := not_accepts_of_refused hopen hv
    have hfailed : failedStatus a path = status := by rw [failedStatus, hopen]
    rw [Told, or_iff_right hnot, synced_quiet_iff h, hfailed]
    exact imp_congr_right fun _ => same_status_iff (openSource_status hopen) _ _ _ _
  | taken hopen hv =>
    exact iff_of_true (synced_updated h _ _ _ _) (Or.inl ⟨_, _, _, hopen, hv⟩)

theorem togProtect_synced (h : Synced s) : Synced (togProtect ch drive_number s) := by
  rw [togProtect]
  split
  · exact synced_updated h _ _ _ _
  · exact h

theorem init_synced_iff (h : Synced s) :
    Synced (init s) ↔ Told s .init := by
  have hclear : Slot.clear.inserted = false ∧ Slot.clear.writable = true :=
    ⟨inserted_zero .., writable_zero ..⟩
  constructor
  · intro h' ch drive_number hsome
    obtain ⟨b, hb⟩ := Option.isSome_iff_exists.mp hsome
    obtain ⟨hi, hw⟩ := (h ch b hb).iff.mp (h' ch b hb) drive_number
    exact ⟨hi.trans hclear.1, hw.trans hclear.2⟩
  · intro htold ch b hb
    refine (h ch b hb).iff.mpr fun i => ?_
    obtain ⟨hi, hw⟩ := htold ch i (Option.isSome_iff_exists.mpr ⟨b, hb⟩)
    exact ⟨hi.trans hclear.1.symm, hw.trans hclear.2.symm⟩

theorem updateDriveStatus_synced (h : Synced s) (ch : Fin 2) : Synced (updateDriveStatus ch s) := by
  have hsame := @synced_updated s ch 0 h (s.handle (ch, 0)) s.driver s.files s.descs
  rw [update_eq_self] at hsame
  exact hsame

/-- A call keeps the core told if and only if it is one of those that tell, or changes nothing that
    there is to tell. -/
theorem step_synced_iff (h : Synced s) (hstep : step s op = some s') : Synced s' ↔ Told s op := by
  cases op with
  | insert a ch drive_number path => exact insert_synced_iff h (insert_inserts hstep)
  | eject ch drive_number =>
    obtain rfl := Option.some.inj hstep
    exact iff_of_true (synced_updated h _ _ _ _) trivial
  | togProtect ch drive_number =>
    obtain rfl := Option.some.inj hstep
    exact iff_of_true (togProtect_synced h) trivial
  | init =>
    obtain rfl := Option.some.inj hstep
    exact init_synced_iff h
  | setDriver ch type =>
    obtain rfl := Option.some.inj hstep
    exact iff_of_true h trivial
  | updateDriveStatus ch =>
    obtain rfl := Option.some.inj hstep
    exact iff_of_true (updateDriveStatus_synced h ch) trivial

/-! ### Runs -/

/-- From power-up on, what the core has been told is true in every state if and only if no call changes a
    status that it does not tell. -/
theorem mirror_iff (ops : List Op) :
    AllStates step Synced State.start ops ↔ AllSteps step Told State.start ops :=
  allStates_iff (fun _ _ _ _ _ => trivial) (fun _ _ _ (_ : True) h hstep => step_synced_iff h hstep)
    ops trivial fun _ _ hb => absurd hb.symm (Option.some_ne_none _)

attribute [local instance] twoChannels fourDrives in
/-- A channel is told of its slots, and an insert finds no file. -/
def missingFile : List Op :=
  [.updateDriveStatus 0, .insert { imageAnswers with rw := none } 0 0 [0x2F, 0x61]]

theorem missing_file_stale : ¬∀ ops, AllStates step Synced State.start ops := by
  intro hall
  have hsome : (run step State.start missingFile).isSome = true := by decide
  have hstale : ∀ s ∈ run step State.start missingFile,
      s.sent 0 = some 0xF0 ∧ (s.handle (0, 0)).writable = false := by decide
  obtain ⟨s, hrun⟩ := Option.isSome_iff_exists.mp hsome
  obtain ⟨hsent, hw⟩ := hstale s hrun
  have hsync : Synced s := AllStates.reached (hall (missingFile ++ [])) hrun
  have hbit := (hsync 0 _ hsent 0).2
  rw [hw] at hbit
  exact absurd hbit (by decide)

end FileIO.Slots
