import ReplayFirmware.Usb.Msc

/-! What a host can rely on for one command block.

    The device goes by the length that the command names, not by the one that the host expects; where the
    two agree well enough, data and status are as Bulk-Only transport wants them. -/

namespace Msc
open FileIO

variable {cbw : CommandBlockWrapper} {device : Device} {twoSectors : Buffer}
  {packets : List (List UInt8)}

/-- Bytes sent to the host. -/
def sent (ts : List Transfer) : ℕ :=
  (ts.map fun
    | .dataIn _ length => length
    | _ => 0).sum

/-- Bytes received from it. -/
def received (ts : List Transfer) : ℕ :=
  (ts.map fun
    | .dataOut _ read => read
    | _ => 0).sum

/-- A transfer of the data phase, of bytes that exist. -/
def Transfer.Exists : Transfer → Prop
  | .dataIn object length => length ≤ object.length
  | _ => True

/-- Neither a status nor a stall. -/
def Transfer.IsData : Transfer → Prop
  | .csw _ _ _ | .stall _ => False
  | _ => True

/-- The cases that end in a phase error. -/
def TransferMode.IsPhaseError : TransferMode → Prop
  | .hnLtDi | .hnLtDo | .hiLtDi | .hiNeDo | .hoNeDi | .hoLtDo => True
  | _ => False

/-- Data and status of a command, as Bulk-Only transport has them. -/
structure Served (cbw : CommandBlockWrapper) (data : List Transfer) (residue : UInt32)
    (status : CSWStatus) : Prop where
  isData : ∀ t ∈ data, t.IsData
  exists_ : ∀ t ∈ data, t.Exists
  sent_le : sent data ≤ cbw.hostLength
  sent_in : 0 < sent data → cbw.hostTransferType = .deviceToHost
  received_out : 0 < received data → cbw.hostTransferType = .hostToDevice
  phaseError : cbw.transferMode.IsPhaseError → status = .phaseError
  residue_eq : ¬ cbw.transferMode.IsPhaseError →
    residue.toNat + (sent data + received data) = cbw.hostLength

/-- The device moves data as it should, and then sends one status that echoes the tag. -/
def Conforms (cbw : CommandBlockWrapper) : Option (List Transfer × Device) → Prop
  | none => False
  | some (ts, _) => ∃ data residue status,
    ts = data ++ [.csw cbw.dCBWTag residue status] ∧ Served cbw data residue status

/-- The packets in which a host sends so many bytes. -/
def Sends : List (List UInt8) → ℕ → Prop
  | [], n => n = 0
  | packet :: packets, n => packet ≠ [] ∧ packet.length = min 64 n ∧ Sends packets (n - packet.length)

/-- What a host sends after a command block. -/
def CommandBlockWrapper.outLength (cbw : CommandBlockWrapper) : ℕ :=
  if cbw.hostTransferType = .hostToDevice then cbw.hostLength else 0

/-- The response object is as long as the response. -/
def CommandBlockWrapper.Fits (cbw : CommandBlockWrapper) : Prop :=
  (cbw.opcode = .inquiry → cbw.evpd = false → cbw.deviceLength ≤ 36) ∧
    (cbw.opcode = .requestSense → cbw.deviceLength ≤ 18)

/-- The device intends to move nothing, or what the host expects. -/
def CommandBlockWrapper.Agrees (cbw : CommandBlockWrapper) : Prop :=
  cbw.deviceLength = 0 ∨
    cbw.hostTransferType = cbw.opcode.deviceTransferType ∧ cbw.deviceLength ≤ cbw.hostLength

/-! ### Lengths -/

theorem sent_append (ts ts' : List Transfer) : sent (ts ++ ts') = sent ts + sent ts' := by
  rw [sent, sent, sent, List.map_append, List.sum_append]

theorem received_append (ts ts' : List Transfer) : received (ts ++ ts') = received ts + received ts' := by
  rw [received, received, received, List.map_append, List.sum_append]

theorem readBe16_lt (a b : UInt8) : readBe16 a b < 65536 := by
  have ha := a.toNat_lt
  have hb := b.toNat_lt
  rw [readBe16]
  omega

theorem deviceLength_lt (cbw : CommandBlockWrapper) : cbw.deviceLength < 4294967296 := by
  have h34 := readBe16_lt cbw.cbwcb[3] cbw.cbwcb[4]
  have h78 := readBe16_lt cbw.cbwcb[7] cbw.cbwcb[8]
  have h4 := (cbw.cbwcb[4]).toNat_lt
  rw [CommandBlockWrapper.deviceLength, CommandBlockWrapper.transferLength]
  split
  · split
    · split
      · omega
      · omega
    · omega
  · omega
  · omega
  · split
    · omega
    · omega
  · split
    · omega
    · omega
  · omega
  · omega
  · omega
  · omega
  · omega
  · omega
  · omega

/-- Only commands with a direction have a length. -/
theorem deviceLength_eq_zero (h : cbw.opcode.deviceTransferType = .noTransfer) : cbw.deviceLength = 0 := by
  rw [CommandBlockWrapper.deviceLength]
  cases hop : cbw.opcode with
  | testUnitReady => rfl
  | preventAllowRemoval => rfl
  | startStopUnit => rfl
  | unknown => rfl
  | _ => rw [hop, Opcode.deviceTransferType] at h; cases h

/-! ### Receiving -/

/-- What the host sends arrives in full. -/
theorem usbRecv_full : ∀ {packets : List (List UInt8)} {h m : ℕ}, Sends packets h → m % 64 = 0 → m ≤ h →
    ∃ data rest, usbRecv packets m = some (data, m, rest) ∧ Sends rest (h - m)
  | packets, h, 0, hs, _, _ => ⟨[], packets, by rw [usbRecv], hs⟩
  | [], h, m + 1, hs, _, hle => by
    rw [Sends] at hs
    omega
  | packet :: packets, h, m + 1, hs, hmod, hle => by
    obtain ⟨hne, hlen, hs⟩ := hs
    have h64 : packet.length = 64 := by omega
    rw [h64] at hs
    obtain ⟨data, rest, hrecv, hrest⟩ := usbRecv_full (m := m + 1 - 64) hs (by omega) (by omega)
    rw [usbRecv, if_neg hne, h64, hrecv]
    refine ⟨packet ++ data, rest, ?_, ?_⟩
    · show some (packet ++ data, min 64 (m + 1) + (m + 1 - 64), rest) = _
      rw [show min 64 (m + 1) + (m + 1 - 64) = m + 1 by omega]
    · rw [show h - (m + 1) = h - 64 - (m + 1 - 64) by omega]
      exact hrest

/-- For more than that the device waits. -/
theorem usbRecv_none : ∀ {packets : List (List UInt8)} {h m : ℕ}, Sends packets h → h < m →
    usbRecv packets m = none
  | [], _, m + 1, _, _ => by rw [usbRecv]
  | packet :: packets, h, m + 1, hs, hlt => by
    obtain ⟨hne, hlen, hs⟩ := hs
    rw [usbRecv, if_neg hne, usbRecv_none hs (by omega), Option.map_none]

/-! ### The data phase -/

theorem readLoop_spec (card : Card) (sectorOffset : UInt32) : ∀ (n i : ℕ) (twoSectors : Buffer),
    sent (readLoop card sectorOffset n i twoSectors) = n * 512 ∧
      received (readLoop card sectorOffset n i twoSectors) = 0 ∧
      ∀ t ∈ readLoop card sectorOffset n i twoSectors, t.IsData ∧ t.Exists
  | 0, _, _ => ⟨rfl, rfl, fun _ h => absurd h List.not_mem_nil⟩
  | n + 1, i, twoSectors => by
    rw [readLoop]
    obtain ⟨hsent, hreceived, hdata⟩ := readLoop_spec card sectorOffset n (i + 1)
      (twoSectors.copy (512 * (i % 2)) ((Card_ReadM card (sectorOffset + UInt32.ofNat i) 1).1.flatMap
        Vector.toList))
    refine ⟨?_, ?_, fun t ht => ?_⟩
    · show 0 + (512 + sent _) = _
      rw [hsent]
      omega
    · show 0 + (0 + received _) = _
      rw [hreceived]
    · rcases List.mem_cons.mp ht with rfl | ht
      · exact ⟨trivial, trivial⟩
      · rcases List.mem_cons.mp ht with rfl | ht
        · exact ⟨trivial, by rw [Transfer.Exists, Vector.length_toList]⟩
        · exact hdata t ht

/-- What is received in full is all that WRITE(10) moves. -/
structure Wrote (n : ℕ) (ts : List Transfer) : Prop where
  sent : sent ts = 0
  received : received ts = n * 512
  isData : ∀ t ∈ ts, t.IsData ∧ t.Exists

theorem writeStep_full {n h : ℕ} (sector : UInt32) (twoSectors : Buffer) (card : Card)
    (hs : Sends packets h) (hle : n * 512 ≤ h) :
    ∃ ts twoSectors' rest card',
      writeStep n sector twoSectors packets card = some (ts, twoSectors', rest, card') ∧
        Sends rest (h - n * 512) ∧ Wrote n ts := by
  obtain ⟨data, rest, hrecv, hrest⟩ := usbRecv_full hs (show n * 512 % 64 = 0 by omega) hle
  rw [writeStep, hrecv]
  refine ⟨_, _, _, _, rfl, hrest, rfl, by rw [received]; simp, fun t ht => ?_⟩
  rcases List.mem_cons.mp ht with rfl | ht
  · exact ⟨trivial, trivial⟩
  · rw [List.mem_singleton.mp ht]
    exact ⟨trivial, trivial⟩

theorem writeStep_none {n h : ℕ} {card : Card} {sector : UInt32} (hs : Sends packets h) (hlt : h < n * 512) :
    writeStep n sector twoSectors packets card = none := by
  rw [writeStep, usbRecv_none hs hlt, Option.map_none]

theorem Wrote.append {n m : ℕ} {ts ts' : List Transfer} (h : Wrote n ts) (h' : Wrote m ts') :
    Wrote (n + m) (ts ++ ts') where
  sent := by rw [sent_append, h.sent, h'.sent]
  received := by
    rw [received_append, h.received, h'.received]
    omega
  isData t ht := by
    rcases List.mem_append.mp ht with ht | ht
    · exact h.isData t ht
    · exact h'.isData t ht

theorem writeLoop_full (sectorOffset : UInt32) (n : ℕ) : ∀ (i : ℕ) (twoSectors : Buffer)
    (packets : List (List UInt8)) (card : Card) (h : ℕ), Sends packets h → n * 512 ≤ h →
    ∃ ts card', writeLoop sectorOffset n i twoSectors packets card = some (ts, card') ∧ Wrote n ts := by
  induction n using Nat.twoStepInduction with
  | zero =>
    intro i twoSectors packets card h hs hle
    rw [writeLoop]
    exact ⟨[], card, rfl, rfl, rfl, fun _ h => absurd h List.not_mem_nil⟩
  | one =>
    intro i twoSectors packets card h hs hle
    obtain ⟨ts, two, rest, card', hstep, hrest, hw⟩ :=
      writeStep_full (sectorOffset + UInt32.ofNat i) twoSectors card hs hle
    rw [writeLoop, hstep]
    exact ⟨ts, card', rfl, hw⟩
  | more n ih _ =>
    intro i twoSectors packets card h hs hle
    rw [Nat.add_mul] at hle
    obtain ⟨ts, two, rest, card', hstep, hrest, hw⟩ :=
      writeStep_full (n := 2) (sectorOffset + UInt32.ofNat i) twoSectors card hs (by omega)
    obtain ⟨ts', card'', hloop, hw'⟩ := ih (i + 2) two rest card' _ hrest (Nat.le_sub_of_add_le hle)
    rw [writeLoop, hstep, Option.bind_some]
    simp only
    rw [hloop, Nat.add_comm n 2]
    exact ⟨ts ++ ts', card'', rfl, hw.append hw'⟩

theorem writeLoop_none (sectorOffset : UInt32) (n : ℕ) : ∀ (i : ℕ) (twoSectors : Buffer)
    (packets : List (List UInt8)) (card : Card) (h : ℕ), Sends packets h → h < n * 512 →
    writeLoop sectorOffset n i twoSectors packets card = none := by
  induction n using Nat.twoStepInduction with
  | zero =>
    intro i twoSectors packets card h hs hlt
    omega
  | one =>
    intro i twoSectors packets card h hs hlt
    rw [writeLoop, writeStep_none hs hlt, Option.map_none]
  | more n ih _ =>
    intro i twoSectors packets card h hs hlt
    rw [Nat.add_mul] at hlt
    rw [writeLoop]
    by_cases hle : 2 * 512 ≤ h
    · obtain ⟨ts, two, rest, card', hstep, hrest, hw⟩ :=
        writeStep_full (sectorOffset + UInt32.ofNat i) twoSectors card hs hle
      rw [hstep, Option.bind_some]
      simp only
      rw [ih (i + 2) two rest card' _ hrest (by omega), Option.map_none]
    · rw [writeStep_none hs (Nat.lt_of_not_le hle), Option.bind_none]

/-! ### Commands -/

/-- What a command that receives nothing does. -/
structure Answer (cbw : CommandBlockWrapper) (status : CSWStatus) (ts : List Transfer) : Prop where
  sent : sent ts = cbw.deviceLength
  received : received ts = 0
  isData : ∀ t ∈ ts, t.IsData
  exists_ : (∀ t ∈ ts, t.Exists) ↔ cbw.Fits
  unsupported : status = .unsupported ↔ cbw.opcode = .unknown

/-- One response, from an object that is long enough where its length says so. -/
theorem answer_dataIn {object : List UInt8} {status : CSWStatus}
    (hfits : cbw.deviceLength ≤ object.length ↔ cbw.Fits)
    (hstatus : status = .unsupported ↔ cbw.opcode = .unknown) :
    Answer cbw status [.dataIn object cbw.deviceLength] where
  sent := Nat.add_zero _
  received := rfl
  isData t ht := by
    rw [List.mem_singleton.mp ht]
    trivial
  exists_ := by
    rw [← hfits, List.forall_mem_singleton]
    rfl
  unsupported := hstatus

theorem answer_nil {status : CSWStatus} (hzero : cbw.deviceLength = 0)
    (hstatus : status = .unsupported ↔ cbw.opcode = .unknown) : Answer cbw status [] where
  sent := hzero.symm
  received := rfl
  isData t ht := absurd ht List.not_mem_nil
  exists_ := by
    rw [CommandBlockWrapper.Fits, hzero]
    exact ⟨fun _ => ⟨fun _ _ => Nat.zero_le _, fun _ => Nat.zero_le _⟩,
      fun _ _ ht => absurd ht List.not_mem_nil⟩
  unsupported := hstatus

theorem fits_of_ne (hi : cbw.opcode ≠ .inquiry) (hr : cbw.opcode ≠ .requestSense) : cbw.Fits :=
  ⟨fun h => absurd h hi, fun h => absurd h hr⟩

/-- All commands but WRITE(10) answer. -/
theorem processCommand_answer (hw : cbw.opcode ≠ .write10) :
    ∃ status ts device', processCommand twoSectors packets cbw device = some (status, ts, device') ∧
      Answer cbw status ts := by
  have hdev := deviceLength_lt cbw
  rw [processCommand]
  cases hop : cbw.opcode with
  | write10 => exact absurd hop hw
  | testUnitReady =>
    exact ⟨_, _, _, rfl, answer_nil (deviceLength_eq_zero (by rw [hop]; rfl)) (by rw [hop]; decide)⟩
  | startStopUnit =>
    exact ⟨_, _, _, rfl, answer_nil (deviceLength_eq_zero (by rw [hop]; rfl)) (by rw [hop]; decide)⟩
  | preventAllowRemoval =>
    exact ⟨_, _, _, rfl, answer_nil (deviceLength_eq_zero (by rw [hop]; rfl)) (by rw [hop]; decide)⟩
  | unknown =>
    exact ⟨_, _, _, rfl, answer_nil (deviceLength_eq_zero (by rw [hop]; rfl)) (by rw [hop]; decide)⟩
  | readFormatCapacity =>
    refine ⟨_, _, _, rfl, answer_dataIn ⟨fun _ => fits_of_ne ?_ ?_, fun _ => ?_⟩ (by rw [hop]; decide)⟩
    · rw [hop]
      decide
    · rw [hop]
      decide
    · rw [CommandBlockWrapper.deviceLength, hop]
      exact le_refl 12
  | readCapacity =>
    refine ⟨_, _, _, rfl, answer_dataIn ⟨fun _ => fits_of_ne ?_ ?_, fun _ => ?_⟩ (by rw [hop]; decide)⟩
    · rw [hop]
      decide
    · rw [hop]
      decide
    · rw [CommandBlockWrapper.deviceLength, hop]
      exact le_refl 8
  | modeSense6 =>
    refine ⟨_, _, _, rfl, answer_dataIn ⟨fun _ => fits_of_ne ?_ ?_, fun _ => ?_⟩ (by rw [hop]; decide)⟩
    · rw [hop]
      decide
    · rw [hop]
      decide
    · rw [CommandBlockWrapper.deviceLength, hop]
      show (if _ then 4 else _) ≤ 4
      split
      · omega
      · omega
  | modeSense10 =>
    refine ⟨_, _, _, rfl, answer_dataIn ⟨fun _ => fits_of_ne ?_ ?_, fun _ => ?_⟩ (by rw [hop]; decide)⟩
    · rw [hop]
      decide
    · rw [hop]
      decide
    · rw [CommandBlockWrapper.deviceLength, hop]
      show (if _ then 4 else _) ≤ 4
      split
      · omega
      · omega
  | requestSense =>
    refine ⟨_, _, _, rfl, answer_dataIn ⟨fun h => ⟨fun hi => ?_, fun _ => h⟩, fun h => h.2 hop⟩
      (by rw [hop]; decide)⟩
    rw [hop] at hi
    cases hi
  | inquiry =>
    simp only
    by_cases hevpd : cbw.evpd = true
    · have hfits : cbw.Fits := ⟨fun _ hf => absurd (hf.symm.trans hevpd) Bool.false_ne_true, fun hr => by
        rw [hop] at hr
        cases hr⟩
      rw [if_pos hevpd]
      by_cases hpage : cbw.pageCode = 0x80
      · rw [if_pos hpage]
        refine ⟨_, _, _, rfl, answer_dataIn ⟨fun _ => hfits, fun _ => ?_⟩ (by rw [hop]; decide)⟩
        rw [CommandBlockWrapper.deviceLength, hop]
        simp only
        rw [if_pos hevpd, if_pos hpage]
        exact le_refl 12
      · rw [if_neg hpage]
        refine ⟨_, _, _, rfl, answer_nil ?_ (by rw [hop]; decide)⟩
        rw [CommandBlockWrapper.deviceLength, hop]
        simp only
        rw [if_pos hevpd, if_neg hpage]
    · rw [if_neg hevpd]
      refine ⟨_, _, _, rfl, answer_dataIn ⟨fun h => ⟨fun _ _ => h, fun hr => ?_⟩, fun h => ?_⟩
        (by rw [hop]; decide)⟩
      · rw [hop] at hr
        cases hr
      · exact h.1 hop (Bool.eq_false_iff.mpr hevpd)
  | read10 =>
    obtain ⟨hsent, hreceived, hdata⟩ :=
      readLoop_spec device.card cbw.lba (cbw.deviceLength / 512) 0 twoSectors
    refine ⟨_, _, _, rfl, ?_, hreceived, fun t ht => (hdata t ht).1, ⟨fun _ => fits_of_ne ?_ ?_,
      fun _ t ht => (hdata t ht).2⟩, by rw [hop]; decide⟩
    · rw [hsent, CommandBlockWrapper.deviceLength, hop]
      exact Nat.div_mul_cancel (Nat.dvd_mul_left 512 _)
    · rw [hop]
      decide
    · rw [hop]
      decide

/-! ### The status -/

theorem hostLength_eq_zero (h : cbw.hostTransferType = .noTransfer) : cbw.hostLength = 0 := by
  rw [CommandBlockWrapper.hostTransferType] at h
  split at h
  · next hz => exact hz
  · split at h
    · cases h
    · cases h

theorem residue_toNat (h : cbw.deviceLength ≤ cbw.hostLength) :
    cbw.residue.toNat + cbw.deviceLength = cbw.hostLength := by
  have hd := deviceLength_lt cbw
  have hof : (UInt32.ofNat cbw.deviceLength).toNat = cbw.deviceLength := UInt32.toNat_ofNat_of_lt' hd
  have hle : UInt32.ofNat cbw.deviceLength ≤ cbw.dCBWDataTransferLength := by
    rw [UInt32.le_iff_toNat_le, hof]
    exact h
  rw [CommandBlockWrapper.residue, UInt32.toNat_sub_of_le _ _ hle, hof]
  exact Nat.sub_add_cancel h

/-- The case decides about a phase error, and everywhere else the residue is what was not moved. -/
theorem caseStatus_spec (status : CSWStatus) :
    (cbw.transferMode.IsPhaseError → (caseStatus status cbw).1 = .phaseError) ∧
      (¬ cbw.transferMode.IsPhaseError → (caseStatus status cbw).1 = status ∧
        (caseStatus status cbw).2.toNat + cbw.deviceLength = cbw.hostLength) := by
  rw [caseStatus, CommandBlockWrapper.transferMode]
  by_cases hu : cbw.opcode = .unknown
  · have hzero : cbw.deviceLength = 0 := deviceLength_eq_zero (by rw [hu]; rfl)
    rw [if_pos hu]
    exact ⟨fun h => absurd h id, fun _ => ⟨rfl, residue_toNat (by rw [hzero]; exact Nat.zero_le _)⟩⟩
  rw [if_neg hu]
  cases hh : cbw.hostTransferType with
  | noTransfer =>
    have hhost := hostLength_eq_zero hh
    cases hd : cbw.opcode.deviceTransferType with
    | noTransfer =>
      have hzero := deviceLength_eq_zero hd
      exact ⟨fun h => absurd h id, fun _ => ⟨rfl, by rw [hzero, hhost]; rfl⟩⟩
    | deviceToHost => exact ⟨fun _ => rfl, fun h => absurd trivial h⟩
    | hostToDevice => exact ⟨fun _ => rfl, fun h => absurd trivial h⟩
  | deviceToHost =>
    cases hd : cbw.opcode.deviceTransferType with
    | noTransfer =>
      have hzero := deviceLength_eq_zero hd
      exact ⟨fun h => absurd h id, fun _ => ⟨rfl, residue_toNat (by rw [hzero]; exact Nat.zero_le _)⟩⟩
    | deviceToHost =>
      simp only
      by_cases hgt : cbw.hostLength > cbw.deviceLength
      · rw [if_pos hgt]
        exact ⟨fun h => absurd h id, fun _ => ⟨rfl, residue_toNat (le_of_lt hgt)⟩⟩
      · rw [if_neg hgt]
        by_cases heq : cbw.hostLength = cbw.deviceLength
        · rw [if_pos heq]
          exact ⟨fun h => absurd h id, fun _ => ⟨rfl, by rw [heq]; exact Nat.zero_add _⟩⟩
        · rw [if_neg heq]
          exact ⟨fun _ => rfl, fun h => absurd trivial h⟩
    | hostToDevice => exact ⟨fun _ => rfl, fun h => absurd trivial h⟩
  | hostToDevice =>
    cases hd : cbw.opcode.deviceTransferType with
    | noTransfer =>
      have hzero := deviceLength_eq_zero hd
      exact ⟨fun h => absurd h id, fun _ => ⟨rfl, residue_toNat (by rw [hzero]; exact Nat.zero_le _)⟩⟩
    | deviceToHost => exact ⟨fun _ => rfl, fun h => absurd trivial h⟩
    | hostToDevice =>
      simp only
      by_cases hgt : cbw.hostLength > cbw.deviceLength
      · rw [if_pos hgt]
        exact ⟨fun h => absurd h id, fun _ => ⟨rfl, residue_toNat (le_of_lt hgt)⟩⟩
      · rw [if_neg hgt]
        by_cases heq : cbw.hostLength = cbw.deviceLength
        · rw [if_pos heq]
          exact ⟨fun h => absurd h id, fun _ => ⟨rfl, by rw [heq]; exact Nat.zero_add _⟩⟩
        · rw [if_neg heq]
          exact ⟨fun _ => rfl, fun h => absurd trivial h⟩

/-- An unknown command is never in a case with a phase error. -/
theorem not_isPhaseError_of_unknown (h : cbw.opcode = .unknown) : ¬ cbw.transferMode.IsPhaseError := by
  rw [CommandBlockWrapper.transferMode, if_pos h]
  exact id

/-- The status that ends a command. -/
theorem processStatus_spec {status : CSWStatus} (h : status = .unsupported ↔ cbw.opcode = .unknown)
    (device : Device) : ∃ residue bCSWStatus,
      (processStatus status cbw device).1 = .csw cbw.dCBWTag residue bCSWStatus ∧
        (cbw.transferMode.IsPhaseError → bCSWStatus = .phaseError) ∧
        (¬ cbw.transferMode.IsPhaseError → residue.toNat + cbw.deviceLength = cbw.hostLength) := by
  obtain ⟨hphase, hresidue⟩ := @caseStatus_spec cbw status
  refine ⟨_, _, rfl, fun hp => ?_, fun hp => ?_⟩
  · rw [if_neg fun hu => not_isPhaseError_of_unknown (h.mp hu) hp]
    exact hphase hp
  · by_cases hu : status = .unsupported
    · have hzero : cbw.deviceLength = 0 := deviceLength_eq_zero (by rw [h.mp hu]; rfl)
      have hadd : (caseStatus status cbw).2 + UInt32.ofNat cbw.deviceLength = (caseStatus status cbw).2 := by
        rw [hzero]
        exact UInt32.add_zero _
      rw [if_pos hu]
      show ((caseStatus status cbw).2 + UInt32.ofNat cbw.deviceLength).toNat + cbw.deviceLength = _
      rw [hadd]
      exact (hresidue hp).2
    · rw [if_neg hu]
      exact (hresidue hp).2

/-! ### The claim of the transport -/

theorem conforms_append {data : List Transfer} {residue : UInt32} {status : CSWStatus} {device : Device} :
    Conforms cbw (some (data ++ [.csw cbw.dCBWTag residue status], device)) ↔
      Served cbw data residue status := by
  constructor
  · rintro ⟨data', residue', status', heq, hserved⟩
    obtain ⟨hdata, hcsw⟩ := List.append_inj' heq rfl
    rw [List.singleton_inj, Transfer.csw.injEq] at hcsw
    obtain ⟨-, rfl, rfl⟩ := hcsw
    rw [hdata]
    exact hserved
  · exact fun h => ⟨data, residue, status, rfl, h⟩

theorem deviceTransferType_in (hw : cbw.opcode ≠ .write10) (hd : cbw.deviceLength ≠ 0) :
    cbw.opcode.deviceTransferType = .deviceToHost := by
  cases hop : cbw.opcode with
  | write10 => exact absurd hop hw
  | testUnitReady => exact absurd (deviceLength_eq_zero (by rw [hop]; rfl)) hd
  | startStopUnit => exact absurd (deviceLength_eq_zero (by rw [hop]; rfl)) hd
  | preventAllowRemoval => exact absurd (deviceLength_eq_zero (by rw [hop]; rfl)) hd
  | unknown => exact absurd (deviceLength_eq_zero (by rw [hop]; rfl)) hd
  | _ => rfl

/-- A command that receives nothing. -/
theorem Answer.conforms_written {status : CSWStatus} {ts : List Transfer} (h : Answer cbw status ts)
    (hw : cbw.opcode ≠ .write10) (device device' : Device) :
    Conforms cbw (some (ts ++ [(processStatus status cbw device).1], device')) ↔ cbw.Agrees ∧ cbw.Fits := by
  obtain ⟨residue, bCSWStatus, hcsw, hphase, hresidue⟩ := processStatus_spec h.unsupported device
  rw [hcsw, conforms_append]
  constructor
  · intro hs
    refine ⟨?_, h.exists_.mp hs.exists_⟩
    by_cases hd : cbw.deviceLength = 0
    · exact Or.inl hd
    · have hin := deviceTransferType_in hw hd
      have hle := hs.sent_le
      have hhost := hs.sent_in (by rw [h.sent]; omega)
      rw [h.sent] at hle
      exact Or.inr ⟨hhost.trans hin.symm, hle⟩
  · rintro ⟨hagrees, hfits⟩
    exact
      { isData := h.isData
        exists_ := h.exists_.mpr hfits
        sent_le := by
          rw [h.sent]
          rcases hagrees with hd | hd
          · omega
          · exact hd.2
        sent_in := fun hpos => by
          rw [h.sent] at hpos
          rcases hagrees with hd | hd
          · omega
          · exact hd.1.trans (deviceTransferType_in hw (by omega))
        received_out := fun hpos => by
          rw [h.received] at hpos
          omega
        phaseError := hphase
        residue_eq := fun hp => by
          rw [h.sent, h.received]
          exact hresidue hp }

/-- WRITE(10), which receives all that it intends to. -/
theorem Wrote.served {n : ℕ} {ts : List Transfer} (h : Wrote n ts) (hw : cbw.opcode = .write10)
    (hn : n * 512 = cbw.deviceLength) (hle : cbw.deviceLength ≤ cbw.outLength) (device device' : Device) :
    Conforms cbw (some (ts ++ [(processStatus .commandPassed cbw device).1], device')) := by
  have hstatus : CSWStatus.commandPassed = .unsupported ↔ cbw.opcode = .unknown := by
    rw [hw]
    decide
  obtain ⟨residue, bCSWStatus, hcsw, hphase, hresidue⟩ := processStatus_spec hstatus device
  rw [hcsw, conforms_append]
  exact
    { isData := fun t ht => (h.isData t ht).1
      exists_ := fun t ht => (h.isData t ht).2
      sent_le := by
        rw [h.sent]
        exact Nat.zero_le _
      sent_in := fun hpos => by
        rw [h.sent] at hpos
        omega
      received_out := fun hpos => by
        rw [h.received, hn] at hpos
        rw [CommandBlockWrapper.outLength] at hle
        split at hle
        · next hout => exact hout
        · omega
      phaseError := hphase
      residue_eq := fun hp => by
        rw [h.sent, h.received, hn, Nat.zero_add]
        exact hresidue hp }

/-- For every command block, and a host that sends what it has announced: data and status are as
    Bulk-Only transport wants them exactly if the device intends to move nothing or what the host
    expects, and does not send more than it has. -/
theorem conforms_iff (device : Device) (twoSectors : Buffer) (hsig : cbw.dCBWSignature = 0x43425355)
    (hs : Sends packets cbw.outLength) :
    Conforms cbw (mscPacketRecv twoSectors packets cbw 31 device) ↔ cbw.Agrees ∧ cbw.Fits := by
  rw [mscPacketRecv, if_neg (by rw [hsig]; decide)]
  by_cases hw : cbw.opcode = .write10
  · have hn : cbw.deviceLength / 512 * 512 = cbw.deviceLength := by
      rw [CommandBlockWrapper.deviceLength, hw]
      exact Nat.div_mul_cancel (Nat.dvd_mul_left 512 _)
    have hfits : cbw.Fits := fits_of_ne (by rw [hw]; decide) (by rw [hw]; decide)
    rw [processCommand, hw]
    simp only
    by_cases hle : cbw.deviceLength ≤ cbw.outLength
    · obtain ⟨ts, card', hloop, hwrote⟩ := writeLoop_full cbw.lba (cbw.deviceLength / 512) 0 twoSectors
        packets device.card cbw.outLength hs (by rw [hn]; exact hle)
      rw [hloop]
      refine ⟨fun _ => ⟨?_, hfits⟩, fun _ => hwrote.served hw hn hle _ _⟩
      rw [CommandBlockWrapper.outLength] at hle
      split at hle
      · next hout => exact Or.inr ⟨by rw [hout, hw]; rfl, hle⟩
      · exact Or.inl (by omega)
    · rw [writeLoop_none cbw.lba (cbw.deviceLength / 512) 0 twoSectors packets device.card cbw.outLength hs
        (by rw [hn]; omega)]
      refine ⟨fun h => absurd h id, fun ⟨hagrees, _⟩ => ?_⟩
      rcases hagrees with hd | ⟨hout, hd⟩
      · omega
      · rw [hw] at hout
        rw [CommandBlockWrapper.outLength, if_pos (show cbw.hostTransferType = .hostToDevice from hout)] at hle
        exact absurd hd hle
  · obtain ⟨status, ts, device', hrun, hanswer⟩ :
        ∃ status ts device', processCommand twoSectors packets cbw device = some (status, ts, device') ∧
          Answer cbw status ts := processCommand_answer hw
    rw [hrun]
    exact hanswer.conforms_written hw device' _

/-- A card of a thousand blocks, and no sense data -/
def idleDevice : Device where
  card := { sdhc := true, capacity := 512000, block := fun _ => Vector.replicate 512 0, fails := fun _ => false }
  senseKey := 0
  additionalSenseCode := 0
  preventMediaRemoval := false

/-- `INQUIRY` with an allocation length, from a host that expects as much -/
def inquiry (allocationLength : UInt8) : CommandBlockWrapper where
  dCBWSignature := 0x43425355
  dCBWTag := 1
  dCBWDataTransferLength := allocationLength.toUInt32
  direction := true
  cbwcb := #v[0x12, 0, 0, 0, allocationLength, 0, 0, 0, 0, 0, 0, 0, 0, 0, 0, 0]

theorem inquiry_conforms : Conforms (inquiry 36) (mscPacketRecv (fun _ => 0) [] (inquiry 36) 31 idleDevice) ↔
    (inquiry 36).Agrees ∧ (inquiry 36).Fits :=
  conforms_iff idleDevice (fun _ => 0) rfl rfl

/-- With more than 36 bytes to send, what lies behind the inquiry data goes to the host. -/
theorem inquiry_oversends :
    Sends [] (inquiry 255).outLength ∧
      ¬ Conforms (inquiry 255) (mscPacketRecv (fun _ => 0) [] (inquiry 255) 31 idleDevice) := by
  refine ⟨rfl, ?_⟩
  rintro ⟨data, residue, status, heq, hserved⟩
  obtain ⟨hdata, -⟩ := List.append_inj' (show [Transfer.dataIn inquiryData 255] ++ [_] = _ from heq) rfl
  have hexists := hserved.exists_ (.dataIn inquiryData 255) (by rw [← hdata]; exact List.mem_singleton_self _)
  exact absurd (show 255 ≤ 36 from hexists) (by decide)

end Msc
