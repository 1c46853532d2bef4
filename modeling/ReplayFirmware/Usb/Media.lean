import ReplayFirmware.Usb.Transport

/-! What the status of a READ(10) or WRITE(10) says about its blocks.

    The loops ignore what the card and the endpoint return, so the status is the same however the
    transfers end. -/

namespace Msc
open FileIO

variable {cbw : CommandBlockWrapper} {device : Device} {packets : List (List UInt8)} {card : Card}

/-- The transfer succeeded. -/
def Transfer.Ok : Transfer → Prop
  | .dataOut length read => read = length
  | .cardRead _ ok => ok = true
  | .cardWrite _ _ ok => ok = true
  | _ => True

/-- What is written has been received in full just before. -/
def WritesReceived : List Transfer → Prop
  | .dataOut _ read :: .cardWrite _ numSectors _ :: ts => numSectors * 512 ≤ read ∧ WritesReceived ts
  | .cardWrite _ _ _ :: _ => False
  | _ :: ts => WritesReceived ts
  | [] => True

/-- The status passes exactly if every transfer succeeded, otherwise it fails with sense data, and no
    block is written that was not received. -/
def Reports (cbw : CommandBlockWrapper) : Option (List Transfer × Device) → Prop
  | none => False
  | some (ts, device) => ∃ data residue status,
    ts = data ++ [.csw cbw.dCBWTag residue status] ∧
      (status = .commandPassed ↔ ∀ t ∈ data, t.Ok) ∧
      (¬ (∀ t ∈ data, t.Ok) → status = .commandFailed ∧ device.senseKey ≠ 0) ∧ WritesReceived data

/-- So many blocks come in from the host, two at a time. -/
def Received : ℕ → List (List UInt8) → Prop
  | 0, _ => True
  | 1, packets => ∃ data rest, usbRecv packets (1 * 512) = some (data, 1 * 512, rest)
  | n + 2, packets => ∃ data rest, usbRecv packets (2 * 512) = some (data, 2 * 512, rest) ∧ Received n rest

/-- The card reads so many blocks. -/
def Readable (card : Card) (sectorOffset : UInt32) (n i : ℕ) : Prop :=
  ∀ k < n, card.fails (card.address (sectorOffset + UInt32.ofNat (i + k))) = false

/-- The card writes so many blocks, two at a time. -/
def Writable (card : Card) (sectorOffset : UInt32) (n i : ℕ) : Prop :=
  ∀ k < n, card.fails (card.address (sectorOffset + UInt32.ofNat (i + k / 2 * 2)) + k % 2) = false

/-- Every transfer of the command succeeds. -/
def Succeeds (cbw : CommandBlockWrapper) (card : Card) (packets : List (List UInt8)) : Prop :=
  match cbw.opcode with
  | .read10 => Readable card cbw.lba cbw.transferLength 0
  | .write10 => Received cbw.transferLength packets ∧ Writable card cbw.lba cbw.transferLength 0
  | _ => True

/-! ### Reading -/

theorem readable_succ {sectorOffset : UInt32} {n i : ℕ} : Readable card sectorOffset (n + 1) i ↔
    card.fails (card.address (sectorOffset + UInt32.ofNat i)) = false ∧
      Readable card sectorOffset n (i + 1) := by
  constructor
  · intro h
    refine ⟨h 0 (Nat.succ_pos n), fun k hk => ?_⟩
    rw [Nat.add_right_comm]
    exact h (k + 1) (Nat.succ_lt_succ hk)
  · rintro ⟨h0, h⟩ k hk
    cases k with
    | zero => exact h0
    | succ k =>
      have := h k (Nat.lt_of_succ_lt_succ hk)
      rw [Nat.add_right_comm] at this
      exact this

theorem card_readM_ok {sector : UInt32} :
    (Card_ReadM card sector 1).2 = true ↔ card.fails (card.address sector) = false := by
  rw [Card_ReadM, readBlocks]
  cases card.fails (card.address sector) with
  | false => exact ⟨fun _ => rfl, fun _ => rfl⟩
  | true => exact ⟨fun h => absurd h Bool.false_ne_true, fun h => absurd h.symm Bool.false_ne_true⟩

theorem readLoop_ok (card : Card) (sectorOffset : UInt32) : ∀ (n i : ℕ) (twoSectors : Buffer),
    ((∀ t ∈ readLoop card sectorOffset n i twoSectors, t.Ok) ↔ Readable card sectorOffset n i) ∧
      WritesReceived (readLoop card sectorOffset n i twoSectors)
  | 0, _, _ =>
    ⟨⟨fun _ k hk => absurd hk (Nat.not_lt_zero k), fun _ t ht => absurd ht List.not_mem_nil⟩, trivial⟩
  | n + 1, i, twoSectors => by
    rw [readLoop]
    obtain ⟨hok, hw⟩ := readLoop_ok card sectorOffset n (i + 1)
      (twoSectors.copy (512 * (i % 2)) ((Card_ReadM card (sectorOffset + UInt32.ofNat i) 1).1.flatMap
        Vector.toList))
    refine ⟨?_, hw⟩
    rw [List.forall_mem_cons, List.forall_mem_cons, hok, readable_succ]
    exact ⟨fun h => ⟨card_readM_ok.mp h.1, h.2.2⟩, fun h => ⟨card_readM_ok.mpr h.1, trivial, h.2⟩⟩

/-! ### Writing -/

theorem writeBlocks_ok : ∀ (bs : List Block) (a : ℕ) (card : Card),
    (writeBlocks bs a card).2 = true ↔ ∀ k < bs.length, card.fails (a + k) = false
  | [], _, _ => ⟨fun _ k hk => absurd hk (Nat.not_lt_zero k), fun _ => rfl⟩
  | b :: bs, a, card => by
    rw [writeBlocks]
    by_cases hf : card.fails a = true
    · rw [if_pos hf]
      constructor
      · intro h
        cases h
      · intro h
        have h0 : card.fails a = false := h 0 (Nat.succ_pos _)
        rw [h0] at hf
        cases hf
    · rw [if_neg hf, writeBlocks_ok bs (a + 1)]
      constructor
      · intro h k hk
        cases k with
        | zero => exact Bool.eq_false_iff.mpr hf
        | succ k =>
          rw [← Nat.add_assoc, Nat.add_right_comm]
          exact h k (Nat.lt_of_succ_lt_succ hk)
      · intro h k hk
        rw [Nat.add_right_comm, Nat.add_assoc]
        exact h (k + 1) (Nat.succ_lt_succ hk)

/-- The blocks of one round. -/
def StepWritable (card : Card) (sector : UInt32) (n : ℕ) : Prop :=
  ∀ k < n, card.fails (card.address sector + k) = false

theorem writeStep_ok {n : ℕ} {sector : UInt32} {twoSectors twoSectors' : Buffer} {ts : List Transfer}
    {rest : List (List UInt8)} {card' : Card}
    (h : writeStep n sector twoSectors packets card = some (ts, twoSectors', rest, card')) :
    ∃ data read ok, usbRecv packets (n * 512) = some (data, read, rest) ∧
      ts = [.dataOut (n * 512) read, .cardWrite sector n ok] ∧ (ok = true ↔ StepWritable card sector n) ∧
      card'.fails = card.fails ∧ card'.sdhc = card.sdhc := by
  rw [writeStep, Option.map_eq_some_iff] at h
  obtain ⟨⟨data, read, rest'⟩, hrecv, heq⟩ := h
  simp only [Prod.mk.injEq] at heq
  obtain ⟨hts, -, rfl, rfl⟩ := heq
  have hframe := writeBlocks_frame ((List.range n).map (twoSectors.copy 0 data).sector)
    (card.address sector) card
  refine ⟨data, read, _, hrecv, hts.symm, ?_, hframe.2.2.1, hframe.1⟩
  rw [Card_WriteM, writeBlocks_ok, List.length_map, List.length_range]
  rfl

theorem writable_one {sectorOffset : UInt32} {i : ℕ} :
    Writable card sectorOffset 1 i ↔ StepWritable card (sectorOffset + UInt32.ofNat i) 1 := by
  constructor
  · intro h k hk
    obtain rfl : k = 0 := by omega
    exact h 0 Nat.zero_lt_one
  · intro h k hk
    obtain rfl : k = 0 := by omega
    exact h 0 Nat.zero_lt_one

theorem writable_more {sectorOffset : UInt32} {n i : ℕ} : Writable card sectorOffset (n + 2) i ↔
    StepWritable card (sectorOffset + UInt32.ofNat i) 2 ∧ Writable card sectorOffset n (i + 2) := by
  constructor
  · intro h
    refine ⟨fun k hk => ?_, fun k hk => ?_⟩
    · have hk' := h k (by omega)
      rw [show i + k / 2 * 2 = i by omega, show k % 2 = k by omega] at hk'
      exact hk'
    · have hk' := h (k + 2) (by omega)
      rw [show i + (k + 2) / 2 * 2 = i + 2 + k / 2 * 2 by omega, Nat.add_mod_right] at hk'
      exact hk'
  · rintro ⟨h2, h⟩ k hk
    by_cases hlt : k < 2
    · rw [show i + k / 2 * 2 = i by omega, show k % 2 = k by omega]
      exact h2 k hlt
    · have hk' := h (k - 2) (by omega)
      rw [show i + 2 + (k - 2) / 2 * 2 = i + k / 2 * 2 by omega, show (k - 2) % 2 = k % 2 by omega] at hk'
      exact hk'

/-- What a write leaves as it is decides about the next one. -/
theorem writable_congr {card' : Card} {sectorOffset : UInt32} {n i : ℕ} (hf : card'.fails = card.fails)
    (hs : card'.sdhc = card.sdhc) : Writable card' sectorOffset n i ↔ Writable card sectorOffset n i := by
  rw [Writable, Writable, hf]
  have haddr : card'.address = card.address := by
    funext sector
    rw [Card.address, Card.address, hs]
  rw [haddr]

theorem writeLoop_ok (sectorOffset : UInt32) (n : ℕ) : ∀ (i : ℕ) (twoSectors : Buffer)
    (packets : List (List UInt8)) (card : Card) (ts : List Transfer) (card' : Card),
    writeLoop sectorOffset n i twoSectors packets card = some (ts, card') →
      ((∀ t ∈ ts, t.Ok) ↔ Received n packets ∧ Writable card sectorOffset n i) ∧
        ((∀ t ∈ ts, t.Ok) → WritesReceived ts) := by
  induction n using Nat.twoStepInduction with
  | zero =>
    intro i twoSectors packets card ts card' h
    rw [writeLoop, Option.some.injEq, Prod.mk.injEq] at h
    obtain ⟨rfl, rfl⟩ := h
    exact ⟨⟨fun _ => ⟨trivial, fun k hk => absurd hk (Nat.not_lt_zero k)⟩,
      fun _ t ht => absurd ht List.not_mem_nil⟩, fun _ => trivial⟩
  | one =>
    intro i twoSectors packets card ts card' h
    rw [writeLoop, Option.map_eq_some_iff] at h
    obtain ⟨⟨ts', two, rest, card''⟩, hstep, heq⟩ := h
    simp only [Prod.mk.injEq] at heq
    obtain ⟨rfl, rfl⟩ := heq
    obtain ⟨data, read, ok, hrecv, rfl, hok, -, -⟩ := writeStep_ok hstep
    rw [List.forall_mem_cons, List.forall_mem_singleton, writable_one, ← hok]
    refine ⟨⟨?_, ?_⟩, ?_⟩
    · rintro ⟨hread, hok⟩
      rw [show read = 1 * 512 from hread] at hrecv
      exact ⟨⟨data, rest, hrecv⟩, hok⟩
    · rintro ⟨⟨data', rest', hrecv'⟩, hok⟩
      rw [hrecv, Option.some.injEq, Prod.mk.injEq, Prod.mk.injEq] at hrecv'
      exact ⟨hrecv'.2.1, hok⟩
    · rintro ⟨hread, -⟩
      exact ⟨le_of_eq (show read = 1 * 512 from hread).symm, trivial⟩
  | more n ih _ =>
    intro i twoSectors packets card ts card' h
    rw [writeLoop, Option.bind_eq_some_iff] at h
    obtain ⟨⟨ts₁, two, rest, card₁⟩, hstep, h⟩ := h
    rw [Option.map_eq_some_iff] at h
    obtain ⟨⟨ts₂, card₂⟩, hloop, heq⟩ := h
    simp only [Prod.mk.injEq] at heq
    obtain ⟨rfl, rfl⟩ := heq
    obtain ⟨data, read, ok, hrecv, rfl, hok, hfails, hsdhc⟩ := writeStep_ok hstep
    obtain ⟨hiff, hw⟩ := ih (i + 2) two rest card₁ ts₂ card₂ hloop
    rw [List.cons_append, List.cons_append, List.nil_append, List.forall_mem_cons, List.forall_mem_cons,
      hiff, writable_more, ← hok, writable_congr hfails hsdhc]
    refine ⟨⟨?_, ?_⟩, ?_⟩
    · rintro ⟨hread, hok, hreceived, hwritable⟩
      rw [show read = 2 * 512 from hread] at hrecv
      exact ⟨⟨data, rest, hrecv, hreceived⟩, hok, hwritable⟩
    · rintro ⟨⟨data', rest', hrecv', hreceived⟩, hok, hwritable⟩
      rw [hrecv, Option.some.injEq, Prod.mk.injEq, Prod.mk.injEq] at hrecv'
      obtain ⟨-, hread, rfl⟩ := hrecv'
      exact ⟨hread, hok, hreceived, hwritable⟩
    · rintro ⟨hread, -, hreceived, hwritable⟩
      refine ⟨le_of_eq (show read = 2 * 512 from hread).symm, hw (hiff.mpr ⟨hreceived, ?_⟩)⟩
      rw [writable_congr hfails hsdhc]
      exact hwritable

/-- Where everything comes in, the loop ends. -/
theorem writeLoop_received (sectorOffset : UInt32) (n : ℕ) : ∀ (i : ℕ) (twoSectors : Buffer)
    (packets : List (List UInt8)) (card : Card), Received n packets →
    ∃ r, writeLoop sectorOffset n i twoSectors packets card = some r := by
  induction n using Nat.twoStepInduction with
  | zero => exact fun _ _ _ card _ => ⟨([], card), by rw [writeLoop]⟩
  | one =>
    rintro i twoSectors packets card ⟨data, rest, hrecv⟩
    rw [writeLoop, writeStep, hrecv]
    exact ⟨_, rfl⟩
  | more n ih _ =>
    rintro i twoSectors packets card ⟨data, rest, hrecv, hreceived⟩
    rw [writeLoop, writeStep, hrecv, Option.map_some, Option.bind_some]
    simp only
    obtain ⟨r, hr⟩ := ih (i + 2) (twoSectors.copy 0 data) rest
      (Card_WriteM card (sectorOffset + UInt32.ofNat i)
        ((List.range 2).map (twoSectors.copy 0 data).sector)).1 hreceived
    rw [hr]
    exact ⟨_, rfl⟩

/-! ### The claim about media errors -/

/-- The status of a read or write, whatever has happened. -/
theorem reports_append {ts : List Transfer} (device device' : Device)
    (hw : (∀ t ∈ ts, t.Ok) → WritesReceived ts) :
    Reports cbw (some (ts ++ [(processStatus .commandPassed cbw device).1], device')) ↔
      ¬ cbw.transferMode.IsPhaseError ∧ ∀ t ∈ ts, t.Ok := by
  obtain ⟨residue, hcsw⟩ : ∃ residue, (processStatus .commandPassed cbw device).1
      = .csw cbw.dCBWTag residue (caseStatus .commandPassed cbw).1 := ⟨_, rfl⟩
  obtain ⟨hphase, hpassed⟩ := @caseStatus_spec cbw .commandPassed
  rw [hcsw]
  constructor
  · rintro ⟨data, residue', status, heq, hstatus, hfail, -⟩
    obtain ⟨hts, hlast⟩ := List.append_inj' heq rfl
    rw [List.singleton_inj, Transfer.csw.injEq] at hlast
    obtain ⟨-, -, rfl⟩ := hlast
    subst hts
    by_cases hp : cbw.transferMode.IsPhaseError
    · rw [hphase hp] at hstatus hfail
      have hall : ¬ ∀ t ∈ ts, t.Ok := fun hok => absurd (hstatus.mpr hok) (by decide)
      exact absurd (hfail hall).1 (by decide)
    · exact ⟨hp, hstatus.mp (hpassed hp).1⟩
  · rintro ⟨hp, hok⟩
    exact ⟨ts, residue, _, rfl, ⟨fun _ => hok, fun _ => (hpassed hp).1⟩, fun hno => absurd hok hno, hw hok⟩

/-- The status of a READ(10) or WRITE(10) reports its transfers exactly if all of them succeed and the
    host has asked for it in a case without a phase error. -/
theorem reports_iff (device : Device) (twoSectors : Buffer) (packets : List (List UInt8))
    (hsig : cbw.dCBWSignature = 0x43425355) (hop : cbw.opcode = .read10 ∨ cbw.opcode = .write10) :
    Reports cbw (mscPacketRecv twoSectors packets cbw 31 device) ↔
      ¬ cbw.transferMode.IsPhaseError ∧ Succeeds cbw device.card packets := by
  rw [mscPacketRecv, if_neg (by rw [hsig]; decide), processCommand, Succeeds]
  rcases hop with hop | hop
  · have hn : cbw.deviceLength / 512 = cbw.transferLength := by
      rw [CommandBlockWrapper.deviceLength, hop]
      exact Nat.mul_div_cancel _ (by decide)
    obtain ⟨hok, hw⟩ := readLoop_ok device.card cbw.lba (cbw.deviceLength / 512) 0 twoSectors
    rw [hop]
    refine (reports_append device _ fun _ => hw).trans ?_
    rw [hok, hn]
  · have hn : cbw.deviceLength / 512 = cbw.transferLength := by
      rw [CommandBlockWrapper.deviceLength, hop]
      exact Nat.mul_div_cancel _ (by decide)
    rw [hop]
    simp only
    rw [hn]
    cases hloop : writeLoop cbw.lba cbw.transferLength 0 twoSectors packets device.card with
    | none =>
      refine ⟨fun h => absurd h id, ?_⟩
      rintro ⟨-, hreceived, -⟩
      obtain ⟨r, hr⟩ := writeLoop_received cbw.lba cbw.transferLength 0 twoSectors packets device.card hreceived
      rw [hloop] at hr
      cases hr
    | some r =>
      obtain ⟨hok, hw⟩ := writeLoop_ok cbw.lba cbw.transferLength 0 twoSectors packets device.card r.1 r.2 hloop
      refine (reports_append _ _ hw).trans ?_
      rw [hok]

/-- READ(10) or WRITE(10) of one block, from a host that expects one -/
def oneBlock (opcode : UInt8) (direction : Bool) : CommandBlockWrapper where
  dCBWSignature := 0x43425355
  dCBWTag := 1
  dCBWDataTransferLength := 512
  direction := direction
  cbwcb := #v[opcode, 0, 0, 0, 0, 7, 0, 0, 1, 0, 0, 0, 0, 0, 0, 0]

theorem oneBlock_reports :
    Reports (oneBlock 0x28 true) (mscPacketRecv (fun _ => 0) [] (oneBlock 0x28 true) 31 idleDevice) ↔
      ¬ (oneBlock 0x28 true).transferMode.IsPhaseError ∧
        Succeeds (oneBlock 0x28 true) idleDevice.card [] :=
  reports_iff idleDevice (fun _ => 0) [] rfl (Or.inl rfl)

/-- The card does not take block 7. -/
def badBlock : Device := { idleDevice with card := { idleDevice.card with fails := fun b => b = 7 } }

/-- A block that the card does not take is acknowledged. -/
theorem failedWrite_passes :
    ¬ Reports (oneBlock 0x2a false) (mscPacketRecv (fun _ => 0) (List.replicate 8 (List.replicate 64 0))
      (oneBlock 0x2a false) 31 badBlock) := by
  intro h
  have hrun : ∃ device, mscPacketRecv (fun _ => 0) (List.replicate 8 (List.replicate 64 0))
      (oneBlock 0x2a false) 31 badBlock =
        some ([.dataOut 512 512, .cardWrite 7 1 false] ++ [.csw 1 0 .commandPassed], device) := ⟨_, rfl⟩
  obtain ⟨device, hrun⟩ := hrun
  rw [hrun] at h
  obtain ⟨data, residue, status, heq, hstatus, -⟩ := h
  obtain ⟨hdata, hlast⟩ := List.append_inj' heq rfl
  rw [List.singleton_inj, Transfer.csw.injEq] at hlast
  have hok := hstatus.mp hlast.2.2.symm (.cardWrite 7 1 false) (by
    rw [← hdata]
    exact List.mem_cons_of_mem _ (List.mem_singleton_self _))
  exact Bool.false_ne_true hok

end Msc
