import ReplayFirmware.Lib.Store
import ReplayFirmware.Usb.Media
import Mathlib.Data.List.GetD

/-! The card as the host sees it over USB: a store of blocks.

    A READ(10) is an access that reads, a WRITE(10) one that puts the blocks it received in their place,
    and any other command block leaves the card alone, whether it is known or not. Whatever comes in
    between, a block holds what was written to it last, and a read sends just that. -/

namespace Msc
open FileIO Store

/-! ### What a command asks of the medium -/

/-- The bytes that come in, block by block. -/
def blockOf (data : List UInt8) (k : ℕ) : Block := Vector.ofFn fun j => data.getD (512 * k + j) 0

/-- The first `n` blocks of what comes in. -/
def blocksOf (data : List UInt8) (n : ℕ) : List Block := (List.range n).map (blockOf data)

/-- A packet for the command endpoint, what follows it on the data endpoint, and the stack. -/
structure Command where
  twoSectors : Buffer
  packets : List (List UInt8)
  cbw : CommandBlockWrapper
  length : ℕ

/-- It is a command block. -/
def Command.Valid (c : Command) : Prop := c.length = 31 ∧ c.cbw.dCBWSignature = 0x43425355

instance (c : Command) : Decidable c.Valid := inferInstanceAs (Decidable (_ ∧ _))

/-- The access that it is. -/
def Command.access (c : Command) : Option (Access Block) :=
  if c.Valid then
    match c.cbw.opcode with
    | .read10 => some (.read c.cbw.lba.toNat c.cbw.transferLength)
    | .write10 =>
      some (.write c.cbw.lba.toNat (blocksOf c.packets.flatten c.cbw.transferLength))
    | _ => none
  else none

/-- It stays inside `N` blocks, and the host sends what it has announced. -/
structure Command.Aims (N : ℕ) (c : Command) : Prop where
  fits : ∀ a ∈ c.access, a.Fits N
  sends : c.cbw.opcode = .write10 → ∃ h, Sends c.packets h ∧ c.cbw.transferLength * 512 ≤ h

/-- The commands of a host, one after the other; `none` when one of them does not return. -/
def run : List Command → Device → Option (List (List Transfer) × Device)
  | [], device => some ([], device)
  | c :: cs, device =>
    (mscPacketRecv c.twoSectors c.packets c.cbw c.length device).bind fun (ts, device) =>
      (run cs device).map fun (tss, device) => (ts :: tss, device)

/-- The bytes of one transfer to the host. -/
def Transfer.bytes : Transfer → List UInt8
  | .dataIn object length => object.take length
  | .dataOut _ _ | .cardRead _ _ | .cardWrite _ _ _ | .csw _ _ _ | .stall _ => []

/-- The bytes that the host gets, but for the status. -/
def bytesIn (ts : List Transfer) : List UInt8 := ts.flatMap Transfer.bytes

/-- The first `N` blocks are there, and none of them fails. -/
structure Medium (N : ℕ) (card : Card) : Prop where
  reach : N ≤ card.limit
  good : ∀ b < N, card.fails b = false

/-! ### Blocks and bytes -/

variable {N n i h : ℕ} {card : Card} {sectorOffset : UInt32} {packets : List (List UInt8)}

theorem length_blocksOf (data : List UInt8) (n : ℕ) : (blocksOf data n).length = n := by
  rw [blocksOf, List.length_map, List.length_range]

theorem getElem?_blocksOf {data : List UInt8} {k : ℕ} (hk : k < n) :
    (blocksOf data n)[k]? = some (blockOf data k) := by
  rw [blocksOf, List.getElem?_map, List.getElem?_range hk, Option.map_some]

theorem Medium.address (hm : Medium N card) (hi : sectorOffset.toNat + i < N) :
    card.address (sectorOffset + UInt32.ofNat i) = sectorOffset.toNat + i := by
  have hsum : sectorOffset + UInt32.ofNat i = UInt32.ofNat (sectorOffset.toNat + i) := by
    rw [UInt32.ofNat_add, UInt32.ofNat_toNat]
  rw [hsum, Card.address_eq (Nat.lt_of_lt_of_le hi hm.reach)]

/-- A block that was just copied to its half of the buffer. -/
theorem Buffer.sector_copy (buffer : Buffer) (k : ℕ) (b : Block) :
    (buffer.copy (512 * k) b.toList).sector k = b := by
  refine Vector.ext fun j hj => ?_
  rw [Buffer.sector, Vector.getElem_ofFn, Buffer.copy, if_pos (Nat.le_add_right _ _), Nat.add_sub_cancel_left,
    List.getD_eq_getElem _ _ (by rw [Vector.length_toList]; exact hj), Vector.getElem_toList]

/-- The blocks of what was just received. -/
theorem Buffer.sector_received (buffer : Buffer) {data : List UInt8} {k : ℕ} (hk : k < n)
    (hlen : data.length = n * 512) (more : List UInt8) :
    (buffer.copy 0 data).sector k = blockOf (data ++ more) k := by
  refine Vector.ext fun j hj => ?_
  have hin : 512 * k + j < data.length := by omega
  rw [Buffer.sector, blockOf, Vector.getElem_ofFn, Vector.getElem_ofFn, Buffer.copy, if_pos (Nat.zero_le _),
    Nat.sub_zero, List.getD_append _ _ _ _ hin, List.getD_eq_getElem _ _ hin, List.getD_eq_getElem _ _ hin]

theorem blockOf_append {data : List UInt8} {n : ℕ} (hlen : data.length = n * 512) (more : List UInt8) (k : ℕ) :
    blockOf (data ++ more) (n + k) = blockOf more k := by
  refine Vector.ext fun j hj => ?_
  rw [blockOf, blockOf, Vector.getElem_ofFn, Vector.getElem_ofFn,
    List.getD_append_right _ _ _ _ (by omega)]
  refine congrArg (fun m => more.getD m 0) ?_
  omega

/-- What is received is what comes in first. -/
theorem usbRecv_data : ∀ {packets : List (List UInt8)} {h m : ℕ}, Sends packets h → m % 64 = 0 → m ≤ h →
    ∃ data rest, usbRecv packets m = some (data, m, rest) ∧ Sends rest (h - m) ∧
      data.length = m ∧ packets.flatten = data ++ rest.flatten
  | packets, h, 0, hs, _, _ => ⟨[], packets, by rw [usbRecv], hs, rfl, rfl⟩
  | [], h, m + 1, hs, _, hle => by
    rw [Sends] at hs
    omega
  | packet :: packets, h, m + 1, hs, hmod, hle => by
    obtain ⟨hne, hlen, hs⟩ := hs
    have h64 : packet.length = 64 := by omega
    rw [h64] at hs
    obtain ⟨data, rest, hrecv, hrest, hdata, hflat⟩ :=
      usbRecv_data (m := m + 1 - 64) hs (by omega) (by omega)
    rw [usbRecv, if_neg hne, h64, hrecv]
    refine ⟨packet ++ data, rest, ?_, ?_, ?_, ?_⟩
    · show some (packet ++ data, min 64 (m + 1) + (m + 1 - 64), rest) = _
      rw [show min 64 (m + 1) + (m + 1 - 64) = m + 1 by omega]
    · rw [show h - (m + 1) = h - 64 - (m + 1 - 64) by omega]
      exact hrest
    · rw [List.length_append, hdata]
      omega
    · rw [List.flatten_cons, hflat, List.append_assoc]

/-! ### Reading -/

theorem bytesIn_append (ts ts' : List Transfer) : bytesIn (ts ++ ts') = bytesIn ts ++ bytesIn ts' :=
  List.flatMap_append

/-- The blocks are sent one by one, as they are on the card. -/
theorem readLoop_bytes (hm : Medium N card) : ∀ (n i : ℕ) (twoSectors : Buffer),
    sectorOffset.toNat + i + n ≤ N → bytesIn (readLoop card sectorOffset n i twoSectors) =
      (List.range n).flatMap fun k => (card.block (sectorOffset.toNat + i + k)).toList
  | 0, _, _, _ => rfl
  | n + 1, i, twoSectors, hle => by
    have hi : sectorOffset.toNat + i < N := by omega
    have hread : Card_ReadM card (sectorOffset + UInt32.ofNat i) 1 =
        ([card.block (sectorOffset.toNat + i)], true) := by
      rw [Card_ReadM, hm.address hi, readBlocks, if_neg (by rw [hm.good _ hi]; exact Bool.false_ne_true)]
      rfl
    have hsector := Buffer.sector_copy twoSectors (i % 2) (card.block (sectorOffset.toNat + i))
    have hone : [card.block (sectorOffset.toNat + i)].flatMap Vector.toList =
        (card.block (sectorOffset.toNat + i)).toList := List.append_nil _
    rw [readLoop, hread]
    simp only
    rw [hone, hsector, bytesIn, List.flatMap_cons, List.flatMap_cons, Transfer.bytes, Transfer.bytes,
      List.nil_append, List.take_of_length_le (by rw [Vector.length_toList]), List.range_succ_eq_map,
      List.flatMap_cons, Nat.add_zero]
    refine congrArg (List.append _) ((readLoop_bytes hm n (i + 1) _ (by omega)).trans ?_)
    rw [List.flatMap, List.flatMap, List.map_map]
    refine congrArg List.flatten (List.map_congr_left fun k _ => ?_)
    rw [Function.comp_apply, show sectorOffset.toNat + (i + 1) + k = sectorOffset.toNat + i + (k + 1) by omega]

/-! ### Writing -/

/-- Blocks that are written stand where they were written. -/
theorem writeBlocks_put : ∀ (bs : List Block) (a : ℕ) (card : Card),
    (∀ k < bs.length, card.fails (a + k) = false) →
    (writeBlocks bs a card).1.block = fun b => (Access.put b (.write a bs)).getD (card.block b)
  | [], a, card, _ => by
    funext b
    rw [writeBlocks, Access.put, List.getElem?_nil, ite_self, Option.getD_none]
  | x :: bs, a, card, hgood => by
    have h0 : card.fails a = false := hgood 0 (Nat.succ_pos _)
    rw [writeBlocks, if_neg (by rw [h0]; exact Bool.false_ne_true), writeBlocks_put bs (a + 1)]
    · funext b
      simp only [Access.put]
      rcases Nat.lt_trichotomy b a with hlt | heq | hgt
      · rw [if_neg (by omega), if_neg (by omega), Option.getD_none, Option.getD_none,
          Function.update_of_ne (Nat.ne_of_lt hlt)]
      · subst heq
        rw [if_neg (by omega), if_pos (le_refl b), Nat.sub_self, List.getElem?_cons_zero, Option.getD_none,
          Option.getD_some, Function.update_self]
      · rw [if_pos (Nat.succ_le_of_lt hgt), if_pos (Nat.le_of_lt hgt), Function.update_of_ne (Nat.ne_of_gt hgt),
          show b - a = b - (a + 1) + 1 by omega, List.getElem?_cons_succ]
    · intro k hk
      rw [show a + 1 + k = a + (k + 1) by omega]
      exact hgood (k + 1) (Nat.succ_lt_succ hk)

/-- The same medium, with other blocks. -/
theorem Medium.writeBlocks (hm : Medium N card) (bs : List Block) (a : ℕ) :
    Medium N (writeBlocks bs a card).1 := by
  obtain ⟨hs, -, hf, -⟩ := writeBlocks_frame bs a card
  refine ⟨?_, by rw [hf]; exact hm.good⟩
  rw [Card.limit, hs]
  exact hm.reach

/-- What some blocks written from `i` on leave, where `data` comes in. -/
structure Written (N : ℕ) (card : Card) (first n : ℕ) (data : List UInt8) (card' : Card) : Prop where
  medium : Medium N card'
  block : card'.block = fun b => (Access.put b (.write first (blocksOf data n))).getD (card.block b)

theorem writeStep_written (hm : Medium N card) (hs : Sends packets h) (hh : n * 512 ≤ h) (hn : 1 ≤ n)
    (hle : sectorOffset.toNat + i + n ≤ N) (twoSectors : Buffer) : ∃ ts two rest card',
      writeStep n (sectorOffset + UInt32.ofNat i) twoSectors packets card = some (ts, two, rest, card') ∧
        Sends rest (h - n * 512) ∧ bytesIn ts = [] ∧
        Written N card (sectorOffset.toNat + i) n packets.flatten card' ∧
        ∀ k, blockOf packets.flatten (n + k) = blockOf rest.flatten k := by
  obtain ⟨data, rest, hrecv, hrest, hlen, hflat⟩ := usbRecv_data hs (show n * 512 % 64 = 0 by omega) hh
  have hblocks : (List.range n).map (twoSectors.copy 0 data).sector = blocksOf packets.flatten n := by
    refine List.map_congr_left fun k hk => ?_
    rw [hflat]
    exact Buffer.sector_received twoSectors (List.mem_range.mp hk) hlen rest.flatten
  rw [writeStep, hrecv, Option.map_some]
  simp only
  rw [hblocks, Card_WriteM, hm.address (by omega)]
  refine ⟨_, _, rest, _, rfl, hrest, rfl, ⟨hm.writeBlocks _ _, writeBlocks_put _ _ card fun k hk => ?_⟩,
    fun k => by rw [hflat, blockOf_append hlen]⟩
  rw [length_blocksOf] at hk
  exact hm.good _ (by omega)

/-- Blocks that are written behind each other. -/
theorem put_blocksOf (first m n : ℕ) (data rest : List UInt8) (b : ℕ) (x : Block)
    (hrest : ∀ k, blockOf data (m + k) = blockOf rest k) :
    (Access.put b (.write (first + m) (blocksOf rest n))).getD
        ((Access.put b (.write first (blocksOf data m))).getD x) =
      (Access.put b (.write first (blocksOf data (m + n)))).getD x := by
  simp only [Access.put]
  by_cases hlow : first ≤ b
  · obtain ⟨k, rfl⟩ := Nat.exists_eq_add_of_le hlow
    rw [if_pos hlow, if_pos hlow, Nat.add_sub_cancel_left]
    by_cases hm : k < m
    · rw [if_neg (by omega), Option.getD_none, getElem?_blocksOf hm, getElem?_blocksOf (Nat.lt_add_right n hm)]
    · obtain ⟨j, rfl⟩ := Nat.exists_eq_add_of_le (Nat.le_of_not_lt hm)
      have hout : (blocksOf data m)[m + j]? = none :=
        List.getElem?_eq_none (by rw [length_blocksOf]; exact Nat.le_add_right m j)
      rw [if_pos (by omega), hout, Option.getD_none, show first + (m + j) - (first + m) = j by omega]
      by_cases hn : j < n
      · rw [getElem?_blocksOf hn, getElem?_blocksOf (Nat.add_lt_add_left hn m), hrest]
      · rw [List.getElem?_eq_none (by rw [length_blocksOf]; omega),
          List.getElem?_eq_none (by rw [length_blocksOf]; omega)]
  · rw [if_neg (by omega), if_neg hlow, if_neg hlow, Option.getD_none]

/-- The blocks come in two by two, and all of them stand on the card in the end. -/
theorem writeLoop_written (n : ℕ) : ∀ (i : ℕ) (twoSectors : Buffer) (packets : List (List UInt8))
    (card : Card) (h : ℕ), Medium N card → Sends packets h → n * 512 ≤ h → sectorOffset.toNat + i + n ≤ N →
    ∃ ts card', writeLoop sectorOffset n i twoSectors packets card = some (ts, card') ∧ bytesIn ts = [] ∧
      Written N card (sectorOffset.toNat + i) n packets.flatten card' := by
  induction n using Nat.twoStepInduction with
  | zero =>
    intro i twoSectors packets card h hm hs hh hle
    rw [writeLoop]
    refine ⟨[], card, rfl, rfl, hm, ?_⟩
    funext b
    rw [Access.put, blocksOf, List.range_zero, List.map_nil, List.getElem?_nil, ite_self, Option.getD_none]
  | one =>
    intro i twoSectors packets card h hm hs hh hle
    obtain ⟨ts, two, rest, card', hstep, -, hbytes, hw, -⟩ :=
      writeStep_written hm hs hh (le_refl 1) hle twoSectors
    rw [writeLoop, hstep]
    exact ⟨ts, card', rfl, hbytes, hw⟩
  | more n ih _ =>
    intro i twoSectors packets card h hm hs hh hle
    rw [Nat.add_mul] at hh
    have hle₂ : sectorOffset.toNat + i + 2 ≤ N := by omega
    have hh₂ : 2 * 512 ≤ h := by omega
    obtain ⟨ts, two, rest, card₁, hstep, hrest, hbytes, hw, hblock⟩ :=
      writeStep_written hm hs hh₂ (by decide) hle₂ twoSectors
    obtain ⟨ts', card', hloop, hbytes', hw'⟩ :=
      ih (i + 2) two rest card₁ _ hw.medium hrest (Nat.le_sub_of_add_le hh) (by omega)
    rw [writeLoop, hstep, Option.bind_some]
    simp only
    rw [hloop]
    refine ⟨ts ++ ts', card', rfl, by rw [bytesIn_append, hbytes, hbytes']; rfl, hw'.medium, ?_⟩
    funext b
    rw [hw'.block, hw.block, Nat.add_comm n 2]
    exact put_blocksOf (sectorOffset.toNat + i) 2 n packets.flatten rest.flatten b (card.block b) hblock

/-! ### Commands -/

variable {c : Command} {device : Device}

theorem processStatus_card (status : CSWStatus) (cbw : CommandBlockWrapper) (device : Device) :
    (processStatus status cbw device).2.card = device.card := by
  rw [processStatus]
  generalize caseStatus status cbw = p
  obtain ⟨bCSWStatus, residue⟩ := p
  simp only [setSenseData]
  split_ifs <;> rfl

/-- What neither reads nor writes leaves the card alone. -/
theorem processCommand_other (twoSectors : Buffer) (packets : List (List UInt8)) {cbw : CommandBlockWrapper}
    (hr : cbw.opcode ≠ .read10) (hw : cbw.opcode ≠ .write10) : ∃ status ts device',
      processCommand twoSectors packets cbw device = some (status, ts, device') ∧ device'.card = device.card := by
  rw [processCommand]
  cases hop : cbw.opcode with
  | read10 => exact absurd hop hr
  | write10 => exact absurd hop hw
  | inquiry =>
    by_cases he : cbw.evpd = true
    · simp only [he, if_true]
      exact ⟨_, _, _, rfl, rfl⟩
    · simp only [if_neg he]
      exact ⟨_, _, _, rfl, rfl⟩
  | testUnitReady | requestSense | modeSense6 | modeSense10 | startStopUnit | preventAllowRemoval
  | readFormatCapacity | readCapacity | unknown => exact ⟨_, _, _, rfl, rfl⟩

theorem bytesIn_status (ts : List Transfer) (status : CSWStatus) (cbw : CommandBlockWrapper) (device : Device) :
    bytesIn (ts ++ [(processStatus status cbw device).1]) = bytesIn ts := by
  rw [bytesIn_append]
  exact List.append_nil _

theorem deviceLength_blocks {cbw : CommandBlockWrapper} (h : cbw.opcode = .read10 ∨ cbw.opcode = .write10) :
    cbw.deviceLength / 512 = cbw.transferLength := by
  rw [CommandBlockWrapper.deviceLength]
  rcases h with h | h
  · rw [h]
    exact Nat.mul_div_cancel _ (by decide)
  · rw [h]
    exact Nat.mul_div_cancel _ (by decide)

/-- What a command does to the medium, and what it sends of it. -/
structure Answers (N : ℕ) (c : Command) (device : Device) (ts : List Transfer) (device' : Device) : Prop where
  medium : Medium N device'.card
  block : ∀ b, device'.card.block b = (c.access.bind (Access.put b)).getD (device.card.block b)
  sent : ∀ i n, c.access = some (.read i n) →
    bytesIn ts = (List.range n).flatMap fun k => (device.card.block (i + k)).toList

theorem command_answers (hm : Medium N device.card) (ha : c.Aims N) : ∃ ts device',
    mscPacketRecv c.twoSectors c.packets c.cbw c.length device = some (ts, device') ∧
      Answers N c device ts device' := by
  by_cases hv : c.Valid
  · rw [mscPacketRecv, if_neg fun h => h.elim (absurd hv.1) (absurd hv.2)]
    by_cases hr : c.cbw.opcode = .read10
    · have haccess : c.access = some (.read c.cbw.lba.toNat c.cbw.transferLength) := by
        rw [Command.access, if_pos hv, hr]
      have hfit := ha.fits _ haccess
      rw [processCommand, hr]
      simp only [Option.map_some]
      refine ⟨_, _, rfl, ?_, ?_, ?_⟩
      · rw [processStatus_card]
        exact hm
      · intro b
        rw [processStatus_card, haccess]
        rfl
      · intro i n h
        cases haccess.symm.trans h
        rw [bytesIn_status, deviceLength_blocks (Or.inl hr)]
        exact readLoop_bytes hm _ 0 _ hfit
    · by_cases hw : c.cbw.opcode = .write10
      · have haccess : c.access =
            some (.write c.cbw.lba.toNat (blocksOf c.packets.flatten c.cbw.transferLength)) := by
          rw [Command.access, if_pos hv, hw]
        have hfit : c.cbw.lba.toNat + 0 + c.cbw.transferLength ≤ N := by
          have := ha.fits _ haccess
          rw [Access.Fits, Access.start, Access.size, length_blocksOf] at this
          exact this
        obtain ⟨h, hs, hh⟩ := ha.sends hw
        obtain ⟨ts, card', hloop, -, hwritten⟩ :=
          writeLoop_written _ 0 c.twoSectors c.packets device.card h hm hs hh hfit
        rw [processCommand, hw]
        simp only
        rw [deviceLength_blocks (Or.inr hw), hloop]
        refine ⟨_, _, rfl, ?_, ?_, fun i n h => ?_⟩
        · rw [processStatus_card]
          exact hwritten.medium
        · intro b
          rw [processStatus_card, haccess]
          exact congrFun hwritten.block b
        · cases haccess.symm.trans h
      · have haccess : c.access = none := by
          rw [Command.access, if_pos hv]
          split
          · exact absurd ‹_› hr
          · exact absurd ‹_› hw
          · rfl
        obtain ⟨status, ts, device', hrun, hcard⟩ : ∃ status ts device',
            processCommand c.twoSectors c.packets c.cbw device = some (status, ts, device') ∧
              device'.card = device.card := processCommand_other c.twoSectors c.packets hr hw
        rw [hrun]
        refine ⟨_, _, rfl, ?_, ?_, fun i n h => ?_⟩
        · rw [processStatus_card, hcard]
          exact hm
        · intro b
          rw [processStatus_card, hcard, haccess]
          rfl
        · cases haccess.symm.trans h
  · have hbad : c.length ≠ 31 ∨ c.cbw.dCBWSignature ≠ 0x43425355 := by
      by_cases hl : c.length = 31
      · exact Or.inr fun hs => hv ⟨hl, hs⟩
      · exact Or.inl hl
    have haccess : c.access = none := if_neg hv
    rw [mscPacketRecv, if_pos hbad]
    refine ⟨_, _, rfl, hm, ?_, fun i n h => ?_⟩
    · intro b
      rw [haccess]
      rfl
    · cases haccess.symm.trans h

/-! ### Runs -/

/-- What the first command puts in a block is there for the others. -/
theorem lastPut_access (b : ℕ) (c : Command) (cs : List Command) (x : Block) :
    (lastPut b ((c :: cs).filterMap Command.access)).getD x =
      (lastPut b (cs.filterMap Command.access)).getD ((c.access.bind (Access.put b)).getD x) := by
  rw [List.filterMap_cons]
  cases c.access with
  | none => rfl
  | some a =>
    rw [Option.bind_some]
    simp only
    rw [lastPut_cons]
    cases lastPut b (cs.filterMap Command.access) <;> rfl

/-- Every run of commands that stay inside the medium ends, a block of the card then holds what the last
    WRITE(10) to it has put there, and every READ(10) sent the blocks as they were left before it. -/
theorem run_serves_blocks {cs : List Command} (hm : Medium N device.card) (ha : ∀ c ∈ cs, c.Aims N) :
    ∃ tss device', run cs device = some (tss, device') ∧
      (∀ b, device'.card.block b = (lastPut b (cs.filterMap Command.access)).getD (device.card.block b)) ∧
      ∀ cs₁ c cs₂ i n, cs = cs₁ ++ c :: cs₂ → c.access = some (.read i n) →
        tss[cs₁.length]?.map bytesIn = some ((List.range n).flatMap fun k =>
          ((lastPut (i + k) (cs₁.filterMap Command.access)).getD (device.card.block (i + k))).toList) := by
  induction cs generalizing device with
  | nil =>
    refine ⟨[], device, rfl, fun b => rfl, fun cs₁ c cs₂ i n h => ?_⟩
    exact absurd h (List.append_ne_nil_of_right_ne_nil cs₁ (List.cons_ne_nil c cs₂)).symm
  | cons c₀ cs ih =>
    rw [List.forall_mem_cons] at ha
    obtain ⟨ts, device₁, hcommand, hanswers⟩ := command_answers hm ha.1
    obtain ⟨tss, device', hrun, hblock, hsent⟩ := ih hanswers.medium ha.2
    refine ⟨ts :: tss, device', ?_, fun b => ?_, fun cs₁ c cs₂ i n h haccess => ?_⟩
    · rw [run, hcommand, Option.bind_some]
      simp only
      rw [hrun]
      rfl
    · rw [hblock, lastPut_access, hanswers.block]
    · cases cs₁ with
      | nil =>
        obtain ⟨rfl, rfl⟩ := List.cons.inj h
        rw [List.length_nil, List.getElem?_cons_zero, Option.map_some, hanswers.sent i n haccess]
        rfl
      | cons c₁ cs₁ =>
        obtain ⟨rfl, hcs⟩ := List.cons.inj h
        rw [List.length_cons, List.getElem?_cons_succ, hsent cs₁ c cs₂ i n hcs haccess]
        refine congrArg (fun f => some ((List.range n).flatMap f)) (funext fun k => ?_)
        rw [lastPut_access, hanswers.block]

/-- Block 7 is written. -/
def writeSeven : Command where
  twoSectors := fun _ => 0
  packets := List.replicate 8 (List.replicate 64 0x41)
  cbw := oneBlock 0x2a false
  length := 31

/-- Block 7 is read. -/
def readSeven : Command where
  twoSectors := fun _ => 0
  packets := []
  cbw := oneBlock 0x28 true
  length := 31

theorem writeSeven_aims : writeSeven.Aims 8 where
  fits a ha := by
    cases ha
    rw [Access.Fits, Access.start, Access.size, length_blocksOf]
    decide
  sends _ := ⟨512, by simp [Sends, writeSeven, List.replicate], by decide⟩

theorem readSeven_aims : readSeven.Aims 8 where
  fits a ha := by
    cases ha
    unfold Access.Fits
    decide
  sends h := absurd h (by decide)

theorem seven_served : ∃ tss device', run [writeSeven, readSeven] idleDevice = some (tss, device') ∧
    tss[1]?.map bytesIn = some ((List.range 1).flatMap fun k =>
      ((lastPut (7 + k) ([writeSeven].filterMap Command.access)).getD (idleDevice.card.block (7 + k))).toList) := by
  have hm : Medium 8 idleDevice.card := ⟨by decide, fun _ _ => rfl⟩
  have ha : ∀ c ∈ [writeSeven, readSeven], c.Aims 8 :=
    List.forall_mem_cons.mpr ⟨writeSeven_aims, List.forall_mem_singleton.mpr readSeven_aims⟩
  obtain ⟨tss, device', hrun, -, hsent⟩ := run_serves_blocks hm ha
  exact ⟨tss, device', hrun, hsent [writeSeven] readSeven [] 7 1 rfl rfl⟩

end Msc
