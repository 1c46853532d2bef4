import ReplayFirmware.Drv08.Handle
import ReplayFirmware.Drv08.Insert

/-! What a write leaves on the medium.

    Both write commands store the blocks of the FIFO in bursts, in order; apart from what they send in
    between, a command is its bursts. A request is refused before its first block or not at all: a
    store that fails is only reported, and only the first block is looked at. -/

namespace FileIO.Drv08
open FatFs

/-! ### The bursts of a command -/

/-- The bursts of `block_count` blocks of WRITE MULTIPLE. -/
def burstSizes : ℕ → ℕ → List ℕ
  | 0, _ => []
  | fuel + 1, block_count =>
    if block_count = 0 then []
    else min block_count maxNumBlocks :: burstSizes fuel (block_count - min block_count maxNumBlocks)

/-- The bursts of a WRITE MULTIPLE command. -/
def multipleSizes (sectors_per_block : ℕ) : ℕ → ℕ → List ℕ
  | 0, _ => []
  | fuel + 1, sector_count =>
    if sector_count = 0 then []
    else
      let block_count := min sector_count sectors_per_block
      burstSizes block_count block_count
        ++ multipleSizes sectors_per_block fuel (sector_count - block_count)

/-- The bursts of a write command of `n` blocks. -/
def storeSizes (tfr : TaskFile) (pDesc : Desc) (n : ℕ) : List ℕ :=
  if tfr 7 = 0xC5 then multipleSizes pDesc.sectors_per_block.toNat n n else List.replicate n 1

theorem sum_burstSizes : ∀ {fuel n : ℕ}, n ≤ fuel → (burstSizes fuel n).sum = n
  | 0, n, h => by
    obtain rfl : n = 0 := Nat.le_zero.mp h
    rfl
  | fuel + 1, n, h => by
    rw [burstSizes]
    split
    · next h0 => rw [h0, List.sum_nil]
    · have hpos : 0 < maxNumBlocks := by decide
      rw [List.sum_cons, sum_burstSizes (by omega)]
      omega

theorem sum_multipleSizes {spb : ℕ} (hspb : 0 < spb) : ∀ {fuel n : ℕ}, n ≤ fuel →
    (multipleSizes spb fuel n).sum = n
  | 0, n, h => by
    obtain rfl : n = 0 := Nat.le_zero.mp h
    rfl
  | fuel + 1, n, h => by
    rw [multipleSizes]
    split
    · next h0 => rw [h0, List.sum_nil]
    · simp only
      rw [List.sum_append, sum_burstSizes (le_refl _), sum_multipleSizes hspb (by omega)]
      omega

/-! ### The medium -/

/-- Two transfers that have come equally far on the same medium. -/
structure SameMedium (x y : Xfer) : Prop where
  card : x.card = y.card
  drive : x.drive = y.drive
  lba : x.lba = y.lba
  taken : x.taken = y.taken
  failed : x.failed = y.failed

theorem SameMedium.refl (x : Xfer) : SameMedium x x := ⟨rfl, rfl, rfl, rfl, rfl⟩

theorem SameMedium.trans {x y z : Xfer} (h : SameMedium x y) (h' : SameMedium y z) :
    SameMedium x z :=
  ⟨h.card.trans h'.card, h.drive.trans h'.drive, h.lba.trans h'.lba, h.taken.trans h'.taken,
    h.failed.trans h'.failed⟩

theorem SameMedium.storeBlocks {x y : Xfer} (h : SameMedium x y) (fifo : ℕ → UInt8) (n : ℕ) :
    SameMedium (storeBlocks fifo x n) (storeBlocks fifo y n) := by
  obtain ⟨h1, h2, h3, h4, h5⟩ := h
  simp only [Drv08.storeBlocks, h1, h2, h3, h4, h5]
  split <;> exact ⟨rfl, rfl, rfl, rfl, rfl⟩

theorem SameMedium.foldl {fifo : ℕ → UInt8} : ∀ (ns : List ℕ) {x y : Xfer}, SameMedium x y →
    SameMedium (ns.foldl (Drv08.storeBlocks fifo) x) (ns.foldl (Drv08.storeBlocks fifo) y)
  | [], _, _, h => h
  | n :: ns, _, _, h => SameMedium.foldl ns (h.storeBlocks fifo n)

/-- A store leaves the descriptor alone. -/
theorem storeBlocks_pDesc (fifo : ℕ → UInt8) (x : Xfer) (n : ℕ) :
    (storeBlocks fifo x n).drive.pDesc = x.drive.pDesc := by
  rw [storeBlocks]
  simp only
  split <;> rfl

theorem foldl_pDesc {fifo : ℕ → UInt8} : ∀ (ns : List ℕ) (x : Xfer),
    (ns.foldl (storeBlocks fifo) x).drive.pDesc = x.drive.pDesc
  | [], _ => rfl
  | n :: ns, x => (foldl_pDesc ns _).trans (storeBlocks_pDesc fifo x n)

/-- WRITE SECTORS stores its blocks one by one. -/
theorem writeSectorsLoop_medium (tfr : TaskFile) (fifo : ℕ → UInt8) : ∀ (n : ℕ) (x : Xfer),
    SameMedium (writeSectorsLoop tfr fifo n x)
      ((List.replicate n 1).foldl (Drv08.storeBlocks fifo) x)
  | 0, x => SameMedium.refl x
  | n + 1, x => by
    rw [writeSectorsLoop, List.replicate_succ, List.foldl_cons]
    refine (writeSectorsLoop_medium tfr fifo n _).trans (SameMedium.foldl _ ?_)
    refine SameMedium.storeBlocks ?_ fifo 1
    split <;> exact ⟨rfl, rfl, rfl, rfl, rfl⟩

theorem writeBurst_medium (fifo : ℕ → UInt8) : ∀ (fuel n : ℕ) (x : Xfer),
    SameMedium (writeBurst fifo fuel n x) ((burstSizes fuel n).foldl (Drv08.storeBlocks fifo) x)
  | 0, _, x => SameMedium.refl x
  | fuel + 1, n, x => by
    rw [writeBurst, burstSizes]
    split
    · exact SameMedium.refl x
    · exact (writeBurst_medium fifo fuel _ _).trans (SameMedium.foldl _ ⟨rfl, rfl, rfl, rfl, rfl⟩)

theorem writeMultipleLoop_medium (tfr : TaskFile) (fifo : ℕ → UInt8) : ∀ (fuel n : ℕ) (x : Xfer),
    SameMedium (writeMultipleLoop tfr fifo fuel n x)
      ((multipleSizes x.drive.pDesc.sectors_per_block.toNat fuel n).foldl (Drv08.storeBlocks fifo) x)
  | 0, _, x => SameMedium.refl x
  | fuel + 1, n, x => by
    rw [writeMultipleLoop, multipleSizes]
    split
    · exact SameMedium.refl x
    · simp only
      set i := min n x.drive.pDesc.sectors_per_block.toNat
      have hburst := writeBurst_medium fifo i i x
      have hpDesc : (writeBurst fifo i i x).drive.pDesc = x.drive.pDesc := by
        rw [hburst.drive, foldl_pDesc]
      rw [List.foldl_append]
      refine (writeMultipleLoop_medium tfr fifo fuel (n - i) _).trans ?_
      show SameMedium ((multipleSizes (writeBurst fifo i i x).drive.pDesc.sectors_per_block.toNat fuel
        (n - i)).foldl (Drv08.storeBlocks fifo) _) _
      rw [hpDesc]
      exact SameMedium.foldl _ ⟨hburst.card, hburst.drive, hburst.lba, hburst.taken, hburst.failed⟩

/-! ### The last status -/

/-- The last thing sent is a status with the error bit. -/
def EndsInError (outs : List FChOut) : Prop :=
  ∃ s, outs.getLast? = some (.stat s) ∧ s &&& statusErr ≠ 0

theorem abort_endsInError (tfr : TaskFile) (outs : List FChOut) : EndsInError (outs ++ abort tfr) :=
  ⟨statusEnd ||| statusIrq ||| statusErr, by rw [abort, List.getLast?_append]; rfl, by decide⟩

theorem storeBlocks_outs (fifo : ℕ → UInt8) (x : Xfer) (n : ℕ) :
    (storeBlocks fifo x n).outs = x.outs := by
  rw [storeBlocks]
  simp only
  split <;> rfl

/-- A transfer ends with a status that says all is well. -/
theorem writeSectorsLoop_last (tfr : TaskFile) (fifo : ℕ → UInt8) : ∀ {n : ℕ}, 0 < n → ∀ x : Xfer,
    (writeSectorsLoop tfr fifo n x).outs.getLast? = some (release 0)
  | 1, _, x => by
    rw [writeSectorsLoop, writeSectorsLoop, storeBlocks_outs, Xfer.send]
    exact List.getLast?_concat
  | n + 2, _, x => by
    rw [writeSectorsLoop]
    exact writeSectorsLoop_last tfr fifo (Nat.succ_pos n) _

theorem writeMultipleLoop_last (tfr : TaskFile) (fifo : ℕ → UInt8) : ∀ {fuel n : ℕ}, 0 < n →
    n ≤ fuel → ∀ x : Xfer, x.drive.pDesc.sectors_per_block ≠ 0 →
      (writeMultipleLoop tfr fifo fuel n x).outs.getLast? = some (release 0)
  | 0, n, hpos, hle, _, _ => absurd hpos (by omega)
  | fuel + 1, n, hpos, hle, x, hspb => by
    rw [writeMultipleLoop, if_neg (by omega)]
    simp only
    have hspb' : 0 < x.drive.pDesc.sectors_per_block.toNat :=
      Nat.pos_of_ne_zero fun hz => hspb (UInt16.toNat_inj.mp hz)
    set i := min n x.drive.pDesc.sectors_per_block.toNat with hi
    by_cases hlast : n - i = 0
    · rw [hlast]
      have hend : ∀ y : Xfer, writeMultipleLoop tfr fifo fuel 0 y = y := by
        intro y
        cases fuel with
        | zero => rfl
        | succ fuel => rw [writeMultipleLoop, if_pos rfl]
      rw [hend, Xfer.send]
      simp only [List.getLast?_append, List.getLast?_cons_cons, List.getLast?_singleton,
        Option.some_or]
    · refine writeMultipleLoop_last tfr fifo (by omega) (by omega) _ ?_
      show (writeBurst fifo i i x).drive.pDesc.sectors_per_block ≠ 0
      rw [(writeBurst_medium fifo i i x).drive, foldl_pDesc]
      exact hspb

/-- A transfer that was not refused does not end in an error. -/
theorem not_endsInError {outs : List FChOut} (h : outs.getLast? = some (release 0)) :
    ¬EndsInError outs := by
  rintro ⟨s, hs, herr⟩
  rw [h, release, if_pos rfl, Option.some.injEq, FChOut.stat.injEq] at hs
  rw [← hs] at herr
  exact herr (by decide)

/-! ### Bursts on the card -/

/-- No burst meets a block that fails. -/
def CardAccepts (card : Card) : UInt32 → List ℕ → Prop
  | _, [] => True
  | lba, n :: ns =>
    (∀ j, j < n → card.fails (card.address lba + j) = false) ∧ CardAccepts card (lba + n.toUInt32) ns

theorem CardAccepts.congr {card card' : Card} (hs : card'.sdhc = card.sdhc)
    (hf : card'.fails = card.fails) : ∀ {lba : UInt32} {ns : List ℕ},
    CardAccepts card' lba ns ↔ CardAccepts card lba ns
  | _, [] => Iff.rfl
  | lba, n :: ns => by
    have haddr : card'.address lba = card.address lba := by rw [Card.address, Card.address, hs]
    rw [CardAccepts, CardAccepts, haddr, hf, CardAccepts.congr hs hf]

theorem writeBlocks_good : ∀ (bs : List Block) (a : ℕ) (card : Card),
    (writeBlocks bs a card).2 = true ↔ ∀ j, j < bs.length → card.fails (a + j) = false
  | [], _, _ => ⟨fun _ _ h => absurd h (Nat.not_lt_zero _), fun _ => rfl⟩
  | b :: bs, a, card => by
    rw [writeBlocks]
    by_cases h0 : card.fails a = true
    · rw [if_pos h0]
      refine ⟨fun h => Bool.noConfusion h, fun h => ?_⟩
      have := h 0 (Nat.succ_pos _)
      rw [Nat.add_zero, h0] at this
      exact Bool.noConfusion this
    · rw [if_neg h0, writeBlocks_good bs (a + 1) _]
      refine ⟨fun h j hj => ?_, fun h j hj => ?_⟩
      · cases j with
        | zero => exact Bool.eq_false_of_not_eq_true h0
        | succ j =>
          rw [show a + (j + 1) = a + 1 + j by omega]
          exact h j (Nat.lt_of_succ_lt_succ hj)
      · rw [show a + 1 + j = a + (j + 1) by omega]
        exact h (j + 1) (Nat.succ_lt_succ hj)

/-- A burst on the card. -/
theorem storeBlocks_card {x : Xfer} (hmmc : x.drive.pDesc.format = .MMC) (fifo : ℕ → UInt8) (n : ℕ) :
    storeBlocks fifo x n = { x with
      taken := x.taken + n, lba := x.lba + n.toUInt32
      card := (Card_WriteM x.card (x.lba + x.drive.pDesc.lba_offset)
        ((List.range n).map fun k => fetch fifo (x.taken + k))).1
      failed := x.failed || !(Card_WriteM x.card (x.lba + x.drive.pDesc.lba_offset)
        ((List.range n).map fun k => fetch fifo (x.taken + k))).2 } := by
  rw [storeBlocks]
  simp only [if_pos hmmc]

/-- Bursts on the card leave the unit alone, and fail where a block of them fails. -/
theorem foldl_card (fifo : ℕ → UInt8) : ∀ (ns : List ℕ) {x : Xfer}, x.drive.pDesc.format = .MMC →
    (ns.foldl (storeBlocks fifo) x).drive = x.drive ∧
      (ns.foldl (storeBlocks fifo) x).taken = x.taken + ns.sum ∧
      ((ns.foldl (storeBlocks fifo) x).failed = false ↔
        x.failed = false ∧ CardAccepts x.card (x.lba + x.drive.pDesc.lba_offset) ns)
  | [], x, _ => ⟨rfl, rfl, ⟨fun h => ⟨h, trivial⟩, fun h => h.1⟩⟩
  | n :: ns, x, hmmc => by
    rw [List.foldl_cons, storeBlocks_card hmmc, List.sum_cons]
    set bs := (List.range n).map fun k => fetch fifo (x.taken + k) with hbs
    set y : Xfer := { x with
      taken := x.taken + n, lba := x.lba + n.toUInt32
      card := (Card_WriteM x.card (x.lba + x.drive.pDesc.lba_offset) bs).1
      failed := x.failed || !(Card_WriteM x.card (x.lba + x.drive.pDesc.lba_offset) bs).2 } with hy
    obtain ⟨h1, h2, h3⟩ := foldl_card fifo ns (x := y) hmmc
    obtain ⟨hsdhc, -, hfails, -⟩ :=
      writeBlocks_frame bs (x.card.address (x.lba + x.drive.pDesc.lba_offset)) x.card
    have hlen : bs.length = n := by rw [hbs, List.length_map, List.length_range]
    have hgood := writeBlocks_good bs (x.card.address (x.lba + x.drive.pDesc.lba_offset)) x.card
    rw [hlen] at hgood
    have hlba : x.lba + n.toUInt32 + x.drive.pDesc.lba_offset
        = x.lba + x.drive.pDesc.lba_offset + n.toUInt32 := by
      rw [UInt32.add_assoc, UInt32.add_comm n.toUInt32, ← UInt32.add_assoc]
    have hfailed : y.failed = false ↔ x.failed = false ∧
        ∀ j, j < n → x.card.fails (x.card.address (x.lba + x.drive.pDesc.lba_offset) + j) = false := by
      rw [hy, ← hgood]
      simp only [Bool.or_eq_false_iff, Bool.not_eq_false', Card_WriteM]
    refine ⟨h1, by rw [h2]; exact Nat.add_assoc _ _ _, ?_⟩
    have hrest : CardAccepts y.card (x.lba + n.toUInt32 + x.drive.pDesc.lba_offset) ns
        ↔ CardAccepts x.card (x.lba + n.toUInt32 + x.drive.pDesc.lba_offset) ns :=
      CardAccepts.congr hsdhc hfails
    rw [h3, hfailed, CardAccepts, ← hlba, ← hrest, and_assoc]

/-- Bursts on the card change only the blocks they address. -/
theorem foldl_card_frame (fifo : ℕ → UInt8) : ∀ (ns : List ℕ) {x : Xfer} {a : ℕ},
    x.drive.pDesc.format = .MMC → x.lba + x.drive.pDesc.lba_offset = UInt32.ofNat a →
    a + ns.sum ≤ x.card.limit → ∀ b, b < a ∨ a + ns.sum ≤ b →
      (ns.foldl (storeBlocks fifo) x).card.block b = x.card.block b
  | [], _, _, _, _, _, _, _ => rfl
  | n :: ns, x, a, hmmc, hlba, hlimit, b, hb => by
    rw [List.sum_cons] at hlimit hb
    rw [List.foldl_cons, storeBlocks_card hmmc, hlba]
    set bs := (List.range n).map fun k => fetch fifo (x.taken + k) with hbs
    have hlen : bs.length = n := by rw [hbs, List.length_map, List.length_range]
    obtain ⟨hsdhc, -, -, hframe⟩ := writeBlocks_frame bs (x.card.address (UInt32.ofNat a)) x.card
    set y : Xfer := { x with
      taken := x.taken + n, lba := x.lba + n.toUInt32
      card := (Card_WriteM x.card (UInt32.ofNat a) bs).1
      failed := x.failed || !(Card_WriteM x.card (UInt32.ofNat a) bs).2 } with hy
    have hnext : y.lba + y.drive.pDesc.lba_offset = UInt32.ofNat (a + n) := by
      show x.lba + n.toUInt32 + x.drive.pDesc.lba_offset = _
      rw [UInt32.add_assoc, UInt32.add_comm n.toUInt32, ← UInt32.add_assoc, hlba]
      exact (UInt32.ofNat_add a n).symm
    have hlimit' : y.card.limit = x.card.limit := by
      show Card.limit (writeBlocks bs _ x.card).1 = _
      rw [Card.limit, Card.limit, hsdhc]
    rw [foldl_card_frame fifo ns (x := y) hmmc hnext (by rw [hlimit']; omega) b (by omega)]
    show (writeBlocks bs _ x.card).1.block b = _
    by_cases h0 : n = 0
    · -- an empty burst
      have hnil : bs = [] := List.eq_nil_of_length_eq_zero (hlen.trans h0)
      rw [hnil, writeBlocks]
    · have haddr : x.card.address (UInt32.ofNat a) = a := Card.address_eq (by omega)
      exact hframe b (by rw [haddr, hlen]; omega)

/-! ### Bursts on a file -/

theorem length_bytesOf : ∀ bs : List Block, (bytesOf bs).length = 512 * bs.length
  | [] => rfl
  | b :: bs => by
    have hb : b.toList.length = 512 := Vector.length_toList
    rw [bytesOf, List.flatMap_cons, List.length_append, ← bytesOf, length_bytesOf bs, hb,
      List.length_cons]
    omega

theorem length_fetched (fifo : ℕ → UInt8) (taken n : ℕ) :
    (bytesOf ((List.range n).map fun k => fetch fifo (taken + k))).length = 512 * n := by
  rw [length_bytesOf, List.length_map, List.length_range]

/-- A burst on a file. -/
theorem storeBlocks_file {x : Xfer} (hmmc : x.drive.pDesc.format ≠ .MMC) (fifo : ℕ → UInt8) (n : ℕ) :
    storeBlocks fifo x n = { x with
      taken := x.taken + n, lba := x.lba + n.toUInt32
      drive := { x.drive with fSource := (FF_Write x.drive.fSource
        (bytesOf ((List.range n).map fun k => fetch fifo (x.taken + k)))).2 }
      failed := x.failed || (FF_Write x.drive.fSource
        (bytesOf ((List.range n).map fun k => fetch fifo (x.taken + k)))).1 ≠ 512 * n } := by
  rw [storeBlocks]
  simp only [if_neg hmmc]

/-- Bursts on a file leave the card alone. -/
theorem foldl_file_card (fifo : ℕ → UInt8) : ∀ (ns : List ℕ) {x : Xfer},
    x.drive.pDesc.format ≠ .MMC → (ns.foldl (storeBlocks fifo) x).card = x.card ∧
      (ns.foldl (storeBlocks fifo) x).taken = x.taken + ns.sum
  | [], _, _ => ⟨rfl, rfl⟩
  | n :: ns, x, hmmc => by
    rw [List.foldl_cons, storeBlocks_file hmmc, List.sum_cons, ← Nat.add_assoc]
    exact foldl_file_card fifo ns hmmc

/-- Bursts on a file that takes nothing: it stays, and all but empty ones fail. -/
theorem foldl_file_refused (fifo : ℕ → UInt8) : ∀ (ns : List ℕ) {x : Xfer},
    x.drive.pDesc.format ≠ .MMC → (x.drive.fSource.err = true ∨ x.drive.fSource.write = false) →
    (ns.foldl (storeBlocks fifo) x).drive = x.drive ∧
      ((ns.foldl (storeBlocks fifo) x).failed = false ↔ x.failed = false ∧ ns.sum = 0)
  | [], _, _, _ => ⟨rfl, ⟨fun h => ⟨h, rfl⟩, fun h => h.1⟩⟩
  | n :: ns, x, hmmc, hno => by
    rw [List.foldl_cons, storeBlocks_file hmmc, FF_Write_refused hno, List.sum_cons]
    obtain ⟨h1, h2⟩ := foldl_file_refused fifo ns (x := { x with
      taken := x.taken + n, lba := x.lba + n.toUInt32, drive := { x.drive with
        fSource := x.drive.fSource }
      failed := x.failed || (0 ≠ 512 * n) }) hmmc hno
    refine ⟨h1, h2.trans ?_⟩
    simp only [Bool.or_eq_false_iff, decide_eq_false_iff_not, ne_eq, not_not]
    refine ⟨fun ⟨⟨h, h'⟩, hsum⟩ => ⟨h, by omega⟩, fun ⟨h, h'⟩ => ⟨⟨h, by omega⟩, by omega⟩⟩

/-- Bursts on a file that is written to go on while the volume has room. -/
theorem foldl_file_room (fifo : ℕ → UInt8) : ∀ (ns : List ℕ) {x : Xfer},
    x.drive.pDesc.format ≠ .MMC → x.drive.fSource.err = false → x.drive.fSource.write = true →
    0 < x.drive.fSource.csize →
    ((ns.foldl (storeBlocks fifo) x).failed = false ↔ x.failed = false ∧
      512 * ns.sum ≤ x.drive.fSource.cap - x.drive.fSource.fptr)
  | [], _, _, _, _, _ => ⟨fun h => ⟨h, Nat.zero_le _⟩, fun h => h.1⟩
  | n :: ns, x, hmmc, herr, hwrite, hc => by
    rw [List.foldl_cons, storeBlocks_file hmmc, List.sum_cons]
    set bs := bytesOf ((List.range n).map fun k => fetch fifo (x.taken + k)) with hbs
    have hlen : bs.length = 512 * n := length_fetched fifo x.taken n
    obtain ⟨hcount, hsame, hfptr⟩ := @FF_Write_count x.drive.fSource bs herr hwrite hc
    obtain ⟨h1, h2, h3, h4, -⟩ := hsame
    set y : Xfer := { x with
      taken := x.taken + n, lba := x.lba + n.toUInt32
      drive := { x.drive with fSource := (FF_Write x.drive.fSource bs).2 }
      failed := x.failed || (FF_Write x.drive.fSource bs).1 ≠ 512 * n } with hy
    have ih := foldl_file_room fifo ns (x := y) hmmc (h1.trans herr) (h2.trans hwrite)
      (lt_of_lt_of_eq hc h4.symm)
    have hcap : y.drive.fSource.cap = x.drive.fSource.cap := h3
    have hpos : y.drive.fSource.fptr = x.drive.fSource.fptr + (FF_Write x.drive.fSource bs).1 := hfptr
    have hfailed : y.failed = false ↔ x.failed = false ∧ (FF_Write x.drive.fSource bs).1 = 512 * n := by
      rw [hy]
      simp only [Bool.or_eq_false_iff, decide_eq_false_iff_not, ne_eq, not_not]
    rw [ih, hfailed, hcap, hpos, and_assoc]
    refine and_congr_right fun _ => ?_
    omega

/-- A file that was written to from byte `p` on, and no further than it stands. -/
structure Written (fp₀ : FIL) (p : ℕ) (fp : FIL) : Prop where
  ok : fp.Ok
  err : fp.err = false
  write : fp.write = true
  csize : fp.csize = fp₀.csize
  size : fp.objsize = fp₀.objsize
  from_le : p ≤ fp.fptr
  bytes : ∀ i, i < p ∨ fp.fptr ≤ i → fp.data[i]? = fp₀.data[i]?

theorem Written.step {fp₀ fp : FIL} {p : ℕ} (h : Written fp₀ p fp) {bs : List UInt8}
    (hle : fp.fptr + bs.length ≤ fp.objsize) :
    Written fp₀ p (FF_Write fp bs).2 ∧ (FF_Write fp bs).2.fptr = fp.fptr + bs.length := by
  have hpos := h.ok.fptr_le
  have hok := FF_Write_ok h.ok bs
  rw [FF_Write_in h.ok h.err h.write hle] at hok ⊢
  have hfrom := h.from_le
  refine ⟨⟨hok, h.err, h.write, h.csize, ?_, hfrom.trans (Nat.le_add_right _ _), fun i hi => ?_⟩, rfl⟩
  · show (Splice.splice fp.data fp.fptr bs).length = _
    rw [Splice.length_splice_of_le hle]
    exact h.size
  · show (Splice.splice fp.data fp.fptr bs)[i]? = _
    have hi : i < p ∨ fp.fptr + bs.length ≤ i := hi
    rw [← h.bytes i (by omega)]
    rcases hi with hi | hi
    · exact Splice.getElem?_splice_lt bs hpos (by omega)
    · exact Splice.getElem?_splice_ge bs hpos hi

/-- Bursts that stay inside a file write to it where it stands. -/
theorem foldl_file_written (fifo : ℕ → UInt8) {fp₀ : FIL} {p : ℕ} : ∀ (ns : List ℕ) {x : Xfer},
    x.drive.pDesc.format ≠ .MMC → Written fp₀ p x.drive.fSource →
    x.drive.fSource.fptr + 512 * ns.sum ≤ fp₀.objsize →
    ∃ fp, (ns.foldl (storeBlocks fifo) x).drive = { x.drive with fSource := fp } ∧
      Written fp₀ p fp ∧ fp.fptr = x.drive.fSource.fptr + 512 * ns.sum
  | [], x, _, hw, _ => ⟨x.drive.fSource, rfl, hw, rfl⟩
  | n :: ns, x, hmmc, hw, hle => by
    rw [List.foldl_cons, storeBlocks_file hmmc, List.sum_cons]
    rw [List.sum_cons] at hle
    set bs := bytesOf ((List.range n).map fun k => fetch fifo (x.taken + k)) with hbs
    have hlen : bs.length = 512 * n := length_fetched fifo x.taken n
    obtain ⟨hw', hfptr⟩ := @Written.step _ _ _ hw bs (by rw [hw.size, hlen]; omega)
    set y : Xfer := { x with
      taken := x.taken + n, lba := x.lba + n.toUInt32
      drive := { x.drive with fSource := (FF_Write x.drive.fSource bs).2 }
      failed := x.failed || (FF_Write x.drive.fSource bs).1 ≠ 512 * n } with hy
    have hpos : y.drive.fSource.fptr = x.drive.fSource.fptr + 512 * n := hfptr.trans (by rw [hlen])
    obtain ⟨fp, h1, h2, h3⟩ := foldl_file_written fifo ns (x := y) hmmc hw' (by rw [hpos]; omega)
    refine ⟨fp, h1, h2, ?_⟩
    rw [h3, hpos]
    omega

/-! ### The command -/

/-- A write is refused before its first block: the unit is read only or protected, SET MULTIPLE has
    given no size, the made-up blocks or block 0 of the card are asked for, or the file is aborted
    and stands elsewhere. -/
def WriteRefused (d : Drive) (tfr : TaskFile) : Prop :=
  let lba := (getParams tfr d.pDesc).lba
  d.writable = false ∨ (tfr 7 = 0xC5 ∧ d.pDesc.sectors_per_block = 0) ∨
    (d.pDesc.format = .HDF_NAKED ∧ lba < d.pDesc.lba_offset) ∨
    (d.pDesc.format = .MMC ∧ d.pDesc.lba_offset = 0 ∧ lba = 0) ∨
    (d.pDesc.format ≠ .MMC ∧ Indexed d.pDesc lba ∧ d.fSource.err = true ∧
      (seekStart d (fileLba d.pDesc lba)).1.fptr ≠ 512 * (fileLba d.pDesc lba).toNat)

theorem fillIndex_same (step : ℕ) (s : FIL × (ℕ → Option ℕ)) (i : ℕ) :
    SameFile s.1 (fillIndex step s i).1 := by
  rw [fillIndex]
  split
  · exact SameFile.refl _
  · exact (FF_Seek_cases s.1 (i * step)).1

theorem foldl_fillIndex_same (step : ℕ) : ∀ (is : List ℕ) (s : FIL × (ℕ → Option ℕ)),
    SameFile s.1 (is.foldl (fillIndex step) s).1
  | [], _ => SameFile.refl _
  | i :: is, s => (fillIndex_same step s i).trans (foldl_fillIndex_same step is _)

/-- Whatever the index holds, it only moves the file. -/
theorem seekStart_same (d : Drive) (lba : UInt32) : SameFile d.fSource (seekStart d lba).1 := by
  have hmru : SameFile d.fSource (mruPosition d lba) := by
    rw [mruPosition]
    split
    · exact ⟨rfl, rfl, rfl, rfl, fun _ => rfl⟩
    · exact SameFile.refl _
  refine hmru.trans ?_
  rw [seekStart, reposition]
  split
  · rw [tableJump]
    simp only
    split
    · obtain ⟨h1, h2, h3, h4, h5⟩ := foldl_fillIndex_same (2 ^ d.pDesc.index_size.toNat)
        (List.range' (findStart d.pDesc.index (indexOf d.pDesc lba))
          (indexOf d.pDesc lba + 1 - findStart d.pDesc.index (indexOf d.pDesc lba)))
        (mruPosition d lba, d.pDesc.index)
      exact ⟨h1, h2, h3, h4, h5⟩
    · exact ⟨rfl, rfl, rfl, rfl, fun _ => rfl⟩
  · exact SameFile.refl _

/-- A seek with an entry in the index: where it goes and what it leaves. -/
theorem hardFileSeek_run {d : Drive} {lba : UInt32} (hmmc : d.pDesc.format ≠ .MMC)
    (hlow : ¬(d.pDesc.format = .HDF_NAKED ∧ lba < d.pDesc.lba_offset)) (hi : Indexed d.pDesc lba) :
    ∃ index mru_lba mru_cluster, hardFileSeek d lba
      = some (decide ((FF_Seek (seekStart d (fileLba d.pDesc lba)).1
          (512 * (fileLba d.pDesc lba).toNat)).1 = .ok), { d with
          fSource := (FF_Seek (seekStart d (fileLba d.pDesc lba)).1
            (512 * (fileLba d.pDesc lba).toNat)).2
          pDesc := { d.pDesc with
            index := index, mru_lba := mru_lba, mru_cluster := mru_cluster } }) := by
  obtain ⟨hidx, hstep⟩ := hi
  rw [hardFileSeek]
  simp only
  rw [if_neg hmmc, if_neg hlow, if_neg (by omega)]
  exact ⟨_, _, _, rfl⟩

/-- What a refused write leaves behind. -/
structure RefusedWrite (card : Card) (d : Drive) (done : Done) : Prop where
  error : EndsInError done.outs
  taken : done.taken = 0
  failed : done.failed = false
  card : done.card = card
  data : done.drive.fSource.data = d.fSource.data
  mounted : ∀ e, Mounted e d → Mounted e done.drive

/-- The bursts of a write, the seek having left `d'`. -/
def bursts (card : Card) (d d' : Drive) (tfr : TaskFile) (fifo : ℕ → UInt8) : Xfer :=
  let p := getParams tfr d.pDesc
  (storeSizes tfr d.pDesc p.sector_count.toNat).foldl (storeBlocks fifo)
    (startXfer card d' p [.stat statusReq])

/-- What a write that is not refused leaves behind. -/
structure RunWrite (card : Card) (d d' : Drive) (tfr : TaskFile) (fifo : ℕ → UInt8) (done : Done) :
    Prop where
  seek : hardFileSeek d (getParams tfr d.pDesc).lba = some (true, d')
  error : ¬EndsInError done.outs
  medium : done.card = (bursts card d d' tfr fifo).card ∧
    done.drive = (bursts card d d' tfr fifo).drive ∧
    done.taken = (bursts card d d' tfr fifo).taken ∧
    done.failed = (bursts card d d' tfr fifo).failed

/-- A loop that does the bursts and ends well makes a run. -/
theorem RunWrite.of_loop {card : Card} {d d' : Drive} {tfr : TaskFile} {fifo : ℕ → UInt8} {x : Xfer}
    (hseek : hardFileSeek d (getParams tfr d.pDesc).lba = some (true, d'))
    (hlast : x.outs.getLast? = some (release 0))
    (h : SameMedium x (bursts card d d' tfr fifo)) :
    ∃ done, x.done = some done ∧ RunWrite card d d' tfr fifo done :=
  ⟨_, rfl, hseek, not_endsInError hlast, h.card, h.drive, h.taken, h.failed⟩

theorem sum_storeSizes {tfr : TaskFile} {pDesc : Desc}
    (hspb : ¬(tfr 7 = 0xC5 ∧ pDesc.sectors_per_block = 0)) (n : ℕ) :
    (storeSizes tfr pDesc n).sum = n := by
  rw [storeSizes]
  split
  · next h =>
    exact sum_multipleSizes (Nat.pos_of_ne_zero fun hz => hspb ⟨h, UInt16.toNat_inj.mp hz⟩) (le_refl n)
  · rw [List.sum_replicate_nat, Nat.mul_one]

/-- A write after its checks. -/
theorem ataCommand_write {card : Card} {d : Drive} {tfr : TaskFile} {fifo : ℕ → UInt8}
    (hcmd : tfr 7 = 0x30 ∨ tfr 7 = 0xC5) (hw : d.writable = true)
    (hspb : ¬(tfr 7 = 0xC5 ∧ d.pDesc.sectors_per_block = 0)) :
    ataCommand card d tfr fifo = writeTransfer card d tfr (if tfr 7 = 0xC5 then
      fun n => writeMultipleLoop tfr fifo n n else writeSectorsLoop tfr fifo) := by
  have hw' : ¬(!d.writable) = true := by rw [hw]; decide
  rcases hcmd with hc | hc
  · rw [ataCommand_writeSectors hc, writeSectors, if_neg hw', if_neg (by rw [hc]; decide)]
  · rw [ataCommand_writeMultiple hc, writeMultiple, if_neg hw', if_neg fun h0 => hspb ⟨hc, h0⟩,
      if_pos hc]

theorem refuse_refused {card : Card} {d d' : Drive} (tfr : TaskFile) (outs : List FChOut)
    (h : d'.fSource.data = d.fSource.data) (hm : ∀ e, Mounted e d → Mounted e d') :
    ∃ done, refuse card d' tfr outs = some done ∧ RefusedWrite card d done :=
  ⟨_, rfl, abort_endsInError tfr outs, rfl, rfl, rfl, h, hm⟩

/-- A refused write answers with an error and stores nothing. -/
theorem ataWrite_refused (card : Card) (fifo : ℕ → UInt8) {d : Drive} {tfr : TaskFile}
    (hcmd : tfr 7 = 0x30 ∨ tfr 7 = 0xC5) (h : WriteRefused d tfr) :
    ∃ done, ataCommand card d tfr fifo = some done ∧ RefusedWrite card d done := by
  by_cases hw : d.writable = true
  · by_cases hspb : tfr 7 = 0xC5 ∧ d.pDesc.sectors_per_block = 0
    · rw [ataCommand_writeMultiple hspb.1, writeMultiple, hw, if_neg (by decide), if_pos hspb.2]
      exact refuse_refused tfr _ rfl fun _ h => h
    · rw [ataCommand_write hcmd hw hspb, writeTransfer]
      rcases h with h | h | ⟨hnaked, hlow⟩ | ⟨hmmc, hoff, hlba⟩ | ⟨hmmc, hi, herr, hpos⟩
      · rw [hw] at h
        exact Bool.noConfusion h
      · exact absurd h hspb
      · -- the made-up blocks
        have hseek : hardFileSeek d (getParams tfr d.pDesc).lba = some (false, d) := by
          rw [hardFileSeek]
          simp only
          rw [if_neg (by rw [hnaked]; decide), if_pos ⟨hnaked, hlow⟩]
        rw [hseek]
        exact refuse_refused tfr _ rfl fun _ h => h
      · -- block 0 of the card
        have hseek : hardFileSeek d (getParams tfr d.pDesc).lba = some (true, d) := by
          rw [hardFileSeek]
          simp only
          rw [if_pos hmmc]
        rw [hseek]
        simp only
        rw [if_pos ⟨hlba, hmmc, hoff⟩]
        exact refuse_refused tfr _ rfl fun _ h => h
      · -- an aborted file that stands elsewhere
        by_cases hlow : d.pDesc.format = .HDF_NAKED ∧ (getParams tfr d.pDesc).lba < d.pDesc.lba_offset
        · have hseek : hardFileSeek d (getParams tfr d.pDesc).lba = some (false, d) := by
            rw [hardFileSeek]
            simp only
            rw [if_neg hmmc, if_pos hlow]
          rw [hseek]
          exact refuse_refused tfr _ rfl fun _ h => h
        · obtain ⟨index, mru_lba, mru_cluster, hseek⟩ := hardFileSeek_run hmmc hlow hi
          have hsame := seekStart_same d (fileLba d.pDesc (getParams tfr d.pDesc).lba)
          obtain ⟨hsame', hok, -⟩ := FF_Seek_cases
            (seekStart d (fileLba d.pDesc (getParams tfr d.pDesc).lba)).1
            (512 * (fileLba d.pDesc (getParams tfr d.pDesc).lba).toNat)
          have herr' := hsame.err.trans herr
          have hfail : decide ((FF_Seek (seekStart d (fileLba d.pDesc (getParams tfr d.pDesc).lba)).1
              (512 * (fileLba d.pDesc (getParams tfr d.pDesc).lba).toNat)).1 = .ok) = false := by
            refine decide_eq_false fun hseekok => ?_
            rcases hok.mp hseekok with h0 | h0
            · rw [herr'] at h0
              exact Bool.noConfusion h0
            · exact hpos h0
          rw [hfail] at hseek
          rw [hseek]
          refine refuse_refused tfr _ ((hsame'.data herr').trans (hsame.data herr)) fun e hm => ?_
          cases e with
          | file => exact ⟨hmmc, hm.2.1, hm.2.2.1, fun he => absurd ((hsame'.err.trans herr').symm.trans he)
              (by decide)⟩
          | partition _ _ => exact absurd hm.1 hmmc
          | wholeCard => exact absurd hm.1 hmmc
  · rcases hcmd with hc | hc
    · rw [ataCommand_writeSectors hc, writeSectors, Bool.eq_false_of_not_eq_true hw,
        if_pos (by decide)]
      exact refuse_refused tfr _ rfl fun _ h => h
    · rw [ataCommand_writeMultiple hc, writeMultiple, Bool.eq_false_of_not_eq_true hw,
        if_pos (by decide)]
      exact refuse_refused tfr _ rfl fun _ h => h

/-- A write that is not refused seeks well, or goes astray without an entry in the index. -/
theorem ataWrite_runs (card : Card) (fifo : ℕ → UInt8) {d : Drive} {tfr : TaskFile}
    (hcmd : tfr 7 = 0x30 ∨ tfr 7 = 0xC5) (h : ¬WriteRefused d tfr) :
    if d.pDesc.format = .MMC ∨ Indexed d.pDesc (getParams tfr d.pDesc).lba then
      ∃ d' done, ataCommand card d tfr fifo = some done ∧ RunWrite card d d' tfr fifo done
    else ataCommand card d tfr fifo = none := by
  simp only [WriteRefused, not_or] at h
  obtain ⟨hw, hspb, hlow, hguard, habort⟩ := h
  have hw : d.writable = true := Bool.eq_true_of_not_eq_false hw
  rw [ataCommand_write hcmd hw hspb, writeTransfer]
  have hn := (getParams_count tfr d.pDesc).1
  -- once the seek has gone well, the loop runs
  have hrun : ∀ d' : Drive, d'.pDesc.sectors_per_block = d.pDesc.sectors_per_block →
      hardFileSeek d (getParams tfr d.pDesc).lba = some (true, d') →
      ∃ done, ((if tfr 7 = 0xC5 then fun n => writeMultipleLoop tfr fifo n n
        else writeSectorsLoop tfr fifo) (getParams tfr d.pDesc).sector_count.toNat
          (startXfer card d' (getParams tfr d.pDesc) [.stat statusReq])).done = some done ∧
        RunWrite card d d' tfr fifo done := by
    intro d' hd' hseek
    rcases hcmd with hc | hc
    · rw [if_neg (by rw [hc]; decide)]
      refine RunWrite.of_loop hseek (writeSectorsLoop_last tfr fifo hn _) ?_
      rw [bursts, storeSizes, if_neg (by rw [hc]; decide)]
      exact writeSectorsLoop_medium tfr fifo _ _
    · rw [if_pos hc]
      have hspb' : d'.pDesc.sectors_per_block ≠ 0 := by
        rw [hd']
        exact fun h0 => hspb ⟨hc, h0⟩
      refine RunWrite.of_loop hseek (writeMultipleLoop_last tfr fifo hn (le_refl _) _ hspb') ?_
      have hmedium := writeMultipleLoop_medium tfr fifo (getParams tfr d.pDesc).sector_count.toNat
        (getParams tfr d.pDesc).sector_count.toNat
        (startXfer card d' (getParams tfr d.pDesc) [.stat statusReq])
      rw [bursts, storeSizes, if_pos hc, ← hd']
      exact hmedium
  by_cases hmmc : d.pDesc.format = .MMC
  · have hseek : hardFileSeek d (getParams tfr d.pDesc).lba = some (true, d) := by
      rw [hardFileSeek]
      simp only
      rw [if_pos hmmc]
    obtain ⟨done, hdone, hr⟩ := hrun d rfl hseek
    rw [if_pos (Or.inl hmmc), hseek]
    simp only
    rw [if_neg fun hg => hguard ⟨hg.2.1, hg.2.2, hg.1⟩]
    exact ⟨d, done, hdone, hr⟩
  · by_cases hi : Indexed d.pDesc (getParams tfr d.pDesc).lba
    · obtain ⟨index, mru_lba, mru_cluster, hseek⟩ := hardFileSeek_run hmmc hlow hi
      have hok : decide ((FF_Seek (seekStart d (fileLba d.pDesc (getParams tfr d.pDesc).lba)).1
          (512 * (fileLba d.pDesc (getParams tfr d.pDesc).lba).toNat)).1 = .ok) = true := by
        refine decide_eq_true ((FF_Seek_cases _ _).2.1.mpr ?_)
        have herr := (seekStart_same d (fileLba d.pDesc (getParams tfr d.pDesc).lba)).err
        by_cases hpos : (seekStart d (fileLba d.pDesc (getParams tfr d.pDesc).lba)).1.fptr
            = 512 * (fileLba d.pDesc (getParams tfr d.pDesc).lba).toNat
        · exact Or.inr hpos
        · refine Or.inl (herr.trans (Bool.eq_false_of_not_eq_true fun he => ?_))
          exact habort ⟨hmmc, hi, he, hpos⟩
      rw [hok] at hseek
      obtain ⟨done, hdone, hr⟩ := hrun _ (by rfl) hseek
      rw [if_pos (Or.inr hi), hseek]
      simp only
      rw [if_neg fun hg => hmmc hg.2.1]
      exact ⟨_, done, hdone, hr⟩
    · have hseek : hardFileSeek d (getParams tfr d.pDesc).lba = none := by
        rw [hardFileSeek]
        simp only
        rw [if_neg hmmc, if_neg hlow, if_pos]
        rw [Indexed, not_and_or] at hi
        omega
      rw [if_neg (not_or.mpr ⟨hmmc, hi⟩), hseek]

end FileIO.Drv08
