import ReplayFirmware.Drv08.Confine
import ReplayFirmware.Lib.Store

/-! The units of a channel as disks.

    A unit shows its core one block after the other, wherever they lie. On a medium that can be read and
    written, a read command sends the blocks of the disk, a write command that is not refused puts those
    of the FIFO in their place, and no other command touches them; so a run of commands leaves in every
    unit what its reads and writes leave in a store of blocks, and delivers what they deliver. -/

namespace FileIO.Drv08
open FatFs

/-! ### What bursts store -/

theorem writeBlocks_block : ∀ (bs : List Block) (a : ℕ) (card : Card),
    (∀ j, j < bs.length → card.fails (a + j) = false) → ∀ j (hj : j < bs.length),
      (writeBlocks bs a card).1.block (a + j) = bs[j]
  | [], _, _, _, j, hj => absurd hj (Nat.not_lt_zero j)
  | b :: bs, a, card, hgood, j, hj => by
    have h0 : ¬card.fails a = true := by
      rw [show card.fails a = false from hgood 0 (Nat.succ_pos _)]
      decide
    rw [writeBlocks, if_neg h0]
    cases j with
    | zero =>
      have hframe := (writeBlocks_frame bs (a + 1) { card with block := Function.update card.block a b }).2.2.2
        a (Or.inl (Nat.lt_succ_self a))
      exact hframe.trans (Function.update_self ..)
    | succ j =>
      have hrest := writeBlocks_block bs (a + 1) { card with block := Function.update card.block a b }
        (fun j hj => by
          show card.fails (a + 1 + j) = false
          rw [Nat.add_right_comm, Nat.add_assoc]
          exact hgood (j + 1) (Nat.succ_lt_succ hj)) j (Nat.lt_of_succ_lt_succ hj)
      rw [Nat.add_right_comm, Nat.add_assoc] at hrest
      exact hrest

/-- Bursts on good blocks of the card leave the blocks of the FIFO there, in order. -/
theorem foldl_card_stored (fifo : ℕ → UInt8) : ∀ (ns : List ℕ) {x : Xfer} {a : ℕ},
    x.drive.pDesc.format = .MMC → x.lba + x.drive.pDesc.lba_offset = UInt32.ofNat a →
    a + ns.sum ≤ x.card.limit → (∀ k, k < ns.sum → x.card.fails (a + k) = false) → ∀ k, k < ns.sum →
      (ns.foldl (storeBlocks fifo) x).card.block (a + k) = fetch fifo (x.taken + k)
  | [], _, _, _, _, _, _, k, hk => absurd hk (Nat.not_lt_zero k)
  | n :: ns, x, a, hmmc, hlba, hlimit, hgood, k, hk => by
    rw [List.sum_cons] at hlimit hk
    rw [List.foldl_cons, storeBlocks_card hmmc, hlba]
    set bs := (List.range n).map fun k => fetch fifo (x.taken + k) with hbs
    have hlen : bs.length = n := by rw [hbs, List.length_map, List.length_range]
    obtain ⟨hsdhc, -, hfails, -⟩ := writeBlocks_frame bs (x.card.address (UInt32.ofNat a)) x.card
    set y : Xfer := { x with
      taken := x.taken + n, lba := x.lba + n.toUInt32
      card := (Card_WriteM x.card (UInt32.ofNat a) bs).1
      failed := x.failed || !(Card_WriteM x.card (UInt32.ofNat a) bs).2 } with hy
    have hnext : y.lba + y.drive.pDesc.lba_offset = UInt32.ofNat (a + n) := by
      show x.lba + n.toUInt32 + x.drive.pDesc.lba_offset = _
      rw [UInt32.add_assoc, UInt32.add_comm n.toUInt32, ← UInt32.add_assoc, hlba]
      exact (UInt32.ofNat_add a n).symm
    have hlimit' : y.card.limit = x.card.limit := by
      show Card.limit (writeBlocks bs _ x.card).1 = _
      rw [Card.limit, Card.limit, hsdhc]
    have hfails' : y.card.fails = x.card.fails := hfails
    by_cases hin : k < n
    · -- a block of this burst, which the later ones leave alone
      rw [foldl_card_frame fifo ns (x := y) hmmc hnext (by rw [hlimit']; omega) (a + k) (Or.inl (by omega))]
      have haddr : x.card.address (UInt32.ofNat a) = a := Card.address_eq (by omega)
      have hblock := writeBlocks_block bs a x.card (fun j hj => hgood j (by rw [List.sum_cons]; omega)) k
        (by omega)
      show (writeBlocks bs _ x.card).1.block (a + k) = _
      rw [haddr, hblock]
      simp only [hbs, List.getElem_map, List.getElem_range]
    · obtain ⟨j, rfl⟩ := Nat.exists_eq_add_of_le (Nat.le_of_not_lt hin)
      have hrest := foldl_card_stored fifo ns (x := y) hmmc hnext (by rw [hlimit']; omega)
        (fun j hj => by
          rw [hfails', Nat.add_assoc]
          exact hgood (n + j) (by rw [List.sum_cons]; omega)) j (by omega)
      rw [← Nat.add_assoc, hrest, ← Nat.add_assoc]

/-- They leave its kind alone, and which of its blocks fail. -/
theorem foldl_card_kept (fifo : ℕ → UInt8) : ∀ (ns : List ℕ) {x : Xfer}, x.drive.pDesc.format = .MMC →
    (ns.foldl (storeBlocks fifo) x).card.sdhc = x.card.sdhc ∧
      (ns.foldl (storeBlocks fifo) x).card.fails = x.card.fails
  | [], _, _ => ⟨rfl, rfl⟩
  | n :: ns, x, hmmc => by
    rw [List.foldl_cons, storeBlocks_card hmmc]
    obtain ⟨hsdhc, -, hfails, -⟩ := writeBlocks_frame ((List.range n).map fun k => fetch fifo (x.taken + k))
      (x.card.address (x.lba + x.drive.pDesc.lba_offset)) x.card
    obtain ⟨h1, h2⟩ := foldl_card_kept fifo ns (x := { x with
      taken := x.taken + n, lba := x.lba + n.toUInt32
      card := (Card_WriteM x.card (x.lba + x.drive.pDesc.lba_offset)
        ((List.range n).map fun k => fetch fifo (x.taken + k))).1
      failed := x.failed || !(Card_WriteM x.card (x.lba + x.drive.pDesc.lba_offset)
        ((List.range n).map fun k => fetch fifo (x.taken + k))).2 }) hmmc
    exact ⟨h1.trans hsdhc, h2.trans hfails⟩

theorem bytesOf_append (as bs : List Block) : bytesOf (as ++ bs) = bytesOf as ++ bytesOf bs :=
  List.flatMap_append

/-- The next `n` blocks of the FIFO. -/
def fetched (fifo : ℕ → UInt8) (taken n : ℕ) : List Block :=
  (List.range n).map fun k => fetch fifo (taken + k)

theorem fetched_add (fifo : ℕ → UInt8) (taken m n : ℕ) :
    fetched fifo taken (m + n) = fetched fifo taken m ++ fetched fifo (taken + m) n := by
  rw [fetched, List.range_add, List.map_append, List.map_map]
  refine congrArg _ (List.map_congr_left fun k _ => ?_)
  rw [Nat.add_assoc]
  rfl

/-- A file that had bytes put over those at its position, and stands behind them. -/
def stored (fp : FIL) (clust : ℕ) (bs : List UInt8) : FIL :=
  { moveTo fp (fp.fptr + bs.length) clust with data := Splice.splice fp.data fp.fptr bs }

theorem stored_stored {fp : FIL} (hle : fp.fptr ≤ fp.objsize) (c c' : ℕ) (as bs : List UInt8) :
    stored (stored fp c as) c' bs = stored fp c' (as ++ bs) := by
  rw [stored, stored, stored, List.length_append, ← Nat.add_assoc, ← Splice.splice_splice as bs hle]
  rfl

/-- Bursts inside a file put the blocks of the FIFO there, in order. -/
theorem foldl_file_stored (fifo : ℕ → UInt8) : ∀ (ns : List ℕ) {x : Xfer},
    x.drive.pDesc.format ≠ .MMC → x.drive.fSource.Ok → x.drive.fSource.err = false →
    x.drive.fSource.write = true → x.drive.fSource.fptr + 512 * ns.sum ≤ x.drive.fSource.objsize →
    ∃ c, (ns.foldl (storeBlocks fifo) x).drive
        = { x.drive with fSource := stored x.drive.fSource c (bytesOf (fetched fifo x.taken ns.sum)) } ∧
      (stored x.drive.fSource c (bytesOf (fetched fifo x.taken ns.sum))).Ok
  | [], x, _, hok, _, _, _ => by
    refine ⟨x.drive.fSource.clust, ?_⟩
    have hnil : stored x.drive.fSource x.drive.fSource.clust (bytesOf (fetched fifo x.taken [].sum))
        = x.drive.fSource := by
      rw [stored, List.sum_nil, show bytesOf (fetched fifo x.taken 0) = [] from rfl, Splice.splice_nil]
      rfl
    rw [hnil]
    exact ⟨rfl, hok⟩
  | n :: ns, x, hmmc, hok, herr, hw, hle => by
    rw [List.sum_cons] at hle ⊢
    rw [List.foldl_cons, storeBlocks_file hmmc]
    have hlen : (bytesOf (fetched fifo x.taken n)).length = 512 * n := length_fetched fifo x.taken n
    have hin : x.drive.fSource.fptr + (bytesOf (fetched fifo x.taken n)).length ≤ x.drive.fSource.objsize := by
      omega
    obtain ⟨c₀, heq⟩ : ∃ c₀, (FF_Write x.drive.fSource (bytesOf (fetched fifo x.taken n))).2
        = stored x.drive.fSource c₀ (bytesOf (fetched fifo x.taken n)) := ⟨_, FF_Write_in hok herr hw hin⟩
    have hok' := FF_Write_ok hok (bytesOf (fetched fifo x.taken n))
    rw [heq] at hok'
    rw [show (List.range n).map (fun k => fetch fifo (x.taken + k)) = fetched fifo x.taken n from rfl, heq]
    have hsize : (stored x.drive.fSource c₀ (bytesOf (fetched fifo x.taken n))).objsize
        = x.drive.fSource.objsize := Splice.length_splice_of_le hin
    obtain ⟨c, hrest, hrest'⟩ := foldl_file_stored fifo ns (x := { x with
      taken := x.taken + n, lba := x.lba + n.toUInt32
      drive := { x.drive with fSource := stored x.drive.fSource c₀ (bytesOf (fetched fifo x.taken n)) }
      failed := x.failed || (FF_Write x.drive.fSource (bytesOf (fetched fifo x.taken n))).1 ≠ 512 * n })
      hmmc hok' herr hw (by
        show x.drive.fSource.fptr + (bytesOf (fetched fifo x.taken n)).length + 512 * ns.sum
          ≤ (stored x.drive.fSource c₀ (bytesOf (fetched fifo x.taken n))).objsize
        rw [hsize, hlen]
        omega)
    simp only [stored_stored hok.fptr_le, ← bytesOf_append, ← fetched_add] at hrest hrest'
    exact ⟨c, hrest, hrest'⟩

/-! ### The disk of a unit -/

/-- The blocks a unit shows. -/
def diskBlocks (card : Card) (d : Drive) : List (List UInt8) :=
  (List.range (diskSize d.pDesc)).map (virtualBlock card d)

/-- What a command leaves of a unit: all but the position of its file, what is remembered, the bytes of the
    file, and the size that SET MULTIPLE gives. -/
structure SameUnit (d d' : Drive) : Prop where
  status : d'.status = d.status
  format : d'.pDesc.format = d.pDesc.format
  file_size : d'.pDesc.file_size = d.pDesc.file_size
  heads : d'.pDesc.heads = d.pDesc.heads
  sectors : d'.pDesc.sectors = d.pDesc.sectors
  lba_offset : d'.pDesc.lba_offset = d.pDesc.lba_offset
  index_size : d'.pDesc.index_size = d.pDesc.index_size
  hdf_rdb : d'.pDesc.hdf_rdb = d.pDesc.hdf_rdb
  write : d'.fSource.write = d.fSource.write
  err : d'.fSource.err = d.fSource.err
  readable : d'.fSource.readable = d.fSource.readable

theorem SameUnit.refl (d : Drive) : SameUnit d d := ⟨rfl, rfl, rfl, rfl, rfl, rfl, rfl, rfl, rfl, rfl, rfl⟩

theorem SameUnit.trans {d d' d'' : Drive} (h : SameUnit d d') (h' : SameUnit d' d'') : SameUnit d d'' where
  status := h'.status.trans h.status
  format := h'.format.trans h.format
  file_size := h'.file_size.trans h.file_size
  heads := h'.heads.trans h.heads
  sectors := h'.sectors.trans h.sectors
  lba_offset := h'.lba_offset.trans h.lba_offset
  index_size := h'.index_size.trans h.index_size
  hdf_rdb := h'.hdf_rdb.trans h.hdf_rdb
  write := h'.write.trans h.write
  err := h'.err.trans h.err
  readable := h'.readable.trans h.readable

theorem SameUnit.diskSize {d d' : Drive} (h : SameUnit d d') :
    Drv08.diskSize d'.pDesc = Drv08.diskSize d.pDesc := by
  rw [Drv08.diskSize, Drv08.diskSize, Desc.imageSize, Desc.imageSize, h.format, h.file_size, h.lba_offset]

theorem SameUnit.getParams {d d' : Drive} (h : SameUnit d d') (tfr : TaskFile) :
    Drv08.getParams tfr d'.pDesc = Drv08.getParams tfr d.pDesc := by
  rw [Drv08.getParams, Drv08.getParams, h.heads, h.sectors]

theorem SameUnit.fileLba {d d' : Drive} (h : SameUnit d d') (lba : UInt32) :
    Drv08.fileLba d'.pDesc lba = Drv08.fileLba d.pDesc lba := by
  rw [Drv08.fileLba, Drv08.fileLba, h.format, h.lba_offset]

theorem SameUnit.indexed {d d' : Drive} (h : SameUnit d d') (lba : UInt32) :
    Indexed d'.pDesc lba ↔ Indexed d.pDesc lba := by
  rw [Indexed, Indexed, indexOf, indexOf, h.fileLba, h.index_size]

theorem SameUnit.writable {d d' : Drive} (h : SameUnit d d') : d'.writable = d.writable := by
  rw [Fch.writable, Fch.writable, h.status]

/-- What a seek has changed does not show. -/
theorem sought_same (d : Drive) (p c : ℕ) (index : ℕ → Option ℕ) (mru_lba : UInt32) (mru_cluster : ℕ) :
    SameUnit d (sought d p c index mru_lba mru_cluster) :=
  ⟨rfl, rfl, rfl, rfl, rfl, rfl, rfl, rfl, rfl, rfl, rfl⟩

/-- A block of an image, behind what is made up in front of it. -/
theorem virtualBlock_file (card : Card) {d : Drive} (hmmc : d.pDesc.format ≠ .MMC)
    (hoff : d.pDesc.format ≠ .HDF_NAKED → d.pDesc.lba_offset = 0) {b : ℕ}
    (hb : d.pDesc.lba_offset.toNat ≤ b) :
    virtualBlock card d b = fileSector d (b - d.pDesc.lba_offset.toNat) := by
  unfold virtualBlock
  simp only
  split
  · next hf => exact absurd hf hmmc
  · rw [if_neg (by omega)]
  · next _ hn =>
    have h0 : d.pDesc.lba_offset.toNat = 0 := by
      rw [hoff hn]
      rfl
    rw [h0, Nat.sub_zero]

/-- What is made up does not come from the file. -/
theorem virtualBlock_made (card card' : Card) {d d' : Drive} (h : SameUnit d d')
    (hoff : d.pDesc.format ≠ .HDF_NAKED → d.pDesc.lba_offset = 0) {b : ℕ}
    (hb : b < d.pDesc.lba_offset.toNat) : virtualBlock card' d' b = virtualBlock card d b := by
  have hnaked : d.pDesc.format = .HDF_NAKED := by
    by_contra hne
    rw [hoff hne] at hb
    exact absurd hb (Nat.not_lt_zero b)
  unfold virtualBlock
  simp only [h.format, h.lba_offset, h.hdf_rdb, hnaked, if_pos hb]

/-- Units on files show what their files hold. -/
theorem diskBlocks_file (card card' : Card) {d d' : Drive} (h : SameUnit d d')
    (hmmc : d.pDesc.format ≠ .MMC) (hdata : d'.fSource.data = d.fSource.data) :
    diskBlocks card' d' = diskBlocks card d := by
  rw [diskBlocks, diskBlocks, h.diskSize]
  refine List.map_congr_left fun b _ => ?_
  unfold virtualBlock
  simp only [h.format, h.lba_offset, h.hdf_rdb, fileSector, hdata]
  split
  · next hf => exact absurd hf hmmc
  · rfl
  · rfl

/-- Units on the card show the blocks of their own. -/
theorem diskBlocks_card {card card' : Card} {d d' : Drive} (h : SameUnit d d')
    (hmmc : d.pDesc.format = .MMC)
    (hblock : ∀ b, b < diskSize d.pDesc → card'.block (b + d.pDesc.lba_offset.toNat)
      = card.block (b + d.pDesc.lba_offset.toNat)) : diskBlocks card' d' = diskBlocks card d := by
  rw [diskBlocks, diskBlocks, h.diskSize]
  refine List.map_congr_left fun b hb => ?_
  have heq := hblock b (List.mem_range.mp hb)
  unfold virtualBlock
  simp only [h.format, h.lba_offset, hmmc, heq]

/-- Sector `k` of the FIFO, behind the bytes of the ones before. -/
theorem bytesOf_fetched (fifo : ℕ → UInt8) (n : ℕ) {k : ℕ} (hk : k < n) :
    ((bytesOf (fetched fifo 0 n)).drop (512 * k)).take 512 = (fetch fifo k).toList := by
  have hbytes : bytesOf (fetched fifo 0 n) = (List.range n).flatMap fun k => (fetch fifo k).toList := by
    rw [bytesOf, fetched, List.flatMap_map]
    simp only [Nat.zero_add]
  rw [hbytes]
  exact Chunks.chunk_flatMap_range (fun _ _ => Vector.length_toList) hk

/-- The blocks a write brings. -/
def brought (fifo : ℕ → UInt8) (n : ℕ) : List (List UInt8) :=
  (List.range n).map fun k => (fetch fifo k).toList

/-- A file that had blocks put over those of an image shows them. -/
theorem diskBlocks_stored {card card' : Card} {d d' : Drive} {fifo : ℕ → UInt8} {lba n : ℕ}
    (h : SameUnit d d') (hmmc : d.pDesc.format ≠ .MMC)
    (hoff : d.pDesc.format ≠ .HDF_NAKED → d.pDesc.lba_offset = 0)
    (hlow : d.pDesc.lba_offset.toNat ≤ lba) (hin : lba + n ≤ diskSize d.pDesc)
    (hsize : 512 * (lba - d.pDesc.lba_offset.toNat + n) ≤ d.fSource.data.length)
    (hdata : d'.fSource.data = Splice.splice d.fSource.data (512 * (lba - d.pDesc.lba_offset.toNat))
      (bytesOf (fetched fifo 0 n))) :
    diskBlocks card' d' = Splice.splice (diskBlocks card d) lba (brought fifo n) := by
  have hlen : (bytesOf (fetched fifo 0 n)).length = 512 * n := length_fetched fifo 0 n
  have hmmc' : d'.pDesc.format ≠ .MMC := by rw [h.format]; exact hmmc
  have hoff' : d'.pDesc.format ≠ .HDF_NAKED → d'.pDesc.lba_offset = 0 := by
    rw [h.format, h.lba_offset]
    exact hoff
  rw [diskBlocks, h.diskSize]
  refine (Splice.splice_map_range hin (fun k hk => ?_) fun b _ hb => ?_).symm
  · rw [virtualBlock_file card' hmmc' hoff' (by rw [h.lba_offset]; omega), h.lba_offset, fileSector, hdata,
      show 512 * (lba + k - d.pDesc.lba_offset.toNat)
        = 512 * (lba - d.pDesc.lba_offset.toNat) + 512 * k by omega,
      Splice.take_drop_splice_mid (by omega) (by rw [hlen]; omega), bytesOf_fetched fifo n hk]
  · by_cases hmade : b < d.pDesc.lba_offset.toNat
    · exact virtualBlock_made card card' h hoff hmade
    · rw [virtualBlock_file card' hmmc' hoff' (by rw [h.lba_offset]; omega),
        virtualBlock_file card hmmc hoff (by omega), h.lba_offset, fileSector, fileSector, hdata]
      rcases hb with hb | hb
      · exact Splice.take_drop_splice_lt _ (by omega) (by omega)
      · exact Splice.take_drop_splice_ge (by omega) (by rw [hlen]; omega) 512

/-- A card that had blocks put over those of a unit shows them. -/
theorem diskBlocks_written {card card' : Card} {d : Drive} {fifo : ℕ → UInt8} {lba n : ℕ}
    (hmmc : d.pDesc.format = .MMC) (hin : lba + n ≤ diskSize d.pDesc)
    (hmid : ∀ k, k < n → card'.block (lba + d.pDesc.lba_offset.toNat + k) = fetch fifo k)
    (hrest : ∀ b, b < lba + d.pDesc.lba_offset.toNat ∨ lba + d.pDesc.lba_offset.toNat + n ≤ b →
      card'.block b = card.block b) :
    diskBlocks card' d = Splice.splice (diskBlocks card d) lba (brought fifo n) := by
  have hblock : ∀ (card : Card) (b : ℕ),
      virtualBlock card d b = (card.block (b + d.pDesc.lba_offset.toNat)).toList := by
    intro card b
    unfold virtualBlock
    simp only [hmmc]
  rw [diskBlocks]
  refine (Splice.splice_map_range hin (fun k hk => ?_) fun b _ hb => ?_).symm
  · rw [hblock, Nat.add_right_comm, hmid k hk]
  · rw [hblock, hblock, hrest (b + d.pDesc.lba_offset.toNat) (by omega)]

/-! ### Write commands -/

/-- A write that runs inside an image. -/
theorem RunWrite.shows_file {card : Card} {d d' : Drive} {tfr : TaskFile} {fifo : ℕ → UInt8} {done : Done}
    (h : RunWrite card d d' tfr fifo done) (hm : Mounted .file d) (herr : d.fSource.err = false)
    (hw : d.fSource.write = true) (hspb : ¬(tfr 7 = 0xC5 ∧ d.pDesc.sectors_per_block = 0))
    (hlow : d.pDesc.lba_offset.toNat ≤ (getParams tfr d.pDesc).lba.toNat)
    (hin : (getParams tfr d.pDesc).lba.toNat + (getParams tfr d.pDesc).sector_count.toNat
      ≤ diskSize d.pDesc)
    (hi : Indexed d.pDesc (getParams tfr d.pDesc).lba) :
    done.card = card ∧ SameUnit d done.drive ∧
      done.drive.pDesc.sectors_per_block = d.pDesc.sectors_per_block ∧ diskBlocks card done.drive
      = Splice.splice (diskBlocks card d) (getParams tfr d.pDesc).lba.toNat
        (brought fifo (getParams tfr d.pDesc).sector_count.toNat) := by
  have hmmc : d.pDesc.format ≠ .MMC := hm.1
  have hlba := fileLba_toNat hm hlow
  have hn := (getParams_count tfr d.pDesc).1
  have hnaked : ¬(d.pDesc.format = .HDF_NAKED ∧ (getParams tfr d.pDesc).lba < d.pDesc.lba_offset) :=
    fun hf => absurd (UInt32.lt_iff_toNat_lt.mp hf.2) (by omega)
  have hsum := sum_storeSizes hspb (getParams tfr d.pDesc).sector_count.toNat
  have hseekable := hm.2.2.2 herr
  have hdisk : 512 * ((getParams tfr d.pDesc).lba.toNat - d.pDesc.lba_offset.toNat
      + (getParams tfr d.pDesc).sector_count.toNat) ≤ d.pDesc.imageSize := by
    have hle : diskSize d.pDesc ≤ d.pDesc.lba_offset.toNat + d.pDesc.imageSize / 512 := by
      rw [diskSize]
      split
      · next hf => exact absurd hf hmmc
      · exact le_refl _
      · exact Nat.le_add_left _ _
    omega
  have hsize := hseekable.size
  have hseek := h.seek
  obtain ⟨hcard, hdrive, -, -⟩ := h.medium
  obtain ⟨c, index, mru_lba, mru_cluster, hrun, hs⟩ :=
    hardFileSeek_eq hseekable hmmc hnaked (Or.inr (by omega)) hi
  rw [hrun, Option.some.injEq, Prod.mk.injEq] at hseek
  obtain ⟨-, rfl⟩ := hseek
  obtain ⟨c', hfp, -⟩ := foldl_file_stored fifo
    (storeSizes tfr d.pDesc (getParams tfr d.pDesc).sector_count.toNat)
    (x := startXfer card (sought d (512 * (fileLba d.pDesc (getParams tfr d.pDesc).lba).toNat) c index
      mru_lba mru_cluster) (getParams tfr d.pDesc) [.stat statusReq]) hmmc hs.ok hs.healthy hw (by
        rw [hsum]
        show 512 * _ + 512 * _ ≤ d.fSource.objsize
        omega)
  rw [hsum] at hfp
  rw [bursts] at hdrive hcard
  have hsame : SameUnit d done.drive := by
    rw [hdrive, hfp]
    exact ⟨rfl, rfl, rfl, rfl, rfl, rfl, rfl, rfl, rfl, rfl, rfl⟩
  have hspb' : done.drive.pDesc.sectors_per_block = d.pDesc.sectors_per_block := by
    rw [hdrive, hfp]
    rfl
  have hF : (getParams tfr d.pDesc).lba.toNat - d.pDesc.lba_offset.toNat
      = (fileLba d.pDesc (getParams tfr d.pDesc).lba).toNat := by omega
  refine ⟨hcard.trans (foldl_file_card fifo _ hmmc).1, hsame, hspb',
    diskBlocks_stored hsame hmmc hm.2.1 hlow hin (hdisk.trans hsize) ?_⟩
  rw [hdrive, hfp, hF]
  rfl

/-- A write that runs inside a unit on good blocks of the card. -/
theorem RunWrite.shows_card {card : Card} {d d' : Drive} {tfr : TaskFile} {fifo : ℕ → UInt8} {done : Done}
    (h : RunWrite card d d' tfr fifo done) (hmmc : d.pDesc.format = .MMC)
    (hspb : ¬(tfr 7 = 0xC5 ∧ d.pDesc.sectors_per_block = 0))
    (hin : (getParams tfr d.pDesc).lba.toNat + (getParams tfr d.pDesc).sector_count.toNat
      ≤ diskSize d.pDesc)
    (hlimit : diskSize d.pDesc + d.pDesc.lba_offset.toNat ≤ card.limit)
    (hgood : ∀ b, b < diskSize d.pDesc → card.fails (b + d.pDesc.lba_offset.toNat) = false) :
    done.drive = d ∧ done.card.sdhc = card.sdhc ∧ done.card.fails = card.fails ∧
      diskBlocks done.card d = Splice.splice (diskBlocks card d) (getParams tfr d.pDesc).lba.toNat
        (brought fifo (getParams tfr d.pDesc).sector_count.toNat) ∧
      ∀ b, b < d.pDesc.lba_offset.toNat ∨ diskSize d.pDesc + d.pDesc.lba_offset.toNat ≤ b →
        done.card.block b = card.block b := by
  have hseek := h.seek
  have hd' : d' = d := by
    rw [hardFileSeek] at hseek
    simp only at hseek
    rw [if_pos hmmc] at hseek
    exact ((Prod.mk.inj (Option.some.inj hseek)).2).symm
  subst hd'
  obtain ⟨hcard, hdrive, -, -⟩ := h.medium
  have hsum := sum_storeSizes hspb (getParams tfr d'.pDesc).sector_count.toNat
  set x := startXfer card d' (getParams tfr d'.pDesc) [.stat statusReq] with hx
  have hlba : x.lba + x.drive.pDesc.lba_offset
      = UInt32.ofNat ((getParams tfr d'.pDesc).lba.toNat + d'.pDesc.lba_offset.toNat) := by
    rw [UInt32.ofNat_add, UInt32.ofNat_toNat, UInt32.ofNat_toNat]
    rfl
  have hframe := foldl_card_frame fifo
    (storeSizes tfr d'.pDesc (getParams tfr d'.pDesc).sector_count.toNat) (x := x) hmmc hlba
    (by rw [hsum]; show _ ≤ card.limit; omega)
  have hstored := foldl_card_stored fifo
    (storeSizes tfr d'.pDesc (getParams tfr d'.pDesc).sector_count.toNat) (x := x) hmmc hlba
    (by rw [hsum]; show _ ≤ card.limit; omega) (fun k hk => by
      rw [hsum] at hk
      rw [Nat.add_right_comm]
      exact hgood _ (by omega))
  rw [hsum] at hframe hstored
  rw [bursts, ← hx] at hcard hdrive
  rw [← hcard] at hframe hstored
  obtain ⟨hsdhc, hfails⟩ := foldl_card_kept fifo
    (storeSizes tfr d'.pDesc (getParams tfr d'.pDesc).sector_count.toNat) (x := x) hmmc
  rw [← hcard] at hsdhc hfails
  refine ⟨hdrive.trans (foldl_card fifo _ hmmc).1, hsdhc, hfails, ?_, fun b hb => hframe b (by omega)⟩
  refine diskBlocks_written hmmc hin (fun k hk => ?_) hframe
  rw [hstored k hk]
  exact congrArg (fetch fifo) (Nat.zero_add k)

/-! ### Read commands -/

/-- No status among what is sent has the error bit. -/
def Clean (outs : List FChOut) : Prop := ∀ s, FChOut.stat s ∈ outs → s &&& statusErr = 0

theorem Clean.append {outs outs' : List FChOut} (h : Clean outs) (h' : Clean outs') :
    Clean (outs ++ outs') := fun s hs => (List.mem_append.mp hs).elim (h s) (h' s)

theorem Clean.not_error {outs : List FChOut} (h : Clean outs) : ¬EndsInError outs := by
  rintro ⟨s, hs, herr⟩
  exact herr (h s (List.mem_of_getLast? hs))

theorem sendBlocks_clean {x : Xfer} (h : Clean x.outs) (n : ℕ) : Clean (sendBlocks x n).2.outs := by
  rw [sendBlocks]
  simp only
  split
  · exact h.append fun s hs => by simp [cardReadSendDirect] at hs
  · split
    · exact h.append fun s hs => by simp [bufferSend] at hs
    · exact h.append fun s hs => by simp [fileReadSendDirect] at hs

theorem readSectorsLoop_clean (tfr : TaskFile) : ∀ (n : ℕ) {x : Xfer}, Clean x.outs →
    Clean (readSectorsLoop tfr n x).outs
  | 0, _, h => h
  | n + 1, x, h => by
    have hready : Clean (x.outs ++ [.stat statusRdy, .stat statusIrq]) := h.append fun s hs => by
      simp only [List.mem_cons, FChOut.stat.injEq, List.not_mem_nil, or_false] at hs
      rcases hs with rfl | rfl <;> decide
    rw [readSectorsLoop]
    refine readSectorsLoop_clean tfr n (sendBlocks_clean ?_ 1)
    split
    · exact hready
    · exact hready.append fun s hs => by simp [updateParams] at hs

theorem readBurst_clean : ∀ (fuel n : ℕ) {x : Xfer}, Clean x.outs → Clean (readBurst fuel n x).outs
  | 0, _, _, h => h
  | fuel + 1, n, x, h => by
    rw [readBurst]
    split
    · exact h
    · exact readBurst_clean fuel _ (sendBlocks_clean h _)

theorem readMultipleLoop_clean (tfr : TaskFile) : ∀ (fuel n : ℕ) {x : Xfer}, Clean x.outs →
    Clean (readMultipleLoop tfr fuel n x).outs
  | 0, _, _, h => h
  | fuel + 1, n, x, h => by
    rw [readMultipleLoop]
    split
    · exact h
    · refine readMultipleLoop_clean tfr fuel _ (readBurst_clean _ _ ?_)
      refine Clean.append (Clean.append h fun s hs => ?_) fun s hs => ?_
      · simp only [List.mem_singleton, FChOut.stat.injEq] at hs
        rw [hs]
        decide
      · simp [updateParams] at hs

/-- A read inside the disk of a unit. -/
theorem ataRead_shows {e : Extent} {card : Card} {d : Drive} {tfr : TaskFile} (fifo : ℕ → UInt8)
    (hm : Mounted e d) (hr : ReadsInside card d tfr) (hcmd : tfr 7 = 0x20 ∨ tfr 7 = 0xC4)
    (hspb : ¬(tfr 7 = 0xC4 ∧ d.pDesc.sectors_per_block = 0)) :
    ∃ done, ataCommand card d tfr fifo = some done ∧ done.card = card ∧ Mounted e done.drive ∧
      ¬EndsInError done.outs ∧ Delivered card d (getParams tfr d.pDesc).lba.toNat
        (getParams tfr d.pDesc).sector_count.toNat done.outs ∧
      SameUnit d done.drive ∧ done.drive.pDesc.sectors_per_block = d.pDesc.sectors_per_block ∧
      done.drive.fSource.data = d.fSource.data := by
  rcases hcmd with hc | hc
  · obtain ⟨done, hrun, hcard, hm', hdel, ⟨p, c, index, mru_lba, mru_cluster, hdrive⟩, d', houts⟩ :=
      readTransfer_runs [] (readSectorsLoop tfr) hm hr rfl fun _ {_ _ _} _ hx hs =>
        readSectorsLoop_delivers tfr hx hs
    refine ⟨done, (ataCommand_readSectors hc).trans hrun, hcard, hm', ?_, hdel, ?_, ?_, ?_⟩
    · rw [houts]
      exact (readSectorsLoop_clean tfr _ fun s hs => absurd hs List.not_mem_nil).not_error
    · rw [hdrive]
      exact sought_same d p c index mru_lba mru_cluster
    · rw [hdrive]
      rfl
    · rw [hdrive]
      rfl
  · have hspb' : d.pDesc.sectors_per_block ≠ 0 := fun hz => hspb ⟨hc, hz⟩
    obtain ⟨done, hrun, hcard, hm', hdel, ⟨p, c, index, mru_lba, mru_cluster, hdrive⟩, d', houts⟩ :=
      readTransfer_runs [.stat statusRdy] (fun n => readMultipleLoop tfr n n) hm hr rfl
        fun d' {n _ _} hd' hx hs =>
          readMultipleLoop_delivers tfr (by rw [hd']; exact hspb') (le_refl n) hx hs
    have hcommand : ataCommand card d tfr fifo = some done := by
      rw [ataCommand_readMultiple hc, readMultiple, if_neg hspb']
      exact hrun
    refine ⟨done, hcommand, hcard, hm', ?_, hdel, ?_, ?_, ?_⟩
    · rw [houts]
      refine (readMultipleLoop_clean tfr _ _ fun s hs => ?_).not_error
      have hs : FChOut.stat s ∈ [FChOut.stat statusRdy] := hs
      rw [List.mem_singleton, FChOut.stat.injEq] at hs
      rw [hs]
      decide
    · rw [hdrive]
      exact sought_same d p c index mru_lba mru_cluster
    · rw [hdrive]
      rfl
    · rw [hdrive]
      rfl

/-! ### The other commands -/

/-- The size of READ and WRITE MULTIPLE behind a command. -/
def multiple (tfr : TaskFile) (spb : UInt16) : UInt16 := if tfr 7 = 0xC6 then (tfr 2).toUInt16 else spb

/-- A command that does not transfer blocks only gives READ and WRITE MULTIPLE a size, if anything. -/
theorem ataCommand_other (card : Card) (d : Drive) {tfr : TaskFile} (fifo : ℕ → UInt8)
    (hread : ¬(tfr 7 = 0x20 ∨ tfr 7 = 0xC4)) (hwrite : ¬(tfr 7 = 0x30 ∨ tfr 7 = 0xC5)) :
    ∃ done, ataCommand card d tfr fifo = some done ∧ done.card = card ∧
      done.drive = { d with pDesc := { d.pDesc with
        sectors_per_block := multiple tfr d.pDesc.sectors_per_block } } := by
  rw [not_or] at hread hwrite
  rw [ataCommand, if_neg hread.1, if_neg hread.2, if_neg hwrite.1, if_neg hwrite.2]
  by_cases hset : tfr 7 = 0xC6
  · rw [multiple, hset]
    exact ⟨_, rfl, rfl, rfl⟩
  · rw [multiple, if_neg hset, if_neg hset]
    split
    · exact ⟨_, rfl, rfl, rfl⟩
    · split
      · exact ⟨_, rfl, rfl, rfl⟩
      · split
        · exact ⟨_, rfl, rfl, rfl⟩
        · split
          · exact ⟨_, rfl, rfl, rfl⟩
          · split <;> exact ⟨_, rfl, rfl, rfl⟩

theorem Mounted.multiple {e : Extent} {d : Drive} (h : Mounted e d) (spb : UInt16) :
    Mounted e { d with pDesc := { d.pDesc with sectors_per_block := spb } } := by
  cases e with
  | file =>
    obtain ⟨h1, h2, h3, h4⟩ := h
    refine ⟨h1, h2, h3, fun herr => ?_⟩
    obtain ⟨k1, k2, k3, k4, k5, k6, k7, k8⟩ := h4 herr
    exact ⟨k1, k2, k3, k4, k5, k6, k7, k8⟩
  | partition _ _ => exact h
  | wholeCard => exact h

end FileIO.Drv08
