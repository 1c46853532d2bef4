import ReplayFirmware.Drv08.Handle
import ReplayFirmware.Drv08.Insert
import ReplayFirmware.Lib.Chunks

/-! What a read delivers.

    A unit is a virtual disk: the made-up blocks and the file behind them, or a run of the card. The
    two read commands split a request differently, but every part sends the next blocks of the disk
    and leaves the file where the part after it goes on. -/

namespace FileIO.Drv08
open FatFs

/-! ### The virtual disk -/

/-- Sector `k` of the file of a unit. -/
def fileSector (d : Drive) (k : ℕ) : List UInt8 := (d.fSource.data.drop (512 * k)).take 512

attribute [local instance] threeBlocks in
/-- Block `b` of the virtual disk. -/
def virtualBlock (card : Card) (d : Drive) (b : ℕ) : List UInt8 :=
  let off := d.pDesc.lba_offset.toNat
  match d.pDesc.format with
  | .MMC => (card.block (b + off)).toList
  | .HDF_NAKED =>
    if b < off then (d.pDesc.hdf_rdb (Fin.ofNat 3 b)).toList else fileSector d (b - off)
  | _ => fileSector d b

/-- How many blocks the virtual disk has. -/
def diskSize (pDesc : Desc) : ℕ :=
  match pDesc.format with
  | .MMC => pDesc.file_size.toNat
  | .HDF_NAKED => pDesc.lba_offset.toNat + pDesc.imageSize / 512
  | _ => pDesc.imageSize / 512

/-- The data bytes among what was sent. -/
def sent (outs : List FChOut) : List UInt8 :=
  outs.flatMap fun
    | .fifo _ bs => bs
    | .direct bs => bs
    | _ => []

theorem sent_append (as bs : List FChOut) : sent (as ++ bs) = sent as ++ sent bs :=
  List.flatMap_append

/-- The `n` blocks from block `b` on can be read. -/
structure Serves (card : Card) (d : Drive) (b n : ℕ) : Prop where
  bound : b + n ≤ 2 ^ 32
  offset : d.pDesc.format ≠ .MMC → d.pDesc.format ≠ .HDF_NAKED → d.pDesc.lba_offset = 0
  card : d.pDesc.format = .MMC → b + n + d.pDesc.lba_offset.toNat ≤ card.limit ∧
    ∀ k, k < n → card.fails (b + k + d.pDesc.lba_offset.toNat) = false
  file : d.pDesc.format ≠ .MMC → d.fSource.err = false ∧
    512 * (b + n - d.pDesc.lba_offset.toNat) ≤ d.fSource.objsize ∧
    512 * (b + n - d.pDesc.lba_offset.toNat) ≤ d.fSource.readable

theorem Serves.part {card : Card} {d : Drive} {b n m i : ℕ} (h : Serves card d b n)
    (hle : m + i ≤ n) : Serves card d (b + m) i := by
  refine ⟨?_, h.offset, fun hf => ?_, fun hf => ?_⟩
  · have := h.bound
    omega
  · obtain ⟨h1, h2⟩ := h.card hf
    refine ⟨by omega, fun k hk => ?_⟩
    rw [Nat.add_assoc b]
    exact h2 (m + k) (by omega)
  · obtain ⟨h1, h2, h3⟩ := h.file hf
    exact ⟨h1, by omega, by omega⟩

/-- Every block that can be read has 512 bytes. -/
theorem Serves.length {card : Card} {d : Drive} {b n : ℕ} (h : Serves card d b n) {k : ℕ} (hk : k < n) :
    (virtualBlock card d (b + k)).length = 512 := by
  have hsector : d.pDesc.format ≠ .MMC → d.pDesc.lba_offset.toNat ≤ b + k →
      (fileSector d (b + k - d.pDesc.lba_offset.toNat)).length = 512 := by
    intro hf hle
    obtain ⟨-, h2, -⟩ := h.file hf
    have hlen : d.fSource.data.length = d.fSource.objsize := rfl
    rw [fileSector, List.length_take, List.length_drop]
    omega
  unfold virtualBlock
  simp only
  split
  · exact Vector.length_toList
  · next hf =>
    split
    · exact Vector.length_toList
    · exact hsector (by rw [hf]; decide) (by omega)
  · next hm hn =>
    have h0 : d.pDesc.lba_offset.toNat = 0 := by
      rw [h.offset hm hn]
      rfl
    have := hsector hm (by omega)
    rwa [h0, Nat.sub_zero] at this

/-! ### One part of a transfer -/

/-- A read that has come to block `b`: the file stands at its sector. -/
structure Reading (card : Card) (d : Drive) (b : ℕ) (x : Xfer) : Prop where
  card : x.card = card
  lba : x.lba = UInt32.ofNat b
  drive : ∃ p c, x.drive = { d with fSource := moveTo d.fSource p c } ∧
    (d.pDesc.format ≠ .MMC →
      p = 512 * (b - d.pDesc.lba_offset.toNat) ∧ (moveTo d.fSource p c).Ok)

/-- A part of a transfer sends the next `n` blocks. -/
structure Delivers (card : Card) (d : Drive) (b n : ℕ) (x x' : Xfer) : Prop where
  reading : Reading card d (b + n) x'
  data : sent x'.outs = sent x.outs ++ (List.range n).flatMap fun k => virtualBlock card d (b + k)

theorem Delivers.trans {card : Card} {d : Drive} {b m n : ℕ} {x x' x'' : Xfer}
    (h : Delivers card d b m x x') (h' : Delivers card d (b + m) n x' x'') :
    Delivers card d b (m + n) x x'' := by
  refine ⟨by rw [← Nat.add_assoc]; exact h'.reading, ?_⟩
  rw [h'.data, h.data, List.append_assoc, Chunks.flatMap_range_add]
  simp only [Nat.add_assoc]

/-- What is sent without data changes nothing. -/
theorem Reading.quiet {card : Card} {d : Drive} {b : ℕ} {x x' : Xfer} (h : Reading card d b x)
    (hcard : x'.card = x.card) (hlba : x'.lba = x.lba) (hdrive : x'.drive = x.drive)
    (hdata : sent x'.outs = sent x.outs) : Delivers card d b 0 x x' := by
  refine ⟨⟨hcard.trans h.card, hlba.trans h.lba, ?_⟩, ?_⟩
  · rw [hdrive]
    exact h.drive
  · rw [hdata]
    exact (List.append_nil _).symm

theorem ofNat_add_toUInt32 (b n : ℕ) : UInt32.ofNat b + n.toUInt32 = UInt32.ofNat (b + n) :=
  (UInt32.ofNat_add b n).symm

/-- Blocks straight from the card. -/
theorem sent_cardReadSendDirect {card : Card} {b off n : ℕ} (hlimit : b + n + off ≤ card.limit)
    (hgood : ∀ k, k < n → card.fails (b + k + off) = false) (hn : 0 < n) :
    sent [cardReadSendDirect card (UInt32.ofNat b + UInt32.ofNat off) n]
      = (List.range n).flatMap fun k => (card.block (b + k + off)).toList := by
  have haddr : card.address (UInt32.ofNat b + UInt32.ofNat off) = b + off := by
    rw [← UInt32.ofNat_add]
    exact Card.address_eq (by omega)
  have hread := readBlocks_eq (show ∀ k, k < n → card.fails (b + off + k) = false by
    intro k hk
    rw [Nat.add_right_comm]
    exact hgood k hk)
  show (bytesOf (Card_ReadM card _ n).1) ++ [] = _
  rw [List.append_nil, Card_ReadM, haddr, hread, bytesOf, List.flatMap_map]
  simp only [Nat.add_right_comm b off]

/-- The next blocks of the file. -/
theorem fileReadSendDirect_eq {d : Drive} {p n : ℕ} (hok : d.fSource.Ok) (herr : d.fSource.err = false)
    (hp : d.fSource.fptr = 512 * p) (hsize : 512 * (p + n) ≤ d.fSource.objsize)
    (hread : 512 * (p + n) ≤ d.fSource.readable) :
    fileReadSendDirect d n = ({ d with fSource := d.fSource.moved (512 * n) },
      .direct ((List.range n).flatMap fun k => fileSector d (p + k))) := by
  have heq := FF_ReadDirect_eq (n := 512 * n) hok herr (by omega) (Nat.mul_mod_right 512 n) (by omega)
    (by omega)
  have hdata : (d.fSource.data.drop (512 * p)).take (512 * n)
      = (List.range n).flatMap fun k => fileSector d (p + k) := by
    rw [Chunks.take_mul_eq]
    simp only [List.drop_drop, ← Nat.mul_add, fileSector]
  rw [fileReadSendDirect, heq, hp, hdata]

/-- The next blocks are sent, as many as come from one source. -/
theorem sendBlocks_delivers {card : Card} {d : Drive} {b n : ℕ} {x : Xfer} (h : Reading card d b x)
    (hs : Serves card d b n) (hn : 0 < n) :
    0 < (sendBlocks x n).1 ∧ (sendBlocks x n).1 ≤ n ∧
      Delivers card d b (sendBlocks x n).1 x (sendBlocks x n).2 := by
  obtain ⟨hcard, hlba, p, c, hdrive, hfile⟩ := h
  have hbound := hs.bound
  have hb : (UInt32.ofNat b).toNat = b := UInt32.toNat_ofNat_of_lt' (by show b < 2 ^ 32; omega)
  have hpDesc : x.drive.pDesc = d.pDesc := by rw [hdrive]
  rw [sendBlocks, hpDesc, hcard, hlba]
  by_cases hmmc : d.pDesc.format = .MMC
  · obtain ⟨hlimit, hgood⟩ := hs.card hmmc
    have hdata := sent_cardReadSendDirect hlimit hgood hn
    rw [UInt32.ofNat_toNat] at hdata
    simp only [if_pos hmmc]
    refine ⟨hn, le_refl n, ⟨hcard, ofNat_add_toUInt32 b n, p, c, hdrive, fun hne => absurd hmmc hne⟩, ?_⟩
    show sent (x.outs ++ [_]) = _
    rw [sent_append, hdata]
    refine congrArg _ (List.flatMap_congr fun k _ => ?_)
    rw [virtualBlock, hmmc]
  · obtain ⟨hp, hok⟩ := hfile hmmc
    obtain ⟨herr, hsize, hread⟩ := hs.file hmmc
    simp only [if_neg hmmc]
    by_cases hlt : UInt32.ofNat b < d.pDesc.lba_offset
    · -- made-up blocks: only a naked hardfile has an offset
      have hlt' : b < d.pDesc.lba_offset.toNat := by
        rw [UInt32.lt_iff_toNat_lt, hb] at hlt
        exact hlt
      have hnaked : d.pDesc.format = .HDF_NAKED := by
        by_contra hne
        rw [hs.offset hmmc hne] at hlt'
        exact absurd hlt' (Nat.not_lt_zero b)
      have hsub : (d.pDesc.lba_offset - UInt32.ofNat b).toNat = d.pDesc.lba_offset.toNat - b := by
        rw [UInt32.toNat_sub_of_le _ _ (UInt32.le_of_lt hlt), hb]
      simp only [if_pos hlt, hsub]
      set i := min n (d.pDesc.lba_offset.toNat - b) with hi
      refine ⟨by omega, by omega, ⟨hcard, ofNat_add_toUInt32 b i, p, c, hdrive, fun _ => ⟨?_, hok⟩⟩, ?_⟩
      · rw [hp]
        omega
      · show sent (x.outs ++ _) = _
        rw [sent_append]
        refine congrArg _ ?_
        rw [sent, List.flatMap_map]
        refine List.flatMap_congr fun k hk => ?_
        have hk : k < i := List.mem_range.mp hk
        rw [virtualBlock, hnaked]
        simp only [if_pos (show b + k < d.pDesc.lba_offset.toNat by omega)]
        show (rdbBlock d.pDesc _).toList = _
        have hoff := d.pDesc.lba_offset.toNat_lt
        rw [rdbBlock, ofNat_add_toUInt32, UInt32.toNat_ofNat_of_lt' (by show b + k < 2 ^ 32; omega)]
    · have hge : d.pDesc.lba_offset.toNat ≤ b := by
        rw [UInt32.lt_iff_toNat_lt, hb] at hlt
        omega
      have hblock : ∀ k, virtualBlock card d (b + k) = fileSector d (b - d.pDesc.lba_offset.toNat + k) := by
        intro k
        unfold virtualBlock
        simp only
        split
        · next hf => exact absurd hf hmmc
        · rw [if_neg (by omega), Nat.sub_add_comm hge]
        · next hm hnk =>
          have h0 : d.pDesc.lba_offset.toNat = 0 := by
            rw [hs.offset hm hnk]
            rfl
          rw [h0, Nat.sub_zero]
      have hsend := fileReadSendDirect_eq (d := x.drive) (p := b - d.pDesc.lba_offset.toNat) (n := n)
        (by rw [hdrive]; exact hok) (by rw [hdrive]; exact herr) (by rw [hdrive]; exact hp)
        (by rw [hdrive, ← Nat.sub_add_comm hge]; exact hsize)
        (by rw [hdrive, ← Nat.sub_add_comm hge]; exact hread)
      simp only [if_neg hlt, hsend]
      refine ⟨hn, le_refl n, ⟨hcard, ofNat_add_toUInt32 b n, ?_⟩, ?_⟩
      · rw [hdrive]
        have hmoved : ((moveTo d.fSource p c).moved (512 * n)).Ok := hok.moved (by
          show p + 512 * n ≤ d.fSource.objsize
          rw [hp]
          omega)
        refine ⟨p + 512 * n, _, rfl, fun _ => ⟨by rw [hp]; omega, hmoved⟩⟩
      · show sent (x.outs ++ [_]) = _
        rw [sent_append]
        refine congrArg _ ?_
        simp only [hblock, hdrive]
        exact List.append_nil _

/-! ### The loops -/

theorem Reading.pDesc {card : Card} {d : Drive} {b : ℕ} {x : Xfer} (h : Reading card d b x) :
    x.drive.pDesc = d.pDesc := by
  obtain ⟨p, c, hdrive, -⟩ := h.drive
  rw [hdrive]

theorem readSectorsLoop_delivers {card : Card} {d : Drive} (tfr : TaskFile) :
    ∀ {n b : ℕ} {x : Xfer}, Reading card d b x → Serves card d b n →
      Delivers card d b n x (readSectorsLoop tfr n x)
  | 0, _, _, h, _ => h.quiet rfl rfl rfl rfl
  | n + 1, b, x, h, hs => by
    rw [readSectorsLoop]
    -- the status and the parameters go first
    set y := (x.send [.stat statusRdy, .stat statusIrq]).count 1 with hy
    have hquiet : Delivers card d b 0 x (if x.first then y else y.send [updateParams tfr y.p]) := by
      split
      · exact h.quiet rfl rfl rfl (by rw [hy]; exact (sent_append _ _).trans (List.append_nil _))
      · refine h.quiet rfl rfl rfl ?_
        show sent ((x.outs ++ _) ++ [updateParams tfr y.p]) = _
        rw [sent_append, sent_append]
        exact (List.append_nil _).trans (List.append_nil _)
    obtain ⟨hpos, hle, hblock⟩ :=
      sendBlocks_delivers hquiet.reading (hs.part (m := 0) (by omega)) Nat.one_pos
    have hone : ∀ z : Xfer, (sendBlocks z 1).1 = 1 → Delivers card d (b + 0) (sendBlocks z 1).1 z
        (sendBlocks z 1).2 → Delivers card d (b + 0) 1 z (sendBlocks z 1).2 := by
      intro z hz hd
      rwa [hz] at hd
    have hfirst := hquiet.trans (hone _ (by omega) hblock)
    have hrest := readSectorsLoop_delivers tfr (n := n) hfirst.reading
      (hs.part (m := 0 + 1) (by omega))
    have hall := hfirst.trans hrest
    rwa [show 0 + 1 + n = n + 1 by omega] at hall

theorem readBurst_delivers {card : Card} {d : Drive} : ∀ {fuel n b : ℕ} {x : Xfer}, n ≤ fuel →
    Reading card d b x → Serves card d b n → Delivers card d b n x (readBurst fuel n x)
  | 0, n, b, x, hn, h, _ => by
    obtain rfl : n = 0 := Nat.le_zero.mp hn
    exact h.quiet rfl rfl rfl rfl
  | fuel + 1, n, b, x, hn, h, hs => by
    rw [readBurst]
    by_cases h0 : n = 0
    · subst h0
      exact h.quiet rfl rfl rfl rfl
    · rw [if_neg h0]
      have hburst : 0 < min n maxReadBurst := lt_min (Nat.pos_of_ne_zero h0) (by decide)
      obtain ⟨hpos, hle, hpart⟩ := sendBlocks_delivers h (hs.part (m := 0) (i := min n maxReadBurst)
        (by omega)) hburst
      generalize sendBlocks x (min n maxReadBurst) = r at hpos hle hpart
      obtain ⟨i, x'⟩ := r
      simp only at hpos hle hpart ⊢
      have hrest : Delivers card d (b + i) (n - i) x' (readBurst fuel (n - i) x') :=
        readBurst_delivers (by omega) hpart.reading (hs.part (by omega))
      have hall := hpart.trans hrest
      rwa [show i + (n - i) = n by omega] at hall

theorem readMultipleLoop_delivers {card : Card} {d : Drive} (tfr : TaskFile)
    (hspb : d.pDesc.sectors_per_block ≠ 0) : ∀ {fuel n b : ℕ} {x : Xfer}, n ≤ fuel →
    Reading card d b x → Serves card d b n → Delivers card d b n x (readMultipleLoop tfr fuel n x)
  | 0, n, b, x, hn, h, _ => by
    obtain rfl : n = 0 := Nat.le_zero.mp hn
    exact h.quiet rfl rfl rfl rfl
  | fuel + 1, n, b, x, hn, h, hs => by
    rw [readMultipleLoop]
    by_cases h0 : n = 0
    · subst h0
      exact h.quiet rfl rfl rfl rfl
    · rw [if_neg h0, h.pDesc]
      have hspb' : 0 < d.pDesc.sectors_per_block.toNat := by
        refine Nat.pos_of_ne_zero fun hz => hspb ?_
        exact UInt16.toNat_inj.mp hz
      set i := min n d.pDesc.sectors_per_block.toNat with hi
      set y := (x.send [.stat statusIrq]).count i with hy
      have hquiet : Delivers card d b 0 x (y.send [updateParams tfr y.p]) := by
        refine h.quiet rfl rfl rfl ?_
        show sent ((x.outs ++ [_]) ++ [updateParams tfr y.p]) = _
        rw [sent_append, sent_append]
        exact (List.append_nil _).trans (List.append_nil _)
      have hburst := hquiet.trans (readBurst_delivers (le_refl i) hquiet.reading
        (hs.part (m := 0) (by omega)))
      have hrest := readMultipleLoop_delivers tfr hspb (show n - i ≤ fuel by omega) hburst.reading
        (hs.part (by omega))
      have hall := hburst.trans hrest
      rwa [show 0 + i + (n - i) = n by omega] at hall

/-! ### The commands -/

/-- A read inside the virtual disk, on a medium that can be read there: the file is not aborted, and
    its first block has an entry in the index. -/
structure ReadsInside (card : Card) (d : Drive) (tfr : TaskFile) : Prop where
  inside : (getParams tfr d.pDesc).lba.toNat + (getParams tfr d.pDesc).sector_count.toNat
    ≤ diskSize d.pDesc
  card : d.pDesc.format = .MMC →
    (getParams tfr d.pDesc).lba.toNat + (getParams tfr d.pDesc).sector_count.toNat
        + d.pDesc.lba_offset.toNat ≤ card.limit ∧
      ∀ k, k < (getParams tfr d.pDesc).sector_count.toNat →
        card.fails ((getParams tfr d.pDesc).lba.toNat + k + d.pDesc.lba_offset.toNat) = false
  file : d.pDesc.format ≠ .MMC → d.fSource.err = false ∧
    512 * ((getParams tfr d.pDesc).lba.toNat + (getParams tfr d.pDesc).sector_count.toNat
      - d.pDesc.lba_offset.toNat) ≤ d.fSource.readable
  index : d.pDesc.format ≠ .MMC → Indexed d.pDesc (lbaNaked d.pDesc (getParams tfr d.pDesc).lba)

/-- The blocks of a request, in order. -/
structure Delivered (card : Card) (d : Drive) (b n : ℕ) (outs : List FChOut) : Prop where
  length : (sent outs).length = 512 * n
  block : ∀ k, k < n → ((sent outs).drop (512 * k)).take 512 = virtualBlock card d (b + k)

/-- The block of the file a read seeks to. -/
theorem fileLba_lbaNaked {pDesc : Desc} (hoff : pDesc.format ≠ .HDF_NAKED → pDesc.lba_offset = 0)
    (lba : UInt32) :
    (fileLba pDesc (lbaNaked pDesc lba)).toNat = lba.toNat - pDesc.lba_offset.toNat := by
  rw [fileLba, lbaNaked]
  by_cases hn : pDesc.format = .HDF_NAKED
  · rw [if_pos hn]
    split
    · next hlt =>
      rw [UInt32.lt_iff_toNat_lt] at hlt
      rw [UInt32.sub_self, show (0 : UInt32).toNat = 0 by decide]
      omega
    · next hge =>
      exact UInt32.toNat_sub_of_le _ _ (UInt32.not_lt.mp hge)
  · rw [if_neg hn, hoff hn, if_neg (fun h => absurd (UInt32.lt_iff_toNat_lt.mp h) (Nat.not_lt_zero _))]
    rfl

/-- A unit at another position of its file is in order where the file is. -/
theorem Seekable.moveTo {d : Drive} (h : Seekable d) {p c : ℕ} (hok : (moveTo d.fSource p c).Ok) :
    Seekable { d with fSource := Drv08.moveTo d.fSource p c } :=
  { ok := hok
    healthy := h.healthy
    csize_le := h.csize_le
    size := h.size
    index_size := h.index_size
    index_step := h.index_step
    index := h.index
    mru := h.mru }

/-- What a transfer delivers does not depend on what the seek remembered. -/
theorem Delivers.delivered {card : Card} {d : Drive} {b n : ℕ} {x : Xfer} {pre : List FChOut}
    {p : Params} (hs : Serves card d b n) (hpre : sent pre = [])
    (h : Delivers card d b n (startXfer card d p pre) x) : Delivered card d b n x.outs := by
  have hdata : sent x.outs = (List.range n).flatMap fun k => virtualBlock card d (b + k) := by
    rw [h.data]
    show sent pre ++ _ = _
    rw [hpre, List.nil_append]
  refine ⟨?_, fun k hk => ?_⟩
  · rw [hdata, Chunks.length_flatMap_range fun k hk => hs.length hk]
  · rw [hdata, Chunks.chunk_flatMap_range (fun i hi => hs.length hi) hk]

/-- A read inside the virtual disk, with a loop that delivers: it leaves all of the unit as it was but the
    position of its file and what is remembered. -/
theorem readTransfer_runs {e : Extent} {card : Card} {d : Drive} {tfr : TaskFile}
    (pre : List FChOut) (loop : ℕ → Xfer → Xfer) (hm : Mounted e d) (hr : ReadsInside card d tfr)
    (hpre : sent pre = [])
    (hloop : ∀ (d' : Drive) {n b : ℕ} {x : Xfer},
      d'.pDesc.sectors_per_block = d.pDesc.sectors_per_block → Reading card d' b x →
      Serves card d' b n → Delivers card d' b n x (loop n x)) :
    ∃ done, readTransfer card d tfr pre loop = some done ∧ done.card = card ∧
      Mounted e done.drive ∧ Delivered card d (getParams tfr d.pDesc).lba.toNat
        (getParams tfr d.pDesc).sector_count.toNat done.outs ∧
      (∃ p c index mru_lba mru_cluster, done.drive = sought d p c index mru_lba mru_cluster) ∧
      ∃ d', done.outs = (loop (getParams tfr d.pDesc).sector_count.toNat
        (startXfer card d' (getParams tfr d.pDesc) pre)).outs := by
  have hn := getParams_count tfr d.pDesc
  obtain ⟨hinside, hcard, hfile, hindex⟩ := hr
  rw [readTransfer]
  generalize getParams tfr d.pDesc = p at hn hinside hcard hfile hindex ⊢
  by_cases hmmc : d.pDesc.format = .MMC
  · -- on the card there is no seek
    have hseek : hardFileSeek d (lbaNaked d.pDesc p.lba) = some (true, d) := by
      rw [hardFileSeek]
      simp only [if_pos hmmc]
    have hs : Serves card d p.lba.toNat p.sector_count.toNat :=
      ⟨by
        have hlimit := (hcard hmmc).1
        have : card.limit ≤ 2 ^ 32 := by
          rw [Card.limit]
          split <;> decide
        omega, fun hne => absurd hmmc hne, hcard, fun hne => absurd hmmc hne⟩
    have hstart : Reading card d p.lba.toNat (startXfer card d p pre) :=
      ⟨rfl, UInt32.ofNat_toNat.symm, d.fSource.fptr, d.fSource.clust, rfl, fun hne => absurd hmmc hne⟩
    have hdel := hloop d rfl hstart hs
    obtain ⟨pos, c, hdrive, -⟩ := hdel.reading.drive
    rw [hseek]
    simp only
    refine ⟨_, rfl, hdel.reading.card, ?_, hdel.delivered hs hpre, ⟨pos, c, _, _, _, hdrive⟩, d, rfl⟩
    show Mounted e (loop _ _).drive
    rw [hdrive]
    cases e with
    | file => exact absurd hmmc hm.1
    | partition _ _ => exact hm
    | wholeCard => exact hm
  · cases e with
    | partition _ _ => exact absurd hm.1 hmmc
    | wholeCard => exact absurd hm.1 hmmc
    | file =>
      obtain ⟨-, hoff, hoffle, hseekable⟩ := hm
      obtain ⟨herr, hreadable⟩ := hfile hmmc
      have hindexed := hindex hmmc
      have hok := hseekable herr
      have hblk := fileLba_lbaNaked hoff p.lba
      -- the request against the size of the file
      have hsize : 512 * (p.lba.toNat + p.sector_count.toNat - d.pDesc.lba_offset.toNat)
          ≤ d.pDesc.imageSize := by
        have hdisk : diskSize d.pDesc ≤ d.pDesc.lba_offset.toNat + d.pDesc.imageSize / 512 := by
          rw [diskSize]
          split
          · next hf => exact absurd hf hmmc
          · exact le_refl _
          · exact Nat.le_add_left _ _
        omega
      have himage : d.pDesc.imageSize < 2 ^ 40 + 1024 := by
        have := hok.index_step
        have hpow : 2 ^ d.pDesc.index_size.toNat ≤ 2 ^ 30 :=
          Nat.pow_le_pow_right (by decide) (Nat.le_of_lt_succ hindexed.2)
        omega
      have hbound : p.lba.toNat + p.sector_count.toNat ≤ 2 ^ 32 := by omega
      have hin : InImage d.pDesc (fileLba d.pDesc (lbaNaked d.pDesc p.lba)) := by
        by_cases h0 : p.lba.toNat ≤ d.pDesc.lba_offset.toNat
        · left
          exact UInt32.toNat_inj.mp (by rw [hblk, Nat.sub_eq_zero_of_le h0]; rfl)
        · right
          rw [hblk]
          omega
      have hnaked : ¬(d.pDesc.format = .HDF_NAKED ∧ lbaNaked d.pDesc p.lba < d.pDesc.lba_offset) := by
        rintro ⟨-, hlt⟩
        rw [lbaNaked] at hlt
        split at hlt
        · exact absurd hlt (UInt32.lt_irrefl _)
        · next hge => exact hge hlt
      obtain ⟨c, index, mru_lba, mru_cluster, hseek, hok'⟩ :=
        hardFileSeek_eq hok hmmc hnaked hin hindexed
      rw [hblk] at hseek hok'
      have hs : Serves card d p.lba.toNat p.sector_count.toNat :=
        ⟨hbound, fun _ hne => hoff hne, fun hf => absurd hf hmmc,
          fun _ => ⟨herr, hsize.trans hok.size, hreadable⟩⟩
      rw [hseek]
      simp only
      set d' := sought d (512 * (p.lba.toNat - d.pDesc.lba_offset.toNat)) c index mru_lba mru_cluster
        with hd'
      have hs' : Serves card d' p.lba.toNat p.sector_count.toNat :=
        ⟨hbound, hs.offset, hs.card, hs.file⟩
      have hstart : Reading card d' p.lba.toNat (startXfer card d' p pre) :=
        ⟨rfl, UInt32.ofNat_toNat.symm, _, c, rfl, fun _ => ⟨rfl, hok'.ok⟩⟩
      have hdel := hloop d' rfl hstart hs'
      obtain ⟨pos, c', hdrive, hpos⟩ := hdel.reading.drive
      have hdone := hdel.delivered hs' hpre
      refine ⟨_, rfl, hdel.reading.card, ?_, ⟨hdone.length, hdone.block⟩,
        ⟨pos, c', index, mru_lba, mru_cluster, hdrive⟩, d', rfl⟩
      show Mounted .file (loop _ _).drive
      rw [hdrive]
      exact ⟨hmmc, hoff, hoffle, fun _ => hok'.moveTo (hpos hmmc).2⟩

theorem readTransfer_delivers {e : Extent} {card : Card} {d : Drive} {tfr : TaskFile}
    (pre : List FChOut) (loop : ℕ → Xfer → Xfer) (hm : Mounted e d) (hr : ReadsInside card d tfr)
    (hpre : sent pre = [])
    (hloop : ∀ (d' : Drive) {n b : ℕ} {x : Xfer},
      d'.pDesc.sectors_per_block = d.pDesc.sectors_per_block → Reading card d' b x →
      Serves card d' b n → Delivers card d' b n x (loop n x)) :
    ∃ done, readTransfer card d tfr pre loop = some done ∧ done.card = card ∧
      Mounted e done.drive ∧ Delivered card d (getParams tfr d.pDesc).lba.toNat
        (getParams tfr d.pDesc).sector_count.toNat done.outs := by
  obtain ⟨done, hrun, hcard, hm', hdel, -⟩ := readTransfer_runs pre loop hm hr hpre hloop
  exact ⟨done, hrun, hcard, hm', hdel⟩

/-- Both read commands send the blocks of the virtual disk that were asked for, and leave the unit in
    order; READ MULTIPLE is refused as long as SET MULTIPLE has not given it a size. -/
theorem ataRead_delivers {e : Extent} {card : Card} {handle : Fin 4 → Drive} {tfr : TaskFile}
    {fifo : ℕ → UInt8} (hins : getInserted handle (unitOf tfr) = true)
    (hm : Mounted e (handle (unitOf tfr))) (hr : ReadsInside card (handle (unitOf tfr)) tfr)
    (hcmd : tfr 7 = 0x20 ∨ tfr 7 = 0xC4) :
    if tfr 7 = 0xC4 ∧ (handle (unitOf tfr)).pDesc.sectors_per_block = 0 then
      ataHandle card handle tfr fifo = some (card, handle, abort tfr)
    else
      ∃ d' outs, ataHandle card handle tfr fifo
          = some (card, Function.update handle (unitOf tfr) d', outs) ∧ Mounted e d' ∧
        Delivered card (handle (unitOf tfr)) (getParams tfr (handle (unitOf tfr)).pDesc).lba.toNat
          (getParams tfr (handle (unitOf tfr)).pDesc).sector_count.toNat outs := by
  split
  · next h =>
    have hrefuse : ataCommand card (handle (unitOf tfr)) tfr fifo
        = some { card := card, drive := handle (unitOf tfr), outs := abort tfr } := by
      rw [ataCommand_readMultiple h.1, readMultiple, if_pos h.2]
      rfl
    rw [ataHandle_eq hins hrefuse, Function.update_eq_self]
  · next h =>
    rcases hcmd with hc | hc
    · obtain ⟨done, hrun, hcard, hm', hdel⟩ := readTransfer_delivers [] (readSectorsLoop tfr) hm hr
        rfl fun _ {_ _ _} _ hx hs => readSectorsLoop_delivers tfr hx hs
      refine ⟨done.drive, done.outs, ?_, hm', hdel⟩
      rw [ataHandle_eq hins ((ataCommand_readSectors hc).trans hrun), hcard]
    · have hspb : (handle (unitOf tfr)).pDesc.sectors_per_block ≠ 0 := fun hz => h ⟨hc, hz⟩
      obtain ⟨done, hrun, hcard, hm', hdel⟩ := readTransfer_delivers [.stat statusRdy]
        (fun n => readMultipleLoop tfr n n) hm hr rfl fun d' {n _ _} hd' hx hs =>
          readMultipleLoop_delivers tfr (by rw [hd']; exact hspb) (le_refl n) hx hs
      have hcommand : ataCommand card (handle (unitOf tfr)) tfr fifo = some done := by
        rw [ataCommand_readMultiple hc, readMultiple, if_neg hspb]
        exact hrun
      refine ⟨done.drive, done.outs, ?_, hm', hdel⟩
      rw [ataHandle_eq hins hcommand, hcard]

/-! ### A hardfile of two blocks -/

/-- An image of two blocks of zeros, on clusters of one block. -/
def blankImage : File :=
  { data := List.replicate 1024 0, slack := fun _ => 0, cap := 1024, csize := 512, readable := 1024
    size_le := by rw [List.length_replicate], csize_pos := sector_pos }

/-- The unit it is mounted on; SET MULTIPLE has given it no size. -/
def blankUnit : Drive :=
  { status := statInserted, fSource := f_open blankImage true
    pDesc := buildHardfileIndex (getHardfileGeometry (fileDesc .HDF 1024 .rdsk)) }

def blankCard : Card :=
  { sdhc := true, capacity := 0, block := fun _ => Vector.replicate 512 0, fails := fun _ => false }

/-- A command on the second block. -/
def secondBlock (command : UInt8) : TaskFile := fun i => [0, 0, 1, 1, 0, 0, 0x40, command].getD i 0

theorem blankUnit_mounted : Mounted .file blankUnit := by
  have hlen : blankUnit.pDesc.imageSize ≤ (List.replicate 1024 (0 : UInt8)).length := by
    rw [List.length_replicate]
    decide
  exact ⟨by decide, fun _ => by decide, by decide, fun _ => buildHardfileIndex_seekable
    (f_open_ok blankImage true) (by decide) hlen rfl rfl rfl rfl rfl⟩

theorem blankUnit_reads (command : UInt8) : ReadsInside blankCard blankUnit (secondBlock command) := by
  have h : ReadsInside blankCard blankUnit (secondBlock 0) :=
    ⟨by decide, fun h => absurd h (by decide), fun _ => ⟨rfl, by decide⟩, fun _ =>
      ⟨by decide, by decide⟩⟩
  exact ⟨h.inside, h.card, h.file, h.index⟩

theorem ataRead_delivers_blank : ∃ d' outs,
    ataHandle blankCard (fun _ => blankUnit) (secondBlock 0x20) (fun _ => 0)
        = some (blankCard, Function.update (fun _ => blankUnit) 0 d', outs) ∧
      Delivered blankCard blankUnit 1 1 outs := by
  have h := @ataRead_delivers .file blankCard (fun _ => blankUnit) (secondBlock 0x20) (fun _ => 0)
    (by decide) blankUnit_mounted (blankUnit_reads 0x20) (Or.inl rfl)
  rw [if_neg (by decide)] at h
  obtain ⟨d', outs, hrun, -, hdel⟩ := h
  exact ⟨d', outs, hrun, hdel⟩

/-- READ MULTIPLE of a block inside the disk delivers nothing when SET MULTIPLE has given no size. -/
theorem multipleUnset_not_delivered : ¬ ∀ (d : Drive) (tfr : TaskFile), Mounted .file d →
    ReadsInside blankCard d tfr → tfr 7 = 0xC4 → ∃ d' outs,
      ataHandle blankCard (fun _ => d) tfr (fun _ => 0)
          = some (blankCard, Function.update (fun _ => d) (unitOf tfr) d', outs) ∧
        Delivered blankCard d (getParams tfr d.pDesc).lba.toNat
          (getParams tfr d.pDesc).sector_count.toNat outs := by
  intro h
  obtain ⟨d', outs, hrun, hdel⟩ := h blankUnit (secondBlock 0xC4) blankUnit_mounted
    (blankUnit_reads 0xC4) rfl
  have houts : outs = abort (secondBlock 0xC4) := by
    have hrefuse : ataHandle blankCard (fun _ => blankUnit) (secondBlock 0xC4) (fun _ => 0)
        = some (blankCard, Function.update (fun _ => blankUnit) 0 blankUnit,
          abort (secondBlock 0xC4)) := rfl
    rw [hrefuse] at hrun
    exact (congrArg (fun r => r.2.2) (Option.some.inj hrun)).symm
  rw [houts] at hdel
  exact absurd hdel.length (by decide)

end FileIO.Drv08
