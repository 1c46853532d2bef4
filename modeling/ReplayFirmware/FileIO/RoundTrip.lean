import ReplayFirmware.FileIO.AdfWrite

/-! A sector that is read comes back when it is written.

    A read puts the two checksums together from the data bytes, a write from the MFM bytes it
    receives. `Carries` is where the two meet: it says what stands behind the second sync word when
    the stream of a read is presented to a write, with whatever clock bits the FIFO has put between
    the data bits. -/

namespace FileIO.Drv01
open FatFs RangeFold

/-! ### The stream -/

/-- What the FIFO of the core does to the bytes of a transfer: mode 0 passes them on, modes 2 and 3
    send the odd and the even bits, with clock bits of their own. -/
structure FifoModes (fifoMode : UInt8 → List UInt8 → List UInt8) : Prop where
  plain : ∀ bs, fifoMode 0 bs = bs
  odd : ∀ bs, (fifoMode 2 bs).map dataBits = bs.map fun x : UInt8 => dataBits (x >>> 1)
  even : ∀ bs, (fifoMode 3 bs).map dataBits = bs.map dataBits

/-- The bytes that leave the FIFO. -/
def emitted (fifoMode : UInt8 → List UInt8 → List UInt8) (outs : List FChOut) : List UInt8 :=
  outs.flatMap fun out =>
    match out with
    | .stat _ => []
    | .cmd _ _ => []
    | .fifo mode bs => fifoMode mode bs
    | .direct bs => bs

/-- Behind the second sync word stand the rest of the header and the bits of the data. -/
structure Carries (rx buf : ℕ → UInt8) (sector track dsksynch dsksyncl : UInt8) : Prop where
  header : ∀ i, i < 56 → (sendHeader buf sector track dsksynch dsksyncl)[8 + i]? = some (rx i)
  odd : ∀ i, i < 512 → dataBits (rx (0x38 + i)) = dataBits (buf i >>> 1)
  even : ∀ i, i < 512 → dataBits (rx (0x238 + i)) = dataBits (buf i)

/-! ### What a write makes of it -/

section
variable {rx buf : ℕ → UInt8} {sector track dsksynch dsksyncl : UInt8}

theorem Carries.header_eq (h : Carries rx buf sector track dsksynch dsksyncl) {i : ℕ} {x : UInt8}
    (hi : i < 56) (hx : (sendHeader buf sector track dsksynch dsksyncl)[8 + i]? = some x) :
    rx i = x :=
  Option.some.inj ((h.header i hi).symm.trans hx)

/-- A parameter travels as two bytes of the header. -/
theorem Carries.param_eq (h : Carries rx buf sector track dsksynch dsksyncl) {i : ℕ}
    {x d l l' : UInt8} (hi : i < 4) (hd : dataBits d = dataBits (x >>> 1))
    (hodd : (sendHeader buf sector track dsksynch dsksyncl)[8 + i]? = some (mfmEncode d l))
    (heven : (sendHeader buf sector track dsksynch dsksyncl)[8 + (i + 4)]?
      = some (mfmEncode x l')) : param rx i = x := by
  rw [param, h.header_eq (by omega) hodd, h.header_eq (by omega) heven]
  refine mfmDecode_of_bits ?_ (dataBits_mfmEncode x l')
  rw [dataBits_mfmEncode, hd]

/-- The parameters are those of the sector. -/
theorem Carries.params (h : Carries rx buf sector track dsksynch dsksyncl) :
    param rx 0 = 0xFF ∧ param rx 1 = track ∧ param rx 2 = sector ∧ param rx 3 = 11 - sector :=
  ⟨h.param_eq (by decide) (by decide) rfl rfl, h.param_eq (by decide) rfl rfl rfl,
    h.param_eq (by decide) rfl rfl rfl, h.param_eq (by decide) rfl rfl rfl⟩

theorem gap_of_sector {s : UInt8} (h : s ≤ lastSector) : 0 < 11 - s ∧ 11 - s ≤ 11 := by
  cases s with
  | ofBitVec b => revert b; decide

/-- The label has no data bits. -/
theorem sendHeader_label (buf : ℕ → UInt8) (sector track dsksynch dsksyncl : UInt8) {k : ℕ}
    (hk : 8 ≤ k) (hk' : k < 40) :
    (sendHeader buf sector track dsksynch dsksyncl)[8 + k]? = some 0xAA := by
  rw [sendHeader]
  simp only
  rw [List.getElem?_append_left, List.getElem?_append_left, List.getElem?_append_right,
    List.getElem?_replicate, if_pos]
  all_goals
    simp only [List.length_append, List.length_cons, List.length_nil, List.length_replicate]
    omega

/-- One byte of the header checksum: the two parameter bytes, and eight bytes of the label. -/
theorem Carries.headerChecksum_eq (h : Carries rx buf sector track dsksynch dsksyncl) {i : ℕ}
    {x y : UInt8} (hi : i < 4)
    (hx : (sendHeader buf sector track dsksynch dsksyncl)[8 + i]? = some x)
    (hy : (sendHeader buf sector track dsksynch dsksyncl)[8 + (i + 4)]? = some y)
    (hpad : (sendHeader buf sector track dsksynch dsksyncl)[8 + (i + 0x28)]? = some 0xAA)
    (hsent : (sendHeader buf sector track dsksynch dsksyncl)[8 + (i + 0x28 + 4)]?
      = some ((x ^^^ y) ||| 0xAA)) :
    sentChecksum rx 0x28 i = checksum rx 0 10 i := by
  have hlabel : xorSum (fun j => dataBits (rx (0 + i + (2 + j) * 4))) 8 = 0 := by
    refine xorSum_zero fun j hj => ?_
    rw [h.header_eq (by omega) (sendHeader_label buf sector track dsksynch dsksyncl
      (k := 0 + i + (2 + j) * 4) (by omega) (by omega))]
    decide
  have hparam : xorSum (fun j => dataBits (rx (0 + i + j * 4))) 2 = dataBits (x ^^^ y) := by
    show (0 : UInt8) ^^^ dataBits (rx (0 + i + 0 * 4)) ^^^ dataBits (rx (0 + i + 1 * 4)) = _
    rw [Nat.zero_add, h.header_eq (i := i + 0 * 4) (by omega) hx,
      h.header_eq (i := i + 1 * 4) (by omega) hy, UInt8.zero_xor, dataBits_xor]
  rw [sentChecksum, h.header_eq (by omega) hpad, h.header_eq (by omega) hsent, mfmDecode_checksum]
  show _ = dataBits (xorSum _ (2 + 8))
  rw [dataBits_xorSum, xorSum_add, hparam, hlabel, UInt8.xor_zero]

/-- The header checksum is accepted. -/
theorem Carries.headerChecksum (h : Carries rx buf sector track dsksynch dsksyncl) :
    checksumOk rx 0 10 0x28 = true := by
  rw [checksumOk, decide_eq_true_eq]
  exact ⟨h.headerChecksum_eq (by decide) rfl rfl rfl rfl,
    h.headerChecksum_eq (by decide) rfl rfl rfl rfl,
    h.headerChecksum_eq (by decide) rfl rfl rfl rfl,
    h.headerChecksum_eq (by decide) rfl rfl rfl rfl⟩

/-- One byte of the data checksum: a read sums `x ^ x >> 1`, a write the odd and then the even
    bits. -/
theorem Carries.dataChecksum_eq (h : Carries rx buf sector track dsksynch dsksyncl) {i : ℕ}
    (hi : i < 4) (hpad : (sendHeader buf sector track dsksynch dsksyncl)[8 + (i + 0x30)]? = some 0xAA)
    (hsent : (sendHeader buf sector track dsksynch dsksyncl)[8 + (i + 0x30 + 4)]?
      = some (xorSum (fun j => buf (4 * j + i) ^^^ buf (4 * j + i) >>> 1) 128 ||| 0xAA)) :
    sentChecksum rx 0x30 i = checksum rx 0x38 0x100 i := by
  have hodd : xorSum (fun j => dataBits (rx (0x38 + i + j * 4))) 128
      = xorSum (fun j => dataBits (buf (4 * j + i) >>> 1)) 128 := by
    refine xorSum_congr fun j hj => ?_
    rw [← h.odd (4 * j + i) (by omega)]
    congr 2
    omega
  have heven : xorSum (fun j => dataBits (rx (0x38 + i + (128 + j) * 4))) 128
      = xorSum (fun j => dataBits (buf (4 * j + i))) 128 := by
    refine xorSum_congr fun j hj => ?_
    rw [← h.even (4 * j + i) (by omega)]
    congr 2
    omega
  rw [sentChecksum, h.header_eq (by omega) hpad, h.header_eq (by omega) hsent, mfmDecode_checksum]
  show _ = dataBits (xorSum _ (128 + 128))
  rw [dataBits_xorSum, dataBits_xorSum, xorSum_add, hodd, heven, UInt8.xor_comm, ← xorSum_xor]
  simp only [dataBits_xor]

/-- The data checksum is accepted. -/
theorem Carries.dataChecksum (h : Carries rx buf sector track dsksynch dsksyncl) :
    checksumOk rx 0x38 0x100 0x30 = true := by
  rw [checksumOk, decide_eq_true_eq]
  exact ⟨h.dataChecksum_eq (by decide) rfl rfl, h.dataChecksum_eq (by decide) rfl rfl,
    h.dataChecksum_eq (by decide) rfl rfl, h.dataChecksum_eq (by decide) rfl rfl⟩

/-- The data decodes to the bytes that were sent. -/
theorem Carries.decoded {rq : Request} (h : Carries (rxbuf rq) buf sector track dsksynch dsksyncl) :
    Drv01.decoded rq = (List.range 512).map buf := by
  refine List.map_congr_left fun i hi => ?_
  have hi := List.mem_range.mp hi
  exact mfmDecode_of_bits (h.odd i hi) (h.even i hi)

end

/-! ### What a read sends -/

/-- A read of a track that is there sends the header and the bits of its next sector. -/
theorem adfRead_outs {d : Drive} (hm : Mounted d) (he : d.fSource.err = false)
    (pBuffer : ℕ → UInt8) {rq : Request}
    (htrack : (rq.cmd 2).toUInt16 < d.pDesc.total_tracks) {start : ℕ}
    (hstart : start = 512 * (11 * (rq.cmd 2).toNat + d.pDesc.cur_sector.toNat))
    (hread : start + 512 ≤ d.fSource.readable) :
    ∃ buf dsksynch dsksyncl gap,
      (List.range 512).map buf = (d.fSource.data.drop start).take 512 ∧
      (adfRead d pBuffer rq).2.2
        = .stat statReqAck
          :: .fifo 0 (sendHeader buf d.pDesc.cur_sector (rq.cmd 2) dsksynch dsksyncl)
          :: .fifo 2 ((List.range 512).map buf) :: .fifo 3 ((List.range 512).map buf) :: gap := by
  have hsector := hm.sector
  have htracks := hm.tracks
  have hs : d.pDesc.cur_sector.toNat ≤ 10 := UInt8.le_iff_toNat_le.mp hsector
  have ht : (rq.cmd 2).toNat < d.pDesc.total_tracks.toNat := by
    have := UInt16.lt_iff_toNat_lt.mp htrack
    rwa [UInt8.toNat_toUInt16] at this
  have hin : start + 512 ≤ d.fSource.objsize := by omega
  obtain ⟨clust, hseek⟩ := FF_Seek_in hm.ok he (show start ≤ d.fSource.objsize by omega)
  have hok := FF_Seek_ok hm.ok start
  rw [hseek] at hok
  have hbytes := FF_Read_in hok he hin hread
  simp only [adfRead]
  rw [if_neg (UInt16.not_le.mpr htrack), sectorOffset_toNat _ hsector, ← hstart, hseek]
  simp only
  rw [hbytes]
  have hfill := map_readInto pBuffer ((d.fSource.data.drop start).take 512)
  rw [List.length_take, List.length_drop, Nat.min_eq_left (by rw [FIL.objsize] at hin; omega)]
    at hfill
  exact ⟨_, _, _, _, hfill, rfl⟩

/-! ### The round trip -/

@[simp] theorem length_sendHeader (buf : ℕ → UInt8) (sector track dsksynch dsksyncl : UInt8) :
    (sendHeader buf sector track dsksynch dsksyncl).length = 64 := rfl

/-- An entry of a list whose entries carry the bits of another. -/
theorem getD_of_map_eq {f g : UInt8 → UInt8} {as bs : List UInt8} (h : as.map f = bs.map g)
    {i : ℕ} (hi : i < bs.length) : f (as.getD i 0) = g (bs.getD i 0) := by
  have hlen : as.length = bs.length := by simpa only [List.length_map] using congrArg List.length h
  have hat : (as.map f)[i]? = (bs.map g)[i]? := by rw [h]
  rw [List.getElem?_map, List.getElem?_map, List.getElem?_eq_getElem hi,
    List.getElem?_eq_getElem (by omega)] at hat
  rw [List.getD_eq_getElem?_getD, List.getD_eq_getElem?_getD, List.getElem?_eq_getElem hi,
    List.getElem?_eq_getElem (by omega)]
  exact Option.some.inj hat

/-- What a read has sent, presented behind the second sync word, carries its sector. -/
theorem carries_emitted {fifoMode : UInt8 → List UInt8 → List UInt8} (hmodes : FifoModes fifoMode)
    {rx buf : ℕ → UInt8} {sector track dsksynch dsksyncl : UInt8} {gap : List FChOut}
    (hrx : ∀ i, i < 1080 → rx i = (emitted fifoMode (.stat statReqAck
      :: .fifo 0 (sendHeader buf sector track dsksynch dsksyncl)
      :: .fifo 2 ((List.range 512).map buf) :: .fifo 3 ((List.range 512).map buf)
      :: gap)).getD (8 + i) 0) :
    Carries rx buf sector track dsksynch dsksyncl := by
  have hodd := hmodes.odd ((List.range 512).map buf)
  have heven := hmodes.even ((List.range 512).map buf)
  have hlodd := congrArg List.length hodd
  have hleven := congrArg List.length heven
  simp only [List.length_map, List.length_range] at hlodd hleven
  have hdata : ∀ i, i < 512 → ((List.range 512).map buf).getD i 0 = buf i := by
    intro i hi
    rw [List.getD_eq_getElem?_getD, List.getElem?_map, List.getElem?_range hi]
    rfl
  simp only [emitted, List.flatMap_cons, List.nil_append, hmodes.plain,
    List.getD_eq_getElem?_getD] at hrx
  refine ⟨fun i hi => ?_, fun i hi => ?_, fun i hi => ?_⟩
  · rw [hrx i (by omega), List.getElem?_append_left (by rw [length_sendHeader]; omega),
      List.getElem?_eq_getElem (by rw [length_sendHeader]; omega)]
    rfl
  · rw [hrx (0x38 + i) (by omega), List.getElem?_append_right (by rw [length_sendHeader]; omega),
      List.getElem?_append_left (by rw [length_sendHeader]; omega), length_sendHeader,
      show 8 + (0x38 + i) - 64 = i by omega, ← List.getD_eq_getElem?_getD,
      getD_of_map_eq hodd (by simpa using hi), hdata i hi]
  · rw [hrx (0x238 + i) (by omega), List.getElem?_append_right (by rw [length_sendHeader]; omega),
      List.getElem?_append_right (by rw [length_sendHeader]; omega),
      List.getElem?_append_left (by rw [length_sendHeader]; omega), length_sendHeader,
      show 8 + (0x238 + i) - 64 - (fifoMode 2 ((List.range 512).map buf)).length = i by omega,
      ← List.getD_eq_getElem?_getD, getD_of_map_eq heven (by simpa using hi), hdata i hi]

/-- The sector a read of one drive has sent, presented to a drive with that track, is accepted there
    and written to the same place. -/
theorem adfRead_adfWrite {fifoMode : UInt8 → List UInt8 → List UInt8} (hmodes : FifoModes fifoMode)
    {d : Drive} (hm : Mounted d) (he : d.fSource.err = false) (pBuffer : ℕ → UInt8) {rq : Request}
    (htrack : (rq.cmd 2).toUInt16 < d.pDesc.total_tracks) {start : ℕ}
    (hstart : start = 512 * (11 * (rq.cmd 2).toNat + d.pDesc.cur_sector.toNat))
    (hread : start + 512 ≤ d.fSource.readable)
    {d' : Drive} (hm' : Mounted d') (he' : d'.fSource.err = false) (hw' : d'.writable = true)
    {wq : Request} (hcmd : wq.cmd 2 = rq.cmd 2)
    (htrack' : (wq.cmd 2).toUInt16 < d'.pDesc.total_tracks)
    (hsize : adfWriteLen ≤ (reqSize wq).toNat) (hsync : fifoWord wq.fifo 0 = syncWord)
    (hfifo : ∀ i, i < 1080 →
      wq.fifo (2 + i) = (emitted fifoMode (adfRead d pBuffer rq).2.2).getD (8 + i) 0) :
    Accepts d' wq 1 ∧
      (adfWrite d' wq 1).2.1.fSource.data
        = Splice.splice d'.fSource.data start ((d.fSource.data.drop start).take 512) := by
  obtain ⟨buf, dsksynch, dsksyncl, gap, hbuf, houts⟩ := adfRead_outs hm he pBuffer htrack hstart hread
  rw [houts] at hfifo
  have hc : Carries (rxbuf wq) buf d.pDesc.cur_sector (rq.cmd 2) dsksynch dsksyncl :=
    carries_emitted hmodes hfifo
  obtain ⟨hmark, htr, hse, hgap⟩ := hc.params
  have haccepts : Accepts d' wq 1 :=
    { state := rfl
      size := hsize
      sync := hsync
      mark := hmark
      tracks := by rw [htr, ← hcmd]; exact htrack'
      track := by rw [htr, hcmd]
      sector := by rw [hse]; exact hm.sector
      gap := by rw [hgap]; exact gap_of_sector hm.sector
      header := hc.headerChecksum
      data := hc.dataChecksum
      writable := hw'
      healthy := he' }
  have hplace : sectorStart wq = start := by rw [sectorStart, hse, hcmd, hstart]
  refine ⟨haccepts, ?_⟩
  rw [← hbuf, ← hc.decoded, ← hplace]
  exact (adfSector_data hm' wq).2 haccepts

/-- The two modes with all clock bits set. -/
def orMode (mode : UInt8) (bs : List UInt8) : List UInt8 :=
  if mode = 2 then bs.map fun x : UInt8 => x >>> 1 ||| 0xAA
  else if mode = 3 then bs.map fun x => x ||| 0xAA
  else bs

theorem orMode_modes : FifoModes orMode where
  plain _ := rfl
  odd bs := by
    show (bs.map fun x : UInt8 => x >>> 1 ||| 0xAA).map dataBits = _
    rw [List.map_map]
    exact List.map_congr_left fun x _ => dataBits_or_clock _ (by decide)
  even bs := by
    show (bs.map fun x => x ||| 0xAA).map dataBits = _
    rw [List.map_map]
    exact List.map_congr_left fun x _ => dataBits_or_clock _ (by decide)

/-- A read of track 0. -/
def readTrack0 : Request := { status := 0x08, cmd := fun _ => 0, fifo := fun _ => 0 }

/-- What it sends from the empty disk, presented to a write. -/
def echoTrack0 : Request :=
  { status := 0x0C
    cmd := zeroSector.cmd
    fifo := fun k => if k = 0 then 0x44 else if k = 1 then 0x89 else
      (emitted orMode (adfRead blank (fun _ => 0) readTrack0).2.2).getD (6 + k) 0 }

theorem adfRead_adfWrite_blank :
    Accepts blank echoTrack0 1 ∧
      (adfWrite blank echoTrack0 1).2.1.fSource.data
        = Splice.splice blank.fSource.data 0 ((blank.fSource.data.drop 0).take 512) := by
  have htrack : (readTrack0.cmd 2).toUInt16 < blank.pDesc.total_tracks := by decide
  refine adfRead_adfWrite orMode_modes blank_mounted rfl (fun _ => 0) htrack rfl (by decide)
    blank_mounted rfl (by decide) rfl (by decide) (by decide) (by decide) ?_
  intro i _
  simp only [echoTrack0]
  rw [if_neg (by omega), if_neg (by omega), show 6 + (2 + i) = 8 + i by omega]

end FileIO.Drv01
