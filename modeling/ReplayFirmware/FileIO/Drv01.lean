import ReplayFirmware.FileIO.FCh
import ReplayFirmware.FileIO.Mfm
import ReplayFirmware.Libc.Ctype

/-! The floppy driver.

    An ADF image holds the sectors of a disk, eleven to a track. A read sends the next sector of the
    commanded track as an MFM stream; a write looks for the sync word in one request and takes the
    sector in the next. An SCP image holds flux data and is read only. -/

namespace FileIO.Drv01
open FatFs Libc

inductive Format where | XXX | ADF | SCP
  deriving DecidableEq, Repr

/-- `drv01_desc_t`; the SCP track header is kept as it stands in the file. -/
structure Desc where
  format : Format
  file_size : UInt32
  total_tracks : UInt16
  cur_sector : UInt8
  scp_start_track : UInt8
  scp_end_track : UInt8
  scp_revolutions : UInt8
  scp_cur_track : UInt8
  scp_cur_track_header_addr : UInt32
  scp_cur_track_header : ℕ → UInt8
  scp_cur_track_rev : UInt8
  scp_cur_track_offset : UInt32

/-- `fch_t` of a floppy drive. -/
abbrev Drive := Fch Desc

/-- `DRV01_STAT_REQ_ACK` -/
def statReqAck : UInt8 := 0x01

/-- `DRV01_STAT_TRANS_ACK_OK` -/
def statAckOk : UInt8 := 0x02

/-- `DRV01_STAT_TRANS_ACK_SEEK_ERR` -/
def statAckSeekErr : UInt8 := 0x12

/-- `DRV01_STAT_TRANS_ACK_ABORT_ERR` -/
def statAckAbortErr : UInt8 := 0x42

/-- `ADF_MAX_TRACKS` -/
def adfMaxTracks : UInt16 := 83 * 2

/-! ### Inserting a disk -/

/-- A descriptor of zeros, as `calloc` gives it. -/
def Desc.zero : Desc :=
  { format := .XXX, file_size := 0, total_tracks := 0, cur_sector := 0, scp_start_track := 0
    scp_end_track := 0, scp_revolutions := 0, scp_cur_track := 0, scp_cur_track_header_addr := 0
    scp_cur_track_header := fun _ => 0, scp_cur_track_rev := 0, scp_cur_track_offset := 0 }

/-- The tracks of an ADF image, as many as the drive can have. -/
def adfTracks (file_size : UInt32) : UInt16 :=
  let total_tracks : UInt16 := (file_size / (512 * 11)).toUInt16
  if total_tracks > adfMaxTracks then adfMaxTracks else total_tracks

/-- `FileIO_Drv01_InsertInit`: `none` when the image is refused. `hdr` is what the stack holds where
    the SCP header is read to. -/
def insertInit (status : UInt8) (fSource : FIL) (ext : List UInt8) (hdr : ℕ → UInt8) :
    Option Drive :=
  let file_size : UInt32 := (FF_Size fSource).toUInt32
  if extIs ext "ADF" then
    some { status := status, fSource := fSource
           pDesc := { Desc.zero with
             format := .ADF, file_size := file_size, total_tracks := adfTracks file_size } }
  else if extIs ext "SCP" then
    let (_, fSource) := FF_Seek fSource 0
    let (bs, fSource) := FF_Read fSource 16
    let hdr := readInto hdr bs
    if ¬ (hdr 0 = 0x53 ∧ hdr 1 = 0x43 ∧ hdr 2 = 0x50) then none
    else if hdr 9 ≠ 0 ∨ hdr 5 < 1 ∨ hdr 5 > 5 ∨ hdr 7 < hdr 6 then none
    else
      some { status := status ||| statReadonly, fSource := fSource
             pDesc := { Desc.zero with
               format := .SCP, file_size := file_size
               total_tracks := 1 + (hdr 7).toUInt16 - (hdr 6).toUInt16
               scp_start_track := hdr 6, scp_end_track := hdr 7, scp_revolutions := hdr 5
               scp_cur_track := 255 } }
  else none

/-! ### Writing -/

/-- `DRV01_ADF_WRITE_LEN`, in words. -/
def adfWriteLen : ℕ := 540

/-- The sync word. -/
def syncWord : UInt16 := 0x4489

/-- The loop of state 0: words are taken from the FIFO until one is the sync word or `reqsize` has
    run down. -/
def syncLoop (fifo : ℕ → UInt8) : ℕ → ℕ → UInt16 → Bool
  | 0, _, _ => false
  | fuel + 1, k, reqsize =>
    if fifoWord fifo k = syncWord then true
    else if reqsize - 1 = 0 then false
    else syncLoop fifo fuel (k + 1) (reqsize - 1)

/-- Parameter `i` of the sector header. -/
def param (rxbuf : ℕ → UInt8) (i : ℕ) : UInt8 := mfmDecode (rxbuf i) (rxbuf (i + 4))

/-- Byte `i` of the checksum over `n` groups of four bytes from `start` on. -/
def checksum (rxbuf : ℕ → UInt8) (start n i : ℕ) : UInt8 :=
  xorSum (fun j => rxbuf (start + i + j * 4)) n &&& 0x55

/-- Byte `i` of the checksum that stands at `start`. -/
def sentChecksum (rxbuf : ℕ → UInt8) (start i : ℕ) : UInt8 :=
  mfmDecode (rxbuf (i + start)) (rxbuf (i + start + 4))

/-- Whether the checksum at `at_` is that of `n` groups from `start` on. -/
def checksumOk (rxbuf : ℕ → UInt8) (start n at_ : ℕ) : Bool :=
  sentChecksum rxbuf at_ 0 = checksum rxbuf start n 0 ∧
    sentChecksum rxbuf at_ 1 = checksum rxbuf start n 1 ∧
    sentChecksum rxbuf at_ 2 = checksum rxbuf start n 2 ∧
    sentChecksum rxbuf at_ 3 = checksum rxbuf start n 3

/-- The data is decoded in place, over its odd bits. -/
def decodeBuffer (rxbuf : ℕ → UInt8) : ℕ → UInt8 :=
  (List.range 0x200).foldl
    (fun b i => Function.update b (i + 0x38) (mfmDecode (b (i + 0x38)) (b (i + 0x238)))) rxbuf

/-- Where a sector starts in the image. -/
def sectorOffset (track sector : UInt8) : UInt32 :=
  (512 * 11 : UInt32) * track.toUInt32 + sector.toUInt32 <<< 9

/-- State 1 of `FileIO_Drv01_ADF_Write`: the sector behind the second sync word is checked and
    written. -/
def adfSector (pDrive : Drive) (rq : Request) (track : UInt8) (reqsize : UInt16) : Drive :=
  if reqsize.toNat < adfWriteLen then pDrive
  else if fifoWord rq.fifo 0 ≠ syncWord then pDrive
  else
    let rxbuf : ℕ → UInt8 := fun i => rq.fifo (2 + i)
    let p := param rxbuf
    if p 0 ≠ 0xFF ∨ (p 1).toUInt16 ≥ pDrive.pDesc.total_tracks ∨ p 2 > 10 ∨ p 3 > 11 ∨ p 3 = 0 then
      pDrive
    else if p 1 ≠ track then pDrive
    else
      let offset := sectorOffset track (p 2)
      if !checksumOk rxbuf 0 10 0x28 then pDrive
      else if !checksumOk rxbuf 0x38 0x100 0x30 then pDrive
      else if !pDrive.writable then pDrive
      else
        let rxbuf := decodeBuffer rxbuf
        match FF_Seek pDrive.fSource offset.toNat with
        | (.ok, fSource) =>
          -- a short write is only warned about
          let (_, fSource) := FF_Write fSource ((List.range 0x200).map fun i => rxbuf (0x38 + i))
          { pDrive with fSource := fSource }
        | (_, fSource) => { pDrive with fSource := fSource }

/-- The size of a request in words; the register holds one less. -/
def reqSize (rq : Request) : UInt16 :=
  ((rq.cmd 5).toUInt16 <<< 8 ||| (rq.cmd 6).toUInt16) + 1

/-- `FileIO_Drv01_ADF_Write`: the new write state, the drive, and the two status writes. -/
def adfWrite (pDrive : Drive) (rq : Request) (write_state : UInt8) :
    UInt8 × Drive × List FChOut :=
  let track := rq.cmd 2
  let outs := [.stat statReqAck, .stat statAckOk]
  if write_state = 0 then
    (if syncLoop rq.fifo 65536 0 (reqSize rq) then 1 else 0, pDrive, outs)
  else if write_state = 1 then (0, adfSector pDrive rq track (reqSize rq), outs)
  else (0, pDrive, outs)

/-! ### Reading -/

/-- `FileIO_Drv01_Amiga_SendHeader`: preamble, sync words, header, label, and the two checksums. -/
def sendHeader (pBuffer : ℕ → UInt8) (sector track dsksynch dsksyncl : UInt8) : List UInt8 :=
  -- odd bits of header
  let x0 := mfmEncode 0xFF dsksyncl
  let x1 := mfmEncode (track >>> 1) x0
  let x2 := mfmEncode (sector >>> 1) x1
  let x3 := mfmEncode ((11 - sector) >>> 1) x2
  -- even bits of header
  let y0 := mfmEncode 0xFF x3
  let y1 := mfmEncode track y0
  let y2 := mfmEncode sector y1
  let y3 := mfmEncode (11 - sector) y2
  -- data checksum
  let c := fun k => xorSum (fun j => pBuffer (4 * j + k) ^^^ pBuffer (4 * j + k) >>> 1) 128
  [0xAA, 0xAA, 0xAA, 0xAA, dsksynch, dsksyncl, dsksynch, dsksyncl]
    ++ [x0, x1, x2, x3, y0, y1, y2, y3]
    ++ List.replicate 32 0xAA
    ++ [0xAA, 0xAA, 0xAA, 0xAA,
        (x0 ^^^ y0) ||| 0xAA, (x1 ^^^ y1) ||| 0xAA, (x2 ^^^ y2) ||| 0xAA, (x3 ^^^ y3) ||| 0xAA]
    ++ [0xAA, 0xAA, 0xAA, 0xAA, c 0 ||| 0xAA, c 1 ||| 0xAA, c 2 ||| 0xAA, c 3 ||| 0xAA]

/-- `LAST_SECTOR` -/
def lastSector : UInt8 := 10

/-- `GAP_SIZE` -/
def gapSize : ℕ := 12668 - 11 * (0x40 + 0x400)

/-- The sync word a read uses: some copy protections ask for others. -/
def readSync (dsksync : UInt16) : UInt16 :=
  if dsksync = 0x0000 ∨ dsksync = 0x8914 ∨ dsksync = 0xA144 then syncWord else dsksync

/-- `FileIO_Drv01_ADF_Read`: the drive, the sector buffer, and what is sent. FIFO modes 2 and 3 send
    the odd and the even bits of the buffer. -/
def adfRead (pDrive : Drive) (pBuffer : ℕ → UInt8) (rq : Request) :
    Drive × (ℕ → UInt8) × List FChOut :=
  let pDesc := pDrive.pDesc
  let track := rq.cmd 2
  let dsksync := readSync ((rq.cmd 3).toUInt16 <<< 8 ||| (rq.cmd 4).toUInt16)
  let track := if track.toUInt16 ≥ pDesc.total_tracks then (pDesc.total_tracks - 1).toUInt8 else track
  let sector := pDesc.cur_sector
  let pDrive := { pDrive with
    pDesc := { pDesc with cur_sector := if sector = lastSector then 0 else sector + 1 } }
  match FF_Seek pDrive.fSource (sectorOffset track sector).toNat with
  | (.ok, fSource) =>
    let (bs, fSource) := FF_Read fSource 512
    let pBuffer := readInto pBuffer bs
    let data := (List.range 512).map pBuffer
    let header := sendHeader pBuffer sector track (dsksync >>> 8).toUInt8 dsksync.toUInt8
    let gap := if sector = lastSector then
      [.fifo 1 [0xAA, 0xAA], .fifo 0 (List.replicate (gapSize / 2) 0xAA)] else []
    ({ pDrive with fSource := fSource }, pBuffer,
      [.stat statReqAck, .fifo 0 header, .fifo 2 data, .fifo 3 data] ++ gap ++ [.stat statAckOk])
  | (_, fSource) =>
    ({ pDrive with fSource := fSource }, pBuffer, [.stat statReqAck, .stat statAckSeekErr])

/-! ### Flux data -/

/-- Four bytes, low byte first. -/
def le32 (b : ℕ → UInt8) (i : ℕ) : UInt32 :=
  (b i).toUInt32 ||| (b (i + 1)).toUInt32 <<< 8 ||| (b (i + 2)).toUInt32 <<< 16
    ||| (b (i + 3)).toUInt32 <<< 24

/-- `tlo[rev].track_length` and `tlo[rev].track_offset` of a track header. -/
def tloLength (hdr : ℕ → UInt8) (rev : UInt8) : UInt32 := le32 hdr (4 + 12 * rev.toNat + 4)

def tloOffset (hdr : ℕ → UInt8) (rev : UInt8) : UInt32 := le32 hdr (4 + 12 * rev.toNat + 8)

/-- The head steps to another track: its header is read. -/
def scpStep (pDrive : Drive) (track : UInt8) : Drive :=
  let pDesc := { pDrive.pDesc with scp_cur_track := track }
  if track > pDesc.scp_end_track ∨ track < pDesc.scp_start_track then
    { pDrive with pDesc := { pDesc with scp_cur_track_header_addr := 0 } }
  else
    let (_, f) := FF_Seek pDrive.fSource (0x0010 + (track.toNat - pDesc.scp_start_track.toNat) * 4)
    let (bs, f) := FF_Read f 4
    let offset := le32 (readInto (fun _ => 0) bs) 0
    if offset = 0 then
      { pDrive with fSource := f, pDesc := { pDesc with scp_cur_track_header_addr := 0 } }
    else
      let (_, f) := FF_Seek f offset.toNat
      let (bs, f) := FF_Read f 64
      let hdr := readInto pDesc.scp_cur_track_header bs
      let addr := if ¬ (hdr 0 = 0x54 ∧ hdr 1 = 0x52 ∧ hdr 2 = 0x4B) ∨ hdr 3 ≠ track then 0 else offset
      let pos := pDesc.scp_cur_track_offset
      { pDrive with
        fSource := f
        pDesc := { pDesc with
          scp_cur_track_header_addr := addr, scp_cur_track_header := hdr, scp_cur_track_rev := 0
          scp_cur_track_offset := if pos > tloLength hdr 0 then 0 else pos } }

/-- The next burst of flux data of the current track. -/
def scpBurst (pDrive : Drive) (pBuffer : ℕ → UInt8) : Drive × (ℕ → UInt8) × List FChOut :=
  let pDesc := pDrive.pDesc
  let marker := if pDesc.scp_cur_track_offset = 0 then [.fifo 1 [0x00, 0x04]] else []
  let cur_track_len := tloLength pDesc.scp_cur_track_header pDesc.scp_cur_track_rev
  let trans_len := cur_track_len - pDesc.scp_cur_track_offset
  let trans_len := (if trans_len > 1024 then 1024 else trans_len) <<< 1
  let offset := pDesc.scp_cur_track_header_addr
    + tloOffset pDesc.scp_cur_track_header pDesc.scp_cur_track_rev
    + (pDesc.scp_cur_track_offset <<< 1)
  let (_, f) := FF_Seek pDrive.fSource offset.toNat
  let offset_sub := offset &&& 0x1FF
  let aligned := offset_sub = 0 ∧ trans_len &&& 0x1FF = 0
  let room := 0x200 - offset_sub
  let trans_len :=
    if aligned then trans_len else (if trans_len > room then room else trans_len) &&& 0xFFFE
  let (pBuffer, sent, f) :=
    if aligned then
      let (bs, _, f) := FF_ReadDirect f trans_len.toNat
      (pBuffer, .direct bs, f)
    else
      let (bs, f) := FF_Read f trans_len.toNat
      let pBuffer := readInto pBuffer bs
      (pBuffer, .fifo 0 ((List.range trans_len.toNat).map pBuffer), f)
  let pos := pDesc.scp_cur_track_offset + (trans_len >>> 1)
  let rev := pDesc.scp_cur_track_rev + 1
  let pDesc :=
    if pos ≥ cur_track_len then
      { pDesc with scp_cur_track_offset := 0
                   scp_cur_track_rev := if rev = pDesc.scp_revolutions then 0 else rev }
    else { pDesc with scp_cur_track_offset := pos }
  ({ pDrive with fSource := f, pDesc := pDesc }, pBuffer, marker ++ [sent])

/-- `FileIO_Drv01_SCP_Read` -/
def scpRead (pDrive : Drive) (pBuffer : ℕ → UInt8) (rq : Request) :
    Drive × (ℕ → UInt8) × List FChOut :=
  let track := rq.cmd 2
  let pDrive := if track ≠ pDrive.pDesc.scp_cur_track then scpStep pDrive track else pDrive
  if pDrive.pDesc.scp_cur_track_header_addr = 0 then
    (pDrive, pBuffer, [.stat statReqAck, .stat statAckOk])
  else
    let (pDrive, pBuffer, outs) := scpBurst pDrive pBuffer
    (pDrive, pBuffer, [.stat statReqAck] ++ outs ++ [.stat statAckOk])

end FileIO.Drv01
