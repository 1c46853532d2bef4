import ReplayFirmware.Drv08.Seek
import ReplayFirmware.Drv08.Blocks

/-! The commands of the hard disk driver.

    The four transfer commands share a state: the card and the unit, the address parameters, the block
    that comes next, and what was sent. A sector command moves one block at a time; a multiple command
    moves bursts of `sectors_per_block` blocks, split again by what the FIFO or the buffer can hold. -/

namespace FileIO.Drv08
open FatFs

/-- How far a transfer has come. `lba` is the block that comes next; `taken` blocks of the FIFO have
    been stored, and `failed` says that a store has failed, which the driver only reports. -/
structure Xfer where
  card : Card
  drive : Drive
  p : Params
  first : Bool
  lba : UInt32
  outs : List FChOut
  taken : ℕ := 0
  failed : Bool := false

/-- The state a transfer starts in, at the parameters of the task file. -/
def startXfer (card : Card) (drive : Drive) (p : Params) (outs : List FChOut) : Xfer :=
  { card := card, drive := drive, p := p, first := true, lba := p.lba, outs := outs }

/-- What a command leaves behind: the card, the unit, what was sent, and of a write how many blocks of
    the FIFO it stored and whether a store failed. -/
structure Done where
  card : Card
  drive : Drive
  outs : List FChOut
  taken : ℕ := 0
  failed : Bool := false

/-- The outcome of a command; `none` where it goes astray. -/
abbrev Outcome := Option Done

/-- A command is refused, after what it has sent already. -/
def refuse (card : Card) (pDrive : Drive) (tfr : TaskFile) (outs : List FChOut) : Outcome :=
  some { card := card, drive := pDrive, outs := outs ++ abort tfr }

/-- A transfer has come to its end. -/
def Xfer.done (x : Xfer) : Outcome :=
  some { card := x.card, drive := x.drive, outs := x.outs, taken := x.taken, failed := x.failed }

/-- Something goes back to the core. -/
def Xfer.send (x : Xfer) (outs : List FChOut) : Xfer := { x with outs := x.outs ++ outs }

/-- The parameters move on by `n` blocks. -/
def Xfer.count (x : Xfer) (n : ℕ) : Xfer :=
  { x with p := burstParams x.drive.pDesc n x.first x.p, first := x.first && n = 0 }

/-- The bytes of blocks. -/
def bytesOf (bs : List Block) : List UInt8 := bs.flatMap Vector.toList

/-! ### Reading -/

/-- `Drv08_BufferSend` -/
def bufferSend (b : Block) : FChOut := .fifo 0 b.toList

/-- `Drv08_CardReadSendDirect` -/
def cardReadSendDirect (card : Card) (lba : UInt32) (numblocks : ℕ) : FChOut :=
  .direct (bytesOf (Card_ReadM card lba numblocks).1)

/-- `Drv08_FileReadSendDirect`; a short read is only reported. -/
def fileReadSendDirect (pDrive : Drive) (sector_count : ℕ) : Drive × FChOut :=
  let (bs, _, fSource) := FF_ReadDirect pDrive.fSource (512 * sector_count)
  ({ pDrive with fSource := fSource }, .direct bs)

/-- Three blocks are made up. -/
theorem threeBlocks : NeZero 3 := ⟨by decide⟩

/-- The made-up block in front of a naked hardfile. -/
def rdbBlock (pDesc : Desc) (lba : UInt32) : Block := pDesc.hdf_rdb (Fin.ofNat 3 lba.toNat)

/-- Up to `n` blocks are read and sent, as many as come from one source: how many, and the state. -/
def sendBlocks (x : Xfer) (n : ℕ) : ℕ × Xfer :=
  let pDesc := x.drive.pDesc
  if pDesc.format = .MMC then
    (n, { x.send [cardReadSendDirect x.card (x.lba + pDesc.lba_offset) n] with
      lba := x.lba + n.toUInt32 })
  else if x.lba < pDesc.lba_offset then
    let i := min n (pDesc.lba_offset - x.lba).toNat
    (i, { x.send ((List.range i).map fun k => bufferSend (rdbBlock pDesc (x.lba + k.toUInt32))) with
      lba := x.lba + i.toUInt32 })
  else
    let (drive, out) := fileReadSendDirect x.drive n
    (n, { x.send [out] with drive := drive, lba := x.lba + n.toUInt32 })

/-- The loop of READ SECTORS. -/
def readSectorsLoop (tfr : TaskFile) : ℕ → Xfer → Xfer
  | 0, x => x
  | n + 1, x =>
    let first := x.first
    let x := (x.send [.stat statusRdy, .stat statusIrq]).count 1
    let x := if first then x else x.send [updateParams tfr x.p]
    readSectorsLoop tfr n (sendBlocks x 1).2

/-- One burst of READ MULTIPLE. -/
def readBurst : ℕ → ℕ → Xfer → Xfer
  | 0, _, x => x
  | fuel + 1, block_count, x =>
    if block_count = 0 then x
    else
      let (i, x) := sendBlocks x (min block_count maxReadBurst)
      readBurst fuel (block_count - i) x

/-- The loop of READ MULTIPLE. -/
def readMultipleLoop (tfr : TaskFile) : ℕ → ℕ → Xfer → Xfer
  | 0, _, x => x
  | fuel + 1, sector_count, x =>
    if sector_count = 0 then x
    else
      let block_count := min sector_count x.drive.pDesc.sectors_per_block.toNat
      let x := (x.send [.stat statusIrq]).count block_count
      let x := readBurst block_count block_count (x.send [updateParams tfr x.p])
      readMultipleLoop tfr fuel (sector_count - block_count) x

/-- The block a read seeks to. -/
def lbaNaked (pDesc : Desc) (lba : UInt32) : UInt32 :=
  if lba < pDesc.lba_offset then pDesc.lba_offset else lba

/-- What the two read commands have in common: the seek, and the loop from there. -/
def readTransfer (card : Card) (pDrive : Drive) (tfr : TaskFile) (outs : List FChOut)
    (loop : ℕ → Xfer → Xfer) : Outcome :=
  let p := getParams tfr pDrive.pDesc
  match hardFileSeek pDrive (lbaNaked pDrive.pDesc p.lba) with
  | none => none
  | some (false, pDrive) => refuse card pDrive tfr outs
  | some (true, pDrive) =>
    (loop p.sector_count.toNat (startXfer card pDrive p outs)).done

/-- READ SECTORS -/
def readSectors (card : Card) (pDrive : Drive) (tfr : TaskFile) : Outcome :=
  readTransfer card pDrive tfr [] (readSectorsLoop tfr)

/-- READ MULTIPLE -/
def readMultiple (card : Card) (pDrive : Drive) (tfr : TaskFile) : Outcome :=
  if pDrive.pDesc.sectors_per_block = 0 then refuse card pDrive tfr []
  else readTransfer card pDrive tfr [.stat statusRdy] fun n => readMultipleLoop tfr n n

/-! ### Writing -/

/-- Block `n` of the FIFO. -/
def fetch (fifo : ℕ → UInt8) (n : ℕ) : Block := Vector.ofFn fun i => fifo (512 * n + i)

/-- The next `n` blocks of the FIFO are stored: `Drv08_CardWrite` or `Drv08_FileWrite`. -/
def storeBlocks (fifo : ℕ → UInt8) (x : Xfer) (n : ℕ) : Xfer :=
  let bs := (List.range n).map fun k => fetch fifo (x.taken + k)
  let y := { x with taken := x.taken + n, lba := x.lba + n.toUInt32 }
  if x.drive.pDesc.format = .MMC then
    let (card, good) := Card_WriteM x.card (x.lba + x.drive.pDesc.lba_offset) bs
    { y with card := card, failed := x.failed || !good }
  else
    let (bytes_w, fSource) := FF_Write x.drive.fSource (bytesOf bs)
    { y with drive := { x.drive with fSource := fSource }, failed := x.failed || bytes_w ≠ 512 * n }

/-- The status that releases the core, with `left` blocks to go. -/
def release (left : ℕ) : FChOut := .stat (if left = 0 then statusEnd ||| statusIrq else statusIrq)

/-- The loop of WRITE SECTORS. -/
def writeSectorsLoop (tfr : TaskFile) (fifo : ℕ → UInt8) : ℕ → Xfer → Xfer
  | 0, x => x
  | n + 1, x =>
    let first := x.first
    let x := x.count 1
    let x := if first then x else x.send [updateParams tfr x.p]
    writeSectorsLoop tfr fifo n (storeBlocks fifo (x.send [release n]) 1)

/-- One burst of WRITE MULTIPLE. -/
def writeBurst (fifo : ℕ → UInt8) : ℕ → ℕ → Xfer → Xfer
  | 0, _, x => x
  | fuel + 1, block_count, x =>
    if block_count = 0 then x
    else
      let i := min block_count maxNumBlocks
      writeBurst fifo fuel (block_count - i) ((storeBlocks fifo x i).count i)

/-- The loop of WRITE MULTIPLE. -/
def writeMultipleLoop (tfr : TaskFile) (fifo : ℕ → UInt8) : ℕ → ℕ → Xfer → Xfer
  | 0, _, x => x
  | fuel + 1, sector_count, x =>
    if sector_count = 0 then x
    else
      let block_count := min sector_count x.drive.pDesc.sectors_per_block.toNat
      let x := writeBurst fifo block_count block_count x
      writeMultipleLoop tfr fifo fuel (sector_count - block_count)
        (x.send [updateParams tfr x.p, release (sector_count - block_count)])

/-- What the two write commands have in common: the seek, the guard of the first block of the card,
    and the loop. -/
def writeTransfer (card : Card) (pDrive : Drive) (tfr : TaskFile) (loop : ℕ → Xfer → Xfer) :
    Outcome :=
  let p := getParams tfr pDrive.pDesc
  match hardFileSeek pDrive p.lba with
  | none => none
  | some (false, pDrive) => refuse card pDrive tfr [.stat statusReq]
  | some (true, pDrive) =>
    if p.lba = 0 ∧ pDrive.pDesc.format = .MMC ∧ pDrive.pDesc.lba_offset = 0 then
      refuse card pDrive tfr [.stat statusReq]
    else (loop p.sector_count.toNat (startXfer card pDrive p [.stat statusReq])).done

/-- WRITE SECTORS -/
def writeSectors (card : Card) (pDrive : Drive) (tfr : TaskFile) (fifo : ℕ → UInt8) : Outcome :=
  if !pDrive.writable then refuse card pDrive tfr []
  else writeTransfer card pDrive tfr (writeSectorsLoop tfr fifo)

/-- WRITE MULTIPLE -/
def writeMultiple (card : Card) (pDrive : Drive) (tfr : TaskFile) (fifo : ℕ → UInt8) : Outcome :=
  if !pDrive.writable then refuse card pDrive tfr []
  else if pDrive.pDesc.sectors_per_block = 0 then refuse card pDrive tfr []
  else writeTransfer card pDrive tfr fun n => writeMultipleLoop tfr fifo n n

/-! ### The commands -/

/-- A command that only answers. -/
def answer (card : Card) (pDrive : Drive) (outs : List FChOut) : Outcome :=
  some { card := card, drive := pDrive, outs := outs }

/-- What a command without data answers when all is well. -/
def acknowledge (tfr : TaskFile) : List FChOut :=
  [writeTaskFile 0 (tfr 2) (tfr 3) (tfr 4) (tfr 5) (tfr 6), .stat (statusEnd ||| statusIrq)]

/-- The command of a task file, on the unit it selects. -/
def ataCommand (card : Card) (pDrive : Drive) (tfr : TaskFile) (fifo : ℕ → UInt8) : Outcome :=
  -- RECALIBRATE, EXECUTE DEVICE DIAGNOSTIC
  if tfr 7 &&& 0xF0 = 0x10 then
    answer card pDrive [writeTaskFile 0 0 1 0 0 (tfr 6 &&& 0xF0), .stat (statusEnd ||| statusIrq)]
  else if tfr 7 = 0x90 then
    answer card pDrive [writeTaskFile 1 1 1 0 0 0, .stat statusEnd]
  -- IDENTIFY DEVICE, INITIALIZE DEVICE PARAMETERS, SET MULTIPLE MODE
  else if tfr 7 = 0xEC then
    answer card pDrive
      [writeTaskFile 0 (tfr 2) (tfr 3) (tfr 4) (tfr 5) (tfr 6), .stat statusRdy,
        .fifo 0 (identifyDevice pDrive), .stat (statusEnd ||| statusIrq)]
  else if tfr 7 = 0x91 then answer card pDrive (acknowledge tfr)
  else if tfr 7 = 0xC6 then
    answer card
      { pDrive with pDesc := { pDrive.pDesc with sectors_per_block := (tfr 2).toUInt16 } }
      [.stat (statusEnd ||| statusIrq)]
  else if tfr 7 = 0x20 then readSectors card pDrive tfr
  else if tfr 7 = 0xC4 then readMultiple card pDrive tfr
  -- READ VERIFY
  else if tfr 7 = 0x40 then answer card pDrive (acknowledge tfr)
  else if tfr 7 = 0x30 then writeSectors card pDrive tfr fifo
  else if tfr 7 = 0xC5 then writeMultiple card pDrive tfr fifo
  else refuse card pDrive tfr []

theorem ataCommand_readSectors {card : Card} {pDrive : Drive} {tfr : TaskFile} {fifo : ℕ → UInt8}
    (h : tfr 7 = 0x20) : ataCommand card pDrive tfr fifo = readSectors card pDrive tfr := by
  rw [ataCommand, h]
  rfl

theorem ataCommand_readMultiple {card : Card} {pDrive : Drive} {tfr : TaskFile} {fifo : ℕ → UInt8}
    (h : tfr 7 = 0xC4) : ataCommand card pDrive tfr fifo = readMultiple card pDrive tfr := by
  rw [ataCommand, h]
  rfl

theorem ataCommand_writeSectors {card : Card} {pDrive : Drive} {tfr : TaskFile} {fifo : ℕ → UInt8}
    (h : tfr 7 = 0x30) : ataCommand card pDrive tfr fifo = writeSectors card pDrive tfr fifo := by
  rw [ataCommand, h]
  rfl

theorem ataCommand_writeMultiple {card : Card} {pDrive : Drive} {tfr : TaskFile} {fifo : ℕ → UInt8}
    (h : tfr 7 = 0xC5) : ataCommand card pDrive tfr fifo = writeMultiple card pDrive tfr fifo := by
  rw [ataCommand, h]
  rfl

attribute [local instance] fourDrives in
/-- The unit a task file selects. -/
def unitOf (tfr : TaskFile) : Fin 4 := if tfr 6 &&& 0x10 ≠ 0 then 1 else 0

/-- `Drv08_ATA_Handle`, on the units of a channel. -/
def ataHandle (card : Card) (handle : Fin 4 → Drive) (tfr : TaskFile) (fifo : ℕ → UInt8) :
    Option (Card × (Fin 4 → Drive) × List FChOut) :=
  if !getInserted handle (unitOf tfr) then some (card, handle, abort tfr)
  else
    match ataCommand card (handle (unitOf tfr)) tfr fifo with
    | none => none
    | some done =>
      some (done.card, Function.update handle (unitOf tfr) done.drive, done.outs)

/-- A command on an inserted unit. -/
theorem ataHandle_eq {card : Card} {handle : Fin 4 → Drive} {tfr : TaskFile} {fifo : ℕ → UInt8}
    {done : Done} (hins : getInserted handle (unitOf tfr) = true)
    (h : ataCommand card (handle (unitOf tfr)) tfr fifo = some done) :
    ataHandle card handle tfr fifo
      = some (done.card, Function.update handle (unitOf tfr) done.drive, done.outs) := by
  rw [ataHandle, hins, h]
  rfl

end FileIO.Drv08
