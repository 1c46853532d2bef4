import ReplayFirmware.FileIO.Card

/-! The hard disk driver: descriptor, task file and addresses.

    A unit is a hardfile, a CD image or the card itself, whole or one of its partitions. A hardfile
    without a rigid disk block gets a made-up one: `lba_offset` blocks in front of the file, of which
    the first three say how the disk is laid out. On the card `lba_offset` is where the partition
    starts. -/

namespace FileIO.Drv08

inductive Format where | XXX | HDF | HDF_NAKED | MMC | ISO
  deriving DecidableEq, Repr

/-- `drv08_desc_t`. `index` holds clusters of the file, `none` where it holds 0xffffffff; clusters are
    numbered along the chain of the file, as in `FIL`. -/
structure Desc where
  format : Format
  file_size : UInt64
  cylinders : UInt16
  heads : UInt16
  sectors : UInt16
  sectors_per_block : UInt16
  index : ℕ → Option ℕ
  index_size : UInt32
  mru_lba : UInt32
  mru_cluster : ℕ
  hdf_rdb : Fin 3 → Block
  hdf_dostype : UInt32
  lba_offset : UInt32

/-- `fch_t` of a unit. -/
abbrev Drive := Fch Desc

/-- `DRV08_STATUS_END` -/
def statusEnd : UInt8 := 0x80

/-- `DRV08_STATUS_IRQ` -/
def statusIrq : UInt8 := 0x10

/-- `DRV08_STATUS_RDY` -/
def statusRdy : UInt8 := 0x08

/-- `DRV08_STATUS_REQ` -/
def statusReq : UInt8 := 0x04

/-- `DRV08_STATUS_ERR` -/
def statusErr : UInt8 := 0x01

/-- `DRV08_ERROR_ABRT` -/
def errorAbrt : UInt8 := 0x04

/-- `DRV08_MAX_NUM_BLOCKS` -/
def maxNumBlocks : ℕ := 4

/-- `DRV08_MAX_READ_BURST` -/
def maxReadBurst : ℕ := 7

/-- The task file: eight registers, the command last. -/
abbrev TaskFile := ℕ → UInt8

/-- `Drv08_WriteTaskFile` -/
def writeTaskFile (error sector_count sector_number cylinder_low cylinder_high drive_head : UInt8) :
    FChOut :=
  .cmd 0 [0x00, error, sector_count, sector_number, cylinder_low, cylinder_high, drive_head]

/-- How a command is refused. -/
def abort (tfr : TaskFile) : List FChOut :=
  [writeTaskFile errorAbrt (tfr 2) (tfr 3) (tfr 4) (tfr 5) (tfr 6),
    .stat (statusEnd ||| statusIrq ||| statusErr)]

/-! ### Addresses -/

/-- The parameters of a command. -/
structure Params where
  sector : UInt16
  cylinder : UInt16
  head : UInt8
  sector_count : UInt16
  lba : UInt32
  lba_mode : UInt8

/-- `Drv08_GetParams` -/
def getParams (tfr : TaskFile) (pDesc : Desc) : Params :=
  let sector_count := (tfr 2).toUInt16
  let sector := (tfr 3).toUInt16
  let cylinder := (tfr 4).toUInt16 ||| (tfr 5).toUInt16 <<< 8
  let head := tfr 6 &&& 0x0F
  let lba_mode := tfr 6 &&& 0x40
  { sector := sector, cylinder := cylinder, head := head
    sector_count := if sector_count = 0 then 0x100 else sector_count
    lba :=
      if lba_mode ≠ 0 then head.toUInt32 <<< 24 ||| cylinder.toUInt32 <<< 8 ||| sector.toUInt32
      else (cylinder.toUInt32 * pDesc.heads.toUInt32 + head.toUInt32) * pDesc.sectors.toUInt32
        + sector.toUInt32 - 1
    lba_mode := lba_mode }

/-- A command is about 1 to 256 blocks. -/
theorem getParams_count (tfr : TaskFile) (pDesc : Desc) :
    0 < (getParams tfr pDesc).sector_count.toNat ∧ (getParams tfr pDesc).sector_count.toNat ≤ 256 := by
  simp only [getParams]
  have hlt := (tfr 2).toNat_lt
  split
  · decide
  · next h0 =>
    rw [UInt8.toNat_toUInt16]
    refine ⟨Nat.pos_of_ne_zero fun hz => h0 ?_, by omega⟩
    exact UInt16.toNat_inj.mp (by rw [UInt8.toNat_toUInt16, hz]; rfl)

/-- `Drv08_UpdateParams` -/
def updateParams (tfr : TaskFile) (p : Params) : FChOut :=
  let drive := tfr 6 &&& 0xF0
  .cmd 3 <|
    if p.lba_mode ≠ 0 then
      [p.lba.toUInt8, (p.lba >>> 8).toUInt8, (p.lba >>> 16).toUInt8,
        drive ||| ((p.lba >>> 24).toUInt8 &&& 0x0F)]
    else
      [p.sector.toUInt8, p.cylinder.toUInt8, (p.cylinder >>> 8).toUInt8,
        drive ||| (p.head &&& 0x0F)]

/-- `Drv08_IncParams` -/
def incParams (pDesc : Desc) (p : Params) : Params :=
  let p :=
    if p.sector = pDesc.sectors then
      let p := { p with sector := 1, head := p.head + 1 }
      if p.head.toUInt16 = pDesc.heads then { p with head := 0, cylinder := p.cylinder + 1 } else p
    else { p with sector := p.sector + 1 }
  { p with lba := p.lba + 1 }

/-- The parameters move on by one block, but for the first block of a command. -/
def nextParams (pDesc : Desc) (first : Bool) (p : Params) : Params :=
  if first then p else incParams pDesc p

/-- The same for the `n` blocks of a burst. -/
def burstParams (pDesc : Desc) : ℕ → Bool → Params → Params
  | 0, _, p => p
  | n + 1, first, p => burstParams pDesc n false (nextParams pDesc first p)

end FileIO.Drv08
