import ReplayFirmware.Drv08.Desc
import Mathlib.Data.UInt

/-! The blocks the driver makes up itself: the identification of a unit, and the rigid disk block,
    partition block and file system header in front of a naked hardfile. -/

namespace FileIO.Drv08

/-- Bytes put into a buffer. -/
def putAt (buf : ℕ → UInt8) (off : ℕ) (bs : List UInt8) : ℕ → UInt8 := fun i =>
  if off ≤ i then bs.getD (i - off) (buf i) else buf i

/-! ### The identification -/

/-- Word `k` of a buffer, low byte first. -/
def putWord (buf : ℕ → UInt8) (k : ℕ) (w : UInt16) : ℕ → UInt8 :=
  putAt buf (2 * k) [w.toUInt8, (w >>> 8).toUInt8]

/-- `Drv08_SwapBytes`, on the `len` bytes from `off` on. -/
def swapBytes (buf : ℕ → UInt8) (off len : ℕ) : ℕ → UInt8 := fun i =>
  if off ≤ i ∧ i < off + len / 2 * 2 then
    if (i - off) % 2 = 0 then buf (i + 1) else buf (i - 1)
  else buf i

/-- `strncpy` of `n` characters. -/
def strncpy (name : List UInt8) (n : ℕ) : List UInt8 :=
  (List.range n).map fun i => (name.takeWhile (· ≠ 0)).getD i 0

/-- `Drv08_IdentifyDevice`: the 512 bytes of the answer. -/
def identifyDevice (pDrive : Drive) : List UInt8 :=
  let pDesc := pDrive.pDesc
  let total_sectors := pDesc.cylinders.toUInt32 * pDesc.heads.toUInt32 * pDesc.sectors.toUInt32
  let buf : ℕ → UInt8 := fun _ => 0
  let buf := putWord buf 0 0x40
  let buf := putWord buf 1 pDesc.cylinders
  let buf := putWord buf 3 pDesc.heads
  let buf := putWord buf 6 pDesc.sectors
  let buf := putAt buf 20 (strBytes "FPGA ARCADE ATA DRV ")
  let buf := putAt buf 46 (strBytes ".100    ")
  let buf := putAt buf 54 (strBytes "Replay                                  ")
  let buf := putAt buf 62 (strncpy pDrive.name 16)
  let buf := swapBytes buf 54 40
  let buf := putWord buf 47 0x8010
  let buf := putWord buf 53 1
  let buf := putWord buf 54 pDesc.cylinders
  let buf := putWord buf 55 pDesc.heads
  let buf := putWord buf 56 pDesc.sectors
  let buf := putWord buf 57 total_sectors.toUInt16
  let buf := putWord buf 58 (total_sectors >>> 16).toUInt16
  let buf := putWord buf 60 total_sectors.toUInt16
  let buf := putWord buf 61 (total_sectors >>> 16).toUInt16
  (List.range 512).map buf

/-! ### The rigid disk block -/

/-- `WRITE_BE_32B`, at long `k` of a block. -/
def writeLong (buf : ℕ → UInt8) (k : ℕ) (val : UInt32) : ℕ → UInt8 :=
  putAt buf (4 * k)
    [(val >>> 24).toUInt8, (val >>> 16).toUInt8, (val >>> 8).toUInt8, val.toUInt8]

/-- `READ_BE_32B` -/
def readLong (buf : ℕ → UInt8) (k : ℕ) : UInt32 :=
  (buf (4 * k)).toUInt32 <<< 24 ||| (buf (4 * k + 1)).toUInt32 <<< 16
    ||| (buf (4 * k + 2)).toUInt32 <<< 8 ||| (buf (4 * k + 3)).toUInt32

/-- `CalcBEsum` -/
def calcBEsum (buf : ℕ → UInt8) (numlongs : ℕ) : UInt32 :=
  ((List.range (min numlongs 128)).map (readLong buf)).sum

/-- A list of longs written into a block. -/
def writeLongs (buf : ℕ → UInt8) (longs : List (ℕ × UInt32)) : ℕ → UInt8 :=
  longs.foldl (fun buf l => writeLong buf l.1 l.2) buf

/-- The checksum is put into long 2, as the sum of the longs long 1 counts. -/
def writeSum (buf : ℕ → UInt8) : ℕ → UInt8 :=
  writeLong buf 2 (~~~calcBEsum buf (readLong buf 1).toNat + 1)

/-- The last of the candidates that divides `n`. -/
def lastDivisor (n : ℕ) (old : UInt16) (candidates : List ℕ) : UInt16 :=
  candidates.foldl (fun d c => if n % c = 0 then c.toUInt16 else d) old

/-- The candidates of a counting loop, from `start` to below `stop`. -/
def candidates (start stop step : ℕ) : List ℕ := List.range' start ((stop - start + step - 1) / step) step

/-- The `RigidDiskBlock` of `Drv08_CreateRDB`. -/
def rdsk (cylinders heads sectors : UInt16) (lba_offset : UInt32) : ℕ → UInt8 :=
  let buf := writeLongs (fun _ => 0)
    [(0, 0x5244534B), (1, 0x40), (3, 7), (4, 512), (5, 0x12), (6, 0xFFFFFFFF), (7, 1), (8, 2),
      (9, 0xFFFFFFFF), (16, cylinders.toUInt32), (17, sectors.toUInt32), (18, heads.toUInt32),
      (19, 1), (20, cylinders.toUInt32), (24, cylinders.toUInt32), (25, cylinders.toUInt32),
      (26, 3), (32, 0), (33, lba_offset - 1), (34, 2), (35, cylinders.toUInt32 - 1),
      (36, sectors.toUInt32 * heads.toUInt32), (38, 3)]
  let buf := putAt buf 160 (strBytes "Replay")
  let buf := putAt buf 168 (strBytes "Naked")
  let buf := putAt buf 184 (strBytes "1.0")
  writeSum buf

/-- The `PartitionBlock`. -/
def part (cylinders heads sectors : UInt16) (hdf_dostype : UInt32) (drive_number : UInt8) :
    ℕ → UInt8 :=
  let buf := writeLongs (fun _ => 0)
    [(0, 0x50415254), (1, 0x40), (3, 7), (4, 0xFFFFFFFF), (5, 1)]
  let buf := putAt buf 36 [5, 0x46, 0x50, 0x47, 0x41, 0x30 + drive_number, 0]
  let buf := writeLongs buf
    [(32, 0x10), (33, 128), (35, heads.toUInt32), (36, 1), (37, sectors.toUInt32), (38, 2), (41, 2),
      (42, cylinders.toUInt32 - 1), (43, 0x1E), (45, 0x1FE00), (46, 0x7FFFFFFE), (47, 0),
      (48, hdf_dostype)]
  writeSum buf

/-- The `FileSysHeaderBlock`. -/
def fshd (hdf_dostype : UInt32) : ℕ → UInt8 :=
  writeSum (writeLongs (fun _ => 0)
    [(0, 0x46534844), (1, 0x40), (3, 7), (4, 0xFFFFFFFF), (8, hdf_dostype), (9, 0x00280001),
      (10, 0x00000180), (18, 0xFFFFFFFF), (19, 0xFFFFFFFF)])

/-- A buffer as a block. -/
def toBlock (buf : ℕ → UInt8) : Block := Vector.ofFn fun i => buf i

/-- `Drv08_CreateRDB` -/
def createRDB (pDesc : Desc) (drive_number : UInt8) : Desc :=
  let lba := (pDesc.file_size / 512).toUInt32
  let sectors := lastDivisor lba.toNat pDesc.sectors (candidates 1 255 2)
  let lba := lba / sectors.toUInt32
  let heads := lastDivisor lba.toNat pDesc.heads (candidates 4 16 1)
  let cylinders := (lba / heads.toUInt32).toUInt16 + 2
  let lba_offset := sectors.toUInt32 * heads.toUInt32 * 2
  { pDesc with
    cylinders := cylinders, heads := heads, sectors := sectors, lba_offset := lba_offset
    hdf_rdb := fun
      | 0 => toBlock (rdsk cylinders heads sectors lba_offset)
      | 1 => toBlock (part cylinders heads sectors pDesc.hdf_dostype drive_number)
      | 2 => toBlock (fshd pDesc.hdf_dostype) }

end FileIO.Drv08
