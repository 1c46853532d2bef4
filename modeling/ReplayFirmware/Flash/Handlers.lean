import ReplayFirmware.Flash.SRecord
import ReplayFirmware.Flash.Crc32
import ReplayFirmware.FileIO.MCh
import Mathlib.Logic.Function.Basic

/-! The two handlers a firmware image goes through: `VerifyHandler` runs its bytes through the CRC,
    `UploadHandler` sends them to the DRAM.

    Both put the bytes into one page buffer, with 0xFF where the records leave a gap, and flush it
    whenever an address crosses a page boundary. They differ in the flush, and in what a header and
    a termination record do. -/

namespace Flash
open FatFs FileIO.MCh

/-- The statics of `flash.c` and the DRAM. `crc` is the register inside `feed_crc32`; `fed` records
    what `DumpToConsole` has run through it in the current pass. -/
structure Statics where
  srecCurrentAddr : UInt32
  srecLineBuffer : ℕ → UInt8
  dramBaseAddr : UInt32
  s_FlashAddress : UInt32
  s_FlashSize : UInt32
  s_FlashCRC32 : UInt32
  crc : UInt32
  fed : List UInt8
  dram : Dram

/-- How many bytes of the line buffer are in use, 1 to 256. -/
def Statics.validBytes (s : Statics) : UInt32 := ((s.srecCurrentAddr - 1) &&& 0xFF) + 1

/-- The bytes of the line buffer in use. -/
def Statics.line (s : Statics) : List UInt8 := (List.range s.validBytes.toNat).map s.srecLineBuffer

/-- `DumpToConsole` -/
def dumpToConsole (s : Statics) : Statics :=
  { s with s_FlashSize := s.s_FlashSize + s.validBytes
           crc := feedCrc32 s.crc s.line
           fed := s.fed ++ s.line }

/-- `UploadToDRAM`: a failed transfer is only warned about. -/
def uploadToDRAM (ch : Channel) (s : Statics) : Statics :=
  { s with dram := (bufToMem ch s.line s.dramBaseAddr s.dram).2
           dramBaseAddr := s.dramBaseAddr + s.validBytes }

/-- `memset` of the line buffer. -/
def Statics.clearLine (s : Statics) : Statics := { s with srecLineBuffer := fun _ => 0 }

/-- One byte goes into the line buffer, and a full page is flushed. -/
def putByte (flush : Statics → Statics) (b : UInt8) (s : Statics) : Statics :=
  let s := { s with
    srecLineBuffer := Function.update s.srecLineBuffer (s.srecCurrentAddr &&& 0xFF).toNat b
    srecCurrentAddr := s.srecCurrentAddr + 1 }
  if s.srecCurrentAddr &&& 0xFF = 0 then (flush s).clearLine else s

/-- The `while` loop of both handlers, filling up to `addr`. It has no end when `addr` is the last
    address, for `srecCurrentAddr` wraps there. -/
def fillLoop (flush : Statics → Statics) (addr : UInt32) (value : UInt8) :
    ℕ → Statics → Option Statics
  | 0, _ => none
  | fuel + 1, s =>
    if s.srecCurrentAddr ≤ addr then
      fillLoop flush addr value fuel
        (putByte flush (if addr = s.srecCurrentAddr then value else 0xFF) s)
    else some s

/-- What both handlers do with a data byte. -/
def dataByte (flush : Statics → Statics) (base offset : UInt32) (value : UInt8) (s : Statics) :
    Option (UInt8 × Statics) :=
  let addr := base + offset
  if addr < s.srecCurrentAddr then some (0xFF, s)
  else (fillLoop flush addr value (2 ^ 32 + 1) s).map fun s => (0, s)

/-- What both handlers flush at the end of the file. -/
def flushRest (flush : Statics → Statics) (s : Statics) : Statics :=
  if s.srecCurrentAddr &&& 0xFF ≠ 0 then (flush s).clearLine else s

/-- `VerifyHandler` -/
def verifyHandler : SRECHandler Statics := fun type base offset length value s =>
  if type = 0 then
    -- header: the text passes through the line buffer, its last byte restarts size and CRC
    let s := { s with srecLineBuffer := Function.update s.srecLineBuffer offset.toNat value }
    if offset = length.toUInt32 - 1 then
      some (0, { s with
        srecLineBuffer := Function.update s.srecLineBuffer (offset.toNat + 1) 0
        s_FlashSize := 0
        crc := crcInit })
    else some (0, s)
  else if type = 7 then
    let s := flushRest dumpToConsole s
    some (0, { s with s_FlashAddress := base, s_FlashCRC32 := ~~~s.crc })
  else dataByte dumpToConsole base offset value s

/-- `UploadHandler` -/
def uploadHandler (ch : Channel) : SRECHandler Statics := fun type base offset _length value s =>
  if type = 0 then some (0, s)
  else if type = 7 then some (0, flushRest (uploadToDRAM ch) s)
  else dataByte (uploadToDRAM ch) base offset value s

/-- The start of the application in flash, right after the boot ROM. -/
def appBase : UInt32 := 0x102000

/-- `FLASH_VerifySRecords`, with `flash` the contents of the flash memory: the verdict, and the two
    CRCs it hands out. -/
def verifySRecords (file : Option File) (flash : UInt32 → UInt8) (line : Line) (s : Statics) :
    Option (UInt8 × Option (UInt32 × UInt32) × Statics) :=
  match parseSRecords file (some verifyHandler) line
      { s with srecCurrentAddr := appBase, fed := [] } with
  | none => none
  | some (retval, s) =>
    if retval ≠ 0 then some (0, none, s)
    else
      let p := (List.range s.s_FlashSize.toNat).map fun i => flash (appBase + i.toUInt32)
      let crc := feedCrc32 crcInit p
      some (1, some (s.s_FlashCRC32, ~~~crc), { s with crc := crc })

end Flash
