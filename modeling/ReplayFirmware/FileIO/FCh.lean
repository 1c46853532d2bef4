import ReplayFirmware.FatFs.Wrapper
import ReplayFirmware.Libc.Ctype

/-! The file channels, between the FPGA core and the mounted images.

    A core asks for a transfer through the status register of its channel; the driver reads the
    command block, moves data through the FIFO and answers in the status register. What the core
    presents with one request is a `Request`, what the driver sends back is a list of `FChOut`. -/

namespace FileIO
open FatFs Libc

/-- `FILEIO_STAT_INSERTED` -/
def statInserted : UInt8 := 0x01

/-- `FILEIO_STAT_READONLY` -/
def statReadonly : UInt8 := 0x02

/-- `FILEIO_STAT_PROTECTED` -/
def statProtected : UInt8 := 0x04

/-- `FILEIO_STAT_READONLY_OR_PROTECTED` -/
def statReadonlyOrProtected : UInt8 := 0x06

/-- `FILEIO_REQ_ACT` -/
def reqAct : UInt8 := 0x08

/-- `FILEIO_PROCESS_LIMIT` -/
def processLimit : ℕ := 8

/-- `fch_t`, with the descriptor of its driver. -/
structure Fch (δ : Type) where
  status : UInt8
  fSource : FIL
  pDesc : δ
  name : List UInt8 := []

/-- The writable test of the drivers. -/
def Fch.writable {δ : Type} (pDrive : Fch δ) : Bool :=
  pDrive.status &&& statReadonlyOrProtected = 0

/-- What the core presents with a request: the status register, the command block with its dummy
    byte, and the bytes waiting in the FIFO. -/
structure Request where
  status : UInt8
  cmd : ℕ → UInt8
  fifo : ℕ → UInt8

/-- What goes back to the core: a status write, a write of command registers from `reg` on, or bytes
    through the FIFO in one of its modes, from the ARM or straight from the card. -/
inductive FChOut where
  | stat (s : UInt8)
  | cmd (reg : UInt8) (bytes : List UInt8)
  | fifo (mode : UInt8) (bytes : List UInt8)
  | direct (bytes : List UInt8)
  deriving DecidableEq, Repr

/-- There are two channels, -/
theorem twoChannels : NeZero 2 := ⟨by decide⟩

/-- with four drives each. -/
theorem fourDrives : NeZero 4 := ⟨by decide⟩

/-- `high is write` -/
def dir (status : UInt8) : Bool := (status >>> 2) &&& 0x01 ≠ 0

def driveNumber (status : UInt8) : Fin 4 := Fin.ofNat 4 ((status >>> 4) &&& 0x03).toNat

/-- `FileIO_FCh_GetInserted`, on the drives of a channel. -/
def getInserted {δ : Type} (handle : Fin 4 → Fch δ) (drive_number : Fin 4) : Bool :=
  (handle drive_number).status &&& statInserted ≠ 0

/-- Word `k` of the FIFO, high byte first. -/
def fifoWord (fifo : ℕ → UInt8) (k : ℕ) : UInt16 :=
  (fifo (2 * k)).toUInt16 <<< 8 ||| (fifo (2 * k + 1)).toUInt16

/-- Bytes read into a buffer; the rest of the buffer stays. -/
def readInto (buf : ℕ → UInt8) (bs : List UInt8) : ℕ → UInt8 := fun i => bs.getD i (buf i)

/-- A buffer that has been filled holds what was read. -/
theorem map_readInto (buf : ℕ → UInt8) (bs : List UInt8) :
    (List.range bs.length).map (readInto buf bs) = bs := by
  apply List.ext_getElem
  · rw [List.length_map, List.length_range]
  · intro i hi hi'
    rw [List.getElem_map, List.getElem_range, readInto, List.getD_eq_getElem?_getD,
      List.getElem?_eq_getElem hi', Option.getD_some]

/-- The characters of a string, as bytes. -/
def strBytes (s : String) : List UInt8 := s.toList.map fun c => c.toNat.toUInt8

/-- `strnicmp(ext, s, strlen(s)) == 0`, for a name in capitals. -/
def extIs (ext : List UInt8) (s : String) : Bool :=
  (ext.take (strBytes s).length).map toupper = strBytes s

/-- How `FileIO_FCh_Insert` opens a file: for reading and writing, or, when that fails because the
    file is read only, for reading, with the status saying so. -/
def fchOpen (file : File) (readOnly : Bool) : UInt8 × FIL :=
  if readOnly then (statReadonly, f_open file false) else (0, f_open file true)

end FileIO
