import ReplayFirmware.FileIO.Drv00

/-! The tape driver on raw images: transfers as in driver 00, without the bursts. -/

namespace FileIO.Drv02
open FatFs Drv00

inductive Format where | XXX | RAW | UEF
  deriving DecidableEq, Repr

/-- `drv02_desc_t` -/
structure Desc where
  format : Format
  file_size : UInt32

/-- `FileIO_Drv02_RAW_Process` -/
def rawProcess (rq : Request) (stall : ℕ → Bool) (t : Transfer Desc) : Transfer Desc :=
  transfer false rq stall t

/-- One request of `FileIO_Drv02_Process` on a raw image. -/
def request (rq : Request) (stall : ℕ → Bool) (t : Transfer Desc) : Transfer Desc :=
  rawProcess rq stall { t with outs := t.outs ++ [.stat statReqAck] }

end FileIO.Drv02
