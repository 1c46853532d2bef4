import ReplayFirmware.FileIO.FCh

/-! The generic driver: bytes of a mounted file, from any address.

    A request names an address and a size. The driver seeks to the address, and then reads or writes
    in passes that end on 512 byte boundaries; a read that starts on one is sent as a burst straight
    from the card. The raw tapes of driver 02 are transferred by the same loop without the bursts,
    so the loop is written once, with a flag. -/

namespace FileIO.Drv00
open FatFs

/-- `drv00_desc_t` -/
structure Desc where
  file_size : UInt32

/-- `DRV00_STAT_REQ_ACK` -/
def statReqAck : UInt8 := 0x01

/-- `DRV00_STAT_TRANS_ACK_OK` -/
def statAckOk : UInt8 := 0x02

/-- `DRV00_STAT_TRANS_ACK_SEEK_ERR` -/
def statAckSeekErr : UInt8 := 0x12

/-- `DRV00_STAT_TRANS_ACK_TRUNC_ERR` -/
def statAckTruncErr : UInt8 := 0x22

/-- `DRV00_STAT_TRANS_ACK_ABORT_ERR` -/
def statAckAbortErr : UInt8 := 0x42

/-- The size of a request. -/
def reqSize (rq : Request) : UInt16 := (rq.cmd 1).toUInt16 ||| (rq.cmd 2).toUInt16 <<< 8

/-- The address of a request. -/
def reqAddr (rq : Request) : UInt32 :=
  (rq.cmd 3).toUInt32 ||| (rq.cmd 4).toUInt32 <<< 8 ||| (rq.cmd 5).toUInt32 <<< 16
    ||| (rq.cmd 6).toUInt32 <<< 24

section
variable {δ : Type}

/-- How far a transfer has come: the drive, the buffer, what was sent, and, when it has stopped short
    of its end, that it has. -/
structure Transfer (δ : Type) where
  pDrive : Fch δ
  fbuf : ℕ → UInt8
  outs : List FChOut
  stopped : Bool

/-- The bytes of one pass: up to the next 512 byte boundary. -/
def curSize (addr : UInt32) (size : UInt16) : UInt16 :=
  let cur_size := if size > 512 then 512 else size
  let addr_offset := addr &&& 0x1FF
  if addr_offset ≠ 0 then
    let addr_offset := 0x200 - addr_offset
    if cur_size.toUInt32 > addr_offset then addr_offset.toUInt16 else cur_size
  else cur_size

/-- A write pass, with `pos` bytes of the FIFO already taken. -/
def writePass (t : Transfer δ) (rq : Request) (pos : ℕ) (cur_size : UInt16) : Transfer δ :=
  if !t.pDrive.writable then
    { t with outs := t.outs ++ [.stat statAckTruncErr], stopped := true }
  else
    let bs := (List.range cur_size.toNat).map fun i => rq.fifo (pos + i)
    let (act_size, fSource) := FF_Write t.pDrive.fSource bs
    let t := { t with pDrive := { t.pDrive with fSource := fSource }, fbuf := readInto t.fbuf bs }
    if act_size ≠ cur_size.toNat then
      { t with outs := t.outs ++ [.stat statAckTruncErr], stopped := true }
    else t

/-- A read pass: a burst goes straight from the card, anything else through the buffer. -/
def readPass (t : Transfer δ) (burstable : Bool) (cur_size : UInt16) : Transfer δ :=
  let (bs, act_size, fSource) :=
    if burstable then FF_ReadDirect t.pDrive.fSource cur_size.toNat
    else
      let (bs, fSource) := FF_Read t.pDrive.fSource cur_size.toNat
      (bs, bs.length, fSource)
  let t := { t with
    pDrive := { t.pDrive with fSource := fSource }
    fbuf := if burstable then t.fbuf else readInto t.fbuf bs
    outs := t.outs ++ [if burstable then .direct bs else .fifo 0 bs] }
  if act_size ≠ cur_size.toNat then
    { t with outs := t.outs ++ [.stat statAckTruncErr], stopped := true }
  else t

/-- A read pass leaves the file as a read does, through the buffer or not. -/
theorem readPass_file (t : Transfer δ) (burstable : Bool) (cur_size : UInt16) :
    (readPass t burstable cur_size).pDrive.fSource
      = (FF_Read t.pDrive.fSource cur_size.toNat).2 := by
  rw [readPass]
  cases burstable
  · simp only [Bool.false_eq_true, if_false]
    split <;> rfl
  · simp only [if_true]
    split <;> rfl

/-- The transfer loop; `stall k` says that the wait behind pass `k` has timed out. -/
def transferLoop (burst : Bool) (rq : Request) (stall : ℕ → Bool) (file_size : ℕ) :
    ℕ → ℕ → ℕ → UInt32 → UInt16 → Transfer δ → Transfer δ
  | 0, _, _, _, _, t => t
  | fuel + 1, k, pos, addr, size, t =>
    if size = 0 then t
    else
      let cur_size := curSize addr size
      let burstable := burst && !dir rq.status && addr &&& 0x1FF = 0 && cur_size ≥ 512
        && file_size.toUInt64 - addr.toUInt64 ≥ 512
      let cur_size := if burstable then size / 512 * 512 else cur_size
      let t := if dir rq.status then writePass t rq pos cur_size else readPass t burstable cur_size
      if t.stopped then t
      else
        let addr := addr + cur_size.toUInt32
        let size := size - cur_size
        if size ≠ 0 ∧ stall k = true then
          { t with outs := t.outs ++ [.stat statAckAbortErr], stopped := true }
        else transferLoop burst rq stall file_size fuel (k + 1) (pos + cur_size.toNat) addr size t

/-- The seek and the transfer of a request. -/
def transfer (burst : Bool) (rq : Request) (stall : ℕ → Bool) (t : Transfer δ) : Transfer δ :=
  match FF_Seek t.pDrive.fSource (reqAddr rq).toNat with
  | (.ok, fSource) =>
    let t := transferLoop burst rq stall (FF_Size fSource) (reqSize rq).toNat 0 0 (reqAddr rq)
      (reqSize rq) { t with pDrive := { t.pDrive with fSource := fSource } }
    if t.stopped then t else { t with outs := t.outs ++ [.stat statAckOk] }
  | (_, fSource) =>
    { t with pDrive := { t.pDrive with fSource := fSource }
             outs := t.outs ++ [.stat statAckSeekErr], stopped := true }

end

/-- One request of `FileIO_Drv00_Process`. -/
def request (rq : Request) (stall : ℕ → Bool) (t : Transfer Desc) : Transfer Desc :=
  transfer true rq stall { t with outs := t.outs ++ [.stat statReqAck] }

/-- `FileIO_Drv00_Process`, from request `k` of the channel on, with `goes` requests to go: the drives
    of the channel, the buffer, and what was sent. -/
def process (rq : ℕ → Request) (stall : ℕ → ℕ → Bool) :
    ℕ → ℕ → (Fin 4 → Fch Desc) → (ℕ → UInt8) → List FChOut →
      (Fin 4 → Fch Desc) × (ℕ → UInt8) × List FChOut
  | 0, _, handle, fbuf, outs => (handle, fbuf, outs)
  | goes + 1, k, handle, fbuf, outs =>
    let drive_number := driveNumber (rq k).status
    if !getInserted handle drive_number then
      (handle, fbuf, outs ++ [.stat statReqAck, .stat statAckAbortErr])
    else
      let t := request (rq k) (stall k)
        { pDrive := handle drive_number, fbuf := fbuf, outs := outs, stopped := false }
      let handle := Function.update handle drive_number t.pDrive
      if !t.stopped ∧ (rq (k + 1)).status &&& reqAct ≠ 0 then
        process rq stall goes (k + 1) handle t.fbuf t.outs
      else (handle, t.fbuf, t.outs)

/-- `FileIO_Drv00_InsertInit` -/
def insertInit (drive_number : UInt8) (status : UInt8) (fSource : FIL) : Fch Desc × List FChOut :=
  let file_size := (FF_Size fSource).toUInt32
  ({ status := status, fSource := fSource, pDesc := { file_size := file_size } },
    [.cmd 0 [drive_number],
      .cmd 4 [file_size.toUInt8, (file_size >>> 8).toUInt8, (file_size >>> 16).toUInt8,
      (file_size >>> 24).toUInt8]])

end FileIO.Drv00
