import ReplayFirmware.FileIO.Card

/-! USB mass storage, from `usb/msc.c`: Bulk-Only transport of SCSI commands, one command block at a
    time.

    The endpoint that data comes in on is the list of its packets; what a command does is the list of its
    `Transfer`s, up to the status that ends it. -/

namespace Msc
open FileIO

/-! ### Command blocks -/

/-- `CommandBlockWrapper` -/
structure CommandBlockWrapper where
  dCBWSignature : UInt32
  dCBWTag : UInt32
  dCBWDataTransferLength : UInt32
  direction : Bool
  cbwcb : Vector UInt8 16

/-- The commands that the device knows. -/
inductive Opcode where
  | testUnitReady | requestSense | inquiry | modeSense6 | startStopUnit | preventAllowRemoval
  | readFormatCapacity | readCapacity | read10 | write10 | modeSense10 | unknown
  deriving DecidableEq

/-- `OPERATIONCODE` -/
def CommandBlockWrapper.opcode (cbw : CommandBlockWrapper) : Opcode :=
  match cbw.cbwcb[0] with
  | 0x00 => .testUnitReady
  | 0x03 => .requestSense
  | 0x12 => .inquiry
  | 0x1a => .modeSense6
  | 0x1b => .startStopUnit
  | 0x1e => .preventAllowRemoval
  | 0x23 => .readFormatCapacity
  | 0x25 => .readCapacity
  | 0x28 => .read10
  | 0x2a => .write10
  | 0x5a => .modeSense10
  | _ => .unknown

/-- `READ_BE_16B` -/
def readBe16 (a b : UInt8) : ℕ := a.toNat * 256 + b.toNat

/-- `READ_BE_32B` -/
def readBe32 (a b c d : UInt8) : UInt32 := UInt32.ofNat (readBe16 a b * 65536 + readBe16 c d)

/-- `WRITE_BE_32B` -/
def writeBe32 (val : UInt32) : List UInt8 :=
  [(val >>> 24).toUInt8, (val >>> 16).toUInt8, (val >>> 8).toUInt8, val.toUInt8]

/-- `EVPD` of an inquiry -/
def CommandBlockWrapper.evpd (cbw : CommandBlockWrapper) : Bool := cbw.cbwcb[1] &&& 1 = 1

/-- `PAGECODE` of an inquiry -/
def CommandBlockWrapper.pageCode (cbw : CommandBlockWrapper) : UInt8 := cbw.cbwcb[2]

/-- `LBA` of a read or write -/
def CommandBlockWrapper.lba (cbw : CommandBlockWrapper) : UInt32 :=
  readBe32 cbw.cbwcb[2] cbw.cbwcb[3] cbw.cbwcb[4] cbw.cbwcb[5]

/-- `TRANSFERLENGTH` of a read or write -/
def CommandBlockWrapper.transferLength (cbw : CommandBlockWrapper) : ℕ :=
  readBe16 cbw.cbwcb[7] cbw.cbwcb[8]

/-- `PREVENT` -/
def CommandBlockWrapper.prevent (cbw : CommandBlockWrapper) : Bool := cbw.cbwcb[4] &&& 3 ≠ 0

/-! ### The thirteen cases -/

/-- `HostDeviceTransferDirection` -/
inductive Direction where
  | noTransfer | deviceToHost | hostToDevice
  deriving DecidableEq

/-- `HostDeviceDataTransferMode` -/
inductive TransferMode where
  | illegal
  /-- (1) -/
  | hnEqDn
  /-- (2) -/
  | hnLtDi
  /-- (3) -/
  | hnLtDo
  /-- (4) -/
  | hiGtDn
  /-- (5) -/
  | hiGtDi
  /-- (6) -/
  | hiEqDi
  /-- (7) -/
  | hiLtDi
  /-- (8) -/
  | hiNeDo
  /-- (9) -/
  | hoGtDn
  /-- (10) -/
  | hoNeDi
  /-- (11) -/
  | hoGtDo
  /-- (12) -/
  | hoEqDo
  /-- (13) -/
  | hoLtDo
  deriving DecidableEq

def CommandBlockWrapper.hostLength (cbw : CommandBlockWrapper) : ℕ := cbw.dCBWDataTransferLength.toNat

def CommandBlockWrapper.hostTransferType (cbw : CommandBlockWrapper) : Direction :=
  if cbw.hostLength = 0 then .noTransfer
  else if cbw.direction = true then .deviceToHost
  else .hostToDevice

/-- `deviceLength` in `process_transfer_mode` -/
def CommandBlockWrapper.deviceLength (cbw : CommandBlockWrapper) : ℕ :=
  match cbw.opcode with
  | .inquiry =>
    if cbw.evpd = true then if cbw.pageCode = 0x80 then 12 else 0
    else readBe16 cbw.cbwcb[3] cbw.cbwcb[4]
  | .readFormatCapacity => 12
  | .readCapacity => 8
  | .modeSense6 => if cbw.cbwcb[4].toNat ≥ 4 then 4 else cbw.cbwcb[4].toNat
  | .modeSense10 =>
    if readBe16 cbw.cbwcb[7] cbw.cbwcb[8] ≥ 4 then 4 else readBe16 cbw.cbwcb[7] cbw.cbwcb[8]
  | .read10 | .write10 => cbw.transferLength * 512
  | .requestSense => cbw.cbwcb[4].toNat
  | .testUnitReady | .preventAllowRemoval | .startStopUnit | .unknown => 0

/-- `deviceTransferType` in `process_transfer_mode` -/
def Opcode.deviceTransferType : Opcode → Direction
  | .inquiry | .readFormatCapacity | .readCapacity | .modeSense6 | .modeSense10 | .read10
  | .requestSense => .deviceToHost
  | .write10 => .hostToDevice
  | .testUnitReady | .preventAllowRemoval | .startStopUnit | .unknown => .noTransfer

/-- `process_transfer_mode`: the case, for what the host expects and what the device intends. -/
def CommandBlockWrapper.transferMode (cbw : CommandBlockWrapper) : TransferMode :=
  if cbw.opcode = .unknown then .illegal
  else
    match cbw.hostTransferType, cbw.opcode.deviceTransferType with
    | .noTransfer, .noTransfer => .hnEqDn
    | .noTransfer, .deviceToHost => .hnLtDi
    | .noTransfer, .hostToDevice => .hnLtDo
    | .deviceToHost, .noTransfer => .hiGtDn
    | .deviceToHost, .deviceToHost =>
      if cbw.hostLength > cbw.deviceLength then .hiGtDi
      else if cbw.hostLength = cbw.deviceLength then .hiEqDi
      else .hiLtDi
    | .deviceToHost, .hostToDevice => .hiNeDo
    | .hostToDevice, .noTransfer => .hoGtDn
    | .hostToDevice, .deviceToHost => .hoNeDi
    | .hostToDevice, .hostToDevice =>
      if cbw.hostLength > cbw.deviceLength then .hoGtDo
      else if cbw.hostLength = cbw.deviceLength then .hoEqDo
      else .hoLtDo

/-! ### Commands -/

/-- `CSWStatus` -/
inductive CSWStatus where
  | commandPassed | commandFailed | phaseError | unsupported
  deriving DecidableEq

/-- What goes over the bus and to the card. -/
inductive Transfer where
  /-- `msc_send` of so many bytes, from the start of an object -/
  | dataIn (object : List UInt8) (length : ℕ)
  /-- `msc_read` of so many bytes, and how many came -/
  | dataOut (length read : ℕ)
  /-- `Card_ReadM` of a block, and whether it succeeded -/
  | cardRead (sector : UInt32) (ok : Bool)
  /-- `Card_WriteM` of so many blocks, and whether it succeeded -/
  | cardWrite (sector : UInt32) (numSectors : ℕ) (ok : Bool)
  /-- The status: the tag, the residue, and `bCSWStatus` -/
  | csw (tag residue : UInt32) (status : CSWStatus)
  /-- `usb_send_stall` -/
  | stall (ep : ℕ)

/-- The card, the sense data and `s_PreventMediaRemoval`. -/
structure Device where
  card : Card
  senseKey : UInt8
  additionalSenseCode : UInt8
  preventMediaRemoval : Bool

/-- `set_sense_data` -/
def setSenseData (senseKey additionalSenseKey : UInt8) (device : Device) : Device :=
  { device with senseKey := senseKey, additionalSenseCode := additionalSenseKey }

/-- `s_INQUIRYdata` -/
def inquiryData : List UInt8 :=
  [0x00, 0x80, 0x02, 0x02, 31, 0x00, 0x00, 0x00,
    0x41, 0x72, 0x63, 0x61, 0x64, 0x65, 0x20, 0x20,
    0x46, 0x50, 0x47, 0x41, 0x41, 0x72, 0x63, 0x61, 0x64, 0x65, 0x52, 0x65, 0x70, 0x6C, 0x61, 0x79,
    0x31, 0x2E, 0x30, 0x30]

/-- `s_UNIT_SERIAL_NUMBERdata` -/
def unitSerialNumberData : List UInt8 :=
  [0x00, 0x80, 0x00, 0x08, 0x30, 0x31, 0x32, 0x33, 0x34, 0x35, 0x36, 0x37]

/-- `s_MODE_PARAMETER_HEADERdata` -/
def modeParameterHeaderData : List UInt8 := [3, 0x00, 0x00, 0x00]

/-- `s_REQUEST_SENSEdata` -/
def Device.requestSenseData (device : Device) : List UInt8 :=
  [0xF0, 0, device.senseKey, 0, 0, 0, 0, 10, 0, 0, 0, 0, device.additionalSenseCode, 0, 0, 0, 0, 0]

/-- `(uint32_t)(Card_GetCapacity() / 512)` -/
def Device.sectorCount (device : Device) : UInt32 := (device.card.capacity / 512).toUInt32

/-- `READ_FORMAT_CAPACITYdata` -/
def Device.readFormatCapacityData (device : Device) : List UInt8 :=
  [0, 0, 0, 8] ++ writeBe32 device.sectorCount ++ [0, 0, 0x02, 0]

/-- `READ_CAPACITYdata` -/
def Device.readCapacityData (device : Device) : List UInt8 :=
  writeBe32 (device.sectorCount - 1) ++ writeBe32 512

/-- `usb_recv`: all that is copied, how many bytes it counts, and the packets that are left. It ends when
    it has got enough, or with an empty packet; `none` when it waits for ever. -/
def usbRecv : List (List UInt8) → ℕ → Option (List UInt8 × ℕ × List (List UInt8))
  | packets, 0 => some ([], 0, packets)
  | [], _ + 1 => none
  | packet :: packets, remaining + 1 =>
    if packet = [] then some ([], 0, packets)
    else
      (usbRecv packets (remaining + 1 - packet.length)).map fun (data, read, rest) =>
        (packet ++ data, min packet.length (remaining + 1) + read, rest)

/-- `TwoSectors`, with what was on the stack before -/
abbrev Buffer := ℕ → UInt8

/-- Bytes copied to the start of a buffer. -/
def Buffer.copy (buffer : Buffer) (start : ℕ) (data : List UInt8) : Buffer := fun i =>
  if start ≤ i then data.getD (i - start) (buffer i) else buffer i

/-- `TwoSectors[i]` -/
def Buffer.sector (buffer : Buffer) (i : ℕ) : Block := Vector.ofFn fun j => buffer (512 * i + j)

/-- The loop of READ(10), from block `i` on, of which `n` are left. -/
def readLoop (card : Card) (sectorOffset : UInt32) : ℕ → ℕ → Buffer → List Transfer
  | 0, _, _ => []
  | n + 1, i, twoSectors =>
    let sector := sectorOffset + UInt32.ofNat i
    let r := Card_ReadM card sector 1
    let twoSectors := twoSectors.copy (512 * (i % 2)) (r.1.flatMap Vector.toList)
    .cardRead sector r.2 :: .dataIn (twoSectors.sector (i % 2)).toList 512 ::
      readLoop card sectorOffset n (i + 1) twoSectors

/-- One round of WRITE(10): `n` blocks are received and written. -/
def writeStep (n : ℕ) (sector : UInt32) (twoSectors : Buffer) (packets : List (List UInt8)) (card : Card) :
    Option (List Transfer × Buffer × List (List UInt8) × Card) :=
  (usbRecv packets (n * 512)).map fun (data, read, rest) =>
    let twoSectors := twoSectors.copy 0 data
    let w := Card_WriteM card sector ((List.range n).map twoSectors.sector)
    ([.dataOut (n * 512) read, .cardWrite sector n w.2], twoSectors, rest, w.1)

/-- The loop of WRITE(10), two blocks at a time. -/
def writeLoop (sectorOffset : UInt32) :
    ℕ → ℕ → Buffer → List (List UInt8) → Card → Option (List Transfer × Card)
  | 0, _, _, _, card => some ([], card)
  | 1, i, twoSectors, packets, card =>
    (writeStep 1 (sectorOffset + UInt32.ofNat i) twoSectors packets card).map
      fun (ts, _, _, card) => (ts, card)
  | n + 2, i, twoSectors, packets, card =>
    (writeStep 2 (sectorOffset + UInt32.ofNat i) twoSectors packets card).bind
      fun (ts, twoSectors, packets, card) =>
        (writeLoop sectorOffset n (i + 2) twoSectors packets card).map
          fun (ts', card) => (ts ++ ts', card)

/-- `process_command`; `none` when it does not return. -/
def processCommand (twoSectors : Buffer) (packets : List (List UInt8)) (cbw : CommandBlockWrapper)
    (device : Device) : Option (CSWStatus × List Transfer × Device) :=
  match cbw.opcode with
  | .inquiry =>
    if cbw.evpd = true then
      some (.commandPassed,
        if cbw.pageCode = 0x80 then [.dataIn unitSerialNumberData cbw.deviceLength] else [], device)
    else some (.commandPassed, [.dataIn inquiryData cbw.deviceLength], device)
  | .testUnitReady => some (.commandPassed, [], device)
  | .readFormatCapacity =>
    some (.commandPassed, [.dataIn device.readFormatCapacityData cbw.deviceLength], device)
  | .readCapacity => some (.commandPassed, [.dataIn device.readCapacityData cbw.deviceLength], device)
  | .modeSense6 | .modeSense10 =>
    some (.commandPassed, [.dataIn modeParameterHeaderData cbw.deviceLength], device)
  | .read10 =>
    some (.commandPassed, readLoop device.card cbw.lba (cbw.deviceLength / 512) 0 twoSectors, device)
  | .write10 =>
    (writeLoop cbw.lba (cbw.deviceLength / 512) 0 twoSectors packets device.card).map
      fun (ts, card) => (.commandPassed, ts, { device with card := card })
  | .preventAllowRemoval =>
    some (.commandFailed, [], setSenseData 0x05 0x24 { device with preventMediaRemoval := cbw.prevent })
  | .requestSense =>
    some (.commandPassed, [.dataIn device.requestSenseData cbw.deviceLength], device)
  | .startStopUnit => some (.commandPassed, [], device)
  | .unknown => some (.unsupported, [], device)

/-- `hostLength - deviceLength` -/
def CommandBlockWrapper.residue (cbw : CommandBlockWrapper) : UInt32 :=
  cbw.dCBWDataTransferLength - UInt32.ofNat cbw.deviceLength

/-- `bCSWStatus` and `dCSWDataResidue`, by the case -/
def caseStatus (status : CSWStatus) (cbw : CommandBlockWrapper) : CSWStatus × UInt32 :=
  match cbw.transferMode with
  | .hnEqDn | .hiEqDi | .hoEqDo => (status, 0)
  | .hnLtDi | .hnLtDo => (.phaseError, 0)
  | .hoLtDo | .hiLtDi => (.phaseError, cbw.dCBWDataTransferLength)
  | .hiGtDn | .hiGtDi => (status, cbw.residue)
  | .hoGtDn | .hoGtDo => (status, cbw.residue)
  | .hiNeDo | .hoNeDi => (.phaseError, 0)
  | .illegal => (status, cbw.residue)

/-- `process_status`: the status, and the sense data that goes with it -/
def processStatus (status : CSWStatus) (cbw : CommandBlockWrapper) (device : Device) : Transfer × Device :=
  let (bCSWStatus, residue) := caseStatus status cbw
  let device := if status = .unsupported then setSenseData 0x05 0x24 device else device
  let bCSWStatus := if status = .unsupported then .commandFailed else bCSWStatus
  let residue := if status = .unsupported then residue + UInt32.ofNat cbw.deviceLength else residue
  let device :=
    if bCSWStatus = .commandPassed ∨ bCSWStatus = .phaseError then setSenseData 0x00 0x00 device
    else if device.senseKey = 0x00 then setSenseData 0x01 0x00 device
    else device
  (.csw cbw.dCBWTag residue bCSWStatus, device)

/-- `msc_packet_recv`, with the packets that follow the command block; `none` when it does not
    return. -/
def mscPacketRecv (twoSectors : Buffer) (packets : List (List UInt8)) (cbw : CommandBlockWrapper)
    (length : ℕ) (device : Device) : Option (List Transfer × Device) :=
  if length ≠ 31 ∨ cbw.dCBWSignature ≠ 0x43425355 then some ([.stall 1, .stall 2], device)
  else
    (processCommand twoSectors packets cbw device).map fun (status, ts, device) =>
      (ts ++ [(processStatus status cbw device).1], (processStatus status cbw device).2)

end Msc
