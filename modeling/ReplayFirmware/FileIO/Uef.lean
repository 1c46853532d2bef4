import ReplayFirmware.FileIO.Drv02
import ReplayFirmware.Lib.Segments

/-! The tape driver on UEF images.

    A UEF file is a header and a sequence of chunks: data, gaps and tones, and others that are not
    played. The core asks for the bit stream of the tape at any position. The driver walks the chunks
    until it comes to the one that holds the position, and remembers that chunk, so that a later
    position inside it is found at once and one behind it by going on from there. `carrier` turns the
    length of a gap or a tone into bits. -/

namespace FileIO.Uef
open FatFs Drv02

/-! ### The file -/

/-- A word of a buffer, low byte first. -/
def word (b : ℕ → UInt8) (i : ℕ) : UInt16 := (b i).toUInt16 ||| (b (i + 1)).toUInt16 <<< 8

/-- A long of a buffer, low byte first. -/
def long (b : ℕ → UInt8) (i : ℕ) : UInt32 :=
  (b i).toUInt32 ||| (b (i + 1)).toUInt32 <<< 8 ||| (b (i + 2)).toUInt32 <<< 16
    ||| (b (i + 3)).toUInt32 <<< 24

/-- `fseek`, from the top of the file or from where it stands: the offset is a `long int`, and the
    position a file pointer of 64 bits. -/
def fseek (f : FIL) (offset : UInt32) (cur : Bool) : FIL :=
  let o : ℤ := offset.toBitVec.toInt + if cur then (f.fptr : ℤ) else 0
  (FF_Seek f (o % 2 ^ 64).toNat).2

/-- `ChunkInfo` -/
structure ChunkInfo where
  id : UInt16
  length : UInt32
  file_offset : UInt32
  bit_offset_start : UInt32
  bit_offset_end : UInt32
  pre_carrier : UInt32

/-- The record of no chunk. -/
def ChunkInfo.zero : ChunkInfo :=
  { id := 0, length := 0, file_offset := 0, bit_offset_start := 0, bit_offset_end := 0
    pre_carrier := 0 }

/-- `UEF_infoID` -/
def infoID : UInt16 := 0x0000

/-- `UEF_tapeID` -/
def tapeID : UInt16 := 0x0100

/-- `UEF_highToneID` -/
def highToneID : UInt16 := 0x0110

/-- `UEF_highDummyID` -/
def highDummyID : UInt16 := 0x0111

/-- `UEF_gapID` -/
def gapID : UInt16 := 0x0112

/-- `UEF_freqChgID` -/
def freqChgID : UInt16 := 0x0113

/-- `UEF_floatGapID` -/
def floatGapID : UInt16 := 0x0116

/-- The chunks that are played. -/
def played (id : UInt16) : Bool :=
  tapeID = id || gapID = id || highToneID = id || highDummyID = id

/-- `ReadChunkHeader`; what a short read leaves of the header stays. -/
def readChunkHeader (f : FIL) (chunk : ChunkInfo) : UInt16 × ChunkInfo × FIL :=
  let (bs, f) := FF_Read f 6
  let b := readInto (fun i => [0xFF, 0xFF].getD i 0) bs
  let chunk := { chunk with id := word b 0, length := long b 2 }
  (if bs.length ≠ 6 then 0xFFFF else chunk.id, chunk, f)

/-! ### The walk -/

section
variable (carrier : UInt16 → UInt32)

/-- The length in bits of a chunk that is played; `none` when the words it starts with are cut off. -/
def chunkBitlen (f : FIL) (chunk : ChunkInfo) : Option UInt32 × ChunkInfo × FIL :=
  if chunk.id = tapeID then (some (chunk.length * 10), chunk, f)
  else if chunk.id = gapID ∨ chunk.id = highToneID then
    let (bs, f) := FF_Read f 2
    if bs.length ≠ 2 then (none, chunk, f)
    else (some (carrier (word (bs.getD · 0) 0)), chunk, fseek f (0 - 2) true)
  else
    let (bs, f) := FF_Read f 2
    if bs.length ≠ 2 then (none, chunk, f)
    else
      let chunk := { chunk with pre_carrier := carrier (word (bs.getD · 0) 0) }
      let (bs, f) := FF_Read f 2
      if bs.length ≠ 2 then (none, chunk, f)
      else
        let post_carrier := carrier (word (bs.getD · 0) 0)
        (some (chunk.pre_carrier + 20 + post_carrier), chunk, fseek f (0 - 4) true)

/-- The text of an information chunk, 63 bytes at a time. -/
def infoLoop : ℕ → UInt32 → FIL → FIL
  | 0, _, f => f
  | fuel + 1, length, f =>
    if length = 0 then f
    else
      let read_len := min length 63
      let (bs, f) := FF_Read f read_len.toNat
      if bs.length ≠ read_len.toNat then f else infoLoop fuel (length - read_len) f

/-- What is printed of the other chunks when the length of the tape is taken; false when a chunk is
    cut off. -/
def describe (f : FIL) (chunk : ChunkInfo) : Bool × FIL :=
  if infoID = chunk.id then (true, infoLoop chunk.length.toNat chunk.length f)
  else if freqChgID = chunk.id ∨ floatGapID = chunk.id then
    let (bs, f) := FF_Read f 4
    (bs.length = 4, f)
  else (true, f)

/-- A walk over the chunks: the file and the record, where the chunk it is at starts, and how far
    behind that the position is. -/
structure Walk where
  f : FIL
  chunk : ChunkInfo
  chunk_start : UInt32
  bit_pos : UInt32

/-- The loop of `GetChunkAtPosFile`; `none` when it has not come to an end after `fuel` passes. -/
def walkLoop (length_check : Bool) : ℕ → Walk → Option Walk
  | 0, _ => none
  | fuel + 1, w =>
    if FF_isEOF w.f then some w
    else
      let (id, chunk, f) := readChunkHeader w.f w.chunk
      if id = 0xFFFF then some { w with f := f, chunk := chunk }
      else
        let chunk := { chunk with file_offset := f.fptr.toUInt32 }
        if played id then
          match chunkBitlen carrier f chunk with
          | (none, chunk, f) => some { w with f := f, chunk := chunk }
          | (some chunk_bitlen, chunk, f) =>
            if w.bit_pos < chunk_bitlen then
              some { w with
                f := f
                chunk := { chunk with
                  bit_offset_start := w.chunk_start
                  bit_offset_end := w.chunk_start + chunk_bitlen } }
            else
              walkLoop length_check fuel
                { f := fseek f chunk.length true, chunk := chunk
                  chunk_start := w.chunk_start + chunk_bitlen, bit_pos := w.bit_pos - chunk_bitlen }
        else if length_check then
          match describe f chunk with
          | (false, f) => some { w with f := f, chunk := chunk }
          | (true, f) =>
            walkLoop length_check fuel
              { w with f := fseek (fseek f chunk.file_offset false) chunk.length true, chunk := chunk }
        else walkLoop length_check fuel { w with f := fseek f chunk.length true, chunk := chunk }

/-- `GetChunkAtPosFile`: whether the record is that of the chunk at the position, and the walk, whose
    `bit_pos` is the position in the chunk. -/
def getChunkAtPosFile (fuel : ℕ) (f : FIL) (chunk : ChunkInfo) (bit_pos : UInt32) :
    Option (Bool × Walk) :=
  if chunk.bit_offset_start ≤ bit_pos ∧ bit_pos < chunk.bit_offset_end then
    some (true, { f := f, chunk := chunk, chunk_start := chunk.bit_offset_start
                  bit_pos := bit_pos - chunk.bit_offset_start })
  else
    let w : Walk :=
      if chunk.bit_offset_end ≠ 0 ∧ chunk.bit_offset_end ≤ bit_pos then
        { f := fseek f (chunk.file_offset + chunk.length) false
          chunk := { chunk with bit_offset_end := 0 }
          chunk_start := chunk.bit_offset_end, bit_pos := bit_pos - chunk.bit_offset_end }
      else
        { f := fseek f 12 false, chunk := { chunk with bit_offset_end := 0 }
          chunk_start := 0, bit_pos := bit_pos }
    (walkLoop carrier (bit_pos = 0xFFFFFFFF) fuel w).map fun w => (w.chunk.bit_offset_end ≠ 0, w)

/-! ### The bits -/

/-- Bit `k` of a byte. -/
def dataBit (byte : UInt8) (k : ℕ) : UInt8 := if byte.toNat.testBit k then 1 else 0

/-- Bit `k` of a byte on the tape, between its start bit and its stop bit. -/
def frameBit (byte : UInt8) (k : ℕ) : UInt8 :=
  if k = 0 then 0 else if k = 9 then 1 else dataBit byte (k - 1)

/-- What the driver keeps for a tape: the file and the record of a chunk. -/
structure Tape where
  f : FIL
  chunk : ChunkInfo

/-- `GetBitAtPos`; `junk` is what the stack holds where a byte behind the end of the file is read to. -/
def getBitAtPos (fuel : ℕ) (junk : UInt8) (t : Tape) (bit_pos : UInt32) : Option (UInt8 × Tape) :=
  match getChunkAtPosFile carrier fuel t.f t.chunk bit_pos with
  | none => none
  | some (false, w) => some (0, ⟨w.f, w.chunk⟩)
  | some (true, w) =>
    if w.chunk.id = gapID then some (0, ⟨w.f, w.chunk⟩)
    else if w.chunk.id = highToneID then some (1, ⟨w.f, w.chunk⟩)
    else if w.chunk.id = tapeID then
      let byte_offset := w.bit_pos / 10
      let bit_offset := w.bit_pos - byte_offset * 10
      if bit_offset = 0 then some (0, ⟨w.f, w.chunk⟩)
      else if bit_offset = 9 then some (1, ⟨w.f, w.chunk⟩)
      else
        let (bs, f) := FF_Read (fseek w.f (w.chunk.file_offset + byte_offset) false) 1
        some (dataBit (bs.getD 0 junk) (bit_offset - 1).toNat, ⟨f, w.chunk⟩)
    else if w.bit_pos < w.chunk.pre_carrier ∨ w.chunk.pre_carrier + 20 ≤ w.bit_pos then
      some (1, ⟨w.f, w.chunk⟩)
    else
      -- the letter A, twice
      some (frameBit 0x41 ((w.bit_pos - w.chunk.pre_carrier) % 10).toNat, ⟨w.f, w.chunk⟩)

/-- A sequence of queries: the bits, and the tape after them. -/
def getBits (fuel : ℕ) (junk : UInt8) : List UInt32 → Tape → Option (List UInt8 × Tape)
  | [], t => some ([], t)
  | pos :: ps, t =>
    match getBitAtPos carrier fuel junk t pos with
    | none => none
    | some (bit, t) => (getBits fuel junk ps t).map fun r => (bit :: r.1, r.2)

/-! ### Requests -/

/-- The positions of the bits of `n` bytes from an address on. -/
def bitPositions (addr : UInt32) (n : ℕ) : List UInt32 :=
  (List.range n).flatMap fun pos => (List.range 8).map fun bit =>
    (addr + pos.toUInt32) <<< 3 + bit.toUInt32

/-- Bits put together to bytes, the first bit on top. -/
def packBits : ℕ → List UInt8 → List UInt8
  | 0, _ => []
  | n + 1, bits => (bits.take 8).foldl (fun val bit => val <<< 1 ||| bit) 0 :: packBits n (bits.drop 8)

/-- The transfer loop of `FileIO_Drv02_UEF_Process`. -/
def uefLoop (fuel : ℕ) (junk : UInt8) (file_size : UInt32) :
    ℕ → UInt32 → UInt16 → Tape → Option (List FChOut × Tape)
  | 0, _, _, t => some ([.stat Drv00.statAckOk], t)
  | n + 1, addr, size, t =>
    if size = 0 then some ([.stat Drv00.statAckOk], t)
    else
      let cur_size := if size > 512 then 512 else size
      let act_size :=
        if file_size < addr + cur_size.toUInt32 then file_size - addr else cur_size.toUInt32
      match getBits carrier fuel junk (bitPositions addr act_size.toNat) t with
      | none => none
      | some (bits, t) =>
        let out := .fifo 0 (packBits act_size.toNat bits)
        if act_size ≠ cur_size.toUInt32 then some ([out, .stat Drv00.statAckTruncErr], t)
        else
          (uefLoop fuel junk file_size n (addr + cur_size.toUInt32) (size - cur_size) t).map
            fun r => (out :: r.1, r.2)

/-- `FileIO_Drv02_UEF_Process` on a read request: what is sent, and the tape after it. -/
def uefProcess (fuel : ℕ) (junk : UInt8) (file_size addr : UInt32) (size : UInt16) (t : Tape) :
    Option (List FChOut × Tape) :=
  uefLoop carrier fuel junk file_size size.toNat (if file_size < addr then file_size else addr) size t

/-- `FileIO_Drv02_InsertInit`: the unit, the record of the chunk, which starts empty, and what is
    sent. -/
def insertInit (fuel : ℕ) (drive_number status : UInt8) (fSource : FIL) (ext : List UInt8) :
    Option (Fch Desc × ChunkInfo × List FChOut) :=
  let unit (format : Format) (file_size : UInt32) (fSource : FIL) (chunk : ChunkInfo) :=
    some (({ status := status, fSource := fSource
             pDesc := { format := format, file_size := file_size } } : Fch Desc), chunk,
      [FChOut.cmd 0 [drive_number], FChOut.cmd 4 [file_size.toUInt8, (file_size >>> 8).toUInt8,
        (file_size >>> 16).toUInt8, (file_size >>> 24).toUInt8]])
  let file_size := (FF_Size fSource).toUInt32
  if extIs ext "RAW" then unit .RAW file_size fSource .zero
  else if extIs ext "UEF" then
    let (header, fSource) := FF_Read (FF_Seek fSource 0).2 12
    if header.length ≠ 12 then unit .XXX file_size fSource .zero
    else if header.take 10 ≠ strBytes "UEF File!" ++ [0] then unit .XXX file_size fSource .zero
    else
      match getChunkAtPosFile carrier fuel fSource .zero 0xFFFFFFFF with
      | none => none
      | some (_, w) =>
        let numbits := ~~~w.bit_pos
        unit .UEF ((numbits + 7) / 8) w.f w.chunk
  else unit .XXX file_size fSource .zero

end

/-! ### The tape itself -/

/-- A chunk as the file has it: what its header says, where its data starts, and how it plays. -/
structure Chunk where
  id : UInt16
  length : UInt32
  file_offset : ℕ
  pre_carrier : ℕ
  bits : ℕ

section
variable (carrier : UInt16 → UInt32)

/-- The chunk whose header stands at position `p`, if it is all there. -/
def chunkAt (data : List UInt8) (p : ℕ) : Option Chunk :=
  let b i := data.getD (p + i) 0
  let id := word b 0
  let chunk : Chunk :=
    { id := id, length := long b 2, file_offset := p + 6, pre_carrier := 0, bits := 0 }
  if data.length < p + 6 ∨ id = 0xFFFF then none
  else if id = tapeID then some { chunk with bits := chunk.length.toNat * 10 }
  else if id = gapID ∨ id = highToneID then
    if data.length < p + 8 then none else some { chunk with bits := (carrier (word b 6)).toNat }
  else if id = highDummyID then
    let pre := (carrier (word b 6)).toNat
    if data.length < p + 10 then none
    else some { chunk with pre_carrier := pre, bits := pre + 20 + (carrier (word b 8)).toNat }
  else some chunk

/-- The length of a chunk in the file, with its header. -/
def Chunk.span (c : Chunk) : ℕ := 6 + c.length.toNat

/-- The chunks from position `p` on. -/
def chunksFrom (data : List UInt8) : ℕ → ℕ → List Chunk
  | 0, _ => []
  | fuel + 1, p =>
    match chunkAt carrier data p with
    | none => []
    | some c => c :: chunksFrom data fuel (p + c.span)

/-- The chunks of a UEF file, behind its header. -/
def chunks (data : List UInt8) : List Chunk := chunksFrom carrier data data.length 12

/-- Bit `k` of a chunk; `none` where the file does not have its data. -/
def Chunk.bit (c : Chunk) (data : List UInt8) (k : ℕ) : Option UInt8 :=
  if c.id = gapID then some 0
  else if c.id = highToneID then some 1
  else if c.id = tapeID then
    if k % 10 = 0 then some 0
    else if k % 10 = 9 then some 1
    else data[c.file_offset + k / 10]?.map fun byte => frameBit byte (k % 10)
  else if k < c.pre_carrier ∨ c.pre_carrier + 20 ≤ k then some 1
  else some (frameBit 0x41 ((k - c.pre_carrier) % 10))

/-- Bit `pos` of the tape, decoded from the start of the file: 0 behind its end, `none` where the file
    does not have the data. -/
def tapeBit (data : List UInt8) (pos : ℕ) : Option UInt8 :=
  match Segments.locate Chunk.bits (chunks carrier data) pos with
  | none => some 0
  | some (c, k) => c.bit data k

/-- The length of the tape in bits. -/
def tapeLength (data : List UInt8) : ℕ := Segments.total Chunk.bits (chunks carrier data)

/-- Where the last chunk ends, by its header. -/
def tapeEnd (data : List UInt8) : ℕ := 12 + Segments.total Chunk.span (chunks carrier data)

end

end FileIO.Uef
