import Mathlib.Data.List.Basic
import Mathlib.Data.Nat.Notation
import Mathlib.Tactic.Common

/-! The memory channel, between the ARM and the DRAM behind the FPGA.

    A `Channel` fixes how every transfer turns out: whether a wait for the FPGA times out, what a
    cell holds after a byte was sent to it, and what arrives when a cell is read. Nothing is assumed
    about it; `Channel.faithful` is the one that does what the protocol says. -/

namespace FileIO.MCh

/-- The outcome of each transfer, by its number. -/
structure Channel where
  /-- the wait of `SendBuffer` -/
  sendTimeout : ℕ → Bool
  /-- the wait for the end of a write -/
  writeTimeout : ℕ → Bool
  readTimeout : ℕ → Bool
  /-- what an address holds afterwards, from what it held and the byte sent -/
  store : ℕ → UInt32 → UInt8 → UInt8 → UInt8
  /-- what arrives, from what the address holds -/
  load : ℕ → UInt32 → UInt8 → UInt8

/-- Every byte arrives and nothing times out. -/
def Channel.faithful : Channel :=
  { sendTimeout := fun _ => false, writeTimeout := fun _ => false, readTimeout := fun _ => false
    store := fun _ _ _ sent => sent, load := fun _ _ held => held }

/-- The DRAM, and the transfers made so far. -/
structure Dram where
  mem : UInt32 → UInt8
  sent : List (UInt32 × List UInt8)
  got : ℕ

/-- What transfer `n` of `bs` to `base` does to the memory. -/
def stored (ch : Channel) (n : ℕ) (base : UInt32) (bs : List UInt8) (mem : UInt32 → UInt8) :
    UInt32 → UInt8 := fun a =>
  if (a - base).toNat < bs.length then ch.store n a (mem a) (bs.getD (a - base).toNat 0) else mem a

/-- `FILEIO_MEMBUF_SIZE` -/
def memBufSize : ℕ := 512

/-- `FileIO_MCh_BufToMem`: one after a timeout waiting for the end of the write. -/
def bufToMem (ch : Channel) (pBuf : List UInt8) (base : UInt32) (m : Dram) : UInt8 × Dram :=
  let bs := pBuf.take memBufSize
  let n := m.sent.length
  let mem := if ch.sendTimeout n then m.mem else stored ch n base bs m.mem
  (if ch.writeTimeout n then 1 else 0, { m with mem := mem, sent := m.sent ++ [(base, bs)] })

/-- `FileIO_MCh_MemToBuf`: after a timeout the buffer stays as it is. -/
def memToBuf (ch : Channel) (pBuf : List UInt8) (base : UInt32) (m : Dram) :
    UInt8 × List UInt8 × Dram :=
  let bs := (List.range (min pBuf.length memBufSize)).map fun i =>
    ch.load m.got (base + i.toUInt32) (m.mem (base + i.toUInt32))
  if ch.readTimeout m.got then (1, pBuf, { m with got := m.got + 1 })
  else (0, bs ++ pBuf.drop memBufSize, { m with got := m.got + 1 })

@[simp] theorem bufToMem_sent (ch : Channel) (bs : List UInt8) (base : UInt32) (m : Dram) :
    (bufToMem ch bs base m).2.sent = m.sent ++ [(base, bs.take memBufSize)] := rfl

@[simp] theorem memToBuf_mem (ch : Channel) (bs : List UInt8) (base : UInt32) (m : Dram) :
    (memToBuf ch bs base m).2.2.mem = m.mem := by
  unfold memToBuf; simp only; split <;> rfl

@[simp] theorem memToBuf_sent (ch : Channel) (bs : List UInt8) (base : UInt32) (m : Dram) :
    (memToBuf ch bs base m).2.2.sent = m.sent := by
  unfold memToBuf; simp only; split <;> rfl

end FileIO.MCh
