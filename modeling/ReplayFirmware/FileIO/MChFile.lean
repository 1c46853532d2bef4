import ReplayFirmware.FatFs.Wrapper
import ReplayFirmware.FileIO.MCh

/-! Files through the memory channel.

    A file is sent to the memory in blocks of the file buffer, and a block in chunks of the memory buffer,
    each after a wait for the FPGA; a wait that times out ends the transfer. An upload tells how much of it
    is left when the file ends. The comparison of a file with the memory and the storing of memory to a file
    do not: they end with success when the file has no more bytes, or no more room. -/

namespace FileIO.MCh
open FatFs

/-! ### The port -/

/-- `FILEBUF_SIZE` -/
def fileBufSize : ℕ := 512 * 4

/-- Whether a wait for the status of the FPGA times out, and the bytes that arrive from its memory, both by
    their number. -/
structure Fpga where
  timeout : ℕ → Bool
  arrive : ℕ → UInt8

/-- What goes to the memory port: the address, the direction, bytes to write, and requests for bytes. -/
inductive PortOut where
  | address (base : UInt32)
  | direction (d : UInt8)
  | data (bs : List UInt8)
  | request (n : ℕ)
  deriving DecidableEq, Repr

/-- The waits that were made, the bytes that have arrived, and what went out. -/
structure Port where
  waits : ℕ
  got : ℕ
  out : List PortOut

/-- The port behind the setting of address and direction. -/
def openPort (base : UInt32) (d : UInt8) : Port :=
  { waits := 0, got := 0, out := [.address base, .direction d] }

variable (fpga : Fpga)

/-- `FileIO_MCh_WaitStat` -/
def waitStat (p : Port) : Bool × Port := (fpga.timeout p.waits, { p with waits := p.waits + 1 })

/-- `FileIO_MCh_SendBuffer`: one after a timeout, and then nothing is sent. -/
def sendBuffer (bs : List UInt8) (p : Port) : UInt8 × Port :=
  let (late, p) := waitStat fpga p
  if late then (1, p) else (0, { p with out := p.out ++ [.data bs] })

/-- `FileIO_MCh_ReadBuffer` -/
def readBuffer (n : ℕ) (p : Port) : List UInt8 × Port :=
  ((List.range n).map fun i => fpga.arrive (p.got + i), { p with got := p.got + n })

/-- The chunks of a block; `none` is the return after a timeout. -/
def sendLoop : ℕ → ℕ → List UInt8 → UInt8 → Port → Option UInt8 × Port
  | 0, _, _, rc, p => (some rc, p)
  | fuel + 1, fpgabuf_size, wPtr, rc, p =>
    if wPtr.length = 0 then (some rc, p)
    else
      let (late, p) := waitStat fpga p
      if late then (none, p)
      else
        let fpgabuf_size := if wPtr.length < fpgabuf_size then wPtr.length else fpgabuf_size
        let (r, p) := sendBuffer fpga (wPtr.take fpgabuf_size) p
        sendLoop fuel fpgabuf_size (wPtr.drop fpgabuf_size) (rc ||| r) p

/-- The blocks of an upload, with what is left of it in the end. -/
def uploadLoop : ℕ → ℕ → UInt8 → Port → FIL → Option (ℕ × UInt8) × Port × FIL
  | 0, remaining_size, rc, p, f => (some (remaining_size, rc), p, f)
  | fuel + 1, remaining_size, rc, p, f =>
    if remaining_size = 0 then (some (remaining_size, rc), p, f)
    else
      let (fBuf, f) := FF_Read f fileBufSize
      -- catch 0 len file error
      if fBuf.length = 0 then (some (remaining_size, rc), p, f)
      else
        let buf_tx_size := min (min fileBufSize remaining_size) fBuf.length
        match sendLoop fpga buf_tx_size memBufSize (fBuf.take buf_tx_size) rc p with
        | (none, p) => (none, p, f)
        | (some rc, p) => uploadLoop fuel (remaining_size - buf_tx_size) rc p f

/-- `FileIO_MCh_FileToMem` -/
def fileToMem (pFile : FIL) (base size offset : UInt32) : UInt8 × Port × FIL :=
  let (_, f) := FF_Seek pFile offset.toNat
  match uploadLoop fpga size.toNat size.toNat 0 (openPort base 0x00) f with
  | (none, p, f) => (1, p, f)
  | (some (remaining_size, rc), p, f) =>
    let (late, p) := waitStat fpga p
    if late then (1, p, f) else (if remaining_size ≠ 0 then 2 else rc, p, f)

/-- A block is read from the memory in chunks; `none` is the return after a timeout. -/
def fetchLoop : ℕ → ℕ → ℕ → Port → Option (List UInt8) × Port
  | 0, _, _, p => (some [], p)
  | fuel + 1, fpgabuf_size, fpga_read_left, p =>
    if fpga_read_left = 0 then (some [], p)
    else
      let fpgabuf_size := if fpga_read_left < fpgabuf_size then fpga_read_left else fpgabuf_size
      let (late, p) := waitStat fpga { p with out := p.out ++ [.request fpgabuf_size] }
      if late then (none, p)
      else
        let (bs, p) := readBuffer fpga fpgabuf_size p
        match fetchLoop fuel fpgabuf_size (fpga_read_left - fpgabuf_size) p with
        | (none, p) => (none, p)
        | (some rest, p) => (some (bs ++ rest), p)

/-- The blocks of a comparison. -/
def verifyLoop : ℕ → ℕ → Port → FIL → UInt8 × Port × FIL
  | 0, _, p, f => (0, p, f)
  | fuel + 1, remaining_size, p, f =>
    if remaining_size = 0 then (0, p, f)
    else
      let (fBuf, f) := FF_Read f fileBufSize
      if fBuf.length = 0 then (0, p, f)
      else
        let buf_tx_size := min (min fileBufSize remaining_size) fBuf.length
        match fetchLoop fpga buf_tx_size memBufSize buf_tx_size p with
        | (none, p) => (1, p, f)
        | (some tBuf, p) =>
          if fBuf.take buf_tx_size ≠ tBuf then (1, p, f)
          else verifyLoop fuel (remaining_size - buf_tx_size) p f

/-- `FileIO_MCh_FileToMemVerify` -/
def fileToMemVerify (pFile : FIL) (base size offset : UInt32) : UInt8 × Port × FIL :=
  verifyLoop fpga size.toNat size.toNat (openPort base 0x80) (FF_Seek pFile offset.toNat).2

/-- The blocks that are stored; a short write counts as a whole one. -/
def storeLoop : ℕ → ℕ → Port → FIL → UInt8 × Port × FIL
  | 0, _, p, f => (0, p, f)
  | fuel + 1, remaining_size, p, f =>
    if remaining_size = 0 then (0, p, f)
    else
      let buf_tx_size := min fileBufSize remaining_size
      match fetchLoop fpga buf_tx_size memBufSize buf_tx_size p with
      | (none, p) => (1, p, f)
      | (some tBuf, p) =>
        let (bytes_written, f) := FF_Write f tBuf
        if bytes_written = 0 then (0, p, f)
        else storeLoop fuel (remaining_size - buf_tx_size) p f

/-- Where `FileIO_MCh_MemToFile` begins: an offset of 0 is where the file stands. -/
def storeFrom (pFile : FIL) (offset : UInt32) : FIL :=
  if offset = 0 then pFile else (FF_Seek pFile offset.toNat).2

/-- `FileIO_MCh_MemToFile` -/
def memToFile (pFile : FIL) (base size offset : UInt32) : UInt8 × Port × FIL :=
  storeLoop fpga size.toNat size.toNat (openPort base 0x80) (storeFrom pFile offset)

/-! ### What a file has left -/

variable {fpga : Fpga} {f : FIL}

/-- How many bytes reads can still deliver. -/
def reach (f : FIL) : ℕ := if f.err then 0 else min f.objsize f.readable - f.fptr

/-- How many they can deliver from an offset on. -/
def available (f : FIL) (offset : ℕ) : ℕ := if f.err then 0 else min f.objsize f.readable - offset

/-- A read delivers the next bytes as far as they reach. -/
theorem read_block (h : f.Ok) (n : ℕ) :
    (FF_Read f n).1 = (f.data.drop f.fptr).take (min n (reach f)) ∧ (FF_Read f n).2.Ok ∧
      (FF_Read f n).2.data = f.data ∧ (FF_Read f n).2.fptr = f.fptr + min n (reach f) ∧
      reach (FF_Read f n).2 = reach f - min n (reach f) := by
  have havail : f.avail n = min n (reach f) := by
    rw [FIL.avail, reach]
    split <;> omega
  have hok := FF_Read_ok h n
  rw [FF_Read, f_read_eq h, havail] at hok ⊢
  refine ⟨rfl, hok, rfl, rfl, ?_⟩
  have hle := h.fptr_le
  cases herr : f.err with
  | true =>
    have h0 : reach f = 0 := by rw [reach, herr, if_pos rfl]
    rw [h0]
    simp only [reach, Bool.true_or, if_true, Nat.zero_sub]
  | false =>
    have hreach : reach f = min f.objsize f.readable - f.fptr := by
      rw [reach, herr]
      exact if_neg (by decide)
    have hsize : ({ f.moved (min n (reach f)) with
        err := false || decide (min n (reach f) < min n (f.objsize - f.fptr)) } : FIL).objsize
          = f.objsize := rfl
    by_cases hcut : min n (reach f) < min n (f.objsize - f.fptr)
    · rw [reach]
      simp only [decide_eq_true hcut, Bool.or_true, if_true]
      omega
    · rw [reach, hsize]
      simp only [decide_eq_false hcut, Bool.or_false, Bool.false_eq_true, if_false, FIL.moved]
      omega

theorem length_block (h : f.Ok) {n : ℕ} (hn : n ≤ reach f) :
    ((f.data.drop f.fptr).take n).length = n := by
  have hsize : f.data.length = f.objsize := rfl
  have hle := h.fptr_le
  rw [reach] at hn
  rw [List.length_take, List.length_drop]
  split at hn <;> omega

/-- The length of a block that is read. -/
theorem read_length (h : f.Ok) : (FF_Read f fileBufSize).1.length = min fileBufSize (reach f) := by
  rw [(read_block h fileBufSize).1, length_block h (Nat.min_le_right _ _)]

/-- Of `left` bytes that are wanted and `reach` that there are, the first block has `n`. -/
structure Block (left reach n : ℕ) : Prop where
  le_left : n ≤ left
  le_reach : n ≤ reach
  le_read : n ≤ min fileBufSize reach
  pos : left ≠ 0 → min fileBufSize reach ≠ 0 → 0 < n
  rest : min left reach = n + min (left - n) (reach - min fileBufSize reach)
  left_rest : left - min left reach = left - n - min (left - n) (reach - min fileBufSize reach)
  whole_or_last : min fileBufSize reach = n ∧ n = fileBufSize ∨
    min (left - n) (reach - min fileBufSize reach) = 0

theorem block_of (left reach : ℕ) : Block left reach (min (min fileBufSize left) (min fileBufSize reach)) := by
  have hsize : fileBufSize = 2048 := rfl
  have hn : min (min fileBufSize left) (min fileBufSize reach) = min fileBufSize (min left reach) := by omega
  rw [hn]
  rcases Nat.le_total fileBufSize (min left reach) with hle | hle
  · rw [Nat.min_eq_left hle]
    have hread : min fileBufSize reach = fileBufSize := by omega
    constructor <;> omega
  · rw [Nat.min_eq_right hle]
    constructor <;> omega

/-- The bytes of the first block, and those behind it. -/
theorem Block.take {left reach n : ℕ} (b : Block left reach n) (bs : List UInt8) (start : ℕ) :
    (bs.drop start).take (min left reach) = (bs.drop start).take n ++
      (bs.drop (start + min fileBufSize reach)).take (min (left - n) (reach - min fileBufSize reach)) := by
  rw [b.rest]
  rcases b.whole_or_last with ⟨hread, -⟩ | hlast
  · rw [List.take_add, List.drop_drop, hread]
  · rw [hlast, Nat.add_zero, List.take_zero, List.append_nil]

/-- Nothing is read only where there is nothing. -/
theorem reach_none {left reach : ℕ} (h : min fileBufSize reach = 0) : min left reach = 0 := by
  have hsize : fileBufSize = 2048 := rfl
  omega

/-- What reads deliver behind a seek. -/
theorem seek_available (h : f.Ok) (offset : ℕ) : (FF_Seek f offset).2.Ok ∧
    reach (FF_Seek f offset).2 = available f offset ∧
    ∀ n, (((FF_Seek f offset).2.data.drop (FF_Seek f offset).2.fptr).take (min n (available f offset)))
      = (f.data.drop offset).take (min n (available f offset)) := by
  refine ⟨FF_Seek_ok h offset, ?_⟩
  cases herr : f.err with
  | true =>
    have h0 : available f offset = 0 := by rw [available, herr, if_pos rfl]
    rw [FF_Seek_aborted herr, h0]
    exact ⟨by rw [reach, herr, if_pos rfl], fun n => by rw [Nat.min_zero, List.take_zero, List.take_zero]⟩
  | false =>
    have hav : available f offset = min f.objsize f.readable - offset := by
      rw [available, herr]
      exact if_neg (by decide)
    rcases Nat.lt_or_ge f.objsize offset with hlt | hge
    · -- the position is the end of the file
      have h0 : available f offset = 0 := by omega
      have hle := h.fptr_le
      have htarget : f.objsize ≤ f.target offset := by
        have hsize := h.size_le
        rw [FIL.target]
        split <;> omega
      have hend : reach (FF_Seek f offset).2 = 0 := by
        rw [FF_Seek, if_neg (by omega), f_lseek_eq h, herr, if_neg (by decide), reach]
        have hsize : (f.seeked (f.target offset)).objsize = max f.objsize (f.target offset) :=
          f.length_extend _
        have hfptr : (f.seeked (f.target offset)).fptr = f.target offset := rfl
        simp only [hsize, hfptr]
        split <;> omega
      rw [h0]
      exact ⟨hend, fun n => by rw [Nat.min_zero, List.take_zero, List.take_zero]⟩
    · obtain ⟨clust, hseek⟩ := FF_Seek_in h herr hge
      rw [hseek]
      refine ⟨?_, fun n => rfl⟩
      rw [reach, hav]
      simp only [herr, Bool.false_eq_true, if_false]
      rfl

/-! ### Chunks of a block -/

/-- No wait between two states of the port times out. -/
def Timely (fpga : Fpga) (p p' : Port) : Prop :=
  ∀ n, p.waits ≤ n → n < p'.waits → fpga.timeout n = false

/-- One does. -/
def Late (fpga : Fpga) (p p' : Port) : Prop :=
  ∃ n, p.waits ≤ n ∧ n < p'.waits ∧ fpga.timeout n = true

theorem Timely.trans {p p' p'' : Port} (h : Timely fpga p p') (h' : Timely fpga p' p'') :
    Timely fpga p p'' := by
  intro n hlo hhi
  rcases Nat.lt_or_ge n p'.waits with hlt | hge
  · exact h n hlo hlt
  · exact h' n hge hhi

theorem Late.left {p p' p'' : Port} (h : Late fpga p p') (hle : p'.waits ≤ p''.waits) :
    Late fpga p p'' := by
  obtain ⟨n, hlo, hhi, ht⟩ := h
  exact ⟨n, hlo, by omega, ht⟩

theorem Late.right {p p' p'' : Port} (hle : p.waits ≤ p'.waits) (h : Late fpga p' p'') :
    Late fpga p p'' := by
  obtain ⟨n, hlo, hhi, ht⟩ := h
  exact ⟨n, by omega, hhi, ht⟩

/-- Bytes that go out in chunks of at most `FILEIO_MEMBUF_SIZE`, in order. -/
def Sends (p p' : Port) (bs : List UInt8) : Prop :=
  ∃ cs : List (List UInt8), p'.out = p.out ++ cs.map .data ∧ cs.flatten = bs ∧
    ∀ c ∈ cs, c.length ≤ memBufSize

theorem Sends.refl (p : Port) : Sends p p [] :=
  ⟨[], (List.append_nil _).symm, rfl, fun _ hc => absurd hc List.not_mem_nil⟩

theorem Sends.trans {p p' p'' : Port} {bs bs' : List UInt8} (h : Sends p p' bs) (h' : Sends p' p'' bs') :
    Sends p p'' (bs ++ bs') := by
  obtain ⟨cs, hout, hbs, hlen⟩ := h
  obtain ⟨cs', hout', hbs', hlen'⟩ := h'
  refine ⟨cs ++ cs', ?_, by rw [List.flatten_append, hbs, hbs'], fun c hc => ?_⟩
  · rw [hout', hout, List.map_append, List.append_assoc]
  · rcases List.mem_append.mp hc with hc | hc
    · exact hlen c hc
    · exact hlen' c hc

/-- A transfer without a timeout sends its bytes and keeps the return code; one with a timeout ends, or its
    return code is no longer zero. -/
def Outcome (fpga : Fpga) (p p' : Port) (bs : List UInt8) (rc : UInt8) (r : Option UInt8) : Prop :=
  p.waits ≤ p'.waits ∧
    (Timely fpga p p' ∧ Sends p p' bs ∧ r = some rc ∨
      Late fpga p p' ∧ ∀ rc', r = some rc' → rc' ≠ 0)

theorem or_one_ne_zero (rc : UInt8) : rc ||| 1 ≠ 0 := by
  cases rc with
  | ofBitVec b => revert b; decide

/-- What a chunk does. -/
theorem sendBuffer_outcome (bs : List UInt8) (hbs : bs.length ≤ memBufSize) (rc : UInt8) (p : Port) :
    Outcome fpga p (sendBuffer fpga bs p).2 bs rc (some (rc ||| (sendBuffer fpga bs p).1)) := by
  have hwaits : (sendBuffer fpga bs p).2.waits = p.waits + 1 := by
    rw [sendBuffer, waitStat]
    simp only
    split <;> rfl
  refine ⟨by omega, ?_⟩
  cases ht : fpga.timeout p.waits with
  | true =>
    refine Or.inr ⟨⟨p.waits, le_refl _, by omega, ht⟩, fun rc' hrc => ?_⟩
    rw [← Option.some.inj hrc, sendBuffer, waitStat]
    simp only [ht, if_true]
    exact or_one_ne_zero rc
  | false =>
    refine Or.inl ⟨fun n hlo hhi => ?_, ⟨[bs], ?_, by simp, by simpa using hbs⟩, ?_⟩
    · rw [show n = p.waits by omega]
      exact ht
    · rw [sendBuffer, waitStat]
      simp only [ht, Bool.false_eq_true, if_false]
      rfl
    · rw [sendBuffer, waitStat]
      simp only [ht, Bool.false_eq_true, if_false, UInt8.or_zero]

/-- A wait sends nothing. -/
theorem waitStat_outcome (rc : UInt8) (p : Port) :
    Outcome fpga p (waitStat fpga p).2 [] rc (if (waitStat fpga p).1 then none else some rc) := by
  refine ⟨Nat.le_succ _, ?_⟩
  cases ht : fpga.timeout p.waits with
  | true =>
    refine Or.inr ⟨⟨p.waits, le_refl _, Nat.lt_succ_self _, ht⟩, fun rc' hrc => ?_⟩
    simp only [waitStat, ht, if_true] at hrc
    exact absurd hrc.symm (Option.some_ne_none rc')
  | false =>
    refine Or.inl ⟨fun n hlo hhi => ?_, Sends.refl _, ?_⟩
    · rw [show n = p.waits from Nat.le_antisymm (Nat.le_of_lt_succ hhi) hlo]
      exact ht
    · simp only [waitStat, ht, Bool.false_eq_true, if_false]

theorem Outcome.trans {p p₁ p₂ : Port} {bs bs' : List UInt8} {rc rc₁ : UInt8} {r : Option UInt8}
    (h : Outcome fpga p p₁ bs rc (some rc₁)) (h' : Outcome fpga p₁ p₂ bs' rc₁ r) :
    Outcome fpga p p₂ (bs ++ bs') rc r := by
  refine ⟨h.1.trans h'.1, ?_⟩
  rcases h.2 with ⟨htime, hsends, hrc⟩ | ⟨hlate, hrc⟩
  · rw [Option.some.inj hrc] at h'
    rcases h'.2 with ⟨htime', hsends', hrc'⟩ | ⟨hlate', hrc'⟩
    · exact Or.inl ⟨htime.trans htime', hsends.trans hsends', hrc'⟩
    · exact Or.inr ⟨hlate'.right h.1, hrc'⟩
  · refine Or.inr ⟨hlate.left h'.1, fun rc' hr => ?_⟩
    rcases h'.2 with ⟨-, -, hrc'⟩ | ⟨-, hrc'⟩
    · rw [hr] at hrc'
      rw [Option.some.inj hrc']
      exact hrc rc₁ rfl
    · exact hrc' rc' hr

theorem Outcome.refl (p : Port) (rc : UInt8) : Outcome fpga p p [] rc (some rc) :=
  ⟨le_refl _, Or.inl ⟨fun _ hlo hhi => absurd hhi (Nat.not_lt.mpr hlo), Sends.refl p, rfl⟩⟩

/-- A chunk takes `FILEIO_MEMBUF_SIZE` bytes, or all that are left. -/
theorem sendLoop_outcome : ∀ (fuel fpgabuf_size : ℕ) (wPtr : List UInt8) (rc : UInt8) (p : Port),
    wPtr.length ≤ fuel → wPtr.length = 0 ∨ fpgabuf_size = memBufSize →
      Outcome fpga p (sendLoop fpga fuel fpgabuf_size wPtr rc p).2 wPtr rc
        (sendLoop fpga fuel fpgabuf_size wPtr rc p).1
  | 0, _, wPtr, rc, p, hfuel, _ => by
    rw [List.eq_nil_of_length_eq_zero (Nat.le_zero.mp hfuel)]
    exact Outcome.refl p rc
  | fuel + 1, fpgabuf_size, wPtr, rc, p, hfuel, hfpga => by
    rw [sendLoop]
    by_cases h0 : wPtr.length = 0
    · rw [if_pos h0, List.eq_nil_of_length_eq_zero h0]
      exact Outcome.refl p rc
    · have hwait := @waitStat_outcome fpga rc p
      rw [if_neg h0]
      cases hlate : (waitStat fpga p).1 with
      | true =>
        rw [hlate, if_pos rfl] at hwait
        simp only [hlate, if_true]
        exact ⟨hwait.1, Or.inr (hwait.2.resolve_left fun h => absurd h.2.2.symm (Option.some_ne_none rc))⟩
      | false =>
        rw [hlate, if_neg (by decide)] at hwait
        simp only [hlate, Bool.false_eq_true, if_false]
        obtain rfl := hfpga.resolve_left h0
        set size := if wPtr.length < memBufSize then wPtr.length else memBufSize with hsize
        have hmin : size = min wPtr.length memBufSize := by
          rw [hsize]
          split <;> omega
        have hmem : memBufSize = 512 := rfl
        have hchunk := @sendBuffer_outcome fpga (wPtr.take size)
          (by rw [List.length_take]; omega) rc (waitStat fpga p).2
        have hrest := sendLoop_outcome fuel size (wPtr.drop size)
          (rc ||| (sendBuffer fpga (wPtr.take size) (waitStat fpga p).2).1)
          (sendBuffer fpga (wPtr.take size) (waitStat fpga p).2).2
          (by rw [List.length_drop]; omega) (by rw [List.length_drop]; omega)
        have hall := hwait.trans (hchunk.trans hrest)
        rw [List.nil_append, List.take_append_drop] at hall
        exact hall

/-! ### The upload -/

/-- What is left of an upload in the end. -/
def Uploaded (fpga : Fpga) (p p' : Port) (bs : List UInt8) (left : ℕ) (rc : UInt8)
    (r : Option (ℕ × UInt8)) : Prop :=
  Outcome fpga p p' bs rc (r.map Prod.snd) ∧ ∀ rest, Timely fpga p p' → r = some rest → rest.1 = left

theorem uploadLoop_uploaded : ∀ (fuel remaining_size : ℕ) (rc : UInt8) (p : Port) {f : FIL}, f.Ok →
    remaining_size ≤ fuel →
      Uploaded fpga p (uploadLoop fpga fuel remaining_size rc p f).2.1
        ((f.data.drop f.fptr).take (min remaining_size (reach f)))
        (remaining_size - min remaining_size (reach f)) rc (uploadLoop fpga fuel remaining_size rc p f).1
  | 0, remaining_size, rc, p, f, _, hfuel => by
    obtain rfl := Nat.le_zero.mp hfuel
    rw [uploadLoop, Nat.zero_min, List.take_zero]
    refine ⟨Outcome.refl p rc, ?_⟩
    rintro rest - hrest
    rw [← Option.some.inj hrest]
  | fuel + 1, remaining_size, rc, p, f, h, hfuel => by
    obtain ⟨hblock, hok, hdata, hfptr, hreach⟩ := read_block h fileBufSize
    have hdone : min remaining_size (reach f) = 0 → Uploaded fpga p p
        ((f.data.drop f.fptr).take (min remaining_size (reach f)))
        (remaining_size - min remaining_size (reach f)) rc (some (remaining_size, rc)) := by
      intro h0
      rw [h0, List.take_zero]
      refine ⟨Outcome.refl p rc, ?_⟩
      rintro rest - hrest
      rw [← Option.some.inj hrest]
      rfl
    rw [uploadLoop]
    by_cases h0 : remaining_size = 0
    · rw [if_pos h0]
      exact hdone (by rw [h0, Nat.zero_min])
    rw [if_neg h0]
    simp only [read_length h]
    by_cases hempty : min fileBufSize (reach f) = 0
    · rw [if_pos hempty]
      exact hdone (reach_none hempty)
    · rw [if_neg hempty]
      have b := block_of remaining_size (reach f)
      generalize min (min fileBufSize remaining_size) (min fileBufSize (reach f)) = n at b ⊢
      have hpos := b.pos h0 hempty
      have hsent : ((FF_Read f fileBufSize).1.take n) = (f.data.drop f.fptr).take n := by
        rw [hblock, List.take_take, Nat.min_eq_left b.le_read]
      have hsend := @sendLoop_outcome fpga n memBufSize ((f.data.drop f.fptr).take n) rc p
        (List.length_take_le n _) (Or.inr rfl)
      rw [hsent]
      generalize sendLoop fpga n memBufSize ((f.data.drop f.fptr).take n) rc p = r at hsend
      obtain ⟨_ | rc₁, p₁⟩ := r
      · simp only
        exact ⟨⟨hsend.1, Or.inr (hsend.2.resolve_left
          fun h => absurd h.2.2.symm (Option.some_ne_none rc))⟩,
          fun rest _ hrest => absurd hrest.symm (Option.some_ne_none rest)⟩
      · simp only
        have hrest := uploadLoop_uploaded fuel (remaining_size - n) rc₁ p₁ hok (by omega)
        rw [hdata, hfptr, hreach] at hrest
        rw [b.take, b.left_rest]
        refine ⟨hsend.trans hrest.1, fun rest htime heq => ?_⟩
        have hwaits : p.waits ≤ p₁.waits := hsend.1
        exact hrest.2 rest (fun k hlo hhi => htime k (hwaits.trans hlo) hhi) heq

theorem Late.not_timely {p p' : Port} (h : Late fpga p p') : ¬Timely fpga p p' := by
  intro htime
  obtain ⟨n, hlo, hhi, ht⟩ := h
  rw [htime n hlo hhi] at ht
  exact Bool.noConfusion ht

theorem Sends.unique {p p' : Port} {bs bs' : List UInt8} (h : Sends p p' bs) (h' : Sends p p' bs') :
    bs = bs' := by
  obtain ⟨cs, hout, hbs, -⟩ := h
  obtain ⟨cs', hout', hbs', -⟩ := h'
  have hcs : cs.map PortOut.data = cs'.map PortOut.data := List.append_cancel_left (hout.symm.trans hout')
  rw [← hbs, ← hbs', List.map_injective_iff.mpr (fun a b hab => PortOut.data.inj hab) hcs]

/-- An upload sends the bytes of the file from the offset on, as many as are asked for and are there, and
    its return code is zero if and only if no wait timed out and all bytes were sent. -/
structure SendsFile (fpga : Fpga) (f : FIL) (base size offset : UInt32) : Prop where
  sent : Timely fpga (openPort base 0x00) (fileToMem fpga f base size offset).2.1 →
    Sends (openPort base 0x00) (fileToMem fpga f base size offset).2.1
      ((f.data.drop offset.toNat).take (min size.toNat (available f offset.toNat)))
  code : (fileToMem fpga f base size offset).1 = 0 ↔
    Timely fpga (openPort base 0x00) (fileToMem fpga f base size offset).2.1 ∧
      ∃ bs, bs.length = size.toNat ∧
        Sends (openPort base 0x00) (fileToMem fpga f base size offset).2.1 bs

theorem fileToMem_sends (h : f.Ok) (base size offset : UInt32) : SendsFile fpga f base size offset := by
  obtain ⟨hok, hreach, hbytes⟩ := seek_available h offset.toNat
  obtain ⟨hout, hleft⟩ := @uploadLoop_uploaded fpga size.toNat size.toNat 0
    (openPort base 0x00) _ hok (le_refl _)
  have hlen := length_block hok (Nat.min_le_right size.toNat (reach (FF_Seek f offset.toNat).2))
  rw [hreach] at hout hleft hlen
  rw [hbytes] at hout hlen
  -- a timeout is never answered with zero
  have hlate : ∀ {rc : UInt8} {p : Port} {g : FIL}, Late fpga (openPort base 0x00) p → rc ≠ 0 →
      fileToMem fpga f base size offset = (rc, p, g) → SendsFile fpga f base size offset := by
    intro rc p g hlate hrc heq
    refine ⟨fun htime => ?_, fun h0 => ?_, fun htime => ?_⟩
    · rw [heq] at htime
      exact absurd htime hlate.not_timely
    · rw [heq] at h0
      exact absurd h0 hrc
    · rw [heq] at htime
      exact absurd htime.1 hlate.not_timely
  have hfile : fileToMem fpga f base size offset
      = match uploadLoop fpga size.toNat size.toNat 0 (openPort base 0x00) (FF_Seek f offset.toNat).2 with
        | (none, p, f) => (1, p, f)
        | (some (remaining_size, rc), p, f) =>
          if (waitStat fpga p).1 then (1, (waitStat fpga p).2, f)
          else (if remaining_size ≠ 0 then 2 else rc, (waitStat fpga p).2, f) := rfl
  generalize uploadLoop fpga size.toNat size.toNat 0 (openPort base 0x00) (FF_Seek f offset.toNat).2 = run
    at hout hleft hfile
  obtain ⟨_ | ⟨remaining_size, rc⟩, p, g⟩ := run
  · exact hlate (hout.2.resolve_left fun h => absurd h.2.2.symm (Option.some_ne_none 0)).1 (by decide) hfile
  · have hwait := @waitStat_outcome fpga rc p
    simp only [Option.map_some] at hout hleft
    simp only at hfile
    cases ht : (waitStat fpga p).1 with
    | true =>
      rw [ht, if_pos rfl] at hfile hwait
      have hend := (hwait.2.resolve_left fun h => absurd h.2.2.symm (Option.some_ne_none rc)).1
      exact hlate (hend.right hout.1) (by decide) hfile
    | false =>
      rw [ht, if_neg (by decide)] at hfile hwait
      rcases hout.2 with ⟨htime, hsends, hrc⟩ | ⟨hl, hrc⟩
      · -- no wait has timed out so far
        rcases hwait.2 with ⟨htime', -, -⟩ | ⟨-, hbad⟩
        · obtain rfl := Option.some.inj hrc
          have hrem := hleft _ htime rfl
          simp only at hrem
          have hsent : Sends (openPort base 0x00) (waitStat fpga p).2
              ((f.data.drop offset.toNat).take (min size.toNat (available f offset.toNat))) := hsends
          refine ⟨fun _ => by rw [hfile]; exact hsent, ?_⟩
          rw [hfile]
          constructor
          · intro h0
            have hall : remaining_size = 0 := by
              by_contra hne
              rw [if_pos hne] at h0
              exact absurd (show (2 : UInt8) = 0 from h0) (by decide)
            exact ⟨htime.trans htime', _, by rw [hlen]; omega, hsent⟩
          · rintro ⟨-, bs, hbs, hsends'⟩
            rw [hsends'.unique hsent, hlen] at hbs
            rw [if_neg (by omega)]
        · -- the last wait keeps the return code
          have htail := hbad rc rfl
          rw [Option.some.inj hrc] at htail
          exact absurd rfl htail
      · have hne := hrc rc rfl
        refine hlate (hl.left hwait.1) ?_ hfile
        split
        · decide
        · exact hne

/-! ### Blocks from the memory -/

/-- The next `n` bytes that arrive. -/
def arrived (fpga : Fpga) (got n : ℕ) : List UInt8 := (List.range n).map fun i => fpga.arrive (got + i)

@[simp] theorem length_arrived (got n : ℕ) : (arrived fpga got n).length = n := by
  rw [arrived, List.length_map, List.length_range]

theorem arrived_add (got m n : ℕ) :
    arrived fpga got (m + n) = arrived fpga got m ++ arrived fpga (got + m) n := by
  simp only [arrived, List.range_add, List.map_append, List.map_map, Function.comp_def, Nat.add_assoc]

/-- None of `k` waits from number `w` on times out. -/
def InTime (fpga : Fpga) (w k : ℕ) : Prop := ∀ n < k, fpga.timeout (w + n) = false

theorem inTime_add (w j k : ℕ) : InTime fpga w (j + k) ↔ InTime fpga w j ∧ InTime fpga (w + j) k := by
  constructor
  · intro h
    refine ⟨fun n hn => h n (by omega), fun n hn => ?_⟩
    rw [Nat.add_assoc]
    exact h (j + n) (by omega)
  · rintro ⟨hj, hk⟩ n hn
    rcases Nat.lt_or_ge n j with hlt | hge
    · exact hj n hlt
    · have := hk (n - j) (by omega)
      rwa [show w + j + (n - j) = w + n by omega] at this

/-- The waits for a block of `n` bytes, one for each chunk. -/
def waitsFor (n : ℕ) : ℕ := (n + 511) / 512

/-- The waits for the first block, and those for what is behind it. -/
theorem Block.waits {left reach n : ℕ} (b : Block left reach n) : waitsFor (min left reach) =
    waitsFor n + waitsFor (min (left - n) (reach - min fileBufSize reach)) := by
  rw [b.rest]
  rcases b.whole_or_last with ⟨-, hwhole⟩ | hlast
  · rw [hwhole, waitsFor, waitsFor, waitsFor]
    generalize min (left - fileBufSize) (reach - min fileBufSize reach) = rest
    have hsize : fileBufSize = 2048 := rfl
    omega
  · rw [hlast]
    rfl

theorem inTime_none (w : ℕ) : InTime fpga w (waitsFor 0) :=
  fun n hn => absurd (show n < 0 from hn) (Nat.not_lt_zero n)

/-- A block arrives if and only if no wait for one of its chunks times out. -/
theorem fetchLoop_spec : ∀ (fuel fpgabuf_size fpga_read_left : ℕ) (p : Port),
    fpga_read_left ≤ fuel → fpga_read_left = 0 ∨ fpgabuf_size = memBufSize →
      (InTime fpga p.waits (waitsFor fpga_read_left) →
        ∃ p', fetchLoop fpga fuel fpgabuf_size fpga_read_left p
            = (some (arrived fpga p.got fpga_read_left), p') ∧
          p'.waits = p.waits + waitsFor fpga_read_left ∧ p'.got = p.got + fpga_read_left) ∧
      (¬InTime fpga p.waits (waitsFor fpga_read_left) →
        (fetchLoop fpga fuel fpgabuf_size fpga_read_left p).1 = none)
  | 0, _, n, p, hfuel, _ => by
    obtain rfl := Nat.le_zero.mp hfuel
    exact ⟨fun _ => ⟨p, rfl, rfl, rfl⟩, fun hnot => absurd (inTime_none _) hnot⟩
  | fuel + 1, fpgabuf_size, n, p, hfuel, hfpga => by
    rw [fetchLoop]
    by_cases h0 : n = 0
    · rw [if_pos h0, h0]
      exact ⟨fun _ => ⟨p, rfl, rfl, rfl⟩, fun hnot => absurd (inTime_none _) hnot⟩
    · rw [if_neg h0]
      obtain rfl := hfpga.resolve_left h0
      have hmem : memBufSize = 512 := rfl
      set size := if n < memBufSize then n else memBufSize with hsize
      have hmin : size = min n 512 := by
        rw [hsize]
        split <;> omega
      have hwaits : waitsFor n = 1 + waitsFor (n - size) := by
        rw [waitsFor, waitsFor]
        omega
      have hone : InTime fpga p.waits 1 ↔ fpga.timeout p.waits = false :=
        ⟨fun h => h 0 (by decide), fun h k hk => by rwa [show p.waits + k = p.waits by omega]⟩
      rw [hwaits, inTime_add, hone]
      by_cases ht : fpga.timeout p.waits = true
      · simp only [waitStat, ht, if_true]
        exact ⟨fun h => Bool.noConfusion h.1, fun _ => trivial⟩
      · rw [Bool.not_eq_true] at ht
        simp only [waitStat, ht, Bool.false_eq_true, if_false, true_and, readBuffer]
        obtain ⟨hin, hout⟩ := fetchLoop_spec fuel size (n - size)
          { waits := p.waits + 1, got := p.got + size, out := p.out ++ [.request size] }
          (by omega) (by omega)
        constructor
        · intro htime
          obtain ⟨p', hrun, hw, hg⟩ := hin htime
          rw [hrun]
          refine ⟨p', Prod.ext (congrArg some ?_) rfl, by rw [hw]; simp only; omega,
            by rw [hg]; simp only; omega⟩
          have hsplit : arrived fpga p.got n
              = arrived fpga p.got size ++ arrived fpga (p.got + size) (n - size) := by
            rw [← arrived_add]
            congr 1
            omega
          exact hsplit.symm
        · intro hnot
          have hnone := hout hnot
          generalize fetchLoop fpga fuel size (n - size) _ = r at hnone
          obtain ⟨res, p'⟩ := r
          obtain rfl : res = none := hnone
          rfl

/-! ### The comparison -/

theorem verifyLoop_spec : ∀ (fuel remaining_size : ℕ) (p : Port) {f : FIL}, f.Ok →
    remaining_size ≤ fuel →
      ((verifyLoop fpga fuel remaining_size p f).1 = 0 ↔
        InTime fpga p.waits (waitsFor (min remaining_size (reach f))) ∧
          arrived fpga p.got (min remaining_size (reach f))
            = (f.data.drop f.fptr).take (min remaining_size (reach f))) ∧
      ((verifyLoop fpga fuel remaining_size p f).1 = 0 →
        (verifyLoop fpga fuel remaining_size p f).2.1.got = p.got + min remaining_size (reach f))
  | 0, remaining_size, p, f, _, hfuel => by
    obtain rfl := Nat.le_zero.mp hfuel
    rw [verifyLoop, Nat.zero_min, List.take_zero]
    exact ⟨⟨fun _ => ⟨inTime_none _, rfl⟩, fun _ => rfl⟩, fun _ => rfl⟩
  | fuel + 1, remaining_size, p, f, h, hfuel => by
    obtain ⟨hblock, hok, hdata, hfptr, hreach⟩ := read_block h fileBufSize
    -- nothing is left to compare
    have hstay : min remaining_size (reach f) = 0 → ∀ {g : FIL},
        (((0, p, g) : UInt8 × Port × FIL).1 = 0 ↔
          InTime fpga p.waits (waitsFor (min remaining_size (reach f))) ∧
            arrived fpga p.got (min remaining_size (reach f))
              = (f.data.drop f.fptr).take (min remaining_size (reach f))) ∧
        (((0, p, g) : UInt8 × Port × FIL).1 = 0 →
          ((0, p, g) : UInt8 × Port × FIL).2.1.got = p.got + min remaining_size (reach f)) := by
      intro hend g
      rw [hend]
      exact ⟨⟨fun _ => ⟨inTime_none _, rfl⟩, fun _ => rfl⟩, fun _ => rfl⟩
    rw [verifyLoop]
    by_cases h0 : remaining_size = 0
    · rw [if_pos h0]
      exact hstay (by rw [h0, Nat.zero_min])
    rw [if_neg h0]
    simp only [read_length h]
    by_cases hempty : min fileBufSize (reach f) = 0
    · rw [if_pos hempty]
      exact hstay (reach_none hempty)
    · rw [if_neg hempty]
      have b := block_of remaining_size (reach f)
      generalize min (min fileBufSize remaining_size) (min fileBufSize (reach f)) = n at b ⊢
      have hpos := b.pos h0 hempty
      have hsent : (FF_Read f fileBufSize).1.take n = (f.data.drop f.fptr).take n := by
        rw [hblock, List.take_take, Nat.min_eq_left b.le_read]
      obtain ⟨hin, hout⟩ := @fetchLoop_spec fpga n memBufSize n p (le_refl n) (Or.inr rfl)
      by_cases htime : InTime fpga p.waits (waitsFor n)
      · obtain ⟨p', hrun, hw, hg⟩ := hin htime
        rw [hrun]
        simp only
        rw [hsent]
        have hlenn : ((f.data.drop f.fptr).take n).length = n := length_block h b.le_reach
        by_cases heq : (f.data.drop f.fptr).take n = arrived fpga p.got n
        · rw [if_neg (not_not.mpr heq)]
          obtain ⟨hiff, hgot⟩ := verifyLoop_spec fuel (remaining_size - n) p' hok (by omega)
          rw [hdata, hfptr, hreach, hw, hg] at hiff
          rw [hreach, hg] at hgot
          refine ⟨?_, fun h0 => by rw [hgot h0, b.rest, Nat.add_assoc]⟩
          rw [hiff, b.waits, inTime_add, b.take, b.rest, arrived_add, heq]
          constructor
          · rintro ⟨ht, hb⟩
            exact ⟨⟨htime, ht⟩, by rw [hb]⟩
          · rintro ⟨⟨-, ht⟩, hb⟩
            exact ⟨ht, List.append_cancel_left hb⟩
        · rw [if_pos heq]
          refine ⟨⟨fun h1 => absurd (show (1 : UInt8) = 0 from h1) (by decide), fun hboth => ?_⟩,
            fun h1 => absurd (show (1 : UInt8) = 0 from h1) (by decide)⟩
          rw [b.take, b.rest, arrived_add] at hboth
          exact absurd (List.append_inj_left hboth.2 (by rw [length_arrived, hlenn])).symm heq
      · have hnone := hout htime
        generalize fetchLoop fpga n memBufSize n p = r at hnone
        obtain ⟨res, p'⟩ := r
        obtain rfl : res = none := hnone
        refine ⟨⟨fun h1 => absurd (show (1 : UInt8) = 0 from h1) (by decide), fun hboth => ?_⟩,
          fun h1 => absurd (show (1 : UInt8) = 0 from h1) (by decide)⟩
        rw [b.waits, inTime_add] at hboth
        exact absurd hboth.1.1 htime

/-- A comparison answers zero only if all bytes were read back and are those of the file. -/
def VerifiesAll (fpga : Fpga) (f : FIL) (base size offset : UInt32) : Prop :=
  (fileToMemVerify fpga f base size offset).1 = 0 →
    (fileToMemVerify fpga f base size offset).2.1.got = size.toNat ∧
      arrived fpga 0 size.toNat = (f.data.drop offset.toNat).take size.toNat

/-- The file has all the bytes; or one of the waits for those that it has times out, or one of them differs
    from the memory. -/
def Verifiable (fpga : Fpga) (f : FIL) (size offset : UInt32) : Prop :=
  size.toNat ≤ available f offset.toNat ∨
    ¬InTime fpga 0 (waitsFor (available f offset.toNat)) ∨
    arrived fpga 0 (available f offset.toNat)
      ≠ (f.data.drop offset.toNat).take (available f offset.toNat)

theorem verifiesAll_iff (h : f.Ok) (base size offset : UInt32) :
    VerifiesAll fpga f base size offset ↔ Verifiable fpga f size offset := by
  obtain ⟨hok, hreach, hbytes⟩ := seek_available h offset.toNat
  obtain ⟨hzero, hgot⟩ := @verifyLoop_spec fpga size.toNat size.toNat (openPort base 0x80) _ hok
    (le_refl _)
  rw [hreach] at hzero hgot
  rw [hbytes] at hzero
  have hrun : fileToMemVerify fpga f base size offset
      = verifyLoop fpga size.toNat size.toNat (openPort base 0x80) (FF_Seek f offset.toNat).2 := rfl
  have hstart : (openPort base 0x80).waits = 0 ∧ (openPort base 0x80).got = 0 := ⟨rfl, rfl⟩
  rw [hstart.1, hstart.2] at hzero
  rw [hstart.2, Nat.zero_add] at hgot
  rw [VerifiesAll, hrun, Verifiable]
  rcases Nat.lt_or_ge (available f offset.toNat) size.toNat with hlt | hge
  · rw [Nat.min_eq_right (Nat.le_of_lt hlt)] at hzero hgot
    constructor
    · intro hall
      by_contra hnot
      rw [not_or, not_or, not_not, not_not] at hnot
      have hanswer := hzero.mpr hnot.2
      have hsize := (hall hanswer).1
      rw [hgot hanswer] at hsize
      omega
    · rintro (hle | hlate | hdiff) hanswer
      · omega
      · exact absurd (hzero.mp hanswer).1 hlate
      · exact absurd (hzero.mp hanswer).2 hdiff
  · rw [Nat.min_eq_left hge] at hzero hgot
    exact ⟨fun _ => Or.inl hge, fun _ hanswer => ⟨hgot hanswer, (hzero.mp hanswer).2⟩⟩

/-! ### The storing -/

/-- How many bytes can be written. -/
def room (f : FIL) : ℕ := if f.err || !f.write then 0 else f.cap - f.fptr

/-- How many bytes are read from the memory: all, or those up to the first block with no room at all. -/
def fetched (size room : ℕ) : ℕ := min size (fileBufSize * ((room + (fileBufSize - 1)) / fileBufSize + 1))

theorem fetched_eq (size room : ℕ) : fetched size room = min size (2048 * ((room + 2047) / 2048 + 1)) :=
  rfl

theorem write_block (h : f.Ok) (bs : List UInt8) :
    (FF_Write f bs).1 = min (room f) bs.length ∧ (FF_Write f bs).2.Ok ∧
      (FF_Write f bs).2.fptr = f.fptr + min (room f) bs.length ∧
      room (FF_Write f bs).2 = room f - min (room f) bs.length ∧
      (bs.length ≤ room f → (FF_Write f bs).2.data = Splice.splice f.data f.fptr bs) := by
  have hok := f_write_ok h bs
  rw [FF_Write, f_write_eq h] at *
  by_cases hrefused : (f.err || !f.write) = true
  · have h0 : room f = 0 := by rw [room, if_pos hrefused]
    rw [if_pos hrefused, h0]
    refine ⟨by simp, h, by simp, by simp, fun hle => ?_⟩
    rw [List.eq_nil_of_length_eq_zero (Nat.le_zero.mp hle), Splice.splice_nil]
  · have hroom : room f = f.cap - f.fptr := by rw [room, if_neg hrefused]
    rw [if_neg hrefused] at hok ⊢
    rw [hroom]
    refine ⟨rfl, hok, rfl, ?_, fun hle => ?_⟩
    · rw [room]
      refine (if_neg hrefused).trans ?_
      show f.cap - (f.fptr + min (f.cap - f.fptr) bs.length) = _
      omega
    · show Splice.splice f.data f.fptr (bs.take (f.cap - f.fptr)) = _
      rw [List.take_of_length_le hle]

/-- Where nothing can be written one block is read in vain. -/
theorem fetched_none (left : ℕ) : fetched left 0 = min fileBufSize left := by
  rw [fetched_eq, show fileBufSize = 2048 from rfl]
  omega

/-- The first block, and what is read behind it. -/
theorem fetched_rest {left room n : ℕ} (hn : n = min fileBufSize left) (h : min room n ≠ 0) :
    fetched left room = n + fetched (left - n) (room - min room n) ∧
      (n = fileBufSize ∨ fetched (left - n) (room - min room n) = 0) := by
  have hsize : fileBufSize = 2048 := rfl
  rw [fetched_eq, fetched_eq, hn, hsize] at *
  rcases Nat.le_total 2048 left with hle | hle
  · rw [Nat.min_eq_left hle] at *
    refine ⟨?_, .inl rfl⟩
    rcases Nat.le_total room 2048 with hr | hr
    · rw [Nat.min_eq_left hr] at *
      omega
    · rw [Nat.min_eq_right hr]
      omega
  · rw [Nat.min_eq_right hle, Nat.sub_self, Nat.zero_min]
    refine ⟨?_, .inr rfl⟩
    omega

theorem le_fetched {left room n : ℕ} (hn : n = min fileBufSize left) : n ≤ fetched left room := by
  rw [fetched_eq, hn, show fileBufSize = 2048 from rfl]
  omega

theorem fetched_waits {left room n : ℕ} (hn : n = min fileBufSize left) (h : min room n ≠ 0) :
    waitsFor (fetched left room) = waitsFor n + waitsFor (fetched (left - n) (room - min room n)) := by
  obtain ⟨hrest, hwhole⟩ := fetched_rest hn h
  rw [hrest]
  generalize fetched (left - n) (room - min room n) = rest at hwhole ⊢
  rw [waitsFor, waitsFor, waitsFor]
  have hsize : fileBufSize = 2048 := rfl
  omega

/-- What can be written of the first block, and of what is behind it. -/
theorem min_room {left room n : ℕ} (hn : n = min fileBufSize left) :
    min left room = min room n + min (left - n) (room - min room n) := by
  have hle : n ≤ left := hn ▸ Nat.min_le_right _ _
  rcases Nat.le_total room n with hr | hr
  · rw [Nat.min_eq_left hr, Nat.sub_self, Nat.min_zero, Nat.min_eq_right (hr.trans hle), Nat.add_zero]
  · rw [Nat.min_eq_right hr]
    omega

theorem waitsFor_mono {m n : ℕ} (h : m ≤ n) : waitsFor m ≤ waitsFor n :=
  Nat.div_le_div_right (Nat.add_le_add_right h 511)

theorem storeLoop_spec : ∀ (fuel remaining_size : ℕ) (p : Port) {f : FIL}, f.Ok →
    remaining_size ≤ fuel →
      ((storeLoop fpga fuel remaining_size p f).1 = 0 ↔
        InTime fpga p.waits (waitsFor (fetched remaining_size (room f)))) ∧
      ((storeLoop fpga fuel remaining_size p f).1 = 0 →
        (storeLoop fpga fuel remaining_size p f).2.2.fptr = f.fptr + min remaining_size (room f) ∧
        (remaining_size ≤ room f → (storeLoop fpga fuel remaining_size p f).2.2.data
          = Splice.splice f.data f.fptr (arrived fpga p.got remaining_size)))
  | 0, remaining_size, p, f, _, hfuel => by
    obtain rfl := Nat.le_zero.mp hfuel
    rw [storeLoop, fetched, Nat.zero_min, Nat.zero_min]
    exact ⟨⟨fun _ => inTime_none _, fun _ => rfl⟩, fun _ => ⟨rfl, fun _ => (Splice.splice_nil _ _).symm⟩⟩
  | fuel + 1, remaining_size, p, f, h, hfuel => by
    rw [storeLoop]
    by_cases h0 : remaining_size = 0
    · rw [if_pos h0, h0, fetched, Nat.zero_min, Nat.zero_min]
      exact ⟨⟨fun _ => inTime_none _, fun _ => rfl⟩,
        fun _ => ⟨rfl, fun _ => (Splice.splice_nil _ _).symm⟩⟩
    · rw [if_neg h0]
      simp only
      have hpos : 0 < min fileBufSize remaining_size := Nat.lt_min.mpr ⟨by decide, Nat.pos_of_ne_zero h0⟩
      have hle : min fileBufSize remaining_size ≤ remaining_size := Nat.min_le_right _ _
      generalize hn : min fileBufSize remaining_size = n at hpos hle ⊢
      have hn := hn.symm
      obtain ⟨hin, hout⟩ := @fetchLoop_spec fpga n memBufSize n p (le_refl n) (Or.inr rfl)
      by_cases htime : InTime fpga p.waits (waitsFor n)
      · obtain ⟨p', hrun, hw, hg⟩ := hin htime
        obtain ⟨hcount, hok, hfptr, hroom, hdata⟩ := write_block h (arrived fpga p.got n)
        rw [length_arrived] at hcount hfptr hroom hdata
        rw [hrun]
        simp only
        rw [hcount]
        by_cases hfull : min (room f) n = 0
        · -- nothing can be written
          have hnone : room f = 0 := (Nat.min_eq_zero_iff.mp hfull).resolve_right hpos.ne'
          rw [if_pos hfull, hnone, fetched_none, ← hn, Nat.min_zero]
          refine ⟨⟨fun _ => htime, fun _ => rfl⟩, fun _ => ⟨?_, fun hfits => ?_⟩⟩
          · rw [hfptr, hfull]
          · exact absurd (Nat.le_zero.mp hfits) h0
        · rw [if_neg hfull]
          obtain ⟨hzero, hend⟩ := storeLoop_spec fuel (remaining_size - n) p' hok (by omega)
          rw [hroom, hw] at hzero
          rw [hroom, hfptr, hg] at hend
          refine ⟨?_, fun hanswer => ?_⟩
          · rw [hzero, fetched_waits hn hfull, inTime_add]
            exact ⟨fun ht => ⟨htime, ht⟩, fun ht => ht.2⟩
          · obtain ⟨hplace, hbytes⟩ := hend hanswer
            refine ⟨by rw [hplace, min_room hn, Nat.add_assoc], fun hfits => ?_⟩
            have hfirst : n ≤ room f := hle.trans hfits
            have hrest : min (room f) n = n := Nat.min_eq_right hfirst
            rw [hbytes (by rw [hrest]; exact Nat.sub_le_sub_right hfits n), hdata hfirst, hrest]
            conv_lhs => rw [show f.fptr + n = f.fptr + (arrived fpga p.got n).length by rw [length_arrived]]
            rw [Splice.splice_splice _ _ h.fptr_le, ← arrived_add, Nat.add_sub_cancel' hle]
      · have hnone := hout htime
        generalize fetchLoop fpga n memBufSize n p = r at hnone
        obtain ⟨res, p'⟩ := r
        obtain rfl : res = none := hnone
        refine ⟨⟨fun h1 => absurd (show (1 : UInt8) = 0 from h1) (by decide), fun htimes => ?_⟩,
          fun h1 => absurd (show (1 : UInt8) = 0 from h1) (by decide)⟩
        have hwaits := waitsFor_mono (@le_fetched _ (room f) _ hn)
        exact absurd (fun k hk => htimes k (hk.trans_le hwaits)) htime

/-- A storing answers zero only if the bytes of the memory stand in the file, all from where it began. -/
def StoresAll (fpga : Fpga) (f : FIL) (base size offset : UInt32) : Prop :=
  (memToFile fpga f base size offset).1 = 0 →
    (memToFile fpga f base size offset).2.2.fptr = (storeFrom f offset).fptr + size.toNat ∧
      (memToFile fpga f base size offset).2.2.data
        = Splice.splice (storeFrom f offset).data (storeFrom f offset).fptr (arrived fpga 0 size.toNat)

/-- The file has room for all the bytes, or one of the waits up to the block that finds none times out. -/
def Storable (fpga : Fpga) (f : FIL) (size offset : UInt32) : Prop :=
  size.toNat ≤ room (storeFrom f offset) ∨
    ¬InTime fpga 0 (waitsFor (fetched size.toNat (room (storeFrom f offset))))

theorem storesAll_iff (h : f.Ok) (base size offset : UInt32) :
    StoresAll fpga f base size offset ↔ Storable fpga f size offset := by
  have hok : (storeFrom f offset).Ok := by
    rw [storeFrom]
    split
    · exact h
    · exact FF_Seek_ok h _
  obtain ⟨hzero, hend⟩ := @storeLoop_spec fpga size.toNat size.toNat (openPort base 0x80) _ hok
    (le_refl _)
  have hstart : (openPort base 0x80).waits = 0 ∧ (openPort base 0x80).got = 0 := ⟨rfl, rfl⟩
  rw [hstart.1] at hzero
  rw [hstart.2] at hend
  rw [StoresAll, memToFile, Storable]
  constructor
  · intro hall
    by_contra hnot
    rw [not_or, not_not] at hnot
    have hanswer := hzero.mpr hnot.2
    have hpos := (hall hanswer).1
    rw [(hend hanswer).1] at hpos
    omega
  · rintro (hle | hlate) hanswer
    · obtain ⟨hpos, hdata⟩ := hend hanswer
      exact ⟨by rw [hpos, Nat.min_eq_left hle], hdata hle⟩
    · exact absurd (hzero.mp hanswer) hlate

/-- A file on a volume that has no more room. -/
def fullFile (data : List UInt8) : File :=
  { data := data, slack := fun _ => 0, cap := data.length, csize := 512, readable := data.length
    size_le := le_refl _, csize_pos := sector_pos }

/-- A memory that holds `bs` and is never late. -/
def prompt (bs : List UInt8) : Fpga := { timeout := fun _ => false, arrive := fun i => bs.getD i 0 }

end FileIO.MCh
