import ReplayFirmware.Drv08.Read
import ReplayFirmware.FileIO.Answers

/-! What a read of the generic driver delivers.

    A read goes up to the next sector boundary through the buffer, then as a burst of all whole sectors
    that are asked for, and what is left through the buffer again. Whether the burst stays inside the
    file is looked at for its first sector only; a sector that the end of the file cuts off is counted
    by a burst, but not sent. -/

namespace FileIO.Drv00
open FatFs Drv08

/-! ### Passes -/

/-- A file that can be read to its end, standing at a position inside it. -/
structure At (data : List UInt8) (a : ℕ) (fp : FIL) : Prop where
  ok : fp.Ok
  err : fp.err = false
  bytes : fp.data = data
  pos : fp.fptr = a
  readable : data.length ≤ fp.readable

theorem At.le {data : List UInt8} {a : ℕ} {fp : FIL} (h : At data a fp) : a ≤ data.length := by
  have hle := h.ok.fptr_le
  rw [FIL.objsize, h.bytes, h.pos] at hle
  exact hle

/-- A read delivers what there is of it, and moves past it. -/
theorem At.read {data : List UInt8} {a : ℕ} {fp : FIL} (h : At data a fp) (n : ℕ) :
    (FF_Read fp n).1 = (data.drop a).take n ∧
      At data (a + min n (data.length - a)) (FF_Read fp n).2 := by
  obtain ⟨hok, herr, rfl, rfl, hread⟩ := h
  have hle := hok.fptr_le
  have hlen : fp.data.length = fp.objsize := rfl
  have havail : fp.avail n = min n (fp.data.length - fp.fptr) := by
    rw [FIL.avail, herr, if_neg (by decide), hlen]
    omega
  have hok' := f_read_ok hok n
  rw [FF_Read, f_read_eq hok, havail] at *
  refine ⟨?_, hok', ?_, rfl, rfl, hread⟩
  · rcases Nat.le_total n (fp.data.length - fp.fptr) with hn | hn
    · rw [Nat.min_eq_left hn]
    · rw [Nat.min_eq_right hn, List.take_of_length_le (i := n) (by rw [List.length_drop]; exact hn),
        List.take_of_length_le (by rw [List.length_drop])]
  · show (fp.err || decide (min n (fp.data.length - fp.fptr) < min n (fp.data.length - fp.fptr))) = _
    rw [herr, decide_eq_false (Nat.lt_irrefl _)]
    rfl

section
variable {δ : Type}

/-- What a transfer has come to: what it has sent, and the status it has stopped with. -/
structure CameTo (t t' : Transfer δ) (bytes : List UInt8) (status : Option UInt8) : Prop where
  bytes : sent t'.outs = sent t.outs ++ bytes
  status : match status with
    | none => t'.stopped = false
    | some s => t'.stopped = true ∧ t'.outs.getLast? = some (.stat s)

theorem CameTo.trans {t t' t'' : Transfer δ} {bs bs' : List UInt8} {status : Option UInt8}
    (h : CameTo t t' bs none) (h' : CameTo t' t'' bs' status) : CameTo t t'' (bs ++ bs') status :=
  ⟨by rw [h'.bytes, h.bytes, List.append_assoc], h'.status⟩

/-- The status behind a pass of `cur` bytes from position `a` on. -/
def passStatus (data : List UInt8) (a cur : ℕ) : Option UInt8 :=
  if data.length - a < cur then some statAckTruncErr else none

theorem length_take_lt {data : List UInt8} {a cur : ℕ} :
    ((data.drop a).take cur).length ≠ cur ↔ data.length - a < cur := by
  rw [List.length_take, List.length_drop]
  omega

/-- A pass through the buffer. -/
theorem readPass_buffered {data : List UInt8} {a : ℕ} {t : Transfer δ} (hstop : t.stopped = false)
    (h : At data a t.pDrive.fSource) (cur_size : UInt16) :
    CameTo t (readPass t false cur_size) ((data.drop a).take cur_size.toNat)
      (passStatus data a cur_size.toNat) := by
  obtain ⟨hbytes, -⟩ := h.read cur_size.toNat
  rw [readPass, passStatus]
  simp only [Bool.false_eq_true, if_false, hbytes]
  by_cases hlt : data.length - a < cur_size.toNat
  · rw [if_pos (length_take_lt.mpr hlt), if_pos hlt]
    refine ⟨?_, rfl, List.getLast?_concat⟩
    simp only [sent_append]
    simp [sent]
  · rw [if_neg (mt length_take_lt.mp hlt), if_neg hlt]
    refine ⟨?_, hstop⟩
    simp only [sent_append]
    simp [sent]

/-- A burst: of the last sector nothing is sent when the end of the file cuts it off. -/
theorem readPass_burst {data : List UInt8} {a : ℕ} {t : Transfer δ} (hstop : t.stopped = false)
    (h : At data a t.pDrive.fSource) (ha : a % 512 = 0) (cur_size : UInt16) :
    CameTo t (readPass t true cur_size)
      ((data.drop a).take (min cur_size.toNat (data.length - a) / 512 * 512))
      (passStatus data a cur_size.toNat) := by
  obtain ⟨hbytes, -⟩ := h.read cur_size.toNat
  have hlen : ((data.drop a).take cur_size.toNat).length = min cur_size.toNat (data.length - a) := by
    rw [List.length_take, List.length_drop]
  have hcount : (FF_ReadDirect t.pDrive.fSource cur_size.toNat).2.1
      = ((data.drop a).take cur_size.toNat).length := by
    rw [FF_ReadDirect_snd, hbytes]
  have hsent : (FF_ReadDirect t.pDrive.fSource cur_size.toNat).1
      = (data.drop a).take (min cur_size.toNat (data.length - a) / 512 * 512) := by
    rw [FF_ReadDirect_aligned (by rw [h.pos]; exact ha), hbytes, hlen, List.take_take,
      Nat.min_eq_left]
    exact (Nat.div_mul_le_self _ _).trans (Nat.min_le_left _ _)
  rw [readPass, passStatus]
  simp only [if_true, hcount, hsent]
  by_cases hlt : data.length - a < cur_size.toNat
  · rw [if_pos (length_take_lt.mpr hlt), if_pos hlt]
    refine ⟨?_, rfl, List.getLast?_concat⟩
    simp only [sent_append]
    simp [sent]
  · rw [if_neg (mt length_take_lt.mp hlt), if_neg hlt]
    refine ⟨?_, hstop⟩
    simp only [sent_append]
    simp [sent]

theorem readPass_at {data : List UInt8} {a : ℕ} {t : Transfer δ} (h : At data a t.pDrive.fSource)
    (burstable : Bool) (cur_size : UInt16) :
    At data (a + min cur_size.toNat (data.length - a)) (readPass t burstable cur_size).pDrive.fSource := by
  rw [readPass_file]
  exact (h.read cur_size.toNat).2

/-! ### The loop -/

/-- A pass is a burst. -/
def Burst (file_size : ℕ) (addr : UInt32) (size : UInt16) : Prop :=
  addr.toNat % 512 = 0 ∧ 512 ≤ size.toNat ∧ 512 ≤ (file_size.toUInt64 - addr.toUInt64).toNat

instance (file_size : ℕ) (addr : UInt32) (size : UInt16) : Decidable (Burst file_size addr size) :=
  inferInstanceAs (Decidable (_ ∧ _ ∧ _))

/-- The bytes of a pass of a read. -/
def passSize (file_size : ℕ) (addr : UInt32) (size : UInt16) : UInt16 :=
  if Burst file_size addr size then size / 512 * 512 else curSize addr size

theorem and_1FF_toNat (addr : UInt32) : (addr &&& 0x1FF).toNat = addr.toNat % 512 := by
  rw [UInt32.toNat_and, show (0x1FF : UInt32).toNat = 2 ^ 9 - 1 by decide,
    Nat.and_two_pow_sub_one_eq_mod]

/-- A pass ends on a sector boundary, if not before. -/
theorem curSize_toNat (addr : UInt32) (size : UInt16) :
    (curSize addr size).toNat = min size.toNat (512 - addr.toNat % 512) := by
  have hand := and_1FF_toNat addr
  have hcur : (if size > 512 then 512 else size : UInt16).toNat = min size.toNat 512 := by
    split
    · next h =>
      rw [gt_iff_lt, UInt16.lt_iff_toNat_lt, show (512 : UInt16).toNat = 512 by decide] at h
      rw [Nat.min_eq_right (by omega)]
      rfl
    · next h =>
      rw [gt_iff_lt, UInt16.lt_iff_toNat_lt, show (512 : UInt16).toNat = 512 by decide] at h
      rw [Nat.min_eq_left (by omega)]
  rw [curSize]
  simp only
  generalize (if size > 512 then 512 else size : UInt16) = cur_size at hcur
  by_cases h0 : addr &&& 0x1FF = 0
  · rw [if_neg (not_not.mpr h0), hcur]
    rw [h0, show (0 : UInt32).toNat = 0 by decide] at hand
    rw [← hand, Nat.sub_zero]
  · rw [if_pos h0]
    have hne : addr.toNat % 512 ≠ 0 := fun hz => h0 (UInt32.toNat_inj.mp (by rw [hand, hz]; rfl))
    have hroom : (0x200 - (addr &&& 0x1FF)).toNat = 512 - addr.toNat % 512 := by
      rw [UInt32.toNat_sub_of_le _ _ (UInt32.le_iff_toNat_le.mpr (by
        rw [hand, show (0x200 : UInt32).toNat = 512 by decide]; omega)), hand]
      rfl
    split
    · next h =>
      rw [gt_iff_lt, UInt32.lt_iff_toNat_lt, hroom, UInt16.toNat_toUInt32, hcur] at h
      rw [UInt32.toNat_toUInt16, hroom]
      omega
    · next h =>
      rw [gt_iff_lt, UInt32.lt_iff_toNat_lt, hroom, UInt16.toNat_toUInt32, hcur] at h
      omega

/-- The test of the driver, for a read. -/
theorem burstable_eq (file_size : ℕ) (addr : UInt32) (size : UInt16) :
    (true && !false && decide (addr &&& 0x1FF = 0) && decide (curSize addr size ≥ 512)
      && decide (file_size.toUInt64 - addr.toUInt64 ≥ 512)) = decide (Burst file_size addr size) := by
  have h0 : addr &&& 0x1FF = 0 ↔ addr.toNat % 512 = 0 := by
    rw [← UInt32.toNat_inj, and_1FF_toNat]
    rfl
  have hcur : addr.toNat % 512 = 0 → (curSize addr size ≥ 512 ↔ 512 ≤ size.toNat) := by
    intro ha
    rw [ge_iff_le, UInt16.le_iff_toNat_le, curSize_toNat, ha,
      show (512 : UInt16).toNat = 512 by decide]
    omega
  have hleft : file_size.toUInt64 - addr.toUInt64 ≥ 512 ↔
      512 ≤ (file_size.toUInt64 - addr.toUInt64).toNat := UInt64.le_iff_toNat_le
  rw [Bool.eq_iff_iff, decide_eq_true_iff]
  simp only [Bool.not_false, Bool.and_self, Bool.true_and, Bool.and_eq_true, decide_eq_true_iff, h0,
    hleft, and_assoc]
  refine and_congr_right fun ha => ?_
  rw [hcur ha]

/-- One round of the loop of a read. -/
theorem transferLoop_read {rq : Request} (hdir : dir rq.status = false) (stall : ℕ → Bool)
    (file_size fuel k pos : ℕ) (addr : UInt32) {size : UInt16} (hs : size ≠ 0) (t : Transfer δ) :
    transferLoop true rq stall file_size (fuel + 1) k pos addr size t
      = behindPass true rq stall file_size fuel k pos addr size (passSize file_size addr size)
        (readPass t (decide (Burst file_size addr size)) (passSize file_size addr size)) := by
  rw [transferLoop, if_neg hs]
  simp only [hdir, burstable_eq, decide_eq_true_iff, Bool.false_eq_true, if_false]
  rfl

section
variable {rq : Request} {stall : ℕ → Bool} {file_size fuel k pos : ℕ} {addr : UInt32}
  {size cur_size : UInt16} {t t' : Transfer δ} {bytes : List UInt8}

theorem behindPass_stopped {s : UInt8} (h : CameTo t t' bytes (some s)) :
    CameTo t (behindPass true rq stall file_size fuel k pos addr size cur_size t') bytes (some s) := by
  rw [behindPass, if_pos h.status.1]
  exact h

theorem behindPass_end (h : CameTo t t' bytes none) (hcur : cur_size = size) :
    CameTo t (behindPass true rq stall file_size fuel k pos addr size cur_size t') bytes none := by
  have hstop : ¬t'.stopped = true := by rw [h.status]; decide
  have hz : size - cur_size = 0 := by rw [hcur, UInt16.sub_self]
  rw [behindPass, if_neg hstop, if_neg fun hw => hw.1 hz, hz]
  cases fuel with
  | zero => exact h
  | succ fuel =>
    rw [transferLoop, if_pos rfl]
    exact h

theorem sub_ne_zero_of_lt (h : cur_size.toNat < size.toNat) : size - cur_size ≠ 0 := by
  intro hz
  have hsub := UInt16.toNat_sub_of_le _ _ (UInt16.le_iff_toNat_le.mpr (Nat.le_of_lt h))
  rw [hz, show (0 : UInt16).toNat = 0 by decide] at hsub
  omega

theorem behindPass_stalled (h : CameTo t t' bytes none) (hlt : cur_size.toNat < size.toNat)
    (hk : stall k = true) :
    CameTo t (behindPass true rq stall file_size fuel k pos addr size cur_size t') bytes
      (some statAckAbortErr) := by
  have hstop : ¬t'.stopped = true := by rw [h.status]; decide
  rw [behindPass, if_neg hstop, if_pos ⟨sub_ne_zero_of_lt hlt, hk⟩]
  refine ⟨?_, rfl, List.getLast?_concat⟩
  rw [sent_append, h.bytes]
  exact List.append_nil _

theorem behindPass_on (h : CameTo t t' bytes none) (hk : stall k = false) :
    behindPass true rq stall file_size fuel k pos addr size cur_size t'
      = transferLoop true rq stall file_size fuel (k + 1) (pos + cur_size.toNat)
        (addr + cur_size.toUInt32) (size - cur_size) t' := by
  have hstop : ¬t'.stopped = true := by rw [h.status]; decide
  rw [behindPass, if_neg hstop, if_neg fun hw => by rw [hk] at hw; exact Bool.noConfusion hw.2]

/-- What a transfer has come to is one thing. -/
theorem CameTo.unique {bytes' : List UInt8} {s s' : Option UInt8} (h : CameTo t t' bytes s)
    (h' : CameTo t t' bytes' s') : bytes = bytes' ∧ s = s' := by
  refine ⟨List.append_cancel_left (h.bytes.symm.trans h'.bytes), ?_⟩
  have hs := h.status
  have hs' := h'.status
  cases s with
  | none =>
    cases s' with
    | none => rfl
    | some s' => exact absurd (hs.symm.trans hs'.1) (by decide)
  | some s =>
    cases s' with
    | none => exact absurd (hs'.symm.trans hs.1) (by decide)
    | some s' => rw [hs'.2] at hs; exact congrArg some (FChOut.stat.inj (Option.some.inj hs.2)).symm

/-- All bytes there are of a read, and the status that says whether that is all. -/
def Exact (data : List UInt8) (a s : ℕ) (t t' : Transfer δ) : Prop :=
  CameTo t t' ((data.drop a).take s) (passStatus data a s)

variable {data : List UInt8} {a : ℕ}

/-- From a sector boundary on, without a burst: one pass, and there is no more behind it. -/
theorem aligned_buffered (hdir : dir rq.status = false) (h : At data a t.pDrive.fSource)
    (hstop : t.stopped = false) (ha : a % 512 = 0) (haddr : addr.toNat = a % 2 ^ 32)
    (hN : data.length < 2 ^ 64) (hfuel : size.toNat ≤ fuel) (hb : ¬Burst data.length addr size) :
    Exact data a size.toNat t (transferLoop true rq stall data.length fuel k pos addr size t) := by
  by_cases h0 : size = 0
  · subst h0
    have hend : transferLoop true rq stall data.length fuel k pos addr 0 t = t := by
      cases fuel with
      | zero => rfl
      | succ fuel => rw [transferLoop, if_pos rfl]
    rw [hend]
    refine ⟨(List.append_nil _).symm, ?_⟩
    rw [passStatus, if_neg (by rw [show (0 : UInt16).toNat = 0 by decide]; omega)]
    exact hstop
  · obtain ⟨fuel, rfl⟩ : ∃ n, fuel = n + 1 := ⟨fuel - 1, by
      have : size.toNat ≠ 0 := fun hz => h0 (UInt16.toNat_inj.mp hz)
      omega⟩
    have hle := h.le
    have hcur := curSize_toNat addr size
    rw [haddr] at hcur
    have hpass := readPass_buffered hstop h (curSize addr size)
    rw [transferLoop_read hdir _ _ _ _ _ _ h0, decide_eq_false hb, passSize, if_neg hb]
    rw [hcur] at hpass
    by_cases hsmall : size.toNat < 512
    · -- the pass is all of it
      rw [Nat.min_eq_left (by omega)] at hpass hcur
      rw [Exact]
      cases hstatus : passStatus data a size.toNat with
      | some s => exact behindPass_stopped (hstatus ▸ hpass)
      | none => exact behindPass_end (hstatus ▸ hpass) (UInt16.toNat_inj.mp hcur)
    · -- less than a sector is left of the file
      have hleft : data.length - a < 512 := by
        by_contra hge
        refine hb ⟨by omega, by omega, ?_⟩
        have hlen : data.length.toUInt64.toNat = data.length := Nat.mod_eq_of_lt hN
        rw [UInt64.toNat_sub_of_le _ _ (UInt64.le_iff_toNat_le.mpr ?_), hlen, UInt32.toNat_toUInt64, haddr]
        · omega
        · rw [hlen, UInt32.toNat_toUInt64, haddr]
          omega
      have htake : (data.drop a).take (min size.toNat (512 - a % 2 ^ 32 % 512))
          = (data.drop a).take size.toNat := by
        rw [List.take_of_length_le (by rw [List.length_drop]; omega),
          List.take_of_length_le (by rw [List.length_drop]; omega)]
      rw [htake, passStatus, if_pos (by omega)] at hpass
      rw [Exact, passStatus, if_pos (by omega)]
      exact behindPass_stopped hpass

/-- A burst is the whole sectors of a request. -/
theorem burst_size (size : UInt16) : (size / 512 * 512 : UInt16).toNat = size.toNat / 512 * 512 := by
  have hlt := size.toNat_lt
  rw [UInt16.toNat_mul, UInt16.toNat_div, show (512 : UInt16).toNat = 512 by decide]
  exact Nat.mod_eq_of_lt (by omega)

/-- The rest of a request behind a pass. -/
theorem sub_toNat (h : cur_size.toNat ≤ size.toNat) :
    (size - cur_size).toNat = size.toNat - cur_size.toNat :=
  UInt16.toNat_sub_of_le _ _ (UInt16.le_iff_toNat_le.mpr h)

/-- The address behind a pass. -/
theorem addr_behind (haddr : addr.toNat = a % 2 ^ 32) :
    (addr + cur_size.toUInt32).toNat = (a + cur_size.toNat) % 2 ^ 32 := by
  rw [UInt32.toNat_add, haddr, UInt16.toNat_toUInt32, Nat.mod_add_mod]

/-- A pass and the rest behind it. -/
theorem Exact.behind_iff {m n : ℕ} {t'' : Transfer δ} (h : CameTo t t' ((data.drop a).take m) none)
    (hm : m ≤ data.length - a) : Exact data (a + m) n t' t'' ↔ Exact data a (m + n) t t'' := by
  have hbytes : (data.drop a).take (m + n) = (data.drop a).take m ++ (data.drop (a + m)).take n := by
    rw [← List.drop_drop, List.take_add]
  have hstatus : passStatus data (a + m) n = passStatus data a (m + n) := by
    rw [passStatus, passStatus]
    refine if_congr ?_ rfl rfl
    omega
  refine ⟨fun h' => ?_, fun h' => ⟨?_, ?_⟩⟩
  · have htrans := h.trans h'
    rw [← hbytes, hstatus] at htrans
    exact htrans
  · have hsent := h'.bytes
    rw [hbytes, ← List.append_assoc, ← h.bytes] at hsent
    exact hsent
  · rw [hstatus]
    exact h'.status

/-- What goes wrong with a burst: a sector of it is cut off, or the wait behind it times out. -/
def BurstFails (stall : ℕ → Bool) (N a s k : ℕ) : Prop :=
  N < a + s / 512 * 512 ∧ N % 512 ≠ 0 ∨
    a + s / 512 * 512 < a + s ∧ a + s / 512 * 512 ≤ N ∧ stall k = true

/-- From a sector boundary on, with a burst. -/
theorem aligned_burst (hdir : dir rq.status = false) (h : At data a t.pDrive.fSource)
    (hstop : t.stopped = false) (ha : a % 512 = 0) (haddr : addr.toNat = a % 2 ^ 32)
    (hN : data.length < 2 ^ 64) (hfuel : size.toNat ≤ fuel) (hb : Burst data.length addr size) :
    Exact data a size.toNat t (transferLoop true rq stall data.length fuel k pos addr size t) ↔
      ¬BurstFails stall data.length a size.toNat k := by
  have h512 : 512 ≤ size.toNat := hb.2.1
  have hle := h.le
  have hcur := burst_size size
  obtain ⟨fuel, rfl⟩ : ∃ n, fuel = n + 1 := ⟨fuel - 1, by omega⟩
  have h0 : size ≠ 0 := fun hz => by
    rw [hz, show (0 : UInt16).toNat = 0 by decide] at h512
    omega
  have hpass := readPass_burst hstop h ha (size / 512 * 512)
  have hat := readPass_at h true (size / 512 * 512)
  rw [transferLoop_read hdir _ _ _ _ _ _ h0, decide_eq_true hb, passSize, if_pos hb]
  rw [hcur] at hpass hat
  unfold BurstFails
  by_cases hshort : data.length - a < size.toNat / 512 * 512
  · -- the file ends inside the burst
    rw [passStatus, if_pos hshort, Nat.min_eq_right (Nat.le_of_lt hshort)] at hpass
    have hrun : CameTo t (behindPass true rq stall data.length fuel k pos addr size (size / 512 * 512) _) _ _ :=
      behindPass_stopped hpass
    have hstatus : passStatus data a size.toNat = some statAckTruncErr := if_pos (by omega)
    rw [Exact, hstatus]
    refine ⟨fun hex => ?_, fun hok => ?_⟩
    · have hlen := congrArg List.length (hrun.unique hex).1
      rw [List.length_take, List.length_take, List.length_drop] at hlen
      omega
    · have hwhole : (data.length - a) / 512 * 512 = data.length - a := by omega
      have hbytes : (data.drop a).take ((data.length - a) / 512 * 512)
          = (data.drop a).take size.toNat := by
        rw [hwhole, List.take_of_length_le (by rw [List.length_drop]),
          List.take_of_length_le (by rw [List.length_drop]; omega)]
      rw [hbytes] at hrun
      exact hrun
  · rw [passStatus, if_neg hshort, Nat.min_eq_left (by omega),
      Nat.mul_div_cancel _ (show 0 < 512 by decide)] at hpass
    rw [Nat.min_eq_left (by omega)] at hat
    by_cases hend : size.toNat / 512 * 512 = size.toNat
    · have hrun : CameTo t (behindPass true rq stall data.length fuel k pos addr size (size / 512 * 512) _) _ _ :=
        behindPass_end hpass (UInt16.toNat_inj.mp (hcur.trans hend))
      refine ⟨fun _ => by omega, fun _ => ?_⟩
      rw [Exact, passStatus, if_neg (by omega), ← hend]
      exact hrun
    · cases hk : stall k with
      | true =>
        have hrun : CameTo t (behindPass true rq stall data.length fuel k pos addr size (size / 512 * 512) _) _
            _ := behindPass_stalled hpass (by omega) hk
        refine ⟨fun hex => ?_, fun hok => absurd (Or.inr ⟨by omega, by omega, rfl⟩) hok⟩
        have hstatus := (hrun.unique hex).2
        rw [passStatus] at hstatus
        split at hstatus
        · exact absurd (Option.some.inj hstatus) (by decide)
        · cases hstatus
      | false =>
        have hsub := sub_toNat (show (size / 512 * 512).toNat ≤ size.toNat by omega)
        have hbehind : (addr + (size / 512 * 512).toUInt32).toNat = _ := addr_behind haddr
        rw [hcur] at hsub hbehind
        rw [behindPass_on hpass hk]
        refine ⟨fun _ hf => ?_, fun _ => ?_⟩
        · rcases hf with hf | hf
          · omega
          · exact Bool.noConfusion hf.2.2
        · have hrest : Exact data (a + size.toNat / 512 * 512) (size - size / 512 * 512).toNat _
              (transferLoop true rq stall data.length fuel (k + 1) (pos + (size / 512 * 512).toNat) _ _ _) :=
            aligned_buffered hdir hat hpass.status (by omega) hbehind hN (by omega) fun hb' => by
              have := hb'.2.1
              omega
          have hall := (Exact.behind_iff hpass (by omega)).mp hrest
          rwa [hsub, Nat.add_sub_cancel' (by omega)] at hall

/-- A burst begins at a sector boundary, in a file of `N` bytes; from 2^32 on the driver looks at the
    wrong address. -/
def BurstBegins (N a s : ℕ) : Prop := a ≤ N ∧ 512 ≤ s ∧ (512 ≤ N - a ∨ a = 2 ^ 32)

theorem burst_iff (hN : data.length < 2 ^ 64) (ha : a % 512 = 0) (hle : a ≤ data.length)
    (h32 : a ≤ 2 ^ 32) (haddr : addr.toNat = a % 2 ^ 32) :
    Burst data.length addr size ↔ BurstBegins data.length a size.toNat := by
  have hlen : data.length.toUInt64.toNat = data.length := Nat.mod_eq_of_lt hN
  have hleft : (data.length.toUInt64 - addr.toUInt64).toNat = data.length - a % 2 ^ 32 := by
    rw [UInt64.toNat_sub_of_le _ _ (UInt64.le_iff_toNat_le.mpr ?_), hlen, UInt32.toNat_toUInt64, haddr]
    rw [hlen, UInt32.toNat_toUInt64, haddr]
    omega
  rw [Burst, BurstBegins, hleft, haddr]
  omega

/-- From a sector boundary on. -/
theorem aligned_exact_iff (hdir : dir rq.status = false) (h : At data a t.pDrive.fSource)
    (hstop : t.stopped = false) (ha : a % 512 = 0) (haddr : addr.toNat = a % 2 ^ 32) (h32 : a ≤ 2 ^ 32)
    (hN : data.length < 2 ^ 64) (hfuel : size.toNat ≤ fuel) :
    Exact data a size.toNat t (transferLoop true rq stall data.length fuel k pos addr size t) ↔
      (BurstBegins data.length a size.toNat → ¬BurstFails stall data.length a size.toNat k) := by
  have hiff : Burst data.length addr size ↔ _ := burst_iff hN ha h.le h32 haddr
  by_cases hb : Burst data.length addr size
  · rw [aligned_burst hdir h hstop ha haddr hN hfuel hb]
    exact ⟨fun hf _ => hf, fun hf => hf (hiff.mp hb)⟩
  · exact ⟨fun _ hbegins => absurd (hiff.mpr hbegins) hb,
      fun _ => aligned_buffered hdir h hstop ha haddr hN hfuel hb⟩

/-- The first sector boundary from an address on. -/
def boundary (a : ℕ) : ℕ := (a + 511) / 512 * 512

/-- A read of `s` bytes from address `a` of a file of `N` bytes comes through whole: no wait times out
    behind the first pass, and the burst from the first sector boundary on, if there is one, goes
    well. -/
def ReadsExactly (stall : ℕ → Bool) (N a s : ℕ) : Prop :=
  let b := boundary a
  (a % 512 ≠ 0 → b < a + s → b ≤ N → stall 0 = false) ∧
    (BurstBegins N b (a + s - b) →
      ¬BurstFails stall N b (a + s - b) (if a % 512 = 0 then 0 else 1))

/-- The loop from any address inside the file on. -/
theorem transferLoop_exact_iff (hdir : dir rq.status = false) (h : At data addr.toNat t.pDrive.fSource)
    (hstop : t.stopped = false) (hN : data.length < 2 ^ 64) (hfuel : size.toNat ≤ fuel) :
    Exact data addr.toNat size.toNat t (transferLoop true rq stall data.length fuel 0 pos addr size t) ↔
      ReadsExactly stall data.length addr.toNat size.toNat := by
  have hlt := addr.toNat_lt
  have haddr : addr.toNat = addr.toNat % 2 ^ 32 := (Nat.mod_eq_of_lt hlt).symm
  have hle := h.le
  unfold ReadsExactly boundary
  simp only
  by_cases ha : addr.toNat % 512 = 0
  · have hb : (addr.toNat + 511) / 512 * 512 = addr.toNat := by omega
    rw [aligned_exact_iff hdir h hstop ha haddr (Nat.le_of_lt hlt) hN hfuel, hb, if_pos ha,
      Nat.add_sub_cancel_left]
    exact ⟨fun hex => ⟨fun hne => absurd ha hne, hex⟩, fun hex => hex.2⟩
  · rw [if_neg ha]
    have hcur := curSize_toNat addr size
    have hnb : ¬Burst data.length addr size := fun hb => ha hb.1
    by_cases h0 : size = 0
    · subst h0
      have hend : transferLoop true rq stall data.length fuel 0 pos addr 0 t = t := by
        cases fuel with
        | zero => rfl
        | succ fuel => rw [transferLoop, if_pos rfl]
      rw [hend, show (0 : UInt16).toNat = 0 by decide]
      refine ⟨fun _ => ⟨fun _ hf => by omega, fun hf => by unfold BurstBegins at hf; omega⟩, fun _ => ?_⟩
      refine ⟨(List.append_nil _).symm, ?_⟩
      rw [passStatus, if_neg (Nat.not_lt_zero _)]
      exact hstop
    · have hsize : size.toNat ≠ 0 := fun hz => h0 (UInt16.toNat_inj.mp hz)
      obtain ⟨fuel, rfl⟩ : ∃ n, fuel = n + 1 := ⟨fuel - 1, by omega⟩
      have hpass := readPass_buffered hstop h (curSize addr size)
      have hat := readPass_at h false (curSize addr size)
      rw [transferLoop_read hdir _ _ _ _ _ _ h0, decide_eq_false hnb, passSize, if_neg hnb]
      rw [hcur] at hpass hat
      by_cases hall : size.toNat ≤ 512 - addr.toNat % 512
      · -- the pass is all of it
        rw [Nat.min_eq_left hall] at hpass hcur
        refine ⟨fun _ => ⟨fun _ hf => by omega, fun hf => by unfold BurstBegins at hf; omega⟩,
          fun _ => ?_⟩
        rw [Exact]
        cases hstatus : passStatus data addr.toNat size.toNat with
        | some s => exact behindPass_stopped (hstatus ▸ hpass)
        | none => exact behindPass_end (hstatus ▸ hpass) (UInt16.toNat_inj.mp hcur)
      · rw [Nat.min_eq_right (Nat.le_of_not_le hall)] at hpass hcur hat
        by_cases hshort : data.length - addr.toNat < 512 - addr.toNat % 512
        · -- the file ends in front of the boundary
          refine ⟨fun _ => ⟨fun _ _ hf => by omega, fun hf => by unfold BurstBegins at hf; omega⟩,
            fun _ => ?_⟩
          have htake : (data.drop addr.toNat).take (512 - addr.toNat % 512)
              = (data.drop addr.toNat).take size.toNat := by
            rw [List.take_of_length_le (by rw [List.length_drop]; omega),
              List.take_of_length_le (by rw [List.length_drop]; omega)]
          rw [htake, passStatus, if_pos hshort] at hpass
          rw [Exact, passStatus, if_pos (by omega)]
          exact behindPass_stopped hpass
        · rw [passStatus, if_neg hshort] at hpass
          rw [Nat.min_eq_left (Nat.le_of_not_lt hshort)] at hat
          have hbound : (addr.toNat + 511) / 512 * 512 = addr.toNat + (512 - addr.toNat % 512) := by omega
          rw [hbound]
          cases hk : stall 0 with
          | true =>
            have hrun : CameTo t (behindPass true rq stall data.length fuel 0 pos addr size (curSize addr size)
                _) _ _ := behindPass_stalled hpass (by omega) hk
            refine ⟨fun hex => ?_, fun hok => ?_⟩
            · have hstatus := (hrun.unique hex).2
              rw [passStatus] at hstatus
              split at hstatus
              · exact absurd (Option.some.inj hstatus) (by decide)
              · cases hstatus
            · exact absurd (hok.1 ha (by omega) (by omega)) (by decide)
          | false =>
            have hsub := sub_toNat (show (curSize addr size).toNat ≤ size.toNat by omega)
            have hbehind : (addr + (curSize addr size).toUInt32).toNat = _ := addr_behind haddr
            rw [hcur] at hsub hbehind
            rw [behindPass_on hpass hk]
            have hrest : Exact data (addr.toNat + (512 - addr.toNat % 512)) (size - curSize addr size).toNat
                (readPass t false (curSize addr size))
                (transferLoop true rq stall data.length fuel 1 (pos + (curSize addr size).toNat)
                  (addr + (curSize addr size).toUInt32) (size - curSize addr size)
                  (readPass t false (curSize addr size))) ↔ _ :=
              Exact.behind_iff hpass (by omega)
            rw [hsub, Nat.add_sub_cancel' (by omega)] at hrest
            rw [← hrest, ← hsub, aligned_exact_iff hdir hat hpass.status (by omega) hbehind (by omega) hN
              (by omega), hsub]
            have hleft : addr.toNat + size.toNat - (addr.toNat + (512 - addr.toNat % 512))
                = size.toNat - (512 - addr.toNat % 512) := by omega
            rw [hleft]
            exact ⟨fun hex => ⟨fun _ _ _ => rfl, hex⟩, fun hex => hex.2⟩

end

end

/-! ### Requests -/

/-- A read request is answered exactly: the bytes of the file from the address on, as many as are asked
    for or as there are, and then the code that says whether the file was long enough. -/
def AnsweredExactly (data : List UInt8) (rq : Request) (t t' : Transfer Desc) : Prop :=
  sent t'.outs = sent t.outs ++ (data.drop (reqAddr rq).toNat).take (reqSize rq).toNat ∧
    t'.outs.getLast? = some (.stat
      (if (reqAddr rq).toNat + (reqSize rq).toNat ≤ data.length then statAckOk else statAckTruncErr))

/-- A read request from an address inside a file that can be read is answered exactly if and only if no
    wait times out and its burst does not come to a sector that the end of the file cuts off. -/
theorem read_exact_iff {rq : Request} (hdir : dir rq.status = false) (stall : ℕ → Bool)
    {t : Transfer Desc} (hstop : t.stopped = false) (hok : t.pDrive.fSource.Ok)
    (herr : t.pDrive.fSource.err = false)
    (hread : t.pDrive.fSource.objsize ≤ t.pDrive.fSource.readable)
    (haddr : (reqAddr rq).toNat ≤ t.pDrive.fSource.objsize)
    (hN : t.pDrive.fSource.objsize < 2 ^ 64) :
    AnsweredExactly t.pDrive.fSource.data rq t (request rq stall t) ↔
      ReadsExactly stall t.pDrive.fSource.objsize (reqAddr rq).toNat (reqSize rq).toNat := by
  obtain ⟨clust, hseek⟩ := FF_Seek_in hok herr haddr
  have hok' := FF_Seek_ok hok (reqAddr rq).toNat
  rw [hseek] at hok'
  rw [request, transfer, show ({ t with outs := t.outs ++ [.stat statReqAck] } : Transfer Desc).pDrive
    = t.pDrive from rfl, hseek]
  simp only
  have hat : At t.pDrive.fSource.data (reqAddr rq).toNat
      { t.pDrive.fSource with fptr := (reqAddr rq).toNat, clust := clust } :=
    ⟨hok', herr, rfl, rfl, hread⟩
  have hends := @transferLoop_ends Desc true rq stall t.pDrive.fSource.objsize (reqSize rq).toNat 0 0
    (reqAddr rq) (reqSize rq)
    { t with
      pDrive := { t.pDrive with
        fSource := { t.pDrive.fSource with fptr := (reqAddr rq).toNat, clust := clust } }
      outs := t.outs ++ [.stat statReqAck] } hstop
  have hloop := @transferLoop_exact_iff Desc rq stall (reqSize rq).toNat 0 (reqAddr rq) (reqSize rq)
    { t with
      pDrive := { t.pDrive with
        fSource := { t.pDrive.fSource with fptr := (reqAddr rq).toNat, clust := clust } }
      outs := t.outs ++ [.stat statReqAck] } t.pDrive.fSource.data hdir hat hstop hN (Nat.le_refl _)
  rw [FIL.objsize, ← hloop, show FF_Size { t.pDrive.fSource with fptr := (reqAddr rq).toNat, clust := clust }
    = t.pDrive.fSource.data.length from rfl, AnsweredExactly]
  rw [FIL.objsize] at hends haddr
  generalize transferLoop true rq stall t.pDrive.fSource.data.length _ _ _ _ _ _ = t' at hends ⊢
  have hsent : sent (t.outs ++ [.stat statReqAck]) = sent t.outs := by
    rw [sent_append]
    exact List.append_nil _
  rcases hends with ⟨hstop', -⟩ | ⟨outs, s, hstop', houts, -, hs⟩
  · -- the loop has gone through
    rw [if_neg (by rw [hstop']; decide), sent_append, show sent [.stat statAckOk] = [] from rfl,
      List.append_nil, List.getLast?_concat]
    refine ⟨?_, fun hex => ⟨?_, ?_⟩⟩
    · rintro ⟨hbytes, hlast⟩
      refine ⟨by rw [hbytes, ← hsent], ?_⟩
      have hle : (reqAddr rq).toNat + (reqSize rq).toNat ≤ t.pDrive.fSource.data.length := by
        by_contra hgt
        rw [if_neg hgt] at hlast
        exact absurd (FChOut.stat.inj (Option.some.inj hlast)) (by decide)
      rw [passStatus, if_neg (by omega)]
      exact hstop'
    · rw [← hsent]
      exact hex.bytes
    · have hstatus := hex.status
      by_cases hle : (reqAddr rq).toNat + (reqSize rq).toNat ≤ t.pDrive.fSource.data.length
      · rw [if_pos hle]
      · rw [passStatus, if_pos (by omega)] at hstatus
        exact absurd (hstop'.symm.trans hstatus.1) (by decide)
  · -- a pass has ended it
    rw [if_pos hstop']
    have hnot : s ≠ statAckOk := by
      rcases hs with rfl | rfl <;> decide
    refine ⟨?_, fun hex => ⟨?_, ?_⟩⟩
    · rintro ⟨hbytes, hlast⟩
      refine ⟨by rw [hbytes, ← hsent], ?_⟩
      have hgt : ¬(reqAddr rq).toNat + (reqSize rq).toNat ≤ t.pDrive.fSource.data.length := by
        intro hle
        rw [if_pos hle, houts, List.getLast?_concat] at hlast
        exact hnot (FChOut.stat.inj (Option.some.inj hlast))
      rw [if_neg hgt] at hlast
      rw [passStatus, if_pos (by omega)]
      exact ⟨hstop', hlast⟩
    · rw [← hsent]
      exact hex.bytes
    · have hstatus := hex.status
      by_cases hle : (reqAddr rq).toNat + (reqSize rq).toNat ≤ t.pDrive.fSource.data.length
      · rw [passStatus, if_neg (by omega)] at hstatus
        exact absurd (hstop'.symm.trans hstatus) (by decide)
      · rw [passStatus, if_pos (by omega)] at hstatus
        rw [if_neg hle]
        exact hstatus.2

/-- A file of 1000 bytes in a drive that is asked for 1024. -/
def thousand : Transfer Desc :=
  { pDrive := {
      status := statInserted
      fSource := f_open { data := List.replicate 1000 0xE5, slack := fun _ => 0, cap := 1024, csize := 512
                          readable := 1024, size_le := by rw [List.length_replicate]; decide
                          csize_pos := sector_pos } false
      pDesc := { file_size := 1000 } }
    fbuf := fun _ => 0, outs := [], stopped := false }

/-- A read request from the start of a file. -/
def readTo (lo hi : UInt8) : Request :=
  { status := reqAct, cmd := fun i => if i = 1 then lo else if i = 2 then hi else 0, fifo := fun _ => 0 }

/-- A thousand bytes of it are read as they are. -/
theorem thousand_read_exact : AnsweredExactly thousand.pDrive.fSource.data (readTo 0xE8 0x03) thousand
    (request (readTo 0xE8 0x03) (fun _ => false) thousand) := by
  have hsize : thousand.pDrive.fSource.objsize = 1000 := List.length_replicate
  have hreq : (reqAddr (readTo 0xE8 0x03)).toNat = 0 ∧ (reqSize (readTo 0xE8 0x03)).toNat = 1000 := by
    decide
  refine (@read_exact_iff (readTo 0xE8 0x03) rfl (fun _ => false) thousand rfl (f_open_ok _ _) rfl ?_ ?_
    ?_).mpr ?_
  · rw [hsize]
    decide
  · rw [hreq.1]
    exact Nat.zero_le _
  · rw [hsize]
    decide
  · rw [hsize, hreq.1, hreq.2]
    refine ⟨fun h => absurd rfl h, fun _ hf => ?_⟩
    rcases hf with hf | hf
    · exact absurd hf (by decide)
    · exact absurd hf.2.2 (by decide)

/-- Of the sector that the end of the file cuts off, nothing is sent. -/
theorem thousand_cut_off : ¬∀ (rq : Request) (t : Transfer Desc), dir rq.status = false →
    t.stopped = false → t.pDrive.fSource.Ok → t.pDrive.fSource.err = false →
    t.pDrive.fSource.objsize ≤ t.pDrive.fSource.readable →
    (reqAddr rq).toNat ≤ t.pDrive.fSource.objsize →
    AnsweredExactly t.pDrive.fSource.data rq t (request rq (fun _ => false) t) := by
  intro h
  have hsent : (sent (request (readTo 0x00 0x04) (fun _ => false) thousand).outs).length = 512 := by
    decide +kernel
  have hsize : thousand.pDrive.fSource.objsize = 1000 := List.length_replicate
  obtain ⟨hbytes, -⟩ := h (readTo 0x00 0x04) thousand rfl rfl (f_open_ok _ _) rfl
    (by rw [hsize]; decide) (by rw [hsize]; decide)
  rw [hbytes] at hsent
  exact absurd hsent (by decide +kernel)

end FileIO.Drv00
