import Mathlib.Tactic.IntervalCases
import ReplayFirmware.FileIO.ReadExact
import ReplayFirmware.FileIO.ReadFrame

/-! Reads straight from the card.

    A direct read has no buffer, so it must begin at a sector, be made of whole sectors, and end
    inside the file. The three drivers come to it with positions and sizes from the guest and from the
    headers of images. Here the calls of a request are listed with the file as they find it, and what
    a request must be for all of them to be in order. -/

namespace FileIO
open FatFs

/-! ### Calls -/

/-- A call of `FF_ReadDirect`. -/
structure DirectCall where
  fp : FIL
  count : ℕ

/-- What `FF_ReadDirect` asserts, and that the transfer ends inside the file. -/
structure DirectCall.Allowed (c : DirectCall) : Prop where
  position : c.fp.fptr % 512 = 0
  sectors : c.count % 512 = 0
  left : c.fp.fptr + 512 ≤ c.fp.objsize
  inside : c.fp.fptr + c.count ≤ c.fp.objsize

/-- What is sent straight from the card, call by call. -/
def directs : List FChOut → List (List UInt8)
  | [] => []
  | .direct bs :: outs => bs :: directs outs
  | .stat _ :: outs => directs outs
  | .cmd _ _ :: outs => directs outs
  | .fifo _ _ :: outs => directs outs

theorem directs_append : ∀ outs outs' : List FChOut,
    directs (outs ++ outs') = directs outs ++ directs outs'
  | [], _ => rfl
  | .direct bs :: outs, outs' => congrArg (bs :: ·) (directs_append outs outs')
  | .stat _ :: outs, outs' => directs_append outs outs'
  | .cmd _ _ :: outs, outs' => directs_append outs outs'
  | .fifo _ _ :: outs, outs' => directs_append outs outs'

/-- What a call sends. -/
def DirectCall.sent (c : DirectCall) : List UInt8 := (FF_ReadDirect c.fp c.count).1

/-! ### Files -/

/-- A file that no error stops, wherever it stands. -/
structure Sound (fp : FIL) : Prop where
  csize_pos : 0 < fp.csize
  size_le : fp.objsize ≤ fp.cap
  err : fp.err = false
  readable : fp.cap ≤ fp.readable

/-- A file behind seeks up to `ofs`: extended at most that far, if it is open for writing. -/
structure Sought (fp fp' : FIL) (ofs : ℕ) : Prop where
  same : SameFile fp fp'
  readable : fp'.readable = fp.readable
  size : fp'.objsize = fp.objsize ∨
    fp.write = true ∧ fp.objsize ≤ fp'.objsize ∧ fp'.objsize ≤ min ofs fp.cap

theorem Sought.refl (fp : FIL) (ofs : ℕ) : Sought fp fp ofs := ⟨SameFile.refl fp, rfl, Or.inl rfl⟩

theorem Sought.trans {fp fp' fp'' : FIL} {ofs : ℕ} (h : Sought fp fp' ofs) (h' : Sought fp' fp'' ofs) :
    Sought fp fp'' ofs := by
  refine ⟨h.same.trans h'.same, h'.readable.trans h.readable, ?_⟩
  have hsize := h'.size
  rw [h.same.write, h.same.cap] at hsize
  rcases h.size with hs | ⟨hw, hlo, hhi⟩
  · rw [hs] at hsize
    exact hsize
  · rcases hsize with hs' | ⟨-, hlo', hhi'⟩
    · exact Or.inr ⟨hw, by omega, by omega⟩
    · exact Or.inr ⟨hw, by omega, hhi'⟩

/-- Only the position is another. -/
theorem Sought.moveTo {fp fp' : FIL} {ofs : ℕ} (h : Sought fp fp' ofs) (p c : ℕ) :
    Sought fp { fp' with fptr := p, clust := c } ofs :=
  ⟨⟨h.same.err, h.same.write, h.same.cap, h.same.csize, h.same.data⟩, h.readable, h.size⟩

theorem Sound.sought {fp fp' : FIL} {ofs : ℕ} (h : Sound fp) (hs : Sought fp fp' ofs) : Sound fp' := by
  refine ⟨by rw [hs.same.csize]; exact h.csize_pos, ?_, hs.same.err.trans h.err, ?_⟩
  · rw [hs.same.cap]
    have := h.size_le
    rcases hs.size with hsize | ⟨-, -, hsize⟩ <;> omega
  · rw [hs.same.cap, hs.readable]
    exact h.readable

/-- Where a seek ends up, and how far it extends the file. -/
theorem seek_sought {fp : FIL} (h : Sound fp) (ofs : ℕ) :
    Sought fp (FF_Seek fp ofs).2 ofs ∧ (FF_Seek fp ofs).1 = .ok ∧
      (ofs ≤ fp.objsize → (FF_Seek fp ofs).2.fptr = ofs) ∧
      (fp.objsize < ofs → (FF_Seek fp ofs).2.objsize ≤ (FF_Seek fp ofs).2.fptr) := by
  obtain ⟨hsame, hok, -⟩ := FF_Seek_cases fp ofs
  have hle := h.size_le
  have hgo : ¬fp.err = true := by rw [h.err]; decide
  rw [FF_Seek] at hsame ⊢
  by_cases hpos : ofs = fp.fptr
  · rw [if_pos hpos] at hsame ⊢
    exact ⟨Sought.refl fp ofs, rfl, fun _ => hpos.symm,
      fun hlt => (Nat.le_of_lt hlt).trans (le_of_eq hpos)⟩
  · rw [if_neg hpos] at hsame ⊢
    have hdata := f_lseek_data fp ofs
    rw [if_neg hgo] at hdata
    have hsize : (f_lseek fp ofs).2.objsize = max fp.objsize (fp.target ofs) := by
      rw [FIL.objsize, hdata, FIL.length_extend]
    have hfptr : (f_lseek fp ofs).2.fptr = fp.target ofs ∧
        (f_lseek fp ofs).2.readable = fp.readable ∧ (f_lseek fp ofs).1 = .ok := by
      rw [f_lseek, if_neg hgo]
      simp only
      split
      · next h0 => exact ⟨h0.symm, rfl, rfl⟩
      · exact ⟨rfl, rfl, rfl⟩
    have htarget : fp.target ofs = min (if fp.objsize < ofs ∧ !fp.write then fp.objsize else ofs)
        fp.cap := rfl
    refine ⟨⟨hsame, hfptr.2.1, ?_⟩, hfptr.2.2, fun hin => ?_, fun hout => ?_⟩
    · rw [hsize]
      cases hw : fp.write with
      | true =>
        rw [if_neg (by rw [hw]; simp)] at htarget
        rcases Nat.le_total (fp.target ofs) fp.objsize with hle' | hle'
        · exact Or.inl (by omega)
        · exact Or.inr ⟨rfl, by omega, by omega⟩
      | false =>
        left
        by_cases hlt : fp.objsize < ofs
        · rw [if_pos ⟨hlt, by rw [hw]; rfl⟩] at htarget
          omega
        · rw [if_neg fun hf => hlt hf.1] at htarget
          omega
    · rw [hfptr.1, htarget, if_neg (by omega)]
      omega
    · rw [hfptr.1, hsize]
      refine max_le ?_ (le_refl _)
      rw [htarget]
      split <;> omega

/-- However far the position is from the cluster, a read moves past what it delivers. -/
theorem readLoop_moves : ∀ (fuel btr : ℕ) (fp : FIL), 0 < fp.csize → btr ≤ fuel →
    (readLoop fuel btr fp).2.fptr = fp.fptr + btr ∧ (readLoop fuel btr fp).2.readable = fp.readable ∧
      SameFile fp (readLoop fuel btr fp).2
  | 0, btr, fp, _, hb => by
    obtain rfl : btr = 0 := Nat.le_zero.mp hb
    exact ⟨rfl, rfl, SameFile.refl fp⟩
  | fuel + 1, btr, fp, hc, hb => by
    rw [readLoop]
    by_cases h0 : btr = 0
    · subst h0
      exact ⟨rfl, rfl, SameFile.refl fp⟩
    · rw [if_neg h0]
      have hmod := Nat.mod_lt fp.fptr hc
      set rcnt := min btr (fp.csize - fp.fptr % fp.csize) with hr
      obtain ⟨hfptr, hread, hsame⟩ :=
        readLoop_moves fuel (btr - rcnt) (fp.advance rcnt) hc (by omega)
      refine ⟨hfptr.trans ?_, hread, hsame.err, hsame.write, hsame.cap, hsame.csize, hsame.data⟩
      show fp.fptr + rcnt + (btr - rcnt) = _
      omega

/-- A read inside a sound file moves past what was asked for. -/
theorem read_moves {fp : FIL} (h : Sound fp) {n : ℕ} (hin : fp.fptr + n ≤ fp.objsize) :
    (FF_Read fp n).2.fptr = fp.fptr + n ∧ (FF_Read fp n).2.objsize = fp.objsize ∧
      Sound (FF_Read fp n).2 := by
  have hgo : ¬fp.err = true := by rw [h.err]; decide
  have hle := h.size_le
  have hread := h.readable
  have hkept := FF_Read_kept fp n
  rw [FF_Read, f_read, if_neg hgo] at hkept ⊢
  have hn : min n (fp.objsize - fp.fptr) = n := Nat.min_eq_left (by omega)
  have hgood : min n (fp.readable - fp.fptr) = n := Nat.min_eq_left (by omega)
  simp only [hn, hgood, lt_irrefl, if_false] at hkept ⊢
  obtain ⟨hfptr, hr, hsame⟩ := readLoop_moves n n fp h.csize_pos (le_refl n)
  have hsize : (readLoop n n fp).2.objsize = fp.objsize := congrArg List.length hkept.1
  refine ⟨hfptr, hsize, by rw [hsame.csize]; exact h.csize_pos, ?_, hsame.err.trans h.err, ?_⟩
  · rw [hsize, hsame.cap]
    exact hle
  · rw [hsame.cap, hr]
    exact hread

/-- A read leaves a sound file sound. -/
theorem read_sound {fp : FIL} (h : Sound fp) (n : ℕ) : Sound (FF_Read fp n).2 := by
  have hgo : ¬fp.err = true := by rw [h.err]; decide
  have hle := h.size_le
  have hread := h.readable
  have hkept := FF_Read_kept fp n
  rw [FF_Read, f_read, if_neg hgo] at hkept ⊢
  have hgood : min (min n (fp.objsize - fp.fptr)) (fp.readable - fp.fptr)
      = min n (fp.objsize - fp.fptr) := Nat.min_eq_left (by omega)
  simp only [hgood, lt_irrefl, if_false] at hkept ⊢
  obtain ⟨-, hr, hsame⟩ := readLoop_moves (min n (fp.objsize - fp.fptr)) (min n (fp.objsize - fp.fptr))
    fp h.csize_pos (le_refl _)
  refine ⟨by rw [hsame.csize]; exact h.csize_pos, ?_, hsame.err.trans h.err, ?_⟩
  · rw [FIL.objsize, hkept.1, hsame.cap]
    exact hle
  · rw [hsame.cap, hr]
    exact hread

/-- An open file that no error stops. -/
structure Good (fp : FIL) : Prop where
  ok : fp.Ok
  sound : Sound fp

theorem Good.seek {fp : FIL} (h : Good fp) (ofs : ℕ) : Good (FF_Seek fp ofs).2 :=
  ⟨FF_Seek_ok h.ok ofs, h.sound.sought (seek_sought h.sound ofs).1⟩

theorem Good.read {fp : FIL} (h : Good fp) (n : ℕ) : Good (FF_Read fp n).2 :=
  ⟨FF_Read_ok h.ok n, read_sound h.sound n⟩

theorem Good.read_length {fp : FIL} (h : Good fp) (n : ℕ) :
    (FF_Read fp n).1.length = min n (fp.objsize - fp.fptr) := by
  have hcap := h.sound.size_le
  have hread := h.sound.readable
  have hsize : fp.data.length = fp.objsize := rfl
  rw [FF_Read, f_read_eq h.ok, FIL.avail, if_neg (by rw [h.sound.err]; decide), List.length_take,
    List.length_drop]
  omega

/-- An open file on a card without errors; FatFs keeps files below 2^64 bytes. -/
structure Healthy (fp : FIL) : Prop where
  ok : fp.Ok
  err : fp.err = false
  readable : fp.cap ≤ fp.readable
  cap_lt : fp.cap < 2 ^ 64

theorem Healthy.sound {fp : FIL} (h : Healthy fp) : Sound fp :=
  ⟨h.ok.csize_pos, h.ok.size_le, h.err, h.readable⟩

/-! ### The generic driver -/

namespace Drv00

section
variable {δ : Type}

/-- The bursts of a transfer. -/
def loopCalls (rq : Request) (stall : ℕ → Bool) (file_size : ℕ) :
    ℕ → ℕ → ℕ → UInt32 → UInt16 → Transfer δ → List DirectCall
  | 0, _, _, _, _, _ => []
  | fuel + 1, k, pos, addr, size, t =>
    if size = 0 then []
    else
      let cur_size := curSize addr size
      let burstable := true && !dir rq.status && addr &&& 0x1FF = 0 && cur_size ≥ 512
        && file_size.toUInt64 - addr.toUInt64 ≥ 512
      let cur_size := if burstable then size / 512 * 512 else cur_size
      let calls := if burstable then [{ fp := t.pDrive.fSource, count := cur_size.toNat }] else []
      let t := pass rq pos burstable cur_size t
      if t.stopped = true ∨ size - cur_size ≠ 0 ∧ stall k = true then calls
      else calls ++ loopCalls rq stall file_size fuel (k + 1) (pos + cur_size.toNat)
        (addr + cur_size.toUInt32) (size - cur_size) t

/-- The bursts of a request. -/
def requestCalls (rq : Request) (stall : ℕ → Bool) (t : Transfer δ) : List DirectCall :=
  match FF_Seek t.pDrive.fSource (reqAddr rq).toNat with
  | (.ok, fSource) =>
    loopCalls rq stall (FF_Size fSource) (reqSize rq).toNat 0 0 (reqAddr rq) (reqSize rq)
      { t with pDrive := { t.pDrive with fSource := fSource } }
  | _ => []

/-- The direct reads of a request of `FileIO_Drv00_Process`. -/
def directCalls (handle : Fin 4 → Fch δ) (fbuf : ℕ → UInt8) (rq : Request) (stall : ℕ → Bool) :
    List DirectCall :=
  if getInserted handle (driveNumber rq.status) then
    requestCalls rq stall
      { pDrive := handle (driveNumber rq.status), fbuf := fbuf, outs := [], stopped := false }
  else []

/-- A read of `s` bytes from `a`, of a file that has `N` bytes behind the seek: its burst, if it comes
    to one, lies in the file. -/
def BurstInFile (stall : ℕ → Bool) (N a s : ℕ) : Prop :=
  if N < a then ¬(a % 512 = 0 ∧ 512 ≤ s)
  else
    let b := boundary a
    BurstBegins N b (a + s - b) → (a % 512 ≠ 0 → stall 0 = false) → b + (a + s - b) / 512 * 512 ≤ N

/-- The condition for a request. -/
def ReadsInFile (handle : Fin 4 → Fch δ) (rq : Request) (stall : ℕ → Bool) : Prop :=
  getInserted handle (driveNumber rq.status) = true → dir rq.status = false →
    BurstInFile stall
      (FF_Seek (handle (driveNumber rq.status)).fSource (reqAddr rq).toNat).2.objsize
      (reqAddr rq).toNat (reqSize rq).toNat

section
variable {rq : Request} {stall : ℕ → Bool} {file_size fuel k pos : ℕ} {addr : UInt32} {size : UInt16}
  {t : Transfer δ} {data : List UInt8} {a : ℕ}

/-- Nothing is a burst in a write. -/
theorem loopCalls_write (hdir : dir rq.status = true) : ∀ (fuel k pos : ℕ) (addr : UInt32)
    (size : UInt16) (t : Transfer δ), loopCalls rq stall file_size fuel k pos addr size t = []
  | 0, _, _, _, _, _ => rfl
  | fuel + 1, k, pos, addr, size, t => by
    rw [loopCalls]
    simp only [hdir, Bool.not_true, Bool.and_false, Bool.false_and, Bool.false_eq_true, if_false,
      List.nil_append, loopCalls_write hdir fuel, ite_self]

/-- One round of a read. -/
theorem loopCalls_read (hdir : dir rq.status = false) (hs : size ≠ 0) (t : Transfer δ) :
    loopCalls rq stall file_size (fuel + 1) k pos addr size t
      = (if Burst file_size addr size then
          [{ fp := t.pDrive.fSource, count := (passSize file_size addr size).toNat }] else [])
        ++ (if (readPass t (decide (Burst file_size addr size)) (passSize file_size addr size)).stopped = true
            ∨ size - passSize file_size addr size ≠ 0 ∧ stall k = true then []
          else loopCalls rq stall file_size fuel (k + 1) (pos + (passSize file_size addr size).toNat)
            (addr + (passSize file_size addr size).toUInt32) (size - passSize file_size addr size)
            (readPass t (decide (Burst file_size addr size)) (passSize file_size addr size))) := by
  have hpass : ∀ burstable cur_size, pass rq pos burstable cur_size t = readPass t burstable cur_size :=
    fun burstable cur_size => if_neg (by rw [hdir]; decide)
  have hsize : (if Burst file_size addr size then size / 512 * 512 else curSize addr size)
      = passSize file_size addr size := rfl
  rw [loopCalls, if_neg hs]
  simp only [hdir, burstable_eq, decide_eq_true_iff, hpass, hsize]
  by_cases hend : (readPass t (decide (Burst file_size addr size))
      (passSize file_size addr size)).stopped = true ∨
    size - passSize file_size addr size ≠ 0 ∧ stall k = true
  · rw [if_pos hend, if_pos hend, List.append_nil]
  · rw [if_neg hend, if_neg hend]

/-- Less than a sector is never a burst. -/
theorem loopCalls_small (hdir : dir rq.status = false) : ∀ (fuel k pos : ℕ) (addr : UInt32)
    (size : UInt16) (t : Transfer δ), size.toNat < 512 →
    loopCalls rq stall file_size fuel k pos addr size t = []
  | 0, _, _, _, _, _, _ => rfl
  | fuel + 1, k, pos, addr, size, t, hsmall => by
    by_cases hs : size = 0
    · rw [loopCalls, if_pos hs]
    · have hb : ¬Burst file_size addr size := fun hb => by
        have := hb.2.1
        omega
      have hcur := curSize_toNat addr size
      rw [loopCalls_read hdir hs, if_neg hb, List.nil_append, passSize, if_neg hb]
      split
      · rfl
      · refine loopCalls_small hdir fuel _ _ _ _ _ ?_
        rw [sub_toNat (by omega)]
        omega

/-- From a sector boundary on there is at most one burst. -/
theorem aligned_calls (hdir : dir rq.status = false) (h : At data a t.pDrive.fSource)
    (hstop : t.stopped = false) (ha : a % 512 = 0) (haddr : addr.toNat = a % 2 ^ 32)
    (hN : data.length < 2 ^ 64) (hfuel : size.toNat ≤ fuel) :
    (∀ c ∈ loopCalls rq stall data.length fuel k pos addr size t, c.Allowed) ↔
      (Burst data.length addr size → a + size.toNat / 512 * 512 ≤ data.length) := by
  by_cases hsmall : size.toNat < 512
  · rw [loopCalls_small hdir _ _ _ _ _ _ hsmall]
    refine ⟨fun _ hb => ?_, fun _ c hc => absurd hc List.not_mem_nil⟩
    have := hb.2.1
    omega
  · have hs : size ≠ 0 := fun hz => by
      rw [hz] at hsmall
      exact hsmall (by decide)
    obtain ⟨fuel, rfl⟩ : ∃ n, fuel = n + 1 := ⟨fuel - 1, by omega⟩
    have hle := h.le
    rw [loopCalls_read hdir hs]
    by_cases hb : Burst data.length addr size
    · have hcur := burst_size size
      have hrest : (size - size / 512 * 512).toNat < 512 := by
        rw [sub_toNat (by omega)]
        omega
      rw [if_pos hb, passSize, if_pos hb, loopCalls_small hdir _ _ _ _ _ _ hrest, ite_self,
        List.append_nil, List.forall_mem_singleton, hcur]
      refine ⟨fun hc _ => ?_, fun hin => ?_⟩
      · have hinside := hc.inside
        simp only [h.pos, FIL.objsize, h.bytes] at hinside
        exact hinside
      · have hin := hin hb
        refine ⟨?_, Nat.mul_mod_left _ _, ?_, ?_⟩
        · simp only [h.pos]
          exact ha
        · simp only [h.pos, FIL.objsize, h.bytes]
          omega
        · simp only [h.pos, FIL.objsize, h.bytes]
          exact hin
    · -- less than a sector is left of the file
      have hleft : data.length - a < 512 := by
        by_contra hge
        refine hb ⟨by omega, by omega, ?_⟩
        have hlen : data.length.toUInt64.toNat = data.length := Nat.mod_eq_of_lt hN
        rw [UInt64.toNat_sub_of_le _ _ (UInt64.le_iff_toNat_le.mpr ?_), hlen, UInt32.toNat_toUInt64, haddr]
        · omega
        · rw [hlen, UInt32.toNat_toUInt64, haddr]
          omega
      have hcur := curSize_toNat addr size
      have hpass := readPass_buffered hstop h (curSize addr size)
      rw [hcur, passStatus, if_pos (by omega)] at hpass
      rw [if_neg hb, List.nil_append, decide_eq_false hb, passSize, if_neg hb, if_pos (Or.inl hpass.status.1)]
      exact ⟨fun _ hb' => absurd hb' hb, fun _ c hc => absurd hc List.not_mem_nil⟩

/-- The bursts from any address inside the file on. -/
theorem loopCalls_inside (hdir : dir rq.status = false) (h : At data addr.toNat t.pDrive.fSource)
    (hstop : t.stopped = false) (hN : data.length < 2 ^ 64) (hfuel : size.toNat ≤ fuel) :
    (∀ c ∈ loopCalls rq stall data.length fuel 0 pos addr size t, c.Allowed) ↔
      BurstInFile stall data.length addr.toNat size.toNat := by
  have hlt := addr.toNat_lt
  have haddr : addr.toNat = addr.toNat % 2 ^ 32 := (Nat.mod_eq_of_lt hlt).symm
  have hle := h.le
  unfold BurstInFile boundary
  rw [if_neg (by omega)]
  simp only
  by_cases ha : addr.toNat % 512 = 0
  · have hbound : (addr.toNat + 511) / 512 * 512 = addr.toNat := by omega
    rw [aligned_calls hdir h hstop ha haddr hN hfuel, hbound, Nat.add_sub_cancel_left,
      burst_iff hN ha hle (Nat.le_of_lt hlt) haddr]
    exact ⟨fun hb hbegins _ => hb hbegins, fun hb hbegins => hb hbegins fun hne => absurd ha hne⟩
  · have hbound : (addr.toNat + 511) / 512 * 512 = addr.toNat + (512 - addr.toNat % 512) := by omega
    have hnb : ¬Burst data.length addr size := fun hb => ha hb.1
    rw [hbound]
    have hnone : size.toNat < 512 - addr.toNat % 512 + 512 ∨ data.length < addr.toNat + (512 - addr.toNat % 512) →
        (BurstBegins data.length (addr.toNat + (512 - addr.toNat % 512))
          (addr.toNat + size.toNat - (addr.toNat + (512 - addr.toNat % 512))) →
          (addr.toNat % 512 ≠ 0 → stall 0 = false) →
          addr.toNat + (512 - addr.toNat % 512)
            + (addr.toNat + size.toNat - (addr.toNat + (512 - addr.toNat % 512))) / 512 * 512
              ≤ data.length) := by
      intro hno hbegins
      unfold BurstBegins at hbegins
      omega
    by_cases hsmall : size.toNat < 512
    · rw [loopCalls_small hdir _ _ _ _ _ _ hsmall]
      exact ⟨fun _ => hnone (Or.inl (by omega)), fun _ c hc => absurd hc List.not_mem_nil⟩
    · have hs : size ≠ 0 := fun hz => by
        rw [hz] at hsmall
        exact hsmall (by decide)
      obtain ⟨fuel, rfl⟩ : ∃ n, fuel = n + 1 := ⟨fuel - 1, by omega⟩
      have hcur := curSize_toNat addr size
      rw [Nat.min_eq_right (by omega)] at hcur
      have hpass := readPass_buffered hstop h (curSize addr size)
      have hat := readPass_at h false (curSize addr size)
      rw [hcur] at hpass hat
      rw [loopCalls_read hdir hs, if_neg hnb, List.nil_append, decide_eq_false hnb, passSize, if_neg hnb]
      by_cases hshort : data.length - addr.toNat < 512 - addr.toNat % 512
      · rw [passStatus, if_pos hshort] at hpass
        rw [if_pos (Or.inl hpass.status.1)]
        exact ⟨fun _ => hnone (Or.inr (by omega)), fun _ c hc => absurd hc List.not_mem_nil⟩
      · rw [passStatus, if_neg hshort] at hpass
        rw [Nat.min_eq_left (by omega)] at hat
        have hgo : ¬(readPass t false (curSize addr size)).stopped = true := by
          rw [hpass.status]
          decide
        have hrest := sub_ne_zero_of_lt (show (curSize addr size).toNat < size.toNat by omega)
        cases hk : stall 0 with
        | true =>
          rw [if_pos (Or.inr ⟨hrest, rfl⟩)]
          exact ⟨fun _ _ hstall => absurd (hstall ha) (by decide),
            fun _ c hc => absurd hc List.not_mem_nil⟩
        | false =>
          have hsub := sub_toNat (show (curSize addr size).toNat ≤ size.toNat by omega)
          have hbehind : (addr + (curSize addr size).toUInt32).toNat = _ := addr_behind haddr
          rw [hcur] at hsub hbehind
          rw [if_neg (not_or.mpr ⟨hgo, fun hf => Bool.noConfusion hf.2⟩),
            aligned_calls hdir hat hpass.status (by omega) hbehind hN (by omega),
            burst_iff hN (by omega) (by omega) (by omega) hbehind, hsub]
          have hleft : addr.toNat + size.toNat - (addr.toNat + (512 - addr.toNat % 512))
              = size.toNat - (512 - addr.toNat % 512) := by omega
          rw [hleft]
          exact ⟨fun hb hbegins _ => hb hbegins, fun hb hbegins => hb hbegins fun _ => rfl⟩

/-- Behind the end of the file the driver subtracts the wrong way round. -/
theorem loopCalls_behind (hdir : dir rq.status = false) (h : At data data.length t.pDrive.fSource)
    (hstop : t.stopped = false) (hlt : data.length < addr.toNat) (hfuel : size.toNat ≤ fuel) :
    (∀ c ∈ loopCalls rq stall data.length fuel k pos addr size t, c.Allowed) ↔
      BurstInFile stall data.length addr.toNat size.toNat := by
  have haddr := addr.toNat_lt
  unfold BurstInFile
  rw [if_pos hlt]
  by_cases hs : size = 0
  · subst hs
    rw [loopCalls_small hdir _ _ _ _ _ _ (by decide)]
    refine ⟨fun _ hf => absurd hf.2 (by decide), fun _ c hc => absurd hc List.not_mem_nil⟩
  · have hpos : size.toNat ≠ 0 := fun hz => hs (UInt16.toNat_inj.mp hz)
    obtain ⟨fuel, rfl⟩ : ∃ n, fuel = n + 1 := ⟨fuel - 1, by omega⟩
    have hwrap : 512 ≤ (data.length.toUInt64 - addr.toUInt64).toNat := by
      have hlen : data.length.toUInt64.toNat = data.length := Nat.mod_eq_of_lt (by omega)
      rw [UInt64.toNat_sub, hlen, UInt32.toNat_toUInt64]
      omega
    have hiff : Burst data.length addr size ↔ addr.toNat % 512 = 0 ∧ 512 ≤ size.toNat := by
      unfold Burst
      exact ⟨fun hb => ⟨hb.1, hb.2.1⟩, fun hb => ⟨hb.1, hb.2, hwrap⟩⟩
    rw [← hiff, loopCalls_read hdir hs]
    by_cases hb : Burst data.length addr size
    · rw [if_pos hb]
      refine ⟨fun hall => ?_, fun hno => absurd hb hno⟩
      have hleft := (hall _ (List.mem_append_left _ (List.mem_singleton.mpr rfl))).left
      simp only [h.pos, FIL.objsize, h.bytes] at hleft
      omega
    · have hcur := curSize_toNat addr size
      have hpass := readPass_buffered hstop h (curSize addr size)
      rw [hcur, passStatus, if_pos (by omega)] at hpass
      rw [if_neg hb, List.nil_append, decide_eq_false hb, passSize, if_neg hb,
        if_pos (Or.inl hpass.status.1)]
      exact ⟨fun _ => hb, fun _ c hc => absurd hc List.not_mem_nil⟩

theorem readPass_directs (t : Transfer δ) (burstable : Bool) (cur_size : UInt16) :
    directs (readPass t burstable cur_size).outs = directs t.outs ++
      if burstable then [(FF_ReadDirect t.pDrive.fSource cur_size.toNat).1] else [] := by
  rw [readPass]
  cases burstable
  · simp only [Bool.false_eq_true, if_false]
    split
    · simp only [directs_append]
      exact List.append_nil _
    · simp only [directs_append]
      rfl
  · simp only [if_true]
    split
    · simp only [directs_append]
      exact List.append_nil _
    · simp only [directs_append]
      rfl

/-- The bursts of a read are what it sends straight from the card. -/
theorem transferLoop_directs (hdir : dir rq.status = false) : ∀ (fuel k pos : ℕ) (addr : UInt32)
    (size : UInt16) (t : Transfer δ),
    directs (transferLoop true rq stall file_size fuel k pos addr size t).outs
      = directs t.outs ++ (loopCalls rq stall file_size fuel k pos addr size t).map DirectCall.sent
  | 0, _, _, _, _, _ => (List.append_nil _).symm
  | fuel + 1, k, pos, addr, size, t => by
    by_cases hs : size = 0
    · rw [transferLoop, loopCalls, if_pos hs, if_pos hs]
      exact (List.append_nil _).symm
    · have hcall : directs (readPass t (decide (Burst file_size addr size))
            (passSize file_size addr size)).outs
          = directs t.outs ++ (if Burst file_size addr size then
            [({ fp := t.pDrive.fSource
                count := (passSize file_size addr size).toNat } : DirectCall)] else []).map
              DirectCall.sent := by
        rw [readPass_directs]
        by_cases hb : Burst file_size addr size
        · rw [if_pos (decide_eq_true hb), if_pos hb]
          rfl
        · rw [if_neg (by rw [decide_eq_false hb]; decide), if_neg hb]
          rfl
      rw [transferLoop_read hdir _ _ _ _ _ _ hs, loopCalls_read hdir hs, behindPass, List.map_append,
        ← List.append_assoc, ← hcall]
      generalize readPass t (decide (Burst file_size addr size)) (passSize file_size addr size) = t'
      by_cases hstop : t'.stopped = true
      · rw [if_pos hstop, if_pos (Or.inl hstop)]
        exact (List.append_nil _).symm
      · rw [if_neg hstop]
        by_cases hstall : size - passSize file_size addr size ≠ 0 ∧ stall k = true
        · rw [if_pos hstall, if_pos (Or.inr hstall)]
          exact directs_append _ _
        · rw [if_neg hstall, if_neg (not_or.mpr ⟨hstop, hstall⟩)]
          exact transferLoop_directs hdir fuel _ _ _ _ t'

end

/-- All bursts of a request are in order when they lie in the file. -/
theorem directCalls_iff {handle : Fin 4 → Fch δ} {rq : Request} {stall : ℕ → Bool}
    (hhealthy : Healthy (handle (driveNumber rq.status)).fSource) (fbuf : ℕ → UInt8) :
    (∀ c ∈ directCalls handle fbuf rq stall, c.Allowed) ↔ ReadsInFile handle rq stall := by
  unfold ReadsInFile directCalls requestCalls
  by_cases hin : getInserted handle (driveNumber rq.status) = true
  · rw [if_pos hin]
    simp only [hin, forall_const]
    generalize handle (driveNumber rq.status) = pDrive at hhealthy
    have h := hhealthy.sound
    have hcap := hhealthy.cap_lt
    obtain ⟨hsought, hres, hinside, hbehind⟩ := seek_sought h (reqAddr rq).toNat
    have hok' := FF_Seek_ok hhealthy.ok (reqAddr rq).toNat
    have hsound := h.sought hsought
    have hle' := hok'.fptr_le
    have hsize := hsought.size
    have hle := h.size_le
    generalize FF_Seek pDrive.fSource (reqAddr rq).toNat = r at hsought hres hinside hbehind hok' hsound hle' hsize
    obtain ⟨res, fSource⟩ := r
    obtain rfl : res = .ok := hres
    simp only at hinside hbehind hok' hsound hle' hsize ⊢
    cases hdir : dir rq.status with
    | true =>
      rw [loopCalls_write hdir]
      exact ⟨fun _ hf => Bool.noConfusion hf, fun _ c hc => absurd hc List.not_mem_nil⟩
    | false =>
      simp only [forall_const]
      have hread : fSource.data.length ≤ fSource.readable := hsound.size_le.trans hsound.readable
      have hN : fSource.data.length < 2 ^ 64 := by
        refine lt_of_le_of_lt hsound.size_le ?_
        rw [hsought.same.cap]
        exact hcap
      rcases Nat.lt_or_ge fSource.objsize (reqAddr rq).toNat with hlt | hge
      · have hfptr : fSource.fptr = fSource.data.length := by
          have := hbehind (by omega)
          exact le_antisymm hle' this
        exact loopCalls_behind hdir ⟨hok', hsound.err, rfl, hfptr, hread⟩ rfl hlt (Nat.le_refl _)
      · have hfptr : fSource.fptr = (reqAddr rq).toNat := by
          rcases Nat.lt_or_ge pDrive.fSource.objsize (reqAddr rq).toNat with hlt | hge'
          · have := hbehind hlt
            omega
          · exact hinside hge'
        exact loopCalls_inside hdir ⟨hok', hsound.err, rfl, hfptr, hread⟩ rfl hN (Nat.le_refl _)
  · rw [if_neg hin]
    exact ⟨fun _ hf => absurd hf hin, fun _ c hc => absurd hc List.not_mem_nil⟩

end

end Drv00

/-! ### The floppy driver -/

namespace Drv01

/-- Where the next flux data of the track stands in the file. -/
def scpOffset (pDesc : Desc) : UInt32 :=
  pDesc.scp_cur_track_header_addr + tloOffset pDesc.scp_cur_track_header pDesc.scp_cur_track_rev
    + (pDesc.scp_cur_track_offset <<< 1)

/-- How many bytes of it go in one burst. -/
def scpTransLen (pDesc : Desc) : UInt32 :=
  let trans_len := tloLength pDesc.scp_cur_track_header pDesc.scp_cur_track_rev
    - pDesc.scp_cur_track_offset
  (if trans_len > 1024 then 1024 else trans_len) <<< 1

/-- Both are whole sectors. -/
def ScpAligned (pDesc : Desc) : Prop :=
  scpOffset pDesc &&& 0x1FF = 0 ∧ scpTransLen pDesc &&& 0x1FF = 0

instance (pDesc : Desc) : Decidable (ScpAligned pDesc) := inferInstanceAs (Decidable (_ ∧ _))

/-- The drive on a track. -/
def scpSelect (pDrive : Drive) (track : UInt8) : Drive :=
  if track ≠ pDrive.pDesc.scp_cur_track then scpStep pDrive track else pDrive

/-- The direct read of a read request to a disk of flux data. -/
def scpCalls (pDrive : Drive) (rq : Request) : List DirectCall :=
  let pDrive := scpSelect pDrive (rq.cmd 2)
  if pDrive.pDesc.scp_cur_track_header_addr ≠ 0 ∧ ScpAligned pDrive.pDesc then
    [{ fp := (FF_Seek pDrive.fSource (scpOffset pDrive.pDesc).toNat).2
       count := (scpTransLen pDrive.pDesc).toNat }]
  else []

/-- The direct reads of a request of `FileIO_Drv01_Process`. -/
def directCalls (p : Proc) (rq : Request) : List DirectCall :=
  let pDrive := p.chan.handle (driveNumber rq.status)
  if getInserted p.chan.handle (driveNumber rq.status) ∧ dir rq.status = false
      ∧ pDrive.pDesc.format = .SCP then
    scpCalls pDrive rq
  else []

/-- The burst of flux data that a read asks for, when it is made of whole sectors, lies in the file and
    is not at its end. -/
def FluxInFile (p : Proc) (rq : Request) : Prop :=
  let pDrive := p.chan.handle (driveNumber rq.status)
  getInserted p.chan.handle (driveNumber rq.status) → dir rq.status = false →
    pDrive.pDesc.format = .SCP →
    let pDrive := scpSelect pDrive (rq.cmd 2)
    pDrive.pDesc.scp_cur_track_header_addr ≠ 0 → ScpAligned pDrive.pDesc →
      (scpOffset pDrive.pDesc).toNat + max 512 (scpTransLen pDrive.pDesc).toNat ≤ pDrive.fSource.objsize

theorem scpSelect_sound {pDrive : Drive} (h : Sound pDrive.fSource) (track : UInt8) :
    Sound (scpSelect pDrive track).fSource := by
  have hseek : ∀ {fp : FIL} (ofs : ℕ), Sound fp → Sound (FF_Seek fp ofs).2 :=
    fun ofs hfp => hfp.sought (seek_sought hfp ofs).1
  rw [scpSelect]
  split
  · rw [scpStep]
    simp only
    split
    · exact h
    · split
      · exact read_sound (hseek _ h) 4
      · exact read_sound (hseek _ (read_sound (hseek _ h) 4)) 64
  · exact h

theorem and_1FF_mod {x : UInt32} (h : x &&& 0x1FF = 0) : x.toNat % 512 = 0 := by
  rw [← Drv00.and_1FF_toNat, h]
  rfl

theorem directCalls_iff {p : Proc} {rq : Request}
    (h : Healthy (p.chan.handle (driveNumber rq.status)).fSource) :
    (∀ c ∈ directCalls p rq, c.Allowed) ↔ FluxInFile p rq := by
  have hsound := scpSelect_sound h.sound (rq.cmd 2)
  unfold FluxInFile
  rw [directCalls]
  simp only
  by_cases hserve : getInserted p.chan.handle (driveNumber rq.status) = true ∧ dir rq.status = false ∧
      (p.chan.handle (driveNumber rq.status)).pDesc.format = .SCP
  · obtain ⟨hin, hdir, hformat⟩ := hserve
    rw [if_pos ⟨hin, hdir, hformat⟩, scpCalls]
    simp only [hin, hdir, hformat, forall_const]
    generalize scpSelect _ _ = d at hsound
    by_cases hburst : d.pDesc.scp_cur_track_header_addr ≠ 0 ∧ ScpAligned d.pDesc
    · rw [if_pos hburst, List.forall_mem_singleton]
      obtain ⟨haddr, haligned⟩ := hburst
      have hofs := and_1FF_mod haligned.1
      have hlen := and_1FF_mod haligned.2
      obtain ⟨hsought, -, hinside, hbehind⟩ := seek_sought hsound (scpOffset d.pDesc).toNat
      have hsize := hsought.size
      simp only [ne_eq, haddr, not_false_eq_true, haligned, forall_const]
      rcases Nat.lt_or_ge d.fSource.objsize (scpOffset d.pDesc).toNat with hlt | hge
      · have hend := hbehind hlt
        refine ⟨fun hc => ?_, fun hle => ?_⟩
        · have hleft := hc.left
          simp only at hleft
          omega
        · omega
      · have hfptr := hinside hge
        refine ⟨fun hc => ?_, fun hle => ⟨?_, hlen, ?_, ?_⟩⟩
        · have hleft := hc.left
          have hin' := hc.inside
          simp only at hleft hin'
          omega
        · simp only
          rw [hfptr]
          exact hofs
        · simp only
          omega
        · simp only
          omega
    · rw [if_neg hburst]
      exact ⟨fun _ haddr haligned => absurd ⟨haddr, haligned⟩ hburst,
        fun _ c hc => absurd hc List.not_mem_nil⟩
  · rw [if_neg hserve]
    exact ⟨fun _ hin hdir hformat => absurd ⟨hin, hdir, hformat⟩ hserve,
      fun _ c hc => absurd hc List.not_mem_nil⟩

/-- The direct read of a request is what it sends straight from the card. -/
theorem scpRead_directs (pDrive : Drive) (pBuffer : ℕ → UInt8) (rq : Request) :
    directs (scpRead pDrive pBuffer rq).2.2 = (scpCalls pDrive rq).map DirectCall.sent := by
  have hmarker : ∀ pos : UInt32, directs (if pos = 0 then [.fifo 1 [0x00, 0x04]] else []) = [] := by
    intro pos
    split <;> rfl
  have hburst : ∀ d : Drive, directs (scpBurst d pBuffer).2.2
      = if ScpAligned d.pDesc then
          [(FF_ReadDirect (FF_Seek d.fSource (scpOffset d.pDesc).toNat).2
            (scpTransLen d.pDesc).toNat).1]
        else [] := by
    intro d
    rw [scpBurst]
    simp only [directs_append, hmarker, List.nil_append, apply_ite Prod.snd, apply_ite Prod.fst]
    by_cases haligned : ScpAligned d.pDesc
    · rw [if_pos haligned]
      unfold ScpAligned scpOffset scpTransLen at haligned
      simp only at haligned
      simp only [if_pos haligned]
      rfl
    · rw [if_neg haligned]
      unfold ScpAligned scpOffset scpTransLen at haligned
      simp only at haligned
      simp only [if_neg haligned]
      rfl
  have hselect : (if rq.cmd 2 ≠ pDrive.pDesc.scp_cur_track then scpStep pDrive (rq.cmd 2) else pDrive)
      = scpSelect pDrive (rq.cmd 2) := rfl
  rw [scpRead, scpCalls]
  simp only [hselect]
  generalize scpSelect pDrive (rq.cmd 2) = d
  by_cases haddr : d.pDesc.scp_cur_track_header_addr = 0
  · rw [if_pos haddr, if_neg fun hf => hf.1 haddr]
    rfl
  · rw [if_neg haddr]
    simp only [directs_append, hburst]
    by_cases haligned : ScpAligned d.pDesc
    · rw [if_pos haligned, if_pos ⟨haddr, haligned⟩]
      rfl
    · rw [if_neg haligned, if_neg fun hf => haligned hf.2]
      rfl

end Drv01

/-! ### The hard disk driver -/

namespace Drv08

/-- The direct read of a part of a transfer. -/
def sendCalls (x : Xfer) (n : ℕ) : List DirectCall :=
  if x.drive.pDesc.format = .MMC ∨ x.lba < x.drive.pDesc.lba_offset then []
  else [{ fp := x.drive.fSource, count := 512 * n }]

/-- The direct reads of READ SECTORS. -/
def readSectorsCalls (tfr : TaskFile) : ℕ → Xfer → List DirectCall
  | 0, _ => []
  | n + 1, x =>
    let first := x.first
    let x := (x.send [.stat statusRdy, .stat statusIrq]).count 1
    let x := if first then x else x.send [updateParams tfr x.p]
    sendCalls x 1 ++ readSectorsCalls tfr n (sendBlocks x 1).2

/-- The direct reads of a burst of READ MULTIPLE. -/
def readBurstCalls : ℕ → ℕ → Xfer → List DirectCall
  | 0, _, _ => []
  | fuel + 1, block_count, x =>
    if block_count = 0 then []
    else
      let n := min block_count maxReadBurst
      sendCalls x n ++ readBurstCalls fuel (block_count - (sendBlocks x n).1) (sendBlocks x n).2

/-- The direct reads of READ MULTIPLE. -/
def readMultipleCalls (tfr : TaskFile) : ℕ → ℕ → Xfer → List DirectCall
  | 0, _, _ => []
  | fuel + 1, sector_count, x =>
    if sector_count = 0 then []
    else
      let block_count := min sector_count x.drive.pDesc.sectors_per_block.toNat
      let x := (x.send [.stat statusIrq]).count block_count
      let x := x.send [updateParams tfr x.p]
      readBurstCalls block_count block_count x
        ++ readMultipleCalls tfr fuel (sector_count - block_count) (readBurst block_count block_count x)

/-- The direct reads of a read command, behind its seek. -/
def readCalls (card : Card) (pDrive : Drive) (tfr : TaskFile) (outs : List FChOut)
    (calls : ℕ → Xfer → List DirectCall) : Option (List DirectCall) :=
  let p := getParams tfr pDrive.pDesc
  match hardFileSeek pDrive (lbaNaked pDrive.pDesc p.lba) with
  | none => none
  | some (false, _) => some []
  | some (true, pDrive) => some (calls p.sector_count.toNat (startXfer card pDrive p outs))

/-- The direct reads of a command; `none` where it goes astray. -/
def directCalls (card : Card) (pDrive : Drive) (tfr : TaskFile) : Option (List DirectCall) :=
  if tfr 7 = 0x20 then readCalls card pDrive tfr [] (readSectorsCalls tfr)
  else if tfr 7 = 0xC4 then
    if pDrive.pDesc.sectors_per_block = 0 then some []
    else readCalls card pDrive tfr [.stat statusRdy] fun n => readMultipleCalls tfr n n
  else some []

/-- How many of the next `n` blocks come from the file. -/
def fromFile (x : Xfer) (n : ℕ) : ℕ :=
  x.lba.toNat + n - max x.lba.toNat x.drive.pDesc.lba_offset.toNat

/-- The file has room for the next `n` blocks. -/
def Room (x : Xfer) (n : ℕ) : Prop :=
  fromFile x n = 0 ∨ x.drive.fSource.fptr % 512 = 0 ∧
    x.drive.fSource.fptr + 512 * fromFile x n ≤ x.drive.fSource.objsize

/-- Two states of a transfer that send the same blocks. -/
structure SameRoom (x y : Xfer) : Prop where
  lba : y.lba = x.lba
  drive : y.drive = x.drive

theorem SameRoom.iff {x y : Xfer} (h : SameRoom x y) (n : ℕ) : Room y n ↔ Room x n := by
  unfold Room fromFile
  rw [h.lba, h.drive]

/-- A part of a transfer goes on: it has used up what it has sent. -/
structure GoesOn (x x' : Xfer) (i : ℕ) : Prop where
  lba : x'.lba.toNat = x.lba.toNat + i
  pDesc : x'.drive.pDesc = x.drive.pDesc
  sound : Sound x'.drive.fSource

/-- Blocks the driver makes up leave the file alone. -/
theorem sendBlocks_madeUp {x : Xfer} (hmmc : x.drive.pDesc.format ≠ .MMC)
    (hlt : x.lba < x.drive.pDesc.lba_offset) (n : ℕ) :
    (sendBlocks x n).1 = min n (x.drive.pDesc.lba_offset.toNat - x.lba.toNat) ∧
      (sendBlocks x n).2.lba = x.lba + (sendBlocks x n).1.toUInt32 ∧
      (sendBlocks x n).2.drive = x.drive := by
  have hsub : (x.drive.pDesc.lba_offset - x.lba).toNat = x.drive.pDesc.lba_offset.toNat - x.lba.toNat :=
    UInt32.toNat_sub_of_le _ _ (UInt32.le_of_lt hlt)
  rw [sendBlocks]
  simp only [if_neg hmmc, if_pos hlt, hsub]
  exact ⟨trivial, trivial, rfl⟩

/-- Blocks of the file are one read. -/
theorem sendBlocks_file {x : Xfer} (hmmc : x.drive.pDesc.format ≠ .MMC)
    (hge : ¬x.lba < x.drive.pDesc.lba_offset) (n : ℕ) :
    (sendBlocks x n).1 = n ∧ (sendBlocks x n).2.lba = x.lba + n.toUInt32 ∧
      (sendBlocks x n).2.drive
        = { x.drive with fSource := (FF_Read x.drive.fSource (512 * n)).2 } := by
  rw [sendBlocks]
  simp only [if_neg hmmc, if_neg hge]
  exact ⟨trivial, trivial, rfl⟩

theorem lba_add {lba : UInt32} {i : ℕ} (h : lba.toNat + i < 2 ^ 32) :
    (lba + i.toUInt32).toNat = lba.toNat + i := by
  rw [UInt32.toNat_add, show i.toUInt32.toNat = i from Nat.mod_eq_of_lt (by omega)]
  exact Nat.mod_eq_of_lt h

/-- A part of a transfer meets the preconditions, and leaves room for the rest, when there is room for
    both. -/
theorem sendBlocks_room {x : Xfer} (hmmc : x.drive.pDesc.format ≠ .MMC) (hs : Sound x.drive.fSource)
    {n : ℕ} (hn : 0 < n) (r : ℕ) (hb : x.lba.toNat + (n + r) < 2 ^ 32) :
    0 < (sendBlocks x n).1 ∧ (sendBlocks x n).1 ≤ n ∧
      ((∀ c ∈ sendCalls x n, c.Allowed) → GoesOn x (sendBlocks x n).2 (sendBlocks x n).1) ∧
      (Room x (n + r) ↔ (∀ c ∈ sendCalls x n, c.Allowed) ∧
        Room (sendBlocks x n).2 (n - (sendBlocks x n).1 + r)) := by
  by_cases hlt : x.lba < x.drive.pDesc.lba_offset
  · obtain ⟨hi, hlba, hdrive⟩ := sendBlocks_madeUp hmmc hlt n
    have hlt' := UInt32.lt_iff_toNat_lt.mp hlt
    have hcalls : sendCalls x n = [] := if_pos (Or.inr hlt)
    generalize sendBlocks x n = s at hi hlba hdrive
    have hlba' : s.2.lba.toNat = x.lba.toNat + s.1 := by
      rw [hlba]
      exact lba_add (by omega)
    refine ⟨by omega, by omega, fun _ => ⟨hlba', by rw [hdrive], by rw [hdrive]; exact hs⟩, ?_⟩
    have hroom : fromFile s.2 (n - s.1 + r) = fromFile x (n + r) := by
      rw [fromFile, fromFile, hlba', hdrive]
      omega
    unfold Room
    rw [hroom, hcalls, hdrive]
    exact ⟨fun h => ⟨fun c hc => absurd hc List.not_mem_nil, h⟩, fun h => h.2⟩
  · obtain ⟨hi, hlba, hdrive⟩ := sendBlocks_file hmmc hlt n
    have hge : x.drive.pDesc.lba_offset.toNat ≤ x.lba.toNat := by
      rw [UInt32.lt_iff_toNat_lt] at hlt
      omega
    have hcalls : sendCalls x n = [{ fp := x.drive.fSource, count := 512 * n }] :=
      if_neg (not_or.mpr ⟨hmmc, hlt⟩)
    generalize sendBlocks x n = s at hi hlba hdrive
    have hlba' : s.2.lba.toNat = x.lba.toNat + n := by
      rw [hlba]
      exact lba_add (by omega)
    have hall : fromFile x (n + r) = n + r := by
      rw [fromFile]
      omega
    rw [hcalls, hi]
    simp only [List.mem_singleton, forall_eq]
    refine ⟨hn, le_refl n, fun hc => ?_, ?_⟩
    · obtain ⟨-, -, hsound⟩ := read_moves hs hc.inside
      exact ⟨hlba', by rw [hdrive], by rw [hdrive]; exact hsound⟩
    · have hrest : fromFile s.2 (n - n + r) = r := by
        rw [fromFile, hlba', hdrive]
        show x.lba.toNat + n + (n - n + r) - max (x.lba.toNat + n) x.drive.pDesc.lba_offset.toNat = r
        omega
      unfold Room
      rw [hall, hrest]
      refine ⟨fun h => ?_, fun ⟨hc, h⟩ => ?_⟩
      · rcases h with h0 | ⟨hpos, hin⟩
        · omega
        · obtain ⟨hfptr, hsize, -⟩ := read_moves hs (show _ + 512 * n ≤ x.drive.fSource.objsize by omega)
          refine ⟨⟨hpos, Nat.mul_mod_right 512 n, ?_, ?_⟩, Or.inr ?_⟩
          · show x.drive.fSource.fptr + 512 ≤ x.drive.fSource.objsize
            omega
          · show x.drive.fSource.fptr + 512 * n ≤ x.drive.fSource.objsize
            omega
          · rw [hdrive]
            simp only
            rw [hfptr, hsize]
            omega
      · have hpos : x.drive.fSource.fptr % 512 = 0 := hc.position
        have hin : x.drive.fSource.fptr + 512 * n ≤ x.drive.fSource.objsize := hc.inside
        obtain ⟨hfptr, hsize, -⟩ := read_moves hs hin
        refine Or.inr ⟨hpos, ?_⟩
        rw [hdrive] at h
        simp only at h
        rw [hfptr, hsize] at h
        omega

/-- With room for all blocks, and only then, the direct reads of a loop are in order. -/
def LoopRoom (calls : ℕ → Xfer → List DirectCall) (n : ℕ) (x : Xfer) : Prop :=
  (∀ c ∈ calls n x, c.Allowed) ↔ Room x n

theorem room_zero (x : Xfer) : Room x 0 := by
  left
  rw [fromFile]
  omega

theorem readSectorsCalls_room (tfr : TaskFile) : ∀ (n : ℕ) {x : Xfer}, x.drive.pDesc.format ≠ .MMC →
    Sound x.drive.fSource → x.lba.toNat + n < 2 ^ 32 → LoopRoom (readSectorsCalls tfr) n x
  | 0, x, _, _, _ => ⟨fun _ => room_zero x, fun _ c hc => absurd hc List.not_mem_nil⟩
  | n + 1, x, hmmc, hs, hb => by
    rw [LoopRoom, readSectorsCalls]
    set y := (x.send [.stat statusRdy, .stat statusIrq]).count 1 with hy
    have hsame : SameRoom x (if x.first then y else y.send [updateParams tfr y.p]) := by
      split <;> exact ⟨rfl, rfl⟩
    generalize (if x.first then y else y.send [updateParams tfr y.p]) = z at hsame
    obtain ⟨hpos, hle, hon, hroom⟩ := sendBlocks_room (x := z) (by rw [hsame.drive]; exact hmmc)
      (by rw [hsame.drive]; exact hs) Nat.one_pos n (by rw [hsame.lba]; omega)
    have hone : (sendBlocks z 1).1 = 1 := by omega
    rw [hone] at hon hroom
    rw [← hsame.iff, Nat.add_comm n 1, hroom, List.forall_mem_append]
    refine and_congr_right fun hall => ?_
    have hgo := hon hall
    rw [show 1 - 1 + n = n by omega]
    refine readSectorsCalls_room tfr n ?_ hgo.sound ?_
    · rw [hgo.pDesc, hsame.drive]
      exact hmmc
    · rw [hgo.lba, hsame.lba]
      omega

theorem readBurstCalls_room : ∀ {fuel n : ℕ} (r : ℕ) {x : Xfer}, n ≤ fuel →
    x.drive.pDesc.format ≠ .MMC → Sound x.drive.fSource → x.lba.toNat + (n + r) < 2 ^ 32 →
    ((∀ c ∈ readBurstCalls fuel n x, c.Allowed) → GoesOn x (readBurst fuel n x) n) ∧
      (Room x (n + r) ↔ (∀ c ∈ readBurstCalls fuel n x, c.Allowed) ∧ Room (readBurst fuel n x) r)
  | 0, n, r, x, hn, _, hs, _ => by
    obtain rfl : n = 0 := Nat.le_zero.mp hn
    rw [Nat.zero_add]
    exact ⟨fun _ => ⟨rfl, rfl, hs⟩, fun h => ⟨fun c hc => absurd hc List.not_mem_nil, h⟩, fun h => h.2⟩
  | fuel + 1, n, r, x, hn, hmmc, hs, hb => by
    rw [readBurstCalls, readBurst]
    by_cases h0 : n = 0
    · subst h0
      rw [if_pos rfl, if_pos rfl, Nat.zero_add]
      exact ⟨fun _ => ⟨rfl, rfl, hs⟩, fun h => ⟨fun c hc => absurd hc List.not_mem_nil, h⟩,
        fun h => h.2⟩
    · rw [if_neg h0, if_neg h0]
      simp only
      have hm : 0 < min n maxReadBurst := lt_min (Nat.pos_of_ne_zero h0) (by decide)
      have hmn : min n maxReadBurst ≤ n := Nat.min_le_left _ _
      generalize min n maxReadBurst = m at hm hmn
      obtain ⟨hpos, hle, hon, hroom⟩ := sendBlocks_room hmmc hs hm (n - m + r) (by omega)
      rw [show m + (n - m + r) = n + r by omega] at hroom
      rw [hroom, List.forall_mem_append, and_assoc]
      generalize sendBlocks x m = s at hpos hle hon
      have hrest : (∀ c ∈ sendCalls x m, c.Allowed) →
          ((∀ c ∈ readBurstCalls fuel (n - s.1) s.2, c.Allowed) →
            GoesOn s.2 (readBurst fuel (n - s.1) s.2) (n - s.1)) ∧
          (Room s.2 (n - s.1 + r) ↔ (∀ c ∈ readBurstCalls fuel (n - s.1) s.2, c.Allowed) ∧
            Room (readBurst fuel (n - s.1) s.2) r) := by
        intro hall
        have hgo := hon hall
        refine readBurstCalls_room r (by omega) ?_ hgo.sound ?_
        · rw [hgo.pDesc]
          exact hmmc
        · rw [hgo.lba]
          omega
      refine ⟨?_, and_congr_right fun hall => ?_⟩
      · rintro ⟨hall, hall'⟩
        have hgo := hon hall
        have hgo' := (hrest hall).1 hall'
        refine ⟨?_, hgo'.pDesc.trans hgo.pDesc, hgo'.sound⟩
        rw [hgo'.lba, hgo.lba]
        omega
      · rw [show m - s.1 + (n - m + r) = n - s.1 + r by omega]
        exact (hrest hall).2

theorem readMultipleCalls_room (tfr : TaskFile) : ∀ {fuel n : ℕ} {x : Xfer}, n ≤ fuel →
    x.drive.pDesc.sectors_per_block ≠ 0 → x.drive.pDesc.format ≠ .MMC → Sound x.drive.fSource →
    x.lba.toNat + n < 2 ^ 32 → LoopRoom (readMultipleCalls tfr fuel) n x
  | 0, n, x, hn, _, _, _, _ => by
    obtain rfl : n = 0 := Nat.le_zero.mp hn
    exact ⟨fun _ => room_zero x, fun _ c hc => absurd hc List.not_mem_nil⟩
  | fuel + 1, n, x, hn, hspb, hmmc, hs, hb => by
    rw [LoopRoom, readMultipleCalls]
    by_cases h0 : n = 0
    · subst h0
      rw [if_pos rfl]
      exact ⟨fun _ => room_zero x, fun _ c hc => absurd hc List.not_mem_nil⟩
    · rw [if_neg h0]
      simp only
      have hspb' : 0 < x.drive.pDesc.sectors_per_block.toNat :=
        Nat.pos_of_ne_zero fun hz => hspb (UInt16.toNat_inj.mp hz)
      set i := min n x.drive.pDesc.sectors_per_block.toNat with hi
      set y := (x.send [.stat statusIrq]).count i with hy
      have hsame : SameRoom x (y.send [updateParams tfr y.p]) := ⟨rfl, rfl⟩
      generalize y.send [updateParams tfr y.p] = z at hsame
      obtain ⟨hon, hroom⟩ := readBurstCalls_room (n - i) (x := z) (le_refl i)
        (by rw [hsame.drive]; exact hmmc) (by rw [hsame.drive]; exact hs) (by rw [hsame.lba]; omega)
      rw [← hsame.iff, show n = i + (n - i) by omega, hroom, List.forall_mem_append,
        show i + (n - i) - i = n - i by omega]
      refine and_congr_right fun hall => ?_
      have hgo := hon hall
      refine readMultipleCalls_room tfr (by omega) ?_ ?_ hgo.sound ?_
      · rw [hgo.pDesc, hsame.drive]
        exact hspb
      · rw [hgo.pDesc, hsame.drive]
        exact hmmc
      · rw [hgo.lba, hsame.lba]
        omega

/-- Where the seek of a file unit ends up. -/
theorem hardFileSeek_sought {d : Drive} {lba : UInt32} (hmmc : d.pDesc.format ≠ .MMC)
    (hnaked : ¬(d.pDesc.format = .HDF_NAKED ∧ lba < d.pDesc.lba_offset))
    (hindexed : Indexed d.pDesc lba) (hsize : 16 ≤ d.pDesc.index_size.toNat) (hs : Sound d.fSource) :
    ∃ d', hardFileSeek d lba = some (true, d') ∧ Sound d'.fSource ∧
      d'.pDesc.format = d.pDesc.format ∧ d'.pDesc.lba_offset = d.pDesc.lba_offset ∧
      d'.pDesc.sectors_per_block = d.pDesc.sectors_per_block ∧
      (512 * (fileLba d.pDesc lba).toNat ≤ d.fSource.objsize →
        d'.fSource.fptr = 512 * (fileLba d.pDesc lba).toNat ∧ d'.fSource.objsize = d.fSource.objsize) ∧
      (d.fSource.objsize < 512 * (fileLba d.pDesc lba).toNat →
        d'.fSource.objsize ≤ d'.fSource.fptr) := by
  obtain ⟨hidx, hstep⟩ := hindexed
  have hstart : Sought d.fSource (seekStart d (fileLba d.pDesc lba)).1
      (512 * (fileLba d.pDesc lba).toNat) := by
    refine @seekStart_file (Sought d.fSource · (512 * (fileLba d.pDesc lba).toNat)) d _ hsize hstep
      (fun fp p c h => h.moveTo p c) (fun fp a ha h => ?_) (Sought.refl _ _)
    obtain ⟨hseek, -⟩ := seek_sought (hs.sought h) a
    refine h.trans ⟨hseek.same, hseek.readable, ?_⟩
    rcases hseek.size with hsz | ⟨hw, hlo, hhi⟩
    · exact Or.inl hsz
    · exact Or.inr ⟨hw, hlo, by omega⟩
  have hs' := hs.sought hstart
  obtain ⟨hseek, hok, hin, hout⟩ := seek_sought hs' (512 * (fileLba d.pDesc lba).toNat)
  have hall := hstart.trans hseek
  rw [hardFileSeek]
  simp only
  rw [if_neg hmmc, if_neg hnaked, if_neg (by omega), hok]
  have hstartsize := hstart.size
  have hallsize := hall.size
  refine ⟨_, rfl, hs'.sought hseek, rfl, rfl, rfl, fun hle => ⟨hin (by omega), ?_⟩, fun hlt => ?_⟩
  · show (FF_Seek _ _).2.objsize = _
    omega
  · show (FF_Seek _ _).2.objsize ≤ (FF_Seek _ _).2.fptr
    rcases Nat.lt_or_ge (seekStart d (fileLba d.pDesc lba)).1.objsize (512 * (fileLba d.pDesc lba).toNat)
      with h | h
    · exact hout h
    · rw [hin h]
      omega

/-- A unit whose file no error stops. -/
structure Unbroken (d : Drive) : Prop where
  err : d.fSource.err = false
  readable : d.fSource.cap ≤ d.fSource.readable

/-- A read command on a file has an entry for its first block, and all its blocks lie in the file. -/
def ReadsInFile (d : Drive) (tfr : TaskFile) : Prop :=
  tfr 7 = 0x20 ∨ tfr 7 = 0xC4 ∧ d.pDesc.sectors_per_block ≠ 0 → d.pDesc.format ≠ .MMC →
    let p := getParams tfr d.pDesc
    Indexed d.pDesc (lbaNaked d.pDesc p.lba) ∧
      512 * (p.lba.toNat + p.sector_count.toNat - d.pDesc.lba_offset.toNat) ≤ d.fSource.objsize

/-- Only a block number far from the end has an entry in the index. -/
theorem Indexed.add_lt {pDesc : Desc} {lba : UInt32} (h : Indexed pDesc lba)
    (hoff : pDesc.lba_offset.toNat ≤ 2 ^ 16) (hsize : 16 ≤ pDesc.index_size.toNat)
    (hle : pDesc.format = .HDF_NAKED → pDesc.lba_offset ≤ lba) : lba.toNat + 256 < 2 ^ 32 := by
  obtain ⟨hidx, hstep⟩ := h
  rw [indexOf_eq_mod hsize (by omega)] at hidx
  have hlba : lba.toNat ≤ (fileLba pDesc lba).toNat + 2 ^ 16 := by
    rw [fileLba]
    split
    · next hf =>
      rw [UInt32.toNat_sub_of_le _ _ (hle hf)]
      omega
    · omega
  have hlt := (fileLba pDesc lba).toNat_lt
  generalize (fileLba pDesc lba).toNat = x at hidx hlba hlt
  generalize pDesc.index_size.toNat = s at hidx hsize hstep
  by_contra hge
  interval_cases s <;> omega

/-- The direct reads of a read command are in order when its blocks lie in the file. -/
theorem readCalls_iff {card : Card} {d : Drive} {tfr : TaskFile} (outs : List FChOut)
    {calls : ℕ → Xfer → List DirectCall} (hm : Mounted .file d) (hu : Unbroken d)
    (hcalls : ∀ {n : ℕ} {x : Xfer}, x.drive.pDesc.sectors_per_block = d.pDesc.sectors_per_block →
      x.drive.pDesc.format ≠ .MMC → Sound x.drive.fSource → x.lba.toNat + n < 2 ^ 32 →
      LoopRoom calls n x) :
    (∃ cs, readCalls card d tfr outs calls = some cs ∧ ∀ c ∈ cs, c.Allowed) ↔
      Indexed d.pDesc (lbaNaked d.pDesc (getParams tfr d.pDesc).lba) ∧
        512 * ((getParams tfr d.pDesc).lba.toNat + (getParams tfr d.pDesc).sector_count.toNat
          - d.pDesc.lba_offset.toNat) ≤ d.fSource.objsize := by
  obtain ⟨hmmc, hoff, hofflt, hseekable⟩ := hm
  have hseek := hseekable hu.err
  have hsound : Sound d.fSource := ⟨hseek.ok.csize_pos, hseek.ok.size_le, hu.err, hu.readable⟩
  have hn := getParams_count tfr d.pDesc
  rw [readCalls]
  generalize getParams tfr d.pDesc = p at hn ⊢
  have hnaked : ¬(d.pDesc.format = .HDF_NAKED ∧ lbaNaked d.pDesc p.lba < d.pDesc.lba_offset) := by
    rintro ⟨-, hlt⟩
    rw [lbaNaked] at hlt
    split at hlt
    · exact absurd hlt (UInt32.lt_irrefl _)
    · next hge => exact hge hlt
  by_cases hindexed : Indexed d.pDesc (lbaNaked d.pDesc p.lba)
  · obtain ⟨d', heq, hs', hformat, hoff', hspb, hin, hout⟩ :=
      hardFileSeek_sought hmmc hnaked hindexed hseek.index_size hsound
    rw [fileLba_lbaNaked hoff] at hin hout
    have hb : p.lba.toNat + p.sector_count.toNat < 2 ^ 32 := by
      have hlt := hindexed.add_lt hofflt hseek.index_size fun _ => ?_
      · rw [lbaNaked] at hlt
        split at hlt
        · next hlow =>
          have := UInt32.lt_iff_toNat_lt.mp hlow
          omega
        · omega
      · rw [lbaNaked]
        split
        · exact UInt32.le_refl _
        · next hge => exact UInt32.not_lt.mp hge
    have hroom : LoopRoom calls p.sector_count.toNat (startXfer card d' p outs) :=
      hcalls hspb (by rw [startXfer, hformat]; exact hmmc) hs' hb
    have hfrom : fromFile (startXfer card d' p outs) p.sector_count.toNat
        = p.lba.toNat + p.sector_count.toNat - max p.lba.toNat d.pDesc.lba_offset.toNat := by
      rw [fromFile, startXfer, hoff']
    rw [heq]
    simp only [Option.some.injEq, exists_eq_left', hindexed, true_and]
    refine Iff.trans hroom ?_
    rw [Room, hfrom]
    show _ ∨ d'.fSource.fptr % 512 = 0 ∧ d'.fSource.fptr + 512 * _ ≤ d'.fSource.objsize ↔ _
    rcases Nat.lt_or_ge d.fSource.objsize (512 * (p.lba.toNat - d.pDesc.lba_offset.toNat)) with h | h
    · have hend := hout h
      omega
    · obtain ⟨hfptr, hsize⟩ := hin h
      omega
  · have hnone : hardFileSeek d (lbaNaked d.pDesc p.lba) = none := by
      rw [hardFileSeek]
      simp only
      rw [if_neg hmmc, if_neg hnaked, if_pos]
      by_contra hno
      exact hindexed ⟨by omega, by omega⟩
    rw [hnone]
    refine ⟨?_, fun h => absurd h.1 hindexed⟩
    rintro ⟨_, h, _⟩
    cases h

/-- A unit on the card makes no direct read of a file. -/
theorem sendBlocks_card {x : Xfer} (hmmc : x.drive.pDesc.format = .MMC) (n : ℕ) :
    sendCalls x n = [] ∧ (sendBlocks x n).2.drive = x.drive := by
  rw [sendBlocks, sendCalls, if_pos (Or.inl hmmc)]
  simp only [if_pos hmmc]
  exact ⟨trivial, rfl⟩

theorem readSectorsCalls_card (tfr : TaskFile) : ∀ (n : ℕ) {x : Xfer}, x.drive.pDesc.format = .MMC →
    readSectorsCalls tfr n x = []
  | 0, _, _ => rfl
  | n + 1, x, hmmc => by
    rw [readSectorsCalls]
    set y := (x.send [.stat statusRdy, .stat statusIrq]).count 1 with hy
    have hdrive : (if x.first then y else y.send [updateParams tfr y.p]).drive = x.drive := by
      split <;> rfl
    generalize (if x.first then y else y.send [updateParams tfr y.p]) = z at hdrive
    obtain ⟨hcalls, hnext⟩ := @sendBlocks_card z (by rw [hdrive]; exact hmmc) 1
    rw [hcalls, List.nil_append]
    exact readSectorsCalls_card tfr n (by rw [hnext, hdrive]; exact hmmc)

theorem readBurstCalls_card : ∀ (fuel n : ℕ) {x : Xfer}, x.drive.pDesc.format = .MMC →
    readBurstCalls fuel n x = [] ∧ (readBurst fuel n x).drive = x.drive
  | 0, _, _, _ => ⟨rfl, rfl⟩
  | fuel + 1, n, x, hmmc => by
    rw [readBurstCalls, readBurst]
    split
    · exact ⟨rfl, rfl⟩
    · obtain ⟨hcalls, hnext⟩ := sendBlocks_card hmmc (min n maxReadBurst)
      have ih := readBurstCalls_card fuel (n - (sendBlocks x (min n maxReadBurst)).1)
        (x := (sendBlocks x (min n maxReadBurst)).2) (by rw [hnext]; exact hmmc)
      simp only
      rw [hcalls, List.nil_append]
      exact ⟨ih.1, ih.2.trans hnext⟩

theorem readMultipleCalls_card (tfr : TaskFile) : ∀ (fuel n : ℕ) {x : Xfer},
    x.drive.pDesc.format = .MMC → readMultipleCalls tfr fuel n x = []
  | 0, _, _, _ => rfl
  | fuel + 1, n, x, hmmc => by
    rw [readMultipleCalls]
    split
    · rfl
    · simp only
      set i := min n x.drive.pDesc.sectors_per_block.toNat
      set y := (x.send [.stat statusIrq]).count i
      obtain ⟨hcalls, hnext⟩ := readBurstCalls_card i i (x := y.send [updateParams tfr y.p]) hmmc
      rw [hcalls, List.nil_append]
      exact readMultipleCalls_card tfr fuel (n - i) (by rw [hnext]; exact hmmc)

/-- All direct reads of a command are in order when its blocks lie in the file. -/
theorem directCalls_iff {e : Extent} {card : Card} {d : Drive} {tfr : TaskFile} (hm : Mounted e d)
    (hu : d.pDesc.format ≠ .MMC → Unbroken d) :
    (∃ cs, directCalls card d tfr = some cs ∧ ∀ c ∈ cs, c.Allowed) ↔ ReadsInFile d tfr := by
  have hnone : ∃ cs, (some [] : Option (List DirectCall)) = some cs ∧ ∀ c ∈ cs, c.Allowed :=
    ⟨[], rfl, fun c hc => absurd hc List.not_mem_nil⟩
  unfold ReadsInFile
  rw [directCalls]
  by_cases hmmc : d.pDesc.format = .MMC
  · have hseek : hardFileSeek d (lbaNaked d.pDesc (getParams tfr d.pDesc).lba) = some (true, d) := by
      rw [hardFileSeek]
      simp only [if_pos hmmc]
    have hcard : ∀ outs (calls : ℕ → Xfer → List DirectCall),
        (∀ n x, x.drive.pDesc.format = .MMC → calls n x = []) →
        readCalls card d tfr outs calls = some [] := by
      intro outs calls hcalls
      rw [readCalls, hseek]
      exact congrArg some (hcalls _ _ hmmc)
    refine ⟨fun _ _ hne => absurd hmmc hne, fun _ => ?_⟩
    rw [hcard _ _ fun n _ => readSectorsCalls_card tfr n,
      hcard _ _ fun n _ => readMultipleCalls_card tfr n n]
    split
    · exact hnone
    · split
      · split <;> exact hnone
      · exact hnone
  · have hfile : Mounted .file d := by
      cases e with
      | file => exact hm
      | partition lba_start num_sectors => exact absurd hm.1 hmmc
      | wholeCard => exact absurd hm.1 hmmc
    have hu := hu hmmc
    by_cases h20 : tfr 7 = 0x20
    · rw [if_pos h20]
      refine (readCalls_iff [] hfile hu fun _ => readSectorsCalls_room tfr _).trans ?_
      exact ⟨fun h _ _ => h, fun h => h (Or.inl h20) hmmc⟩
    · rw [if_neg h20]
      by_cases hC4 : tfr 7 = 0xC4
      · rw [if_pos hC4]
        by_cases hspb : d.pDesc.sectors_per_block = 0
        · rw [if_pos hspb]
          refine ⟨fun _ h => ?_, fun _ => hnone⟩
          rcases h with h | h
          · exact absurd h h20
          · exact absurd hspb h.2
        · rw [if_neg hspb]
          have hcalls := @readCalls_iff card d tfr [.stat statusRdy]
            (fun n => readMultipleCalls tfr n n) hfile hu fun hsame =>
            readMultipleCalls_room tfr (le_refl _) (by rw [hsame]; exact hspb)
          refine hcalls.trans ?_
          exact ⟨fun h _ _ => h, fun h => h (Or.inr ⟨hC4, hspb⟩) hmmc⟩
      · rw [if_neg hC4]
        refine ⟨fun _ h => ?_, fun _ => hnone⟩
        rcases h with h | h
        · exact absurd h h20
        · exact absurd h.1 hC4

/-! ### What the calls send -/

/-- The direct read of a part of a transfer is what is sent straight from the card. -/
theorem sendBlocks_directs {x : Xfer} (hmmc : x.drive.pDesc.format ≠ .MMC) (n : ℕ) :
    directs (sendBlocks x n).2.outs = directs x.outs ++ (sendCalls x n).map DirectCall.sent ∧
      (sendBlocks x n).2.drive.pDesc = x.drive.pDesc := by
  rw [sendBlocks, sendCalls]
  by_cases hlt : x.lba < x.drive.pDesc.lba_offset
  · simp only [if_neg hmmc, hlt, or_true, if_true]
    refine ⟨?_, rfl⟩
    show directs (x.outs ++ _) = _
    rw [directs_append]
    refine congrArg _ ?_
    generalize List.range _ = ks
    induction ks with
    | nil => rfl
    | cons k ks ih => exact ih
  · simp only [hlt, hmmc, or_self, if_false]
    exact ⟨directs_append _ _, rfl⟩

theorem readSectorsLoop_directs (tfr : TaskFile) : ∀ (n : ℕ) {x : Xfer},
    x.drive.pDesc.format ≠ .MMC → directs (readSectorsLoop tfr n x).outs
      = directs x.outs ++ (readSectorsCalls tfr n x).map DirectCall.sent
  | 0, _, _ => (List.append_nil _).symm
  | n + 1, x, hmmc => by
    rw [readSectorsLoop, readSectorsCalls]
    set y := (x.send [.stat statusRdy, .stat statusIrq]).count 1 with hy
    have hsent : directs (if x.first then y else y.send [updateParams tfr y.p]).outs = directs x.outs ∧
        (if x.first then y else y.send [updateParams tfr y.p]).drive = x.drive := by
      have hstat : directs y.outs = directs x.outs := (directs_append _ _).trans (List.append_nil _)
      split
      · exact ⟨hstat, rfl⟩
      · exact ⟨((directs_append _ _).trans (List.append_nil _)).trans hstat, rfl⟩
    generalize (if x.first then y else y.send [updateParams tfr y.p]) = z at hsent
    obtain ⟨hnext, hdesc⟩ := @sendBlocks_directs z (by rw [hsent.2]; exact hmmc) 1
    rw [List.map_append, ← List.append_assoc, ← hsent.1, ← hnext]
    exact readSectorsLoop_directs tfr n (by rw [hdesc, hsent.2]; exact hmmc)

theorem readBurst_directs : ∀ (fuel n : ℕ) {x : Xfer}, x.drive.pDesc.format ≠ .MMC →
    directs (readBurst fuel n x).outs
        = directs x.outs ++ (readBurstCalls fuel n x).map DirectCall.sent ∧
      (readBurst fuel n x).drive.pDesc = x.drive.pDesc
  | 0, _, _, _ => ⟨(List.append_nil _).symm, rfl⟩
  | fuel + 1, n, x, hmmc => by
    rw [readBurst, readBurstCalls]
    split
    · exact ⟨(List.append_nil _).symm, rfl⟩
    · obtain ⟨hnext, hdesc⟩ := sendBlocks_directs hmmc (min n maxReadBurst)
      have ih := readBurst_directs fuel (n - (sendBlocks x (min n maxReadBurst)).1)
        (x := (sendBlocks x (min n maxReadBurst)).2) (by rw [hdesc]; exact hmmc)
      simp only
      rw [List.map_append, ← List.append_assoc, ← hnext]
      exact ⟨ih.1, ih.2.trans hdesc⟩

theorem readMultipleLoop_directs (tfr : TaskFile) : ∀ (fuel n : ℕ) {x : Xfer},
    x.drive.pDesc.format ≠ .MMC → directs (readMultipleLoop tfr fuel n x).outs
      = directs x.outs ++ (readMultipleCalls tfr fuel n x).map DirectCall.sent
  | 0, _, _, _ => (List.append_nil _).symm
  | fuel + 1, n, x, hmmc => by
    rw [readMultipleLoop, readMultipleCalls]
    split
    · exact (List.append_nil _).symm
    · simp only
      set i := min n x.drive.pDesc.sectors_per_block.toNat
      set y := (x.send [.stat statusIrq]).count i with hy
      have hstat : directs (y.send [updateParams tfr y.p]).outs = directs x.outs :=
        ((directs_append _ _).trans (List.append_nil _)).trans
          ((directs_append _ _).trans (List.append_nil _))
      obtain ⟨hnext, hdesc⟩ := readBurst_directs i i (x := y.send [updateParams tfr y.p]) hmmc
      rw [List.map_append, ← List.append_assoc, ← hstat, ← hnext]
      exact readMultipleLoop_directs tfr fuel (n - i) (by rw [hdesc]; exact hmmc)

end Drv08

/-! ### All three -/

/-- A request to a driver that reads straight from the card, with what the driver finds. -/
inductive DirectReader where
  | drv00 (handle : Fin 4 → Fch Drv00.Desc) (fbuf : ℕ → UInt8) (rq : Request) (stall : ℕ → Bool)
  | drv01 (p : Drv01.Proc) (rq : Request)
  | drv08 (e : Drv08.Extent) (card : Card) (pDrive : Drv08.Drive) (tfr : Drv08.TaskFile)

/-- Its direct reads; `none` where a seek goes astray. -/
def DirectReader.calls : DirectReader → Option (List DirectCall)
  | .drv00 handle fbuf rq stall => some (Drv00.directCalls handle fbuf rq stall)
  | .drv01 p rq => some (Drv01.directCalls p rq)
  | .drv08 _ card pDrive tfr => Drv08.directCalls card pDrive tfr

/-- The drives are in order, and no error stops their files. -/
def DirectReader.Fit : DirectReader → Prop
  | .drv00 handle _ _ _ => ∀ i, Healthy (handle i).fSource
  | .drv01 p _ => ∀ i, Healthy (p.chan.handle i).fSource
  | .drv08 e _ pDrive _ => Drv08.Mounted e pDrive ∧
      (pDrive.pDesc.format ≠ .MMC → Drv08.Unbroken pDrive)

/-- Every call meets what `FF_ReadDirect` asserts and stays inside the file. -/
def DirectReader.AllAllowed (r : DirectReader) : Prop := ∃ cs, r.calls = some cs ∧ ∀ c ∈ cs, c.Allowed

/-- What is asked for lies in the file, as far as it is read straight from the card. -/
def DirectReader.InFile : DirectReader → Prop
  | .drv00 handle _ rq stall => Drv00.ReadsInFile handle rq stall
  | .drv01 p rq => Drv01.FluxInFile p rq
  | .drv08 _ _ pDrive tfr => Drv08.ReadsInFile pDrive tfr

theorem allAllowed_iff_inFile (r : DirectReader) (h : r.Fit) : r.AllAllowed ↔ r.InFile := by
  unfold DirectReader.AllAllowed
  cases r with
  | drv00 handle fbuf rq stall =>
    rw [DirectReader.InFile, ← Drv00.directCalls_iff (h _) fbuf]
    exact ⟨fun ⟨cs, hcs, hall⟩ => Option.some.inj hcs ▸ hall, fun hall => ⟨_, rfl, hall⟩⟩
  | drv01 p rq =>
    rw [DirectReader.InFile, ← Drv01.directCalls_iff (h _)]
    exact ⟨fun ⟨cs, hcs, hall⟩ => Option.some.inj hcs ▸ hall, fun hall => ⟨_, rfl, hall⟩⟩
  | drv08 e card pDrive tfr => exact Drv08.directCalls_iff h.1 h.2

/-- A read from the start of the file of 1000 bytes, in any drive. -/
def thousands (lo hi : UInt8) : DirectReader :=
  .drv00 (fun _ => Drv00.thousand.pDrive) (fun _ => 0) (Drv00.readTo lo hi) fun _ => false

theorem thousands_fit (lo hi : UInt8) : (thousands lo hi).Fit := by
  have hfile : Healthy Drv00.thousand.pDrive.fSource :=
    ⟨f_open_ok _ _, rfl, by decide, by decide⟩
  exact fun _ => hfile

/-- The size of the file behind the seek. -/
theorem thousands_size (lo hi : UInt8) :
    (FF_Seek Drv00.thousand.pDrive.fSource (Drv00.reqAddr (Drv00.readTo lo hi)).toNat).2.objsize
      = 1000 := by
  have haddr : Drv00.reqAddr (Drv00.readTo lo hi) = 0 := by
    show (0 : UInt8).toUInt32 ||| (0 : UInt8).toUInt32 <<< 8 ||| (0 : UInt8).toUInt32 <<< 16
      ||| (0 : UInt8).toUInt32 <<< 24 = 0
    decide
  rw [haddr]
  exact List.length_replicate

/-- Its first sector may be read. -/
theorem thousands_first_allowed : (thousands 0x00 0x02).AllAllowed := by
  refine (allAllowed_iff_inFile (thousands 0x00 0x02) (thousands_fit _ _)).mpr ?_
  show Drv00.ReadsInFile (fun _ => Drv00.thousand.pDrive) (Drv00.readTo 0x00 0x02) fun _ => false
  have hreq : (Drv00.reqAddr (Drv00.readTo 0x00 0x02)).toNat = 0 ∧
      (Drv00.reqSize (Drv00.readTo 0x00 0x02)).toNat = 512 := by
    decide
  intro _ _
  rw [thousands_size, hreq.1, hreq.2, Drv00.BurstInFile, if_neg (by decide)]
  exact fun _ _ => by decide

/-- Two sectors may not. -/
theorem thousands_not_allowed : ¬∀ r : DirectReader, r.Fit → r.AllAllowed := by
  intro h
  obtain ⟨cs, hcs, hall⟩ := h _ (thousands_fit 0x00 0x04)
  have hcount : (Drv00.directCalls (fun _ => Drv00.thousand.pDrive) (fun _ => 0)
      (Drv00.readTo 0x00 0x04) fun _ => false).map (fun c => (c.fp.fptr, c.count, c.fp.objsize))
      = [(0, 1024, 1000)] := by
    decide +kernel
  rw [Option.some.inj hcs] at hcount
  obtain ⟨c, hc, heq⟩ := List.mem_map.mp (hcount ▸ List.mem_cons_self : (0, 1024, 1000) ∈ cs.map _)
  have hin := (hall c hc).inside
  simp only [Prod.mk.injEq] at heq
  omega

end FileIO
