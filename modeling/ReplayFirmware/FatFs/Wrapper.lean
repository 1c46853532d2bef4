import ReplayFirmware.FatFs.File

/-! The firmware's `FF_` calls on a file, over FatFs.

    A file is opened at its top; `rest` is what a reader still gets from it, and `f_gets` takes the
    first line of that. A line is put over whatever its buffer held before, so a short line leaves
    the tail of an earlier one behind its terminator. -/

namespace FatFs

/-- A file on the volume. -/
structure File where
  data : List UInt8
  slack : ℕ → UInt8
  cap : ℕ
  csize : ℕ
  readable : ℕ
  size_le : data.length ≤ cap
  csize_pos : 0 < csize

theorem sector_pos : 0 < 512 := by decide

/-- `f_open` of an existing file, with or without `FA_WRITE`. -/
def f_open (file : File) (write : Bool) : FIL :=
  { data := file.data, slack := file.slack, cap := file.cap, csize := file.csize, write := write
    readable := file.readable, err := false, fptr := 0, clust := 0 }

theorem f_open_ok (file : File) (write : Bool) : (f_open file write).Ok :=
  ⟨Nat.zero_le _, file.size_le, file.csize_pos, fun h => absurd h (lt_irrefl 0)⟩

def FF_Size (fp : FIL) : ℕ := fp.objsize

/-- `FF_BytesLeft`: a difference of 64 bits, cut to a signed number. -/
def FF_BytesLeft (fp : FIL) : Int32 := (UInt32.ofNat (fp.objsize - fp.fptr)).toInt32

def FF_isEOF (fp : FIL) : Bool := fp.fptr = fp.objsize

def FF_Read (fp : FIL) (count : ℕ) : List UInt8 × FIL := f_read fp count

/-- `FF_ReadDirect`: what goes straight to the core, and how many bytes count as read. There is no
    buffer, so only whole sectors go; the bytes in front of the first one and behind the last one
    are counted and copied to address 0. -/
def FF_ReadDirect (fp : FIL) (count : ℕ) : List UInt8 × ℕ × FIL :=
  let (bs, fp') := FF_Read fp count
  let skip := (512 - fp.fptr % 512) % 512
  ((bs.drop skip).take ((bs.length - skip) / 512 * 512), bs.length, fp')

def FF_Write (fp : FIL) (bs : List UInt8) : ℕ × FIL := f_write fp bs

/-- `FF_Seek` from the start of the file: nothing happens when the position is there already. -/
def FF_Seek (fp : FIL) (ofs : ℕ) : FRESULT × FIL :=
  if ofs = fp.fptr then (.ok, fp) else f_lseek fp ofs

/-! ### Seeks and writes inside the file -/

theorem FF_Seek_ok {fp : FIL} (h : fp.Ok) (ofs : ℕ) : (FF_Seek fp ofs).2.Ok := by
  unfold FF_Seek
  split
  · exact h
  · exact f_lseek_ok h ofs

/-- A seek inside a healthy file changes the position alone. -/
theorem FF_Seek_in {fp : FIL} (h : fp.Ok) (he : fp.err = false) {ofs : ℕ} (hle : ofs ≤ fp.objsize) :
    ∃ clust, FF_Seek fp ofs = (.ok, { fp with fptr := ofs, clust := clust }) := by
  unfold FF_Seek
  by_cases hpos : ofs = fp.fptr
  · exact ⟨fp.clust, by rw [if_pos hpos, hpos]⟩
  · refine ⟨if ofs = 0 then fp.clust else (ofs - 1) / fp.csize, ?_⟩
    have he : ¬fp.err = true := by rw [he]; decide
    rw [if_neg hpos, f_lseek_eq h, h.target_eq hle, if_neg he, FIL.seeked, FIL.extend_of_le hle]

/-- A seek on an aborted object does nothing. -/
theorem FF_Seek_aborted {fp : FIL} (he : fp.err = true) (ofs : ℕ) : (FF_Seek fp ofs).2 = fp := by
  unfold FF_Seek
  split
  · rfl
  · rw [f_lseek, if_pos he]

/-- Wherever it goes, a seek keeps the open mode and cuts nothing off. -/
theorem FF_Seek_kept (fp : FIL) (ofs : ℕ) :
    (FF_Seek fp ofs).2.write = fp.write ∧ fp.objsize ≤ (FF_Seek fp ofs).2.objsize := by
  unfold FF_Seek
  split
  · exact ⟨rfl, le_refl _⟩
  · refine ⟨?_, ?_⟩
    · unfold f_lseek
      split
      · rfl
      · simp only
        split <;> rfl
    · rw [FIL.objsize, FIL.objsize, f_lseek_data]
      split
      · exact le_refl _
      · rw [FIL.length_extend]
        exact le_max_left _ _

/-- What no call on a file changes: its volume, its open mode, and, once it is aborted, its bytes. -/
structure SameFile (fp fp' : FIL) : Prop where
  err : fp'.err = fp.err
  write : fp'.write = fp.write
  cap : fp'.cap = fp.cap
  csize : fp'.csize = fp.csize
  data : fp.err = true → fp'.data = fp.data

theorem SameFile.refl (fp : FIL) : SameFile fp fp := ⟨rfl, rfl, rfl, rfl, fun _ => rfl⟩

theorem SameFile.trans {fp fp' fp'' : FIL} (h : SameFile fp fp') (h' : SameFile fp' fp'') :
    SameFile fp fp'' :=
  ⟨h'.err.trans h.err, h'.write.trans h.write, h'.cap.trans h.cap, h'.csize.trans h.csize,
    fun he => (h'.data (h.err.trans he)).trans (h.data he)⟩

/-- A seek fails only on an aborted object that does not stand there already; on any other it goes
    where the open mode and the volume let it. -/
theorem FF_Seek_cases (fp : FIL) (ofs : ℕ) :
    SameFile fp (FF_Seek fp ofs).2 ∧ ((FF_Seek fp ofs).1 = .ok ↔ fp.err = false ∨ fp.fptr = ofs) ∧
      (fp.err = false → (FF_Seek fp ofs).2.fptr = ofs ∨ (FF_Seek fp ofs).2.fptr = fp.target ofs) := by
  rw [FF_Seek]
  by_cases hpos : ofs = fp.fptr
  · rw [if_pos hpos]
    exact ⟨SameFile.refl fp, ⟨fun _ => Or.inr hpos.symm, fun _ => rfl⟩, fun _ => Or.inl hpos.symm⟩
  · rw [if_neg hpos, f_lseek]
    by_cases herr : fp.err = true
    · rw [if_pos herr]
      refine ⟨SameFile.refl fp, ⟨fun h => FRESULT.noConfusion h, fun h => ?_⟩, fun h => ?_⟩
      · rcases h with h | h
        · exact absurd herr (by rw [h]; decide)
        · exact absurd h.symm hpos
      · exact absurd herr (by rw [h]; decide)
    · have hf : fp.err = false := Bool.eq_false_of_not_eq_true herr
      rw [if_neg herr]
      simp only
      split
      · next h0 =>
        exact ⟨⟨rfl, rfl, rfl, rfl, fun _ => rfl⟩, ⟨fun _ => Or.inl hf, fun _ => rfl⟩,
          fun _ => Or.inr h0.symm⟩
      · exact ⟨⟨rfl, rfl, rfl, rfl, fun h => absurd h herr⟩, ⟨fun _ => Or.inl hf, fun _ => rfl⟩,
          fun _ => Or.inr rfl⟩

/-- A write to a healthy file stores what the volume has room for, and moves past it. -/
theorem FF_Write_count {fp : FIL} {bs : List UInt8} (he : fp.err = false) (hw : fp.write = true)
    (hc : 0 < fp.csize) :
    (FF_Write fp bs).1 = min (fp.cap - fp.fptr) bs.length ∧ SameFile fp (FF_Write fp bs).2 ∧
      (FF_Write fp bs).2.fptr = fp.fptr + (FF_Write fp bs).1 := by
  have hgo : ¬(fp.err || !fp.write) = true := by rw [he, hw]; decide
  have hkept := writeLoop_kept (bs.take (fp.cap - fp.fptr)).length (bs.take (fp.cap - fp.fptr)) fp
  rw [FF_Write, f_write, if_neg hgo]
  simp only
  refine ⟨List.length_take, ⟨hkept.1, hkept.2.1, hkept.2.2.1, hkept.2.2.2, fun h => ?_⟩,
    writeLoop_fptr _ _ _ hc (le_refl _)⟩
  rw [he] at h
  exact Bool.noConfusion h

theorem FF_Write_ok {fp : FIL} (h : fp.Ok) (bs : List UInt8) : (FF_Write fp bs).2.Ok := f_write_ok h bs

theorem FF_Read_ok {fp : FIL} (h : fp.Ok) (n : ℕ) : (FF_Read fp n).2.Ok := f_read_ok h n

/-- A read leaves the bytes of the file and its open mode alone. -/
theorem FF_Read_kept (fp : FIL) (n : ℕ) :
    (FF_Read fp n).2.data = fp.data ∧ (FF_Read fp n).2.write = fp.write := by
  rw [FF_Read, f_read]
  split
  · exact ⟨rfl, rfl⟩
  · simp only
    split <;> exact readLoop_kept _ _ fp

/-- A read inside a healthy file delivers all it was asked for, and moves past it. -/
theorem FF_Read_eq {fp : FIL} (h : fp.Ok) (he : fp.err = false) {n : ℕ}
    (hsize : fp.fptr + n ≤ fp.objsize) (hread : fp.fptr + n ≤ fp.readable) :
    FF_Read fp n = ((fp.data.drop fp.fptr).take n, fp.moved n) := by
  have hall : ¬n < min n (fp.objsize - fp.fptr) := by omega
  rw [FF_Read, f_read_eq h, FIL.avail_eq he hsize hread, he, decide_eq_false hall]
  exact Prod.ext rfl (by rw [FIL.moved, he]; rfl)

theorem FF_Read_in {fp : FIL} (h : fp.Ok) (he : fp.err = false) {n : ℕ}
    (hsize : fp.fptr + n ≤ fp.objsize) (hread : fp.fptr + n ≤ fp.readable) :
    (FF_Read fp n).1 = (fp.data.drop fp.fptr).take n := by
  rw [FF_Read_eq h he hsize hread]

/-- A direct read leaves the file as any read does, and counts its bytes. -/
theorem FF_ReadDirect_snd (fp : FIL) (n : ℕ) :
    (FF_ReadDirect fp n).2 = ((FF_Read fp n).1.length, (FF_Read fp n).2) := rfl

/-- From the start of a sector a direct read delivers the whole sectors of what is read. -/
theorem FF_ReadDirect_aligned {fp : FIL} (ha : fp.fptr % 512 = 0) (n : ℕ) :
    (FF_ReadDirect fp n).1 = (FF_Read fp n).1.take ((FF_Read fp n).1.length / 512 * 512) := by
  rw [FF_ReadDirect]
  simp only [ha, Nat.sub_zero, Nat.mod_self, List.drop_zero]

/-- Sectors inside a healthy file. -/
theorem FF_ReadDirect_eq {fp : FIL} (h : fp.Ok) (he : fp.err = false) (ha : fp.fptr % 512 = 0) {n : ℕ}
    (hn : n % 512 = 0) (hsize : fp.fptr + n ≤ fp.objsize) (hread : fp.fptr + n ≤ fp.readable) :
    FF_ReadDirect fp n = ((fp.data.drop fp.fptr).take n, n, fp.moved n) := by
  have heq := FF_Read_eq h he hsize hread
  have hlen : ((fp.data.drop fp.fptr).take n).length = n := by
    rw [List.length_take, List.length_drop]
    exact Nat.min_eq_left (by
      have : fp.data.length = fp.objsize := rfl
      omega)
  refine Prod.ext ?_ ?_
  · rw [FF_ReadDirect_aligned ha, heq, hlen, Nat.div_mul_cancel (Nat.dvd_of_mod_eq_zero hn),
      List.take_of_length_le (le_of_eq hlen)]
  · rw [FF_ReadDirect_snd, heq, hlen]

/-- A write inside a healthy file replaces the bytes at the position. -/
theorem FF_Write_in {fp : FIL} (h : fp.Ok) (he : fp.err = false) (hw : fp.write = true)
    {bs : List UInt8} (hle : fp.fptr + bs.length ≤ fp.objsize) :
    (FF_Write fp bs).2 = { fp.moved bs.length with data := Splice.splice fp.data fp.fptr bs } := by
  have hcap := h.size_le
  have htake : bs.take (fp.cap - fp.fptr) = bs := List.take_of_length_le (by omega)
  rw [FF_Write, f_write_eq h, he, hw, htake, Nat.min_eq_right (by omega)]
  rfl

/-- A write to an aborted object, or to one not opened for writing, does nothing. -/
theorem FF_Write_refused {fp : FIL} (h : fp.err = true ∨ fp.write = false) (bs : List UInt8) :
    FF_Write fp bs = (0, fp) := by
  rw [FF_Write, f_write]
  rcases h with h | h <;> simp [h]

/-! ### Lines -/

/-- A character buffer and the memory after it. -/
abbrev Line := ℕ → UInt8

/-- A terminated string put at the start of a buffer. -/
def Line.put (line : Line) (bs : List UInt8) : Line := fun i => (bs ++ [0]).getD i (line i)

/-- The character loop of `f_gets`, with room for `n` characters. -/
def getsLoop : ℕ → FIL → List UInt8 × FIL
  | 0, fp => ([], fp)
  | n + 1, fp =>
    match f_read fp 1 with
    | ([], fp) => ([], fp)
    | (c :: _, fp) =>
      if c = 0x0A then ([c], fp)
      else
        let r := getsLoop n fp
        (c :: r.1, r.2)

/-- `FF_GetLine`: the length of the string now in the buffer, 0 when nothing could be read. -/
def FF_GetLine (fp : FIL) (line : Line) (ulLimit : ℕ) : ℕ × Line × FIL :=
  let r := getsLoop (ulLimit - 1) fp
  ((r.1.takeWhile (· ≠ 0)).length, line.put r.1, r.2)

/-- What a reader still gets from a file. -/
def FIL.rest (fp : FIL) : List UInt8 :=
  if fp.err then [] else (fp.data.drop fp.fptr).take (fp.readable - fp.fptr)

/-- The first line of a byte string, its end-of-line included, cut to `n` bytes. -/
def firstLine : ℕ → List UInt8 → List UInt8
  | 0, _ => []
  | _, [] => []
  | n + 1, c :: cs => if c = 0x0A then [c] else c :: firstLine n cs

theorem length_firstLine_le : ∀ (n : ℕ) (bs : List UInt8), (firstLine n bs).length ≤ bs.length
  | 0, _ => Nat.zero_le _
  | _ + 1, [] => le_refl 0
  | n + 1, c :: cs => by
    rw [firstLine]
    split
    · simp
    · simpa using length_firstLine_le n cs

@[simp] theorem f_open_rest (file : File) (write : Bool) :
    (f_open file write).rest = file.data.take file.readable := by
  simp [FIL.rest, f_open]

theorem FIL.rest_moved {fp : FIL} (he : fp.err = false) (n : ℕ) :
    (fp.moved n).rest = fp.rest.drop n := by
  simp [FIL.rest, FIL.moved, he, List.drop_take, Nat.sub_sub]

/-- Reading one byte takes it off the rest. -/
theorem f_read_one {fp : FIL} (h : fp.Ok) :
    (f_read fp 1).1 = fp.rest.take 1 ∧ (f_read fp 1).2.rest = fp.rest.drop 1 := by
  have hlen : fp.data.length = fp.objsize := rfl
  rw [f_read_eq h]
  cases he : fp.err with
  | true => simp [FIL.rest, FIL.avail, he]
  | false =>
    have hav : fp.avail 1 = min (min 1 (fp.objsize - fp.fptr)) (fp.readable - fp.fptr) := by
      simp [FIL.avail, he]
    by_cases hr : fp.rest = []
    · -- at the end of the object or of its readable part
      have h0 : fp.avail 1 = 0 := by
        have := congrArg List.length hr
        simp only [FIL.rest, he, Bool.false_eq_true, if_false, List.length_take, List.length_drop,
          List.length_nil] at this
        omega
      have hmv := fp.rest_moved he 0
      rw [List.drop_zero, hr] at hmv
      refine ⟨by simp [h0, hr], ?_⟩
      rw [hr, List.drop_nil]
      by_cases hlt : 0 < fp.objsize - fp.fptr
      · simp [FIL.rest, h0, hlt]
      · simpa [FIL.rest, FIL.moved, h0, hlt, he] using hmv
    · have h1 : fp.avail 1 = 1 := by
        have := List.length_pos_iff.mpr hr
        simp only [FIL.rest, he, Bool.false_eq_true, if_false, List.length_take,
          List.length_drop] at this
        omega
      have hsz : 1 ≤ fp.objsize - fp.fptr ∧ 1 ≤ fp.readable - fp.fptr := by omega
      refine ⟨?_, ?_⟩
      · simp [FIL.rest, he, h1, List.take_take, Nat.min_eq_left hsz.2]
      · have := fp.rest_moved he 1
        simpa [FIL.rest, FIL.moved, h1, he, Nat.min_eq_left hsz.1] using this

/-- `f_gets` takes the first line off the rest. -/
theorem getsLoop_eq : ∀ (n : ℕ) (fp : FIL), fp.Ok →
    (getsLoop n fp).1 = firstLine n fp.rest ∧
      (getsLoop n fp).2.rest = fp.rest.drop (firstLine n fp.rest).length ∧ (getsLoop n fp).2.Ok
  | 0, fp, h => by simp [getsLoop, firstLine, h]
  | n + 1, fp, h => by
    obtain ⟨hb, hrest⟩ := f_read_one h
    have hok := f_read_ok h 1
    rw [getsLoop]
    generalize f_read fp 1 = r at hb hrest hok
    obtain ⟨bs, fp'⟩ := r
    simp only at hb hrest hok
    cases hr : fp.rest with
    | nil =>
      rw [hr] at hb hrest
      simp only [List.take_nil] at hb
      subst hb
      exact ⟨rfl, by simpa using hrest, hok⟩
    | cons c cs =>
      rw [hr] at hb hrest
      simp only [List.take_succ_cons, List.take_zero, List.drop_succ_cons, List.drop_zero]
        at hb hrest
      subst hb
      simp only [firstLine]
      by_cases hc : c = 0x0A
      · simp [hc, hrest, hok]
      · obtain ⟨ih1, ih2, ih3⟩ := getsLoop_eq n fp' hok
        rw [if_neg hc, if_neg hc]
        exact ⟨by rw [ih1, hrest], by rw [ih2, hrest]; rfl, ih3⟩

/-- At the end of the file nothing is left. -/
theorem FIL.rest_of_isEOF {fp : FIL} (h : FF_isEOF fp = true) : fp.rest = [] := by
  have h : fp.fptr = fp.data.length := of_decide_eq_true h
  simp [FIL.rest, h]

end FatFs
