import ReplayFirmware.Lib.Splice
import Mathlib.Tactic.Ring

/-! A FatFs file object and the calls the firmware makes on it.

    The clusters of an object are numbered along its own chain, so that following the chain is
    adding one and cluster `c` holds the object's bytes from `c * csize` on. `f_read` and `f_write`
    find their bytes through the current cluster, as FatFs does, and not through the file position
    alone: a position and a cluster that do not belong together address foreign bytes. `FIL.Ok` says
    that they belong together; every call keeps it, and under it a read delivers the bytes at the
    file position and a write replaces them.

    `f_lseek` on an object opened for writing extends the object when the target lies past its end,
    as far as the volume has room. -/

namespace FatFs

/-- The outcomes of a file call the firmware tells apart from success. -/
inductive FRESULT where | ok | diskErr | denied
  deriving DecidableEq, Repr

/-- A file object. `slack` is what the volume holds past the object's end, by file offset; `cap` is
    the size to which the object can grow on its volume; offsets from `readable` on cannot be read
    from the card. -/
structure FIL where
  data : List UInt8
  slack : ℕ → UInt8
  cap : ℕ
  csize : ℕ
  write : Bool
  readable : ℕ
  err : Bool
  fptr : ℕ
  clust : ℕ

/-- `obj.objsize`. -/
def FIL.objsize (fp : FIL) : ℕ := fp.data.length

/-- Position and cluster belong together: the current cluster holds the byte before the position. -/
structure FIL.Ok (fp : FIL) : Prop where
  fptr_le : fp.fptr ≤ fp.objsize
  size_le : fp.objsize ≤ fp.cap
  csize_pos : 0 < fp.csize
  clust_eq : 0 < fp.fptr → fp.clust = (fp.fptr - 1) / fp.csize

/-- The cluster a transfer at the current position uses: the chain is followed on a cluster
    boundary, from its origin at the top of the file. -/
def FIL.locate (fp : FIL) : ℕ :=
  if fp.fptr % fp.csize = 0 then (if fp.fptr = 0 then 0 else fp.clust + 1) else fp.clust

/-- The position moves on by `n` bytes, within the cluster `locate` found. -/
def FIL.advance (fp : FIL) (n : ℕ) : FIL :=
  { fp with fptr := fp.fptr + n, clust := fp.locate }

/-! ### Reading -/

/-- The transfer loop of `f_read`, one cluster's share at a time. -/
def readLoop : ℕ → ℕ → FIL → List UInt8 × FIL
  | 0, _, fp => ([], fp)
  | fuel + 1, btr, fp =>
    if btr = 0 then ([], fp)
    else
      let off := fp.fptr % fp.csize
      let rcnt := min btr (fp.csize - off)
      let r := readLoop fuel (btr - rcnt) (fp.advance rcnt)
      ((fp.data.drop (fp.locate * fp.csize + off)).take rcnt ++ r.1, r.2)

/-- `f_read`: an aborted object delivers nothing, the count is clipped at the end of the object, and
    a read that meets unreadable bytes delivers what stands before them and aborts the object. -/
def f_read (fp : FIL) (btr : ℕ) : List UInt8 × FIL :=
  if fp.err then ([], fp)
  else
    let btr := min btr (fp.objsize - fp.fptr)
    let good := min btr (fp.readable - fp.fptr)
    let r := readLoop good good fp
    (r.1, if good < btr then { r.2 with err := true } else r.2)

/-- The loop only moves the object. -/
theorem readLoop_kept : ∀ (fuel btr : ℕ) (fp : FIL),
    (readLoop fuel btr fp).2.data = fp.data ∧ (readLoop fuel btr fp).2.write = fp.write
  | 0, _, _ => ⟨rfl, rfl⟩
  | fuel + 1, btr, fp => by
    rw [readLoop]
    split
    · exact ⟨rfl, rfl⟩
    · exact readLoop_kept fuel _ (fp.advance _)

/-! ### Writing -/

/-- The transfer loop of `f_write`, one cluster's share at a time. -/
def writeLoop : ℕ → List UInt8 → FIL → FIL
  | 0, _, fp => fp
  | fuel + 1, bs, fp =>
    if bs = [] then fp
    else
      let off := fp.fptr % fp.csize
      let wcnt := min bs.length (fp.csize - off)
      let data := Splice.splice fp.data (fp.locate * fp.csize + off) (bs.take wcnt)
      writeLoop fuel (bs.drop wcnt) { fp.advance wcnt with data := data }

/-- `f_write`: returns the number of bytes stored, short when the volume has no more room. -/
def f_write (fp : FIL) (bs : List UInt8) : ℕ × FIL :=
  if fp.err || !fp.write then (0, fp)
  else
    let bs := bs.take (fp.cap - fp.fptr)
    (bs.length, writeLoop bs.length bs fp)

/-! ### Seeking -/

/-- What the object holds once it reaches `n` bytes: the bytes past its end are whatever the volume
    held there. -/
def FIL.extend (fp : FIL) (n : ℕ) : List UInt8 :=
  fp.data ++ (List.range (n - fp.objsize)).map (fun i => fp.slack (fp.objsize + i))

/-- Where `f_lseek` ends up: the target is clipped at the end of an object not opened for writing,
    and at the room on the volume. -/
def FIL.target (fp : FIL) (ofs : ℕ) : ℕ :=
  min (if fp.objsize < ofs ∧ !fp.write then fp.objsize else ofs) fp.cap

/-- `f_lseek`: follows the chain from the current cluster, or from its origin when the target lies
    in an earlier cluster. -/
def f_lseek (fp : FIL) (ofs : ℕ) : FRESULT × FIL :=
  if fp.err then (.diskErr, fp)
  else
    let ofs := fp.target ofs
    if ofs = 0 then (.ok, { fp with fptr := 0 })
    else
      let follow : Bool := 0 < fp.fptr ∧ (fp.fptr - 1) / fp.csize ≤ (ofs - 1) / fp.csize
      let base := if follow then (fp.fptr - 1) / fp.csize * fp.csize else 0
      let clst := if follow then fp.clust else 0
      (.ok, { fp with
        fptr := ofs, clust := clst + (ofs - base - 1) / fp.csize, data := fp.extend ofs })

/-! ### Reads under `Ok` -/

theorem FIL.Ok.locate_eq {fp : FIL} (h : fp.Ok) : fp.locate = fp.fptr / fp.csize := by
  have hc := h.csize_pos
  unfold FIL.locate
  by_cases h0 : fp.fptr = 0
  · simp [h0]
  · rw [if_neg h0, h.clust_eq (by omega)]
    obtain ⟨n, hn⟩ : ∃ n, fp.fptr = n + 1 := ⟨fp.fptr - 1, by omega⟩
    rw [hn, Nat.add_sub_cancel, Nat.succ_div]
    simp only [Nat.dvd_iff_mod_eq_zero]
    split <;> rfl

/-- The byte offset a transfer uses is the file position. -/
theorem FIL.Ok.locate_offset {fp : FIL} (h : fp.Ok) :
    fp.locate * fp.csize + fp.fptr % fp.csize = fp.fptr := by
  rw [h.locate_eq, Nat.mul_comm, Nat.div_add_mod]

/-- The cluster of the last byte of a transfer that stays in the current cluster. -/
theorem div_of_share {p c n : ℕ} (hn : 0 < n) (hle : n ≤ c - p % c) : (p + n - 1) / c = p / c := by
  have hmod := Nat.div_add_mod p c
  have hlt : p % c + (n - 1) < c := by omega
  have : p + n - 1 = c * (p / c) + (p % c + (n - 1)) := by omega
  rw [this, Nat.mul_add_div (by omega), Nat.div_eq_of_lt hlt, Nat.add_zero]

theorem FIL.Ok.advance {fp : FIL} (h : fp.Ok) {n : ℕ} (hn : 0 < n)
    (hle : n ≤ fp.csize - fp.fptr % fp.csize) (hs : fp.fptr + n ≤ fp.objsize) :
    (fp.advance n).Ok := by
  refine ⟨hs, h.size_le, h.csize_pos, fun _ => ?_⟩
  show fp.locate = (fp.fptr + n - 1) / fp.csize
  rw [h.locate_eq, div_of_share hn hle]

/-- The object after the position has moved on by `n` bytes. -/
def FIL.moved (fp : FIL) (n : ℕ) : FIL :=
  { fp with fptr := fp.fptr + n
            clust := if n = 0 then fp.clust else (fp.fptr + n - 1) / fp.csize }

theorem FIL.Ok.moved {fp : FIL} (h : fp.Ok) {n : ℕ} (hs : fp.fptr + n ≤ fp.objsize) :
    (fp.moved n).Ok := by
  refine ⟨hs, h.size_le, h.csize_pos, fun hpos => ?_⟩
  by_cases hn : n = 0
  · subst hn; simpa [FIL.moved] using h.clust_eq (by simpa [FIL.moved] using hpos)
  · simp [FIL.moved, hn]

theorem FIL.Ok.moved_advance {fp : FIL} (h : fp.Ok) {m n : ℕ} (hm : 0 < m)
    (hle : m ≤ fp.csize - fp.fptr % fp.csize) :
    (fp.advance m).moved n = fp.moved (m + n) := by
  have hc : fp.locate = (fp.fptr + m - 1) / fp.csize := by rw [h.locate_eq, div_of_share hm hle]
  by_cases hn : n = 0
  · subst hn; simp [FIL.moved, FIL.advance, hc, show m ≠ 0 by omega]
  · simp [FIL.moved, FIL.advance, hn, Nat.add_assoc]

/-- The read loop delivers the bytes at the position and moves past them. -/
theorem readLoop_eq : ∀ (fuel btr : ℕ) (fp : FIL), fp.Ok → btr ≤ fuel →
    fp.fptr + btr ≤ fp.objsize →
    readLoop fuel btr fp = ((fp.data.drop fp.fptr).take btr, fp.moved btr)
  | 0, btr, fp, _, hb, _ => by
    obtain rfl : btr = 0 := by omega
    simp [readLoop, FIL.moved]
  | fuel + 1, btr, fp, h, hb, hs => by
    by_cases h0 : btr = 0
    · subst h0; simp [readLoop, FIL.moved]
    · have hmod := Nat.mod_lt fp.fptr h.csize_pos
      set rcnt := min btr (fp.csize - fp.fptr % fp.csize) with hr
      have hpos : 0 < rcnt := by omega
      have hadv := h.advance hpos (by omega) (by omega)
      rw [readLoop, if_neg h0]
      simp only [← hr, h.locate_offset]
      rw [readLoop_eq fuel (btr - rcnt) _ hadv (by omega) (by
        show fp.fptr + rcnt + (btr - rcnt) ≤ fp.objsize; omega)]
      rw [h.moved_advance hpos (by omega), show rcnt + (btr - rcnt) = btr by omega]
      refine Prod.ext ?_ rfl
      show _ ++ (fp.data.drop (fp.fptr + rcnt)).take _ = _
      rw [← List.drop_drop, ← List.take_add, show rcnt + (btr - rcnt) = btr by omega]

/-- How many bytes a read of `btr` delivers. -/
def FIL.avail (fp : FIL) (btr : ℕ) : ℕ :=
  if fp.err then 0 else min (min btr (fp.objsize - fp.fptr)) (fp.readable - fp.fptr)

/-- A read delivers the bytes at the position and moves past them; it can abort the object, and
    leaves the rest of it as it was. -/
theorem f_read_eq {fp : FIL} (h : fp.Ok) (btr : ℕ) :
    f_read fp btr = ((fp.data.drop fp.fptr).take (fp.avail btr), { fp.moved (fp.avail btr) with
      err := fp.err || decide (fp.avail btr < min btr (fp.objsize - fp.fptr)) }) := by
  have hle := h.fptr_le
  unfold f_read FIL.avail
  cases he : fp.err with
  | true =>
    obtain ⟨data, slack, cap, csize, write, readable, err, fptr, clust⟩ := fp
    obtain rfl : err = true := he
    simp [FIL.moved]
  | false =>
    simp only [Bool.false_eq_true, if_false, Bool.false_or]
    rw [readLoop_eq _ (min (min btr (fp.objsize - fp.fptr)) (fp.readable - fp.fptr)) fp h
      (le_refl _) (by omega)]
    by_cases hlt : min (min btr (fp.objsize - fp.fptr)) (fp.readable - fp.fptr)
        < min btr (fp.objsize - fp.fptr)
    · simp only [if_pos hlt, decide_eq_true hlt]
    · simp only [if_neg hlt, decide_eq_false hlt, FIL.moved, he]

theorem FIL.avail_le (fp : FIL) (btr : ℕ) : fp.avail btr ≤ fp.objsize - fp.fptr := by
  unfold FIL.avail; split <;> omega

theorem f_read_ok {fp : FIL} (h : fp.Ok) (btr : ℕ) : (f_read fp btr).2.Ok := by
  have hm : (fp.moved (fp.avail btr)).Ok := h.moved (by
    have := h.fptr_le; have := fp.avail_le btr; omega)
  rw [f_read_eq h]
  exact ⟨hm.fptr_le, hm.size_le, hm.csize_pos, hm.clust_eq⟩

/-- An object healthy up to `fptr + n` delivers `n` bytes. -/
theorem FIL.avail_eq {fp : FIL} {n : ℕ} (he : fp.err = false) (hs : fp.fptr + n ≤ fp.objsize)
    (hr : fp.fptr + n ≤ fp.readable) : fp.avail n = n := by
  simp only [FIL.avail, he, Bool.false_eq_true, if_false]
  omega

/-! ### Writes under `Ok` -/

/-- The write loop puts the bytes over those at the position and moves past them. -/
theorem writeLoop_eq : ∀ (fuel : ℕ) (bs : List UInt8) (fp : FIL), fp.Ok → bs.length ≤ fuel →
    fp.fptr + bs.length ≤ fp.cap →
    writeLoop fuel bs fp
      = { fp.moved bs.length with data := Splice.splice fp.data fp.fptr bs }
  | 0, bs, fp, _, hb, _ => by
    obtain rfl : bs = [] := List.eq_nil_of_length_eq_zero (by omega)
    simp [writeLoop, FIL.moved]
  | fuel + 1, bs, fp, h, hb, hs => by
    by_cases h0 : bs = []
    · subst h0; simp [writeLoop, FIL.moved]
    · have hlen : 0 < bs.length := List.length_pos_iff.mpr h0
      have hmod := Nat.mod_lt fp.fptr h.csize_pos
      have hle := h.fptr_le
      set wcnt := min bs.length (fp.csize - fp.fptr % fp.csize) with hw
      have hpos : 0 < wcnt := by omega
      have htake : (bs.take wcnt).length = wcnt := by rw [List.length_take]; omega
      have hdrop : (bs.drop wcnt).length = bs.length - wcnt := List.length_drop
      rw [writeLoop, if_neg h0]
      simp only [← hw, h.locate_offset]
      set fp' : FIL :=
        { fp.advance wcnt with data := Splice.splice fp.data fp.fptr (bs.take wcnt) } with hfp'
      have hsize : fp'.objsize = max fp.objsize (fp.fptr + wcnt) := by
        show (Splice.splice fp.data fp.fptr (bs.take wcnt)).length = _
        rw [Splice.length_splice _ hle, htake]; rfl
      have hok : fp'.Ok := by
        refine ⟨by rw [hsize]; exact le_max_right _ _, ?_, h.csize_pos, fun _ => ?_⟩
        · rw [hsize]; exact max_le h.size_le (show fp.fptr + wcnt ≤ fp.cap by omega)
        · show fp.locate = (fp.fptr + wcnt - 1) / fp.csize
          rw [h.locate_eq, div_of_share hpos (by omega)]
      rw [writeLoop_eq fuel (bs.drop wcnt) fp' hok (by omega) (by
        show fp.fptr + wcnt + _ ≤ fp.cap; omega)]
      have hdata : Splice.splice fp'.data fp'.fptr (bs.drop wcnt)
          = Splice.splice fp.data fp.fptr bs := by
        have := Splice.splice_splice (bs.take wcnt) (bs.drop wcnt) hle
        rwa [htake, List.take_append_drop] at this
      rw [hdata]
      have hmv : (fp.advance wcnt).moved (bs.drop wcnt).length = fp.moved bs.length := by
        rw [h.moved_advance hpos (by omega)]; congr 1; omega
      rw [← hmv]
      rfl

/-- Whatever cluster it goes to, the write loop moves the position past what it stored. -/
theorem writeLoop_fptr : ∀ (fuel : ℕ) (bs : List UInt8) (fp : FIL), 0 < fp.csize → bs.length ≤ fuel →
    (writeLoop fuel bs fp).fptr = fp.fptr + bs.length
  | 0, bs, fp, _, hb => by
    obtain rfl : bs = [] := List.eq_nil_of_length_eq_zero (by omega)
    rfl
  | fuel + 1, bs, fp, hc, hb => by
    by_cases h0 : bs = []
    · subst h0; simp [writeLoop]
    · have hlen : 0 < bs.length := List.length_pos_iff.mpr h0
      have hmod := Nat.mod_lt fp.fptr hc
      rw [writeLoop, if_neg h0]
      simp only
      set wcnt := min bs.length (fp.csize - fp.fptr % fp.csize) with hw
      have hdrop : (bs.drop wcnt).length = bs.length - wcnt := List.length_drop
      refine (writeLoop_fptr fuel (bs.drop wcnt) _ ?_ (by omega)).trans ?_
      · exact hc
      · rw [hdrop]
        show fp.fptr + wcnt + (bs.length - wcnt) = _
        omega

theorem writeLoop_kept : ∀ (fuel : ℕ) (bs : List UInt8) (fp : FIL),
    (writeLoop fuel bs fp).err = fp.err ∧ (writeLoop fuel bs fp).write = fp.write ∧
      (writeLoop fuel bs fp).cap = fp.cap ∧ (writeLoop fuel bs fp).csize = fp.csize
  | 0, _, _ => ⟨rfl, rfl, rfl, rfl⟩
  | fuel + 1, bs, fp => by
    rw [writeLoop]
    split
    · exact ⟨rfl, rfl, rfl, rfl⟩
    · exact writeLoop_kept fuel _ _

/-- A write replaces the bytes at the position, as many as the volume has room for. -/
theorem f_write_eq {fp : FIL} (h : fp.Ok) (bs : List UInt8) :
    f_write fp bs = if fp.err || !fp.write then (0, fp)
      else (min (fp.cap - fp.fptr) bs.length, { fp.moved (min (fp.cap - fp.fptr) bs.length) with
        data := Splice.splice fp.data fp.fptr (bs.take (fp.cap - fp.fptr)) }) := by
  have hle := h.fptr_le
  have hcap := h.size_le
  unfold f_write
  split
  · rfl
  · simp only
    rw [writeLoop_eq _ _ fp h (le_refl _) (by rw [List.length_take]; omega), List.length_take]

theorem f_write_ok {fp : FIL} (h : fp.Ok) (bs : List UInt8) : (f_write fp bs).2.Ok := by
  have hle := h.fptr_le
  have hcap := h.size_le
  rw [f_write_eq h]
  split
  · exact h
  · set n := min (fp.cap - fp.fptr) bs.length with hn
    have htake : (bs.take (fp.cap - fp.fptr)).length = n := by rw [List.length_take]
    have hlen : (Splice.splice fp.data fp.fptr (bs.take (fp.cap - fp.fptr))).length
        = max fp.objsize (fp.fptr + n) := by
      rw [Splice.length_splice _ hle, htake]; rfl
    refine ⟨?_, ?_, h.csize_pos, ?_⟩
    · show fp.fptr + n ≤ List.length _; rw [hlen]; exact le_max_right _ _
    · show List.length _ ≤ fp.cap; rw [hlen]; omega
    · by_cases h0 : n = 0
      · simpa [FIL.moved, h0] using h.clust_eq
      · simp [FIL.moved, h0]

/-! ### Seeks under `Ok` -/

@[simp] theorem FIL.extend_of_le {fp : FIL} {n : ℕ} (h : n ≤ fp.objsize) : fp.extend n = fp.data := by
  simp [FIL.extend, Nat.sub_eq_zero_of_le h]

theorem FIL.length_extend (fp : FIL) (n : ℕ) : (fp.extend n).length = max fp.objsize n := by
  simp only [FIL.extend, List.length_append, List.length_map, List.length_range]
  show fp.objsize + _ = _
  omega

/-- The object after a seek that ended at `t`. -/
def FIL.seeked (fp : FIL) (t : ℕ) : FIL :=
  { fp with fptr := t, clust := if t = 0 then fp.clust else (t - 1) / fp.csize
            data := fp.extend t }

theorem f_lseek_eq {fp : FIL} (h : fp.Ok) (ofs : ℕ) :
    f_lseek fp ofs = if fp.err then (.diskErr, fp) else (.ok, fp.seeked (fp.target ofs)) := by
  unfold f_lseek
  split
  · rfl
  · generalize fp.target ofs = t
    simp only
    by_cases h0 : t = 0
    · subst h0; simp [FIL.seeked]
    · simp only [if_neg h0, FIL.seeked]
      by_cases hf : 0 < fp.fptr ∧ (fp.fptr - 1) / fp.csize ≤ (t - 1) / fp.csize
      · -- the chain is followed from the current cluster
        have hdiv := Nat.sub_mul_div (t - 1) fp.csize ((fp.fptr - 1) / fp.csize)
        have hcl : (fp.fptr - 1) / fp.csize
            + (t - (fp.fptr - 1) / fp.csize * fp.csize - 1) / fp.csize = (t - 1) / fp.csize := by
          rw [Nat.sub_right_comm, Nat.mul_comm, hdiv]; omega
        simp only [hf, and_self, decide_true, if_true, h.clust_eq hf.1, hcl]
      · simp [hf]

theorem FIL.target_le_cap (fp : FIL) (ofs : ℕ) : fp.target ofs ≤ fp.cap := Nat.min_le_right _ _

/-- A seek inside the object ends where it was asked to. -/
theorem FIL.Ok.target_eq {fp : FIL} (h : fp.Ok) {ofs : ℕ} (hle : ofs ≤ fp.objsize) :
    fp.target ofs = ofs := by
  have := h.size_le
  rw [FIL.target, if_neg (by omega)]; omega

theorem FIL.Ok.seeked {fp : FIL} (h : fp.Ok) {t : ℕ} (ht : t ≤ fp.cap) : (fp.seeked t).Ok := by
  have hsize : (fp.seeked t).objsize = max fp.objsize t := fp.length_extend t
  have := h.size_le
  refine ⟨?_, ?_, h.csize_pos, fun hpos => ?_⟩
  · rw [hsize]; exact le_max_right _ _
  · rw [hsize]; show max _ _ ≤ fp.cap; omega
  · have h0 : t ≠ 0 := by have : 0 < t := hpos; omega
    simp [FIL.seeked, h0]

theorem f_lseek_ok {fp : FIL} (h : fp.Ok) (ofs : ℕ) : (f_lseek fp ofs).2.Ok := by
  rw [f_lseek_eq h]
  split
  · exact h
  · exact h.seeked (fp.target_le_cap ofs)

/-- Whatever state the object is in, a seek changes its bytes only by extending it. -/
theorem f_lseek_data (fp : FIL) (ofs : ℕ) :
    (f_lseek fp ofs).2.data = if fp.err then fp.data else fp.extend (fp.target ofs) := by
  unfold f_lseek
  split
  · rfl
  · simp only
    split
    · next h0 => simp [h0]
    · rfl

end FatFs
