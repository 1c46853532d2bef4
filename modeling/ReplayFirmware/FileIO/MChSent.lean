import ReplayFirmware.FileIO.MChFile

/-! What an upload sends, byte for byte.

    A chunk takes two waits. When the first one times out the upload ends, when the second one does the
    chunk is left out and the next one takes its place; so all bytes go out exactly when no wait for a
    chunk times out, and fewer in every other case. -/

namespace FileIO.MCh
open FatFs

variable {fpga : Fpga} {f : FIL}

/-! ### Bytes that go out -/

def PortOut.bytes : PortOut → List UInt8
  | .data bs => bs
  | _ => []

/-- The bytes that went to the memory. -/
def Port.bytes (p : Port) : List UInt8 := p.out.flatMap PortOut.bytes

/-- A transfer of `bs`, which goes on behind it or ends: it sends them exactly when no wait for them times
    out, and else fewer. -/
structure Carries (fpga : Fpga) (p p' : Port) (bs : List UInt8) (goes : Prop) : Prop where
  sends : ∃ sent, p'.bytes = p.bytes ++ sent ∧ sent.length ≤ bs.length ∧
    (InTime fpga p.waits (2 * waitsFor bs.length) → sent = bs) ∧
    (¬InTime fpga p.waits (2 * waitsFor bs.length) → sent.length < bs.length)
  goes_of : InTime fpga p.waits (2 * waitsFor bs.length) → goes
  waits : goes → p'.waits = p.waits + 2 * waitsFor bs.length

theorem Carries.refl (p : Port) : Carries fpga p p [] True where
  sends := ⟨[], (List.append_nil _).symm, le_refl _, fun _ => rfl, fun h => absurd (inTime_none _) h⟩
  goes_of _ := trivial
  waits _ := rfl

theorem InTime.mono {w j k : ℕ} (h : InTime fpga w k) (hle : j ≤ k) : InTime fpga w j :=
  fun n hn => h n (by omega)

/-- A transfer that goes on, and another. -/
theorem Carries.trans {p p₁ p₂ : Port} {as bs : List UInt8} {goes : Prop}
    (h : Carries fpga p p₁ as True) (h' : Carries fpga p₁ p₂ bs goes)
    (hw : waitsFor (as ++ bs).length = waitsFor as.length + waitsFor bs.length) :
    Carries fpga p p₂ (as ++ bs) goes := by
  obtain ⟨sent, hout, hle, hall, hless⟩ := h.sends
  obtain ⟨sent', hout', hle', hall', hless'⟩ := h'.sends
  rw [h.waits trivial] at hall' hless'
  have hgoes := h'.goes_of
  rw [h.waits trivial] at hgoes
  have hsplit : InTime fpga p.waits (2 * waitsFor (as ++ bs).length) ↔
      InTime fpga p.waits (2 * waitsFor as.length) ∧
        InTime fpga (p.waits + 2 * waitsFor as.length) (2 * waitsFor bs.length) := by
    rw [hw, Nat.mul_add, inTime_add]
  refine ⟨⟨sent ++ sent', ?_, ?_, fun hin => ?_, fun hnot => ?_⟩, fun hin => ?_, fun hgo => ?_⟩
  · rw [hout', hout, List.append_assoc]
  · rw [List.length_append, List.length_append]
    omega
  · rw [hall (hsplit.mp hin).1, hall' (hsplit.mp hin).2]
  · rw [List.length_append, List.length_append]
    rw [hsplit, not_and_or] at hnot
    rcases hnot with hnot | hnot
    · have := hless hnot
      omega
    · have := hless' hnot
      omega
  · exact hgoes (hsplit.mp hin).2
  · rw [h'.waits hgo, h.waits trivial, hw]
    omega

/-- A transfer that ends leaves out all that follows. -/
theorem Carries.stop {p p₁ : Port} {as : List UInt8} (h : Carries fpga p p₁ as False) (bs : List UInt8) :
    Carries fpga p p₁ (as ++ bs) False := by
  obtain ⟨sent, hout, hle, -, hless⟩ := h.sends
  have hmono : waitsFor as.length ≤ waitsFor (as ++ bs).length := by
    rw [waitsFor, waitsFor, List.length_append]
    omega
  have hlate : ¬InTime fpga p.waits (2 * waitsFor (as ++ bs).length) := fun hin =>
    h.goes_of (hin.mono (by omega))
  have hshort := hless h.goes_of
  have hlen : (as ++ bs).length = as.length + bs.length := List.length_append
  exact ⟨⟨sent, hout, by omega, fun hin => absurd hin hlate, fun _ => by omega⟩,
    fun hin => absurd hin hlate, False.elim⟩

/-! ### Chunks -/

theorem inTime_two (w : ℕ) : InTime fpga w 2 ↔ fpga.timeout w = false ∧ fpga.timeout (w + 1) = false := by
  constructor
  · exact fun h => ⟨h 0 (by decide), h 1 (by decide)⟩
  · rintro ⟨h0, h1⟩ n hn
    rcases Nat.lt_or_ge n 1 with hlt | hge
    · rwa [show w + n = w by omega]
    · rwa [show n = 1 by omega]

/-- The second wait for a chunk. -/
theorem sendBuffer_bytes (bs : List UInt8) (p : Port) :
    (sendBuffer fpga bs p).2.bytes = p.bytes ++ (if fpga.timeout p.waits then [] else bs) ∧
      (sendBuffer fpga bs p).2.waits = p.waits + 1 := by
  rw [sendBuffer, waitStat]
  cases fpga.timeout p.waits with
  | true => exact ⟨(List.append_nil _).symm, rfl⟩
  | false =>
    refine ⟨?_, rfl⟩
    simp only [Bool.false_eq_true, if_false, Port.bytes, List.flatMap_append]
    simp [PortOut.bytes]

/-- A chunk behind its first wait. -/
theorem chunk_carries {bs : List UInt8} (hpos : 0 < bs.length) (hle : bs.length ≤ memBufSize) {p : Port}
    (htime : fpga.timeout p.waits = false) :
    Carries fpga p (sendBuffer fpga bs (waitStat fpga p).2).2 bs True := by
  have hmem : memBufSize = 512 := rfl
  have hone : waitsFor bs.length = 1 := by
    rw [waitsFor]
    omega
  obtain ⟨hbytes, hwaits⟩ := @sendBuffer_bytes fpga bs (waitStat fpga p).2
  have hnext : (waitStat fpga p).2.waits = p.waits + 1 := rfl
  have hkept : (waitStat fpga p).2.bytes = p.bytes := rfl
  rw [hnext, hkept] at hbytes
  refine ⟨?_, fun _ => trivial, fun _ => by rw [hwaits, hnext, hone]⟩
  rw [hone, inTime_two]
  cases hsend : fpga.timeout (p.waits + 1) with
  | true =>
    refine ⟨[], by rw [hbytes, hsend, if_pos rfl], Nat.zero_le _, fun h => ?_, fun _ => hpos⟩
    exact absurd h.2 (by decide)
  | false =>
    refine ⟨bs, by rw [hbytes, hsend, if_neg (by decide)], le_refl _, fun _ => rfl, fun h => ?_⟩
    exact absurd ⟨htime, rfl⟩ h

theorem sendLoop_carries : ∀ (fuel fpgabuf_size : ℕ) (wPtr : List UInt8) (rc : UInt8) (p : Port),
    wPtr.length ≤ fuel → wPtr.length = 0 ∨ fpgabuf_size = memBufSize →
      Carries fpga p (sendLoop fpga fuel fpgabuf_size wPtr rc p).2 wPtr
        ((sendLoop fpga fuel fpgabuf_size wPtr rc p).1.isSome = true)
  | 0, _, wPtr, rc, p, hfuel, _ => by
    rw [List.eq_nil_of_length_eq_zero (Nat.le_zero.mp hfuel)]
    exact ⟨(Carries.refl p).sends, fun _ => rfl, fun _ => rfl⟩
  | fuel + 1, fpgabuf_size, wPtr, rc, p, hfuel, hfpga => by
    rw [sendLoop]
    by_cases h0 : wPtr.length = 0
    · rw [if_pos h0, List.eq_nil_of_length_eq_zero h0]
      exact ⟨(Carries.refl p).sends, fun _ => rfl, fun _ => rfl⟩
    rw [if_neg h0]
    obtain rfl := hfpga.resolve_left h0
    have hmem : memBufSize = 512 := rfl
    cases hlate : fpga.timeout p.waits with
    | true =>
      simp only [waitStat, hlate, if_true]
      have hnot : ¬InTime fpga p.waits (2 * waitsFor wPtr.length) := fun hin => by
        have h := hin 0 (by rw [waitsFor]; omega)
        rw [Nat.add_zero, hlate] at h
        exact Bool.noConfusion h
      exact ⟨⟨[], (List.append_nil _).symm, Nat.zero_le _, fun hin => absurd hin hnot, fun _ => by
        rw [List.length_nil]; omega⟩, fun hin => absurd hin hnot, fun h => Bool.noConfusion h⟩
    | false =>
      have hstat : (waitStat fpga p).1 = false := hlate
      simp only [hstat, Bool.false_eq_true, if_false]
      set size := if wPtr.length < memBufSize then wPtr.length else memBufSize with hsize
      have hmin : size = min wPtr.length 512 := by
        rw [hsize]
        split <;> omega
      have hchunk := @chunk_carries fpga (wPtr.take size) (by rw [List.length_take]; omega)
        (by rw [List.length_take]; omega) p hlate
      have hrest := sendLoop_carries fuel size (wPtr.drop size)
        (rc ||| (sendBuffer fpga (wPtr.take size) (waitStat fpga p).2).1)
        (sendBuffer fpga (wPtr.take size) (waitStat fpga p).2).2
        (by rw [List.length_drop]; omega) (by rw [List.length_drop]; omega)
      have hall := hchunk.trans hrest (by
        rw [List.length_append, List.length_take, List.length_drop, waitsFor, waitsFor, waitsFor]
        omega)
      rw [List.take_append_drop] at hall
      exact hall

/-! ### Blocks -/

theorem uploadLoop_carries : ∀ (fuel remaining_size : ℕ) (rc : UInt8) (p : Port) {f : FIL}, f.Ok →
    remaining_size ≤ fuel → Carries fpga p (uploadLoop fpga fuel remaining_size rc p f).2.1
      ((f.data.drop f.fptr).take (min remaining_size (reach f)))
      ((uploadLoop fpga fuel remaining_size rc p f).1.isSome = true)
  | 0, remaining_size, rc, p, f, _, hfuel => by
    obtain rfl := Nat.le_zero.mp hfuel
    rw [uploadLoop, Nat.zero_min, List.take_zero]
    exact ⟨(Carries.refl p).sends, fun _ => rfl, fun _ => rfl⟩
  | fuel + 1, remaining_size, rc, p, f, h, hfuel => by
    obtain ⟨hblock, hok, hdata, hfptr, hreach⟩ := read_block h fileBufSize
    have hdone : min remaining_size (reach f) = 0 → ∀ r : Option (ℕ × UInt8), r.isSome = true →
        Carries fpga p p ((f.data.drop f.fptr).take (min remaining_size (reach f)))
          (r.isSome = true) := by
      intro h0 r hr
      rw [h0, List.take_zero]
      exact ⟨(Carries.refl p).sends, fun _ => hr, fun _ => rfl⟩
    rw [uploadLoop]
    by_cases h0 : remaining_size = 0
    · rw [if_pos h0]
      exact hdone (by rw [h0, Nat.zero_min]) _ rfl
    rw [if_neg h0]
    simp only [read_length h]
    by_cases hempty : min fileBufSize (reach f) = 0
    · rw [if_pos hempty]
      exact hdone (reach_none hempty) _ rfl
    rw [if_neg hempty]
    have b := block_of remaining_size (reach f)
    generalize min (min fileBufSize remaining_size) (min fileBufSize (reach f)) = n at b ⊢
    have hpos := b.pos h0 hempty
    have hsent : ((FF_Read f fileBufSize).1.take n) = (f.data.drop f.fptr).take n := by
      rw [hblock, List.take_take, Nat.min_eq_left b.le_read]
    have hlenn : ((f.data.drop f.fptr).take n).length = n := length_block h b.le_reach
    have hsend := @sendLoop_carries fpga n memBufSize ((f.data.drop f.fptr).take n) rc p
      hlenn.le (Or.inr rfl)
    rw [hsent, b.take]
    generalize sendLoop fpga n memBufSize ((f.data.drop f.fptr).take n) rc p = r at hsend
    obtain ⟨_ | rc₁, p₁⟩ := r
    · -- a wait has timed out
      simp only [Option.isSome_none, Bool.false_eq_true] at hsend ⊢
      exact hsend.stop _
    · simp only [Option.isSome_some] at hsend ⊢
      have hrest := uploadLoop_carries fuel (remaining_size - n) rc₁ p₁ hok (by omega)
      rw [hdata, hfptr, hreach] at hrest
      have hlenrest : ((f.data.drop (f.fptr + min fileBufSize (reach f))).take
          (min (remaining_size - n) (reach f - min fileBufSize (reach f)))).length
            = min (remaining_size - n) (reach f - min fileBufSize (reach f)) := by
        have hall := length_block h (Nat.min_le_right remaining_size (reach f))
        rw [b.take, List.length_append, hlenn, b.rest] at hall
        exact Nat.add_left_cancel hall
      have hgoes : Carries fpga p p₁ ((f.data.drop f.fptr).take n) True :=
        ⟨hsend.sends, fun _ => trivial, fun _ => hsend.waits trivial⟩
      refine hgoes.trans hrest ?_
      rw [List.length_append, hlenn, hlenrest, ← b.rest, b.waits]

/-- What `FileIO_MCh_FileToMem` sends. -/
def sentBy (fpga : Fpga) (f : FIL) (base size offset : UInt32) : List UInt8 :=
  (fileToMem fpga f base size offset).2.1.bytes

theorem sentBy_eq (h : f.Ok) (base size offset : UInt32) :
    let want := (f.data.drop offset.toNat).take (min size.toNat (available f offset.toNat))
    want.length = min size.toNat (available f offset.toNat) ∧
    (sentBy fpga f base size offset).length ≤ want.length ∧
      (InTime fpga 0 (2 * waitsFor want.length) → sentBy fpga f base size offset = want) ∧
      (¬InTime fpga 0 (2 * waitsFor want.length) →
        (sentBy fpga f base size offset).length < want.length) := by
  obtain ⟨hok, hreach, hbytes⟩ := seek_available h offset.toNat
  have hrun := @uploadLoop_carries fpga size.toNat size.toNat 0 (openPort base 0x00) _ hok (le_refl _)
  have hlen := length_block hok (Nat.min_le_right size.toNat (reach (FF_Seek f offset.toNat).2))
  rw [hreach] at hrun hlen
  rw [hbytes] at hrun hlen
  obtain ⟨sent, hout, hle, hall, hless⟩ := hrun.sends
  have hsent : sentBy fpga f base size offset = sent := by
    have hopen : (openPort base 0x00).bytes = [] := rfl
    rw [hopen, List.nil_append] at hout
    rw [← hout, sentBy, fileToMem]
    simp only
    generalize uploadLoop fpga size.toNat size.toNat 0 (openPort base 0x00)
        (FF_Seek f offset.toNat).2 = run
    obtain ⟨_ | ⟨remaining_size, rc⟩, p, g⟩ := run
    · rfl
    · simp only
      split <;> rfl
  rw [hsent]
  exact ⟨hlen, hle, hall, hless⟩

/-- All bytes are sent exactly when the file has them and no wait for a chunk times out. -/
theorem sentBy_all_iff (h : f.Ok) (base size offset : UInt32) :
    (sentBy fpga f base size offset).length = size.toNat ↔
      size.toNat ≤ available f offset.toNat ∧ InTime fpga 0 (2 * waitsFor size.toNat) := by
  obtain ⟨hwant, hle, hall, hless⟩ := @sentBy_eq fpga f h base size offset
  rw [hwant] at hall hless hle
  constructor
  · intro hlen
    have hav : size.toNat ≤ available f offset.toNat := by omega
    refine ⟨hav, ?_⟩
    by_contra hnot
    rw [Nat.min_eq_left hav] at hless
    have := hless hnot
    omega
  · rintro ⟨hav, hin⟩
    rw [Nat.min_eq_left hav] at hall hwant
    rw [hall hin, hwant]

theorem sentBy_take (h : f.Ok) {base size offset : UInt32} (hav : size.toNat ≤ available f offset.toNat)
    (hin : InTime fpga 0 (2 * waitsFor size.toNat)) :
    sentBy fpga f base size offset = (f.data.drop offset.toNat).take size.toNat := by
  obtain ⟨hwant, -, hall, -⟩ := @sentBy_eq fpga f h base size offset
  rw [hwant, Nat.min_eq_left hav] at hall
  exact hall hin

/-! ### The file behind a transfer -/

/-- An object of this file, open for reading. -/
structure OpenOn (file : File) (f : FIL) : Prop where
  ok : f.Ok
  data : f.data = file.data
  readable : f.readable = file.readable
  write : f.write = false

variable {file : File}

theorem openOn_open (file : File) : OpenOn file (f_open file false) :=
  ⟨f_open_ok file false, rfl, rfl, rfl⟩

theorem OpenOn.objsize (h : OpenOn file f) : f.objsize = file.data.length := congrArg List.length h.data

theorem OpenOn.read (h : OpenOn file f) (n : ℕ) : OpenOn file (FF_Read f n).2 ∧
    ((FF_Read f n).2.err = true ↔
      f.err = true ∨ min n (reach f) < min n (f.objsize - f.fptr)) ∧
    (FF_Read f n).2.fptr = f.fptr + min n (reach f) := by
  obtain ⟨-, hok, hdata, hfptr, -⟩ := read_block h.ok n
  have havail : f.avail n = min n (reach f) := by
    rw [FIL.avail, reach]
    split <;> omega
  have hread := f_read_eq h.ok n
  rw [havail] at hread
  refine ⟨⟨hok, hdata.trans h.data, ?_, ?_⟩, ?_, hfptr⟩
  · rw [FF_Read, hread]
    exact h.readable
  · rw [FF_Read, hread]
    exact h.write
  · rw [FF_Read, hread]
    simp only [Bool.or_eq_true, decide_eq_true_eq]

theorem OpenOn.seek (h : OpenOn file f) (ofs : ℕ) : OpenOn file (FF_Seek f ofs).2 ∧
    (FF_Seek f ofs).2.err = f.err ∧
    (f.err = false → (FF_Seek f ofs).2.fptr = min ofs file.data.length) := by
  have hsize := h.objsize
  have hok := FF_Seek_ok h.ok ofs
  have hle := h.ok.fptr_le
  have hcap := h.ok.size_le
  have htarget : f.target ofs = min ofs f.objsize := by
    rw [FIL.target, h.write]
    simp only [Bool.not_false, and_true]
    split <;> omega
  rw [FF_Seek] at *
  split at hok
  · next hpos =>
    rw [if_pos hpos]
    refine ⟨h, rfl, fun _ => ?_⟩
    show f.fptr = _
    rw [← hsize, hpos]
    omega
  · next hpos =>
    rw [if_neg hpos]
    rw [f_lseek_eq h.ok] at *
    split at hok
    · next herr =>
      rw [if_pos herr]
      exact ⟨h, rfl, fun h' => by rw [h'] at herr; exact Bool.noConfusion herr⟩
    · next herr =>
      rw [if_neg herr]
      refine ⟨⟨hok, ?_, h.readable, h.write⟩, rfl, fun _ => by rw [← hsize]; exact htarget⟩
      show f.extend (f.target ofs) = file.data
      rw [FIL.extend_of_le (by omega), h.data]

/-- Whole blocks for so many bytes. -/
def wholeBlocks (n : ℕ) : ℕ := 2048 * ((n + 2047) / 2048)

theorem wholeBlocks_zero : wholeBlocks 0 = 0 := rfl

theorem wholeBlocks_next {left : ℕ} (h0 : left ≠ 0) :
    wholeBlocks left = fileBufSize + wholeBlocks (left - fileBufSize) := by
  rw [wholeBlocks, wholeBlocks, fileBufSize]
  omega

/-- A block that comes short of the file meets bytes that cannot be read. -/
theorem short_read {len readable pos left : ℕ} (hpos : pos ≤ len) (h0 : left ≠ 0)
    (hshort : min fileBufSize (min len readable - pos) < min fileBufSize (len - pos)) :
    readable < min len (pos + wholeBlocks left) := by
  rw [wholeBlocks_next h0]
  generalize wholeBlocks (left - fileBufSize) = more
  omega

/-- No byte is read at the end of the file, or where none can be. -/
theorem empty_read {len readable pos left : ℕ} (hpos : pos ≤ len) (hle : pos ≤ readable) (h0 : left ≠ 0)
    (hempty : min fileBufSize (min len readable - pos) = 0) :
    min fileBufSize (min len readable - pos) < min fileBufSize (len - pos) ↔
      readable < min len (pos + wholeBlocks left) := by
  refine ⟨short_read hpos h0, fun h => ?_⟩
  have hsize : fileBufSize = 2048 := rfl
  omega

/-- Behind a whole block the rest of the blocks is the same. -/
theorem whole_read {len readable pos left n : ℕ} (h0 : left ≠ 0)
    (hread : 0 < min fileBufSize (min len readable - pos))
    (hwhole : ¬min fileBufSize (min len readable - pos) < min fileBufSize (len - pos))
    (b : Block left (min len readable - pos) n) :
    pos + min fileBufSize (min len readable - pos) ≤ readable ∧
      (readable < min len (pos + min fileBufSize (min len readable - pos) + wholeBlocks (left - n)) ↔
        readable < min len (pos + wholeBlocks left)) := by
  refine ⟨by omega, ?_⟩
  rw [wholeBlocks_next h0]
  rcases Nat.lt_or_ge (len - pos) fileBufSize with hlt | hge
  · -- the last block of the file
    exact iff_of_false (by omega) (by omega)
  have hfull : min fileBufSize (min len readable - pos) = fileBufSize := by omega
  rw [hfull, ← Nat.add_assoc]
  rcases Nat.lt_or_ge left fileBufSize with hlt | hge'
  · -- the last block of the transfer
    have hn : n = left := by
      have := b.rest
      rcases b.whole_or_last with ⟨-, hall⟩ | hlast
      · have := b.le_left
        omega
      · omega
    rw [hn, Nat.sub_self, Nat.sub_eq_zero_of_le hlt.le]
  · have hn : n = fileBufSize := by
      have := b.rest
      have := b.le_left
      rcases b.whole_or_last with ⟨-, hall⟩ | hlast
      · exact hall
      · have := b.le_read
        omega
    rw [hn]

theorem OpenOn.reach_eq (h : OpenOn file f) (he : f.err = false) :
    reach f = min file.data.length file.readable - f.fptr := by
  rw [reach, he, h.objsize, h.readable]
  exact if_neg (by decide)

/-- A block of an object that has not been aborted. -/
theorem OpenOn.read_err (h : OpenOn file f) (he : f.err = false) (n : ℕ) :
    (FF_Read f n).2.err = true ↔
      min n (min file.data.length file.readable - f.fptr) < min n (file.data.length - f.fptr) := by
  rw [(h.read n).2.1, he, h.reach_eq he, h.objsize]
  simp only [Bool.false_eq_true, false_or]

/-- A block that cannot be read aborts the object. -/
theorem uploadLoop_file : ∀ (fuel remaining_size : ℕ) (rc : UInt8) (p : Port) {f : FIL}, OpenOn file f →
    remaining_size ≤ fuel → OpenOn file (uploadLoop fpga fuel remaining_size rc p f).2.2 ∧
      (f.err = true → (uploadLoop fpga fuel remaining_size rc p f).2.2.err = true) ∧
      (f.err = false → f.fptr ≤ file.readable →
        InTime fpga p.waits (2 * waitsFor (min remaining_size (reach f))) →
        ((uploadLoop fpga fuel remaining_size rc p f).2.2.err = true ↔
          file.readable < min file.data.length (f.fptr + wholeBlocks remaining_size)))
  | 0, remaining_size, rc, p, f, h, hfuel => by
    obtain rfl := Nat.le_zero.mp hfuel
    refine ⟨h, fun he => he, fun he hle _ => ?_⟩
    rw [uploadLoop, he, wholeBlocks_zero, Nat.add_zero]
    exact iff_of_false (by decide) (Nat.not_lt.mpr ((Nat.min_le_right _ _).trans hle))
  | fuel + 1, remaining_size, rc, p, f, h, hfuel => by
    obtain ⟨hopen, herr, hfptr⟩ := h.read fileBufSize
    obtain ⟨hblock, -, -, -, hreach⟩ := read_block h.ok fileBufSize
    have hpos : f.fptr ≤ file.data.length := h.objsize ▸ h.ok.fptr_le
    rw [uploadLoop]
    by_cases h0 : remaining_size = 0
    · rw [if_pos h0, h0]
      refine ⟨h, fun he => he, fun he hle _ => ?_⟩
      rw [he, wholeBlocks_zero, Nat.add_zero]
      exact iff_of_false (by decide) (Nat.not_lt.mpr ((Nat.min_le_right _ _).trans hle))
    rw [if_neg h0]
    simp only [read_length h.ok]
    by_cases hempty : min fileBufSize (reach f) = 0
    · rw [if_pos hempty]
      refine ⟨hopen, fun he => herr.mpr (Or.inl he), fun he hle _ => ?_⟩
      rw [h.reach_eq he] at hempty
      rw [h.read_err he]
      exact empty_read hpos hle h0 hempty
    rw [if_neg hempty]
    have b := block_of remaining_size (reach f)
    generalize min (min fileBufSize remaining_size) (min fileBufSize (reach f)) = n at b ⊢
    have hnpos := b.pos h0 hempty
    have hlenn : ((FF_Read f fileBufSize).1.take n).length = n := by
      rw [List.length_take, read_length h.ok, Nat.min_eq_left b.le_read]
    have hsend := @sendLoop_carries fpga n memBufSize ((FF_Read f fileBufSize).1.take n) rc p
      hlenn.le (Or.inr rfl)
    generalize sendLoop fpga n memBufSize ((FF_Read f fileBufSize).1.take n) rc p = r at hsend
    obtain ⟨_ | rc₁, p₁⟩ := r
    · refine ⟨hopen, fun he => herr.mpr (Or.inl he), fun he hle hin => ?_⟩
      rw [b.waits, Nat.mul_add, inTime_add] at hin
      exact Bool.noConfusion (hsend.goes_of (by rw [hlenn]; exact hin.1))
    · simp only
      obtain ⟨hrestOpen, hrestErr, hrestIff⟩ :=
        uploadLoop_file fuel (remaining_size - n) rc₁ p₁ hopen (by omega)
      refine ⟨hrestOpen, fun he => hrestErr (herr.mpr (Or.inl he)), fun he hle hin => ?_⟩
      have hread := h.read_err he fileBufSize
      cases hcut : (FF_Read f fileBufSize).2.err with
      | true => exact iff_of_true (hrestErr hcut) (short_read hpos h0 (hread.mp hcut))
      | false =>
        rw [b.waits, Nat.mul_add, inTime_add] at hin
        rw [hreach, hsend.waits rfl, hlenn, hfptr, h.reach_eq he] at hrestIff
        rw [h.reach_eq he] at b hempty hin
        obtain ⟨hle', hsame⟩ := whole_read h0 (Nat.pos_of_ne_zero hempty)
          (fun hlt => by rw [hread.mpr hlt] at hcut; exact Bool.noConfusion hcut) b
        rw [hrestIff hcut hle' hin.2, hsame]

theorem fileToMem_file (h : OpenOn file f) (base size offset : UInt32) :
    OpenOn file (fileToMem fpga f base size offset).2.2 ∧
      (f.err = true → (fileToMem fpga f base size offset).2.2.err = true) ∧
      (f.err = false → min offset.toNat file.data.length ≤ file.readable →
        InTime fpga 0 (2 * waitsFor (min size.toNat (available f offset.toNat))) →
        ((fileToMem fpga f base size offset).2.2.err = true ↔
          file.readable < min file.data.length
            (min offset.toNat file.data.length + wholeBlocks size.toNat))) := by
  obtain ⟨hopen, herr, hfptr⟩ := h.seek offset.toNat
  have hreach := (seek_available h.ok offset.toNat).2.1
  obtain ⟨hfile, hkeep, hiff⟩ :=
    @uploadLoop_file fpga file size.toNat size.toNat 0 (openPort base 0x00) _ hopen (le_refl _)
  have hsame : (fileToMem fpga f base size offset).2.2 =
      (uploadLoop fpga size.toNat size.toNat 0 (openPort base 0x00) (FF_Seek f offset.toNat).2).2.2 := by
    rw [fileToMem]
    simp only
    generalize uploadLoop fpga size.toNat size.toNat 0 (openPort base 0x00)
        (FF_Seek f offset.toNat).2 = run
    obtain ⟨_ | ⟨remaining_size, rc⟩, p, g⟩ := run
    · rfl
    · simp only
      split <;> rfl
  rw [hsame]
  refine ⟨hfile, fun he => hkeep (herr.trans he), fun he hle hin => ?_⟩
  rw [hreach, hfptr he] at hiff
  exact hiff (herr.trans he) hle hin

/-- A comparison aborts the object only at bytes that cannot be read. -/
theorem verifyLoop_file : ∀ (fuel remaining_size : ℕ) (p : Port) {f : FIL}, OpenOn file f →
    remaining_size ≤ fuel → OpenOn file (verifyLoop fpga fuel remaining_size p f).2.2 ∧
      (f.err = true → (verifyLoop fpga fuel remaining_size p f).2.2.err = true) ∧
      (f.err = false → min file.data.length (f.fptr + wholeBlocks remaining_size) ≤ file.readable →
        (verifyLoop fpga fuel remaining_size p f).2.2.err = false)
  | 0, _, p, f, h, _ => ⟨h, fun he => he, fun he _ => he⟩
  | fuel + 1, remaining_size, p, f, h, hfuel => by
    obtain ⟨hopen, herr, hfptr⟩ := h.read fileBufSize
    have hpos : f.fptr ≤ file.data.length := h.objsize ▸ h.ok.fptr_le
    rw [verifyLoop]
    by_cases h0 : remaining_size = 0
    · rw [if_pos h0]
      exact ⟨h, fun he => he, fun he _ => he⟩
    rw [if_neg h0]
    have hread : f.err = false →
        min file.data.length (f.fptr + wholeBlocks remaining_size) ≤ file.readable →
          (FF_Read f fileBufSize).2.err = false := by
      intro he hle
      rw [← Bool.not_eq_true, h.read_err he]
      exact fun hshort => absurd (short_read hpos h0 hshort) (Nat.not_lt.mpr hle)
    simp only [read_length h.ok]
    by_cases hempty : min fileBufSize (reach f) = 0
    · rw [if_pos hempty]
      exact ⟨hopen, fun he => herr.mpr (Or.inl he), hread⟩
    rw [if_neg hempty]
    have b := block_of remaining_size (reach f)
    generalize min (min fileBufSize remaining_size) (min fileBufSize (reach f)) = n at b ⊢
    have hnpos := b.pos h0 hempty
    generalize fetchLoop fpga n memBufSize n p = r
    obtain ⟨_ | tBuf, p₁⟩ := r
    · exact ⟨hopen, fun he => herr.mpr (Or.inl he), hread⟩
    · simp only
      split
      · exact ⟨hopen, fun he => herr.mpr (Or.inl he), hread⟩
      · obtain ⟨hrestOpen, hrestErr, hrestRead⟩ :=
          verifyLoop_file fuel (remaining_size - n) p₁ hopen (by omega)
        refine ⟨hrestOpen, fun he => hrestErr (herr.mpr (Or.inl he)), fun he hle => ?_⟩
        refine hrestRead (hread he hle) ?_
        rw [h.reach_eq he] at b hempty hfptr
        rw [hfptr, ← Nat.not_lt, (whole_read h0 (Nat.pos_of_ne_zero hempty)
          (fun hlt => absurd (short_read hpos h0 hlt) (Nat.not_lt.mpr hle)) b).2, Nat.not_lt]
        exact hle

theorem fileToMemVerify_file (h : OpenOn file f) (base size offset : UInt32) :
    OpenOn file (fileToMemVerify fpga f base size offset).2.2 ∧
      (f.err = true → (fileToMemVerify fpga f base size offset).2.2.err = true) ∧
      (f.err = false → min file.data.length
          (min offset.toNat file.data.length + wholeBlocks size.toNat) ≤ file.readable →
        (fileToMemVerify fpga f base size offset).2.2.err = false) := by
  obtain ⟨hopen, herr, hfptr⟩ := h.seek offset.toNat
  obtain ⟨hfile, hkeep, hread⟩ :=
    @verifyLoop_file fpga file size.toNat size.toNat (openPort base 0x80) _ hopen (le_refl _)
  refine ⟨hfile, fun he => hkeep (herr.trans he), fun he hle => hread (herr.trans he) ?_⟩
  rwa [hfptr he]

/-- A comparison answers zero exactly when no wait times out and the bytes that arrive are the file's. -/
theorem fileToMemVerify_iff (h : f.Ok) (base size offset : UInt32) :
    (fileToMemVerify fpga f base size offset).1 = 0 ↔
      InTime fpga 0 (waitsFor (min size.toNat (available f offset.toNat))) ∧
        arrived fpga 0 (min size.toNat (available f offset.toNat)) =
          (f.data.drop offset.toNat).take (min size.toNat (available f offset.toNat)) := by
  obtain ⟨hok, hreach, hbytes⟩ := seek_available h offset.toNat
  obtain ⟨hzero, -⟩ := @verifyLoop_spec fpga size.toNat size.toNat (openPort base 0x80) _ hok (le_refl _)
  rw [hreach, hbytes] at hzero
  exact hzero

end FileIO.MCh
