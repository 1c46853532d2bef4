import ReplayFirmware.FileIO.DirectReads
import ReplayFirmware.FileIO.UefRun
import ReplayFirmware.Lib.Passes

/-! Whether the walk over the chunks comes to an end.

    The length of a chunk is four bytes of the file, and the seek over its data takes it as a signed number.
    So a chunk can lead back to its own header or to one before it, and a walk that comes there goes round.
    As long as no chunk leads back, each pass moves on through the file, and the walk ends at its end at the
    latest. -/

namespace FileIO.Uef
open FatFs

/-! ### Passes -/

section
variable (carrier : UInt16 → UInt32)

/-- A pass of the loop of `GetChunkAtPosFile`: the walk that it goes on with. -/
def walkPass (length_check : Bool) (w : Walk) : Option Walk :=
  if FF_isEOF w.f then none
  else
    let (id, chunk, f) := readChunkHeader w.f w.chunk
    if id = 0xFFFF then none
    else
      let chunk := { chunk with file_offset := f.fptr.toUInt32 }
      if played id then
        match chunkBitlen carrier f chunk with
        | (none, _, _) => none
        | (some chunk_bitlen, chunk, f) =>
          if w.bit_pos < chunk_bitlen then none
          else
            some { f := fseek f chunk.length true, chunk := chunk
                   chunk_start := w.chunk_start + chunk_bitlen, bit_pos := w.bit_pos - chunk_bitlen }
      else if length_check then
        match describe f chunk with
        | (false, _) => none
        | (true, f) =>
          some { w with f := fseek (fseek f chunk.file_offset false) chunk.length true, chunk := chunk }
      else some { w with f := fseek f chunk.length true, chunk := chunk }

end

variable {carrier : UInt16 → UInt32} {length_check : Bool} {w w' : Walk} {f : FIL}

/-- The loop makes these passes. -/
theorem walkLoop_runs (carrier : UInt16 → UInt32) (length_check : Bool) :
    Passes.Runs (walkPass carrier length_check) (walkLoop carrier length_check) := by
  have hstep : ∀ w fuel, walkPass carrier length_check w = none ∧
        (walkLoop carrier length_check (fuel + 1) w).isSome ∨
      ∃ w', walkPass carrier length_check w = some w' ∧
        walkLoop carrier length_check (fuel + 1) w = walkLoop carrier length_check fuel w' := by
    intro w fuel
    rw [walkPass, walkLoop]
    split
    · exact Or.inl ⟨rfl, rfl⟩
    generalize readChunkHeader w.f w.chunk = header
    obtain ⟨id, chunk, f⟩ := header
    simp only
    split
    · exact Or.inl ⟨rfl, rfl⟩
    split
    · generalize chunkBitlen carrier f _ = bitlen
      obtain ⟨_ | chunk_bitlen, chunk', f'⟩ := bitlen
      · exact Or.inl ⟨rfl, rfl⟩
      · simp only
        split
        · exact Or.inl ⟨rfl, rfl⟩
        · exact Or.inr ⟨_, rfl, rfl⟩
    split
    · generalize describe f _ = printed
      obtain ⟨_ | _, f'⟩ := printed
      · exact Or.inl ⟨rfl, rfl⟩
      · exact Or.inr ⟨_, rfl, rfl⟩
    · exact Or.inr ⟨_, rfl, rfl⟩
  refine ⟨fun _ => rfl, fun w hpass fuel => ?_, fun w w' hpass fuel => ?_⟩
  · rcases hstep w fuel with ⟨-, hsome⟩ | ⟨w', hpass', -⟩
    · exact hsome
    · rw [hpass] at hpass'
      exact absurd hpass'.symm (Option.some_ne_none w')
  · rcases hstep w fuel with ⟨hnone, -⟩ | ⟨w₁, hpass', hloop⟩
    · rw [hnone] at hpass
      exact absurd hpass.symm (Option.some_ne_none w')
    · rw [Option.some.inj (hpass.symm.trans hpass')]
      exact hloop

/-! ### Where seeks and reads leave the file -/

/-- The same file, at whatever position; a seek can have extended it if it is open for writing. -/
structure Same (f f' : FIL) : Prop where
  good : Good f'
  write : f'.write = f.write
  cap : f'.cap = f.cap
  size : f.objsize ≤ f'.objsize
  data : f.write = false → f'.data = f.data

theorem Same.refl (h : Good f) : Same f f := ⟨h, rfl, rfl, le_refl _, fun _ => rfl⟩

theorem Same.trans {f' f'' : FIL} (h : Same f f') (h' : Same f' f'') : Same f f'' :=
  ⟨h'.good, h'.write.trans h.write, h'.cap.trans h.cap, h.size.trans h'.size,
    fun hw => (h'.data (h.write.trans hw)).trans (h.data hw)⟩

theorem read_same (h : Good f) (n : ℕ) : Same f (FF_Read f n).2 ∧
    (FF_Read f n).2.fptr = f.fptr + min n (f.objsize - f.fptr) := by
  obtain ⟨hdata, hwrite⟩ := FF_Read_kept f n
  have hcap := h.sound.size_le
  have hread := h.sound.readable
  have havail : f.avail n = min n (f.objsize - f.fptr) := by
    rw [FIL.avail, if_neg (by rw [h.sound.err]; decide)]
    omega
  refine ⟨⟨h.read n, hwrite, ?_, ?_, fun _ => hdata⟩, ?_⟩
  · rw [FF_Read, f_read_eq h.ok]
    rfl
  · rw [FIL.objsize, FIL.objsize, hdata]
  · rw [FF_Read, f_read_eq h.ok, havail]
    rfl

theorem seek_same (h : Good f) (ofs : ℕ) : Same f (FF_Seek f ofs).2 := by
  obtain ⟨hsought, -, -, -⟩ := seek_sought h.sound ofs
  have hsize := hsought.size
  refine ⟨h.seek ofs, hsought.same.write, hsought.same.cap, by omega, fun hw => ?_⟩
  have hgo : ¬f.err = true := by rw [h.sound.err]; decide
  rw [FF_Seek]
  split
  · rfl
  · have htarget : f.target ofs - f.objsize = 0 := by
      rw [FIL.target, hw]
      split
      · omega
      · next hle =>
        simp only [Bool.not_false, and_true, not_lt] at hle
        omega
    rw [f_lseek_data, if_neg hgo, FIL.extend, htarget]
    exact List.append_nil _

/-- A seek that goes behind all that the file can be. -/
theorem seek_far (h : Good f) {ofs : ℕ} (hfar : f.cap < ofs) :
    (FF_Seek f ofs).2.fptr = if f.write then f.cap else f.objsize := by
  have hcap := h.sound.size_le
  have hle := h.ok.fptr_le
  have hgo : ¬f.err = true := by rw [h.sound.err]; decide
  have htarget : f.target ofs = if f.write then f.cap else f.objsize := by
    rw [FIL.target]
    cases f.write with
    | true =>
      rw [if_neg (by simp), if_pos rfl]
      omega
    | false =>
      rw [if_pos ⟨by omega, rfl⟩, if_neg (by decide)]
      omega
  rw [← htarget, FF_Seek, if_neg (by omega), f_lseek, if_neg hgo]
  simp only
  split
  · next h0 => exact h0.symm
  · rfl

theorem toInt_range (x : UInt32) : -(2 ^ 31 : ℤ) ≤ x.toBitVec.toInt ∧ x.toBitVec.toInt < 2 ^ 31 :=
  ⟨BitVec.le_toInt x.toBitVec, BitVec.toInt_lt⟩

/-- Where a seek lands: where it is asked to, or at the end of the file. -/
theorem fseek_lands (h : Good f) (hcap : f.cap < 2 ^ 63) (offset : UInt32) (cur : Bool) {t : ℤ}
    (ht : t = offset.toBitVec.toInt + if cur then (f.fptr : ℤ) else 0) :
    Same f (fseek f offset cur) ∧
      (0 ≤ t → t ≤ f.objsize → ((fseek f offset cur).fptr : ℤ) = t) ∧
      (t < 0 ∨ (f.objsize : ℤ) < t →
        (fseek f offset cur).fptr = (fseek f offset cur).objsize) ∧
      (t < 0 → (fseek f offset cur).fptr = if f.write then f.cap else f.objsize) := by
  obtain ⟨hlo, hhi⟩ := toInt_range offset
  have hsize := h.sound.size_le
  have hle := h.ok.fptr_le
  have htop : t < 2 ^ 64 := by
    rw [ht]
    split <;> omega
  have hseek : fseek f offset cur = (FF_Seek f (t % 2 ^ 64).toNat).2 := by rw [fseek, ← ht]
  have hlow : -(2 ^ 31 : ℤ) ≤ t := by
    rw [ht]
    split <;> omega
  obtain ⟨-, -, hin, hout⟩ := seek_sought h.sound (t % 2 ^ 64).toNat
  have hsame := seek_same h (t % 2 ^ 64).toNat
  have hend := hsame.good.ok.fptr_le
  rw [hseek]
  refine ⟨hsame, fun h0 hle => ?_, fun hbehind => ?_, fun hneg => ?_⟩
  · rw [hin (by omega)]
    omega
  · have := hout (by omega)
    omega
  · exact seek_far h (by omega)

/-! ### Where a pass leads -/

/-- A header that is all there. -/
theorem header_whole (h : Good f) (chunk : ChunkInfo) (hid : (readChunkHeader f chunk).1 ≠ 0xFFFF) :
    f.fptr + 6 ≤ f.objsize ∧
      (readChunkHeader f chunk).1 = word (behind f.data f.fptr) 0 ∧
      (readChunkHeader f chunk).2.1.length = long (behind f.data f.fptr) 2 ∧
      Same f (readChunkHeader f chunk).2.2 ∧ (readChunkHeader f chunk).2.2.fptr = f.fptr + 6 := by
  have hholds : Holds f.data 0 f :=
    ⟨h.ok, h.sound.err, h.sound.readable, List.prefix_refl _, Nat.le_max_left _ _⟩
  obtain ⟨f', -, -, hwhole, hcut⟩ := hholds.header rfl chunk
  obtain ⟨hsame, hfptr⟩ := read_same h 6
  have hfile : (readChunkHeader f chunk).2.2 = (FF_Read f 6).2 := rfl
  have hin : f.fptr + 6 ≤ f.objsize := by
    by_contra hshort
    obtain ⟨chunk', hheader, -⟩ := hcut (by omega)
    rw [hheader] at hid
    exact hid rfl
  obtain ⟨-, hheader⟩ := hwhole hin
  refine ⟨hin, ?_, ?_, ?_, ?_⟩
  · rw [hheader]
  · rw [hheader]
  · rw [hfile]
    exact hsame
  · rw [hfile, hfptr]
    omega

/-- The file is back at the data of the chunk when the length in bits is known. -/
theorem chunkBitlen_same {chunk chunk' : ChunkInfo} {chunk_bitlen : UInt32} {f' : FIL} (h : Good f)
    (hcap : f.cap < 2 ^ 63)
    (hrun : chunkBitlen carrier f chunk = (some chunk_bitlen, chunk', f')) :
    Same f f' ∧ f'.fptr = f.fptr ∧ chunk'.length = chunk.length := by
  have hle := h.ok.fptr_le
  have hsize := h.sound.size_le
  have hback : ∀ {f₁ : FIL}, Same f f₁ →
      Same f (FF_Seek f₁ f.fptr).2 ∧ (FF_Seek f₁ f.fptr).2.fptr = f.fptr := by
    intro f₁ h₁
    have hin := (seek_sought h₁.good.sound f.fptr).2.2.1
    exact ⟨h₁.trans (seek_same h₁.good f.fptr), hin (hle.trans h₁.size)⟩
  obtain ⟨hsame₁, hfptr₁⟩ := read_same h 2
  have hlen₁ := h.read_length 2
  rw [chunkBitlen] at hrun
  split at hrun
  · obtain ⟨-, rfl, rfl⟩ := hrun
    exact ⟨Same.refl h, rfl, rfl⟩
  simp only at hrun
  split at hrun
  · split at hrun
    · exact absurd (Prod.mk.inj hrun).1.symm (Option.some_ne_none _)
    · next hread =>
      obtain ⟨-, rfl, rfl⟩ := hrun
      rw [(fseek_back (by omega)).1 (show _ = f.fptr + 2 by omega)]
      exact ⟨(hback hsame₁).1, (hback hsame₁).2, rfl⟩
  · split at hrun
    · exact absurd (Prod.mk.inj hrun).1.symm (Option.some_ne_none _)
    · next hread =>
      obtain ⟨hsame₂, hfptr₂⟩ := read_same hsame₁.good 2
      have hlen₂ := hsame₁.good.read_length 2
      split at hrun
      · exact absurd (Prod.mk.inj hrun).1.symm (Option.some_ne_none _)
      · next hread' =>
        obtain ⟨-, rfl, rfl⟩ := hrun
        rw [(fseek_back (by omega)).2 (show _ = f.fptr + 4 by omega)]
        have hthere := hback (hsame₁.trans hsame₂)
        exact ⟨hthere.1, hthere.2, rfl⟩

theorem infoLoop_same : ∀ (fuel : ℕ) (length : UInt32) {f : FIL}, Good f →
    Same f (infoLoop fuel length f)
  | 0, _, _, h => Same.refl h
  | fuel + 1, length, f, h => by
    have hsame := (read_same h (min length 63).toNat).1
    rw [infoLoop]
    split
    · exact Same.refl h
    · simp only
      split
      · exact hsame
      · exact hsame.trans (infoLoop_same fuel _ hsame.good)

theorem describe_same (h : Good f) (chunk : ChunkInfo) : Same f (describe f chunk).2 := by
  rw [describe]
  split
  · exact infoLoop_same _ _ h
  · split
    · exact (read_same h 4).1
    · exact Same.refl h

/-- Where the seek over a chunk begins: at its data, which is sought again when the chunk has been printed.
    `file_offset` is 32 bits and a negative offset goes to the end of the file. -/
def passStart (length_check : Bool) (f : FIL) : ℕ :=
  if played (word (behind f.data f.fptr) 0) ∨ length_check = false then f.fptr + 6
  else if (f.fptr + 6) % 2 ^ 32 < 2 ^ 31 then (f.fptr + 6) % 2 ^ 32
  else if f.write then f.cap else f.objsize

/-- Where the header at the position of the file says that the next one is. -/
def passTarget (length_check : Bool) (f : FIL) : ℤ :=
  passStart length_check f + (long (behind f.data f.fptr) 2).toBitVec.toInt

/-- The chunk leads back to its own header or to a place before it. -/
def LeadsBack (length_check : Bool) (f : FIL) : Prop :=
  0 ≤ passTarget length_check f ∧ passTarget length_check f ≤ f.fptr

/-- A pass leaves the file where the header says; what lies before or behind the file comes to its end. -/
theorem walkPass_next (h : Good w.f) (hcap : w.f.cap < 2 ^ 63)
    (hpass : walkPass carrier length_check w = some w') :
    Same w.f w'.f ∧ w.f.fptr < w.f.objsize ∧
      (LeadsBack length_check w.f → (w'.f.fptr : ℤ) = passTarget length_check w.f) ∧
      (¬LeadsBack length_check w.f → w.f.fptr < w'.f.fptr) := by
  have hsize := h.sound.size_le
  -- the seek over the data, from a file `f` that stands at its start
  have hgo : ∀ {f : FIL} {length : UInt32}, Same w.f f → f.fptr = passStart length_check w.f →
      length = long (behind w.f.data w.f.fptr) 2 → w.f.fptr < w.f.objsize →
      Same w.f (fseek f length true) ∧ w.f.fptr < w.f.objsize ∧
        (LeadsBack length_check w.f → ((fseek f length true).fptr : ℤ) = passTarget length_check w.f) ∧
        (¬LeadsBack length_check w.f → w.f.fptr < (fseek f length true).fptr) := by
    intro f length hsame hfptr hlength hlt
    have hcap' := hsame.cap
    have hsize' := hsame.size
    obtain ⟨hsame', hin, hend, -⟩ := fseek_lands hsame.good (by omega) length true
      (t := passTarget length_check w.f) (by rw [passTarget, hlength, hfptr, if_pos rfl, add_comm])
    have hsize'' := hsame'.size
    refine ⟨hsame.trans hsame', hlt, fun hback => ?_, fun hforth => ?_⟩
    · exact hin hback.1 (by have := hback.2; omega)
    · rw [LeadsBack] at hforth
      by_cases hinside : 0 ≤ passTarget length_check w.f ∧ passTarget length_check w.f ≤ f.objsize
      · have := hin hinside.1 hinside.2
        omega
      · have := hend (by omega)
        omega
  rw [walkPass] at hpass
  split at hpass
  · exact absurd hpass.symm (Option.some_ne_none _)
  · next heof =>
    have hlt : w.f.fptr < w.f.objsize :=
      Nat.lt_of_le_of_ne h.ok.fptr_le fun heq => heof (decide_eq_true heq)
    by_cases hid : (readChunkHeader w.f w.chunk).1 = 0xFFFF
    · simp only [hid, if_true] at hpass
      exact absurd hpass.symm (Option.some_ne_none _)
    obtain ⟨hin, hword, hlong, hsame₁, hfptr₁⟩ := header_whole h w.chunk hid
    generalize readChunkHeader w.f w.chunk = header at hpass hid hword hlong hsame₁ hfptr₁
    obtain ⟨id, chunk, f₁⟩ := header
    simp only at hpass hid hword hlong hsame₁ hfptr₁
    have hcap₁ := hsame₁.cap
    rw [if_neg hid] at hpass
    by_cases hplayed : played id = true
    · rw [if_pos hplayed] at hpass
      have hstart : passStart length_check w.f = w.f.fptr + 6 := by
        rw [passStart, ← hword, if_pos (Or.inl hplayed)]
      cases hrun : chunkBitlen carrier f₁ { chunk with file_offset := f₁.fptr.toUInt32 } with
      | mk bitlen rest =>
        obtain ⟨chunk', f₂⟩ := rest
        rw [hrun] at hpass
        cases bitlen with
        | none => exact absurd hpass.symm (Option.some_ne_none _)
        | some chunk_bitlen =>
          obtain ⟨hsame₂, hfptr₂, hlength⟩ := chunkBitlen_same hsame₁.good (by omega) hrun
          simp only at hpass
          split at hpass
          · exact absurd hpass.symm (Option.some_ne_none _)
          · obtain rfl := Option.some.inj hpass
            exact hgo (hsame₁.trans hsame₂) (by rw [hfptr₂, hfptr₁, hstart])
              (hlength.trans hlong) hlt
    · rw [if_neg hplayed] at hpass
      cases length_check with
      | false =>
        have hstart : passStart false w.f = w.f.fptr + 6 := by rw [passStart, if_pos (Or.inr rfl)]
        rw [if_neg (by decide)] at hpass
        obtain rfl := Option.some.inj hpass
        exact hgo hsame₁ (by rw [hfptr₁, hstart]) hlong hlt
      | true =>
        rw [if_pos rfl] at hpass
        have hsame₂ := describe_same hsame₁.good { chunk with file_offset := f₁.fptr.toUInt32 }
        cases hrun : describe f₁ { chunk with file_offset := f₁.fptr.toUInt32 } with
        | mk good f₂ =>
          rw [hrun] at hpass hsame₂
          cases good with
          | false => exact absurd hpass.symm (Option.some_ne_none _)
          | true =>
            obtain rfl := Option.some.inj hpass
            simp only at hsame₂
            have hthere := hsame₁.trans hsame₂
            have hcap₂ := hthere.cap
            have hsize₂ := hthere.size
            have hoff : f₁.fptr.toUInt32.toNat = (w.f.fptr + 6) % 2 ^ 32 := by
              rw [hfptr₁]
              exact UInt32.toNat_ofNat'
            obtain ⟨hsame₃, hset, -, hneg⟩ := fseek_lands hthere.good (by omega) f₁.fptr.toUInt32 false
              (t := f₁.fptr.toUInt32.toBitVec.toInt) (by simp)
            refine hgo (hthere.trans hsame₃) ?_ hlong hlt
            rw [passStart, ← hword, if_neg (by simp [hplayed])]
            by_cases hlow : (w.f.fptr + 6) % 2 ^ 32 < 2 ^ 31
            · have hint := toInt_of_lt (by rw [hoff]; exact hlow : f₁.fptr.toUInt32.toNat < 2 ^ 31)
              rw [if_pos hlow]
              have := hset (by omega) (by omega)
              omega
            · rw [if_neg hlow]
              have hint : f₁.fptr.toUInt32.toBitVec.toInt < 0 := by
                rw [BitVec.toInt_eq_toNat_cond, if_neg]
                · have := f₁.fptr.toUInt32.toNat_lt
                  have heq : f₁.fptr.toUInt32.toBitVec.toNat = f₁.fptr.toUInt32.toNat := rfl
                  omega
                · have heq : f₁.fptr.toUInt32.toBitVec.toNat = f₁.fptr.toUInt32.toNat := rfl
                  omega
              rw [hneg hint, hthere.write, hcap₂]
              cases hw : w.f.write with
              | true => rfl
              | false =>
                have hdata : f₂.objsize = w.f.objsize := congrArg List.length (hthere.data hw)
                rw [hdata]

/-! ### Whole walks -/

/-- Every pass of the loop moves on through the file. -/
def Advances (carrier : UInt16 → UInt32) (length_check : Bool) (w : Walk) : Prop :=
  ∀ w₁ w₂, Passes.Comes (walkPass carrier length_check) w w₁ →
    walkPass carrier length_check w₁ = some w₂ → w₁.f.fptr < w₂.f.fptr

/-- No chunk that the walk passes over leads back. -/
def NeverBack (carrier : UInt16 → UInt32) (length_check : Bool) (w : Walk) : Prop :=
  ∀ w₁ w₂, Passes.Comes (walkPass carrier length_check) w w₁ →
    walkPass carrier length_check w₁ = some w₂ → ¬LeadsBack length_check w₁.f

theorem walk_same (h : Good w.f) (hcap : w.f.cap < 2 ^ 63)
    (hcomes : Passes.Comes (walkPass carrier length_check) w w') : Same w.f w'.f := by
  have hkeep : ∀ w₁ w₂, Same w.f w₁.f → walkPass carrier length_check w₁ = some w₂ →
      Same w.f w₂.f := by
    intro w₁ w₂ h₁ hpass
    exact h₁.trans (walkPass_next h₁.good (by rw [h₁.cap]; exact hcap) hpass).1
  exact hcomes.keeps hkeep (Same.refl h)

theorem advances_iff (h : Good w.f) (hcap : w.f.cap < 2 ^ 63) :
    Advances carrier length_check w ↔ NeverBack carrier length_check w := by
  refine forall_congr' fun w₁ => forall_congr' fun w₂ => forall_congr' fun hcomes =>
    forall_congr' fun hpass => ?_
  have hsame := walk_same h hcap hcomes
  obtain ⟨-, -, hback, hforth⟩ := walkPass_next hsame.good (by rw [hsame.cap]; exact hcap) hpass
  constructor
  · intro hlt hleads
    have := hback hleads
    have := hleads.2
    omega
  · exact hforth

/-- A walk that always moves on ends. -/
theorem walkLoop_stops (h : Good w.f) (hcap : w.f.cap < 2 ^ 63)
    (hadvances : Advances carrier length_check w) :
    ∃ fuel, (walkLoop carrier length_check fuel w).isSome := by
  refine (walkLoop_runs carrier length_check).stops (fun w' => w.f.cap - w'.f.fptr)
    fun w₁ w₂ hcomes hpass => ?_
  have hsame := walk_same h hcap hcomes
  have hlt := hadvances w₁ w₂ hcomes hpass
  have hle := hsame.good.ok.fptr_le
  obtain ⟨-, hin, -, -⟩ := walkPass_next hsame.good (by rw [hsame.cap]; exact hcap) hpass
  have hsize := hsame.good.sound.size_le
  have hcap₁ := hsame.cap
  omega

/-- The record is that of the chunk with the position. -/
def Cached (chunk : ChunkInfo) (bit_pos : UInt32) : Prop :=
  chunk.bit_offset_start ≤ bit_pos ∧ bit_pos < chunk.bit_offset_end

instance (chunk : ChunkInfo) (bit_pos : UInt32) : Decidable (Cached chunk bit_pos) :=
  inferInstanceAs (Decidable (_ ∧ _))

/-- Where the walk of a query begins: behind the chunk of the record, or at the first chunk. -/
def walkFrom (f : FIL) (chunk : ChunkInfo) (bit_pos : UInt32) : Walk :=
  if chunk.bit_offset_end ≠ 0 ∧ chunk.bit_offset_end ≤ bit_pos then
    { f := fseek f (chunk.file_offset + chunk.length) false
      chunk := { chunk with bit_offset_end := 0 }
      chunk_start := chunk.bit_offset_end, bit_pos := bit_pos - chunk.bit_offset_end }
  else
    { f := fseek f 12 false, chunk := { chunk with bit_offset_end := 0 }
      chunk_start := 0, bit_pos := bit_pos }

theorem getChunkAtPosFile_walk (fuel : ℕ) (f : FIL) (chunk : ChunkInfo) (bit_pos : UInt32) :
    (getChunkAtPosFile carrier fuel f chunk bit_pos).isSome =
      if Cached chunk bit_pos then true
      else (walkLoop carrier (bit_pos = 0xFFFFFFFF) fuel (walkFrom f chunk bit_pos)).isSome := by
  by_cases hcached : Cached chunk bit_pos
  · rw [if_pos hcached, getChunkAtPosFile]
    exact congrArg Option.isSome (if_pos hcached)
  · have hnot : ¬(chunk.bit_offset_start ≤ bit_pos ∧ bit_pos < chunk.bit_offset_end) := hcached
    rw [if_neg hcached, getChunkAtPosFile, if_neg hnot]
    exact Option.isSome_map

theorem walkFrom_same (h : Good f) (chunk : ChunkInfo) (bit_pos : UInt32) :
    Same f (walkFrom f chunk bit_pos).f := by
  rw [walkFrom]
  split <;> exact seek_same h _

/-- A query advances through the file and comes to an end. -/
structure Scans (carrier : UInt16 → UInt32) (f : FIL) (chunk : ChunkInfo) (bit_pos : UInt32) : Prop where
  advances : ¬Cached chunk bit_pos →
    Advances carrier (bit_pos = 0xFFFFFFFF) (walkFrom f chunk bit_pos)
  stops : ∃ fuel, (getChunkAtPosFile carrier fuel f chunk bit_pos).isSome

/-- No chunk that the query passes over leads back. -/
def OnlyForward (carrier : UInt16 → UInt32) (f : FIL) (chunk : ChunkInfo) (bit_pos : UInt32) : Prop :=
  ¬Cached chunk bit_pos → NeverBack carrier (bit_pos = 0xFFFFFFFF) (walkFrom f chunk bit_pos)

theorem scans_iff (h : Good f) (hcap : f.cap < 2 ^ 63) (chunk : ChunkInfo) (bit_pos : UInt32) :
    Scans carrier f chunk bit_pos ↔ OnlyForward carrier f chunk bit_pos := by
  have hsame := walkFrom_same h chunk bit_pos
  have hcap' : (walkFrom f chunk bit_pos).f.cap < 2 ^ 63 := by rw [hsame.cap]; exact hcap
  constructor
  · rintro ⟨hadvances, -⟩ hcached
    exact (advances_iff hsame.good hcap').mp (hadvances hcached)
  · intro hforward
    refine ⟨fun hcached => (advances_iff hsame.good hcap').mpr (hforward hcached), ?_⟩
    by_cases hcached : Cached chunk bit_pos
    · exact ⟨0, by rw [getChunkAtPosFile_walk, if_pos hcached]⟩
    · obtain ⟨fuel, hfuel⟩ := walkLoop_stops hsame.good hcap'
        ((advances_iff hsame.good hcap').mpr (hforward hcached))
      exact ⟨fuel, by rw [getChunkAtPosFile_walk, if_neg hcached]; exact hfuel⟩

/-! ### The insert -/

/-- The file is inserted as a tape: its extension and its header say so. -/
def IsTape (f : FIL) (ext : List UInt8) : Prop :=
  ¬extIs ext "RAW" = true ∧ extIs ext "UEF" = true ∧
    (FF_Read (FF_Seek f 0).2 12).1.length = 12 ∧
    (FF_Read (FF_Seek f 0).2 12).1.take 10 = strBytes "UEF File!" ++ [0]

/-- The file behind its header. -/
def behindHeader (f : FIL) : FIL := (FF_Read (FF_Seek f 0).2 12).2

/-- The insert of a file comes to an end, and the computation of the size advances through it. -/
structure Inserts (carrier : UInt16 → UInt32) (drive_number status : UInt8) (f : FIL)
    (ext : List UInt8) : Prop where
  advances : IsTape f ext → Advances carrier true (walkFrom (behindHeader f) .zero 0xFFFFFFFF)
  stops : ∃ fuel, (insertInit carrier fuel drive_number status f ext).isSome

theorem insertInit_isSome (fuel : ℕ) (drive_number status : UInt8) (f : FIL) (ext : List UInt8) :
    (IsTape f ext → (insertInit carrier fuel drive_number status f ext).isSome
        = (getChunkAtPosFile carrier fuel (behindHeader f) .zero 0xFFFFFFFF).isSome) ∧
      (¬IsTape f ext → (insertInit carrier fuel drive_number status f ext).isSome) := by
  constructor
  · rintro ⟨hraw, huef, hlen, htag⟩
    rw [insertInit, if_neg hraw, if_pos huef]
    simp only
    rw [if_neg (not_not.mpr hlen), if_neg (not_not.mpr htag), behindHeader]
    cases getChunkAtPosFile carrier fuel (FF_Read (FF_Seek f 0).2 12).2 .zero 0xFFFFFFFF with
    | none => rfl
    | some r => rfl
  · intro hnot
    rw [insertInit]
    split
    · rfl
    · next hraw =>
      split
      · next huef =>
        simp only
        split
        · rfl
        · next hlen =>
          split
          · rfl
          · next htag => exact absurd ⟨hraw, huef, not_not.mp hlen, not_not.mp htag⟩ hnot
      · rfl

theorem inserts_iff (h : Good f) (hcap : f.cap < 2 ^ 63) (drive_number status : UInt8)
    (ext : List UInt8) : Inserts carrier drive_number status f ext ↔
      (IsTape f ext → OnlyForward carrier (behindHeader f) .zero 0xFFFFFFFF) := by
  have hsame : Same f (behindHeader f) :=
    (seek_same h 0).trans (read_same (seek_same h 0).good 12).1
  have hscans := @scans_iff carrier _ hsame.good (by rw [hsame.cap]; exact hcap) .zero 0xFFFFFFFF
  have huncached : ¬Cached .zero 0xFFFFFFFF := by decide
  constructor
  · rintro ⟨hadvances, fuel, hstops⟩ htape
    have hsome := (@insertInit_isSome carrier fuel drive_number status f ext).1 htape
    exact hscans.mp ⟨fun _ => hadvances htape, fuel, hsome ▸ hstops⟩
  · intro hforward
    refine ⟨fun htape => (hscans.mpr (hforward htape)).advances huncached, ?_⟩
    by_cases htape : IsTape f ext
    · obtain ⟨fuel, hfuel⟩ := (hscans.mpr (hforward htape)).stops
      exact ⟨fuel, by rw [(insertInit_isSome fuel drive_number status f ext).1 htape]; exact hfuel⟩
    · exact ⟨0, (insertInit_isSome 0 drive_number status f ext).2 htape⟩

/-- A file of the header alone. -/
def emptyTape : File :=
  { data := uefHeader, slack := fun _ => 0, cap := 512, csize := 512, readable := 512
    size_le := by decide, csize_pos := sector_pos }

theorem emptyTape_good : Good (f_open emptyTape false) :=
  ⟨f_open_ok _ _, ⟨emptyTape.csize_pos, emptyTape.size_le, rfl, le_refl _⟩⟩

/-- A chunk of no interest has a pass behind it. -/
theorem walkPass_silent (h : Good w.f) (hin : w.f.fptr + 6 ≤ w.f.objsize)
    (hplayed : played (word (behind w.f.data w.f.fptr) 0) = false)
    (hid : word (behind w.f.data w.f.fptr) 0 ∉ [0xFFFF, freqChgID, floatGapID]) :
    ∃ w', walkPass carrier true w = some w' := by
  have hholds : Holds w.f.data 0 w.f :=
    ⟨h.ok, h.sound.err, h.sound.readable, List.prefix_refl _, Nat.le_max_left _ _⟩
  obtain ⟨f', -, -, hwhole, -⟩ := hholds.header rfl w.chunk
  obtain ⟨-, hheader⟩ := hwhole hin
  simp only [List.mem_cons, List.not_mem_nil, or_false, not_or] at hid
  have hprinted : ∀ chunk : ChunkInfo, chunk.id = word (behind w.f.data w.f.fptr) 0 →
      (describe f' chunk).1 = true := by
    intro chunk hchunk
    rw [describe]
    split
    · rfl
    · rw [if_neg]
      · rw [hchunk]
        exact not_or.mpr ⟨fun heq => hid.2.1 heq.symm, fun heq => hid.2.2 heq.symm⟩
  rw [walkPass, if_neg fun heof => by have := of_decide_eq_true heof; omega]
  simp only [hheader, if_neg hid.1, hplayed, Bool.false_eq_true, if_false, if_true]
  have hgood := hprinted
    { w.chunk with
      id := word (behind w.f.data w.f.fptr) 0, length := long (behind w.f.data w.f.fptr) 2
      file_offset := f'.fptr.toUInt32 } rfl
  generalize describe f' _ = r at hgood
  obtain ⟨good, f₂⟩ := r
  simp only at hgood
  rw [hgood]
  exact ⟨_, rfl⟩

/-- A tape whose first chunk leads back to its own header. -/
def circleTape : File :=
  { data := uefHeader ++ [0x14, 0x01, 0xFA, 0xFF, 0xFF, 0xFF], slack := fun _ => 0, cap := 512
    csize := 512, readable := 512, size_le := by decide, csize_pos := sector_pos }

theorem circleTape_good : Good (f_open circleTape false) :=
  ⟨f_open_ok _ _, ⟨circleTape.csize_pos, circleTape.size_le, rfl, le_refl _⟩⟩

/-- At the header of its chunk. -/
def AtChunk (w : Walk) : Prop :=
  Same (f_open circleTape false) w.f ∧ w.f.fptr = 12

theorem AtChunk.next (h : AtChunk w) : ∃ w', walkPass carrier true w = some w' ∧ AtChunk w' := by
  obtain ⟨hsame, hfptr⟩ := h
  have hdata : w.f.data = circleTape.data := hsame.data rfl
  have hsize : w.f.objsize = 18 := by rw [FIL.objsize, hdata]; rfl
  obtain ⟨w', hpass⟩ := @walkPass_silent carrier _ hsame.good (by omega)
    (by rw [hdata, hfptr]; decide) (by rw [hdata, hfptr]; decide)
  have hcap : w.f.cap < 2 ^ 63 := by rw [hsame.cap]; decide
  obtain ⟨hsame', -, hback, -⟩ := walkPass_next hsame.good hcap hpass
  have hstart : passStart true w.f = 18 := by
    rw [passStart, hdata, hfptr, if_neg (by decide), if_pos (by decide)]
    rfl
  have htarget : passTarget true w.f = 12 := by
    rw [passTarget, hstart, hdata, hfptr]
    decide
  refine ⟨w', hpass, hsame.trans hsame', ?_⟩
  have hleads := hback ⟨by rw [htarget]; decide, by rw [htarget, hfptr]; decide⟩
  omega

end FileIO.Uef
