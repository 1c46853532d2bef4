import ReplayFirmware.FileIO.ReadFrame
import ReplayFirmware.FileIO.Uef

/-! The walk over the chunks of a UEF file.

    The file on the tape drive is the image as it was mounted, or has grown by the seek to the end of
    a chunk that is cut off. A walk that starts at a chunk ends at the chunk that holds the position,
    or behind the last. -/

namespace FileIO.Uef
open FatFs

/-! ### The file of a tape -/

/-- The file holds an image, and at most what a chunk that is cut off claims behind it; the medium can
    be read. -/
structure Holds (data : List UInt8) (stop : ℕ) (f : FIL) : Prop where
  ok : f.Ok
  healthy : f.err = false
  readable : f.cap ≤ f.readable
  image : data <+: f.data
  size : f.objsize ≤ max data.length stop

theorem Holds.length_le {data : List UInt8} {stop : ℕ} {f : FIL} (h : Holds data stop f) :
    data.length ≤ f.objsize := h.image.length_le

/-- A seek ends where it is asked to, or at the end of the file, which grows no further than that. -/
theorem Holds.seek_pos {data : List UInt8} {stop : ℕ} {f : FIL} (h : Holds data stop f) (t : ℕ) :
    Holds data (max stop t) (FF_Seek f t).2 ∧
      (FF_Seek f t).2.fptr = min t (FF_Seek f t).2.objsize ∧
      (FF_Seek f t).2.objsize ≤ max f.objsize t := by
  have hok := FF_Seek_ok h.ok t
  have hcap := h.ok.size_le
  have hsize := h.size
  rw [FF_Seek] at hok ⊢
  by_cases hpos : t = f.fptr
  · rw [if_pos hpos]
    have hle := h.ok.fptr_le
    have hsize' : f.objsize ≤ max data.length (max stop t) := by omega
    refine ⟨⟨h.ok, h.healthy, h.readable, h.image, hsize'⟩, ?_, ?_⟩
    · show f.fptr = min t f.objsize
      omega
    · exact Nat.le_max_left f.objsize t
  · rw [if_neg hpos] at hok ⊢
    have hnot : ¬f.err = true := by rw [h.healthy]; decide
    have hdata := f_lseek_data f t
    rw [if_neg hnot] at hdata
    have hlen : (f_lseek f t).2.objsize = max f.objsize (f.target t) := by
      rw [FIL.objsize, hdata, FIL.length_extend]
    have htarget : f.target t ≤ max f.objsize t ∧
        f.target t = min t (max f.objsize (f.target t)) := by
      rw [FIL.target]
      split
      · next hlt =>
        have := hlt.1
        omega
      · next hlt =>
        omega
    have hfields : (f_lseek f t).2.err = false ∧ (f_lseek f t).2.cap = f.cap ∧
        (f_lseek f t).2.readable = f.readable ∧ (f_lseek f t).2.fptr = f.target t := by
      rw [f_lseek, if_neg hnot]
      simp only
      split
      · next h0 => exact ⟨h.healthy, rfl, rfl, h0.symm⟩
      · exact ⟨h.healthy, rfl, rfl, rfl⟩
    obtain ⟨herr, hcap', hread, hfptr⟩ := hfields
    refine ⟨⟨hok, herr, ?_, ?_, ?_⟩, ?_, ?_⟩
    · rw [hcap', hread]
      exact h.readable
    · rw [hdata]
      exact h.image.trans (List.prefix_append _ _)
    · rw [hlen]
      omega
    · rw [hfptr, hlen]
      exact htarget.2
    · rw [hlen]
      omega

theorem Holds.seek {data : List UInt8} {stop : ℕ} {f : FIL} (h : Holds data stop f) {t : ℕ}
    (ht : t ≤ stop) : Holds data stop (FF_Seek f t).2 ∧
      (FF_Seek f t).2.fptr = min t (FF_Seek f t).2.objsize := by
  obtain ⟨h', hfptr, -⟩ := h.seek_pos t
  rw [Nat.max_eq_left ht] at h'
  exact ⟨h', hfptr⟩

/-- A read delivers what the file has at its position, and leaves the file there. -/
theorem Holds.read {data : List UInt8} {stop : ℕ} {f : FIL} (h : Holds data stop f) (n : ℕ) :
    ∃ f', FF_Read f n = ((f.data.drop f.fptr).take n, f') ∧ Holds data stop f' ∧
      f'.objsize = f.objsize ∧ f'.fptr = f.fptr + min n (f.objsize - f.fptr) := by
  have hcap := h.ok.size_le
  have hreadable := h.readable
  have hok := FF_Read_ok h.ok n
  have havail : f.avail n = min n (f.objsize - f.fptr) := by
    rw [FIL.avail, h.healthy, if_neg (by decide)]
    omega
  rw [FF_Read, f_read_eq h.ok, havail] at hok ⊢
  refine ⟨_, Prod.ext ?_ rfl, ⟨hok, ?_, h.readable, h.image, h.size⟩, rfl, rfl⟩
  · show (f.data.drop f.fptr).take (min n (f.objsize - f.fptr)) = _
    rw [← List.take_take, FIL.objsize, ← List.length_drop, List.take_length]
  · show (f.err || decide _) = false
    rw [h.healthy, decide_eq_false (lt_irrefl _)]
    rfl

/-- What is read inside the image is what the image has. -/
theorem Holds.getD_read {data : List UInt8} {stop : ℕ} {f : FIL} (h : Holds data stop f)
    {q n i : ℕ} (x : UInt8) (hq : q + n ≤ data.length) (hi : i < n) :
    ((f.data.drop q).take n).getD i x = data.getD (q + i) 0 := by
  obtain ⟨ext, hext⟩ := h.image
  have hin : q + i < data.length := by omega
  rw [List.getD_eq_getElem?_getD, List.getD_eq_getElem?_getD, List.getElem?_take_of_lt hi,
    List.getElem?_drop, ← hext, List.getElem?_append_left hin, List.getElem?_eq_getElem hin]
  rfl

theorem Holds.length_read {data : List UInt8} {stop : ℕ} {f : FIL} (h : Holds data stop f) {q n : ℕ}
    (hq : q + n ≤ data.length) : ((f.data.drop q).take n).length = n := by
  have hlen : data.length ≤ f.data.length := h.length_le
  rw [List.length_take, List.length_drop]
  omega

theorem word_congr {b b' : ℕ → UInt8} {i i' : ℕ} (h0 : b i = b' i') (h1 : b (i + 1) = b' (i' + 1)) :
    word b i = word b' i' := by
  rw [word, word, h0, h1]

/-! ### Seeks from where the file stands -/

theorem toInt_of_lt {offset : UInt32} (h : offset.toNat < 2 ^ 31) :
    offset.toBitVec.toInt = (offset.toNat : ℤ) := by
  rw [BitVec.toInt_eq_toNat_of_lt]
  · rfl
  · show 2 * offset.toNat < 2 ^ 32
    omega

/-- A seek from the top. -/
theorem fseek_set {f : FIL} {offset : UInt32} (h : offset.toNat < 2 ^ 31) :
    fseek f offset false = (FF_Seek f offset.toNat).2 := by
  rw [fseek, toInt_of_lt h]
  simp only [Bool.false_eq_true, if_false]
  rw [show Int.toNat (((offset.toNat : ℤ) + 0) % 2 ^ 64) = offset.toNat by omega]

/-- A seek forward. -/
theorem fseek_cur {f : FIL} {offset : UInt32} (h : offset.toNat < 2 ^ 31)
    (hf : f.fptr + offset.toNat < 2 ^ 64) :
    fseek f offset true = (FF_Seek f (f.fptr + offset.toNat)).2 := by
  rw [fseek, toInt_of_lt h]
  simp only [if_true]
  rw [show Int.toNat (((offset.toNat : ℤ) + (f.fptr : ℤ)) % 2 ^ 64) = f.fptr + offset.toNat by omega]

/-- A seek back over the words a chunk starts with. -/
theorem fseek_back {f : FIL} {p : ℕ} (hp : p < 2 ^ 64) :
    (f.fptr = p + 2 → fseek f (0 - 2) true = (FF_Seek f p).2) ∧
      (f.fptr = p + 4 → fseek f (0 - 4) true = (FF_Seek f p).2) := by
  constructor
  · intro hf
    rw [fseek, show (0 - 2 : UInt32).toBitVec.toInt = -2 by decide]
    simp only [if_true]
    rw [hf, show Int.toNat ((-2 + ((p + 2 : ℕ) : ℤ)) % 2 ^ 64) = p by omega]
  · intro hf
    rw [fseek, show (0 - 4 : UInt32).toBitVec.toInt = -4 by decide]
    simp only [if_true]
    rw [hf, show Int.toNat ((-4 + ((p + 4 : ℕ) : ℤ)) % 2 ^ 64) = p by omega]

/-! ### One chunk -/

/-- Byte `i` behind position `p` of an image. -/
def behind (data : List UInt8) (p i : ℕ) : UInt8 := data.getD (p + i) 0

/-- The header of a chunk is read. -/
theorem Holds.header {data : List UInt8} {stop : ℕ} {f : FIL} (h : Holds data stop f) {p : ℕ}
    (hp : f.fptr = p) (chunk : ChunkInfo) : ∃ f', Holds data stop f' ∧ f'.objsize = f.objsize ∧
      (p + 6 ≤ data.length → f'.fptr = p + 6 ∧ readChunkHeader f chunk
        = (word (behind data p) 0, { chunk with
            id := word (behind data p) 0, length := long (behind data p) 2 }, f')) ∧
      (f.objsize < p + 6 → ∃ chunk', readChunkHeader f chunk = (0xFFFF, chunk', f') ∧
        chunk'.bit_offset_end = chunk.bit_offset_end) := by
  obtain ⟨f', hread, hholds, hsize, hfptr⟩ := h.read 6
  rw [hp] at hread hfptr
  have hlen := h.length_le
  refine ⟨f', hholds, hsize, fun hin => ⟨by omega, ?_⟩, fun hshort => ⟨{ chunk with
    id := word (readInto (fun i => [0xFF, 0xFF].getD i 0) ((f.data.drop p).take 6)) 0
    length := long (readInto (fun i => [0xFF, 0xFF].getD i 0) ((f.data.drop p).take 6)) 2 }, ?_, rfl⟩⟩
  · have hbyte : ∀ i, i < 6 → readInto (fun i => [0xFF, 0xFF].getD i 0) ((f.data.drop p).take 6) i
        = behind data p i := fun i hi => h.getD_read _ hin hi
    have hid : word (readInto (fun i => [0xFF, 0xFF].getD i 0) ((f.data.drop p).take 6)) 0
        = word (behind data p) 0 := word_congr (hbyte 0 (by decide)) (hbyte 1 (by decide))
    have hlong : long (readInto (fun i => [0xFF, 0xFF].getD i 0) ((f.data.drop p).take 6)) 2
        = long (behind data p) 2 := by
      rw [long, long, hbyte 2 (by decide), hbyte 3 (by decide), hbyte 4 (by decide),
        hbyte 5 (by decide)]
    rw [readChunkHeader, hread]
    simp only [hid, hlong]
    rw [if_neg (not_not.mpr (h.length_read hin))]
  · have hcut : ((f.data.drop p).take 6).length ≠ 6 := by
      have hle := h.ok.fptr_le
      rw [List.length_take, List.length_drop, ← FIL.objsize]
      omega
    rw [readChunkHeader, hread]
    simp only [if_pos hcut]

/-- Words behind the header of a chunk are read. -/
theorem Holds.word_read {data : List UInt8} {stop : ℕ} {f : FIL} (h : Holds data stop f) {p i : ℕ}
    (hp : f.fptr = p + i) : ∃ f', (FF_Read f 2).2 = f' ∧ Holds data stop f' ∧
      f'.objsize = f.objsize ∧
      (p + i + 2 ≤ data.length → f'.fptr = p + i + 2 ∧ (FF_Read f 2).1.length = 2 ∧
        word ((FF_Read f 2).1.getD · 0) 0 = word (behind data p) i) ∧
      (f.objsize < p + i + 2 → (FF_Read f 2).1.length ≠ 2) := by
  obtain ⟨f', hread, hholds, hsize, hfptr⟩ := h.read 2
  rw [hp] at hread hfptr
  have hlen := h.length_le
  rw [hread]
  refine ⟨f', rfl, hholds, hsize, fun hin => ⟨by omega, h.length_read hin, ?_⟩, fun hcut => ?_⟩
  · refine word_congr ?_ ?_
    · exact h.getD_read 0 hin (by decide)
    · show _ = data.getD (p + (i + 1)) 0
      rw [← Nat.add_assoc]
      exact h.getD_read 0 hin (by decide)
  · have hle := h.ok.fptr_le
    rw [List.length_take, List.length_drop, ← FIL.objsize]
    omega

section
variable {carrier : UInt16 → UInt32}

/-- A chunk that is played has its bits, and the file goes back to its data. -/
theorem chunkBitlen_whole (carrier : UInt16 → UInt32) {data : List UInt8} {stop p : ℕ} {f : FIL}
    (chunk : ChunkInfo) {c : Chunk} (h : Holds data stop f) (hc : chunkAt carrier data p = some c) (hp : f.fptr = p + 6)
    (hid : chunk.id = word (behind data p) 0) (hlen : chunk.length = long (behind data p) 2)
    (hplayed : played chunk.id = true) (hstop : p + 6 ≤ stop) (hlt : stop < 2 ^ 32)
    (hbits : c.bits < 2 ^ 32) :
    ∃ chunk_bitlen pre_carrier f', chunkBitlen carrier f chunk
        = (some chunk_bitlen, { chunk with pre_carrier := pre_carrier }, f') ∧
      chunk_bitlen.toNat = c.bits ∧ Holds data stop f' ∧ f'.fptr = p + 6 ∧
      (c.id = highDummyID → pre_carrier.toNat = c.pre_carrier) := by
  have hback : ∀ {f : FIL}, Holds data stop f → data.length ≥ p + 6 →
      Holds data stop (FF_Seek f (p + 6)).2 ∧ (FF_Seek f (p + 6)).2.fptr = p + 6 := by
    intro f h hin
    obtain ⟨h', hfptr⟩ := h.seek hstop
    have := h'.length_le
    exact ⟨h', by omega⟩
  rw [chunkAt] at hc
  simp only at hc
  rw [show (word fun i => data.getD (p + i) 0) = word (behind data p) from rfl,
    show (long fun i => data.getD (p + i) 0) = long (behind data p) from rfl, ← hid, ← hlen] at hc
  split at hc
  · cases hc
  · next hhead =>
    rw [not_or] at hhead
    rw [chunkBitlen]
    split at hc
    · next htape =>
      obtain rfl := Option.some.inj hc
      rw [if_pos htape]
      refine ⟨_, chunk.pre_carrier, f, rfl, ?_, h, hp, fun hd => ?_⟩
      · show (chunk.length * 10).toNat = chunk.length.toNat * 10
        rw [UInt32.toNat_mul]
        exact Nat.mod_eq_of_lt hbits
      · exact absurd (htape.symm.trans hd) (by decide)
    · next htape =>
      rw [if_neg htape]
      obtain ⟨f₁, hf₁, h₁, hsize₁, hword₁, -⟩ := h.word_read hp
      split at hc
      · next hgap =>
        split at hc
        · cases hc
        · next hin =>
          obtain rfl := Option.some.inj hc
          obtain ⟨hfptr, hread, hw⟩ := hword₁ (by omega)
          rw [if_pos hgap]
          obtain ⟨h₂, hfptr₂⟩ := hback h₁ (by omega)
          have hseek : fseek f₁ (0 - 2) true = (FF_Seek f₁ (p + 6)).2 :=
            (fseek_back (by omega)).1 hfptr
          refine ⟨carrier (word (behind data p) 6), chunk.pre_carrier, _, ?_, rfl, h₂, hfptr₂,
            fun hd => ?_⟩
          · simp only [hf₁, hw, hread, hseek, ne_eq, not_true_eq_false, if_false]
          · rw [show chunk.id = highDummyID from hd] at hgap
            exact absurd hgap (by decide)
      · next hgap =>
        split at hc
        · next hdummy =>
          split at hc
          · cases hc
          · next hin =>
            obtain rfl := Option.some.inj hc
            obtain ⟨hfptr, hread, hw⟩ := hword₁ (by omega)
            rw [if_neg hgap]
            obtain ⟨f₂, hf₂, h₂, -, hword₂, -⟩ := h₁.word_read (p := p) (i := 8) hfptr
            obtain ⟨hfptr₂, hread₂, hw₂⟩ := hword₂ (by omega)
            obtain ⟨h₃, hfptr₃⟩ := hback h₂ (by omega)
            have hseek : fseek f₂ (0 - 4) true = (FF_Seek f₂ (p + 6)).2 :=
              (fseek_back (by omega)).2 hfptr₂
            refine ⟨carrier (word (behind data p) 6) + 20 + carrier (word (behind data p) 8),
              carrier (word (behind data p) 6), _, ?_, ?_, h₃, hfptr₃, fun _ => rfl⟩
            · simp only [hf₁, hw, hread, hf₂, hw₂, hread₂, hseek, ne_eq, not_true_eq_false, if_false]
            · have hbits : (carrier (word (behind data p) 6)).toNat + 20
                  + (carrier (word (behind data p) 8)).toNat < 2 ^ 32 := hbits
              show (carrier (word (behind data p) 6) + 20 + carrier (word (behind data p) 8)).toNat
                = (carrier (word (behind data p) 6)).toNat + 20
                  + (carrier (word (behind data p) 8)).toNat
              rw [UInt32.toNat_add, UInt32.toNat_add, show (20 : UInt32).toNat = 20 by decide]
              omega
        · next hdummy =>
          -- no other chunk is played
          rw [not_or] at hgap
          simp only [played, Bool.or_eq_true, decide_eq_true_eq] at hplayed
          rcases hplayed with ((h1 | h1) | h1) | h1
          · exact absurd h1.symm htape
          · exact absurd h1.symm hgap.1
          · exact absurd h1.symm hgap.2
          · exact absurd h1.symm hdummy

/-- A chunk whose first words are cut off. -/
theorem chunkBitlen_cut (carrier : UInt16 → UInt32) {data : List UInt8} {stop p : ℕ} {f : FIL}
    (chunk : ChunkInfo) (h : Holds data stop f) (hc : chunkAt carrier data p = none) (hp : f.fptr = p + 6)
    (hid : chunk.id = word (behind data p) 0) (hlast : chunk.id ≠ 0xFFFF)
    (hin : p + 6 ≤ data.length) (hsize : f.objsize ≤ data.length) :
    ∃ chunk' f', chunkBitlen carrier f chunk = (none, chunk', f') ∧ Holds data stop f' ∧
      chunk'.bit_offset_end = chunk.bit_offset_end := by
  rw [chunkAt] at hc
  simp only at hc
  rw [show (word fun i => data.getD (p + i) 0) = word (behind data p) from rfl, ← hid] at hc
  rw [if_neg (not_or.mpr ⟨by omega, hlast⟩)] at hc
  rw [chunkBitlen]
  split at hc
  · cases hc
  · next htape =>
    rw [if_neg htape]
    obtain ⟨f₁, hf₁, h₁, hsize₁, hword₁, hcut₁⟩ := h.word_read hp
    split at hc
    · next hgap =>
      split at hc
      · next hshort =>
        rw [if_pos hgap]
        refine ⟨chunk, f₁, ?_, h₁, rfl⟩
        simp only [hf₁, if_pos (hcut₁ (by omega))]
      · cases hc
    · next hgap =>
      split at hc
      · next hdummy =>
        split at hc
        · next hshort =>
          rw [if_neg hgap]
          by_cases hfirst : p + 8 ≤ data.length
          · obtain ⟨hfptr, hread, -⟩ := hword₁ (by omega)
            obtain ⟨f₂, hf₂, h₂, -, -, hcut₂⟩ := h₁.word_read (p := p) (i := 8) hfptr
            refine ⟨{ chunk with pre_carrier := carrier (word ((FF_Read f 2).1.getD · 0) 0) }, f₂, ?_,
              h₂, rfl⟩
            simp only [hf₁, hread, hf₂, ne_eq, not_true_eq_false, if_false]
            rw [if_pos (hcut₂ (by omega))]
          · refine ⟨chunk, f₁, ?_, h₁, rfl⟩
            simp only [hf₁, if_pos (hcut₁ (by omega))]
        · cases hc
      · next hdummy =>
        cases hc

/-- What the header of a chunk says. -/
theorem chunkAt_header {data : List UInt8} {p : ℕ} {c : Chunk} (hc : chunkAt carrier data p = some c) :
    p + 6 ≤ data.length ∧ c.id = word (behind data p) 0 ∧ c.id ≠ 0xFFFF ∧
      c.length = long (behind data p) 2 ∧ c.file_offset = p + 6 ∧
      (played c.id = false → c.bits = 0) := by
  have hplays : ∀ id : UInt16, id = tapeID ∨ id = gapID ∨ id = highToneID ∨ id = highDummyID →
      played id = true := by
    intro id hid
    simp only [played, Bool.or_eq_true, decide_eq_true_eq]
    rcases hid with h | h | h | h
    · exact Or.inl (Or.inl (Or.inl h.symm))
    · exact Or.inl (Or.inl (Or.inr h.symm))
    · exact Or.inl (Or.inr h.symm)
    · exact Or.inr h.symm
  have hnot : ∀ {id : UInt16} {n : ℕ}, (id = tapeID ∨ id = gapID ∨ id = highToneID ∨
      id = highDummyID) → played id = false → n = 0 := by
    intro id n hid hp
    rw [hplays id hid] at hp
    exact Bool.noConfusion hp
  rw [chunkAt] at hc
  simp only at hc
  split at hc
  · cases hc
  · next hhead =>
    rw [not_or] at hhead
    have hin : p + 6 ≤ data.length := by omega
    split at hc
    · next h =>
      obtain rfl := Option.some.inj hc
      exact ⟨hin, rfl, hhead.2, rfl, rfl, hnot (Or.inl h)⟩
    · split at hc
      · next h =>
        split at hc
        · cases hc
        · obtain rfl := Option.some.inj hc
          refine ⟨hin, rfl, hhead.2, rfl, rfl, hnot (Or.inr ?_)⟩
          rcases h with h | h
          · exact Or.inl h
          · exact Or.inr (Or.inl h)
      · split at hc
        · next h =>
          split at hc
          · cases hc
          · obtain rfl := Option.some.inj hc
            exact ⟨hin, rfl, hhead.2, rfl, rfl, hnot (Or.inr (Or.inr (Or.inr h)))⟩
        · obtain rfl := Option.some.inj hc
          exact ⟨hin, rfl, hhead.2, rfl, rfl, fun _ => rfl⟩

/-- A chunk with a header of its own is missing only when its first words are cut off. -/
theorem played_of_none {data : List UInt8} {p : ℕ} (hc : chunkAt carrier data p = none)
    (hin : p + 6 ≤ data.length) (hid : word (behind data p) 0 ≠ 0xFFFF) :
    played (word (behind data p) 0) = true := by
  rw [chunkAt] at hc
  simp only at hc
  rw [show (word fun i => data.getD (p + i) 0) = word (behind data p) from rfl,
    if_neg (not_or.mpr ⟨by omega, hid⟩)] at hc
  simp only [played, Bool.or_eq_true, decide_eq_true_eq]
  split at hc
  · cases hc
  · split at hc
    · next h =>
      rcases h with h | h
      · exact Or.inl (Or.inl (Or.inr h.symm))
      · exact Or.inl (Or.inr h.symm)
    · split at hc
      · next h => exact Or.inr h.symm
      · cases hc

theorem chunkAt_short {data : List UInt8} {p : ℕ} (h : data.length < p + 6) :
    chunkAt carrier data p = none := by
  rw [chunkAt]
  simp only
  rw [if_pos (Or.inl h)]

theorem chunkAt_last {data : List UInt8} {p : ℕ} (h : word (behind data p) 0 = 0xFFFF) :
    chunkAt carrier data p = none := by
  rw [chunkAt]
  exact if_pos (Or.inr h)

theorem chunksFrom_short {data : List UInt8} {p : ℕ} (h : data.length < p + 6) (n : ℕ) :
    chunksFrom carrier data n p = [] := by
  cases n with
  | zero => rfl
  | succ n => rw [chunksFrom, chunkAt_short h]

/-! ### Chunks that are not played -/

theorem infoLoop_holds {data : List UInt8} {stop : ℕ} : ∀ (fuel : ℕ) (length : UInt32) {f : FIL},
    Holds data stop f → Holds data stop (infoLoop fuel length f)
  | 0, _, _, h => h
  | fuel + 1, length, f, h => by
    obtain ⟨f', hread, h', -, -⟩ := h.read (min length 63).toNat
    rw [infoLoop]
    split
    · exact h
    · simp only [hread]
      split
      · exact h'
      · exact infoLoop_holds fuel _ h'

/-- What is printed leaves the file as it is, and ends the walk only close to its end. -/
theorem describe_holds {data : List UInt8} {stop : ℕ} {f : FIL} (h : Holds data stop f)
    (chunk : ChunkInfo) : Holds data stop (describe f chunk).2 ∧
      ((describe f chunk).1 = false → f.objsize < f.fptr + 4) := by
  obtain ⟨f', hread, h', -, -⟩ := h.read 4
  rw [describe]
  split
  · exact ⟨infoLoop_holds _ _ h, fun hf => Bool.noConfusion hf⟩
  · split
    · simp only [hread]
      refine ⟨h', fun hf => ?_⟩
      have hle := h.ok.fptr_le
      have hne := of_decide_eq_false hf
      rw [List.length_take, List.length_drop, ← FIL.objsize] at hne
      omega
    · exact ⟨h, fun hf => Bool.noConfusion hf⟩

/-! ### The walk -/

/-- The record is that of a chunk which starts at bit `start`. -/
structure Describes (chunk : ChunkInfo) (c : Chunk) (start : ℕ) : Prop where
  id : chunk.id = c.id
  length : chunk.length = c.length
  file_offset : chunk.file_offset.toNat = c.file_offset
  bit_offset_start : chunk.bit_offset_start.toNat = start
  bit_offset_end : chunk.bit_offset_end.toNat = start + c.bits
  pre_carrier : c.id = highDummyID → chunk.pre_carrier.toNat = c.pre_carrier

/-- A walk over chunks comes to the chunk that holds the position, or behind all of them. -/
def Arrives (cs : List Chunk) (w w' : Walk) : Prop :=
  Segments.total Chunk.bits cs ≤ w.bit_pos.toNat ∧ w'.chunk.bit_offset_end = 0 ∧
      w'.bit_pos.toNat = w.bit_pos.toNat - Segments.total Chunk.bits cs ∨
    ∃ before c after, cs = before ++ c :: after ∧
      Describes w'.chunk c (w.chunk_start.toNat + Segments.total Chunk.bits before) ∧
      Segments.total Chunk.bits before ≤ w.bit_pos.toNat ∧
      w.bit_pos.toNat < Segments.total Chunk.bits before + c.bits ∧
      w'.bit_pos.toNat = w.bit_pos.toNat - Segments.total Chunk.bits before

/-- A walk goes on behind a chunk that does not hold the position. -/
theorem Arrives.cons {c : Chunk} {cs : List Chunk} {w w₁ w' : Walk} (h : Arrives cs w₁ w')
    (hle : c.bits ≤ w.bit_pos.toNat) (hpos : w₁.bit_pos.toNat = w.bit_pos.toNat - c.bits)
    (hstart : w₁.chunk_start.toNat = w.chunk_start.toNat + c.bits) : Arrives (c :: cs) w w' := by
  rcases h with ⟨h1, h2, h3⟩ | ⟨before, c', after, h1, h2, h3, h4, h5⟩
  · refine Or.inl ⟨?_, h2, ?_⟩
    · rw [Segments.total_cons]
      omega
    · rw [Segments.total_cons]
      omega
  · refine Or.inr ⟨c :: before, c', after, ?_, ?_, ?_, ?_, ?_⟩
    · rw [h1, List.cons_append]
    · rw [Segments.total_cons, ← Nat.add_assoc, ← hstart]
      exact h2
    · rw [Segments.total_cons]
      omega
    · rw [Segments.total_cons]
      omega
    · rw [Segments.total_cons]
      omega

/-- The walk ends where no chunk is left. -/
theorem Arrives.nil {w : Walk} {f : FIL} {chunk : ChunkInfo} (h : chunk.bit_offset_end = 0) :
    Arrives [] w { w with f := f, chunk := chunk } :=
  Or.inl ⟨Nat.zero_le _, h, rfl⟩

/-- A walk can pass over a chunk: its length is not negative as a `long int`, and neither is its
    offset when it is one that is printed. -/
def Passable (c : Chunk) : Prop :=
  c.length.toNat < 2 ^ 31 ∧ (played c.id = false → c.file_offset < 2 ^ 31)

/-- The loop walks over the chunks from position `p` on. -/
theorem walkLoop_arrives (carrier : UInt16 → UInt32) {data : List UInt8} {stop : ℕ}
    (hstop : stop < 2 ^ 32) (length_check : Bool) : ∀ (n p fuel : ℕ) {w : Walk}, Holds data stop w.f →
      w.f.fptr = min p w.f.objsize → data.length ≤ p + n →
      p + Segments.total Chunk.span (chunksFrom carrier data n p) = stop →
      (∀ c ∈ chunksFrom carrier data n p, Passable c) →
      w.chunk_start.toNat + Segments.total Chunk.bits (chunksFrom carrier data n p) < 2 ^ 32 →
      w.chunk.bit_offset_end = 0 → n < fuel →
      ∃ w', walkLoop carrier length_check fuel w = some w' ∧ Holds data stop w'.f ∧
        Arrives (chunksFrom carrier data n p) w w'
  | _, _, 0, _, _, _, _, _, _, _, _, hfuel => absurd hfuel (Nat.not_lt_zero _)
  | n, p, fuel + 1, w, h, hfptr, hn, hspan, hpass, hbits, hend, hfuel => by
    have hlen := h.length_le
    rw [walkLoop]
    by_cases heof : w.f.objsize ≤ p
    · -- the end of the file
      have hcs : chunksFrom carrier data n p = [] := chunksFrom_short (by omega) n
      have hat : FF_isEOF w.f = true := decide_eq_true (by omega)
      rw [if_pos hat, hcs]
      exact ⟨w, rfl, h, Arrives.nil hend⟩
    · have hp : w.f.fptr = p := by omega
      have hat : ¬FF_isEOF w.f = true := fun hf => heof (by
        have := of_decide_eq_true hf
        omega)
      rw [if_neg hat]
      cases n with
      | zero =>
        -- no byte of the image is left, and nothing was put behind it
        have hsize := h.size
        rw [chunksFrom, Segments.total_nil] at hspan
        omega
      | succ n =>
        obtain ⟨f₁, h₁, hsize₁, hwhole, hcut⟩ := h.header hp w.chunk
        have hsize := h.size
        by_cases hin : p + 6 ≤ data.length
        · obtain ⟨hfptr₁, hheader⟩ := hwhole hin
          rw [hheader]
          simp only
          by_cases hlast : word (behind data p) 0 = 0xFFFF
          · have hcs : chunksFrom carrier data (n + 1) p = [] := by
              rw [chunksFrom, chunkAt_last hlast]
            rw [if_pos hlast, hcs]
            exact ⟨_, rfl, h₁, Arrives.nil hend⟩
          · rw [if_neg hlast]
            cases hc : chunkAt carrier data p with
            | none =>
              -- the first words of the chunk are cut off
              have hcs : chunksFrom carrier data (n + 1) p = [] := by rw [chunksFrom, hc]
              rw [hcs, Segments.total_nil] at hspan
              rw [if_pos (played_of_none hc hin hlast), hcs]
              obtain ⟨chunk', f₂, hrun, h₂, hend'⟩ := chunkBitlen_cut carrier
                { w.chunk with
                  id := word (behind data p) 0, length := long (behind data p) 2
                  file_offset := f₁.fptr.toUInt32 } h₁ hc hfptr₁ rfl hlast hin (by omega)
              rw [hrun]
              exact ⟨_, rfl, h₂, Arrives.nil (hend'.trans hend)⟩
            | some c =>
              obtain ⟨-, hid, -, hlength, hoffset, hsilent⟩ := chunkAt_header hc
              have hcs : chunksFrom carrier data (n + 1) p
                  = c :: chunksFrom carrier data n (p + c.span) := by rw [chunksFrom, hc]
              rw [hcs, Segments.total_cons] at hspan hbits
              rw [hcs] at hpass ⊢
              have hhere := hpass c List.mem_cons_self
              have hthere : ∀ c' ∈ chunksFrom carrier data n (p + c.span), Passable c' :=
                fun c' hc' => hpass c' (List.mem_cons_of_mem c hc')
              have hnext : p + c.span ≤ stop := by omega
              have hcspan : c.span = 6 + c.length.toNat := rfl
              -- from the data of the chunk to the chunk behind it
              have hgo : ∀ {f : FIL}, Holds data stop f → f.fptr = p + 6 →
                  Holds data stop (fseek f c.length true) ∧ (fseek f c.length true).fptr
                    = min (p + c.span) (fseek f c.length true).objsize := by
                intro f hf hfp
                have hpos : f.fptr + c.length.toNat = p + c.span := by omega
                rw [fseek_cur hhere.1 (by omega), hpos]
                exact hf.seek hnext
              by_cases hplayed : played (word (behind data p) 0) = true
              · rw [if_pos hplayed]
                obtain ⟨chunk_bitlen, pre_carrier, f₂, hrun, hbl, h₂, hfptr₂, hpre⟩ :=
                  chunkBitlen_whole carrier { w.chunk with
                    id := word (behind data p) 0, length := long (behind data p) 2
                    file_offset := f₁.fptr.toUInt32 } h₁ hc hfptr₁ rfl rfl hplayed (by omega) hstop
                    (by omega)
                rw [hrun]
                simp only
                have hsum : (w.chunk_start + chunk_bitlen).toNat = w.chunk_start.toNat + c.bits := by
                  rw [UInt32.toNat_add, hbl]
                  omega
                by_cases hin' : w.bit_pos < chunk_bitlen
                · rw [if_pos hin']
                  have hlt : w.bit_pos.toNat < c.bits := by
                    rw [← hbl]
                    exact UInt32.lt_iff_toNat_lt.mp hin'
                  refine ⟨_, rfl, h₂, Or.inr ⟨[], c, _, rfl, ⟨hid.symm, hlength.symm, ?_, rfl, hsum,
                    hpre⟩, Nat.zero_le _, ?_, rfl⟩⟩
                  · rw [hoffset, ← hfptr₁]
                    show f₁.fptr.toUInt32.toNat = f₁.fptr
                    rw [Nat.toUInt32_eq, UInt32.toNat_ofNat']
                    omega
                  · rw [Segments.total_nil, Nat.zero_add]
                    exact hlt
                · rw [if_neg hin']
                  have hle : c.bits ≤ w.bit_pos.toNat := by
                    rw [← hbl]
                    exact UInt32.le_iff_toNat_le.mp (UInt32.not_lt.mp hin')
                  rw [← hlength]
                  obtain ⟨h₃, hfptr₃⟩ := hgo h₂ hfptr₂
                  obtain ⟨w', hw', hh', harr⟩ := walkLoop_arrives carrier hstop length_check n
                    (p + c.span) fuel
                    (w := { f := fseek f₂ c.length true
                            chunk := { w.chunk with
                              id := word (behind data p) 0, length := c.length
                              file_offset := f₁.fptr.toUInt32, pre_carrier := pre_carrier }
                            chunk_start := w.chunk_start + chunk_bitlen
                            bit_pos := w.bit_pos - chunk_bitlen }) h₃ hfptr₃
                    (by omega) (by omega) hthere (by simp only [hsum]; omega) hend (by omega)
                  refine ⟨w', hw', hh', harr.cons hle ?_ hsum⟩
                  show (w.bit_pos - chunk_bitlen).toNat = _
                  rw [UInt32.toNat_sub_of_le _ _ (UInt32.not_lt.mp hin'), hbl]
              · -- a chunk that is not played
                have hbits0 : c.bits = 0 := hsilent (by
                  rw [hid]
                  exact Bool.eq_false_of_not_eq_true hplayed)
                rw [if_neg hplayed]
                have hrest : ∀ {f : FIL} (chunk : ChunkInfo), Holds data stop f → f.fptr = p + 6 →
                    chunk.bit_offset_end = 0 →
                    ∃ w', walkLoop carrier length_check fuel
                        { w with f := fseek f c.length true, chunk := chunk } = some w' ∧
                      Holds data stop w'.f ∧
                      Arrives (c :: chunksFrom carrier data n (p + c.span)) w w' := by
                  intro f chunk hf hfp hchunk
                  obtain ⟨h₃, hfptr₃⟩ := hgo hf hfp
                  obtain ⟨w', hw', hh', harr⟩ := walkLoop_arrives carrier hstop length_check n
                    (p + c.span) fuel (w := { w with f := fseek f c.length true, chunk := chunk })
                    h₃ hfptr₃ (by omega) (by omega) hthere (by simp only; omega) hchunk (by omega)
                  refine ⟨w', hw', hh', harr.cons (by omega) ?_ ?_⟩
                  · rw [hbits0]
                    rfl
                  · rw [hbits0]
                    rfl
                rw [← hlength]
                cases length_check with
                | false =>
                  rw [if_neg (by decide)]
                  exact hrest _ h₁ hfptr₁ hend
                | true =>
                  rw [if_pos rfl]
                  obtain ⟨h₂, hcutoff⟩ := describe_holds h₁ { w.chunk with
                    id := word (behind data p) 0, length := c.length
                    file_offset := f₁.fptr.toUInt32 }
                  generalize describe f₁ _ = r at h₂ hcutoff
                  obtain ⟨good, f₂⟩ := r
                  cases good with
                  | false =>
                    -- nothing behind a chunk that is cut off
                    have hshort := hcutoff rfl
                    have hcs' : chunksFrom carrier data n (p + c.span) = [] :=
                      chunksFrom_short (by omega) n
                    rw [hcs']
                    refine ⟨_, rfl, h₂, Or.inl ⟨?_, hend, ?_⟩⟩
                    · rw [Segments.total_cons, hbits0]
                      exact Nat.zero_le _
                    · rw [Segments.total_cons, hbits0]
                      rfl
                  | true =>
                    have hoff : f₁.fptr.toUInt32.toNat = p + 6 := by
                      rw [Nat.toUInt32_eq, UInt32.toNat_ofNat']
                      omega
                    obtain ⟨h₃, hfptr₃⟩ : Holds data stop (FF_Seek f₂ (p + 6)).2 ∧
                        (FF_Seek f₂ (p + 6)).2.fptr = min (p + 6) (FF_Seek f₂ (p + 6)).2.objsize :=
                      Holds.seek h₂ (by omega)
                    have hlen₃ := h₃.length_le
                    simp only
                    have hback := hhere.2 (by
                      rw [hid]
                      exact Bool.eq_false_of_not_eq_true hplayed)
                    rw [fseek_set (by rw [hoff]; omega), hoff]
                    exact hrest _ h₃ (by omega) hend
        · -- a header that is cut off
          have hcs : chunksFrom carrier data (n + 1) p = [] := chunksFrom_short (by omega) _
          rw [hcs, Segments.total_nil] at hspan
          obtain ⟨chunk', hheader, hend'⟩ := hcut (by omega)
          rw [hheader, hcs]
          exact ⟨_, rfl, h₁, Arrives.nil (hend'.trans hend)⟩

end

end FileIO.Uef
