import ReplayFirmware.FileIO.UefLookup

/-! Runs of queries to a mounted tape.

    A tape is in step with its file from the moment it is inserted, so that every query of a run is
    answered as by decoding the file from its start. The offsets of the file go through a `long int`:
    in a file that is longer than 2 GB the driver does not find back to where it was. -/

namespace FileIO.Uef
open FatFs Drv02 Segments

section
variable {carrier : UInt16 → UInt32}

/-- A bit that a query may be answered with: that of the tape where the file has its data, and 0
    behind its end. -/
def Answers (carrier : UInt16 → UInt32) (data : List UInt8) (pos : UInt32) (bit : UInt8) : Prop :=
  (tapeLength carrier data ≤ pos.toNat → bit = 0) ∧
    ∀ b, tapeBit carrier data pos.toNat = some b → bit = b

/-- A run of queries in step. -/
theorem getBits_answers {data : List UInt8} (hplay : Playable carrier data) {fuel : ℕ}
    (hfuel : data.length < fuel) (junk : UInt8) : ∀ (ps : List UInt32) {t : Tape},
      InStep carrier data t → ∃ bits t', getBits carrier fuel junk ps t = some (bits, t') ∧
        InStep carrier data t' ∧ List.Forall₂ (Answers carrier data) ps bits
  | [], t, h => ⟨[], t, rfl, h, List.Forall₂.nil⟩
  | pos :: ps, t, h => by
    obtain ⟨bit, t₁, hrun, h₁, hbit⟩ := getBitAtPos_eq hplay h hfuel junk pos
    obtain ⟨bits, t', hruns, h', hbits⟩ := getBits_answers hplay hfuel junk ps h₁
    refine ⟨bit :: bits, t', ?_, h', List.Forall₂.cons ⟨fun hle => hbit 0 ?_, hbit⟩ hbits⟩
    · rw [getBits, hrun]
      simp only [hruns, Option.map_some]
    · rw [tapeBit, locate_behind Chunk.bits hle]

/-! ### A tape is inserted -/

/-- A file with the header of a UEF file. -/
def IsUef (data : List UInt8) : Prop :=
  12 ≤ data.length ∧ data.take 10 = strBytes "UEF File!" ++ [0]

theorem not_raw {ext : List UInt8} (h : extIs ext "UEF" = true) : ¬extIs ext "RAW" = true := by
  intro hraw
  have h1 := of_decide_eq_true h
  have h2 := of_decide_eq_true hraw
  rw [show (strBytes "RAW").length = (strBytes "UEF").length by decide, h1] at h2
  exact absurd h2 (by decide)

/-- An inserted UEF file is in step. -/
theorem insertInit_inStep {file : File} (huef : IsUef file.data) (hread : file.cap ≤ file.readable)
    (hwalk : Walkable carrier file.data) (write : Bool) {fuel : ℕ} (hfuel : file.data.length < fuel)
    (drive_number status : UInt8) (ext : List UInt8) (hext : extIs ext "UEF" = true) :
    ∃ d chunk outs,
      insertInit carrier fuel drive_number status (f_open file write) ext = some (d, chunk, outs) ∧
        d.pDesc.format = .UEF ∧ InStep carrier file.data ⟨d.fSource, chunk⟩ ∧
        chunk.bit_offset_end = 0 := by
  obtain ⟨hlen, htag⟩ := huef
  have hopen : Holds file.data (tapeEnd carrier file.data) (f_open file write) :=
    ⟨f_open_ok file write, rfl, hread, List.prefix_refl _, Nat.le_max_left _ _⟩
  obtain ⟨f₁, hheader, h₁, -, -⟩ := hopen.read 12
  have hheader : FF_Read (f_open file write) 12 = (file.data.take 12, f₁) := hheader
  obtain ⟨w, hrun, hw, hfinds⟩ := walkLoop_finds hwalk h₁ .zero hfuel 0xFFFFFFFF
  -- no tape is that long
  have hlast : w.chunk.bit_offset_end = 0 := by
    have hlt := hwalk.length_lt
    rcases hfinds with ⟨-, hnone, -⟩ | ⟨before, c, after, hcs, -, -, -, hin, -⟩
    · exact not_not.mp (of_decide_eq_false hnone)
    · have hle := tapeLength_split hcs
      rw [show (0xFFFFFFFF : UInt32).toNat = 4294967295 by decide] at hin
      omega
  have hchunk : getChunkAtPosFile carrier fuel f₁ .zero 0xFFFFFFFF
      = some (decide (w.chunk.bit_offset_end ≠ 0), w) := by
    rw [getChunkAtPosFile.eq_def, if_neg (by decide), if_neg (by decide)]
    exact congrArg (Option.map fun w => (decide (w.chunk.bit_offset_end ≠ 0), w)) hrun
  have hlength : (file.data.take 12).length = 12 := by
    rw [List.length_take]
    omega
  have htake : (file.data.take 12).take 10 = strBytes "UEF File!" ++ [0] := by
    rw [List.take_take]
    exact htag
  rw [insertInit, if_neg (not_raw hext), if_pos hext]
  simp only [show (FF_Seek (f_open file write) 0).2 = f_open file write from rfl, hheader]
  rw [if_neg (not_not.mpr hlength), if_neg (not_not.mpr htake), hchunk]
  exact ⟨_, _, _, rfl, rfl, hw, hlast⟩

/-- From the insert of a file on, every sequence of queries is answered as by decoding the file from
    its start. -/
def Decodes (carrier : UInt16 → UInt32) (file : File) (write : Bool) (fuel : ℕ) (junk : UInt8)
    (drive_number status : UInt8) (ext : List UInt8) : Prop :=
  ∃ d chunk outs,
    insertInit carrier fuel drive_number status (f_open file write) ext = some (d, chunk, outs) ∧
      d.pDesc.format = .UEF ∧ ∀ ps, ∃ bits t',
        getBits carrier fuel junk ps ⟨d.fSource, chunk⟩ = some (bits, t') ∧
          List.Forall₂ (Answers carrier file.data) ps bits

/-- A file that the driver can play is decoded right. -/
theorem tape_decodes {file : File} (huef : IsUef file.data) (hread : file.cap ≤ file.readable)
    (hplay : Playable carrier file.data) {write : Bool} {fuel : ℕ} (hfuel : file.data.length < fuel)
    {junk drive_number status : UInt8} {ext : List UInt8} (hext : extIs ext "UEF" = true) :
    Decodes carrier file write fuel junk drive_number status ext := by
  obtain ⟨d, chunk, outs, hins, hformat, h, -⟩ := insertInit_inStep huef hread hplay.walkable write hfuel
    drive_number status ext hext
  refine ⟨d, chunk, outs, hins, hformat, fun ps => ?_⟩
  obtain ⟨bits, t', hrun, -, hbits⟩ := getBits_answers hplay hfuel junk ps h
  exact ⟨bits, t', hrun, hbits⟩

end

/-! ### Tones behind 2 GB -/

/-- How many bits a gap or a tone of `ms` milliseconds takes, at 1201.9 baud. -/
def carrierBits (ms : UInt16) : UInt32 := ms.toUInt32 * 125 / 104

/-- The header of a UEF file. -/
def uefHeader : List UInt8 := strBytes "UEF File!" ++ [0, 10, 0]

/-- A tone of one millisecond, which is one bit. -/
def toneChunk : List UInt8 := [0x10, 0x01, 2, 0, 0, 0, 1, 0]

/-- A header, a text that fills the file up to 2 GB, and two tones. -/
def farData (text : List UInt8) : List UInt8 :=
  uefHeader ++ [0, 0, 0xE8, 0xFF, 0xFF, 0x7F] ++ text ++ (toneChunk ++ toneChunk)

section
variable {text : List UInt8}

theorem length_farData (htext : text.length = 0x7FFFFFE8) : (farData text).length = 0x8000000A := by
  rw [farData, List.length_append, List.length_append, htext]
  rfl

/-- The bytes of the tones. -/
theorem farData_tail (htext : text.length = 0x7FFFFFE8) (i : ℕ) :
    behind (farData text) 0x7FFFFFFA i = (toneChunk ++ toneChunk).getD i 0 := by
  have hhead : (uefHeader ++ [0, 0, 0xE8, 0xFF, 0xFF, 0x7F] ++ text).length = 0x7FFFFFFA := by
    rw [List.length_append, htext]
    rfl
  rw [behind, farData, List.getD_eq_getElem?_getD, List.getElem?_append_right (by omega), hhead,
    Nat.add_sub_cancel_left, ← List.getD_eq_getElem?_getD]

theorem chunkAt_tone {data : List UInt8} {p : ℕ} (hin : p + 8 ≤ data.length)
    (h : ∀ i, i < 8 → behind data p i = toneChunk.getD i 0) : chunkAt carrierBits data p
      = some { id := highToneID, length := 2, file_offset := p + 6, pre_carrier := 0, bits := 1 } := by
  have hid : word (behind data p) 0 = highToneID := by
    rw [word, h 0 (by decide), h 1 (by decide)]
    rfl
  have hlen : long (behind data p) 2 = 2 := by
    rw [long, h 2 (by decide), h 3 (by decide), h 4 (by decide), h 5 (by decide)]
    rfl
  have hms : word (behind data p) 6 = 1 := by
    rw [word, h 6 (by decide), h 7 (by decide)]
    rfl
  rw [chunkAt]
  simp only
  rw [show (word fun i => data.getD (p + i) 0) = word (behind data p) from rfl,
    show (long fun i => data.getD (p + i) 0) = long (behind data p) from rfl, hid, hlen, hms,
    if_neg (not_or.mpr ⟨by omega, by decide⟩), if_neg (by decide), if_pos (Or.inr rfl),
    if_neg (by omega)]
  rfl

/-- The text, which is not played. -/
def textChunk : Chunk :=
  { id := infoID, length := 0x7FFFFFE8, file_offset := 18, pre_carrier := 0, bits := 0 }

/-- A tone whose data starts at that offset. -/
def toneAt (file_offset : ℕ) : Chunk :=
  { id := highToneID, length := 2, file_offset := file_offset, pre_carrier := 0, bits := 1 }

theorem chunks_farData (htext : text.length = 0x7FFFFFE8) : chunks carrierBits (farData text)
    = [textChunk, toneAt 0x80000000, toneAt 0x80000008] := by
  have hlen := length_farData htext
  have hhead : ∀ i, i < 6 → behind (farData text) 12 i
      = [0, 0, 0xE8, 0xFF, 0xFF, 0x7F].getD i (0 : UInt8) := by
    intro i hi
    have hi' : 12 + i < (uefHeader ++ [0, 0, 0xE8, 0xFF, 0xFF, 0x7F]).length := by
      show 12 + i < 18
      omega
    rw [behind, farData, List.append_assoc, List.getD_eq_getElem?_getD,
      List.getElem?_append_left hi', List.getElem?_append_right (by show 12 ≤ 12 + i; omega),
      show 12 + i - uefHeader.length = i from Nat.add_sub_cancel_left 12 i,
      ← List.getD_eq_getElem?_getD]
  have htextAt : chunkAt carrierBits (farData text) 12 = some textChunk := by
    have hid : word (behind (farData text) 12) 0 = infoID := by
      rw [word, hhead 0 (by decide), hhead 1 (by decide)]
      rfl
    have hlong : long (behind (farData text) 12) 2 = 0x7FFFFFE8 := by
      rw [long, hhead 2 (by decide), hhead 3 (by decide), hhead 4 (by decide), hhead 5 (by decide)]
      rfl
    rw [chunkAt]
    simp only
    rw [show (word fun i => (farData text).getD (12 + i) 0) = word (behind (farData text) 12) from rfl,
      show (long fun i => (farData text).getD (12 + i) 0) = long (behind (farData text) 12) from rfl,
      hid, hlong, if_neg (not_or.mpr ⟨by omega, by decide⟩), if_neg (by decide), if_neg (by decide),
      if_neg (by decide)]
    rfl
  have htone : chunkAt carrierBits (farData text) 0x7FFFFFFA = some (toneAt 0x80000000) :=
    chunkAt_tone (by omega) fun i hi => by
      rw [farData_tail htext, List.getD_eq_getElem?_getD,
        List.getElem?_append_left (by show i < 8; exact hi), ← List.getD_eq_getElem?_getD]
  have htone' : chunkAt carrierBits (farData text) 0x80000002 = some (toneAt 0x80000008) :=
    chunkAt_tone (by omega) fun i hi => by
      have := farData_tail htext (8 + i)
      rw [List.getD_eq_getElem?_getD, List.getElem?_append_right (by show 8 ≤ 8 + i; omega),
        show 8 + i - toneChunk.length = i from Nat.add_sub_cancel_left 8 i,
        ← List.getD_eq_getElem?_getD] at this
      rw [← this, behind, behind]
      exact congrArg (fun k => (farData text).getD k 0) (by omega)
  have hend : chunkAt carrierBits (farData text) 0x8000000A = none := chunkAt_short (by omega)
  rw [chunks, hlen, show (0x8000000A : ℕ) = 0x80000006 + 1 + 1 + 1 + 1 from rfl, chunksFrom, htextAt]
  simp only
  rw [show 12 + textChunk.span = 0x7FFFFFFA from rfl, chunksFrom, htone]
  simp only
  rw [show 0x7FFFFFFA + (toneAt 0x80000000).span = 0x80000002 from rfl, chunksFrom, htone']
  simp only
  rw [show 0x80000002 + (toneAt 0x80000008).span = 0x8000000A from rfl, chunksFrom, hend]

/-- The driver can walk over the file, but for the way back. -/
theorem farData_walkable (htext : text.length = 0x7FFFFFE8) : Walkable carrierBits (farData text) := by
  have hcs := chunks_farData htext
  refine ⟨?_, fun c hc => ?_, ?_⟩
  · rw [tapeEnd, hcs]
    decide
  · rw [hcs, List.mem_cons, List.mem_cons, List.mem_singleton] at hc
    rcases hc with rfl | rfl | rfl
    · exact ⟨by decide, by decide⟩
    · exact ⟨by decide, fun h => absurd h (by decide)⟩
    · exact ⟨by decide, fun h => absurd h (by decide)⟩
  · rw [tapeLength, hcs]
    decide

/-- The first bit comes from the first tone. -/
theorem farData_first (htext : text.length = 0x7FFFFFE8) {t : Tape}
    (h : InStep carrierBits (farData text) t) (h0 : t.chunk.bit_offset_end = 0) {fuel : ℕ}
    (hfuel : (farData text).length < fuel) (junk : UInt8) :
    ∃ t', getBitAtPos carrierBits fuel junk t 0 = some (1, t') ∧
      Holds (farData text) (tapeEnd carrierBits (farData text)) t'.f ∧
      Describes t'.chunk (toneAt 0x80000000) 0 := by
  obtain ⟨w, hrun, hw, hfinds⟩ := walkLoop_finds (farData_walkable htext) h.holds t.chunk hfuel 0
  have hcs := chunks_farData htext
  have hchunk : getChunkAtPosFile carrierBits fuel t.f t.chunk 0
      = some (decide (w.chunk.bit_offset_end ≠ 0), w) := by
    rw [getChunkAtPosFile.eq_def, h0, if_neg fun hf => absurd hf.2 (by decide),
      if_neg fun hf => hf.1 rfl]
    exact congrArg (Option.map fun w => (decide (w.chunk.bit_offset_end ≠ 0), w)) hrun
  rcases hfinds with ⟨hlen, -, -⟩ | ⟨before, c, after, hsplit, hfound, hd, hle, hin, -⟩
  · rw [tapeLength, hcs] at hlen
    exact absurd hlen (by decide)
  · -- only the first tone holds bit 0
    rw [show (0 : UInt32).toNat = 0 by decide] at hle hin
    have hc : c = toneAt 0x80000000 ∧ total Chunk.bits before = 0 := by
      rw [hcs] at hsplit
      rcases before with _ | ⟨c₁, _ | ⟨c₂, before⟩⟩
      · obtain ⟨rfl, -⟩ := List.cons.inj hsplit
        exact absurd hin (by decide)
      · obtain ⟨rfl, hrest⟩ := List.cons.inj hsplit
        obtain ⟨rfl, -⟩ := List.cons.inj hrest
        exact ⟨rfl, rfl⟩
      · obtain ⟨rfl, hrest⟩ := List.cons.inj hsplit
        obtain ⟨rfl, -⟩ := List.cons.inj hrest
        rw [total_cons, total_cons, show (toneAt 0x80000000).bits = 1 from rfl] at hle
        omega
    obtain ⟨rfl, hstart⟩ := hc
    rw [hstart] at hd
    refine ⟨⟨w.f, w.chunk⟩, ?_, hw.holds, hd⟩
    rw [getBitAtPos, hchunk, hfound]
    simp only
    rw [hd.id, if_neg (by decide), if_pos (by decide)]

/-- Behind it the driver loses its way. -/
theorem farData_second (htext : text.length = 0x7FFFFFE8) {t : Tape}
    (h : Holds (farData text) (tapeEnd carrierBits (farData text)) t.f)
    (hd : Describes t.chunk (toneAt 0x80000000) 0) (fuel : ℕ) (junk : UInt8) :
    ∃ t', getBitAtPos carrierBits (fuel + 1) junk t 1 = some (0, t') := by
  have hstart : t.chunk.bit_offset_start = 0 := UInt32.toNat_inj.mp hd.bit_offset_start
  have hend : t.chunk.bit_offset_end = 1 := UInt32.toNat_inj.mp hd.bit_offset_end
  have hoffset : t.chunk.file_offset = 0x80000000 := UInt32.toNat_inj.mp hd.file_offset
  have hlength : t.chunk.length = 2 := hd.length
  have hsize : t.f.objsize ≤ 0x8000000A := by
    have hsize := h.size
    rw [length_farData htext, tapeEnd, chunks_farData htext] at hsize
    exact hsize
  -- the offset is negative, and the seek ends at the end of the file
  obtain ⟨-, hpos, hgrown⟩ := h.seek_pos 18446744071562067970
  have hseek : fseek t.f (t.chunk.file_offset + t.chunk.length) false
      = (FF_Seek t.f 18446744071562067970).2 := by
    rw [hoffset, hlength]
    rfl
  have heof : FF_isEOF (FF_Seek t.f 18446744071562067970).2 = true := decide_eq_true (by omega)
  rw [getBitAtPos, getChunkAtPosFile.eq_def, hstart, hend, if_neg (by decide), if_pos (by decide), hseek]
  simp only
  rw [walkLoop, if_pos heof]
  exact ⟨_, rfl⟩

end

/-- A file of zeros with tones behind 2 GB. -/
def farTones : File :=
  { data := farData (List.replicate 0x7FFFFFE8 0), slack := fun _ => 0, cap := 0x80010000, csize := 0x10000
    readable := 0x80010000
    size_le := by
      rw [length_farData List.length_replicate]
      decide
    csize_pos := by decide }

/-- The second tone is not found from the first. -/
theorem farTones_not_decoded : ¬ ∀ fuel, farTones.data.length < fuel →
    Decodes carrierBits farTones false fuel 0 0 statInserted (strBytes "UEF") := by
  intro h
  have htext : (List.replicate 0x7FFFFFE8 (0 : UInt8)).length = 0x7FFFFFE8 := List.length_replicate
  have hfuel : farTones.data.length < farTones.data.length + 1 := Nat.lt_add_one _
  obtain ⟨d, chunk, outs, hins, -, hall⟩ := h _ hfuel
  have huef : IsUef farTones.data := by
    refine ⟨?_, ?_⟩
    · show 12 ≤ (farData _).length
      rw [length_farData htext]
      decide
    · show (farData _).take 10 = _
      rw [farData, List.append_assoc, List.append_assoc, List.take_append_of_le_length (by decide)]
      decide
  obtain ⟨d', chunk', outs', hins', -, hstep, h0⟩ := insertInit_inStep huef (le_refl _)
    (farData_walkable htext) false hfuel 0 statInserted (strBytes "UEF") (by decide)
  rw [hins, Option.some.injEq, Prod.mk.injEq, Prod.mk.injEq] at hins'
  obtain ⟨rfl, rfl, -⟩ := hins'
  obtain ⟨bits, t', hrun, hbits⟩ := hall [0, 1]
  obtain ⟨t₁, hfirst, hh, hd⟩ := farData_first htext hstep h0 hfuel 0
  obtain ⟨t₂, hsecond⟩ := farData_second htext hh hd farTones.data.length 0
  rw [getBits, hfirst] at hrun
  simp only at hrun
  rw [getBits, hsecond] at hrun
  obtain ⟨rfl, -⟩ := Prod.mk.inj (Option.some.inj hrun)
  obtain ⟨-, hrest⟩ := List.forall₂_cons.mp hbits
  obtain ⟨hanswer, -⟩ := List.forall₂_cons.mp hrest
  have hone : tapeBit carrierBits farTones.data 1 = some 1 := by
    rw [tapeBit, show farTones.data = farData _ from rfl, chunks_farData htext]
    rfl
  exact absurd (hanswer.2 1 hone) (by decide)

/-! ### A short tape -/

/-- A tone and a byte of data. -/
def shortTape : File :=
  { data := uefHeader ++ toneChunk ++ [0x00, 0x01, 1, 0, 0, 0, 0x55], slack := fun _ => 0
    cap := 512, csize := 512, readable := 512, size_le := by decide, csize_pos := sector_pos }

theorem shortTape_decodes : Decodes carrierBits shortTape true 28 0 0 statInserted (strBytes "UEF") :=
  @tape_decodes carrierBits shortTape ⟨by decide, by decide⟩ (by decide) ⟨by decide, by decide⟩ true 28
    (by decide) 0 0 statInserted (strBytes "UEF") (by decide)

end FileIO.Uef
