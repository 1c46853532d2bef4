import ReplayFirmware.FileIO.UefWalk

/-! What the tape driver answers.

    The record of the last chunk is right as long as it is empty or that of a chunk of the file. Then
    a query is answered as if the file had been decoded from its start, and leaves the record right:
    the answers do not depend on what was asked before. -/

namespace FileIO.Uef
open FatFs Drv02 Segments

section
variable {carrier : UInt16 → UInt32}

/-! ### The chunks of a file -/

/-- A chunk among the chunks from position `p` on, and what comes behind it. -/
theorem chunksFrom_split {data : List UInt8} : ∀ {n p : ℕ} (before : List Chunk) {c : Chunk}
    {after : List Chunk}, chunksFrom carrier data n p = before ++ c :: after → data.length ≤ p + n →
    chunkAt carrier data (p + total Chunk.span before) = some c ∧
      ∃ m, m < n ∧ after = chunksFrom carrier data m (p + total Chunk.span before + c.span) ∧
        data.length ≤ p + total Chunk.span before + c.span + m
  | 0, _, [], _, _, h, _ => by cases h
  | 0, _, _ :: _, _, _, h, _ => by cases h
  | n + 1, p, before, c, after, h, hn => by
    rw [chunksFrom] at h
    cases hc : chunkAt carrier data p with
    | none =>
      rw [hc] at h
      cases before <;> cases h
    | some c' =>
      rw [hc] at h
      simp only at h
      have hspan : 6 ≤ c'.span := Nat.le_add_right 6 _
      cases before with
      | nil =>
        obtain ⟨rfl, rfl⟩ := List.cons.inj h
        exact ⟨hc, n, Nat.lt_succ_self n, rfl, by rw [total_nil]; omega⟩
      | cons b before =>
        obtain ⟨rfl, hrest⟩ := List.cons.inj h
        obtain ⟨h1, m, h2, h3, h4⟩ := chunksFrom_split before hrest (by omega)
        rw [total_cons, ← Nat.add_assoc]
        exact ⟨h1, m, Nat.lt_succ_of_lt h2, h3, h4⟩

/-- The bits of a data chunk, and those a dummy byte takes. -/
theorem chunkAt_bits {data : List UInt8} {p : ℕ} {c : Chunk} (hc : chunkAt carrier data p = some c) :
    (c.id = tapeID → c.bits = c.length.toNat * 10) ∧
      (c.id = highDummyID → c.pre_carrier + 20 ≤ c.bits) := by
  rw [chunkAt] at hc
  simp only at hc
  split at hc
  · cases hc
  · split at hc
    · next h =>
      obtain rfl := Option.some.inj hc
      exact ⟨fun _ => rfl, fun hd => absurd (h.symm.trans hd) (by decide)⟩
    · next htape =>
      split at hc
      · next h =>
        split at hc
        · cases hc
        · obtain rfl := Option.some.inj hc
          refine ⟨fun ht => absurd ht htape, fun hd => ?_⟩
          rcases h with h | h
          · exact absurd (h.symm.trans hd) (by decide)
          · exact absurd (h.symm.trans hd) (by decide)
      · split at hc
        · split at hc
          · cases hc
          · obtain rfl := Option.some.inj hc
            exact ⟨fun ht => absurd ht htape, fun _ => Nat.le_add_right _ _⟩
        · next hdummy =>
          obtain rfl := Option.some.inj hc
          exact ⟨fun ht => absurd ht htape, fun hd => absurd hd hdummy⟩

/-- A file the driver can walk over from its start. -/
structure Walkable (carrier : UInt16 → UInt32) (data : List UInt8) : Prop where
  end_lt : tapeEnd carrier data < 2 ^ 32
  pass : ∀ c ∈ chunks carrier data, Passable c
  length_lt : tapeLength carrier data < 2 ^ 32

/-- A file that the driver can play: its chunks end below 2^31, where a `long int` reaches, and its
    bits can be counted. -/
structure Playable (carrier : UInt16 → UInt32) (data : List UInt8) : Prop where
  end_lt : tapeEnd carrier data < 2 ^ 31
  length_lt : tapeLength carrier data < 2 ^ 32

/-- Where a chunk lies in its file. -/
theorem tapeEnd_split {data : List UInt8} {before after : List Chunk} {c : Chunk}
    (h : chunks carrier data = before ++ c :: after) : tapeEnd carrier data
      = 12 + total Chunk.span before + c.span + total Chunk.span after := by
  rw [tapeEnd, h, total_append, total_cons, ← Nat.add_assoc, ← Nat.add_assoc]

/-- Which bits of its tape a chunk holds. -/
theorem tapeLength_split {data : List UInt8} {before after : List Chunk} {c : Chunk}
    (h : chunks carrier data = before ++ c :: after) : tapeLength carrier data
      = total Chunk.bits before + c.bits + total Chunk.bits after := by
  rw [tapeLength, h, total_append, total_cons, ← Nat.add_assoc]

theorem Playable.walkable {data : List UInt8} (h : Playable carrier data) : Walkable carrier data := by
  have hend := h.end_lt
  refine ⟨by omega, fun c hc => ?_, h.length_lt⟩
  obtain ⟨before, after, hcs⟩ := List.append_of_mem hc
  obtain ⟨hat, -⟩ := chunksFrom_split before hcs (Nat.le_add_left _ _)
  have hoffset := (chunkAt_header hat).2.2.2.2.1
  have hsplit := tapeEnd_split hcs
  have hspan : c.span = 6 + c.length.toNat := rfl
  exact ⟨by omega, fun _ => by omega⟩

/-- The record is empty or that of a chunk of the file. -/
def Recorded (carrier : UInt16 → UInt32) (data : List UInt8) (chunk : ChunkInfo) : Prop :=
  chunk.bit_offset_end = 0 ∨ ∃ before c after, chunks carrier data = before ++ c :: after ∧
    Describes chunk c (total Chunk.bits before)

/-- A tape in step with its file. -/
structure InStep (carrier : UInt16 → UInt32) (data : List UInt8) (t : Tape) : Prop where
  holds : Holds data (tapeEnd carrier data) t.f
  record : Recorded carrier data t.chunk

/-! ### The lookup -/

/-- What a lookup has found: the chunk that holds the position, or none behind the end. -/
def Finds (carrier : UInt16 → UInt32) (data : List UInt8) (pos : ℕ) (found : Bool) (w : Walk) : Prop :=
  (tapeLength carrier data ≤ pos ∧ found = false ∧ w.bit_pos.toNat = pos - tapeLength carrier data) ∨
    ∃ before c after, chunks carrier data = before ++ c :: after ∧ found = true ∧
      Describes w.chunk c (total Chunk.bits before) ∧ total Chunk.bits before ≤ pos ∧
      pos < total Chunk.bits before + c.bits ∧ w.bit_pos.toNat = pos - total Chunk.bits before

/-- A walk that starts behind some chunks of the file finds what is looked for. -/
theorem Arrives.finds {data : List UInt8} {after : List Chunk} {w w' : Walk}
    (h : Arrives after w w') (before : List Chunk) (pos : UInt32) (hcs : chunks carrier data = before ++ after)
    (hstart : w.chunk_start.toNat = total Chunk.bits before)
    (hle : total Chunk.bits before ≤ pos.toNat)
    (hpos : w.bit_pos.toNat = pos.toNat - total Chunk.bits before) :
    Finds carrier data pos.toNat (w'.chunk.bit_offset_end ≠ 0) w' ∧
      Recorded carrier data w'.chunk := by
  have hlength : tapeLength carrier data = total Chunk.bits before + total Chunk.bits after := by
    rw [tapeLength, hcs, total_append]
  rcases h with ⟨h1, h2, h3⟩ | ⟨before', c, after', h1, h2, h3, h4, h5⟩
  · refine ⟨Or.inl ⟨by omega, ?_, by omega⟩, Or.inl h2⟩
    rw [h2]
    rfl
  · rw [hstart, ← total_append] at h2
    have hsplit : chunks carrier data = (before ++ before') ++ c :: after' := by
      rw [hcs, h1, List.append_assoc]
    have hsum : total Chunk.bits (before ++ before')
        = total Chunk.bits before + total Chunk.bits before' := total_append _ _ _
    refine ⟨Or.inr ⟨before ++ before', c, after', hsplit, decide_eq_true fun h0 => ?_, h2, by omega,
      by omega, by omega⟩, Or.inr ⟨_, c, after', hsplit, h2⟩⟩
    -- a chunk that holds a position has an end
    have hend := h2.bit_offset_end
    rw [h0, show (0 : UInt32).toNat = 0 by decide] at hend
    omega

/-- A walk from the start of the file finds what is looked for. -/
theorem walkLoop_finds {data : List UInt8} (hwalk : Walkable carrier data) {f : FIL}
    (h : Holds data (tapeEnd carrier data) f) (chunk : ChunkInfo) {fuel : ℕ}
    (hfuel : data.length < fuel) (pos : UInt32) :
    ∃ w, walkLoop carrier (pos = 0xFFFFFFFF) fuel
        { f := fseek f 12 false, chunk := { chunk with bit_offset_end := 0 }, chunk_start := 0
          bit_pos := pos } = some w ∧
      InStep carrier data ⟨w.f, w.chunk⟩ ∧
      Finds carrier data pos.toNat (w.chunk.bit_offset_end ≠ 0) w := by
  have hlength := hwalk.length_lt
  have hend : 12 + total Chunk.span (chunksFrom carrier data data.length 12)
      = tapeEnd carrier data := rfl
  obtain ⟨h₁, hfptr₁⟩ := h.seek (t := 12) (by omega)
  rw [fseek_set (by decide), show (12 : UInt32).toNat = 12 by decide]
  obtain ⟨w, hrun, hholds, harr⟩ := walkLoop_arrives carrier hwalk.end_lt
    (decide (pos = 0xFFFFFFFF)) data.length 12 fuel
    (w := { f := (FF_Seek f 12).2, chunk := { chunk with bit_offset_end := 0 }
            chunk_start := 0, bit_pos := pos }) h₁ hfptr₁ (Nat.le_add_left _ _) hend
    hwalk.pass
    (by
      show (0 : UInt32).toNat + tapeLength carrier data < _
      rw [show (0 : UInt32).toNat = 0 by decide]
      omega) rfl hfuel
  obtain ⟨hfinds, hrec⟩ := harr.finds [] pos rfl rfl (Nat.zero_le _) rfl
  exact ⟨w, hrun, ⟨hholds, hrec⟩, hfinds⟩

/-- A walk that goes on behind the record finds what is looked for. -/
theorem walkLoop_resumes {data : List UInt8} (hplay : Playable carrier data) {t : Tape}
    (h : InStep carrier data t) {fuel : ℕ} (hfuel : data.length < fuel) {pos : UInt32}
    (hsome : t.chunk.bit_offset_end ≠ 0) (hle : t.chunk.bit_offset_end ≤ pos) :
    ∃ w, walkLoop carrier (pos = 0xFFFFFFFF) fuel
        { f := fseek t.f (t.chunk.file_offset + t.chunk.length) false
          chunk := { t.chunk with bit_offset_end := 0 }
          chunk_start := t.chunk.bit_offset_end, bit_pos := pos - t.chunk.bit_offset_end } = some w ∧
      InStep carrier data ⟨w.f, w.chunk⟩ ∧
      Finds carrier data pos.toNat (w.chunk.bit_offset_end ≠ 0) w := by
  rcases h.record with h0 | ⟨before, c, after, hcs, hd⟩
  · exact absurd h0 hsome
  · obtain ⟨hc, m, hm, hafter, hlen⟩ := chunksFrom_split before hcs (Nat.le_add_left _ _)
    have hoffset := (chunkAt_header hc).2.2.2.2.1
    have hspan : c.span = 6 + c.length.toNat := rfl
    have hend := tapeEnd_split hcs
    have hbits := tapeLength_split hcs
    have hendlt := hplay.end_lt
    have hlength := hplay.length_lt
    have htarget : (t.chunk.file_offset + t.chunk.length).toNat
        = 12 + total Chunk.span before + c.span := by
      rw [UInt32.toNat_add, hd.file_offset, hd.length, hoffset]
      omega
    have hposle := UInt32.le_iff_toNat_le.mp hle
    obtain ⟨h₁, hfptr₁⟩ := h.holds.seek (t := 12 + total Chunk.span before + c.span) (by omega)
    have hcs' : chunks carrier data = (before ++ [c]) ++ after := by
      rw [hcs, List.append_assoc]
      rfl
    have hsum : total Chunk.bits (before ++ [c]) = total Chunk.bits before + c.bits := by
      rw [total_append, total_cons, total_nil, Nat.add_zero]
    rw [fseek_set (by rw [htarget]; omega), htarget]
    obtain ⟨w, hrun, hholds, harr⟩ := walkLoop_arrives carrier hplay.walkable.end_lt
      (decide (pos = 0xFFFFFFFF)) m (12 + total Chunk.span before + c.span) fuel
      (w := { f := (FF_Seek t.f (12 + total Chunk.span before + c.span)).2
              chunk := { t.chunk with bit_offset_end := 0 }
              chunk_start := t.chunk.bit_offset_end
              bit_pos := pos - t.chunk.bit_offset_end }) h₁ hfptr₁ hlen
      (by rw [← hafter, hend])
      (by
        rw [← hafter]
        exact fun c' hc' => hplay.walkable.pass c' (by
          rw [hcs']
          exact List.mem_append_right _ hc'))
      (by
        rw [← hafter]
        show t.chunk.bit_offset_end.toNat + _ < _
        rw [hd.bit_offset_end]
        omega) rfl (by omega)
    rw [← hafter] at harr
    obtain ⟨hfinds, hrec⟩ := harr.finds (before ++ [c]) pos hcs' (hd.bit_offset_end.trans hsum.symm)
      (by rw [hsum, ← hd.bit_offset_end]; exact hposle)
      (by
        rw [hsum, ← hd.bit_offset_end]
        exact UInt32.toNat_sub_of_le _ _ hle)
    exact ⟨w, hrun, ⟨hholds, hrec⟩, hfinds⟩

/-- A lookup in step finds the chunk that holds the position. -/
theorem getChunkAtPosFile_finds {data : List UInt8} (hplay : Playable carrier data) {t : Tape}
    (h : InStep carrier data t) {fuel : ℕ} (hfuel : data.length < fuel) (pos : UInt32) :
    ∃ found w, getChunkAtPosFile carrier fuel t.f t.chunk pos = some (found, w) ∧
      InStep carrier data ⟨w.f, w.chunk⟩ ∧ Finds carrier data pos.toNat found w := by
  rw [getChunkAtPosFile]
  by_cases hhit : t.chunk.bit_offset_start ≤ pos ∧ pos < t.chunk.bit_offset_end
  · -- the record holds the position
    rw [if_pos hhit]
    have hlt := UInt32.lt_iff_toNat_lt.mp hhit.2
    rcases h.record with h0 | ⟨before, c, after, hcs, hd⟩
    · rw [h0] at hlt
      exact absurd hlt (Nat.not_lt_zero _)
    · have hle := UInt32.le_iff_toNat_le.mp hhit.1
      rw [hd.bit_offset_start] at hle
      rw [hd.bit_offset_end] at hlt
      refine ⟨true, _, rfl, ⟨h.holds, h.record⟩,
        Or.inr ⟨before, c, after, hcs, rfl, hd, hle, hlt, ?_⟩⟩
      show (pos - t.chunk.bit_offset_start).toNat = _
      rw [UInt32.toNat_sub_of_le _ _ hhit.1, hd.bit_offset_start]
  · rw [if_neg hhit]
    by_cases hresume : t.chunk.bit_offset_end ≠ 0 ∧ t.chunk.bit_offset_end ≤ pos
    · rw [if_pos hresume]
      obtain ⟨w, hrun, hw⟩ := walkLoop_resumes hplay h hfuel hresume.1 hresume.2
      exact ⟨_, w, congrArg (Option.map fun w => (decide (w.chunk.bit_offset_end ≠ 0), w)) hrun, hw⟩
    · rw [if_neg hresume]
      obtain ⟨w, hrun, hw⟩ := walkLoop_finds hplay.walkable h.holds t.chunk hfuel pos
      exact ⟨_, w, congrArg (Option.map fun w => (decide (w.chunk.bit_offset_end ≠ 0), w)) hrun, hw⟩

/-! ### The bits -/

theorem Finds.tapeBit_eq {data : List UInt8} {pos : ℕ} {found : Bool} {w : Walk}
    (h : Finds carrier data pos found w) :
    (found = false ∧ tapeBit carrier data pos = some 0) ∨
      found = true ∧ ∃ before c after, chunks carrier data = before ++ c :: after ∧
        Describes w.chunk c (total Chunk.bits before) ∧ w.bit_pos.toNat < c.bits ∧
        tapeBit carrier data pos = c.bit data w.bit_pos.toNat := by
  rcases h with ⟨h1, h2, -⟩ | ⟨before, c, after, h1, h2, h3, h4, h5, h6⟩
  · refine Or.inl ⟨h2, ?_⟩
    rw [tapeBit, locate_behind Chunk.bits h1]
  · refine Or.inr ⟨h2, before, c, after, h1, h3, by omega, ?_⟩
    rw [tapeBit, h1, locate_split Chunk.bits h4 h5, h6]

/-- A query in step is answered with the bit of the tape, wherever the file has its data, and leaves
    the tape in step. -/
theorem getBitAtPos_eq {data : List UInt8} (hplay : Playable carrier data) {t : Tape}
    (h : InStep carrier data t) {fuel : ℕ} (hfuel : data.length < fuel) (junk : UInt8)
    (pos : UInt32) : ∃ bit t', getBitAtPos carrier fuel junk t pos = some (bit, t') ∧
      InStep carrier data t' ∧ ∀ b, tapeBit carrier data pos.toNat = some b → bit = b := by
  obtain ⟨found, w, hrun, hw, hfinds⟩ := getChunkAtPosFile_finds hplay h hfuel pos
  rw [getBitAtPos, hrun]
  rcases hfinds.tapeBit_eq with ⟨rfl, hbit⟩ | ⟨rfl, before, c, after, hcs, hd, hlt, hbit⟩
  · refine ⟨0, _, rfl, hw, fun b hb => ?_⟩
    rw [hbit] at hb
    exact Option.some.inj hb
  · rw [hbit]
    obtain ⟨hc, -⟩ := chunksFrom_split before hcs (Nat.le_add_left _ _)
    obtain ⟨-, -, -, -, hoffset, hsilent⟩ := chunkAt_header hc
    obtain ⟨htapebits, hdummybits⟩ := chunkAt_bits hc
    have hlength := hplay.length_lt
    have hbits := tapeLength_split hcs
    simp only
    rw [hd.id, Chunk.bit]
    by_cases hgap : c.id = gapID
    · rw [if_pos hgap, if_pos hgap]
      exact ⟨0, _, rfl, hw, fun b hb => Option.some.inj hb⟩
    rw [if_neg hgap, if_neg hgap]
    by_cases htone : c.id = highToneID
    · rw [if_pos htone, if_pos htone]
      exact ⟨1, _, rfl, hw, fun b hb => Option.some.inj hb⟩
    rw [if_neg htone, if_neg htone]
    by_cases htape : c.id = tapeID
    · rw [if_pos htape, if_pos htape]
      have hten : (w.bit_pos - w.bit_pos / 10 * 10).toNat = w.bit_pos.toNat % 10 := by
        have hdiv : (w.bit_pos / 10).toNat = w.bit_pos.toNat / 10 := by
          rw [UInt32.toNat_div]
          rfl
        have hmul : (w.bit_pos / 10 * 10).toNat = w.bit_pos.toNat / 10 * 10 := by
          rw [UInt32.toNat_mul, hdiv, show (10 : UInt32).toNat = 10 by decide]
          have := w.bit_pos.toNat_lt
          omega
        rw [UInt32.toNat_sub_of_le _ _ (UInt32.le_iff_toNat_le.mpr (by omega)), hmul]
        omega
      have hdiv : (w.bit_pos / 10).toNat = w.bit_pos.toNat / 10 := by
        rw [UInt32.toNat_div]
        rfl
      have hoff : ∀ n : UInt32, n.toNat < 10 → (w.bit_pos - w.bit_pos / 10 * 10 = n
          ↔ w.bit_pos.toNat % 10 = n.toNat) := by
        intro n _
        rw [← hten]
        exact ⟨fun h => congrArg UInt32.toNat h, fun h => UInt32.toNat_inj.mp h⟩
      by_cases h0 : w.bit_pos.toNat % 10 = 0
      · rw [if_pos ((hoff 0 (by decide)).mpr h0), if_pos h0]
        exact ⟨0, _, rfl, hw, fun b hb => Option.some.inj hb⟩
      rw [if_neg fun hz => h0 ((hoff 0 (by decide)).mp hz), if_neg h0]
      by_cases h9 : w.bit_pos.toNat % 10 = 9
      · rw [if_pos ((hoff 9 (by decide)).mpr h9), if_pos h9]
        exact ⟨1, _, rfl, hw, fun b hb => Option.some.inj hb⟩
      rw [if_neg fun hz => h9 ((hoff 9 (by decide)).mp hz), if_neg h9]
      -- a data bit: the byte is read from the file
      have hlen := htapebits htape
      have hspan : c.span = 6 + c.length.toNat := rfl
      have hend := tapeEnd_split hcs
      have hendlt := hplay.end_lt
      have htarget : (w.chunk.file_offset + w.bit_pos / 10).toNat
          = c.file_offset + w.bit_pos.toNat / 10 := by
        rw [UInt32.toNat_add, hd.file_offset, hdiv]
        omega
      have hholds : Holds data (tapeEnd carrier data) w.f := hw.holds
      obtain ⟨h₁, hfptr₁⟩ := hholds.seek (t := c.file_offset + w.bit_pos.toNat / 10) (by omega)
      obtain ⟨f₂, hread, h₂, -, -⟩ := h₁.read 1
      rw [fseek_set (by rw [htarget]; omega), htarget, hread]
      refine ⟨_, _, rfl, ⟨h₂, hw.record⟩, fun b hb => ?_⟩
      obtain ⟨byte, hbyte, hb⟩ := Option.map_eq_some_iff.mp hb
      have hin : c.file_offset + w.bit_pos.toNat / 10 < data.length := by
        by_contra hout
        rw [List.getElem?_eq_none (by omega)] at hbyte
        cases hbyte
      have hlen₁ := h₁.length_le
      have hat : (FF_Seek w.f (c.file_offset + w.bit_pos.toNat / 10)).2.fptr
          = c.file_offset + w.bit_pos.toNat / 10 := by omega
      have hone : (w.bit_pos - w.bit_pos / 10 * 10 - 1).toNat = w.bit_pos.toNat % 10 - 1 := by
        rw [UInt32.toNat_sub_of_le _ _ (UInt32.le_iff_toNat_le.mpr (by
          rw [hten, show (1 : UInt32).toNat = 1 by decide]; omega)), hten]
        rfl
      rw [hat, h₁.getD_read junk (by omega) (by decide), hone, ← hb, frameBit, if_neg h0, if_neg h9,
        Nat.add_zero, List.getD_eq_getElem?_getD, hbyte]
      rfl
    · -- a dummy byte between two tones
      have hdummy : c.id = highDummyID := by
        by_contra hdummy
        have hnot : played c.id = false := by
          simp only [played, Bool.or_eq_false_iff, decide_eq_false_iff_not]
          exact ⟨⟨⟨fun hh => htape hh.symm, fun hh => hgap hh.symm⟩, fun hh => htone hh.symm⟩,
            fun hh => hdummy hh.symm⟩
        have := hsilent hnot
        omega
      have hpre := hd.pre_carrier hdummy
      have hroom := hdummybits hdummy
      have h20 : (w.chunk.pre_carrier + 20).toNat = c.pre_carrier + 20 := by
        rw [UInt32.toNat_add, hpre, show (20 : UInt32).toNat = 20 by decide]
        omega
      rw [if_neg htape, if_neg htape]
      by_cases htones : w.bit_pos.toNat < c.pre_carrier ∨ c.pre_carrier + 20 ≤ w.bit_pos.toNat
      · have htones' : w.bit_pos < w.chunk.pre_carrier ∨ w.chunk.pre_carrier + 20 ≤ w.bit_pos := by
          rw [UInt32.lt_iff_toNat_lt, UInt32.le_iff_toNat_le, h20, hpre]
          exact htones
        rw [if_pos htones', if_pos htones]
        exact ⟨1, _, rfl, hw, fun b hb => Option.some.inj hb⟩
      · have htones' : ¬(w.bit_pos < w.chunk.pre_carrier ∨ w.chunk.pre_carrier + 20 ≤ w.bit_pos) := by
          rw [UInt32.lt_iff_toNat_lt, UInt32.le_iff_toNat_le, h20, hpre]
          exact htones
        rw [if_neg htones', if_neg htones]
        refine ⟨_, _, rfl, hw, fun b hb => ?_⟩
        have hmod : ((w.bit_pos - w.chunk.pre_carrier) % 10).toNat
            = (w.bit_pos.toNat - c.pre_carrier) % 10 := by
          rw [UInt32.toNat_mod, UInt32.toNat_sub_of_le _ _ (UInt32.le_iff_toNat_le.mpr (by omega)),
            hpre]
          rfl
        rw [hmod]
        exact Option.some.inj hb

end

end FileIO.Uef
