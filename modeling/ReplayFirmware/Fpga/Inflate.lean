import ReplayFirmware.Fpga.GzipHeader

/-! Decompression of a stream that ends too soon, or into a sink that does not take everything.

    The decoder stands for `tinfl_decompress`, with the behaviour that is documented for it. When the
    source has run dry and the decoder asks for more, nothing changes any more and the loop goes around for
    ever; so do the strings of the header, and a write to a file that is full. Where the loop ends, the size
    that it returns is all that tells a failure. -/

namespace Fpga.Inflate

/-! ### The code -/

/-- `tinfl_status` -/
inductive TinflStatus where
  | badParam | adler32Mismatch | failed | done | needsMoreInput | hasMoreOutput
  deriving DecidableEq

def TinflStatus.value : TinflStatus → ℤ
  | .badParam => -3
  | .adler32Mismatch => -2
  | .failed => -1
  | .done => 0
  | .needsMoreInput => 1
  | .hasMoreOutput => 2

/-- What a call of `tinfl_decompress` comes to. -/
structure Call (δ : Type) where
  status : TinflStatus
  consumed : ℕ
  out : List UInt8
  decomp : δ

/-- `tinfl_init` and `tinfl_decompress`, on the input and the room for output that they are given. -/
structure Tinfl (δ : Type) where
  init : δ
  decompress : δ → List UInt8 → ℕ → Call δ

variable {δ σ φ : Type}

/-- `write_buffer_size` -/
def writeBufferSize : ℕ := 32 * 1024

/-- The values of `size_t`. -/
def sizeT : ℕ := 2 ^ 32

/-- The variables of `zlib_inflate` before a call: `src` is what `read_buffer` has left, `input` what can
    still be read. -/
structure Feed (δ : Type) where
  decomp : δ
  src : List UInt8
  input : List UInt8
  dst_buf_offset : ℕ

namespace Feed

def call (t : Tinfl δ) (f : Feed δ) : Call δ :=
  t.decompress f.decomp f.src (writeBufferSize - f.dst_buf_offset)

def next (t : Tinfl δ) (read_buffer_size : ℕ) (f : Feed δ) : Feed δ where
  decomp := (f.call t).decomp
  src := if (f.call t).status = .needsMoreInput then f.input.take read_buffer_size
    else f.src.drop (f.call t).consumed
  input := if (f.call t).status = .needsMoreInput then f.input.drop read_buffer_size else f.input
  dst_buf_offset := (f.dst_buf_offset + (f.call t).out.length) &&& (writeBufferSize - 1)

end Feed

/-- `(dst_buf_size) && (!write_func(…))`, none if so; else how many bytes have been stored. -/
def offer (write_func : σ → List UInt8 → ℕ × σ) (sink : σ) (out : List UInt8) : Option (ℕ × σ) :=
  if out = [] then some (0, sink)
  else if (write_func sink out).1 = 0 then none else some (write_func sink out)

/-- The loop of `zlib_inflate`: what is returned, and what has been stored. -/
def inflateLoop (t : Tinfl δ) (read_buffer_size : ℕ) (write_func : σ → List UInt8 → ℕ × σ) :
    ℕ → Feed δ → ℕ → List UInt8 → σ → Option (ℕ × List UInt8)
  | 0, _, _, _, _ => none
  | fuel + 1, f, total, stored, sink =>
    let r := f.call t
    match offer write_func sink r.out with
    | none => some (total, stored)
    | some a =>
      let total := (total + r.out.length) % sizeT
      let stored := stored ++ r.out.take a.1
      if r.status.value ≤ 0 then some (total, stored)
      else inflateLoop t read_buffer_size write_func fuel (f.next t read_buffer_size) total stored a.2

/-- Before the first call. -/
def Feed.start (t : Tinfl δ) (input : List UInt8) : Feed δ where
  decomp := t.init
  src := []
  input := input
  dst_buf_offset := 0

/-- `zlib_inflate` -/
def zlibInflate (t : Tinfl δ) (read_buffer_size : ℕ) (write_func : σ → List UInt8 → ℕ × σ) (fuel : ℕ)
    (input : List UInt8) (sink : σ) : Option (ℕ × List UInt8) :=
  inflateLoop t read_buffer_size write_func fuel (Feed.start t input) 0 [] sink

/-- The loop of `write_to_file`. -/
def writeLoop (ffWrite : φ → List UInt8 → ℕ × φ) : ℕ → φ → List UInt8 → ℕ → Option (ℕ × φ)
  | 0, _, _, _ => none
  | fuel + 1, file, buffer, written =>
    if buffer = [] then some (written, file)
    else
      let r := ffWrite file buffer
      writeLoop ffWrite fuel r.2 (buffer.drop r.1) (written + r.1)

/-- `write_to_file` -/
def writeToFile (ffWrite : φ → List UInt8 → ℕ × φ) (fuel : ℕ) (buffer : List UInt8) (file : φ) :
    Option (ℕ × φ) :=
  writeLoop ffWrite fuel file buffer 0

/-! ### What is documented -/

/-- What becomes of a stream. -/
inductive Verdict where
  | complete | bad | short
  deriving DecidableEq

/-- What is left of `write_buffer`, which goes around, behind the output. -/
def space (o : List UInt8) : ℕ := writeBufferSize - o.length % writeBufferSize

/-- The decompressor has taken `s` and has given `o`. -/
inductive Reached (t : Tinfl δ) : δ → List UInt8 → List UInt8 → Prop where
  | init : Reached t t.init [] []
  | call {d : δ} {s o : List UInt8} (src : List UInt8) : Reached t d s o →
      Reached t (t.decompress d src (space o)).decomp (s ++ src.take (t.decompress d src (space o)).consumed)
        (o ++ (t.decompress d src (space o)).out)

/-- A call on `src`, where `s` has been taken and `o` has been given. -/
structure Kept (decode : List UInt8 → List UInt8 × Verdict) (s o src : List UInt8) (r : Call δ) : Prop where
  consumed_le : r.consumed ≤ src.length
  out_begins : ∀ rest, o ++ r.out <+: (decode (s ++ src ++ rest)).1
  input_used : r.status = .needsMoreInput → r.consumed = src.length ∧ decode (s ++ src) = (o ++ r.out, .short)
  output_full : r.status = .hasMoreOutput → r.out.length = space o
  done : r.status = .done → ∀ rest, decode (s ++ src ++ rest) = (o ++ r.out, .complete)
  failed : r.status.value < 0 → ∀ rest, decode (s ++ src ++ rest) = (o ++ r.out, .bad)

/-- `tinfl_decompress` decodes the format, call by call. -/
def Documented (t : Tinfl δ) (decode : List UInt8 → List UInt8 × Verdict) : Prop :=
  ∀ d s o src, Reached t d s o → Kept decode s o src (t.decompress d src (space o))

/-- `FF_Write` stores as much as there is room for. -/
def Roomy (ffWrite : φ → List UInt8 → ℕ × φ) (room : φ → ℕ) : Prop :=
  ∀ file buffer, (ffWrite file buffer).1 = min buffer.length (room file) ∧
    room (ffWrite file buffer).2 = room file - (ffWrite file buffer).1

/-! ### What is expected -/

/-- The fixed part of a header, as the code wants it. -/
def Signed (input : List UInt8) : Prop :=
  10 ≤ input.length ∧ input.getD 0 0 = 0x1F ∧ input.getD 1 0 = 0x8B ∧ input.getD 2 0 = 8

/-- A string that the flags announce, with its end. -/
def StringField (present : Prop) (s : List UInt8) : Prop :=
  (present → ∃ u, 0 ∉ u ∧ s = u ++ [0]) ∧ (¬present → s = [])

/-- All the fields that the flags announce are there, as the code reads them. -/
def Whole (flg : UInt8) (input : List UInt8) : Prop :=
  ∃ extra name comment crc rest, input = extra ++ (name ++ (comment ++ (crc ++ rest))) ∧
    (flg &&& 4 ≠ 0 → extra.length = 8 + skipLength ((extra.drop 4).take 4)) ∧ (flg &&& 4 = 0 → extra = []) ∧
    StringField (flg &&& 8 ≠ 0) name ∧ StringField (flg &&& 16 ≠ 0) comment ∧
    crc.length = if flg &&& 2 ≠ 0 then 2 else 0

/-- `read_gzip_header` returns, and not with success unless it has read a header as a whole. -/
def HeaderReports (l : Locals) (input : List UInt8) : Prop :=
  ∃ r, readGzipHeader l input = some r ∧ (r.1 ≠ 0 ∨ Signed input ∧ Whole (input.getD 3 0) (input.drop 10))

/-- `zlib_inflate` returns, and what it returns is a failure to its caller unless the whole stream has been
    decoded and stored. -/
def InflateReports (t : Tinfl δ) (decode : List UInt8 → List UInt8 × Verdict) (read_buffer_size : ℕ)
    (write_func : σ → List UInt8 → ℕ × σ) (failure : ℕ → Prop) (input : List UInt8) (sink : σ) : Prop :=
  ∃ fuel r, zlibInflate t read_buffer_size write_func fuel input sink = some r ∧
    (failure r.1 ∨ (decode input).2 = .complete ∧ r.2 = (decode input).1)

/-- `write_to_file` returns, and not with success unless everything has been written. -/
def WriteReports (ffWrite : φ → List UInt8 → ℕ × φ) (buffer : List UInt8) (file : φ) : Prop :=
  ∃ fuel r, writeToFile ffWrite fuel buffer file = some r ∧ (r.1 = 0 ∨ r.1 = buffer.length)

/-- The output of the calls, one after the other, up to the end or to where the source has run dry. -/
inductive Gives (t : Tinfl δ) (read_buffer_size : ℕ) : Feed δ → List (List UInt8) → Prop where
  | stop {f : Feed δ} : (f.call t).status.value ≤ 0 → Gives t read_buffer_size f [(f.call t).out]
  | dry {f : Feed δ} : (f.call t).status = .needsMoreInput → f.input = [] →
      Gives t read_buffer_size f [(f.call t).out]
  | more {f : Feed δ} {outs : List (List UInt8)} : 0 < (f.call t).status.value →
      ((f.call t).status = .needsMoreInput → f.input ≠ []) →
      Gives t read_buffer_size (f.next t read_buffer_size) outs →
      Gives t read_buffer_size f ((f.call t).out :: outs)

/-- What the sink has been given when it refuses, if it does. -/
def refused (write_func : σ → List UInt8 → ℕ × σ) : σ → List (List UInt8) → Option ℕ
  | _, [] => none
  | sink, out :: outs =>
    match offer write_func sink out with
    | none => some 0
    | some a => (refused write_func a.2 outs).map (out.length + ·)

/-- What the sink stores, when it refuses nothing. -/
def storedOf (write_func : σ → List UInt8 → ℕ × σ) : σ → List (List UInt8) → List UInt8
  | _, [] => []
  | sink, out :: outs =>
    match offer write_func sink out with
    | none => []
    | some a => out.take a.1 ++ storedOf write_func a.2 outs

/-- The sink refuses something, and what it has been given before is a failure to the caller; or the stream
    does not end too soon, and its size is a failure or everything is stored. -/
def Told (write_func : σ → List UInt8 → ℕ × σ) (failure : ℕ → Prop) (sink : σ) (outs : List (List UInt8))
    (verdict : Verdict) : Prop :=
  match refused write_func sink outs with
  | some given => failure (given % sizeT)
  | none => verdict ≠ .short ∧ (failure (outs.flatten.length % sizeT) ∨
      verdict = .complete ∧ storedOf write_func sink outs = outs.flatten)

/-! ### The header -/

variable {l : Locals} {flg : UInt8} {input : List UInt8}

theorem stringField_skip {present : Prop} [Decidable present] {s : List UInt8} (h : StringField present s)
    (c : UInt8) (rest : List UInt8) : ∃ c', skipString (decide present) (c, s ++ rest) = some (c', rest) := by
  by_cases hp : present
  · obtain ⟨u, hu, rfl⟩ := h.1 hp
    refine ⟨0, ?_⟩
    rw [skipString, decide_eq_true hp, if_pos rfl, List.append_assoc, List.singleton_append,
      stringLoop_string u c rest hu]
  · refine ⟨c, ?_⟩
    rw [skipString, decide_eq_false hp, if_neg Bool.false_ne_true, h.2 hp, List.nil_append]

/-- Where all fields are there, exactly they are read. -/
theorem skipExtra_whole {extra rest : List UInt8} (h : extra.length = 8 + skipLength ((extra.drop 4).take 4)) :
    ∃ c, skipExtra l (extra ++ rest) = (c, rest) := by
  have hlen : 8 ≤ extra.length := by omega
  have htake : ((extra ++ rest).drop 4).take 4 = (extra.drop 4).take 4 := by
    rw [List.drop_append_of_le_length (by omega), List.take_append_of_le_length]
    rw [List.length_drop]
    omega
  have hskip : skipLength (overwrite (overwrite l.extra ((extra ++ rest).take 4)) (((extra ++ rest).drop 4).take 4)) =
      skipLength ((extra.drop 4).take 4) := by
    rw [htake, skipLength_overwrite]
    rw [List.length_take, List.length_drop]
    omega
  refine ⟨_, Prod.ext rfl ?_⟩
  show (skipLoop (skipLength _) l.c (((extra ++ rest).drop 4).drop 4)).2 = rest
  have hend : 4 + (4 + skipLength ((extra.drop 4).take 4)) = extra.length := by omega
  rw [skipLoop_drop, hskip, List.drop_drop, List.drop_drop, hend, List.drop_left]

theorem readFields_whole (h : Whole flg input) : ∃ rest, readFields flg l input = some rest := by
  obtain ⟨extra, name, comment, crc, rest, rfl, hextra, hnone, hname, hcomment, -⟩ := h
  obtain ⟨c, hskip⟩ : ∃ c, (if flg &&& 4 ≠ 0 then skipExtra l (extra ++ (name ++ (comment ++ (crc ++ rest))))
      else (l.c, extra ++ (name ++ (comment ++ (crc ++ rest))))) = (c, name ++ (comment ++ (crc ++ rest))) := by
    by_cases hflg : flg &&& 4 ≠ 0
    · rw [if_pos hflg]
      exact skipExtra_whole (hextra hflg)
    · rw [if_neg hflg, hnone (not_not.mp hflg)]
      exact ⟨l.c, rfl⟩
  obtain ⟨c₁, h₁⟩ := stringField_skip hname c (comment ++ (crc ++ rest))
  obtain ⟨c₂, h₂⟩ := stringField_skip hcomment c₁ (crc ++ rest)
  refine ⟨if flg &&& 2 ≠ 0 then (crc ++ rest).drop 2 else crc ++ rest, ?_⟩
  unfold readFields
  rw [hskip, h₁]
  simp only [bind, Option.bind_some]
  rw [h₂]
  rfl

theorem signed_iff : Signed input ↔ ¬((input.take 10).length ≠ 10 ∨ ((input.take 10).getD 0 0 ≠ 0x1F ∨
    (input.take 10).getD 1 0 ≠ 0x8B) ∨ (input.take 10).getD 2 0 ≠ 8) := by
  have hget : ∀ i, i < 10 → (input.take 10).getD i 0 = input.getD i 0 := by
    intro i hi
    rw [List.getD_eq_getElem?_getD, List.getD_eq_getElem?_getD, List.getElem?_take_of_lt hi]
  have hlen : (input.take 10).length = 10 ↔ 10 ≤ input.length := by
    rw [List.length_take]
    omega
  rw [hget 0 (by decide), hget 1 (by decide), hget 2 (by decide)]
  unfold Signed
  rw [← hlen]
  tauto

/-- `read_gzip_header` does what it should exactly where what the flags announce is there, if it begins as a
    header does. -/
theorem header_iff (l : Locals) (input : List UInt8) :
    HeaderReports l input ↔ (Signed input → Whole (input.getD 3 0) (input.drop 10)) := by
  have hflg : Signed input → (input.take 10).getD 3 0 = input.getD 3 0 := by
    intro _
    rw [List.getD_eq_getElem?_getD, List.getD_eq_getElem?_getD, List.getElem?_take_of_lt (by decide)]
  by_cases hsigned : Signed input
  · have hgood := signed_iff.mp hsigned
    rw [not_or, not_or, not_not, not_not] at hgood
    have hread : readGzipHeader l input =
        (readFields (input.getD 3 0) l (input.drop 10)).map fun input => (0, input) := by
      unfold readGzipHeader
      simp only
      rw [if_neg (not_not.mpr hgood.1), if_neg hgood.2.1, if_neg (not_not.mpr hgood.2.2), hflg hsigned]
    constructor
    · rintro ⟨r, hr, hcase⟩ _
      rcases hcase with hfail | hwhole
      · rw [hread, Option.map_eq_some_iff] at hr
        obtain ⟨rest, -, rfl⟩ := hr
        exact absurd rfl hfail
      · exact hwhole.2
    · intro hwhole
      obtain ⟨rest, hrest⟩ := @readFields_whole l _ _ (hwhole hsigned)
      refine ⟨(0, rest), ?_, Or.inr ⟨hsigned, hwhole hsigned⟩⟩
      rw [hread, hrest, Option.map_some]
  · refine iff_of_true ?_ fun h => absurd h hsigned
    have hbad := not_not.mp (mt signed_iff.mpr hsigned)
    refine ⟨(-1, input.drop 10), ?_, Or.inl (show (-1 : ℤ) ≠ 0 by decide)⟩
    unfold readGzipHeader
    simp only
    by_cases hlen : (input.take 10).length ≠ 10
    · rw [if_pos hlen]
    rw [if_neg hlen]
    by_cases hsig : (input.take 10).getD 0 0 ≠ 0x1F ∨ (input.take 10).getD 1 0 ≠ 0x8B
    · rw [if_pos hsig]
    · rw [if_neg hsig, if_pos ((hbad.resolve_left hlen).resolve_left hsig)]

/-! ### The decoder -/

variable {t : Tinfl δ} {decode : List UInt8 → List UInt8 × Verdict} {f : Feed δ} {whole s o : List UInt8}
  {read_buffer_size : ℕ}

theorem space_pos (o : List UInt8) : 0 < space o := Nat.sub_pos_of_lt (Nat.mod_lt _ (by decide))

/-- The decompressor is at its place in the stream, and in the buffer for the output. -/
structure Fed (t : Tinfl δ) (whole : List UInt8) (f : Feed δ) (s o : List UInt8) : Prop where
  reached : Reached t f.decomp s o
  left : s ++ f.src ++ f.input = whole
  offset : f.dst_buf_offset = o.length % writeBufferSize

theorem start_fed (t : Tinfl δ) (input : List UInt8) : Fed t input (Feed.start t input) [] [] :=
  ⟨.init, rfl, rfl⟩

theorem Fed.call_eq (h : Fed t whole f s o) : f.call t = t.decompress f.decomp f.src (space o) := by
  rw [Feed.call, h.offset]
  rfl

theorem Fed.kept (hdoc : Documented t decode) (h : Fed t whole f s o) : Kept decode s o f.src (f.call t) := by
  rw [h.call_eq]
  exact hdoc _ _ _ _ h.reached

/-- What has been taken of the input: all of it, when more is asked for. -/
theorem Fed.next (hdoc : Documented t decode) (h : Fed t whole f s o) (read_buffer_size : ℕ) :
    Fed t whole (f.next t read_buffer_size) (s ++ f.src.take (f.call t).consumed) (o ++ (f.call t).out) where
  reached := by
    show Reached t (f.call t).decomp _ _
    rw [h.call_eq]
    exact Reached.call f.src h.reached
  left := by
    unfold Feed.next
    by_cases hneeds : (f.call t).status = .needsMoreInput
    · simp only [if_pos hneeds]
      rw [((h.kept hdoc).input_used hneeds).1, List.take_length, List.append_assoc, List.take_append_drop, h.left]
    · simp only [if_neg hneeds]
      rw [List.append_assoc s, List.take_append_drop, h.left]
  offset := by
    show (f.dst_buf_offset + (f.call t).out.length) &&& (2 ^ 15 - 1) = _
    rw [Nat.and_two_pow_sub_one_eq_mod, h.offset, List.length_append]
    exact Nat.mod_add_mod _ _ _

theorem TinflStatus.done_of_zero : ∀ {status : TinflStatus}, status.value ≤ 0 → ¬status.value < 0 → status = .done
  | .badParam, _, h => absurd (by decide) h
  | .adler32Mismatch, _, h => absurd (by decide) h
  | .failed, _, h => absurd (by decide) h
  | .done, _, _ => rfl
  | .needsMoreInput, h, _ => absurd h (by decide)
  | .hasMoreOutput, h, _ => absurd h (by decide)

/-- Where the decompressor ends, the stream does not end too soon. -/
theorem Fed.stopped (hdoc : Documented t decode) (h : Fed t whole f s o) (hstop : (f.call t).status.value ≤ 0) :
    (decode whole).1 = o ++ (f.call t).out ∧ (decode whole).2 ≠ .short := by
  rw [← h.left]
  by_cases hfailed : (f.call t).status.value < 0
  · have hbad : Verdict.bad ≠ .short := by decide
    rw [(h.kept hdoc).failed hfailed]
    exact ⟨rfl, hbad⟩
  · have hcomplete : Verdict.complete ≠ .short := by decide
    rw [(h.kept hdoc).done (TinflStatus.done_of_zero hstop hfailed)]
    exact ⟨rfl, hcomplete⟩

/-- Where it asks for more and there is none, the stream does. -/
theorem Fed.dried (hdoc : Documented t decode) (h : Fed t whole f s o)
    (hneeds : (f.call t).status = .needsMoreInput) (hdry : f.input = []) :
    decode whole = (o ++ (f.call t).out, .short) := by
  rw [← h.left, hdry, List.append_nil, ((h.kept hdoc).input_used hneeds).2]

/-- Where there is nothing to read and all has been given, it asks for more, and gives nothing. -/
theorem Fed.starved (hdoc : Documented t decode) (h : Fed t whole f s o) (hdry : f.input = [])
    (hshort : decode whole = (o, .short)) :
    (f.call t).status = .needsMoreInput ∧ (f.call t).out = [] := by
  have hkept := h.kept hdoc
  have hwhole : s ++ f.src ++ [] = whole := by rw [← hdry, h.left]
  have hout : (f.call t).out = [] := by
    have hprefix := (hkept.out_begins []).length_le
    rw [hwhole, hshort, List.length_append] at hprefix
    simp only at hprefix
    exact List.eq_nil_of_length_eq_zero (by omega)
  refine ⟨?_, hout⟩
  cases hstatus : (f.call t).status with
  | needsMoreInput => rfl
  | hasMoreOutput =>
    have hfull := hkept.output_full hstatus
    rw [hout] at hfull
    exact absurd hfull (Nat.ne_of_lt (space_pos o))
  | done => exact absurd ((h.stopped hdoc (by rw [hstatus]; decide)).2) (by rw [hshort]; exact not_not.mpr rfl)
  | failed => exact absurd ((h.stopped hdoc (by rw [hstatus]; decide)).2) (by rw [hshort]; exact not_not.mpr rfl)
  | adler32Mismatch =>
    exact absurd ((h.stopped hdoc (by rw [hstatus]; decide)).2) (by rw [hshort]; exact not_not.mpr rfl)
  | badParam => exact absurd ((h.stopped hdoc (by rw [hstatus]; decide)).2) (by rw [hshort]; exact not_not.mpr rfl)

/-- The calls come to an end, or to where the source has run dry: every one of them ends it, takes input or
    gives output. -/
theorem gives_total (hdoc : Documented t decode) (hsize : 0 < read_buffer_size) :
    ∀ (m : ℕ) {f : Feed δ} {s o : List UInt8}, Fed t whole f s o →
      f.input.length + (decode whole).1.length < m + o.length → ∃ outs, Gives t read_buffer_size f outs
  | 0, f, s, o, h, hm => by
    have hprefix := ((h.kept hdoc).out_begins f.input).length_le
    rw [h.left, List.length_append] at hprefix
    omega
  | m + 1, f, s, o, h, hm => by
    by_cases hstop : (f.call t).status.value ≤ 0
    · exact ⟨_, .stop hstop⟩
    by_cases hdry : (f.call t).status = .needsMoreInput ∧ f.input = []
    · exact ⟨_, .dry hdry.1 hdry.2⟩
    have hnext := h.next hdoc read_buffer_size
    obtain ⟨outs, hgives⟩ := gives_total hdoc hsize m hnext (by
      rw [List.length_append]
      show (if (f.call t).status = .needsMoreInput then f.input.drop read_buffer_size else f.input).length + _ < _
      by_cases hneeds : (f.call t).status = .needsMoreInput
      · -- something is read
        have hpos := List.length_pos_iff.mpr fun hnil => hdry ⟨hneeds, hnil⟩
        rw [if_pos hneeds, List.length_drop]
        omega
      · -- the output is full
        have hfull : (f.call t).out.length = space o := by
          refine (h.kept hdoc).output_full ?_
          cases hstatus : (f.call t).status with
          | hasMoreOutput => rfl
          | needsMoreInput => exact absurd hstatus hneeds
          | done => exact absurd (by rw [hstatus]; decide) hstop
          | failed => exact absurd (by rw [hstatus]; decide) hstop
          | adler32Mismatch => exact absurd (by rw [hstatus]; decide) hstop
          | badParam => exact absurd (by rw [hstatus]; decide) hstop
        have hpos := space_pos o
        rw [if_neg hneeds]
        omega)
    exact ⟨_, .more (Int.lt_of_not_ge hstop) (fun hneeds hnil => hdry ⟨hneeds, hnil⟩) hgives⟩

/-- What is given is what the stream decodes to. -/
theorem gives_flatten (hdoc : Documented t decode) {outs : List (List UInt8)}
    (hgives : Gives t read_buffer_size f outs) : ∀ {s o : List UInt8}, Fed t whole f s o →
      o ++ outs.flatten = (decode whole).1 := by
  induction hgives with
  | stop hstop =>
    intro s o h
    rw [List.flatten_singleton, (h.stopped hdoc hstop).1]
  | dry hneeds hdry =>
    intro s o h
    rw [List.flatten_singleton, h.dried hdoc hneeds hdry]
  | more _ _ _ ih =>
    intro s o h
    rw [List.flatten_cons, ← List.append_assoc, ih (h.next hdoc read_buffer_size)]

/-! ### The loop -/

variable {write_func : σ → List UInt8 → ℕ × σ} {sink : σ} {total : ℕ} {stored : List UInt8} {fuel : ℕ}

theorem loop_refused (hoffer : offer write_func sink (f.call t).out = none) :
    inflateLoop t read_buffer_size write_func (fuel + 1) f total stored sink = some (total, stored) := by
  rw [inflateLoop]
  simp only [hoffer]

theorem loop_stop {a : ℕ × σ} (hoffer : offer write_func sink (f.call t).out = some a)
    (hstop : (f.call t).status.value ≤ 0) :
    inflateLoop t read_buffer_size write_func (fuel + 1) f total stored sink =
      some ((total + (f.call t).out.length) % sizeT, stored ++ (f.call t).out.take a.1) := by
  rw [inflateLoop]
  simp only [hoffer, if_pos hstop]

theorem loop_more {a : ℕ × σ} (hoffer : offer write_func sink (f.call t).out = some a)
    (hmore : 0 < (f.call t).status.value) :
    inflateLoop t read_buffer_size write_func (fuel + 1) f total stored sink =
      inflateLoop t read_buffer_size write_func fuel (f.next t read_buffer_size)
        ((total + (f.call t).out.length) % sizeT) (stored ++ (f.call t).out.take a.1) a.2 := by
  rw [inflateLoop]
  simp only [hoffer, if_neg (Int.not_le.mpr hmore)]

theorem loop_succ : ∀ {fuel : ℕ} {f : Feed δ} {total : ℕ} {stored : List UInt8} {sink : σ} {r : ℕ × List UInt8},
    inflateLoop t read_buffer_size write_func fuel f total stored sink = some r →
      inflateLoop t read_buffer_size write_func (fuel + 1) f total stored sink = some r
  | 0, _, _, _, _, _, h => nomatch h
  | fuel + 1, f, total, stored, sink, r, h => by
    cases hoffer : offer write_func sink (f.call t).out with
    | none =>
      rw [loop_refused hoffer] at h ⊢
      exact h
    | some a =>
      by_cases hstop : (f.call t).status.value ≤ 0
      · rw [loop_stop hoffer hstop] at h ⊢
        exact h
      · rw [loop_more hoffer (Int.lt_of_not_ge hstop)] at h ⊢
        exact loop_succ h

/-- However far the loop is followed, it returns the same. -/
theorem loop_unique {fuel fuel' : ℕ} {r r' : ℕ × List UInt8}
    (h : inflateLoop t read_buffer_size write_func fuel f total stored sink = some r)
    (h' : inflateLoop t read_buffer_size write_func fuel' f total stored sink = some r') : r = r' := by
  have hmore : ∀ {k : ℕ} {q : ℕ × List UInt8} (j : ℕ),
      inflateLoop t read_buffer_size write_func k f total stored sink = some q →
        inflateLoop t read_buffer_size write_func (k + j) f total stored sink = some q := by
    intro k q j hk
    induction j with
    | zero => exact hk
    | succ j ih => exact loop_succ ih
  have h₁ := hmore fuel' h
  rw [Nat.add_comm] at h₁
  exact Option.some.inj (h₁.symm.trans (hmore fuel h'))

/-- The loop then goes around for ever. -/
theorem loop_starved (hdoc : Documented t decode) : ∀ {fuel : ℕ} {f : Feed δ} {s o : List UInt8} {total : ℕ}
    {stored : List UInt8} {sink : σ}, Fed t whole f s o → f.input = [] → decode whole = (o, .short) →
      inflateLoop t read_buffer_size write_func fuel f total stored sink = none
  | 0, _, _, _, _, _, _, _, _, _ => rfl
  | fuel + 1, f, s, o, total, stored, sink, h, hdry, hshort => by
    obtain ⟨hneeds, hout⟩ := h.starved hdoc hdry hshort
    have hoffer : offer write_func sink (f.call t).out = some (0, sink) := if_pos hout
    have hnext := h.next hdoc read_buffer_size
    rw [hout, List.append_nil] at hnext
    rw [loop_more hoffer (by rw [hneeds]; decide)]
    refine loop_starved hdoc hnext ?_ hshort
    show (if _ then f.input.drop read_buffer_size else _) = []
    rw [if_pos hneeds, hdry, List.drop_nil]

theorem offer_none {out : List UInt8} (h : offer write_func sink out = none) : 0 < out.length := by
  rw [offer] at h
  split at h
  · cases h
  · next hout => exact List.length_pos_iff.mpr hout

theorem refused_none {out : List UInt8} {outs : List (List UInt8)} (h : offer write_func sink out = none) :
    refused write_func sink (out :: outs) = some 0 := by
  rw [refused]
  simp only [h]

theorem refused_some {out : List UInt8} {outs : List (List UInt8)} {a : ℕ × σ}
    (h : offer write_func sink out = some a) :
    refused write_func sink (out :: outs) = (refused write_func a.2 outs).map (out.length + ·) := by
  rw [refused]
  simp only [h]

theorem storedOf_some {out : List UInt8} {outs : List (List UInt8)} {a : ℕ × σ}
    (h : offer write_func sink out = some a) :
    storedOf write_func sink (out :: outs) = out.take a.1 ++ storedOf write_func a.2 outs := by
  rw [storedOf]
  simp only [h]

/-- A last piece that is refused, whatever the status. -/
theorem loop_last (htotal : total < sizeT) {given : ℕ}
    (hrefused : refused write_func sink [(f.call t).out] = some given) :
    ∃ fuel r, inflateLoop t read_buffer_size write_func fuel f total stored sink = some r ∧
      r.1 = (total + given) % sizeT ∧ r.2.length ≤ stored.length + given ∧
      given < [(f.call t).out].flatten.length := by
  cases hoffer : offer write_func sink (f.call t).out with
  | none =>
    rw [refused_none hoffer] at hrefused
    obtain rfl := Option.some.inj hrefused
    refine ⟨1, _, loop_refused hoffer, (Nat.mod_eq_of_lt htotal).symm, le_refl _, ?_⟩
    rw [List.flatten_singleton]
    exact offer_none hoffer
  | some a =>
    rw [refused_some hoffer] at hrefused
    cases hrefused

/-- Where the sink refuses, the loop ends with what has been given before. -/
theorem loop_refuses {outs : List (List UInt8)} (hgives : Gives t read_buffer_size f outs) :
    ∀ {total given : ℕ} {stored : List UInt8} {sink : σ}, total < sizeT →
      refused write_func sink outs = some given →
      ∃ fuel r, inflateLoop t read_buffer_size write_func fuel f total stored sink = some r ∧
        r.1 = (total + given) % sizeT ∧ r.2.length ≤ stored.length + given ∧ given < outs.flatten.length := by
  induction hgives with
  | stop _ =>
    intro total given stored sink htotal hrefused
    exact loop_last htotal hrefused
  | dry _ _ =>
    intro total given stored sink htotal hrefused
    exact loop_last htotal hrefused
  | @more f outs hmore _ _ ih =>
    intro total given stored sink htotal hrefused
    cases hoffer : offer write_func sink (f.call t).out with
    | none =>
      rw [refused_none hoffer] at hrefused
      obtain rfl := Option.some.inj hrefused
      refine ⟨1, _, loop_refused hoffer, (Nat.mod_eq_of_lt htotal).symm, le_refl _, ?_⟩
      have hpos := offer_none hoffer
      rw [List.flatten_cons, List.length_append]
      omega
    | some a =>
      rw [refused_some hoffer, Option.map_eq_some_iff] at hrefused
      obtain ⟨later, hlater, rfl⟩ := hrefused
      obtain ⟨fuel, r, hrun, hsize, hstored, hlt⟩ :=
        @ih ((total + (f.call t).out.length) % sizeT) later (stored ++ (f.call t).out.take a.1) a.2
          (Nat.mod_lt _ (by decide)) hlater
      refine ⟨fuel + 1, r, (loop_more hoffer hmore).trans hrun, ?_, ?_, ?_⟩
      · rw [hsize, Nat.mod_add_mod, Nat.add_assoc]
      · rw [List.length_append, List.length_take] at hstored
        omega
      · rw [List.flatten_cons, List.length_append]
        omega

/-- Where it refuses nothing, the loop returns the size of the output if the stream does not end too
    soon. -/
theorem loop_returns (hdoc : Documented t decode) {outs : List (List UInt8)}
    (hgives : Gives t read_buffer_size f outs) : ∀ {s o : List UInt8} {total : ℕ} {stored : List UInt8} {sink : σ},
      Fed t whole f s o → refused write_func sink outs = none → (decode whole).2 ≠ .short →
      ∃ fuel, inflateLoop t read_buffer_size write_func fuel f total stored sink =
        some ((total + outs.flatten.length) % sizeT, stored ++ storedOf write_func sink outs) := by
  induction hgives with
  | @stop f hstop =>
    intro s o total stored sink h hrefused _
    cases hoffer : offer write_func sink (f.call t).out with
    | none =>
      rw [refused_none hoffer] at hrefused
      cases hrefused
    | some a =>
      refine ⟨1, ?_⟩
      rw [loop_stop hoffer hstop, storedOf_some hoffer, storedOf, List.append_nil, List.flatten_singleton]
  | dry hneeds hdry =>
    intro s o total stored sink h _ hlong
    rw [h.dried hdoc hneeds hdry] at hlong
    exact absurd rfl hlong
  | @more f outs hmore _ _ ih =>
    intro s o total stored sink h hrefused hlong
    cases hoffer : offer write_func sink (f.call t).out with
    | none =>
      rw [refused_none hoffer] at hrefused
      cases hrefused
    | some a =>
      rw [refused_some hoffer, Option.map_eq_none_iff] at hrefused
      obtain ⟨fuel, hrun⟩ := @ih _ _ ((total + (f.call t).out.length) % sizeT)
        (stored ++ (f.call t).out.take a.1) a.2 (h.next hdoc read_buffer_size) hrefused hlong
      refine ⟨fuel + 1, (loop_more hoffer hmore).trans (hrun.trans ?_)⟩
      rw [storedOf_some hoffer, List.flatten_cons, List.length_append, Nat.mod_add_mod, Nat.add_assoc,
        List.append_assoc]

/-- If the stream ends too soon, the loop never returns. -/
theorem loop_never (hdoc : Documented t decode) {outs : List (List UInt8)}
    (hgives : Gives t read_buffer_size f outs) : ∀ {fuel : ℕ} {s o : List UInt8} {total : ℕ}
      {stored : List UInt8} {sink : σ}, Fed t whole f s o → refused write_func sink outs = none →
      (decode whole).2 = .short → inflateLoop t read_buffer_size write_func fuel f total stored sink = none := by
  induction hgives with
  | stop hstop =>
    intro fuel s o total stored sink h _ hshort
    exact absurd hshort (h.stopped hdoc hstop).2
  | @dry f hneeds hdry =>
    intro fuel s o total stored sink h hrefused _
    cases fuel with
    | zero => rfl
    | succ fuel =>
      cases hoffer : offer write_func sink (f.call t).out with
      | none =>
        rw [refused_none hoffer] at hrefused
        cases hrefused
      | some a =>
        rw [loop_more hoffer (by rw [hneeds]; decide)]
        refine loop_starved hdoc (h.next hdoc read_buffer_size) ?_ (h.dried hdoc hneeds hdry)
        show (if _ then f.input.drop read_buffer_size else _) = []
        rw [if_pos hneeds, hdry, List.drop_nil]
  | @more f outs hmore _ _ ih =>
    intro fuel s o total stored sink h hrefused hshort
    cases fuel with
    | zero => rfl
    | succ fuel =>
      cases hoffer : offer write_func sink (f.call t).out with
      | none =>
        rw [refused_none hoffer] at hrefused
        cases hrefused
      | some a =>
        rw [refused_some hoffer, Option.map_eq_none_iff] at hrefused
        rw [loop_more hoffer hmore]
        exact ih (h.next hdoc read_buffer_size) hrefused hshort

/-- `zlib_inflate` does what it should exactly where the caller is told. -/
theorem inflate_iff (hdoc : Documented t decode) (hsize : 0 < read_buffer_size)
    (write_func : σ → List UInt8 → ℕ × σ) (failure : ℕ → Prop) (input : List UInt8) (sink : σ) :
    ∃ outs, Gives t read_buffer_size (Feed.start t input) outs ∧
      (InflateReports t decode read_buffer_size write_func failure input sink ↔
        Told write_func failure sink outs (decode input).2) := by
  have hfed := start_fed t input
  obtain ⟨outs, hgives⟩ := gives_total hdoc hsize (input.length + (decode input).1.length + 1) hfed
    (Nat.lt_succ_self _)
  have hflat := gives_flatten hdoc hgives hfed
  rw [List.nil_append] at hflat
  refine ⟨outs, hgives, ?_⟩
  unfold Told InflateReports zlibInflate
  cases hrefused : refused write_func sink outs with
  | some given =>
    obtain ⟨fuel, r, hrun, hgiven, hstored, hlt⟩ :=
      @loop_refuses _ _ _ _ _ write_func _ hgives 0 given [] sink (by decide) hrefused
    rw [Nat.zero_add] at hgiven
    simp only
    rw [← hgiven]
    constructor
    · rintro ⟨fuel', r', hrun', hr'⟩
      obtain rfl := loop_unique hrun hrun'
      refine hr'.resolve_right fun hall => ?_
      rw [hall.2, ← hflat, List.length_nil, Nat.zero_add] at hstored
      exact absurd hlt (Nat.not_lt.mpr hstored)
    · exact fun hfailure => ⟨fuel, r, hrun, Or.inl hfailure⟩
  | none =>
    simp only
    by_cases hshort : (decode input).2 = .short
    · refine iff_of_false ?_ fun hf => hf.1 hshort
      rintro ⟨fuel, r, hrun, -⟩
      rw [loop_never hdoc hgives hfed hrefused hshort] at hrun
      cases hrun
    · obtain ⟨fuel, hrun⟩ :=
        @loop_returns _ _ _ _ _ _ _ write_func hdoc _ hgives _ _ 0 [] sink hfed hrefused hshort
      rw [Nat.zero_add, List.nil_append] at hrun
      rw [← hflat]
      constructor
      · rintro ⟨fuel', r', hrun', hr'⟩
        obtain rfl := loop_unique hrun hrun'
        exact ⟨hshort, hr'⟩
      · exact fun hf => ⟨fuel, _, hrun, hf.2⟩

/-! ### The file -/

variable {ffWrite : φ → List UInt8 → ℕ × φ} {room : φ → ℕ}

/-- A file that is full takes nothing for ever. -/
theorem writeLoop_full (hroom : Roomy ffWrite room) : ∀ {fuel : ℕ} {file : φ} {buffer : List UInt8} {written : ℕ},
    room file < buffer.length → writeLoop ffWrite fuel file buffer written = none
  | 0, _, _, _, _ => rfl
  | fuel + 1, file, buffer, written, h => by
    obtain ⟨htaken, hleft⟩ := hroom file buffer
    have hne : buffer ≠ [] := List.length_pos_iff.mp (by omega)
    rw [writeLoop, if_neg hne]
    refine writeLoop_full hroom ?_
    rw [hleft, htaken, List.length_drop]
    omega

/-- `write_to_file` does what it should exactly where there is room for everything. -/
theorem write_iff (hroom : Roomy ffWrite room) (buffer : List UInt8) (file : φ) :
    WriteReports ffWrite buffer file ↔ buffer.length ≤ room file := by
  constructor
  · rintro ⟨fuel, r, hrun, -⟩
    by_contra hfull
    rw [writeToFile, writeLoop_full hroom (Nat.lt_of_not_le hfull)] at hrun
    cases hrun
  · intro hfits
    by_cases hnil : buffer = []
    · refine ⟨1, (0, file), ?_, Or.inl rfl⟩
      rw [writeToFile, writeLoop, if_pos hnil]
    · have htaken : (ffWrite file buffer).1 = buffer.length := by
        rw [(hroom file buffer).1, Nat.min_eq_left hfits]
      refine ⟨2, (buffer.length, (ffWrite file buffer).2), ?_, Or.inr rfl⟩
      rw [writeToFile, writeLoop, if_neg hnil]
      simp only
      rw [htaken, List.drop_length, writeLoop, if_pos rfl, Nat.zero_add]

/-! ### A decoder -/

/-- What a stream gives is given in any longer one; and after its end nothing changes. -/
structure Stable (decode : List UInt8 → List UInt8 × Verdict) : Prop where
  grows : ∀ s rest, (decode s).1 <+: (decode (s ++ rest)).1
  settled : ∀ s rest, (decode s).2 ≠ .short → decode (s ++ rest) = decode s

def Verdict.status : Verdict → TinflStatus
  | .complete => .done
  | .bad => .failed
  | .short => .needsMoreInput

/-- A decoder that takes all it gets: what it has taken, and how much it has given. -/
def batch (decode : List UInt8 → List UInt8 × Verdict) : Tinfl (List UInt8 × ℕ) where
  init := ([], 0)
  decompress d src size :=
    let s := d.1 ++ src
    let left := (decode s).1.drop d.2
    { status := if size < left.length then .hasMoreOutput else (decode s).2.status
      consumed := src.length
      out := left.take size
      decomp := (s, d.2 + (left.take size).length) }

theorem batch_out (h : Stable decode) (ho : o <+: (decode s).1) (src : List UInt8) :
    o ++ (decode (s ++ src)).1.drop o.length = (decode (s ++ src)).1 := by
  obtain ⟨u, hu⟩ := ho.trans (h.grows s src)
  rw [← hu, List.drop_left]

theorem batch_begins (h : Stable decode) (ho : o <+: (decode s).1) (src : List UInt8) (size : ℕ) :
    o ++ ((decode (s ++ src)).1.drop o.length).take size <+: (decode (s ++ src)).1 := by
  have htake := (List.prefix_append_right_inj o).mpr
    (List.take_prefix size ((decode (s ++ src)).1.drop o.length))
  rwa [batch_out h ho src] at htake

theorem batch_reached (h : Stable decode) {d : List UInt8 × ℕ} (hd : Reached (batch decode) d s o) :
    d = (s, o.length) ∧ o <+: (decode s).1 := by
  induction hd with
  | init => exact ⟨rfl, List.nil_prefix⟩
  | @call d s o src _ ih =>
    obtain ⟨rfl, ho⟩ := ih
    refine ⟨Prod.ext ?_ ?_, ?_⟩
    · show s ++ src = s ++ src.take src.length
      rw [List.take_length]
    · exact List.length_append.symm
    · show o ++ ((decode (s ++ src)).1.drop o.length).take (space o) <+: (decode (s ++ src.take src.length)).1
      rw [List.take_length]
      exact batch_begins h ho src _

theorem Verdict.status_inj {v w : Verdict} (h : v.status = w.status) : v = w := by
  cases v <;> cases w <;> first | rfl | cases h

theorem Verdict.bad_of_neg {v : Verdict} (h : v.status.value < 0) : v = .bad := by
  cases v with
  | bad => rfl
  | complete => exact absurd h (by decide)
  | short => exact absurd h (by decide)

/-- It decodes any such format. -/
theorem batch_documented (h : Stable decode) : Documented (batch decode) decode := by
  intro d s o src hd
  obtain ⟨rfl, ho⟩ := batch_reached h hd
  have hout : ∀ rest, o ++ ((decode (s ++ src)).1.drop o.length).take (space o) <+:
      (decode (s ++ src ++ rest)).1 := fun rest => (batch_begins h ho src _).trans (h.grows (s ++ src) rest)
  have hstatus : ((batch decode).decompress (s, o.length) src (space o)).status =
      if space o < ((decode (s ++ src)).1.drop o.length).length then .hasMoreOutput
      else (decode (s ++ src)).2.status := rfl
  by_cases hmore : space o < ((decode (s ++ src)).1.drop o.length).length
  · rw [if_pos hmore] at hstatus
    exact
      { consumed_le := le_refl _
        out_begins := hout
        input_used := fun hs => absurd (hstatus.symm.trans hs) (by decide)
        output_full := fun _ => by
          show (((decode (s ++ src)).1.drop o.length).take (space o)).length = _
          rw [List.length_take, Nat.min_eq_left (Nat.le_of_lt hmore)]
        done := fun hs => absurd (hstatus.symm.trans hs) (by decide)
        failed := fun hs => absurd hs (by rw [hstatus]; decide) }
  · rw [if_neg hmore] at hstatus
    have hverdict : ∀ v, (decode (s ++ src)).2 = v →
        decode (s ++ src) = (o ++ ((decode (s ++ src)).1.drop o.length).take (space o), v) := by
      intro v hv
      rw [List.take_of_length_le (Nat.le_of_not_lt hmore), batch_out h ho src]
      exact Prod.ext rfl hv
    have hsettled : ∀ v, v ≠ .short → (decode (s ++ src)).2 = v → ∀ rest, decode (s ++ src ++ rest) =
        (o ++ ((decode (s ++ src)).1.drop o.length).take (space o), v) := by
      intro v hlong hv rest
      rw [h.settled _ rest (by rw [hv]; exact hlong)]
      exact hverdict v hv
    exact
      { consumed_le := le_refl _
        out_begins := hout
        input_used := fun hs => ⟨rfl, hverdict .short (Verdict.status_inj (hstatus.symm.trans hs))⟩
        output_full := fun hs => by
          rw [hstatus] at hs
          cases hv : (decode (s ++ src)).2 <;> rw [hv] at hs <;> cases hs
        done := fun hs => hsettled .complete (by decide) (Verdict.status_inj (hstatus.symm.trans hs))
        failed := fun hs => by
          rw [hstatus] at hs
          exact hsettled .bad (by decide) (Verdict.bad_of_neg hs) }

/-- One stream, and what it decodes to. -/
def oneStream (stream plain s : List UInt8) : List UInt8 × Verdict :=
  if stream <+: s then (plain, .complete) else if s <+: stream then ([], .short) else ([], .bad)

theorem oneStream_stable (stream plain : List UInt8) : Stable (oneStream stream plain) where
  grows s rest := by
    unfold oneStream
    by_cases hs : stream <+: s
    · simp only [if_pos hs, if_pos (hs.trans (List.prefix_append s rest)), List.prefix_refl]
    · rw [if_neg hs]
      split <;> exact List.nil_prefix
  settled s rest := by
    unfold oneStream
    intro hsettled
    by_cases hs : stream <+: s
    · rw [if_pos hs, if_pos (hs.trans (List.prefix_append s rest))]
    · rw [if_neg hs] at hsettled ⊢
      by_cases hs' : s <+: stream
      · rw [if_pos hs'] at hsettled
        exact absurd rfl hsettled
      · have hlong : ¬stream <+: s ++ rest := fun hp =>
          (List.prefix_or_prefix_of_prefix hp (List.prefix_append s rest)).elim hs hs'
        rw [if_neg hlong, if_neg fun hp => hs' ((List.prefix_append s rest).trans hp), if_neg hs']

/-! ### Whether it ends -/

/-- A header is read as it should be where all that it announces is there; a stream is decompressed as it
    should be where the caller is told; and a file is written as it should be where there is room. -/
theorem decompression_iff (hdoc : Documented t decode) (hsize : 0 < read_buffer_size)
    (hroom : Roomy ffWrite room) :
    (∀ l input, HeaderReports l input ↔ (Signed input → Whole (input.getD 3 0) (input.drop 10))) ∧
      (∀ (write_func : σ → List UInt8 → ℕ × σ) failure input sink,
        ∃ outs, Gives t read_buffer_size (Feed.start t input) outs ∧
          (InflateReports t decode read_buffer_size write_func failure input sink ↔
            Told write_func failure sink outs (decode input).2)) ∧
      ∀ buffer file, WriteReports ffWrite buffer file ↔ buffer.length ≤ room file :=
  ⟨header_iff, inflate_iff hdoc hsize, write_iff hroom⟩

/-- A block that is stored, with one byte. -/
def storedA : List UInt8 := [1, 1, 0, 0xFE, 0xFF, 0x41]

/-- A file with room for so many bytes. -/
def intoRoom (file : ℕ) (buffer : List UInt8) : ℕ × ℕ := (min buffer.length file, file - min buffer.length file)

theorem storedA_reports : HeaderReports ⟨0, [0, 0, 0, 0]⟩ [0x1F, 0x8B] ∧
    (∃ outs, Gives (batch (oneStream storedA [0x41])) 1024 (Feed.start (batch (oneStream storedA [0x41])) storedA)
        outs ∧
      (InflateReports (batch (oneStream storedA [0x41])) (oneStream storedA [0x41]) 1024 intoRoom (· = 0) storedA 9 ↔
        Told intoRoom (· = 0) 9 outs (oneStream storedA [0x41] storedA).2)) ∧
    WriteReports intoRoom [1, 2, 3] 3 := by
  obtain ⟨hheader, hinflate, hwrite⟩ := @decompression_iff _ _ _ _ _ 1024 _ id
    (batch_documented (oneStream_stable storedA [0x41])) (by decide) (fun file buffer => ⟨rfl, rfl⟩ : Roomy intoRoom id)
  exact ⟨(hheader _ _).mpr fun hsigned => absurd hsigned.1 (by decide), hinflate intoRoom (· = 0) storedA 9,
    (hwrite [1, 2, 3] 3).mpr (le_refl 3)⟩

/-- The block ends before its byte, the name in a header before its end, and the file is full. -/
theorem truncated_never :
    (∀ fuel, zlibInflate (batch (oneStream storedA [0x41])) 1024 intoRoom fuel (storedA.take 5) 9 = none) ∧
      readGzipHeader ⟨0, [0, 0, 0, 0]⟩ [0x1F, 0x8B, 8, 8, 0, 0, 0, 0, 0, 3, 0x41] = none ∧
      ∀ fuel, writeToFile intoRoom fuel [0x41] 0 = none := by
  refine ⟨fun fuel => ?_, by decide, fun fuel => ?_⟩
  · have hgives : Gives (batch (oneStream storedA [0x41])) 1024
        (Feed.start (batch (oneStream storedA [0x41])) (storedA.take 5)) [[], []] :=
      .more (by decide) (fun _ => by decide) (.dry (by decide) (by decide))
    exact loop_never (batch_documented (oneStream_stable storedA [0x41])) hgives (start_fed _ _) (by decide)
      (by decide)
  · exact @writeLoop_full _ intoRoom id (fun file buffer => ⟨rfl, rfl⟩) fuel 0 [0x41] 0 (by decide)

end Fpga.Inflate
