import ReplayFirmware.FatFs.Wrapper
import ReplayFirmware.Fpga.GzipHeader

/-! The header of a `.bit` file, as `FPGA_Config` walks it.

    A file of just the size of a bitstream is one, and configured from its first byte on. A longer one must
    begin with the preamble; its tagged fields are skipped up to the one that holds the length of the
    bitstream, which follows it. -/

namespace Fpga
open FatFs

/-! ### The code -/

inductive Board where | replay | vidor | hosted
  deriving DecidableEq, Repr

/-- `BITSTREAM_LENGTH` -/
def bitstreamLength : Board → ℕ
  | .replay => 746212
  | .vidor => 510856
  | .hosted => 746212

/-- `FILEBUF_SIZE`, the size of the buffer that a field is read into. -/
def fileBufSize : ℕ := 512 * 4

def bitHeader : List UInt8 := [0x0f, 0xf0, 0x0f, 0xf0, 0x0f, 0xf0, 0x0f, 0xf0, 0x00]

def bitInit : UInt8 := 0x00
def bitNext : UInt8 := 0x01
def bitNcdName : UInt8 := 0x61
def bitPartName : UInt8 := 0x62
def bitCreateDate : UInt8 := 0x63
def bitCreateTime : UInt8 := 0x64
def bitStreamLength : UInt8 := 0x65

/-- The variables of the walk; `fields` are the texts that were terminated, with their tags and lengths,
    and `outside` says that something was written behind the end of a buffer. -/
structure Walk where
  f : FIL
  data : List UInt8
  bitTag : UInt8
  length : ℕ
  bitinfo : List UInt8
  fields : List (UInt8 × ℕ)
  outside : Bool

/-- The two bytes of `length`, as far as they are read, and swapped. -/
def readLength (length : ℕ) (bs : List UInt8) : ℕ :=
  let bytes := overwrite [UInt8.ofNat (length % 256), UInt8.ofNat (length / 256)] bs
  (bytes.getD 0 0).toNat * 256 + (bytes.getD 1 0).toNat

/-- `data[length] = '\0'` -/
def Walk.terminate (w : Walk) : Walk :=
  { w with
    data := w.data.set w.length 0
    fields := w.fields ++ [(w.bitTag, w.length)]
    outside := w.outside || decide (fileBufSize ≤ w.length) }

/-- `strcat(bitinfo, " ")`, unless it is empty, and `strncat(bitinfo, data, n)` -/
def Walk.append (w : Walk) (n : ℕ) : Walk :=
  let bitinfo := if w.bitinfo = [] then [] else w.bitinfo ++ [32]
  let bitinfo := bitinfo ++ (w.data.takeWhile (· ≠ 0)).take n
  { w with bitinfo := bitinfo, outside := w.outside || decide (20 < bitinfo.length + 1) }

/-- What is done with a text. -/
def Walk.named (w : Walk) : Walk :=
  if w.bitTag = bitNcdName then w.terminate
  else if w.bitTag = bitPartName then w.terminate
  else if w.bitTag = bitCreateDate then w.terminate.append 10
  else if w.bitTag = bitCreateTime then w.terminate.append 8
  else w

/-- How a turn ends: in an unknown format, at the bitstream, or with the next field. -/
inductive Turn where
  | unknown
  | found (w : Walk)
  | more (w : Walk)

/-- What follows the read of a field. -/
def Walk.field (w : Walk) (seekLength : ℕ) : Turn :=
  if w.bitTag = bitInit then
    if w.length ≠ bitHeader.length ∨ w.data.take w.length ≠ bitHeader then .unknown
    else .more { w with bitTag := w.bitTag + 1 }
  else if w.bitTag = bitNext then .more { w with bitTag := w.data.getD 0 0 }
  else if w.bitTag = bitStreamLength then .found w
  else
    let w := w.named
    let f := (FF_Seek w.f (w.f.fptr + seekLength)).2
    let r := FF_Read f 1
    .more { w with f := r.2, bitTag := r.1.headD w.bitTag }

/-- The body of the loop. -/
def Walk.turn (w : Walk) : Turn :=
  let r := FF_Read w.f 2
  let length := readLength w.length r.1
  let seekLength := length - fileBufSize
  let length := min length fileBufSize
  let (length, f) :=
    if w.bitTag = bitStreamLength then (4, (FF_Seek r.2 (r.2.fptr - 2)).2) else (length, r.2)
  let r := FF_Read f length
  ({ w with f := r.2, data := overwrite w.data r.1, length := length } : Walk).field seekLength

/-- `while (!FF_isEOF(pFile))`: where it ends, `some none` for an unknown format. -/
def walkLoop : ℕ → Walk → Option (Option Walk)
  | 0, _ => none
  | fuel + 1, w =>
    if FF_isEOF w.f then some (some w)
    else match w.turn with
      | .unknown => some none
      | .found w => some (some w)
      | .more w => walkLoop fuel w

/-- The header of a file; `fBuf1` is what the buffer holds at first. -/
def walkHeader (f : FIL) (fBuf1 : List UInt8) : Option (Option Walk) :=
  walkLoop (f.objsize + 1) ⟨f, fBuf1, bitInit, 0, [], [], false⟩

/-- `FPGA_Config` up to the configuration: the object it begins with, `some none` if it returns before. -/
def config (board : Board) (f : FIL) (fBuf1 : List UInt8) : Option (Option FIL) :=
  let start : Option (Option FIL) :=
    if bitstreamLength board < FF_Size f then (walkHeader f fBuf1).map fun w => w.map Walk.f
    else some (some f)
  start.map fun f => f.bind fun f => if FF_Size f - f.fptr < bitstreamLength board then none else some f

/-! ### The format -/

/-- The big-endian length at a position. -/
def lengthAt (bytes : List UInt8) (pos : ℕ) : ℕ :=
  (bytes.getD pos 0).toNat * 256 + (bytes.getD (pos + 1) 0).toNat

/-- The fields whose text is terminated. -/
def isText (tag : UInt8) : Bool :=
  tag = bitNcdName || tag = bitPartName || tag = bitCreateDate || tag = bitCreateTime

/-- From one field to the next: its tag, what the buffer begins with, and where it stands. The preamble is
    followed by a field whose first byte is a tag; behind all others the tag stands by itself. -/
inductive Field (bytes : List UInt8) : UInt8 → UInt8 → ℕ → UInt8 → UInt8 → ℕ → Prop where
  | preamble {first pos} : lengthAt bytes pos = bitHeader.length →
      (bytes.drop (pos + 2)).take bitHeader.length = bitHeader →
      Field bytes bitInit first pos bitNext 0x0f (pos + 2 + bitHeader.length)
  | next {first pos first'} :
      first' = (if lengthAt bytes pos = 0 then first else bytes.getD (pos + 2) 0) →
      Field bytes bitNext first pos first' first' (pos + 2 + min (lengthAt bytes pos) fileBufSize)
  | other {tag first pos first'} : tag ≠ bitInit → tag ≠ bitNext → tag ≠ bitStreamLength →
      first' = (if lengthAt bytes pos = 0 then (if isText tag = true then 0 else first)
        else bytes.getD (pos + 2) 0) →
      Field bytes tag first pos (bytes.getD (pos + 2 + lengthAt bytes pos) 0) first'
        (pos + 2 + lengthAt bytes pos + 1)

/-- The fields lead to the bitstream at a position. -/
inductive LeadsTo (bytes : List UInt8) (stream : ℕ) : UInt8 → UInt8 → ℕ → Prop where
  | found {first pos} : stream = pos + 4 → LeadsTo bytes stream bitStreamLength first pos
  | more {tag first pos tag' first' pos'} : Field bytes tag first pos tag' first' pos' →
      LeadsTo bytes stream tag' first' pos' → LeadsTo bytes stream tag first pos

/-- The header is recognised, and the bitstream stands at this position. -/
def Recognised (bytes : List UInt8) (stream : ℕ) : Prop :=
  ∃ first, LeadsTo bytes stream bitInit first 0

/-! ### Reading -/

/-- A file that can be read as a whole, at a position. -/
structure ReadsAt (bytes : List UInt8) (f : FIL) (pos : ℕ) : Prop where
  ok : f.Ok
  err : f.err = false
  write : f.write = false
  data : f.data = bytes
  readable : bytes.length ≤ f.readable
  fptr : f.fptr = pos

variable {bytes : List UInt8} {f : FIL} {pos : ℕ} {w w' : Walk}

theorem ReadsAt.size (h : ReadsAt bytes f pos) : f.objsize = bytes.length := congrArg List.length h.data

theorem ReadsAt.le (h : ReadsAt bytes f pos) : pos ≤ bytes.length := by
  rw [← h.fptr, ← h.size]
  exact h.ok.fptr_le

theorem ReadsAt.read (h : ReadsAt bytes f pos) (n : ℕ) : (FF_Read f n).1 = (bytes.drop pos).take n ∧
    ReadsAt bytes (FF_Read f n).2 (min (pos + n) bytes.length) := by
  have hle := h.le
  have hreadable := h.readable
  have havail : f.avail n = min n (bytes.length - pos) := by
    rw [FIL.avail, h.err, h.size, h.fptr]
    simp only [Bool.false_eq_true, if_false]
    omega
  have hfull : decide (min n (bytes.length - pos) < min n (f.objsize - f.fptr)) = false := by
    rw [h.size, h.fptr]
    exact decide_eq_false (lt_irrefl _)
  have hok := FF_Read_ok h.ok n
  rw [FF_Read, f_read_eq h.ok, havail, hfull, h.data, h.fptr] at *
  refine ⟨?_, hok, ?_, h.write, h.data, h.readable, ?_⟩
  · rw [← List.length_drop, ← List.take_eq_take_min]
  · rw [h.err]
    rfl
  · show f.fptr + _ = _
    rw [h.fptr]
    omega

theorem ReadsAt.seek (h : ReadsAt bytes f pos) (ofs : ℕ) :
    ReadsAt bytes (FF_Seek f ofs).2 (min ofs bytes.length) := by
  have hsize := h.size
  have hcap := h.ok.size_le
  have htarget : f.target ofs = min ofs bytes.length := by
    rw [FIL.target, h.write]
    simp only [Bool.not_false, and_true]
    split <;> omega
  have hok := FF_Seek_ok h.ok ofs
  rw [FF_Seek] at hok ⊢
  split at hok
  · next hpos =>
    rw [if_pos hpos]
    refine ⟨h.ok, h.err, h.write, h.data, h.readable, ?_⟩
    have hle := h.le
    rw [h.fptr] at hpos ⊢
    omega
  · next hpos =>
    rw [if_neg hpos]
    rw [f_lseek_eq h.ok, h.err, if_neg (by decide), htarget] at hok ⊢
    refine ⟨hok, h.err, h.write, ?_, h.readable, rfl⟩
    show f.extend _ = bytes
    rw [FIL.extend_of_le (by omega), h.data]

/-- A length that is there. -/
theorem readLength_full (length : ℕ) (h : pos + 2 ≤ bytes.length) :
    readLength length ((bytes.drop pos).take 2) = lengthAt bytes pos := by
  have hlen : ((bytes.drop pos).take 2).length = 2 := by
    rw [List.length_take, List.length_drop]
    omega
  rw [readLength, overwrite, hlen, lengthAt]
  simp [List.getD_eq_getElem?_getD, List.getElem?_drop]

/-! ### One field -/

/-- The first byte of the buffer. -/
def Walk.first (w : Walk) : UInt8 := w.data.getD 0 0

theorem overwrite_first (old new : List UInt8) :
    (overwrite old new).getD 0 0 = if new = [] then old.getD 0 0 else new.getD 0 0 := by
  cases new with
  | nil => rfl
  | cons b bs => rfl

/-- The walk behind the read of a field. -/
def Walk.filled (w : Walk) : Walk :=
  let r := FF_Read w.f 2
  let length := min (readLength w.length r.1) fileBufSize
  { w with
    f := (FF_Read r.2 length).2
    data := overwrite w.data (FF_Read r.2 length).1
    length := length }

theorem turn_filled (h : w.bitTag ≠ bitStreamLength) :
    w.turn = w.filled.field (readLength w.length (FF_Read w.f 2).1 - fileBufSize) := by
  rw [Walk.turn]
  simp only [if_neg h]
  rfl

/-- A field that ends before the file does. -/
theorem filled_spec (h : ReadsAt bytes w.f pos) (hlt : pos < bytes.length) :
    ∃ pos', ReadsAt bytes w.filled.f pos' ∧ pos < pos' ∧ (pos' < bytes.length →
      readLength w.length (FF_Read w.f 2).1 = lengthAt bytes pos ∧
      pos' = pos + 2 + min (lengthAt bytes pos) fileBufSize ∧
      w.filled.length = min (lengthAt bytes pos) fileBufSize ∧
      w.filled.data = overwrite w.data ((bytes.drop (pos + 2)).take w.filled.length) ∧
      w.filled.first = if lengthAt bytes pos = 0 then w.first else bytes.getD (pos + 2) 0) := by
  obtain ⟨hone, hat⟩ := h.read 2
  obtain ⟨htwo, hat'⟩ := hat.read (min (readLength w.length (FF_Read w.f 2).1) fileBufSize)
  refine ⟨_, hat', by omega, fun hin => ?_⟩
  have hfit : pos + 2 ≤ bytes.length := by omega
  have hlength : readLength w.length (FF_Read w.f 2).1 = lengthAt bytes pos := by
    rw [hone, readLength_full w.length hfit]
  rw [Nat.min_eq_left hfit, hlength] at htwo hin
  have hlen : w.filled.length = min (lengthAt bytes pos) fileBufSize := by rw [← hlength]; rfl
  have hdata : w.filled.data = overwrite w.data ((bytes.drop (pos + 2)).take w.filled.length) := by
    rw [hlen, ← htwo, ← hlength]
    rfl
  refine ⟨hlength, by rw [hlength]; omega, hlen, hdata, ?_⟩
  rw [Walk.first, hdata, overwrite_first, hlen]
  have hpos : 0 < fileBufSize := by decide
  by_cases h0 : lengthAt bytes pos = 0
  · rw [h0, Nat.zero_min, List.take_zero, if_pos rfl, if_pos rfl]
    rfl
  · have hne : (bytes.drop (pos + 2)).take (min (lengthAt bytes pos) fileBufSize) ≠ [] := by
      rw [← List.length_pos_iff, List.length_take, List.length_drop]
      omega
    rw [if_neg hne, if_neg h0, List.getD_eq_getElem?_getD, List.getElem?_take_of_lt (by omega),
      List.getElem?_drop, List.getD_eq_getElem?_getD, Nat.add_zero]

theorem terminate_first (w : Walk) : w.terminate.first = if w.length = 0 then 0 else w.first := by
  show (w.data.set w.length 0).getD 0 0 = if w.length = 0 then 0 else w.data.getD 0 0
  cases w.data with
  | nil => split <;> rfl
  | cons b bs =>
    cases w.length with
    | zero => rfl
    | succ n => rfl

theorem field_stream (h : w.bitTag = bitStreamLength) (n : ℕ) : w.field n = .found w := by
  rw [Walk.field, h, if_neg (by decide), if_neg (by decide), if_pos rfl]

/-- The length of the bitstream is read from the two bytes before, too. -/
theorem turn_stream (h : w.bitTag = bitStreamLength) :
    let f := (FF_Seek (FF_Read w.f 2).2 ((FF_Read w.f 2).2.fptr - 2)).2
    w.turn = .found { w with
      f := (FF_Read f 4).2, data := overwrite w.data (FF_Read f 4).1, length := 4 } := by
  rw [Walk.turn]
  simp only [if_pos h]
  rw [field_stream]
  exact h

/-- A text that is terminated stands where it was, and changes an empty buffer only. -/
theorem named_kept (w : Walk) : w.named.f = w.f ∧ w.named.bitTag = w.bitTag ∧
    w.named.first = if w.length = 0 ∧ isText w.bitTag = true then 0 else w.first := by
  have htext : ∀ w : Walk, isText w.bitTag = true → w.terminate.first =
      if w.length = 0 ∧ isText w.bitTag = true then 0 else w.first := fun w h => by
    rw [terminate_first, h]
    simp only [and_true]
  rw [Walk.named]
  by_cases hncd : w.bitTag = bitNcdName
  · rw [if_pos hncd]
    exact ⟨rfl, rfl, htext w (by rw [hncd]; decide)⟩
  by_cases hpart : w.bitTag = bitPartName
  · rw [if_neg hncd, if_pos hpart]
    exact ⟨rfl, rfl, htext w (by rw [hpart]; decide)⟩
  by_cases hdate : w.bitTag = bitCreateDate
  · rw [if_neg hncd, if_neg hpart, if_pos hdate]
    exact ⟨rfl, rfl, htext w (by rw [hdate]; decide)⟩
  by_cases htime : w.bitTag = bitCreateTime
  · rw [if_neg hncd, if_neg hpart, if_neg hdate, if_pos htime]
    exact ⟨rfl, rfl, htext w (by rw [htime]; decide)⟩
  rw [if_neg hncd, if_neg hpart, if_neg hdate, if_neg htime]
  have hnot : isText w.bitTag = false := by
    rw [isText, decide_eq_false hncd, decide_eq_false hpart, decide_eq_false hdate, decide_eq_false htime]
    rfl
  exact ⟨rfl, rfl, by rw [hnot, if_neg fun h => Bool.noConfusion h.2]⟩

/-- A turn that goes on has moved, to the next field unless the file is at its end. -/
theorem turn_more (h : ReadsAt bytes w.f pos) (hlt : pos < bytes.length) (hturn : w.turn = .more w') :
    ∃ pos', ReadsAt bytes w'.f pos' ∧ pos < pos' ∧ (pos' < bytes.length →
      Field bytes w.bitTag w.first pos w'.bitTag w'.first pos') := by
  by_cases hs : w.bitTag = bitStreamLength
  · rw [turn_stream hs] at hturn
    exact Turn.noConfusion hturn
  rw [turn_filled hs, Walk.field] at hturn
  obtain ⟨pos', hat, hmoved, hspec⟩ := filled_spec h hlt
  have htag : w.filled.bitTag = w.bitTag := rfl
  rw [htag] at hturn
  by_cases hinit : w.bitTag = bitInit
  · rw [if_pos hinit] at hturn
    split at hturn
    · exact Turn.noConfusion hturn
    next hknown =>
    obtain rfl := Turn.more.inj hturn
    obtain ⟨hnine, hheader⟩ := not_or.mp hknown
    rw [not_not] at hnine hheader
    refine ⟨pos', hat, hmoved, fun hin => ?_⟩
    obtain ⟨-, hpos, hlen, hdata, -⟩ := hspec hin
    rw [hlen] at hnine
    have hsize : bitHeader.length = 9 := rfl
    have hbuf : fileBufSize = 2048 := rfl
    have hlength : lengthAt bytes pos = bitHeader.length := by omega
    have hmin : min (lengthAt bytes pos) fileBufSize = bitHeader.length := hnine
    rw [hlen, hmin, hdata, hlen, hmin, overwrite] at hheader
    have hfull : ((bytes.drop (pos + 2)).take bitHeader.length).length = bitHeader.length := by
      rw [List.length_take, List.length_drop]
      omega
    rw [List.take_append_of_le_length hfull.ge, List.take_take, Nat.min_self] at hheader
    have hfirst : w.filled.first = 0x0f := by
      rw [Walk.first, hdata, overwrite_first, hlen, hmin, hheader]
      rfl
    show Field bytes w.bitTag w.first pos (w.bitTag + 1) w.filled.first pos'
    rw [hpos, hmin, hinit, hfirst]
    exact Field.preamble hlength hheader
  rw [if_neg hinit] at hturn
  by_cases hnext : w.bitTag = bitNext
  · rw [if_pos hnext] at hturn
    obtain rfl := Turn.more.inj hturn
    refine ⟨pos', hat, hmoved, fun hin => ?_⟩
    obtain ⟨-, hpos, -, -, hfirst⟩ := hspec hin
    show Field bytes w.bitTag w.first pos w.filled.first w.filled.first pos'
    rw [hpos, hnext]
    exact Field.next hfirst
  rw [if_neg hnext, if_neg hs] at hturn
  obtain rfl := Turn.more.inj hturn
  obtain ⟨hf, hnamed, hfirst⟩ := named_kept w.filled
  rw [← hf] at hat
  have hseek := hat.seek (w.filled.named.f.fptr + (readLength w.length (FF_Read w.f 2).1 - fileBufSize))
  obtain ⟨htag', hat'⟩ := hseek.read 1
  have hle := hat.le
  have hfptr := hat.fptr
  dsimp only
  refine ⟨_, hat', by omega, fun hin => ?_⟩
  obtain ⟨hlength, hpos, hlen, -, hstart⟩ := hspec (by omega)
  rw [hlength] at hin htag' ⊢
  have hend : w.filled.named.f.fptr + (lengthAt bytes pos - fileBufSize) = pos + 2 + lengthAt bytes pos := by
    omega
  rw [hend] at hin htag' ⊢
  have hnot : pos + 2 + lengthAt bytes pos < bytes.length := by omega
  rw [Nat.min_eq_left hnot.le, Nat.min_eq_left (Nat.succ_le_of_lt hnot)]
  show Field bytes w.bitTag w.first pos (List.headD _ _) w.filled.named.first _
  rw [htag', Nat.min_eq_left hnot.le, List.drop_eq_getElem_cons hnot, List.take_succ_cons,
    List.headD_cons, hfirst, hlen, hstart, htag]
  have hbuf : 0 < fileBufSize := by decide
  have hzero : min (lengthAt bytes pos) fileBufSize = 0 ↔ lengthAt bytes pos = 0 := by omega
  have hget : bytes[pos + 2 + lengthAt bytes pos] = bytes.getD (pos + 2 + lengthAt bytes pos) 0 := by
    rw [List.getD_eq_getElem?_getD, List.getElem?_eq_getElem hnot, Option.getD_some]
  rw [hget]
  refine Field.other hinit hnext hs ?_
  simp only [hzero]
  by_cases h0 : lengthAt bytes pos = 0
  · simp only [h0, true_and, if_true]
  · simp only [h0, false_and, if_false]

/-- A turn that ends the walk is at the length of the bitstream. -/
theorem turn_found (h : ReadsAt bytes w.f pos) (hlt : pos < bytes.length) (hturn : w.turn = .found w') :
    w.bitTag = bitStreamLength ∧ ∃ pos', ReadsAt bytes w'.f pos' ∧ (pos' < bytes.length → pos' = pos + 4) := by
  by_cases hs : w.bitTag = bitStreamLength
  · refine ⟨hs, ?_⟩
    rw [turn_stream hs] at hturn
    obtain rfl := Turn.found.inj hturn
    have hseek := (h.read 2).2.seek ((FF_Read w.f 2).2.fptr - 2)
    have hread := (hseek.read 4).2
    refine ⟨_, hread, fun hin => ?_⟩
    rw [(h.read 2).2.fptr] at hin ⊢
    omega
  · rw [turn_filled hs, Walk.field] at hturn
    have htag : w.filled.bitTag = w.bitTag := rfl
    rw [htag] at hturn
    split at hturn
    · split at hturn <;> exact Turn.noConfusion hturn
    · split at hturn
      · exact Turn.noConfusion hturn
      · exact Turn.noConfusion hturn

/-! ### The walk -/

theorem isEOF_iff (h : ReadsAt bytes f pos) : FF_isEOF f = true ↔ pos = bytes.length := by
  rw [FF_isEOF, decide_eq_true_eq, h.fptr, h.size]

/-- The walk ends: each turn moves the file. -/
theorem walkLoop_ends : ∀ (fuel : ℕ) {w : Walk} {pos : ℕ}, ReadsAt bytes w.f pos →
    bytes.length - pos < fuel → walkLoop fuel w ≠ none
  | 0, _, _, _, hfuel => absurd hfuel (Nat.not_lt_zero _)
  | fuel + 1, w, pos, h, hfuel => by
    rw [walkLoop]
    by_cases heof : FF_isEOF w.f = true
    · rw [if_pos heof]
      exact Option.some_ne_none _
    rw [if_neg heof]
    have hlt : pos < bytes.length := lt_of_le_of_ne h.le (mt (isEOF_iff h).mpr heof)
    cases hturn : w.turn with
    | unknown => exact Option.some_ne_none _
    | found w' => exact Option.some_ne_none _
    | more w' =>
      obtain ⟨pos', hat, hmoved, -⟩ := turn_more h hlt hturn
      exact walkLoop_ends fuel hat (by omega)

/-- At the end of the file the walk ends. -/
theorem walkLoop_stops (h : ReadsAt bytes w.f bytes.length) : ∀ {fuel : ℕ},
    walkLoop fuel w = some (some w') → w' = w
  | 0, hrun => absurd hrun (by rw [walkLoop]; simp)
  | fuel + 1, hrun => by
    rw [walkLoop, if_pos ((isEOF_iff h).mpr rfl)] at hrun
    exact (Option.some.inj (Option.some.inj hrun)).symm

/-- Where the walk ends inside the file, the fields have led to the bitstream. -/
theorem walkLoop_leads : ∀ (fuel : ℕ) {w : Walk} {pos : ℕ}, ReadsAt bytes w.f pos →
    walkLoop fuel w = some (some w') → ∃ stream, ReadsAt bytes w'.f stream ∧
      (stream < bytes.length → LeadsTo bytes stream w.bitTag w.first pos)
  | 0, _, _, _, hrun => absurd hrun (by rw [walkLoop]; simp)
  | fuel + 1, w, pos, h, hrun => by
    rw [walkLoop] at hrun
    by_cases heof : FF_isEOF w.f = true
    · rw [if_pos heof] at hrun
      obtain rfl := Option.some.inj (Option.some.inj hrun)
      exact ⟨pos, h, fun hin => absurd ((isEOF_iff h).mp heof) hin.ne⟩
    rw [if_neg heof] at hrun
    have hlt : pos < bytes.length := lt_of_le_of_ne h.le (mt (isEOF_iff h).mpr heof)
    cases hturn : w.turn with
    | unknown =>
      rw [hturn] at hrun
      exact absurd (Option.some.inj hrun) (by simp)
    | found w₁ =>
      rw [hturn] at hrun
      obtain rfl := Option.some.inj (Option.some.inj hrun)
      obtain ⟨hs, pos', hat, hfour⟩ := turn_found h hlt hturn
      exact ⟨pos', hat, fun hin => hs ▸ LeadsTo.found (hfour hin)⟩
    | more w₁ =>
      rw [hturn] at hrun
      obtain ⟨pos', hat, hmoved, hfield⟩ := turn_more h hlt hturn
      obtain ⟨stream, hstream, hleads⟩ := walkLoop_leads fuel hat hrun
      refine ⟨stream, hstream, fun hin => ?_⟩
      rcases Nat.lt_or_ge pos' bytes.length with hin' | hend
      · exact LeadsTo.more (hfield hin') (hleads hin)
      · -- behind the last byte the next turn ends the walk
        obtain rfl := Nat.le_antisymm hat.le hend
        obtain rfl := walkLoop_stops hat hrun
        exact absurd hin (by rw [hstream.fptr.symm.trans hat.fptr]; exact lt_irrefl _)

/-! ### Buffers -/

/-- How often a text with this tag was terminated. -/
def Walk.count (w : Walk) (tag : UInt8) : ℕ := (w.fields.map Prod.fst).count tag

/-- The texts fit into the buffer, and there is no more than one date and one time. -/
structure Walk.Plain (w : Walk) : Prop where
  fits : ∀ x ∈ w.fields, x.2 < fileBufSize
  date : w.count bitCreateDate ≤ 1
  time : w.count bitCreateTime ≤ 1

/-- What is written lies in the buffers as long as the texts are plain. -/
structure Walk.Inside (w : Walk) : Prop where
  inside : w.Plain → w.outside = false
  bitinfo : w.bitinfo = [] ∨
    w.bitinfo.length + 1 ≤ 11 * w.count bitCreateDate + 9 * w.count bitCreateTime

theorem Walk.Inside.congr (h : w.Inside) (hfields : w'.fields = w.fields) (hbitinfo : w'.bitinfo = w.bitinfo)
    (houtside : w'.outside = w.outside) : w'.Inside := by
  have hcount : ∀ tag, w'.count tag = w.count tag := fun tag => by rw [Walk.count, Walk.count, hfields]
  refine ⟨fun hplain => ?_, ?_⟩
  · rw [houtside]
    exact h.inside ⟨hfields ▸ hplain.fits, hcount _ ▸ hplain.date, hcount _ ▸ hplain.time⟩
  · rw [hbitinfo, hcount, hcount]
    exact h.bitinfo

theorem Walk.Plain.of_more {w : Walk} {x : UInt8 × ℕ} {u : Walk} (hu : u.fields = w.fields ++ [x])
    (h : u.Plain) : w.Plain := by
  have hcount : ∀ tag, w.count tag ≤ u.count tag := fun tag => by
    rw [Walk.count, Walk.count, hu, List.map_append, List.count_append]
    exact Nat.le_add_right _ _
  exact ⟨fun y hy => h.fits y (hu ▸ List.mem_append_left _ hy), (hcount _).trans h.date,
    (hcount _).trans h.time⟩

theorem count_terminate (w : Walk) (tag : UInt8) :
    w.terminate.count tag = w.count tag + if w.bitTag = tag then 1 else 0 := by
  rw [Walk.count, Walk.terminate, List.map_append, List.count_append, List.map_singleton,
    List.count_singleton]
  simp only [beq_iff_eq]
  rfl

theorem Walk.Inside.terminate (h : w.Inside) : w.terminate.Inside where
  inside hplain := by
    have hfit : w.length < fileBufSize :=
      hplain.fits (w.bitTag, w.length) (List.mem_append_right _ List.mem_cons_self)
    show (w.outside || decide (fileBufSize ≤ w.length)) = false
    rw [h.inside (hplain.of_more rfl), decide_eq_false (Nat.not_le.mpr hfit)]
    rfl
  bitinfo := by
    refine h.bitinfo.imp_right fun hle => ?_
    show w.bitinfo.length + 1 ≤ _
    rw [count_terminate, count_terminate]
    omega

/-- A date or a time: `share` is its part of the bound. -/
theorem append_length (w : Walk) (n : ℕ) {bound : ℕ} (h : w.bitinfo = [] ∨ w.bitinfo.length + 1 ≤ bound) :
    (w.append n).bitinfo = [] ∨ (w.append n).bitinfo.length + 1 ≤ bound + (n + 1) := by
  have htake : ((w.data.takeWhile (· ≠ 0)).take n).length ≤ n := List.length_take_le _ _
  rw [Walk.append]
  simp only [List.length_append]
  by_cases hnil : w.bitinfo = []
  · rw [if_pos hnil, List.length_nil]
    right
    omega
  · have hle := h.resolve_left hnil
    rw [if_neg hnil, List.length_append, List.length_singleton]
    right
    omega

theorem append_inside {n bound : ℕ} (h : w.Plain → w.outside = false)
    (hbitinfo : w.bitinfo = [] ∨ w.bitinfo.length + 1 ≤ bound)
    (hbound : bound + (n + 1) ≤ 11 * w.count bitCreateDate + 9 * w.count bitCreateTime) : (w.append n).Inside where
  inside hplain := by
    have hplain' : w.Plain := ⟨hplain.fits, hplain.date, hplain.time⟩
    have hdate := hplain'.date
    have htime := hplain'.time
    have hshort : ¬20 < (w.append n).bitinfo.length + 1 := by
      rcases append_length w n hbitinfo with hnil | hle
      · rw [hnil, List.length_nil]
        omega
      · omega
    show (w.outside || decide (20 < (w.append n).bitinfo.length + 1)) = false
    rw [h hplain', decide_eq_false hshort]
    rfl
  bitinfo := (append_length w n hbitinfo).imp_right fun hle => hle.trans hbound

theorem Walk.Inside.named (h : w.Inside) : w.named.Inside := by
  have hterminated := h.terminate
  rw [Walk.named]
  split
  · exact hterminated
  split
  · exact hterminated
  split
  · next hdate =>
    refine append_inside hterminated.inside h.bitinfo ?_
    rw [count_terminate, count_terminate, hdate, if_pos rfl, if_neg (by decide)]
    omega
  split
  · next htime =>
    refine append_inside hterminated.inside h.bitinfo ?_
    rw [count_terminate, count_terminate, htime, if_pos rfl, if_neg (by decide)]
    omega
  · exact h

/-- A turn writes inside the buffers. -/
theorem turn_inside (h : w.Inside) (hturn : w.turn = .more w' ∨ w.turn = .found w') : w'.Inside := by
  by_cases hs : w.bitTag = bitStreamLength
  · rw [turn_stream hs] at hturn
    rcases hturn with hturn | hturn
    · exact Turn.noConfusion hturn
    · obtain rfl := Turn.found.inj hturn
      exact h.congr rfl rfl rfl
  rw [turn_filled hs, Walk.field] at hturn
  have htag : w.filled.bitTag = w.bitTag := rfl
  have hfilled : w.filled.Inside := h.congr rfl rfl rfl
  rw [htag] at hturn
  split at hturn
  · split at hturn
    · rcases hturn with hturn | hturn <;> exact Turn.noConfusion hturn
    · rcases hturn with hturn | hturn
      · obtain rfl := Turn.more.inj hturn
        exact hfilled.congr rfl rfl rfl
      · exact Turn.noConfusion hturn
  · split at hturn
    · rcases hturn with hturn | hturn
      · obtain rfl := Turn.more.inj hturn
        exact hfilled.congr rfl rfl rfl
      · exact Turn.noConfusion hturn
    · rcases hturn with hturn | hturn
      · obtain rfl := Turn.more.inj hturn
        exact hfilled.named.congr rfl rfl rfl
      · exact Turn.noConfusion hturn

theorem walkLoop_inside : ∀ (fuel : ℕ) {w : Walk}, w.Inside → walkLoop fuel w = some (some w') → w'.Inside
  | 0, _, _, hrun => absurd hrun (by rw [walkLoop]; simp)
  | fuel + 1, w, h, hrun => by
    rw [walkLoop] at hrun
    split at hrun
    · exact Option.some.inj (Option.some.inj hrun) ▸ h
    · cases hturn : w.turn with
      | unknown =>
        rw [hturn] at hrun
        exact absurd (Option.some.inj hrun) (by simp)
      | found w₁ =>
        rw [hturn] at hrun
        exact Option.some.inj (Option.some.inj hrun) ▸ turn_inside h (Or.inr hturn)
      | more w₁ =>
        rw [hturn] at hrun
        exact walkLoop_inside fuel (turn_inside h (Or.inl hturn)) hrun

/-! ### `FPGA_Config` -/

theorem config_exact (board : Board) (fBuf1 : List UInt8) (hsize : FF_Size f = bitstreamLength board)
    (hfptr : f.fptr = 0) : config board f fBuf1 = some (some f) := by
  have hroom : ¬FF_Size f - f.fptr < bitstreamLength board := by
    rw [hsize, hfptr]
    exact lt_irrefl _
  rw [config, if_neg (by rw [hsize]; exact lt_irrefl _)]
  simp only [Option.map_some, Option.bind_some, if_neg hroom]

/-- A file of just the size of a bitstream. -/
def rawFile : FIL :=
  { data := List.replicate 510856 0, slack := fun _ => 0, cap := 510856, csize := 512, write := false
    readable := 510856, err := false, fptr := 0, clust := 0 }

theorem rawFile_readsAt : ReadsAt rawFile.data rawFile 0 where
  ok := ⟨Nat.zero_le _, (List.length_replicate).le, by decide, fun h => absurd h (lt_irrefl 0)⟩
  err := rfl
  write := rfl
  data := rfl
  readable := (List.length_replicate).le
  fptr := rfl

theorem Field.lt {tag first tag' first' : UInt8} {pos pos' : ℕ} (h : Field bytes tag first pos tag' first' pos') :
    pos < pos' := by
  cases h with
  | preamble _ _ => exact Nat.lt_add_right _ (Nat.lt_add_of_pos_right (by decide))
  | next _ => exact Nat.lt_add_right _ (Nat.lt_add_of_pos_right (by decide))
  | other _ _ _ _ => omega

theorem LeadsTo.lt {stream : ℕ} {tag first : UInt8} {pos : ℕ} (h : LeadsTo bytes stream tag first pos) :
    pos < stream := by
  induction h with
  | found h => omega
  | more hfield _ ih => exact hfield.lt.trans ih

end Fpga
