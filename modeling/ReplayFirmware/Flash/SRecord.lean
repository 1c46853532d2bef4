import ReplayFirmware.FatFs.Wrapper
import ReplayFirmware.Libc.Ctype

/-! `ParseSRecords`: an SREC file is read line by line, and the data of each record is offered to a
    handler byte by byte.

    `parseSRecords` is the function as the firmware runs it, over the file object and its line
    buffer. Below it a line is decoded once (`decode`), a file is the list of the lines its reader
    sees (`linesOf`), and the run over the file is a run over that list (`parseSRecords_eq`).

    The verdict is the number of the line the run stopped at, an `int`, returned as a `uint8_t`. A
    run that stops at line 256, 512, .. is therefore reported like a run that ended in a termination
    record. -/

namespace Flash
open FatFs Libc

/-! ### Hexadecimal text -/

/-- `HexVal`: anything but a digit gives all ones. -/
def hexVal (c : UInt8) : UInt32 :=
  let c := tolower c
  if 0x30 ≤ c ∧ c ≤ 0x39 then (c - 0x30).toUInt32
  else if 0x61 ≤ c ∧ c ≤ 0x66 then (c - 0x61).toUInt32 + 10
  else 0xFFFFFFFF

/-- `HexByte` at position `s` of the line. -/
def hexByte (line : Line) (s : ℕ) : UInt8 :=
  (hexVal (line s) <<< 4 ||| hexVal (line (s + 1))).toUInt8

/-- The digit loop of `AsciiToHex`: the value so far and the position after the last character
    looked at, the one that ended the number included. -/
def asciiToHexLoop (line : Line) : ℕ → ℕ → UInt32 → UInt32 × ℕ
  | 0, s, value => (value, s)
  | n + 1, s, value =>
    let c := toupper (line s)
    if c = 0 then (value, s + 1)
    else if !isdigit c && !isxdigit c then (value, s + 1)
    else
      let d := if isdigit c then c - 0x30 else c - 0x41 + 10
      asciiToHexLoop line n (s + 1) (value <<< 4 ||| d.toUInt32)

/-- `AsciiToHex`, at most `maxsize` bytes of digits. -/
def asciiToHex (line : Line) (s maxsize : ℕ) : UInt32 × ℕ := asciiToHexLoop line (maxsize * 2) s 0

/-! ### One record -/

/-- `SRECHandler`: type, address, offset, length and value of one data byte; a handler that never
    returns gives `none`. -/
abbrev SRECHandler (σ : Type) := UInt8 → UInt32 → UInt32 → UInt8 → UInt8 → σ → Option (UInt8 × σ)

variable {σ : Type}

/-- What the record's type decides: its address, the checksum up to the data, how many data bytes
    follow (negative when the byte count is too small), and whether the record is refused. -/
structure Head where
  addr : UInt32
  checksum : UInt8
  len : ℤ
  retval : UInt8
  pos : ℕ

/-- Bits `k` to `k + 7` of an address. -/
def byteAt (addr k : UInt32) : UInt32 := (addr >>> k) &&& 0xFF

/-- The `switch` on the record type, with `s` after the byte count. -/
def head (line : Line) (type count : UInt8) (s : ℕ) : Head :=
  if type = 0 then
    -- header, with a 16 bit address of zero
    let (addr, s) := asciiToHex line s 2
    let checksum := count + (byteAt addr 0 + addr >>> 8).toUInt8
    if addr ≠ 0 then ⟨addr, checksum, 0, 0xFF, s⟩ else ⟨addr, checksum, count.toNat - 3, 0, s⟩
  else if type = 3 ∨ type = 7 then
    let (addr, s) := asciiToHex line s 4
    let sum := byteAt addr 0 + byteAt addr 8 + byteAt addr 16 + byteAt addr 24
    let checksum := count + sum.toUInt8
    let len : ℤ := count.toNat - 5
    if type = 7 ∧ len ≠ 0 then ⟨addr, checksum, 0, 0xFF, s⟩ else ⟨addr, checksum, len, 0, s⟩
  else ⟨0, 0, count.toNat, 0, s⟩

/-- The data loop, with `n` bytes to go from index `i` on: the last `retval`, the checksum, and the
    position after the last byte read. -/
def dataLoop (handler : SRECHandler σ) (line : Line) (type : UInt8) (addr : UInt32) (len : UInt8) :
    ℕ → UInt32 → ℕ → UInt8 → UInt8 → σ → Option (UInt8 × UInt8 × ℕ × σ)
  | 0, _, s, retval, checksum, st => some (retval, checksum, s, st)
  | n + 1, i, s, _, checksum, st =>
    let b := hexByte line s
    match handler type addr i len b st with
    | none => none
    | some (retval, st) =>
      if retval ≠ 0 then some (retval, checksum, s + 2, st)
      else dataLoop handler line type addr len n (i + 1) (s + 2) retval (checksum + b) st

/-- How the loop body of `ParseSRecords` ends: with the next line, by leaving the loop, or by leaving
    it with `linenum` cleared. -/
inductive Outcome where | next | stop | done
  deriving DecidableEq, Repr

/-- The loop body of `ParseSRecords` for the line in the buffer. -/
def record (handler : SRECHandler σ) (line : Line) (st : σ) : Option (Outcome × σ) :=
  let S := line 0
  let type := line 1 - 0x30
  let count := hexByte line 2
  -- is this really an S-record?
  if S ≠ 0x53 ∧ 3 ≤ count then some (.next, st)
  else
    let h := head line type count 4
    let len := h.len.toNat.toUInt8
    match dataLoop handler line type h.addr len h.len.toNat 0 h.pos h.retval h.checksum st with
    | none => none
    | some (retval, checksum, s, st) =>
      let c := hexByte line s
      if retval ≠ 0 ∨ ~~~checksum ≠ c then some (.stop, st)
      else if type = 7 then
        match handler type h.addr 0 len 0 st with
        | none => none
        | some (retval, st) => if retval = 0 then some (.done, st) else some (.stop, st)
      else some (.next, st)

/-! ### The file -/

/-- `sizeof(line)`. -/
def lineSize : ℕ := 2 + 2 + 0xFF * 2 + 1

/-- The loop of `ParseSRecords`: `linenum` and the handler's state where it ends. -/
def parseLoop (handler : SRECHandler σ) : ℕ → FIL → Line → ℕ → σ → Option (ℕ × σ)
  | 0, _, _, _, _ => none
  | fuel + 1, f, line, linenum, st =>
    if FF_isEOF f then some (linenum, st)
    else
      let (len, line, f) := FF_GetLine f line lineSize
      if len = 0 then some (linenum, st)
      else
        match record handler line st with
        | none => none
        | some (.next, st) => parseLoop handler fuel f line (linenum + 1) st
        | some (.stop, st) => some (linenum + 1, st)
        | some (.done, st) => some (0, st)

/-- `ParseSRecords`: `file` is what the name stands for on the volume, `line` what the buffer holds
    at entry. -/
def parseSRecords (file : Option File) (handler : Option (SRECHandler σ)) (line : Line) (st : σ) :
    Option (UInt8 × σ) :=
  match handler, file with
  | none, _ => some (0xFF, st)
  | some _, none => some (0xFF, st)
  | some handler, some file =>
    let f := f_open file false
    match parseLoop handler (f.objsize + 1) f line 0 st with
    | none => none
    | some (linenum, st) => some (linenum.toUInt8, st)

/-! ### The lines of a file -/

/-- What the buffer holds for each line the reader sees, up to the end of the file or a line that
    starts with a NUL. -/
def linesOf : ℕ → List UInt8 → Line → List Line
  | 0, _, _ => []
  | fuel + 1, bs, line =>
    let l := firstLine (lineSize - 1) bs
    if (l.takeWhile (· ≠ 0)).length = 0 then []
    else line.put l :: linesOf fuel (bs.drop l.length) (line.put l)

/-- The lines of a file, up to its first unreadable byte. -/
def fileLines (file : File) (line : Line) : List Line :=
  let bs := file.data.take file.readable
  linesOf bs.length bs line

/-- The run over a list of lines. -/
def runLines (handler : SRECHandler σ) : List Line → ℕ → σ → Option (ℕ × σ)
  | [], linenum, st => some (linenum, st)
  | l :: ls, linenum, st =>
    match record handler l st with
    | none => none
    | some (.next, st) => runLines handler ls (linenum + 1) st
    | some (.stop, st) => some (linenum + 1, st)
    | some (.done, st) => some (0, st)

theorem linesOf_nil : ∀ (fuel : ℕ) (line : Line), linesOf fuel [] line = []
  | 0, _ => rfl
  | _ + 1, _ => rfl

theorem parseLoop_eq (handler : SRECHandler σ) : ∀ (fuel n : ℕ) (f : FIL) (line : Line)
    (linenum : ℕ) (st : σ), f.Ok → f.rest.length < fuel → f.rest.length ≤ n →
    parseLoop handler fuel f line linenum st = runLines handler (linesOf n f.rest line) linenum st
  | 0, _, _, _, _, _, _, hf, _ => absurd hf (Nat.not_lt_zero _)
  | fuel + 1, n, f, line, linenum, st, h, hf, hn => by
    rw [parseLoop]
    cases he : FF_isEOF f with
    | true => rw [if_pos rfl, FIL.rest_of_isEOF he, linesOf_nil]; rfl
    | false =>
      obtain ⟨hbytes, hrest, hok⟩ := getsLoop_eq (lineSize - 1) f h
      simp only [Bool.false_eq_true, if_false, FF_GetLine, hbytes]
      set l := firstLine (lineSize - 1) f.rest with hl
      cases n with
      | zero =>
        -- nothing is left, so no line is read
        have hnil : f.rest = [] := List.eq_nil_of_length_eq_zero (by omega)
        rw [hnil] at hl
        rw [show l = [] from hl]
        rfl
      | succ n =>
        rw [linesOf, ← hl]
        by_cases h0 : (l.takeWhile (· ≠ 0)).length = 0
        · rw [if_pos h0, if_pos h0]; rfl
        · have hpos : 0 < l.length := by
            have := (List.takeWhile_prefix (· ≠ 0) (l := l)).length_le
            omega
          have hlen : (getsLoop (lineSize - 1) f).2.rest.length = f.rest.length - l.length := by
            rw [hrest, List.length_drop]
          have hle : l.length ≤ f.rest.length := length_firstLine_le (lineSize - 1) f.rest
          rw [if_neg h0, if_neg h0, runLines]
          cases record handler (line.put l) st with
          | none => rfl
          | some r =>
            obtain ⟨o, st'⟩ := r
            cases o with
            | stop => rfl
            | done => rfl
            | next =>
              show parseLoop handler fuel _ _ _ _ = runLines handler _ _ _
              rw [parseLoop_eq handler fuel n _ _ _ _ hok (by omega) (by omega), hrest]

/-- The parser's run is the run over the file's lines. -/
theorem parseSRecords_eq (file : File) (handler : SRECHandler σ) (line : Line) (st : σ) :
    parseSRecords (some file) (some handler) line st
      = (runLines handler (fileLines file line) 0 st).map (fun r => (r.1.toUInt8, r.2)) := by
  have hlen : (f_open file false).rest.length ≤ (f_open file false).objsize := by
    rw [f_open_rest]
    exact List.length_take_le' _ _
  simp only [parseSRecords]
  rw [parseLoop_eq handler _ _ _ line 0 st (f_open_ok file false) (Nat.lt_succ_of_le hlen)
    (le_refl _), f_open_rest]
  show _ = (runLines handler (linesOf _ _ line) 0 st).map _
  cases runLines handler (linesOf (file.data.take file.readable).length
    (file.data.take file.readable) line) 0 st <;> rfl

end Flash
