import ReplayFirmware.Config.PlainRom
import ReplayFirmware.Config.Records

/-! CRT cartridges.

    A cartridge is a header and packets with the images of chips. The header is checked field by field, and
    packet for packet an image is sent to where it says; but the return code is never cleared, so a whole
    cartridge is answered with the code of a broken one. -/

namespace Config.UploadRom
open FatFs FileIO.MCh

/-! ### The upload -/

/-- A word as it stands in the memory. -/
def le16 (bs : List UInt8) : UInt16 := UInt16.ofNat ((bs.getD 0 0).toNat + 256 * (bs.getD 1 0).toNat)

def le32 (bs : List UInt8) : UInt32 :=
  UInt32.ofNat ((bs.getD 0 0).toNat + 256 * ((bs.getD 1 0).toNat + 256 * ((bs.getD 2 0).toNat +
    256 * (bs.getD 3 0).toNat)))

/-- `((var16 >> 8) & 0xff) + ((var16 & 0xff) << 8)` -/
def endianCorrect (var16 : UInt16) : UInt16 :=
  ((var16 >>> 8) &&& (0xff : UInt16)) + ((var16 &&& (0xff : UInt16)) <<< 8)

/-- `FF_Read` of a field, which must be there and pass its check. -/
def field (n : ℕ) (check : List UInt8 → Bool) (fSource : FIL) : Option (List UInt8 × FIL) :=
  let (bs, f) := FF_Read fSource n
  if bs.length ≠ n ∨ check bs = false then none else some (bs, f)

def anything (_ : List UInt8) : Bool := true

/-- The bit of a line of the cartridge port. -/
def lineBit (sconf mask bit : UInt32) (var8 : List UInt8) : UInt32 :=
  if var8.getD 0 0 ≠ 0 then sconf &&& mask ||| bit else sconf &&& mask

/-- The header of a cartridge, with the states of EXROM and GAME. -/
def crtHeader (sconf : UInt32) (fSource : FIL) : UInt32 × Option FIL :=
  let start := do
    let (_, f) ← field 16 (· = chars "C64 CARTRIDGE   ") fSource
    -- we allow a "bad" header size
    let (_, f) ← field 4 (fun bs => le32 bs = 0x40000000 ∨ le32 bs = 0x20000000) f
    let (_, f) ← field 2 (fun bs => le16 bs = 0x0001) f
    let (_, f) ← field 2 (fun bs => le16 bs = 0x0) f
    field 1 anything f
  match start with
  | none => (sconf, none)
  | some (exrom, f) =>
    let sconf := lineBit sconf 0xFFFFFFFE 1 exrom
    match field 1 anything f with
    | none => (sconf, none)
    | some (game, f) =>
      (lineBit sconf 0xFFFFFFFD 2 game, do
        let (_, f) ← field 6 anything f
        let (_, f) ← field 32 anything f
        some f)

/-- The head of a packet: its length as it is read, the load address and the size of the image. -/
def chipHeader (fSource : FIL) : Option (UInt32 × UInt16 × UInt16 × FIL) := do
  let (_, f) ← field 4 (· = chars "CHIP") fSource
  let (var32, f) ← field 4 (fun bs => le32 bs = 0x10400000 ∨ le32 bs = 0x10200000) f
  let (_, f) ← field 2 (fun bs => le16 bs = 0x0) f
  let (_, f) ← field 2 anything f
  let (filebase, f) ← field 2 anything f
  let (size, f) ← field 2 anything f
  return (le32 var32, endianCorrect (le16 filebase), endianCorrect (le16 size), f)

/-- The packets; `none` when the loop has not ended. -/
def crtLoop (fpgas : ℕ → Fpga) (base : UInt32) (rc : UInt8) :
    ℕ → ℕ → UInt32 → FIL → Option (UInt8 × List Transfer)
  | 0, _, _, _ => none
  | fuel + 1, i, offset, fSource =>
    -- just in case, do a re-positioning
    let (_, f) := FF_Seek fSource offset.toNat
    if FF_BytesLeft f < 0x10 then some (rc, [])
    else
      match chipHeader f with
      | none => some (1, [])
      | some (var32, filebase, size, f) =>
        let offset := offset + 0x10
        let (_, p, f) := fileToMem (fpgas i) f (base + filebase.toUInt32) size.toUInt32 offset
        let t : Transfer := ⟨base + filebase.toUInt32, size.toUInt32, p.bytes⟩
        (crtLoop fpgas base rc fuel (i + 1) (offset + ((var32 >>> 8) &&& 0xFF00)) f).map
          fun r => (r.1, t :: r.2)

/-- The CRT path of `CFG_upload_rom`: the return code, the configuration and the transfers. -/
def uploadCrt (fpgas : ℕ → Fpga) (fuel : ℕ) (file : File) (base sconf : UInt32) :
    Option (UInt8 × UInt32 × List Transfer) :=
  let (_, fSource) := FF_Seek (f_open file false) 0
  match crtHeader sconf fSource with
  | (sconf, none) => some (1, sconf, [])
  | (sconf, some f) =>
    (crtLoop fpgas base 1 fuel 0 0x40 f).map fun r => (r.1, sconf, r.2)

/-! ### Cartridges -/

def be16 (n : UInt16) : List UInt8 := [(n >>> 8).toUInt8, n.toUInt8]

/-- A packet with the image of a chip, of 8 or 16 kB. -/
structure Chip where
  bank : UInt16
  load : UInt16
  large : Bool
  image : List UInt8
  length_eq : image.length = if large then 0x4000 else 0x2000

/-- The size of the image. -/
def Chip.size (c : Chip) : UInt16 := if c.large then 0x4000 else 0x2000

/-- `CHIP`, the length of the packet, the type of a ROM, bank, load address, size and image. -/
def Chip.bytes (c : Chip) : List UInt8 :=
  chars "CHIP" ++ [0, 0, if c.large then 0x40 else 0x20, 0x10] ++ [0, 0] ++ be16 c.bank ++ be16 c.load ++
    be16 c.size ++ c.image

/-- A cartridge of the standard type. -/
structure Cartridge where
  /-- its header says 32 bytes instead of 64 -/
  short : Bool
  exrom : UInt8
  game : UInt8
  reserved : List UInt8
  name : List UInt8
  chips : List Chip
  length_reserved : reserved.length = 6
  length_name : name.length = 32

def Cartridge.header (c : Cartridge) : List UInt8 :=
  chars "C64 CARTRIDGE   " ++ [0, 0, 0, if c.short then 0x20 else 0x40] ++ [1, 0] ++
    [0, 0] ++ [c.exrom] ++
    [c.game] ++ c.reserved ++ c.name

def Cartridge.bytes (c : Cartridge) : List UInt8 := c.header ++ c.chips.flatMap Chip.bytes

def WellFormed (data : List UInt8) : Prop := ∃ c : Cartridge, data = c.bytes

/-- Where the image of a chip belongs. -/
def Chip.transfer (base : UInt32) (c : Chip) : Transfer :=
  ⟨base + c.load.toUInt32, c.size.toUInt32, c.image⟩

/-- The upload of a cartridge ends; the images of a whole one are sent, each once, and it is answered with
    zero; any other file is not. -/
def LoadsCrt (fpgas : ℕ → Fpga) (file : File) (base sconf : UInt32) : Prop :=
  ∃ fuel rc sconf' ts, uploadCrt fpgas fuel file base sconf = some (rc, sconf', ts) ∧
    (∀ c : Cartridge, file.data = c.bytes → ts = c.chips.map (Chip.transfer base) ∧ rc = 0) ∧
    (¬WellFormed file.data → rc ≠ 0)

/-! ### The upload ends -/

variable {fpgas : ℕ → Fpga} {file : File} {base sconf : UInt32} {f : FIL}

theorem field_eq_some {n : ℕ} {check : List UInt8 → Bool} {bs : List UInt8} {f' : FIL} :
    field n check f = some (bs, f') ↔ (bs, f') = FF_Read f n ∧ bs.length = n ∧ check bs = true := by
  rw [field]
  simp only
  split
  · next h =>
    refine iff_of_false nofun ?_
    rintro ⟨heq, hlen, hcheck⟩
    rw [← heq] at h
    rcases h with h | h
    · exact h hlen
    · rw [hcheck] at h
      exact Bool.noConfusion h
  · next h =>
    rw [not_or, not_not, Bool.not_eq_false] at h
    constructor
    · intro heq
      cases heq
      exact ⟨rfl, h⟩
    · rintro ⟨heq, -⟩
      rw [heq]

theorem field_open {n : ℕ} {check : List UInt8 → Bool} {r : List UInt8 × FIL} (h : OpenOn file f)
    (hfield : field n check f = some r) : OpenOn file r.2 ∧ check r.1 = true := by
  obtain ⟨heq, -, hcheck⟩ := field_eq_some.mp (show field n check f = some (r.1, r.2) from hfield)
  rw [show r = FF_Read f n from heq] at *
  exact ⟨(h.read n).1, hcheck⟩

/-- A packet that is read has one of two lengths. -/
theorem chipHeader_open {var32 : UInt32} {filebase size : UInt16} {f' : FIL} (h : OpenOn file f)
    (hchip : chipHeader f = some (var32, filebase, size, f')) : OpenOn file f' ∧
      (var32 = 0x10400000 ∨ var32 = 0x10200000) := by
  obtain ⟨r₁, h₁, hchip⟩ := Option.bind_eq_some_iff.mp hchip
  obtain ⟨r₂, h₂, hchip⟩ := Option.bind_eq_some_iff.mp hchip
  obtain ⟨r₃, h₃, hchip⟩ := Option.bind_eq_some_iff.mp hchip
  obtain ⟨r₄, h₄, hchip⟩ := Option.bind_eq_some_iff.mp hchip
  obtain ⟨r₅, h₅, hchip⟩ := Option.bind_eq_some_iff.mp hchip
  obtain ⟨r₆, h₆, hchip⟩ := Option.bind_eq_some_iff.mp hchip
  cases hchip
  obtain ⟨ho₁, -⟩ := field_open h h₁
  obtain ⟨ho₂, hlength⟩ := field_open ho₁ h₂
  obtain ⟨ho₃, -⟩ := field_open ho₂ h₃
  obtain ⟨ho₄, -⟩ := field_open ho₃ h₄
  obtain ⟨ho₅, -⟩ := field_open ho₄ h₅
  obtain ⟨ho₆, -⟩ := field_open ho₅ h₆
  exact ⟨ho₆, of_decide_eq_true hlength⟩

theorem chipHeader_aborted (h : f.err = true) : chipHeader f = none := by
  have hread : FF_Read f 4 = ([], f) := by
    rw [FF_Read, f_read, if_pos h]
  rw [chipHeader, field, hread]
  rfl

/-- How much of the file is left, as the loop sees it; nothing when the number is negative. -/
def left (file : File) (offset : UInt32) : ℕ :=
  (UInt32.ofNat (file.data.length - min offset.toNat file.data.length)).toInt32.toInt.toNat

theorem left_eq (file : File) (offset : UInt32) : left file offset =
    if (file.data.length - min offset.toNat file.data.length) % 2 ^ 32 < 2 ^ 31 then
      (file.data.length - min offset.toNat file.data.length) % 2 ^ 32
    else 0 := by
  rw [left, show ∀ n : UInt32, n.toInt32.toInt = n.toBitVec.toInt from fun _ => rfl,
    BitVec.toInt_eq_toNat_cond, UInt32.toNat_toBitVec, UInt32.toNat_ofNat']
  generalize file.data.length - min offset.toNat file.data.length = x
  split <;> split <;> omega

/-- A packet is taken from what is left. -/
theorem left_next {offset skip : UInt32} (hleft : 0 < left file offset) (hskip : skip.toNat < 2 ^ 31)
    (hpos : 0 < skip.toNat) : left file (offset + skip) < left file offset := by
  have ho := offset.toNat_lt
  rw [left_eq] at *
  rw [left_eq, UInt32.toNat_add]
  split at hleft
  · split <;> omega
  · omega

theorem bytesLeft_open (h : OpenOn file f) {offset : UInt32}
    (hptr : f.fptr = min offset.toNat file.data.length) (hgo : ¬FF_BytesLeft f < 0x10) :
    0x10 ≤ left file offset := by
  rw [FF_BytesLeft, h.objsize, hptr, Int32.lt_iff_toInt_lt] at hgo
  have h16 : (0x10 : Int32).toInt = 16 := by decide
  rw [left]
  omega

/-- The packets come to an end. -/
theorem crtLoop_stops (rc : UInt8) : ∀ (n i : ℕ) (offset : UInt32) {f : FIL}, OpenOn file f →
    (f.err = false → left file offset < n) → (crtLoop fpgas base rc (n + 1) i offset f).isSome
  | n, i, offset, f, h, hn => by
    obtain ⟨hopen, herr, hptr⟩ := h.seek offset.toNat
    rw [crtLoop]
    simp only
    split
    · rfl
    next hgo =>
    cases he : f.err with
    | true =>
      rw [chipHeader_aborted (herr.trans he)]
      rfl
    | false =>
      have hleft := bytesLeft_open hopen (hptr he) hgo
      have hless := hn he
      cases hchip : chipHeader (FF_Seek f offset.toNat).2 with
      | none => rfl
      | some r =>
        obtain ⟨var32, filebase, size, f'⟩ := r
        obtain ⟨hopen', hlength⟩ := chipHeader_open hopen hchip
        simp only [Option.isSome_map]
        cases n with
        | zero => omega
        | succ n =>
          refine crtLoop_stops rc n (i + 1) _ (fileToMem_file hopen' ..).1 fun _ => ?_
          have hnext : left file (offset + ((0x10 : UInt32) + ((var32 >>> 8) &&& (0xFF00 : UInt32)))) <
              left file offset := by
            refine left_next (by omega) ?_ ?_
            · rcases hlength with rfl | rfl <;> decide
            · rcases hlength with rfl | rfl <;> decide
          rw [UInt32.add_assoc]
          omega

theorem crtHeader_open (h : OpenOn file f) (f' : FIL) (hf : (crtHeader sconf f).2 = some f') :
    OpenOn file f' := by
  rw [crtHeader] at hf
  simp only at hf
  split at hf
  · cases hf
  next r₅ hstart =>
  obtain ⟨r₁, h₁, hstart⟩ := Option.bind_eq_some_iff.mp hstart
  obtain ⟨r₂, h₂, hstart⟩ := Option.bind_eq_some_iff.mp hstart
  obtain ⟨r₃, h₃, hstart⟩ := Option.bind_eq_some_iff.mp hstart
  obtain ⟨r₄, h₄, h₅⟩ := Option.bind_eq_some_iff.mp hstart
  have ho := (field_open (field_open (field_open (field_open (field_open h h₁).1 h₂).1 h₃).1 h₄).1 h₅).1
  split at hf
  · cases hf
  next h₆ =>
  obtain ⟨r₇, h₇, hrest⟩ := Option.bind_eq_some_iff.mp hf
  obtain ⟨r₈, h₈, hrest⟩ := Option.bind_eq_some_iff.mp hrest
  cases hrest
  exact (field_open (field_open (field_open ho h₆).1 h₇).1 h₈).1

/-- Whatever the file is, the upload ends. -/
theorem uploadCrt_stops (fpgas : ℕ → Fpga) (file : File) (base sconf : UInt32) :
    ∃ fuel, (uploadCrt fpgas fuel file base sconf).isSome := by
  have hopen : OpenOn file (FF_Seek (f_open file false) 0).2 := ((openOn_open file).seek 0).1
  cases hheader : crtHeader sconf (FF_Seek (f_open file false) 0).2 with
  | mk sconf' r =>
    cases r with
    | none =>
      refine ⟨0, ?_⟩
      rw [uploadCrt]
      simp only [hheader]
      rfl
    | some f =>
      have hf := crtHeader_open hopen f (by rw [hheader])
      refine ⟨left file 0x40 + 1 + 1, ?_⟩
      rw [uploadCrt]
      simp only [hheader, Option.isSome_map]
      exact crtLoop_stops 1 _ 0 0x40 hf fun _ => Nat.lt_succ_self _

/-- And the code is one. -/
theorem crtLoop_code : ∀ {fuel i : ℕ} {offset : UInt32} {f : FIL} {r : UInt8 × List Transfer},
    crtLoop fpgas base 1 fuel i offset f = some r → r.1 = 1
  | 0, _, _, _, _, h => by cases h
  | fuel + 1, i, offset, f, r, h => by
    rw [crtLoop] at h
    simp only at h
    split at h
    · cases h
      rfl
    · split at h
      · cases h
        rfl
      · obtain ⟨r', hrest, rfl⟩ := Option.map_eq_some_iff.mp h
        have hcode := crtLoop_code hrest
        exact hcode

theorem uploadCrt_code {fuel : ℕ} {r : UInt8 × UInt32 × List Transfer}
    (h : uploadCrt fpgas fuel file base sconf = some r) : r.1 = 1 := by
  rw [uploadCrt] at h
  simp only at h
  split at h
  · cases h
    rfl
  · obtain ⟨r', hloop, rfl⟩ := Option.map_eq_some_iff.mp h
    have hcode := crtLoop_code hloop
    exact hcode

/-- The upload of a cartridge does what it should exactly when the file is none. -/
theorem loadsCrt_iff (fpgas : ℕ → Fpga) (file : File) (base sconf : UInt32) :
    LoadsCrt fpgas file base sconf ↔ ¬WellFormed file.data := by
  constructor
  · rintro ⟨fuel, rc, sconf', ts, hrun, hwhole, -⟩ ⟨c, hc⟩
    have hcode := uploadCrt_code hrun
    rw [show rc = 0 from (hwhole c hc).2] at hcode
    exact absurd (show (0 : UInt8) = 1 from hcode) (by decide)
  · intro hbad
    obtain ⟨fuel, hsome⟩ := uploadCrt_stops fpgas file base sconf
    obtain ⟨⟨rc, sconf', ts⟩, hrun⟩ := Option.isSome_iff_exists.mp hsome
    refine ⟨fuel, rc, sconf', ts, hrun, fun c hc => absurd ⟨c, hc⟩ hbad, fun _ => ?_⟩
    have hcode := uploadCrt_code hrun
    rw [show rc = 1 from hcode]
    decide

/-! ### Whole cartridges -/

/-- An object that delivers the rest of its file. -/
structure Reading (file : File) (rest : List UInt8) (f : FIL) : Prop where
  isOpen : OpenOn file f
  err : f.err = false
  rest_eq : file.data.drop f.fptr = rest

variable {rest : List UInt8}

theorem Reading.length (h : Reading file rest f) : file.data.length = f.fptr + rest.length := by
  have hle := h.isOpen.ok.fptr_le
  rw [h.isOpen.objsize] at hle
  rw [← h.rest_eq, List.length_drop]
  omega

/-- A field that is there is read. -/
theorem Reading.reads {bs : List UInt8} (h : Reading file (bs ++ rest) f)
    (hread : file.data.length ≤ file.readable) {check : List UInt8 → Bool}
    (hcheck : check bs = true) {n : ℕ}
    (hn : bs.length = n) : ∃ f', field n check f = some (bs, f') ∧ Reading file rest f' := by
  have hlen := h.length
  rw [List.length_append] at hlen
  have hreach : reach f = bs.length + rest.length := by
    rw [reach, h.err, h.isOpen.objsize, h.isOpen.readable]
    simp only [Bool.false_eq_true, if_false]
    omega
  obtain ⟨hopen, herr, hfptr⟩ := h.isOpen.read n
  obtain ⟨hblock, -⟩ := read_block h.isOpen.ok n
  rw [hreach, show min n (bs.length + rest.length) = bs.length by omega] at hblock herr hfptr
  have hbs : (FF_Read f n).1 = bs := by
    rw [hblock, h.isOpen.data, h.rest_eq, List.take_left]
  refine ⟨(FF_Read f n).2, field_eq_some.mpr ⟨Prod.ext hbs.symm rfl, hn, hcheck⟩, hopen, ?_, ?_⟩
  · rw [← Bool.not_eq_true, herr, h.err, h.isOpen.objsize]
    simp only [Bool.false_eq_true, false_or]
    omega
  · rw [hfptr, ← List.drop_drop, h.rest_eq, List.drop_left]

/-- What is read after a seek. -/
theorem seek_reading (h : OpenOn file f) (he : f.err = false) (ofs : ℕ) :
    Reading file (file.data.drop ofs) (FF_Seek f ofs).2 := by
  obtain ⟨hopen, herr, hptr⟩ := h.seek ofs
  refine ⟨hopen, herr.trans he, ?_⟩
  rw [hptr he]
  rcases Nat.le_total ofs file.data.length with hle | hge
  · rw [Nat.min_eq_left hle]
  · rw [Nat.min_eq_right hge, List.drop_length, List.drop_eq_nil_of_le hge]

theorem endianCorrect_toNat (v : UInt16) :
    (endianCorrect v).toNat = v.toNat / 256 + 256 * (v.toNat % 256) := by
  have hv := v.toNat_lt
  have hhigh : v.toNat / 256 < 256 := by omega
  have hlow : v.toNat % 256 < 256 := Nat.mod_lt _ (by decide)
  have hmask : ∀ x : ℕ, x &&& 255 = x % 256 := fun x => Nat.and_two_pow_sub_one_eq_mod x 8
  rw [endianCorrect]
  simp only [UInt16.toNat_add, UInt16.toNat_and, UInt16.toNat_shiftRight, UInt16.toNat_shiftLeft]
  rw [show (8 : UInt16).toNat % 16 = 8 from rfl, show (0xff : UInt16).toNat = 255 from rfl, hmask, hmask,
    Nat.shiftRight_eq_div_pow, Nat.shiftLeft_eq, show 2 ^ 8 = 256 from rfl, Nat.mod_eq_of_lt hhigh]
  omega

theorem le16_be16 (n : UInt16) : (le16 (be16 n)).toNat = n.toNat / 256 + 256 * (n.toNat % 256) := by
  have hn := n.toNat_lt
  have hhigh : n.toNat / 256 < 256 := by omega
  have hlow : n.toNat % 256 < 256 := Nat.mod_lt _ (by decide)
  simp only [le16, be16, List.getD_cons_zero, List.getD_cons_succ, UInt16.toNat_toUInt8,
    UInt16.toNat_shiftRight, Nat.shiftRight_eq_div_pow, UInt16.toNat_ofNat']
  rw [show (8 : UInt16).toNat % 16 = 8 from rfl, Nat.mod_eq_of_lt hhigh]
  exact Nat.mod_eq_of_lt (by omega)

theorem endianCorrect_be16 (n : UInt16) : endianCorrect (le16 (be16 n)) = n := by
  have hn := n.toNat_lt
  rw [← UInt16.toNat_inj, endianCorrect_toNat, le16_be16]
  omega

theorem Chip.length_bytes (c : Chip) : c.bytes.length = 0x10 + c.image.length := by
  rw [Chip.bytes]
  simp only [List.length_append]
  rfl

theorem Chip.drop_bytes (c : Chip) : c.bytes.drop 0x10 = c.image := by
  rw [Chip.bytes]
  rfl

theorem Chip.size_toNat (c : Chip) : c.size.toUInt32.toNat = c.image.length := by
  rw [c.length_eq, Chip.size]
  split <;> rfl

/-- What the offset goes on by behind a head. -/
def Chip.skip (c : Chip) : UInt32 := if c.large then 0x4000 else 0x2000

theorem Chip.skip_eq (c : Chip) :
    ((if c.large then 0x10400000 else 0x10200000 : UInt32) >>> 8) &&& (0xFF00 : UInt32) = c.skip := by
  rw [Chip.skip]
  split <;> rfl

theorem Chip.skip_toNat (c : Chip) : c.skip.toNat = c.image.length := by
  rw [c.length_eq, Chip.skip]
  split <;> rfl

/-- The head of a packet is read. -/
theorem chipHeader_bytes {c : Chip} (h : Reading file (c.bytes ++ rest) f)
    (hread : file.data.length ≤ file.readable) : ∃ f', chipHeader f =
      some (if c.large then 0x10400000 else 0x10200000, c.load, c.size, f') ∧
        Reading file (c.image ++ rest) f' := by
  rw [Chip.bytes] at h
  simp only [List.append_assoc] at h
  obtain ⟨f₁, h₁, hr₁⟩ := @Reading.reads file f _ _ h hread (· = chars "CHIP") (by decide) 4 rfl
  obtain ⟨f₂, h₂, hr₂⟩ := @Reading.reads file f₁ _ _ hr₁ hread
    (fun bs => le32 bs = 0x10400000 ∨ le32 bs = 0x10200000) (by cases c.large <;> decide) 4 rfl
  obtain ⟨f₃, h₃, hr₃⟩ := @Reading.reads file f₂ _ _ hr₂ hread (fun bs => le16 bs = 0x0) (by decide) 2 rfl
  obtain ⟨f₄, h₄, hr₄⟩ := @Reading.reads file f₃ _ _ hr₃ hread anything rfl 2 rfl
  obtain ⟨f₅, h₅, hr₅⟩ := @Reading.reads file f₄ _ _ hr₄ hread anything rfl 2 rfl
  obtain ⟨f₆, h₆, hr₆⟩ := @Reading.reads file f₅ _ _ hr₅ hread anything rfl 2 rfl
  refine ⟨f₆, ?_, hr₆⟩
  simp only [chipHeader, h₁, h₂, h₃, h₄, h₅, h₆, Option.bind_eq_bind, Option.bind_some,
    endianCorrect_be16,
    Option.pure_def]
  cases c.large <;> rfl

/-- So much is left that there is another packet, in a file of less than 2 GiB. -/
theorem bytesLeft_iff (h : OpenOn file f) (hsmall : file.data.length < 2 ^ 31) :
    FF_BytesLeft f < 0x10 ↔ file.data.length - f.fptr < 16 := by
  have hle : file.data.length - f.fptr < 2 ^ 31 := by omega
  rw [FF_BytesLeft, h.objsize, Int32.lt_iff_toInt_lt, show (0x10 : Int32).toInt = 16 by decide,
    show ∀ n : UInt32, n.toInt32.toInt = n.toBitVec.toInt from fun _ => rfl,
    BitVec.toInt_eq_toNat_cond, UInt32.toNat_toBitVec, UInt32.toNat_ofNat']
  split <;> omega

/-- The images are sent, each once. -/
theorem crtLoop_sends (hread : file.data.length ≤ file.readable) (hsmall : file.data.length < 2 ^ 31)
    (rc : UInt8) : ∀ (chips : List Chip) (i : ℕ) (offset : UInt32) {f : FIL},
    OpenOn file f → f.err = false →
      offset.toNat ≤ file.data.length → file.data.drop offset.toNat = chips.flatMap Chip.bytes →
      (∀ j c, chips[j]? = some c → InTime (fpgas (i + j)) 0 (2 * waitsFor c.image.length)) →
      crtLoop fpgas base rc (chips.length + 1) i offset f = some (rc, chips.map (Chip.transfer base))
  | [], i, offset, f, h, he, hle, hdata, htime => by
    have hreading := seek_reading h he offset.toNat
    rw [hdata] at hreading
    have hlen := hreading.length
    rw [List.length_nil, crtLoop]
    simp only
    rw [if_pos ((bytesLeft_iff hreading.isOpen hsmall).mpr ?_)]
    · rfl
    · rw [List.flatMap_nil, List.length_nil] at hlen
      omega
  | c :: chips, i, offset, f, h, he, hle, hdata, htime => by
    have hreading := seek_reading h he offset.toNat
    rw [hdata, List.flatMap_cons] at hreading
    have hlen := hreading.length
    rw [List.length_append, c.length_bytes] at hlen
    have hoff : file.data.length =
        offset.toNat + (0x10 + c.image.length + (chips.flatMap Chip.bytes).length) := by
      have hdrop := congrArg List.length hdata
      rw [List.length_drop, List.flatMap_cons, List.length_append, c.length_bytes] at hdrop
      omega
    obtain ⟨f', hchip, hreading'⟩ := chipHeader_bytes hreading hread
    have hnext : (offset + 0x10).toNat = offset.toNat + 0x10 := by
      rw [UInt32.toNat_add, show (0x10 : UInt32).toNat = 0x10 from rfl]
      omega
    have himage : file.data.drop (offset + 0x10).toNat = c.image ++ chips.flatMap Chip.bytes := by
      rw [hnext, ← List.drop_drop, hdata, List.flatMap_cons,
        List.drop_append_of_le_length (by rw [c.length_bytes]; omega), c.drop_bytes]
    have havailable : available f' (offset + 0x10).toNat = min file.data.length file.readable -
        (offset + 0x10).toNat := by
      rw [available, hreading'.err, hreading'.isOpen.objsize, hreading'.isOpen.readable]
      rfl
    have hsize := c.size_toNat
    have henough : c.size.toUInt32.toNat ≤ available f' (offset + 0x10).toNat := by omega
    have hin : InTime (fpgas i) 0 (2 * waitsFor c.size.toUInt32.toNat) := by
      rw [hsize]
      exact htime 0 c rfl
    have hsent := @sentBy_take (fpgas i) f' hreading'.isOpen.ok (base + c.load.toUInt32) _ _ henough hin
    rw [hreading'.isOpen.data, himage, hsize, List.take_left, sentBy] at hsent
    obtain ⟨hopen, -, herr⟩ := @fileToMem_file (fpgas i) f' file hreading'.isOpen (base + c.load.toUInt32)
      c.size.toUInt32 (offset + 0x10)
    have hgood := herr hreading'.err (by omega) (by rwa [Nat.min_eq_left henough])
    have hskip : (offset + 0x10 + c.skip).toNat = offset.toNat + (0x10 + c.image.length) := by
      rw [UInt32.toNat_add, c.skip_toNat, hnext]
      omega
    have hrest := crtLoop_sends hread hsmall rc chips (i + 1) (offset + 0x10 + c.skip) hopen
      (by rw [← Bool.not_eq_true, hgood]; omega) (by omega) ?_ ?_
    · rw [List.length_cons, crtLoop]
      simp only
      rw [if_neg (by rw [bytesLeft_iff hreading.isOpen hsmall]; omega), hchip]
      simp only
      rw [c.skip_eq, hrest, hsent]
      rfl
    · rw [hskip, ← List.drop_drop, hdata, List.flatMap_cons, ← c.length_bytes, List.drop_left]
    · intro j c' hc'
      have h' := htime (j + 1) c' hc'
      rwa [show i + (j + 1) = i + 1 + j by omega] at h'

theorem Cartridge.length_header (c : Cartridge) : c.header.length = 0x40 := by
  rw [Cartridge.header]
  simp only [List.length_append, c.length_reserved, c.length_name]
  rfl

/-- The states of EXROM and GAME in the configuration. -/
def Cartridge.lines (c : Cartridge) (sconf : UInt32) : UInt32 :=
  lineBit (lineBit sconf 0xFFFFFFFE 1 [c.exrom]) 0xFFFFFFFD 2 [c.game]

/-- The header is read. -/
theorem crtHeader_bytes {c : Cartridge} (h : Reading file (c.header ++ rest) f)
    (hread : file.data.length ≤ file.readable) : ∃ f', crtHeader sconf f = (c.lines sconf, some f') ∧
      Reading file rest f' := by
  rw [Cartridge.header] at h
  simp only [List.append_assoc] at h
  obtain ⟨f₁, h₁, hr₁⟩ := @Reading.reads file f _ _ h hread (· = chars "C64 CARTRIDGE   ")
      (by decide) 16 rfl
  obtain ⟨f₂, h₂, hr₂⟩ := @Reading.reads file f₁ _ _ hr₁ hread
    (fun bs => le32 bs = 0x40000000 ∨ le32 bs = 0x20000000) (by cases c.short <;> decide) 4 rfl
  obtain ⟨f₃, h₃, hr₃⟩ := @Reading.reads file f₂ _ _ hr₂ hread (fun bs => le16 bs = 0x0001)
      (by decide) 2 rfl
  obtain ⟨f₄, h₄, hr₄⟩ := @Reading.reads file f₃ _ _ hr₃ hread (fun bs => le16 bs = 0x0) (by decide) 2 rfl
  obtain ⟨f₅, h₅, hr₅⟩ := @Reading.reads file f₄ _ _ hr₄ hread anything rfl 1 rfl
  obtain ⟨f₆, h₆, hr₆⟩ := @Reading.reads file f₅ _ _ hr₅ hread anything rfl 1 rfl
  obtain ⟨f₇, h₇, hr₇⟩ := @Reading.reads file f₆ _ _ hr₆ hread anything rfl 6 c.length_reserved
  obtain ⟨f₈, h₈, hr₈⟩ := @Reading.reads file f₇ _ _ hr₇ hread anything rfl 32 c.length_name
  refine ⟨f₈, ?_, hr₈⟩
  simp only [crtHeader, h₁, h₂, h₃, h₄, h₅, h₆, h₇, h₈, Option.bind_eq_bind, Option.bind_some]
  rfl

/-- All the same a whole cartridge is sent, in a file of less than 2 GiB that is read and sent in time; what
    is wrong is the code alone. -/
theorem uploadCrt_sends (c : Cartridge) (hdata : file.data = c.bytes)
    (hread : file.data.length ≤ file.readable) (hsmall : file.data.length < 2 ^ 31)
    (htime : ∀ i chip, c.chips[i]? = some chip → InTime (fpgas i) 0 (2 * waitsFor chip.image.length)) :
    uploadCrt fpgas (c.chips.length + 1) file base sconf =
      some (1, c.lines sconf, c.chips.map (Chip.transfer base)) := by
  have hreading := seek_reading (openOn_open file) rfl 0
  rw [List.drop_zero, hdata, Cartridge.bytes] at hreading
  obtain ⟨f, hheader, hbehind⟩ := @crtHeader_bytes file sconf _ _ _ hreading hread
  have hlen := congrArg List.length hdata
  rw [Cartridge.bytes, List.length_append, c.length_header] at hlen
  have hloop := @crtLoop_sends fpgas file base hread hsmall 1 c.chips 0 0x40 f hbehind.isOpen hbehind.err
    (by rw [hlen]; exact Nat.le_add_right _ _)
    (by rw [hdata, Cartridge.bytes,
        show (0x40 : UInt32).toNat = c.header.length from c.length_header.symm,
      List.drop_left])
    (by simpa only [Nat.zero_add] using htime)
  rw [uploadCrt]
  simp only [hheader]
  rw [hloop]
  rfl

/-- A cartridge without chips: it is well-formed, and refused. -/
theorem noChips_refused : ¬∀ fpgas file base sconf, LoadsCrt fpgas file base sconf := by
  let c : Cartridge := ⟨false, 0, 0, List.replicate 6 0, List.replicate 32 0, [], rfl, rfl⟩
  refine not_forall.mpr ⟨fun _ => ⟨fun _ => false, fun _ => 0⟩, fun h => ?_⟩
  obtain ⟨fuel, rc, sconf', ts, hrun, hwhole, -⟩ := h
    ⟨c.bytes, fun _ => 0, c.bytes.length, 512, c.bytes.length, le_refl _, by decide⟩ 0 0
  have hcode := uploadCrt_code hrun
  rw [show rc = 0 from (hwhole c rfl).2] at hcode
  exact absurd (show (0 : UInt8) = 1 from hcode) (by decide)

end Config.UploadRom
