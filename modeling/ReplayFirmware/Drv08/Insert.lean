import ReplayFirmware.Drv08.Seek
import ReplayFirmware.Drv08.Blocks

/-! Inserting a hardfile, a CD image or the card.

    The name says what is inserted: a file by its extension, the card by a special name with the
    number of a partition. `Mounted` says what a unit is mounted on, and that it is in order. What
    the driver lists of a rigid disk block at a high debug level is left out. -/

namespace FileIO.Drv08
open FatFs

/-! ### Hardfiles -/

/-- What the first blocks of a file say. -/
inductive HardfileType where
  | rdsk
  | naked (hdf_dostype : UInt32)
  | unknown

/-- `memcmp(fbuf, s, strlen(s)) == 0` -/
def startsWith (fbuf : ℕ → UInt8) (s : String) : Bool :=
  (List.range (strBytes s).length).map fbuf = strBytes s

/-- The loop of `Drv08_GetHardfileType`; a short read leaves the rest of the buffer. -/
def typeLoop : ℕ → FIL → (ℕ → UInt8) → Option HardfileType × FIL
  | 0, fp, _ => (none, fp)
  | n + 1, fp, fbuf =>
    let (bs, fp) := FF_Read fp 512
    let fbuf := readInto fbuf bs
    if startsWith fbuf "RDSK" then (some .rdsk, fp)
    else if startsWith fbuf "DOS" || startsWith fbuf "PFS" || startsWith fbuf "SFS" then
      (some (.naked (readLong fbuf 0)), fp)
    else typeLoop n fp fbuf

/-- `Drv08_GetHardfileType`; the check for a CD image only reports. -/
def getHardfileType (fp : FIL) (fbuf : ℕ → UInt8) : HardfileType × FIL :=
  let (_, fp) := FF_Seek fp 0
  match typeLoop 16 fp fbuf with
  | (some t, fp) => (t, fp)
  | (none, fp) =>
    let (_, fp) := FF_Seek fp (0x10 * 2048)
    let (_, fp) := FF_Read fp 512
    (.unknown, fp)

/-- Where the loop over the heads stops. -/
def cylFits (size : UInt64) (cyl head : ℕ) : Bool :=
  if size ≤ 512 * 1024 * 1024 then cyl ≤ 1023
  else cyl < 16383 || (cyl < 32767 && head ≥ 5) || cyl ≤ 65535

/-- The loop over the heads: head and cylinders it ends with. -/
def headLoop (size : UInt64) (total spt : ℕ) : ℕ → ℕ → ℕ → ℕ × ℕ
  | 0, head, cyl => (head, cyl)
  | n + 1, head, _ =>
    let cyl := total / (head * spt)
    if cylFits size cyl head then (head, cyl) else headLoop size total spt n (head + 1) cyl

/-- The loop over the sectors of a track: head, cylinders and sectors it ends with. -/
def sptLoop (size : UInt64) (total : ℕ) : List ℕ → ℕ × ℕ × ℕ → ℕ × ℕ × ℕ
  | [], r => r
  | spt :: sptt, (_, cyl, _) =>
    let (head, cyl) := headLoop size total spt 13 4 cyl
    if head ≤ 16 then (head, cyl, spt) else sptLoop size total sptt (head, cyl, spt)

/-- `Drv08_GetHardfileGeometry` -/
def getHardfileGeometry (pDesc : Desc) : Desc :=
  if pDesc.file_size = 0 then pDesc
  else
    let total := (pDesc.file_size / 512).toUInt32.toNat
    let (head, cyl, spt) := sptLoop pDesc.file_size total [63, 127, 255] (0, 0, 0)
    { pDesc with
      cylinders := cyl.toUInt16, heads := head.toUInt16, sectors := spt.toUInt16
      sectors_per_block := 0 }

/-- The loop that finds a power of two that is large enough. -/
def indexSizeLoop (i : ℕ) : ℕ → ℕ → ℕ → ℕ
  | 0, _, index_size => index_size
  | fuel + 1, j, index_size =>
    if j < i then indexSizeLoop i fuel (2 * j) (index_size + 1) else index_size

/-- `Drv08_BuildHardfileIndex` -/
def buildHardfileIndex (pDesc : Desc) : Desc :=
  { pDesc with
    index_size := (indexSizeLoop (pDesc.file_size >>> 10).toNat 48 (2 ^ 16) 16).toUInt32
    index := fun _ => none, mru_lba := 0xFFFFFFFF }

/-! ### The card -/

/-- Byte `i` of a block. -/
def byteAt (b : Block) (i : ℕ) : UInt8 := b.toList.getD i 0

/-- A long of a block, low byte first. -/
def longAt (b : Block) (i : ℕ) : UInt32 :=
  (byteAt b i).toUInt32 ||| (byteAt b (i + 1)).toUInt32 <<< 8 ||| (byteAt b (i + 2)).toUInt32 <<< 16
    ||| (byteAt b (i + 3)).toUInt32 <<< 24

/-- `lba_start` and `num_sectors` of an entry of the MBR, when it is in range on a card of `lba`
    blocks. -/
def mbrEntry (mbr : Block) (partition : ℕ) (lba : UInt64) : Option (UInt32 × UInt32) :=
  let entry := 0x1BE + 16 * partition
  let status := byteAt mbr entry
  let lba_start := longAt mbr (entry + 8)
  let num_sectors := longAt mbr (entry + 12)
  if (byteAt mbr 0x1FE = 0x55 ∧ byteAt mbr 0x1FF = 0xAA) ∧ (status = 0x00 ∨ status = 0x80) ∧
      (0 < lba_start ∧ lba_start.toUInt64 < lba) ∧ 0 < num_sectors ∧ num_sectors.toUInt64 < lba then
    some (lba_start, num_sectors)
  else none

/-- The partition a special name asks for, 0 for the card as a whole. -/
def partitionOf (ext : List UInt8) : ℕ :=
  let c := ext.getD 4 0
  let partition := if c = 0 then 0 else c - 0x30
  if partition > 3 then 0 else partition.toNat

/-- The entry of a partition on the card, if it has one. -/
def findPartition (card : Card) (partition : ℕ) : Option (UInt32 × UInt32) :=
  if partition = 0 then none
  else
    match Card_ReadM card 0 1 with
    | ([mbr], true) => mbrEntry mbr partition (card.capacity / 512)
    | _ => none

/-! ### The insert function -/

/-- A descriptor of zeros, as `calloc` gives it. -/
def Desc.zero : Desc :=
  { format := .XXX, file_size := 0, cylinders := 0, heads := 0, sectors := 0, sectors_per_block := 0
    index := fun _ => some 0, index_size := 0, mru_lba := 0, mru_cluster := 0
    hdf_rdb := fun _ => Vector.replicate 512 0, hdf_dostype := 0, lba_offset := 0 }

/-- What becomes of an insert: a division by zero leads astray. -/
inductive Inserted where
  | refused
  | astray
  | unit (pDrive : Drive)

/-- A unit of `lba` blocks on the card, from block `lba_offset` on. -/
def cardUnit (status : UInt8) (fSource : FIL) (lba_offset : UInt32) (lba : UInt64) : Inserted :=
  let sectors := lastDivisor lba.toNat 0 (candidates 1 255 1)
  let heads := lastDivisor (lba / sectors.toUInt64).toNat 0 (candidates 4 16 1)
  if sectors = 0 ∨ heads = 0 then .astray
  else
    .unit { status := status, fSource := fSource
            pDesc := { Desc.zero with
              format := .MMC, file_size := lba.toUInt32.toUInt64, lba_offset := lba_offset
              cylinders := (lba / sectors.toUInt64 / heads.toUInt64).toUInt16
              heads := heads, sectors := sectors } }

/-- The card, or a partition of it, cut to whole 256 blocks. -/
def insertCard (card : Card) (status : UInt8) (fSource : FIL) (partition : ℕ) : Inserted :=
  match findPartition card partition with
  | some (lba_start, num_sectors) =>
    cardUnit status fSource lba_start (num_sectors.toUInt64 &&& ~~~0xFF)
  | none => cardUnit status fSource 0 (card.capacity / 512)

/-- The descriptor of a file of that type. -/
def fileDesc (format : Format) (file_size : UInt64) : HardfileType → Desc
  | .naked hdf_dostype =>
    { Desc.zero with format := .HDF_NAKED, file_size := file_size, hdf_dostype := hdf_dostype }
  | _ => { Desc.zero with format := format, file_size := file_size }

/-- A hardfile or a CD image. -/
def insertFile (format : Format) (drive_number status : UInt8) (fSource : FIL) (fbuf : ℕ → UInt8) :
    Inserted :=
  let file_size := (FF_Size fSource).toUInt64
  let (t, fSource) := getHardfileType fSource fbuf
  let pDesc := buildHardfileIndex (getHardfileGeometry (fileDesc format file_size t))
  .unit { status := status, fSource := fSource
          pDesc := if pDesc.format = .HDF_NAKED then createRDB pDesc drive_number else pDesc }

/-- `FileIO_Drv08_InsertInit`. `fbuf` is what the stack holds where the first blocks are read to; the
    card has no file. -/
def insertInit (card : Card) (drive_number status : UInt8) (fSource : FIL) (ext : List UInt8)
    (fbuf : ℕ → UInt8) : Inserted :=
  if extIs ext "HDF" then insertFile .HDF drive_number status fSource fbuf
  else if extIs ext "?MMC" then insertCard card status fSource (partitionOf ext)
  else if extIs ext "ISO" then
    insertFile .ISO drive_number (status ||| statReadonly) fSource fbuf
  else .refused

/-! ### What is mounted -/

/-- What a unit is mounted on. -/
inductive Extent where
  | file
  | partition (lba_start num_sectors : UInt32)
  | wholeCard

/-- A mounted unit. A file is in order as long as no failed transfer has aborted it. -/
def Mounted : Extent → Drive → Prop
  | .file, d => d.pDesc.format ≠ .MMC ∧ (d.pDesc.format ≠ .HDF_NAKED → d.pDesc.lba_offset = 0) ∧
      d.pDesc.lba_offset.toNat ≤ 2 ^ 16 ∧ (d.fSource.err = false → Seekable d)
  | .partition lba_start num_sectors, d => d.pDesc.format = .MMC ∧ d.pDesc.lba_offset = lba_start ∧
      0 < lba_start ∧ d.pDesc.file_size.toNat ≤ num_sectors.toNat
  | .wholeCard, d => d.pDesc.format = .MMC ∧ d.pDesc.lba_offset = 0

/-- A file that has been open for a while: in order, and nothing cut off. -/
structure Later (fp fp' : FIL) : Prop where
  ok : fp'.Ok
  csize : fp'.csize = fp.csize
  size : fp.objsize ≤ fp'.objsize

theorem Later.trans {fp fp' fp'' : FIL} (h : Later fp fp') (h' : Later fp' fp'') : Later fp fp'' :=
  ⟨h'.ok, h'.csize.trans h.csize, h.size.trans h'.size⟩

theorem later_seek {fp : FIL} (h : fp.Ok) (ofs : ℕ) : Later fp (FF_Seek fp ofs).2 := by
  refine ⟨FF_Seek_ok h ofs, ?_, (FF_Seek_kept fp ofs).2⟩
  rw [FF_Seek]
  split
  · rfl
  · rw [f_lseek_eq h]
    split <;> rfl

theorem later_read {fp : FIL} (h : fp.Ok) (n : ℕ) : Later fp (FF_Read fp n).2 := by
  refine ⟨FF_Read_ok h n, ?_, ?_⟩
  · rw [FF_Read, f_read_eq h]
    rfl
  · rw [FIL.objsize, FIL.objsize, (FF_Read_kept _ n).1]

theorem later_typeLoop : ∀ (n : ℕ) {fp : FIL} (fbuf : ℕ → UInt8), fp.Ok →
    Later fp (typeLoop n fp fbuf).2
  | 0, _, _, h => ⟨h, rfl, le_refl _⟩
  | n + 1, fp, fbuf, h => by
    have hread := later_read h 512
    rw [typeLoop]
    simp only
    split
    · exact hread
    · split
      · exact hread
      · exact hread.trans (later_typeLoop n _ hread.ok)

theorem later_getHardfileType {fp : FIL} (h : fp.Ok) (fbuf : ℕ → UInt8) :
    Later fp (getHardfileType fp fbuf).2 := by
  have hloop := (later_seek h 0).trans (later_typeLoop 16 fbuf (later_seek h 0).ok)
  rw [getHardfileType]
  simp only
  generalize typeLoop 16 (FF_Seek fp 0).2 fbuf = r at hloop ⊢
  obtain ⟨_ | t, fp'⟩ := r
  · have hseek := later_seek hloop.ok (0x10 * 2048)
    exact (hloop.trans hseek).trans (later_read hseek.ok 512)
  · exact hloop

/-- The power of two the loop ends with is large enough. -/
theorem indexSizeLoop_spec (i : ℕ) : ∀ (fuel s : ℕ), i ≤ 2 ^ (s + fuel) →
    s ≤ indexSizeLoop i fuel (2 ^ s) s ∧ indexSizeLoop i fuel (2 ^ s) s ≤ s + fuel ∧
      i ≤ 2 ^ indexSizeLoop i fuel (2 ^ s) s
  | 0, s, h => ⟨le_refl _, le_refl _, h⟩
  | fuel + 1, s, h => by
    rw [indexSizeLoop]
    split
    · rw [← Nat.pow_succ', Nat.succ_eq_add_one]
      obtain ⟨h1, h2, h3⟩ := indexSizeLoop_spec i fuel (s + 1) (by rwa [Nat.add_right_comm])
      exact ⟨by omega, by omega, h3⟩
    · exact ⟨le_refl _, by omega, by omega⟩

/-- A new index fits the image, and remembers nothing. -/
theorem buildHardfileIndex_seekable {d : Drive} {pDesc : Desc} (hok : d.fSource.Ok)
    (hcsize : d.fSource.csize ≤ 2 ^ 24) (hsize : pDesc.imageSize ≤ d.fSource.objsize)
    (herr : d.fSource.err = false)
    (hfile : d.pDesc.file_size = pDesc.file_size)
    (hindex : d.pDesc.index_size = (buildHardfileIndex pDesc).index_size)
    (hnone : d.pDesc.index = fun _ => none) (hmru : d.pDesc.mru_lba = 0xFFFFFFFF) : Seekable d := by
  have himage : d.pDesc.imageSize = pDesc.imageSize := by rw [Desc.imageSize, hfile, Desc.imageSize]
  have hlt := pDesc.file_size.toNat_lt
  have hshift : (pDesc.file_size >>> 10).toNat = pDesc.imageSize / 1024 := by
    rw [UInt64.toNat_shiftRight, show (10 : UInt64).toNat % 64 = 10 by decide,
      Nat.shiftRight_eq_div_pow]
    rfl
  obtain ⟨h1, h2, h3⟩ := indexSizeLoop_spec (pDesc.file_size >>> 10).toNat 48 16 (by
    have := (pDesc.file_size >>> 10).toNat_lt
    exact le_of_lt this)
  have hs : d.pDesc.index_size.toNat = indexSizeLoop (pDesc.file_size >>> 10).toNat 48 (2 ^ 16) 16 := by
    rw [hindex]
    exact UInt32.toNat_ofNat_of_lt' (lt_of_le_of_lt h2 (by decide))
  exact
    { ok := hok
      healthy := herr
      csize_le := hcsize
      size := by rw [himage]; exact hsize
      index_size := by rw [hs]; exact h1
      index_step := by rw [hs, himage, ← hshift]; exact h3
      index := fun i c hi => by rw [hnone] at hi; exact absurd hi (by simp)
      mru := Or.inl hmru }

theorem getHardfileGeometry_kept (pDesc : Desc) :
    (getHardfileGeometry pDesc).format = pDesc.format ∧
      (getHardfileGeometry pDesc).file_size = pDesc.file_size ∧
      (getHardfileGeometry pDesc).lba_offset = pDesc.lba_offset := by
  rw [getHardfileGeometry]
  split <;> exact ⟨rfl, rfl, rfl⟩

theorem headLoop_le (size : UInt64) (total spt : ℕ) : ∀ n head cyl,
    (headLoop size total spt n head cyl).1 ≤ head + n
  | 0, _, _ => le_refl _
  | n + 1, head, cyl => by
    rw [headLoop]
    split
    · exact Nat.le_add_right _ _
    · have := headLoop_le size total spt n (head + 1) (total / (head * spt))
      omega

theorem sptLoop_le (size : UInt64) (total : ℕ) : ∀ (sptt : List ℕ) (r : ℕ × ℕ × ℕ),
    (∀ spt ∈ sptt, spt ≤ 255) → r.1 ≤ 17 ∧ r.2.2 ≤ 255 →
    (sptLoop size total sptt r).1 ≤ 17 ∧ (sptLoop size total sptt r).2.2 ≤ 255
  | [], _, _, hr => hr
  | spt :: sptt, (_, cyl, _), hsptt, _ => by
    have hhead := headLoop_le size total spt 13 4 cyl
    have hspt := hsptt spt List.mem_cons_self
    rw [sptLoop]
    simp only
    split
    · exact ⟨hhead, hspt⟩
    · exact sptLoop_le size total sptt _ (fun c hc => hsptt c (List.mem_cons_of_mem spt hc))
        ⟨hhead, hspt⟩

/-- A geometry stays small. -/
theorem getHardfileGeometry_le {pDesc : Desc} (hh : pDesc.heads.toNat ≤ 17)
    (hs : pDesc.sectors.toNat ≤ 255) :
    (getHardfileGeometry pDesc).heads.toNat ≤ 17 ∧ (getHardfileGeometry pDesc).sectors.toNat ≤ 255 := by
  rw [getHardfileGeometry]
  split
  · exact ⟨hh, hs⟩
  · obtain ⟨h1, h2⟩ := sptLoop_le pDesc.file_size (pDesc.file_size / 512).toUInt32.toNat [63, 127, 255]
      (0, 0, 0) (by decide) (by decide)
    simp only
    generalize sptLoop _ _ _ _ = r at h1 h2 ⊢
    exact ⟨(Nat.mod_le _ _).trans h1, (Nat.mod_le _ _).trans h2⟩

theorem lastDivisor_le (n m : ℕ) : ∀ (cs : List ℕ) (old : UInt16), (∀ c ∈ cs, c ≤ m) →
    old.toNat ≤ m → (lastDivisor n old cs).toNat ≤ m
  | [], _, _, h => h
  | c :: cs, old, hcs, h => by
    rw [lastDivisor, List.foldl_cons]
    refine lastDivisor_le n m cs _ (fun c' hc' => hcs c' (List.mem_cons_of_mem c hc')) ?_
    split
    · exact (Nat.mod_le _ _).trans (hcs c List.mem_cons_self)
    · exact h

/-- The made-up blocks are few. -/
theorem createRDB_lba_offset_le {pDesc : Desc} (hh : pDesc.heads.toNat ≤ 17)
    (hs : pDesc.sectors.toNat ≤ 255) (drive_number : UInt8) :
    (createRDB pDesc drive_number).lba_offset.toNat ≤ 2 ^ 16 := by
  have hodd : ∀ c ∈ candidates 1 255 2, c ≤ 255 := fun c hc => by
    obtain ⟨i, hi, rfl⟩ := List.mem_range'.mp hc
    omega
  have h1 := lastDivisor_le (pDesc.file_size / 512).toUInt32.toNat 255 _ pDesc.sectors hodd hs
  simp only [createRDB]
  generalize lastDivisor (pDesc.file_size / 512).toUInt32.toNat pDesc.sectors _ = sectors at h1
  have h2 := lastDivisor_le ((pDesc.file_size / 512).toUInt32 / sectors.toUInt32).toNat 17
    (candidates 4 16 1) pDesc.heads (by decide) hh
  generalize lastDivisor _ pDesc.heads _ = heads at h2
  have hmul : sectors.toNat * heads.toNat ≤ 255 * 17 := Nat.mul_le_mul h1 h2
  rw [UInt32.toNat_mul, UInt32.toNat_mul, UInt16.toNat_toUInt32, UInt16.toNat_toUInt32,
    show (2 : UInt32).toNat = 2 by decide]
  refine (Nat.mod_le _ _).trans ?_
  have := Nat.mod_le (sectors.toNat * heads.toNat) (2 ^ 32)
  omega

theorem fileDesc_kept {format : Format} (hformat : format ≠ .MMC) (file_size : UInt64)
    (t : HardfileType) :
    (fileDesc format file_size t).format ≠ .MMC ∧
      (fileDesc format file_size t).file_size = file_size ∧
      (fileDesc format file_size t).lba_offset = 0 ∧ (fileDesc format file_size t).heads = 0 ∧
      (fileDesc format file_size t).sectors = 0 := by
  cases t with
  | naked _ => exact ⟨Format.noConfusion, rfl, rfl, rfl, rfl⟩
  | rdsk | unknown => exact ⟨hformat, rfl, rfl, rfl, rfl⟩

theorem insertFile_mounted {format : Format} (hformat : format ≠ .MMC) {drive_number status : UInt8}
    {fSource : FIL} {fbuf : ℕ → UInt8} (hok : fSource.Ok) (hcsize : fSource.csize ≤ 2 ^ 24) {d : Drive}
    (h : insertFile format drive_number status fSource fbuf = .unit d) : Mounted .file d := by
  have hlater := later_getHardfileType hok fbuf
  rw [insertFile] at h
  generalize getHardfileType fSource fbuf = r at h hlater
  obtain ⟨t, fp⟩ := r
  simp only [Inserted.unit.injEq] at h hlater
  obtain ⟨hfmt, hfile, hoff, hheads, hsectors⟩ :=
    fileDesc_kept hformat (FF_Size fSource).toUInt64 t
  obtain ⟨hh, hs⟩ := getHardfileGeometry_le
    (show (fileDesc format (FF_Size fSource).toUInt64 t).heads.toNat ≤ 17 by rw [hheads]; decide)
    (show (fileDesc format (FF_Size fSource).toUInt64 t).sectors.toNat ≤ 255 by rw [hsectors]; decide)
  obtain ⟨hfmt', hfile', hoff'⟩ :=
    getHardfileGeometry_kept (fileDesc format (FF_Size fSource).toUInt64 t)
  rw [← hfmt'] at hfmt
  rw [← hfile'] at hfile
  rw [← hoff'] at hoff
  generalize getHardfileGeometry (fileDesc format (FF_Size fSource).toUInt64 t) = pDesc
    at h hfmt hfile hoff hh hs
  have hsize : pDesc.imageSize ≤ fp.objsize := by
    rw [Desc.imageSize, hfile, FF_Size, Nat.toUInt64, UInt64.toNat_ofNat']
    exact (Nat.mod_le _ _).trans hlater.size
  have hcs : fp.csize ≤ 2 ^ 24 := by rw [hlater.csize]; exact hcsize
  have hseek : ∀ pDesc' : Desc, pDesc'.file_size = pDesc.file_size →
      pDesc'.index_size = (buildHardfileIndex pDesc).index_size → pDesc'.index = (fun _ => none) →
      pDesc'.mru_lba = 0xFFFFFFFF → fp.err = false →
      Seekable { status := status, fSource := fp, pDesc := pDesc' } :=
    fun pDesc' h1 h2 h3 h4 herr =>
      buildHardfileIndex_seekable hlater.ok hcs hsize herr h1 h2 h3 h4
  subst h
  by_cases hn : (buildHardfileIndex pDesc).format = .HDF_NAKED
  · simp only [if_pos hn]
    exact ⟨hfmt, fun hne => absurd hn hne, createRDB_lba_offset_le hh hs drive_number,
      hseek _ rfl rfl rfl rfl⟩
  · simp only [if_neg hn]
    have h0 : (buildHardfileIndex pDesc).lba_offset = 0 := hoff
    exact ⟨hfmt, fun _ => h0, by rw [h0]; decide, hseek _ rfl rfl rfl rfl⟩

theorem cardUnit_kept {status : UInt8} {fSource : FIL} {lba_offset : UInt32} {lba : UInt64} {d : Drive}
    (h : cardUnit status fSource lba_offset lba = .unit d) :
    d.pDesc.format = .MMC ∧ d.pDesc.lba_offset = lba_offset ∧
      d.pDesc.file_size = lba.toUInt32.toUInt64 := by
  rw [cardUnit] at h
  simp only at h
  split at h
  · exact Inserted.noConfusion h
  · cases h
    exact ⟨rfl, rfl, rfl⟩

/-- An entry that is in range does not start at block 0. -/
theorem findPartition_pos {card : Card} {partition : ℕ} {lba_start num_sectors : UInt32}
    (h : findPartition card partition = some (lba_start, num_sectors)) : 0 < lba_start := by
  rw [findPartition] at h
  split at h
  · cases h
  · split at h
    · rw [mbrEntry] at h
      split at h
      · next hcond =>
        cases h
        exact hcond.2.2.1.1
      · cases h
    · cases h

theorem insertCard_mounted {card : Card} {status : UInt8} {fSource : FIL} {partition : ℕ} {d : Drive}
    (h : insertCard card status fSource partition = .unit d) :
    match findPartition card partition with
    | some (lba_start, num_sectors) => Mounted (.partition lba_start num_sectors) d
    | none => Mounted .wholeCard d := by
  rw [insertCard] at h
  cases hentry : findPartition card partition with
  | none =>
    rw [hentry] at h
    obtain ⟨h1, h2, -⟩ := cardUnit_kept h
    exact ⟨h1, h2⟩
  | some entry =>
    obtain ⟨lba_start, num_sectors⟩ := entry
    rw [hentry] at h
    obtain ⟨h1, h2, h3⟩ := cardUnit_kept h
    refine ⟨h1, h2, findPartition_pos hentry, ?_⟩
    rw [h3, UInt32.toNat_toUInt64, UInt64.toNat_toUInt32, UInt64.toNat_and]
    refine (Nat.mod_le _ _).trans (Nat.and_le_left.trans ?_)
    rw [UInt32.toNat_toUInt64]

/-- What the insert function mounts is in order; FatFs keeps clusters to 2^24 bytes. -/
theorem insertInit_mounted {card : Card} {drive_number status : UInt8} {file : File} {write : Bool}
    {ext : List UInt8} {fbuf : ℕ → UInt8} {d : Drive} (hcsize : file.csize ≤ 2 ^ 24)
    (h : insertInit card drive_number status (f_open file write) ext fbuf = .unit d) :
    ∃ e, Mounted e d ∧ ∀ lba_start num_sectors, e = .partition lba_start num_sectors →
      findPartition card (partitionOf ext) = some (lba_start, num_sectors) := by
  have hok := f_open_ok file write
  rw [insertInit] at h
  split at h
  · exact ⟨.file, insertFile_mounted (by decide) hok hcsize h, fun _ _ he => by cases he⟩
  · split at h
    · have hm := insertCard_mounted h
      cases hentry : findPartition card (partitionOf ext) with
      | none =>
        rw [hentry] at hm
        exact ⟨.wholeCard, hm, fun _ _ he => by cases he⟩
      | some entry =>
        rw [hentry] at hm
        exact ⟨.partition entry.1 entry.2, hm, fun _ _ he => by cases he; rfl⟩
    · split at h
      · exact ⟨.file, insertFile_mounted (by decide) hok hcsize h, fun _ _ he => by cases he⟩
      · exact absurd h (by simp)

end FileIO.Drv08
