import ReplayFirmware.Flash.Upload

/-! `FLASH_RebootAndFlash`: the FPGA is restarted, the DRAM is cleared, a notice is drawn, the image
    is uploaded, read back, and flashed.

    The model starts when the FPGA is up, with whatever the DRAM holds then; the pins, the video
    setup and the OSD touch neither the DRAM nor the statics. Where the function hands over to
    `FlashAndReset` the model stops with the arguments of that call. Whether the image in the DRAM is
    the verified one then depends on the memory channel alone: neither the transfers nor the read-back
    hold the function up. -/

namespace Flash
open FatFs FileIO MCh

/-- `DRAMbase` -/
def dramBase : UInt32 := 0x00400000

/-! ### The screen -/

/-- One page of zeros goes out. -/
def clearPage (ch : Channel) (m : Dram) (i : ℕ) : Dram :=
  (bufToMem ch (List.replicate 256 0) (dramBase + (256 * i).toUInt32) m).2

/-- The 1 MB at `DRAMbase` is cleared, 256 bytes at a time. -/
def clearDram (ch : Channel) (m : Dram) : Dram := (List.range 4096).foldl (clearPage ch) m

/-- The tile buffer of `RenderChar`, 12 chunks of 512 bytes. -/
abbrev Tile := ℕ → UInt8

/-- Chunk `i` of the tile. -/
def Tile.chunk (tile : Tile) (i : ℕ) : List UInt8 := (List.range 512).map fun k => tile (512 * i + k)

/-- A chunk is read in from the DRAM. -/
def Tile.read (ch : Channel) (addr : UInt32) (r : Tile × Dram) (i : ℕ) : Tile × Dram :=
  let (_, bs, m) := memToBuf ch (r.1.chunk i) (addr + (512 * i).toUInt32) r.2
  (fun k => if 512 * i ≤ k ∧ k < 512 * i + 512 then bs.getD (k - 512 * i) 0 else r.1 k, m)

/-- A chunk is written back. -/
def Tile.write (ch : Channel) (addr : UInt32) (tile : Tile) (m : Dram) (i : ℕ) : Dram :=
  (bufToMem ch (tile.chunk i) (addr + (512 * i).toUInt32) m).2

/-- The eight rows of the character, 720 bytes apart. -/
def Tile.draw (map : ℕ → UInt8) (tile : Tile) : Tile := fun k =>
  let u := k % 720
  let v := k / 720
  if u < 8 ∧ v < 8 then (if map v &&& (1 <<< u.toUInt8) ≠ 0 then 0xFF else 0x00) else tile k

/-- `RenderChar`, with `tile` what the buffer holds at entry. -/
def renderChar (ch : Channel) (font8x8_basic : UInt8 → ℕ → UInt8) (tile : Tile) (addr : UInt32)
    (c : UInt8) (m : Dram) : Dram :=
  if 128 < c then m
  else
    let (tile, m) := (List.range 12).foldl (Tile.read ch addr) (tile, m)
    (List.range 12).foldl (Tile.write ch addr (tile.draw (font8x8_basic c))) m

/-- The character loop of `RenderText`. -/
def renderText (ch : Channel) (font8x8_basic : UInt8 → ℕ → UInt8) (tile : Tile) :
    List UInt8 → UInt32 → Dram → Dram
  | [], _, m => m
  | c :: str, addr, m =>
    renderText ch font8x8_basic tile str (addr + 8) (renderChar ch font8x8_basic tile addr c m)

/-- "Flashing... Please wait!" -/
def notice : List UInt8 := "Flashing... Please wait!".toList.map fun c => c.toNat.toUInt8

/-! ### The function -/

/-- The loop of `VerifyDRAMContents`, with `line` its buffer. -/
def verifyDramLoop (ch : Channel) : ℕ → UInt32 → UInt32 → List UInt8 → Statics → Statics
  | 0, _, _, _, s => s
  | fuel + 1, address, size, line, s =>
    if size = 0 then s
    else
      let len := if 256 ≤ size then 256 else size
      let (_, bs, m) := memToBuf ch (line.take len.toNat) address s.dram
      verifyDramLoop ch fuel (address + len) (size - len) (bs ++ line.drop len.toNat)
        { s with dram := m, crc := feedCrc32 s.crc bs }

/-- `VerifyDRAMContents`: the two CRCs are printed, and the result is zero. -/
def verifyDramContents (ch : Channel) (address size _crc32 : UInt32) (line : List UInt8)
    (s : Statics) : UInt8 × Statics :=
  (0, verifyDramLoop ch size.toNat address size line { s with crc := crcInit })

/-- How `FLASH_RebootAndFlash` ends: with a result, or in `FlashAndReset`. -/
inductive Reboot where
  | returns (rc : UInt8) (s : Statics)
  | flashes (base dram length : UInt32) (s : Statics)

/-- What the model does not fix: the result of `FPGA_Default`, the font, and the stack buffers. -/
structure Board where
  fpgaDefault : UInt8
  font8x8_basic : UInt8 → ℕ → UInt8
  tile : Tile
  dramLine : List UInt8

/-- Up to the upload: the screen is cleared and the notice drawn. -/
def prepareScreen (ch : Channel) (board : Board) (m : Dram) : Dram :=
  renderText ch board.font8x8_basic board.tile notice
    (dramBase + (30 + 720 * (30 + (576 - 480)))) (clearDram ch m)

/-- `FLASH_RebootAndFlash` -/
def rebootAndFlash (ch : Channel) (board : Board) (file : Option File) (line : Line) (s : Statics) :
    Option Reboot :=
  if board.fpgaDefault ≠ 0 then some (.returns 0 s)
  else
    match uploadPass ch file line { s with dram := prepareScreen ch board s.dram } with
    | none => none
    | some (ret, s) =>
      if ret ≠ 0 then some (.returns 0 s)
      else
        let (_, s) := verifyDramContents ch dramUpload s.s_FlashSize s.s_FlashCRC32 board.dramLine s
        some (.flashes appBase dramUpload s.s_FlashSize s)

/-- The first `n` bytes the DRAM holds at `DRAMupload`. -/
def dramImage (m : Dram) (n : ℕ) : List UInt8 :=
  (List.range n).map fun i => m.mem (dramUpload + i.toUInt32)

/-- The image is flashed only when it has the CRC the verifier found. -/
def FlashesVerified (ch : Channel) (board : Board) (file : Option File) (line : Line) (s : Statics) :
    Prop :=
  ∀ base dram length s', rebootAndFlash ch board file line s = some (.flashes base dram length s') →
    crc32 (dramImage s'.dram s'.s_FlashSize.toNat) = s'.s_FlashCRC32

/-! ### Two channels that differ in one cell -/

/-- Everything arrives but the first byte of the image, which is stored as `x`; reads give zero. -/
def stuckAt (x : UInt8) : Channel :=
  { Channel.faithful with
    store := fun _ a _ sent => if a = dramUpload then x else sent
    load := fun _ _ _ => 0 }

variable {x y : UInt8}

/-- Alike but for the memory cell at `DRAMupload`. -/
def Alike (m n : Dram) : Prop :=
  m.sent = n.sent ∧ m.got = n.got ∧ ∀ a, a ≠ dramUpload → m.mem a = n.mem a

/-- What the two channels put into that cell. -/
def Stuck (x y : UInt8) (m n : Dram) : Prop := m.mem dramUpload = x ∧ n.mem dramUpload = y

theorem Alike.bufToMem {m n : Dram} (h : Alike m n) (bs : List UInt8) (base : UInt32) :
    Alike (bufToMem (stuckAt x) bs base m).2 (bufToMem (stuckAt y) bs base n).2 := by
  obtain ⟨hsent, hgot, hmem⟩ := h
  refine ⟨by simp [hsent], hgot, fun a ha => ?_⟩
  simp [MCh.bufToMem, stored, stuckAt, Channel.faithful, ha, hmem a ha]

/-- A transfer leaves the cell stuck, or gets it stuck when it covers the cell. -/
theorem Stuck.bufToMem {m n : Dram} {bs : List UInt8} {base : UInt32}
    (h : Stuck x y m n ∨ (dramUpload - base).toNat < (bs.take memBufSize).length) :
    Stuck x y (bufToMem (stuckAt x) bs base m).2 (bufToMem (stuckAt y) bs base n).2 := by
  simp only [Stuck, MCh.bufToMem, stored, stuckAt, Channel.faithful,
    Bool.false_eq_true, if_false, if_true]
  by_cases hin : (dramUpload - base).toNat < (bs.take memBufSize).length
  · simp only [if_pos hin, and_self]
  · simpa only [if_neg hin, Stuck] using h.resolve_right hin

/-- Two DRAMs after the cell got stuck. -/
def TwinDram (x y : UInt8) (m n : Dram) : Prop := Alike m n ∧ Stuck x y m n

theorem TwinDram.bufToMem {m n : Dram} (h : TwinDram x y m n) (bs : List UInt8) (base : UInt32) :
    TwinDram x y (bufToMem (stuckAt x) bs base m).2 (bufToMem (stuckAt y) bs base n).2 :=
  ⟨h.1.bufToMem bs base, Stuck.bufToMem (.inl h.2)⟩

theorem TwinDram.memToBuf {m n : Dram} (h : TwinDram x y m n) (bs : List UInt8) (base : UInt32) :
    (memToBuf (stuckAt x) bs base m).2.1 = (memToBuf (stuckAt y) bs base n).2.1 ∧
      TwinDram x y (memToBuf (stuckAt x) bs base m).2.2 (memToBuf (stuckAt y) bs base n).2.2 := by
  obtain ⟨⟨hsent, hgot, hmem⟩, hstuck⟩ := h
  refine ⟨by simp [MCh.memToBuf, stuckAt, Channel.faithful], ⟨by simp [hsent], ?_, ?_⟩, ?_⟩
  · simp [MCh.memToBuf, stuckAt, Channel.faithful, hgot]
  · simpa using hmem
  · simpa [Stuck] using hstuck

/-- The statics agree in everything but the DRAM, and that but for one cell. -/
def Twin (x y : UInt8) (s t : Statics) : Prop :=
  { s with dram := t.dram } = t ∧ TwinDram x y s.dram t.dram

/-- A twin is the same statics with another DRAM. -/
theorem Twin.eq {s t : Statics} (h : Twin x y s t) :
    ∃ m, t = { s with dram := m } ∧ TwinDram x y s.dram m := ⟨t.dram, h.1.symm, h.2⟩

/-! ### The upload through either channel -/

theorem twin_upload {s t : Statics} (h : Twin x y s t) :
    Twin x y (uploadToDRAM (stuckAt x) s) (uploadToDRAM (stuckAt y) t) := by
  obtain ⟨m, rfl, hm⟩ := h.eq
  exact ⟨rfl, hm.bufToMem _ _⟩

theorem twin_putByte {s t : Statics} (h : Twin x y s t) (b : UInt8) :
    Twin x y (putByte (uploadToDRAM (stuckAt x)) b s) (putByte (uploadToDRAM (stuckAt y)) b t) := by
  obtain ⟨m, rfl, hm⟩ := h.eq
  unfold putByte
  simp only
  split
  · exact ⟨rfl, hm.bufToMem _ _⟩
  · exact ⟨rfl, hm⟩

theorem twin_fillLoop (addr : UInt32) (value : UInt8) : ∀ (fuel : ℕ) (s t : Statics), Twin x y s t →
    Option.Rel (Twin x y) (fillLoop (uploadToDRAM (stuckAt x)) addr value fuel s)
      (fillLoop (uploadToDRAM (stuckAt y)) addr value fuel t)
  | 0, _, _, _ => .none
  | fuel + 1, s, t, h => by
    have haddr : t.srecCurrentAddr = s.srecCurrentAddr := by rw [← h.1]
    rw [fillLoop, fillLoop, haddr]
    split
    · exact twin_fillLoop addr value fuel _ _ (twin_putByte h _)
    · exact .some h

theorem twin_lockstep :
    Lockstep (uploadHandler (stuckAt x)) (uploadHandler (stuckAt y)) (Twin x y)
      (Twin x y) where
  data type base i len v s t h7 h := by
    unfold uploadHandler
    by_cases h0 : type = 0
    · rw [if_pos h0, if_pos h0]; exact .some ⟨rfl, h⟩
    · rw [if_neg h0, if_neg h0, if_neg h7, if_neg h7]
      have haddr : t.srecCurrentAddr = s.srecCurrentAddr := by rw [← h.1]
      have hloop := twin_fillLoop (base + i) v (2 ^ 32 + 1) s t h
      unfold dataByte
      simp only [haddr]
      split
      · exact .some ⟨rfl, h⟩
      · generalize fillLoop (uploadToDRAM (stuckAt x)) _ v _ s = p at hloop
        generalize fillLoop (uploadToDRAM (stuckAt y)) _ v _ t = q at hloop
        cases hloop with
        | none => exact .none
        | some hpq => exact .some ⟨rfl, hpq⟩
  term base s t h := by
    have haddr : t.srecCurrentAddr = s.srecCurrentAddr := by rw [← h.1]
    have hflush := twin_upload h
    refine .some ⟨rfl, ?_⟩
    unfold flushRest
    rw [haddr]
    split
    · obtain ⟨m, hm, hd⟩ := hflush.eq
      rw [hm]; exact ⟨rfl, hd⟩
    · exact h

/-! ### The rest of the function through either channel -/

theorem alike_clearPage {m n : Dram} (h : Alike m n) (i : ℕ) :
    Alike (clearPage (stuckAt x) m i) (clearPage (stuckAt y) n i) := h.bufToMem _ _

/-- Page 540 of the cleared megabyte covers the cell. -/
theorem stuck_clearPage {m n : Dram} {i : ℕ} (h : Stuck x y m n ∨ i = 540) :
    Stuck x y (clearPage (stuckAt x) m i) (clearPage (stuckAt y) n i) := by
  rcases h with h | rfl
  · exact Stuck.bufToMem (.inl h)
  · refine Stuck.bufToMem (.inr ?_)
    rw [List.length_take, List.length_replicate]
    decide

theorem twin_clearPages : ∀ (l : List ℕ) (m n : Dram), Alike m n → (Stuck x y m n ∨ 540 ∈ l) →
    TwinDram x y (l.foldl (clearPage (stuckAt x)) m) (l.foldl (clearPage (stuckAt y)) n)
  | [], _, _, hal, hst => ⟨hal, hst.resolve_right (by simp)⟩
  | i :: l, m, n, hal, hst => by
    rw [List.foldl_cons, List.foldl_cons]
    refine twin_clearPages l _ _ (alike_clearPage hal i) ?_
    by_cases hi : i = 540
    · exact .inl (stuck_clearPage (.inr hi))
    · exact hst.imp (fun h => stuck_clearPage (.inl h))
        (fun h => (List.mem_cons.mp h).resolve_left (Ne.symm hi))

theorem twin_read (addr : UInt32) : ∀ (l : List ℕ) (tile : Tile) (m n : Dram),
    TwinDram x y m n →
    (l.foldl (Tile.read (stuckAt x) addr) (tile, m)).1
        = (l.foldl (Tile.read (stuckAt y) addr) (tile, n)).1 ∧
      TwinDram x y (l.foldl (Tile.read (stuckAt x) addr) (tile, m)).2
        (l.foldl (Tile.read (stuckAt y) addr) (tile, n)).2
  | [], _, _, _, h => ⟨rfl, h⟩
  | i :: l, tile, m, n, h => by
    obtain ⟨hbs, htwin⟩ := h.memToBuf (tile.chunk i) (addr + (512 * i).toUInt32)
    simp only [List.foldl_cons, Tile.read, hbs]
    exact twin_read addr l _ _ _ htwin

theorem twin_write (addr : UInt32) (tile : Tile) : ∀ (l : List ℕ) (m n : Dram),
    TwinDram x y m n →
    TwinDram x y (l.foldl (Tile.write (stuckAt x) addr tile) m)
      (l.foldl (Tile.write (stuckAt y) addr tile) n)
  | [], _, _, h => h
  | i :: l, m, n, h => by
    have hi : TwinDram x y (Tile.write (stuckAt x) addr tile m i)
        (Tile.write (stuckAt y) addr tile n i) :=
      h.bufToMem (tile.chunk i) (addr + (512 * i).toUInt32)
    rw [List.foldl_cons, List.foldl_cons]
    exact twin_write addr tile l _ _ hi

theorem twin_renderChar (font : UInt8 → ℕ → UInt8) (tile : Tile) (addr : UInt32) (c : UInt8)
    {m n : Dram} (h : TwinDram x y m n) :
    TwinDram x y (renderChar (stuckAt x) font tile addr c m)
      (renderChar (stuckAt y) font tile addr c n) := by
  unfold renderChar
  split
  · exact h
  · obtain ⟨htile, htwin⟩ := twin_read addr (List.range 12) tile m n h
    simp only [htile]
    exact twin_write addr _ (List.range 12) _ _ htwin

theorem twin_renderText (font : UInt8 → ℕ → UInt8) (tile : Tile) : ∀ (str : List UInt8)
    (addr : UInt32) (m n : Dram), TwinDram x y m n →
    TwinDram x y (renderText (stuckAt x) font tile str addr m)
      (renderText (stuckAt y) font tile str addr n)
  | [], _, _, _, h => h
  | c :: str, addr, m, n, h => by
    have hc := twin_renderChar font tile addr c h
    exact twin_renderText font tile str (addr + 8) _ _ hc

theorem twin_prepareScreen (board : Board) (m : Dram) :
    TwinDram x y (prepareScreen (stuckAt x) board m) (prepareScreen (stuckAt y) board m) := by
  have hclear : TwinDram x y (clearDram (stuckAt x) m) (clearDram (stuckAt y) m) :=
    twin_clearPages (List.range 4096) m m ⟨rfl, rfl, fun _ _ => rfl⟩
      (.inr (List.mem_range.mpr (by omega)))
  exact twin_renderText _ _ notice _ _ _ hclear

theorem twin_uploadPass (file : Option File) (line : Line) (s : Statics) {m n : Dram}
    (h : TwinDram x y m n) :
    Option.Rel (fun p q => p.1 = q.1 ∧ Twin x y p.2 q.2)
      (uploadPass (stuckAt x) file line { s with dram := m })
      (uploadPass (stuckAt y) file line { s with dram := n }) := by
  have hstart : Twin x y
      { s with dram := m, srecLineBuffer := fun _ => 0, srecCurrentAddr := appBase
               dramBaseAddr := dramUpload }
      { s with dram := n, srecLineBuffer := fun _ => 0, srecCurrentAddr := appBase
               dramBaseAddr := dramUpload } := ⟨rfl, h⟩
  have hlock := twin_lockstep.parseSRecords file line hstart
  simp only [or_self] at hlock
  exact hlock

/-! ### Reaching the flash -/

/-- The read-back leaves the memory and the verifier's findings alone. -/
theorem verifyDramLoop_kept (ch : Channel) : ∀ (fuel : ℕ) (address size : UInt32)
    (line : List UInt8) (s : Statics),
    (verifyDramLoop ch fuel address size line s).dram.mem = s.dram.mem ∧
      (verifyDramLoop ch fuel address size line s).s_FlashSize = s.s_FlashSize ∧
      (verifyDramLoop ch fuel address size line s).s_FlashCRC32 = s.s_FlashCRC32
  | 0, _, _, _, _ => ⟨rfl, rfl, rfl⟩
  | fuel + 1, address, size, line, s => by
    rw [verifyDramLoop]
    split
    · exact ⟨rfl, rfl, rfl⟩
    · obtain ⟨hmem, hsize, hcrc⟩ := verifyDramLoop_kept ch fuel _ _ _ _
      exact ⟨hmem.trans (memToBuf_mem _ _ _ _), hsize, hcrc⟩

/-- An upload that ends without an error is flashed, whatever the channel did. -/
theorem rebootAndFlash_of_upload {ch : Channel} {board : Board} {file : Option File} {line : Line}
    {s s1 : Statics} (hfpga : board.fpgaDefault = 0)
    (hup : uploadPass ch file line { s with dram := prepareScreen ch board s.dram } = some (0, s1)) :
    ∃ s', rebootAndFlash ch board file line s
        = some (.flashes appBase dramUpload s1.s_FlashSize s') ∧
      s'.dram.mem = s1.dram.mem ∧ s'.s_FlashSize = s1.s_FlashSize ∧
      s'.s_FlashCRC32 = s1.s_FlashCRC32 := by
  obtain ⟨hmem, hsize, hcrc⟩ := verifyDramLoop_kept ch s1.s_FlashSize.toNat dramUpload
    s1.s_FlashSize board.dramLine { s1 with crc := crcInit }
  refine ⟨verifyDramLoop ch s1.s_FlashSize.toNat dramUpload s1.s_FlashSize board.dramLine
    { s1 with crc := crcInit }, ?_, hmem, hsize, hcrc⟩
  rw [rebootAndFlash, if_neg (not_not.mpr hfpga), hup]
  simp only [ne_eq, not_true_eq_false, if_false, verifyDramContents, hsize]

/-- The flash is reached exactly when the FPGA came up and the file reads without an error. -/
theorem flashes_account {ch : Channel} {board : Board} {file : Option File} {line : Line}
    {s s' : Statics} {base dram length : UInt32}
    (h : rebootAndFlash ch board file line s = some (.flashes base dram length s')) :
    board.fpgaDefault = 0 ∧ (∃ a, reading file line = some (0, a)) ∧
      s'.s_FlashSize = s.s_FlashSize ∧ s'.s_FlashCRC32 = s.s_FlashCRC32 := by
  have hacc := uploadPass_account ch file line { s with dram := prepareScreen ch board s.dram }
  unfold rebootAndFlash at h
  by_cases hfpga : board.fpgaDefault = 0
  · rw [if_neg (not_not.mpr hfpga)] at h
    generalize uploadPass ch file line { s with dram := prepareScreen ch board s.dram } = u
      at h hacc
    generalize reading file line = r at hacc
    cases hacc with
    | none => exact absurd h (by simp)
    | @some p q hpq =>
      obtain ⟨rv, s1⟩ := p
      obtain ⟨hrv, hsent⟩ := hpq
      by_cases h0 : rv = 0
      · obtain ⟨hmem, hsize, hcrc⟩ := verifyDramLoop_kept ch s1.s_FlashSize.toNat dramUpload
          s1.s_FlashSize board.dramLine { s1 with crc := crcInit }
        simp only [h0, ne_eq, not_true_eq_false, if_false, verifyDramContents, Option.some.injEq,
          Reboot.flashes.injEq] at h
        obtain ⟨_, _, _, rfl⟩ := h
        refine ⟨hfpga, ⟨q.2, ?_⟩, hsize.trans hsent.size, hcrc.trans hsent.crc⟩
        rw [← h0, show rv = q.1 from hrv]
      · simp [h0] at h
  · rw [if_pos hfpga] at h
    exact absurd h (by simp)

/-- Both channels bring a readable file to the flash, with DRAMs that differ in the first byte of the
    image. -/
theorem twin_flashes (x y : UInt8) {board : Board} {file : Option File} {line : Line} (s : Statics)
    {a : Reading} (hfpga : board.fpgaDefault = 0) (hread : reading file line = some (0, a)) :
    ∃ length s' length' t',
      rebootAndFlash (stuckAt x) board file line s
        = some (.flashes appBase dramUpload length s') ∧
      rebootAndFlash (stuckAt y) board file line s
        = some (.flashes appBase dramUpload length' t') ∧
      s'.dram.mem dramUpload = x ∧ t'.dram.mem dramUpload = y ∧
      ∀ a, a ≠ dramUpload → s'.dram.mem a = t'.dram.mem a := by
  have hacc := uploadPass_account (stuckAt x) file line
    { s with dram := prepareScreen (stuckAt x) board s.dram }
  have hscreen : TwinDram x y _ _ := twin_prepareScreen board s.dram
  have htwin := twin_uploadPass file line s hscreen
  rw [hread] at hacc
  generalize hx : uploadPass (stuckAt x) file line
    { s with dram := prepareScreen (stuckAt x) board s.dram } = u at hacc htwin
  generalize hy : uploadPass (stuckAt y) file line
    { s with dram := prepareScreen (stuckAt y) board s.dram } = v at htwin
  cases hacc with
  | @some p _ hp =>
    cases htwin with
    | @some _ q hpq =>
      obtain ⟨rv, s1⟩ := p
      obtain ⟨rv', t1⟩ := q
      obtain ⟨hrv, _, ⟨_, _, hmem⟩, hstuck⟩ := hpq
      obtain ⟨h0, _⟩ := hp
      simp only at hrv h0
      subst hrv h0
      obtain ⟨s', hs', hsm, _⟩ := rebootAndFlash_of_upload hfpga hx
      obtain ⟨t', ht', htm, _⟩ := rebootAndFlash_of_upload hfpga hy
      exact ⟨_, s', _, t', hs', ht', by rw [hsm]; exact hstuck.1, by rw [htm]; exact hstuck.2,
        fun a ha => by rw [hsm, htm]; exact hmem a ha⟩

@[simp] theorem dramImage_zero (m : Dram) : dramImage m 0 = [] := rfl

/-- Past its first byte an image lies in other cells. -/
theorem dramImage_succ (m : Dram) (n : ℕ) : dramImage m (n + 1)
    = m.mem dramUpload :: (List.range n).map fun i => m.mem (dramUpload + (i + 1).toUInt32) := by
  rw [dramImage, List.range_succ_eq_map, List.map_cons, List.map_map]
  rfl

theorem dramUpload_add_ne {i : ℕ} (hi : i + 1 < 2 ^ 32) :
    dramUpload + (i + 1).toUInt32 ≠ dramUpload := by
  intro h
  have := congrArg UInt32.toNat h
  rw [UInt32.toNat_add, show dramUpload.toNat = 4332544 from rfl, Nat.toUInt32,
    UInt32.toNat_ofNat'] at this
  omega

/-- Whatever the memory channel does, only a verified image is flashed: this is so exactly when the
    flash is not reached (the FPGA does not come up, or the file does not read without an error), or
    the image to be flashed is empty and has the CRC of an empty image. -/
theorem flashesVerified_iff (board : Board) (file : Option File) (line : Line) (s : Statics) :
    (∀ ch, FlashesVerified ch board file line s) ↔
      board.fpgaDefault ≠ 0 ∨ (∀ a, reading file line ≠ some (0, a)) ∨
        (s.s_FlashSize = 0 ∧ s.s_FlashCRC32 = 0) := by
  constructor
  · intro h
    by_contra hcon
    push Not at hcon
    obtain ⟨hfpga, ⟨a, hread⟩, hstat⟩ := hcon
    obtain ⟨l, s', l', t', hs', ht', hx, hy, hmem⟩ := twin_flashes 0 1 s hfpga hread
    have hcs := h (stuckAt 0) _ _ _ _ hs'
    have hct := h (stuckAt 1) _ _ _ _ ht'
    obtain ⟨_, _, hssize, hscrc⟩ := flashes_account hs'
    obtain ⟨_, _, htsize, htcrc⟩ := flashes_account ht'
    rw [hssize, hscrc] at hcs
    rw [htsize, htcrc] at hct
    cases hn : s.s_FlashSize.toNat with
    | zero =>
      -- an empty image has the CRC zero
      rw [hn, dramImage_zero, crc32_nil] at hcs
      exact hstat (UInt32.toNat_inj.mp hn) hcs.symm
    | succ n =>
      -- one cell of the image differs, and with it the CRC
      have hlt := s.s_FlashSize.toNat_lt
      rw [hn, dramImage_succ, hx] at hcs
      rw [hn, dramImage_succ, hy] at hct
      have hrest : (List.range n).map (fun i => s'.dram.mem (dramUpload + (i + 1).toUInt32))
          = (List.range n).map fun i => t'.dram.mem (dramUpload + (i + 1).toUInt32) :=
        List.map_congr_left fun i hi => hmem _ (dramUpload_add_ne (by
          have := List.mem_range.mp hi; omega))
      rw [hrest] at hcs
      exact absurd (crc32_cons_injective _ (hcs.trans hct.symm)) (by decide)
  · rintro (hfpga | hread | ⟨hsize, hcrc⟩) ch base dram length s' hrun
    · exact absurd (flashes_account hrun).1 hfpga
    · obtain ⟨a, ha⟩ := (flashes_account hrun).2.1
      exact absurd ha (hread a)
    · obtain ⟨_, _, hs, hc⟩ := flashes_account hrun
      rw [hs, hc, hsize, hcrc, UInt32.toNat_zero, dramImage_zero, crc32_nil]

/-- A header and one byte of data, 0xAA at the start of the application. -/
def oneByteFile : File := textFile "S004000041BA\nS30600102000AA1F\nS70500102000CA\n"

theorem oneByteFile_reading : reading (some oneByteFile) (fun _ => 0)
    = some (0, { img := [0xAA], seen := [0xAA], reset := some 0, ended := true
                 length_seen := rfl }) := rfl

/-- A board whose FPGA comes up. -/
def Board.up : Board :=
  { fpgaDefault := 0, font8x8_basic := fun _ _ => 0, tile := fun _ => 0
    dramLine := List.replicate 256 0 }

/-- The file is verified, its byte is stored as zero, and the flash is reached. -/
theorem oneByteFile_flashed :
    ∃ crcs s', verifySRecords (some oneByteFile) (fun _ => 0) (fun _ => 0) .boot
        = some (1, crcs, s') ∧
      ¬ FlashesVerified (stuckAt 0) .up (some oneByteFile) (fun _ => 0) s' := by
  obtain ⟨hpass, hacc⟩ := verifySRecords_account (some oneByteFile) (fun _ => 0) (fun _ => 0) .boot
  obtain ⟨crcs, s', hv⟩ := hpass _ oneByteFile_reading
  obtain ⟨a, ha, _, _, hsize, hcrc, _⟩ := hacc crcs s' hv
  rw [oneByteFile_reading] at ha
  simp only [Option.some.injEq, Prod.mk.injEq, true_and] at ha
  subst ha
  refine ⟨crcs, s', hv, fun h => ?_⟩
  obtain ⟨l, t, _, _, ht, _, hx, _⟩ := @twin_flashes 0 0 .up _ _ s' _ rfl oneByteFile_reading
  have hc := h _ _ _ _ ht
  obtain ⟨_, _, htsize, htcrc⟩ := flashes_account ht
  have hone : s'.s_FlashSize.toNat = 1 := by rw [hsize]; rfl
  have hsum : s'.s_FlashCRC32 = crc32 [0xAA] := by rw [hcrc]; rfl
  rw [htsize, htcrc, hone, dramImage_succ, hx, hsum] at hc
  exact absurd (crc32_cons_injective [] hc) (by decide)

end Flash
