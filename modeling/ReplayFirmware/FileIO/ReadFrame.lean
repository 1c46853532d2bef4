import ReplayFirmware.FileIO.Drv02
import ReplayFirmware.Drv08.Read
import ReplayFirmware.Drv08.Write

/-! What reads leave of an image.

    Reads and writes share one file object, and the seek comes before anything is checked: on an image
    that is open for writing, a read from behind its end extends it. A run of reads leaves an image as
    it was when none of them seeks that far. -/

namespace FileIO
open FatFs

/-! ### Seeks -/

/-- A seek that leaves the bytes of a file alone: the file is aborted or not open for writing, or the
    target lies inside it, or its volume has no room to go on. -/
def Stays (fp : FIL) (ofs : ℕ) : Prop :=
  fp.err = true ∨ fp.write = false ∨ ofs ≤ fp.objsize ∨ fp.cap ≤ fp.objsize

theorem Stays.le {fp : FIL} {ofs ofs' : ℕ} (h : Stays fp ofs) (hle : ofs' ≤ ofs) : Stays fp ofs' := by
  rcases h with h | h | h | h
  · exact Or.inl h
  · exact Or.inr (Or.inl h)
  · exact Or.inr (Or.inr (Or.inl (hle.trans h)))
  · exact Or.inr (Or.inr (Or.inr h))

theorem Stays.seek {fp : FIL} {ofs : ℕ} (h : Stays fp ofs) : (FF_Seek fp ofs).2.data = fp.data := by
  rw [FF_Seek]
  split
  · rfl
  · rw [f_lseek_data]
    split
    · rfl
    · next herr =>
      refine FIL.extend_of_le ?_
      rcases h with h | h | h | h
      · exact absurd h herr
      · rw [FIL.target, h]
        by_cases hlt : fp.objsize < ofs
        · rw [if_pos ⟨hlt, rfl⟩]
          exact Nat.min_le_left _ _
        · rw [if_neg fun hf => hlt hf.1]
          exact (Nat.min_le_left _ _).trans (Nat.le_of_not_lt hlt)
      · rw [FIL.target]
        split
        · exact Nat.min_le_left _ _
        · exact (Nat.min_le_left _ _).trans h
      · exact (fp.target_le_cap ofs).trans h

/-- The same file with the same bytes, at another position. -/
structure Still (fp fp' : FIL) : Prop where
  same : SameFile fp fp'
  data : fp'.data = fp.data

theorem Still.refl (fp : FIL) : Still fp fp := ⟨SameFile.refl fp, rfl⟩

theorem Still.trans {fp fp' fp'' : FIL} (h : Still fp fp') (h' : Still fp' fp'') : Still fp fp'' :=
  ⟨h.same.trans h'.same, h'.data.trans h.data⟩

theorem Still.stays {fp fp' : FIL} (h : Still fp fp') {ofs : ℕ} (hs : Stays fp ofs) :
    Stays fp' ofs := by
  have hsize : fp'.objsize = fp.objsize := congrArg List.length h.data
  rw [Stays, h.same.err, h.same.write, hsize, h.same.cap]
  exact hs

theorem Stays.still {fp : FIL} {ofs : ℕ} (h : Stays fp ofs) : Still fp (FF_Seek fp ofs).2 :=
  ⟨(FF_Seek_cases fp ofs).1, h.seek⟩

/-! ### The generic driver and raw tapes -/

section
variable {δ : Type}

theorem transferLoop_data {burst : Bool} {rq : Request} (hdir : dir rq.status = false)
    (stall : ℕ → Bool) (file_size : ℕ) : ∀ (fuel k pos : ℕ) (addr : UInt32) (size : UInt16)
    (t : Drv00.Transfer δ), (Drv00.transferLoop burst rq stall file_size fuel k pos addr size
      t).pDrive.fSource.data = t.pDrive.fSource.data
  | 0, _, _, _, _, _ => rfl
  | fuel + 1, k, pos, addr, size, t => by
    have hpass : ∀ burstable cur_size, (Drv00.readPass t burstable cur_size).pDrive.fSource.data
        = t.pDrive.fSource.data := by
      intro burstable cur_size
      rw [Drv00.readPass_file]
      exact (FF_Read_kept _ _).1
    rw [Drv00.transferLoop]
    simp only [hdir, Bool.false_eq_true, if_false]
    split
    · rfl
    · -- a burst or not, a pass is a read
      repeat' split
      all_goals first
        | exact hpass _ _
        | exact (transferLoop_data hdir stall file_size fuel _ _ _ _ _).trans (hpass _ _)

/-- A read whose seek leaves the file alone leaves it alone. -/
theorem transfer_data {burst : Bool} {rq : Request} (hdir : dir rq.status = false)
    (stall : ℕ → Bool) {t : Drv00.Transfer δ} (h : Stays t.pDrive.fSource (Drv00.reqAddr rq).toNat) :
    (Drv00.transfer burst rq stall t).pDrive.fSource.data = t.pDrive.fSource.data := by
  have hseek := h.seek
  rw [Drv00.transfer]
  generalize FF_Seek t.pDrive.fSource (Drv00.reqAddr rq).toNat = r at hseek
  obtain ⟨res, fp⟩ := r
  rcases res with _ | _ | _
  · simp only
    split <;> exact (transferLoop_data hdir stall _ _ _ _ _ _ _).trans hseek
  · exact hseek
  · exact hseek

end

/-! ### The hard disk driver -/

namespace Drv08

/-- The fill of the index changes the file by seeks alone. -/
theorem foldl_fillIndex_file {P : FIL → Prop} {step ofs : ℕ}
    (hseek : ∀ fp a, a ≤ ofs → P fp → P (FF_Seek fp a).2) :
    ∀ (is : List ℕ) {s : FIL × (ℕ → Option ℕ)}, (∀ i ∈ is, i * step ≤ ofs) → P s.1 →
      P (is.foldl (fillIndex step) s).1
  | [], _, _, h => h
  | i :: is, s, hle, h => by
    refine foldl_fillIndex_file hseek is (fun j hj => hle j (List.mem_cons_of_mem i hj)) ?_
    rw [fillIndex]
    split
    · exact h
    · exact hseek _ _ (hle i List.mem_cons_self) h

/-- The start of an index step does not lie behind the block it is looked up for. -/
theorem indexOf_mul_le {pDesc : Desc} (hs : 16 ≤ pDesc.index_size.toNat)
    (hstep : pDesc.index_size.toNat < 31) (lba : UInt32) :
    indexOf pDesc lba * 2 ^ pDesc.index_size.toNat ≤ 512 * lba.toNat := by
  rw [indexOf_eq_mod hs (by omega)]
  exact (Nat.mul_le_mul_right _ (Nat.mod_le _ _)).trans (Nat.div_mul_le_self _ _)

/-- What moves of the position keep, and seeks up to the block, holds of the file where the seek proper
    begins: the seeks that fill the index do not go further than the block itself. -/
theorem seekStart_file {P : FIL → Prop} {d : Drive} {lba : UInt32}
    (hs : 16 ≤ d.pDesc.index_size.toNat) (hstep : d.pDesc.index_size.toNat < 31)
    (hmove : ∀ fp p c, P fp → P { fp with fptr := p, clust := c })
    (hseek : ∀ fp a, a ≤ 512 * lba.toNat → P fp → P (FF_Seek fp a).2) (h : P d.fSource) :
    P (seekStart d lba).1 := by
  have hmru : P (mruPosition d lba) := by
    rw [mruPosition]
    split
    · exact hmove _ _ _ h
    · exact h
  rw [seekStart, reposition]
  split
  · rw [tableJump]
    simp only
    refine hmove _ _ _ ?_
    split
    · refine foldl_fillIndex_file hseek _ (fun i hi => ?_) hmru
      rw [List.mem_range'_1] at hi
      have hstart := findStart_le d.pDesc.index (indexOf d.pDesc lba)
      exact (Nat.mul_le_mul_right _ (by omega)).trans (indexOf_mul_le hs hstep lba)
    · exact hmru
  · exact hmru

theorem seekStart_still {d : Drive} {lba : UInt32}
    (hs : d.fSource.err = true ∨ 16 ≤ d.pDesc.index_size.toNat)
    (hstep : d.pDesc.index_size.toNat < 31) (h : Stays d.fSource (512 * lba.toNat)) :
    Still d.fSource (seekStart d lba).1 := by
  rcases hs with herr | hs
  · have hsame := seekStart_same d lba
    exact ⟨hsame, hsame.data herr⟩
  · refine @seekStart_file (Still d.fSource) d lba hs hstep ?_ ?_ (Still.refl _)
    · rintro fp p c ⟨⟨h1, h2, h3, h4, h5⟩, h6⟩
      exact ⟨⟨h1, h2, h3, h4, h5⟩, h6⟩
    · intro fp a ha hfp
      exact hfp.trans (hfp.stays (h.le ha)).still

/-- A read has kept the bytes of the file and the kind of the unit; an aborted file stays so. -/
structure Unread (d d' : Drive) : Prop where
  data : d'.fSource.data = d.fSource.data
  format : d'.pDesc.format = d.pDesc.format
  index_size : d'.pDesc.index_size = d.pDesc.index_size
  err : d.fSource.err = true → d'.fSource.err = true

theorem Unread.refl (d : Drive) : Unread d d := ⟨rfl, rfl, rfl, id⟩

theorem Unread.trans {d d' d'' : Drive} (h : Unread d d') (h' : Unread d' d'') : Unread d d'' :=
  ⟨h'.data.trans h.data, h'.format.trans h.format, h'.index_size.trans h.index_size,
    fun he => h'.err (h.err he)⟩

theorem sendBlocks_unread {d : Drive} {x : Xfer} (h : Unread d x.drive) (n : ℕ) :
    Unread d (sendBlocks x n).2.drive := by
  rw [sendBlocks]
  simp only
  split
  · exact h
  · split
    · exact h
    · refine h.trans ⟨(FF_Read_kept _ _).1, rfl, rfl, fun he => ?_⟩
      show (FF_Read x.drive.fSource (512 * n)).2.err = true
      rw [FF_Read, f_read, if_pos he]
      exact he

theorem readSectorsLoop_unread (tfr : TaskFile) {d : Drive} : ∀ (n : ℕ) {x : Xfer},
    Unread d x.drive → Unread d (readSectorsLoop tfr n x).drive
  | 0, _, h => h
  | n + 1, x, h => by
    rw [readSectorsLoop]
    split <;> exact readSectorsLoop_unread tfr n (sendBlocks_unread (by exact h) 1)

theorem readBurst_unread {d : Drive} : ∀ (fuel n : ℕ) {x : Xfer},
    Unread d x.drive → Unread d (readBurst fuel n x).drive
  | 0, _, _, h => h
  | fuel + 1, n, x, h => by
    rw [readBurst]
    split
    · exact h
    · exact readBurst_unread fuel _ (sendBlocks_unread h _)

theorem readMultipleLoop_unread (tfr : TaskFile) {d : Drive} : ∀ (fuel n : ℕ) {x : Xfer},
    Unread d x.drive → Unread d (readMultipleLoop tfr fuel n x).drive
  | 0, _, _, h => h
  | fuel + 1, n, x, h => by
    rw [readMultipleLoop]
    split
    · exact h
    · exact readMultipleLoop_unread tfr fuel _ (readBurst_unread _ _ h)

/-- A read command that leaves the image alone: there is none, or the command is refused, or its first
    block has an entry in the index and the seek to it leaves the file alone. -/
def ReadStays (d : Drive) (tfr : TaskFile) : Prop :=
  let lba := lbaNaked d.pDesc (getParams tfr d.pDesc).lba
  d.pDesc.format = .MMC ∨ (tfr 7 = 0xC4 ∧ d.pDesc.sectors_per_block = 0) ∨
    Indexed d.pDesc lba ∧ Stays d.fSource (512 * (fileLba d.pDesc lba).toNat)

/-- The seek of a read. -/
theorem hardFileSeek_unread {d : Drive} {lba : UInt32}
    (hs : d.pDesc.format = .MMC ∨ d.fSource.err = true ∨ 16 ≤ d.pDesc.index_size.toNat)
    (h : d.pDesc.format = .MMC ∨
      Indexed d.pDesc lba ∧ Stays d.fSource (512 * (fileLba d.pDesc lba).toNat)) :
    ∃ good d', hardFileSeek d lba = some (good, d') ∧ Unread d d' := by
  by_cases hmmc : d.pDesc.format = .MMC
  · refine ⟨true, d, ?_, Unread.refl d⟩
    rw [hardFileSeek]
    simp only
    rw [if_pos hmmc]
  · by_cases hlow : d.pDesc.format = .HDF_NAKED ∧ lba < d.pDesc.lba_offset
    · refine ⟨false, d, ?_, Unread.refl d⟩
      rw [hardFileSeek]
      simp only
      rw [if_neg hmmc, if_pos hlow]
    · obtain ⟨hi, hstays⟩ := h.resolve_left hmmc
      obtain ⟨index, mru_lba, mru_cluster, hrun⟩ := hardFileSeek_run hmmc hlow hi
      have hstart := seekStart_still (hs.resolve_left hmmc) hi.2 hstays
      have hstill := hstart.trans (hstart.stays hstays).still
      exact ⟨_, _, hrun, hstill.data, rfl, rfl, fun he => hstill.same.err.trans he⟩

/-- A read command that leaves the image alone. -/
theorem ataRead_unread (card : Card) (fifo : ℕ → UInt8) {d : Drive} {tfr : TaskFile}
    (hcmd : tfr 7 = 0x20 ∨ tfr 7 = 0xC4)
    (hs : d.pDesc.format = .MMC ∨ d.fSource.err = true ∨ 16 ≤ d.pDesc.index_size.toNat)
    (h : ReadStays d tfr) :
    ∃ done, ataCommand card d tfr fifo = some done ∧ Unread d done.drive := by
  have htransfer : ∀ (outs : List FChOut) (loop : ℕ → Xfer → Xfer),
      ¬(tfr 7 = 0xC4 ∧ d.pDesc.sectors_per_block = 0) →
      (∀ n x, Unread d x.drive → Unread d (loop n x).drive) →
      ∃ done, readTransfer card d tfr outs loop = some done ∧ Unread d done.drive := by
    intro outs loop hset hloop
    have hseek : d.pDesc.format = .MMC ∨ Indexed d.pDesc (lbaNaked d.pDesc (getParams tfr d.pDesc).lba) ∧
        Stays d.fSource
          (512 * (fileLba d.pDesc (lbaNaked d.pDesc (getParams tfr d.pDesc).lba)).toNat) := by
      rcases h with h | h | h
      · exact Or.inl h
      · exact absurd h hset
      · exact Or.inr h
    obtain ⟨good, d', hrun, hd'⟩ := hardFileSeek_unread hs hseek
    rw [readTransfer, hrun]
    cases good with
    | false => exact ⟨_, rfl, hd'⟩
    | true => exact ⟨_, rfl, hloop _ _ hd'⟩
  rcases hcmd with hc | hc
  · rw [ataCommand_readSectors hc, readSectors]
    refine htransfer _ _ (fun hf => ?_) fun n x => readSectorsLoop_unread tfr n
    rw [hc] at hf
    exact absurd hf.1 (by decide)
  · rw [ataCommand_readMultiple hc, readMultiple]
    by_cases hspb : d.pDesc.sectors_per_block = 0
    · rw [if_pos hspb]
      exact ⟨_, rfl, Unread.refl d⟩
    · rw [if_neg hspb]
      exact htransfer _ _ (fun hf => hspb hf.2) fun n x => readMultipleLoop_unread tfr n n

end Drv08

/-! ### Runs of reads -/

/-- A mounted image, under its driver. -/
inductive Image where
  | generic (d : Fch Drv00.Desc)
  | tape (d : Fch Drv02.Desc)
  | disk (d : Drv08.Drive)

def Image.file : Image → FIL
  | generic d => d.fSource
  | tape d => d.fSource
  | disk d => d.fSource

/-- What comes with a read: the request and its time-outs, or the task file; and the buffer. -/
structure ReadRequest where
  rq : Request
  stall : ℕ → Bool
  fbuf : ℕ → UInt8
  tfr : Drv08.TaskFile

/-- The request is a read, to the driver of the image. -/
def ReadRequest.IsRead (r : ReadRequest) : Image → Prop
  | .disk _ => r.tfr 7 = 0x20 ∨ r.tfr 7 = 0xC4
  | _ => dir r.rq.status = false

/-- The image after a read; `none` where the driver goes astray. -/
def Image.read (card : Card) (r : ReadRequest) : Image → Option Image
  | generic d => some (generic (Drv00.request r.rq r.stall
      { pDrive := d, fbuf := r.fbuf, outs := [], stopped := false }).pDrive)
  | tape d => some (tape (Drv02.request r.rq r.stall
      { pDrive := d, fbuf := r.fbuf, outs := [], stopped := false }).pDrive)
  | disk d => (Drv08.ataCommand card d r.tfr r.rq.fifo).map fun done => disk done.drive

/-- The image after a run of reads. -/
def Image.reads (card : Card) : List ReadRequest → Image → Option Image
  | [], i => some i
  | r :: rs, i => (i.read card r).bind (Image.reads card rs)

/-- A read that does not seek behind the end of the image. -/
def Image.Stays (r : ReadRequest) : Image → Prop
  | disk d => Drv08.ReadStays d r.tfr
  | i => FileIO.Stays i.file (Drv00.reqAddr r.rq).toNat

/-- No read of a run seeks behind the end of the image. -/
def Image.AllStay (card : Card) : List ReadRequest → Image → Prop
  | [], _ => True
  | r :: rs, i => r.IsRead i ∧ i.Stays r ∧ ∀ i', i.read card r = some i' → AllStay card rs i'

/-- A hard disk is mounted; the other drivers need nothing. -/
def Image.Mounted : Image → Prop
  | disk d => ∃ e, Drv08.Mounted e d
  | _ => True

/-- What a run of reads relies on: an index has steps of whole sectors. -/
def Image.Steps : Image → Prop
  | disk d => d.pDesc.format = .MMC ∨ d.fSource.err = true ∨ 16 ≤ d.pDesc.index_size.toNat
  | _ => True

theorem Image.Mounted.steps : ∀ {i : Image}, i.Mounted → i.Steps
  | generic _, _ => trivial
  | tape _, _ => trivial
  | disk d, ⟨e, hm⟩ => by
    cases e with
    | file =>
      by_cases herr : d.fSource.err = true
      · exact Or.inr (Or.inl herr)
      · exact Or.inr (Or.inr (hm.2.2.2 (Bool.eq_false_of_not_eq_true herr)).index_size)
    | partition _ _ => exact Or.inl hm.1
    | wholeCard => exact Or.inl hm.1

/-- One read that does not seek behind the end. -/
theorem Image.read_keeps (card : Card) {r : ReadRequest} : ∀ {i : Image}, i.Steps → r.IsRead i →
    i.Stays r → ∃ i', i.read card r = some i' ∧ i'.Steps ∧ i'.file.data = i.file.data
  | generic d, _, hread, h => ⟨_, rfl, trivial, transfer_data hread r.stall h⟩
  | tape d, _, hread, h => ⟨_, rfl, trivial, transfer_data hread r.stall h⟩
  | disk d, hs, hread, h => by
    obtain ⟨done, hdone, hd⟩ := Drv08.ataRead_unread card r.rq.fifo hread hs h
    refine ⟨disk done.drive, ?_, ?_, hd.data⟩
    · rw [Image.read, hdone]
      rfl
    · rcases hs with hs | hs | hs
      · exact Or.inl (hd.format.trans hs)
      · exact Or.inr (Or.inl (hd.err hs))
      · exact Or.inr (Or.inr (by rw [hd.index_size]; exact hs))

theorem Image.reads_keep_of_steps {card : Card} : ∀ (rs : List ReadRequest) {i : Image}, i.Steps →
    i.AllStay card rs → ∃ i', i.reads card rs = some i' ∧ i'.file.data = i.file.data
  | [], i, _, _ => ⟨i, rfl, rfl⟩
  | r :: rs, i, hs, h => by
    obtain ⟨hread, hstays, hrest⟩ := h
    obtain ⟨i', hrun, hs', hdata⟩ := Image.read_keeps card hs hread hstays
    obtain ⟨i'', hruns, hdata'⟩ := Image.reads_keep_of_steps rs hs' (hrest i' hrun)
    refine ⟨i'', ?_, hdata'.trans hdata⟩
    rw [Image.reads, hrun]
    exact hruns

/-- A run of reads that never seeks behind the end of the image leaves its bytes as they were. -/
theorem reads_keep_image {card : Card} {i : Image} {rs : List ReadRequest} (hm : i.Mounted)
    (h : i.AllStay card rs) : ∃ i', i.reads card rs = some i' ∧ i'.file.data = i.file.data :=
  Image.reads_keep_of_steps rs hm.steps h

/-! ### An image of one byte -/

/-- An image of one byte, on a volume with room for more. -/
def oneByteImage : File :=
  { data := [0], slack := fun _ => 0, cap := 512, csize := 512, readable := 512
    size_le := by decide, csize_pos := sector_pos }

/-- The generic driver has it open for writing. -/
def oneByteDrive : Image :=
  .generic { status := statInserted, fSource := f_open oneByteImage true, pDesc := ⟨1⟩ }

/-- A read of one byte. -/
def readByte (addr : UInt8) : ReadRequest :=
  { rq := { status := reqAct, cmd := fun i => [0, 1, 0, addr].getD i 0, fifo := fun _ => 0 }
    stall := fun _ => false, fbuf := fun _ => 0, tfr := fun _ => 0 }

theorem reads_keep_oneByte :
    ∃ i', oneByteDrive.reads Drv08.blankCard [readByte 0] = some i' ∧ i'.file.data = [0] :=
  @reads_keep_image Drv08.blankCard oneByteDrive [readByte 0] trivial
    ⟨rfl, Or.inr (Or.inr (Or.inl (by decide))), fun _ _ => trivial⟩

/-- A read from address 2 makes the image two bytes long. -/
theorem readBehind_extends : ¬ ∀ (card : Card) (i : Image) (r : ReadRequest), i.Mounted →
    r.IsRead i → ∃ i', i.read card r = some i' ∧ i'.file.data = i.file.data := by
  intro h
  obtain ⟨i', hread, hdata⟩ := h Drv08.blankCard oneByteDrive (readByte 2) trivial rfl
  have hlong : i'.file.data = [0, 0] := by
    rw [← Option.some.inj hread]
    rfl
  rw [hlong] at hdata
  exact absurd hdata (by decide)

end FileIO
