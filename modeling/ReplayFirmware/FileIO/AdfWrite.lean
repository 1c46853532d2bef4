import ReplayFirmware.FileIO.Drv01

/-! What a floppy write does to the image.

    `Mounted` is what inserting an ADF image establishes: the tracks the drive has lie inside the
    file, and a drive that is not protected has its file open for writing. `Accepts` lists what a
    request must carry to be written; without it the image stays as it is, and with it one sector
    becomes the decoded data. -/

namespace FileIO.Drv01
open FatFs RangeFold

/-! ### Mounted images -/

/-- A drive with an ADF image, as `FileIO_FCh_Insert` leaves it. -/
structure Mounted (d : Drive) : Prop where
  ok : d.fSource.Ok
  format : d.pDesc.format = .ADF
  tracks : 512 * 11 * d.pDesc.total_tracks.toNat ≤ d.fSource.objsize
  write : d.writable = true → d.fSource.write = true
  sector : d.pDesc.cur_sector ≤ lastSector

theorem adfTracks_le (size : ℕ) : 512 * 11 * (adfTracks size.toUInt32).toNat ≤ size := by
  have hdiv : (size.toUInt32 / (512 * 11)).toNat ≤ size / 5632 := by
    rw [UInt32.toNat_div, show (512 * 11 : UInt32).toNat = 5632 by decide, Nat.toUInt32,
      UInt32.toNat_ofNat']
    exact Nat.div_le_div_right (Nat.mod_le _ _)
  have htracks : (adfTracks size.toUInt32).toNat ≤ (size.toUInt32 / (512 * 11)).toNat := by
    have hnarrow : (size.toUInt32 / (512 * 11)).toUInt16.toNat
        ≤ (size.toUInt32 / (512 * 11)).toNat := by
      rw [UInt32.toNat_toUInt16]; exact Nat.mod_le _ _
    unfold adfTracks
    simp only
    split
    · next hgt => exact le_trans (le_of_lt (UInt16.lt_iff_toNat_lt.mp hgt)) hnarrow
    · exact hnarrow
  have := Nat.mul_div_le size 5632
  omega

/-- Inserting an ADF image mounts it. -/
theorem insertInit_mounted {file : File} {readOnly : Bool} {ext : List UInt8} {hdr : ℕ → UInt8}
    (hext : extIs ext "ADF" = true) :
    ∃ d, insertInit (fchOpen file readOnly).1 (fchOpen file readOnly).2 ext hdr = some d ∧
      Mounted d := by
  refine ⟨_, by rw [insertInit, if_pos hext], ?_, rfl, ?_, ?_, ?_⟩
  · cases readOnly
    · exact f_open_ok file true
    · exact f_open_ok file false
  · exact adfTracks_le _
  · cases readOnly
    · exact fun _ => rfl
    · have hro : statReadonly &&& statReadonlyOrProtected ≠ 0 := by decide
      exact fun h => absurd (of_decide_eq_true h) hro
  · show (0 : UInt8) ≤ lastSector
    decide

/-! ### The in-place decoder -/

/-- The bytes behind the second sync word. -/
def rxbuf (rq : Request) : ℕ → UInt8 := fun i => rq.fifo (2 + i)

/-- The data of the sector. -/
def decoded (rq : Request) : List UInt8 :=
  (List.range 512).map fun i => mfmDecode (rxbuf rq (0x38 + i)) (rxbuf rq (0x238 + i))

@[simp] theorem length_decoded (rq : Request) : (decoded rq).length = 512 := by simp [decoded]

/-- The odd bits are overwritten behind the reader, the even bits lie past everything written. -/
theorem decodeBuffer_apply (rx : ℕ → UInt8) : ∀ n, n ≤ 0x200 → ∀ k,
    (List.range n).foldl
        (fun b i => Function.update b (i + 0x38) (mfmDecode (b (i + 0x38)) (b (i + 0x238)))) rx k
      = if 0x38 ≤ k ∧ k < 0x38 + n then mfmDecode (rx k) (rx (k + 0x200)) else rx k
  | 0, _, k => by rw [if_neg (by omega)]; rfl
  | n + 1, hn, k => by
    have ih := decodeBuffer_apply rx n (by omega)
    rw [List.range_succ, List.foldl_append]
    simp only [List.foldl_cons, List.foldl_nil]
    by_cases hk : k = n + 0x38
    · subst hk
      rw [Function.update_self, ih, ih, if_neg (by omega), if_neg (by omega), if_pos (by omega)]
    · rw [Function.update_of_ne hk, ih]
      by_cases hin : 0x38 ≤ k ∧ k < 0x38 + n
      · rw [if_pos hin, if_pos (by omega)]
      · rw [if_neg hin, if_neg (by omega)]

theorem decodeBuffer_data (rq : Request) :
    ((List.range 0x200).map fun i => decodeBuffer (rxbuf rq) (0x38 + i)) = decoded rq := by
  refine List.map_congr_left fun i hi => ?_
  have hi := List.mem_range.mp hi
  rw [decodeBuffer, decodeBuffer_apply _ _ (le_refl _), if_pos (by omega), Nat.add_right_comm]

/-! ### Which requests are written -/

/-- What a request must carry for its sector to be written. -/
structure Accepts (d : Drive) (rq : Request) (write_state : UInt8) : Prop where
  /-- the first sync word was found by the request before -/
  state : write_state = 1
  size : adfWriteLen ≤ (reqSize rq).toNat
  sync : fifoWord rq.fifo 0 = syncWord
  mark : param (rxbuf rq) 0 = 0xFF
  tracks : (param (rxbuf rq) 1).toUInt16 < d.pDesc.total_tracks
  track : param (rxbuf rq) 1 = rq.cmd 2
  sector : param (rxbuf rq) 2 ≤ 10
  gap : 0 < param (rxbuf rq) 3 ∧ param (rxbuf rq) 3 ≤ 11
  header : checksumOk (rxbuf rq) 0 10 0x28 = true
  data : checksumOk (rxbuf rq) 0x38 0x100 0x30 = true
  writable : d.writable = true
  /-- no transfer has aborted the file -/
  healthy : d.fSource.err = false

/-- The words of a request: a size of 0 is one that has wrapped. -/
def words (reqsize : UInt16) : ℕ := if reqsize = 0 then 65536 else reqsize.toNat

/-- The sync word stands among the words of the request. -/
def SyncFound (rq : Request) : Prop :=
  ∃ k, k < words (reqSize rq) ∧ fifoWord rq.fifo k = syncWord

/-- Where the sector of a request stands in the image. -/
def sectorStart (rq : Request) : ℕ := 512 * (11 * (rq.cmd 2).toNat + (param (rxbuf rq) 2).toNat)

theorem sectorOffset_toNat (track : UInt8) {sector : UInt8} (h : sector ≤ 10) :
    (sectorOffset track sector).toNat = 512 * (11 * track.toNat + sector.toNat) := by
  have hs : sector.toNat ≤ 10 := UInt8.le_iff_toNat_le.mp h
  have ht := track.toNat_lt
  rw [sectorOffset, UInt32.toNat_add, UInt32.toNat_mul, UInt32.toNat_shiftLeft,
    show (512 * 11 : UInt32).toNat = 5632 by decide, UInt8.toNat_toUInt32, UInt8.toNat_toUInt32,
    show (9 : UInt32).toNat % 32 = 9 by decide, Nat.shiftLeft_eq]
  omega

/-- The sector of an accepted request lies inside the image. -/
theorem Accepts.inside {d : Drive} {rq : Request} {ws : UInt8} (h : Accepts d rq ws)
    (hm : Mounted d) : sectorStart rq + 512 ≤ d.fSource.data.length := by
  have hsize : 512 * 11 * d.pDesc.total_tracks.toNat ≤ d.fSource.data.length := hm.tracks
  have hs : (param (rxbuf rq) 2).toNat ≤ 10 := UInt8.le_iff_toNat_le.mp h.sector
  have ht : (rq.cmd 2).toNat < d.pDesc.total_tracks.toNat := by
    have := UInt16.lt_iff_toNat_lt.mp h.tracks
    rwa [UInt8.toNat_toUInt16, h.track] at this
  rw [sectorStart]
  omega

/-! ### The search for the sync word -/

theorem words_pos (r : UInt16) : 0 < words r := by
  unfold words
  split
  · decide
  · next h => exact Nat.pos_of_ne_zero fun h0 => h (UInt16.toNat_inj.mp h0)

theorem words_le (r : UInt16) : words r ≤ 65536 := by
  have := r.toNat_lt
  unfold words
  split <;> omega

/-- A counter that has not run down still has the rest of its words. -/
theorem words_sub_one {r : UInt16} (h : r - 1 ≠ 0) : words (r - 1) + 1 = words r := by
  have hlt := r.toNat_lt
  have hsub : (r - 1).toNat = (65536 - 1 + r.toNat) % 65536 := UInt16.toNat_sub r 1
  have hne : (r - 1).toNat ≠ 0 := fun h0 => h (UInt16.toNat_inj.mp h0)
  rw [words, if_neg h, words]
  split
  · next h0 => subst h0; rfl
  · next h0 =>
    have : r.toNat ≠ 0 := fun h1 => h0 (UInt16.toNat_inj.mp h1)
    omega

/-- The loop finds the sync word where it stands among the words left. -/
theorem syncLoop_iff (fifo : ℕ → UInt8) : ∀ (fuel k : ℕ) (r : UInt16), words r ≤ fuel →
    (syncLoop fifo fuel k r = true ↔ ∃ j, j < words r ∧ fifoWord fifo (k + j) = syncWord)
  | 0, _, r, hf => absurd (words_pos r) (by omega)
  | fuel + 1, k, r, hf => by
    rw [syncLoop]
    by_cases hk : fifoWord fifo k = syncWord
    · rw [if_pos hk]
      exact ⟨fun _ => ⟨0, words_pos r, hk⟩, fun _ => rfl⟩
    · rw [if_neg hk]
      by_cases hr : r - 1 = 0
      · have hone : words r = 1 := by
          rw [UInt16.sub_eq_iff_eq_add.mp hr]; rfl
        rw [if_pos hr, hone]
        refine ⟨fun h => absurd h (by decide), ?_⟩
        rintro ⟨j, hj, hj'⟩
        obtain rfl : j = 0 := by omega
        exact absurd hj' hk
      · have hw := words_sub_one hr
        rw [if_neg hr, syncLoop_iff fifo fuel (k + 1) (r - 1) (by omega)]
        constructor
        · rintro ⟨j, hj, hj'⟩
          exact ⟨j + 1, by omega, by rwa [show k + (j + 1) = k + 1 + j by omega]⟩
        · rintro ⟨j, hj, hj'⟩
          rcases Nat.eq_zero_or_pos j with rfl | hpos
          · exact absurd hj' hk
          · exact ⟨j - 1, by omega, by rwa [show k + 1 + (j - 1) = k + j by omega]⟩

/-! ### One request -/

/-- The sector goes into the image at its place. -/
def writeSector (d : Drive) (rq : Request) : Drive :=
  match FF_Seek d.fSource (sectorStart rq) with
  | (.ok, fSource) => { d with fSource := (FF_Write fSource (decoded rq)).2 }
  | (_, fSource) => { d with fSource := fSource }

/-- Either a check fails and the drive stays as it is, or the sector is written. -/
theorem adfSector_cases (d : Drive) (rq : Request) :
    ¬Accepts d rq 1 ∧ adfSector d rq (rq.cmd 2) (reqSize rq) = d ∨
      (d.fSource.err = false → Accepts d rq 1) ∧
        adfSector d rq (rq.cmd 2) (reqSize rq) = writeSector d rq := by
  have hflag : ∀ {b : Bool}, b = true → (!b) = true → False := by decide
  have hnot : ∀ {b : Bool}, ¬(!b) = true → b = true := by decide
  unfold adfSector
  simp only
  split
  · next hsize => exact Or.inl ⟨fun h => absurd h.size (not_le.mpr hsize), rfl⟩
  next hsize =>
  split
  · next hsync => exact Or.inl ⟨fun h => hsync h.sync, rfl⟩
  next hsync =>
  split
  · next hparam =>
    refine Or.inl ⟨fun h => ?_, rfl⟩
    rcases hparam with hp | hp | hp | hp | hp
    · exact hp h.mark
    · exact absurd h.tracks (UInt16.not_lt.mpr hp)
    · exact absurd h.sector (UInt8.not_le.mpr hp)
    · exact absurd h.gap.2 (UInt8.not_le.mpr hp)
    · exact UInt8.pos_iff_ne_zero.mp h.gap.1 hp
  next hparam =>
  split
  · next htrack => exact Or.inl ⟨fun h => htrack h.track, rfl⟩
  next htrack =>
  split
  · next hheader => exact Or.inl ⟨fun h => hflag h.header hheader, rfl⟩
  next hheader =>
  split
  · next hdata => exact Or.inl ⟨fun h => hflag h.data hdata, rfl⟩
  next hdata =>
  split
  · next hwritable => exact Or.inl ⟨fun h => hflag h.writable hwritable, rfl⟩
  next hwritable =>
  obtain ⟨hmark, htracks, hsector, hgap, hgap0⟩ := by simpa only [not_or] using hparam
  have hsector : param (rxbuf rq) 2 ≤ 10 := UInt8.not_lt.mp hsector
  refine Or.inr ⟨fun herr => ?_, ?_⟩
  · exact
      { state := rfl
        size := not_lt.mp hsize
        sync := not_not.mp hsync
        mark := not_not.mp hmark
        tracks := UInt16.not_le.mp htracks
        track := not_not.mp htrack
        sector := hsector
        gap := ⟨UInt8.pos_iff_ne_zero.mpr hgap0, UInt8.not_lt.mp hgap⟩
        header := hnot hheader
        data := hnot hdata
        writable := hnot hwritable
        healthy := herr }
  · have hoffset : (sectorOffset (rq.cmd 2) (param (rxbuf rq) 2)).toNat = sectorStart rq :=
      sectorOffset_toNat _ hsector
    rw [writeSector, ← hoffset, ← decodeBuffer_data]
    rfl

/-- A sector inside the image is written there, and the rest of the file object is the same but for
    the position. -/
theorem writeSector_eq {d : Drive} {rq : Request} (h : d.fSource.Ok) (he : d.fSource.err = false)
    (hw : d.fSource.write = true) (hin : sectorStart rq + 512 ≤ d.fSource.data.length) :
    ∃ fptr clust, (writeSector d rq).fSource = { d.fSource with
      data := Splice.splice d.fSource.data (sectorStart rq) (decoded rq)
      fptr := fptr, clust := clust } := by
  have hle : sectorStart rq ≤ d.fSource.objsize := by rw [FIL.objsize]; omega
  obtain ⟨clust, hseek⟩ := FF_Seek_in h he hle
  have hok := FF_Seek_ok h (sectorStart rq)
  rw [hseek] at hok
  have hlen := length_decoded rq
  rw [writeSector, hseek]
  generalize decoded rq = bs at hlen
  exact ⟨_, _, FF_Write_in hok he hw (by rw [hlen]; exact hin)⟩

theorem writeSector_ok {d : Drive} (h : d.fSource.Ok) (rq : Request) :
    (writeSector d rq).fSource.Ok := by
  have hok := FF_Seek_ok h (sectorStart rq)
  rw [writeSector]
  generalize FF_Seek d.fSource (sectorStart rq) = r at hok
  obtain ⟨res, fp⟩ := r
  rcases res with _ | _ | _
  · exact FF_Write_ok hok (decoded rq)
  · exact hok
  · exact hok

@[simp] theorem writeSector_desc (d : Drive) (rq : Request) :
    (writeSector d rq).pDesc = d.pDesc ∧ (writeSector d rq).status = d.status := by
  rw [writeSector]
  split <;> exact ⟨rfl, rfl⟩

/-- Nothing is written to an aborted file. -/
theorem writeSector_aborted {d : Drive} (he : d.fSource.err = true) (rq : Request) :
    (writeSector d rq).fSource = d.fSource := by
  have hseek := FF_Seek_aborted he (sectorStart rq)
  rw [writeSector]
  generalize FF_Seek d.fSource (sectorStart rq) = r at hseek
  obtain ⟨res, fp⟩ := r
  obtain rfl : fp = d.fSource := hseek
  rcases res with _ | _ | _
  · exact congrArg Prod.snd (FF_Write_refused (Or.inl he) (decoded rq))
  · rfl
  · rfl

/-- State 1 writes an accepted sector and nothing else. -/
theorem adfSector_data {d : Drive} (hm : Mounted d) (rq : Request) :
    (¬Accepts d rq 1 →
      (adfSector d rq (rq.cmd 2) (reqSize rq)).fSource.data = d.fSource.data) ∧
    (Accepts d rq 1 →
      (adfSector d rq (rq.cmd 2) (reqSize rq)).fSource.data
        = Splice.splice d.fSource.data (sectorStart rq) (decoded rq)) := by
  rcases adfSector_cases d rq with ⟨hno, heq⟩ | ⟨haccept, heq⟩
  · rw [heq]
    exact ⟨fun _ => rfl, fun h => absurd h hno⟩
  · rw [heq]
    constructor
    · intro hno
      have he : d.fSource.err = true := by
        cases he : d.fSource.err
        · exact absurd (haccept he) hno
        · rfl
      rw [writeSector_aborted he]
    · intro h
      obtain ⟨fptr, clust, hw⟩ :=
        writeSector_eq hm.ok h.healthy (hm.write h.writable) (h.inside hm)
      rw [hw]

/-- A drive whose file has grown or kept its size, with the descriptor's image facts as they were,
    is still mounted. -/
theorem Mounted.kept {d d' : Drive} (hm : Mounted d) (hok : d'.fSource.Ok)
    (hdesc : d'.pDesc.format = d.pDesc.format ∧ d'.pDesc.total_tracks = d.pDesc.total_tracks)
    (hsector : d'.pDesc.cur_sector ≤ lastSector) (hstatus : d'.status = d.status)
    (hwrite : d'.fSource.write = d.fSource.write)
    (hsize : d.fSource.objsize ≤ d'.fSource.objsize) : Mounted d' where
  ok := hok
  format := hdesc.1.trans hm.format
  tracks := by rw [hdesc.2]; exact le_trans hm.tracks hsize
  write := by rw [Fch.writable, hstatus, hwrite]; exact hm.write
  sector := hsector

theorem adfSector_mounted {d : Drive} (hm : Mounted d) (rq : Request) :
    Mounted (adfSector d rq (rq.cmd 2) (reqSize rq)) := by
  rcases adfSector_cases d rq with ⟨-, heq⟩ | ⟨haccept, heq⟩
  · rwa [heq]
  · rw [heq]
    obtain ⟨hdesc, hstatus⟩ := writeSector_desc d rq
    have hfile : (writeSector d rq).fSource.write = d.fSource.write ∧
        d.fSource.objsize ≤ (writeSector d rq).fSource.objsize := by
      cases he : d.fSource.err
      · have h := haccept he
        obtain ⟨fptr, clust, hw⟩ := writeSector_eq hm.ok he (hm.write h.writable) (h.inside hm)
        rw [hw]
        refine ⟨rfl, ?_⟩
        show _ ≤ (Splice.splice d.fSource.data (sectorStart rq) (decoded rq)).length
        rw [Splice.length_splice_of_le (by rw [length_decoded]; exact h.inside hm)]
        exact le_refl _
      · rw [writeSector_aborted he]
        exact ⟨rfl, le_refl _⟩
    exact hm.kept (writeSector_ok hm.ok rq) (by rw [hdesc]; exact ⟨rfl, rfl⟩)
      (by rw [hdesc]; exact hm.sector) hstatus hfile.1 hfile.2

/-- A write request leaves the image mounted. -/
theorem adfWrite_mounted {d : Drive} (hm : Mounted d) (rq : Request) (write_state : UInt8) :
    Mounted (adfWrite d rq write_state).2.1 := by
  simp only [adfWrite]
  split
  · exact hm
  · split
    · exact adfSector_mounted hm rq
    · exact hm

theorem nextSector_le {s : UInt8} (h : s ≤ lastSector) :
    (if s = lastSector then 0 else s + 1) ≤ lastSector := by
  cases s with
  | ofBitVec b => revert b; decide

/-- A read request leaves the image mounted. -/
theorem adfRead_mounted {d : Drive} (hm : Mounted d) (pBuffer : ℕ → UInt8) (rq : Request) :
    Mounted (adfRead d pBuffer rq).1 := by
  simp only [adfRead]
  generalize (sectorOffset _ _).toNat = ofs
  have hok := FF_Seek_ok hm.ok ofs
  obtain ⟨hwrite, hsize⟩ := FF_Seek_kept d.fSource ofs
  generalize FF_Seek d.fSource ofs = r at hok hwrite hsize
  obtain ⟨res, fp⟩ := r
  obtain ⟨hdata, hopen⟩ := FF_Read_kept fp 512
  have hsector := nextSector_le hm.sector
  rcases res with _ | _ | _
  · refine hm.kept (FF_Read_ok hok 512) ⟨rfl, rfl⟩ hsector rfl (hopen.trans hwrite) ?_
    show d.fSource.objsize ≤ (FF_Read fp 512).2.data.length
    rw [hdata]
    exact hsize
  · exact hm.kept hok ⟨rfl, rfl⟩ hsector rfl hwrite hsize
  · exact hm.kept hok ⟨rfl, rfl⟩ hsector rfl hwrite hsize

/-- What a write request does: without all of `Accepts` the image stays as it is; with it one sector,
    inside the image, becomes the decoded data. The state is 1 after it exactly when it was 0 and
    the sync word was found. -/
theorem adfWrite_spec {d : Drive} (hm : Mounted d) (rq : Request) (write_state : UInt8) :
    let r := adfWrite d rq write_state
    (¬Accepts d rq write_state → r.2.1.fSource.data = d.fSource.data) ∧
      (Accepts d rq write_state →
        sectorStart rq + 512 ≤ d.fSource.data.length ∧
        r.2.1.fSource.data = Splice.splice d.fSource.data (sectorStart rq) (decoded rq)) ∧
      (r.1 = 0 ∨ r.1 = 1) ∧ (r.1 = 1 ↔ write_state = 0 ∧ SyncFound rq) := by
  have hsync := syncLoop_iff rq.fifo 65536 0 (reqSize rq) (words_le _)
  simp only [Nat.zero_add] at hsync
  simp only [adfWrite]
  by_cases h0 : write_state = 0
  · -- the search for the sync word does not touch the image
    rw [if_pos h0]
    refine ⟨fun _ => rfl, fun h => ?_, ?_⟩
    · have := h.state
      subst h0
      exact absurd this (by decide)
    · rw [SyncFound, ← hsync]
      cases syncLoop rq.fifo 65536 0 (reqSize rq) <;> simp [h0]
  · rw [if_neg h0]
    by_cases h1 : write_state = 1
    · subst h1
      obtain ⟨hno, hyes⟩ := adfSector_data hm rq
      rw [if_pos rfl]
      exact ⟨hno, fun h => ⟨h.inside hm, hyes h⟩, Or.inl rfl, by simp⟩
    · rw [if_neg h1]
      exact ⟨fun _ => rfl, fun h => absurd h.state h1, Or.inl rfl, by simp [h0]⟩

/-- A drive with an image of one empty track. -/
def blank : Drive :=
  { status := 0
    fSource := f_open { data := List.replicate 5632 0, slack := fun _ => 0, cap := 5632, csize := 512
                        readable := 5632, size_le := List.length_replicate.le, csize_pos := sector_pos } true
    pDesc := { Desc.zero with format := .ADF, file_size := 5632, total_tracks := 1 } }

theorem blank_mounted : Mounted blank where
  ok := f_open_ok _ true
  format := rfl
  tracks := List.length_replicate.ge
  write := fun _ => rfl
  sector := by decide

/-- A request with a sector of zeros: header and checksums of track 0, sector 0. -/
def zeroSector : Request :=
  { status := 0x0C
    cmd := fun i => if i = 5 then 0x02 else if i = 6 then 0x1B else 0
    fifo := fun i => if i = 0 then 0x44 else if i = 1 then 0x89 else if i = 2 ∨ i = 6 then 0x55
      else if i = 9 ∨ i = 49 then 0x01 else 0 }

theorem zeroSector_accepts : Accepts blank zeroSector 1 where
  state := rfl
  size := by decide
  sync := by decide
  mark := by decide
  tracks := by decide
  track := by decide
  sector := by decide
  gap := by decide
  header := by decide
  data := by
    have hzero : ∀ i, checksum (rxbuf zeroSector) 0x38 0x100 i = 0 := by
      intro i
      rw [checksum, xorSum_zero, UInt8.zero_and]
      intro j _
      simp only [rxbuf, zeroSector]
      rw [if_neg (by omega), if_neg (by omega), if_neg (by omega), if_neg (by omega)]
    simp only [checksumOk, hzero]
    decide
  writable := by decide
  healthy := rfl

theorem adfWrite_spec_blank :
    Accepts blank zeroSector 1 ∧ (adfWrite blank zeroSector 1).1 = 0 ∧
      (adfWrite blank zeroSector 1).2.1.fSource.data
        = Splice.splice blank.fSource.data 0 (decoded zeroSector) := by
  obtain ⟨-, hyes, -⟩ := adfWrite_spec blank_mounted zeroSector 1
  exact ⟨zeroSector_accepts, rfl, (hyes zeroSector_accepts).2⟩

end FileIO.Drv01
