import ReplayFirmware.FileIO.RoundTrip
import ReplayFirmware.FileIO.ScpReads
import ReplayFirmware.Lib.RoundRobin

/-! What reads of an ADF image send.

    Each read sends the next of the eleven sectors, of whatever track is asked for, and the gap behind the
    last one; so any eleven reads in a row send each sector once. A track that the image does not have
    becomes its last one; an image without a whole track has no last one, and the read goes to track 255,
    behind the end of the file. -/

namespace FileIO.Drv01
open FatFs

/-! ### One read -/

/-- The track that is read. -/
def adfTrack (pDesc : Desc) (rq : Request) : UInt8 :=
  if (rq.cmd 2).toUInt16 ≥ pDesc.total_tracks then (pDesc.total_tracks - 1).toUInt8 else rq.cmd 2

/-- Where its sector stands in the file. -/
def adfOffset (pDesc : Desc) (rq : Request) : ℕ :=
  (sectorOffset (adfTrack pDesc rq) pDesc.cur_sector).toNat

/-- The gap behind the last sector. -/
def adfGap : List FChOut := [.fifo 1 [0xAA, 0xAA], .fifo 0 (List.replicate (gapSize / 2) 0xAA)]

/-- The sector number in the first header that is sent. -/
def sentSector (outs : List FChOut) : Option UInt8 :=
  outs.findSome? fun
    | .fifo mode bs => if mode = 0 then some (param (fun i => bs.getD (8 + i) 0) 2) else none
    | _ => none

/-- A sector is sent, its number in the header and its data behind it; the gap follows if and only if it is
    the last one. -/
def SendsSector (outs : List FChOut) (sector : UInt8) : Prop :=
  sentSector outs = some sector ∧ ∃ header data, outs
    = [.stat statReqAck, .fifo 0 header, .fifo 2 data, .fifo 3 data]
      ++ (if sector = lastSector then adfGap else []) ++ [.stat statAckOk]

/-- The number that a header of the drive carries is read back from it. -/
theorem param_sendHeader (buf : ℕ → UInt8) (sector track dsksynch dsksyncl : UInt8) :
    param (fun i => (sendHeader buf sector track dsksynch dsksyncl).getD (8 + i) 0) 2 = sector := by
  rw [param]
  refine mfmDecode_of_bits ?_ (dataBits_mfmEncode sector (mfmEncode track (mfmEncode 0xFF
    (mfmEncode ((11 - sector) >>> 1) (mfmEncode (sector >>> 1)
      (mfmEncode (track >>> 1) (mfmEncode 0xFF dsksyncl)))))))
  exact dataBits_mfmEncode (sector >>> 1) _

variable {pDrive : Drive} {pBuffer : ℕ → UInt8} {rq : Request}

theorem adfRead_sends (h : Good pDrive.fSource) :
    SendsSector (adfRead pDrive pBuffer rq).2.2 pDrive.pDesc.cur_sector ∧
      Good (adfRead pDrive pBuffer rq).1.fSource ∧
      (adfRead pDrive pBuffer rq).1.pDesc = { pDrive.pDesc with
        cur_sector := if pDrive.pDesc.cur_sector = lastSector then 0
          else pDrive.pDesc.cur_sector + 1 } := by
  have hok := (seek_sought h.sound (adfOffset pDrive.pDesc rq)).2.1
  have hgood := h.seek (adfOffset pDrive.pDesc rq)
  have hseek : FF_Seek pDrive.fSource (adfOffset pDrive.pDesc rq)
      = (.ok, (FF_Seek pDrive.fSource (adfOffset pDrive.pDesc rq)).2) := Prod.ext hok rfl
  rw [adfOffset, adfTrack] at hseek hgood
  simp only [adfRead]
  rw [hseek]
  simp only
  refine ⟨⟨?_, _, _, rfl⟩, hgood.read 512, trivial⟩
  have hheader := param_sendHeader
  simp only [sentSector, List.cons_append, List.findSome?_cons, if_pos, hheader]

/-! ### Where the sector stands -/

theorem adfTracks_toNat (file_size : UInt32) :
    (adfTracks file_size).toNat = min (file_size.toNat / 5632 % 65536) 166 := by
  have hdiv : (file_size / (512 * 11)).toUInt16.toNat = file_size.toNat / 5632 % 65536 := by
    rw [UInt32.toNat_toUInt16, UInt32.toNat_div, show (512 * 11 : UInt32).toNat = 5632 by decide]
  have hmax : adfMaxTracks.toNat = 166 := by decide
  rw [adfTracks]
  split
  · next hgt =>
    have hgt' := UInt16.lt_iff_toNat_lt.mp hgt
    omega
  · next hle =>
    have hle' := UInt16.le_iff_toNat_le.mp (UInt16.not_lt.mp hle)
    omega

/-- Without a track the last one is track 255. -/
theorem adfTrack_toNat {pDesc : Desc} (htracks : pDesc.total_tracks.toNat ≤ 166) (rq : Request) :
    (adfTrack pDesc rq).toNat = if pDesc.total_tracks.toNat = 0 then 255
      else min (rq.cmd 2).toNat (pDesc.total_tracks.toNat - 1) := by
  have hiff : (rq.cmd 2).toUInt16 ≥ pDesc.total_tracks ↔
      pDesc.total_tracks.toNat ≤ (rq.cmd 2).toNat := by
    rw [ge_iff_le, UInt16.le_iff_toNat_le, UInt8.toNat_toUInt16]
  have hlast : (pDesc.total_tracks - 1).toUInt8.toNat
      = (65536 - 1 + pDesc.total_tracks.toNat) % 65536 % 256 := by
    rw [UInt16.toNat_toUInt8, UInt16.toNat_sub]
    rfl
  rw [adfTrack]
  by_cases hge : (rq.cmd 2).toUInt16 ≥ pDesc.total_tracks
  · have hge' := hiff.mp hge
    rw [if_pos hge]
    split <;> omega
  · have hlt := Nat.lt_of_not_le fun hle => hge (hiff.mpr hle)
    rw [if_neg hge]
    split <;> omega

/-- A sector is in the file if and only if the file has a whole track. -/
theorem adfOffset_inside {pDesc : Desc} (htracks : pDesc.total_tracks = adfTracks pDesc.file_size)
    (hsector : pDesc.cur_sector ≤ lastSector) (rq : Request) :
    adfOffset pDesc rq + 512 ≤ pDesc.file_size.toNat ↔ 5632 ≤ pDesc.file_size.toNat := by
  have hs : pDesc.cur_sector.toNat ≤ 10 := UInt8.le_iff_toNat_le.mp hsector
  have hcount : pDesc.total_tracks.toNat = min (pDesc.file_size.toNat / 5632 % 65536) 166 := by
    rw [htracks, adfTracks_toNat]
  have htrack := @adfTrack_toNat pDesc (by omega) rq
  rw [adfOffset, sectorOffset_toNat _ hsector, htrack]
  split <;> omega

/-! ### Reads in a row -/

/-- A read request, the drive that it comes to, and what it sends. -/
structure AdfTurn where
  drive : Drive
  rq : Request
  outs : List FChOut

/-- Reads, one after another. -/
def adfTurns : Drive → List (Request × (ℕ → UInt8)) → List AdfTurn
  | _, [] => []
  | d, (rq, b) :: rqs => ⟨d, rq, (adfRead d b rq).2.2⟩ :: adfTurns (adfRead d b rq).1 rqs

/-- The sector that is read lies inside the image, whose size at insert is given. -/
def AdfTurn.Inside (size : ℕ) (t : AdfTurn) : Prop :=
  adfOffset t.drive.pDesc t.rq + 512 ≤ t.drive.pDesc.file_size.toNat ∧
    adfOffset t.drive.pDesc t.rq + 512 ≤ size

/-- Any eleven reads in a row send each sector once. -/
def Rotates (ts : List AdfTurn) : Prop :=
  ∀ i, i + 11 ≤ ts.length → ∃ sectors : List UInt8,
    sectors.Perm ((List.range 11).map Nat.toUInt8) ∧
      List.Forall₂ (fun t => SendsSector t.outs) ((ts.drop i).take 11) sectors

/-- What no read changes: the size and the tracks, and that there is a next sector. -/
structure AdfOk (size : UInt32) (pDesc : Desc) : Prop where
  file_size : pDesc.file_size = size
  tracks : pDesc.total_tracks = adfTracks size
  sector : pDesc.cur_sector ≤ lastSector

theorem AdfOk.read {size : UInt32} (h : AdfOk size pDrive.pDesc) (hgood : Good pDrive.fSource) :
    AdfOk size (adfRead pDrive pBuffer rq).1.pDesc := by
  rw [(adfRead_sends hgood).2.2]
  exact ⟨h.file_size, h.tracks, nextSector_le h.sector⟩

/-- The sectors that the reads send are those of a counter modulo 11. -/
theorem adfTurns_sectors : ∀ (rqs : List (Request × (ℕ → UInt8))) {d : Drive}, Good d.fSource →
    d.pDesc.cur_sector ≤ lastSector →
      List.Forall₂ (fun t => SendsSector t.outs) (adfTurns d rqs)
        ((RoundRobin.turns 11 d.pDesc.cur_sector.toNat rqs.length).map Nat.toUInt8)
  | [], _, _, _ => List.Forall₂.nil
  | (rq, b) :: rqs, d, hgood, hsector => by
    obtain ⟨hsends, hgood', hdesc⟩ := @adfRead_sends _ b rq hgood
    have hnext : ((adfRead d b rq).1.pDesc.cur_sector).toNat
        = (d.pDesc.cur_sector.toNat + 1) % 11 := by
      have hs : d.pDesc.cur_sector.toNat ≤ 10 := UInt8.le_iff_toNat_le.mp hsector
      have hlast : lastSector.toNat = 10 := rfl
      rw [hdesc]
      simp only
      split
      · next heq =>
        rw [heq, hlast]
        rfl
      · next hne =>
        have hne' : d.pDesc.cur_sector.toNat ≠ 10 := fun h10 => hne (UInt8.toNat_inj.mp h10)
        rw [UInt8.toNat_add, show (1 : UInt8).toNat = 1 from rfl]
        omega
    have hrest := adfTurns_sectors rqs hgood' (by rw [hdesc]; exact nextSector_le hsector)
    rw [hnext] at hrest
    refine List.Forall₂.cons ?_ hrest
    simp only [Nat.toUInt8, UInt8.ofNat_toNat]
    exact hsends

theorem adfTurns_rotate {d : Drive} (hgood : Good d.fSource) (hsector : d.pDesc.cur_sector ≤ lastSector)
    (rqs : List (Request × (ℕ → UInt8))) : Rotates (adfTurns d rqs) := by
  intro i hi
  have hall := adfTurns_sectors rqs hgood hsector
  have hlen := hall.length_eq
  rw [List.length_map, RoundRobin.length_turns] at hlen
  have hs : d.pDesc.cur_sector.toNat ≤ 10 := UInt8.le_iff_toNat_le.mp hsector
  have hperm := RoundRobin.window_perm (n := 11) (c := d.pDesc.cur_sector.toNat) (by omega)
    (show i + 11 ≤ rqs.length by omega)
  refine ⟨_, hperm.map Nat.toUInt8, ?_⟩
  rw [List.map_take, List.map_drop]
  exact List.forall₂_take 11 (List.forall₂_drop i hall)

theorem adfTurns_inside (size : ℕ) {file_size : UInt32} (hle : file_size.toNat ≤ size) :
    ∀ (rqs : List (Request × (ℕ → UInt8))) {d : Drive}, Good d.fSource → AdfOk file_size d.pDesc →
      ((∀ t ∈ adfTurns d rqs, t.Inside size) ↔ rqs = [] ∨ 5632 ≤ file_size.toNat)
  | [], _, _, _ => by simp [adfTurns]
  | (rq, b) :: rqs, d, hgood, hok => by
    have hrest := adfTurns_inside size hle rqs (@adfRead_sends _ b rq hgood).2.1
      (hok.read hgood)
    have hhere := adfOffset_inside (by rw [hok.file_size]; exact hok.tracks) hok.sector rq
    rw [hok.file_size] at hhere
    rw [adfTurns, List.forall_mem_cons, hrest, AdfTurn.Inside]
    simp only [hok.file_size, hhere, reduceCtorEq, false_or]
    constructor
    · rintro ⟨⟨hwhole, -⟩, -⟩
      exact hwhole
    · intro hwhole
      have hin := hhere.mpr hwhole
      exact ⟨⟨hwhole, by omega⟩, Or.inr hwhole⟩

/-! ### From the insert on -/

theorem insertInit_adf {status : UInt8} {fSource : FIL} {ext : List UInt8} {hdr : ℕ → UInt8}
    (h : insertInit status fSource ext hdr = some pDrive) (hadf : pDrive.pDesc.format = .ADF) :
    AdfOk (FF_Size fSource).toUInt32 pDrive.pDesc := by
  rw [insertInit] at h
  simp only at h
  split at h
  · rw [← Option.some.inj h]
    exact ⟨rfl, rfl, UInt8.le_iff_toNat_le.mpr (Nat.zero_le _)⟩
  split at h
  · split at h
    · exact absurd h.symm (Option.some_ne_none _)
    split at h
    · exact absurd h.symm (Option.some_ne_none _)
    · rw [← Option.some.inj h] at hadf
      exact Format.noConfusion hadf
  · exact absurd h.symm (Option.some_ne_none _)

/-- A file of `n` zeros. -/
def zeros (n : ℕ) : File :=
  { data := List.replicate n 0, slack := fun _ => 0, cap := n, csize := 512, readable := n
    size_le := List.length_replicate.le, csize_pos := sector_pos }

theorem zeros_good (n : ℕ) : Good (f_open (zeros n) false) :=
  ⟨f_open_ok _ _, ⟨(zeros n).csize_pos, (zeros n).size_le, rfl, le_refl _⟩⟩

/-- It is inserted as an image. -/
def adfDrive (n : ℕ) : Option Drive :=
  insertInit 0x03 (f_open (zeros n) false) [0x41, 0x44, 0x46] fun _ => 0

theorem adfDrive_format {n : ℕ} {d : Drive} (h : adfDrive n = some d) : d.pDesc.format = .ADF := by
  have hext : extIs [0x41, 0x44, 0x46] "ADF" = true := by decide
  rw [adfDrive, insertInit] at h
  simp only [hext, if_true] at h
  rw [← Option.some.inj h]

theorem size_zeros (n : ℕ) : FF_Size (f_open (zeros n) false) = n := List.length_replicate

/-- Every read stays inside the image if and only if the image has a whole track, and any eleven reads in a
    row send each sector once, with the gap behind the last one. -/
theorem adfReads_inside_iff {status : UInt8} {fSource : FIL} {ext : List UInt8} {hdr : ℕ → UInt8}
    (h : insertInit status fSource ext hdr = some pDrive) (hadf : pDrive.pDesc.format = .ADF)
    (hf : Good fSource) (rqs : List (Request × (ℕ → UInt8))) :
    ((∀ t ∈ adfTurns pDrive rqs, t.Inside (FF_Size fSource)) ↔
        rqs = [] ∨ 5632 ≤ FF_Size fSource % 2 ^ 32) ∧
      Rotates (adfTurns pDrive rqs) := by
  have hok := insertInit_adf h hadf
  have hgood := insertInit_good h hf
  have hsize : (FF_Size fSource).toUInt32.toNat = FF_Size fSource % 2 ^ 32 := UInt32.toNat_ofNat'
  have hin := adfTurns_inside (FF_Size fSource) (by rw [hsize]; exact Nat.mod_le _ _) rqs hgood hok
  rw [hsize] at hin
  exact ⟨hin, adfTurns_rotate hgood hok.sector rqs⟩

/-- An image of one track. -/
theorem adfReads_inside_track : ∃ d, adfDrive 5632 = some d ∧
    (∀ t ∈ adfTurns d (List.replicate 11 (readTrack0, fun _ => 0)), t.Inside 5632) ∧
      Rotates (adfTurns d (List.replicate 11 (readTrack0, fun _ => 0))) := by
  obtain ⟨d, hd⟩ : ∃ d, adfDrive 5632 = some d := Option.isSome_iff_exists.mp (by decide)
  obtain ⟨hin, hrotate⟩ := adfReads_inside_iff hd (adfDrive_format hd) (zeros_good 5632)
    (List.replicate 11 (readTrack0, fun _ => 0))
  rw [size_zeros] at hin
  exact ⟨d, hd, hin.mpr (Or.inr (by decide)), hrotate⟩

/-- A file of one sector: the read goes to track 255. -/
theorem small_adf_outside : ¬∀ (status : UInt8) (fSource : FIL) (ext : List UInt8) (hdr : ℕ → UInt8)
    (d : Drive), insertInit status fSource ext hdr = some d → d.pDesc.format = .ADF → Good fSource →
      ∀ rqs, (∀ t ∈ adfTurns d rqs, t.Inside (FF_Size fSource)) ∧ Rotates (adfTurns d rqs) := by
  intro hall
  obtain ⟨d, hd⟩ : ∃ d, adfDrive 512 = some d := Option.isSome_iff_exists.mp (by decide)
  have hfacts : ∀ d ∈ adfDrive 512, adfOffset d.pDesc readTrack0 = 255 * 5632 := by decide +kernel
  have hin := (hall _ _ _ _ d hd (adfDrive_format hd) (zeros_good 512)
    [(readTrack0, fun _ => 0)]).1 _ List.mem_cons_self
  have hsize := hin.2
  rw [size_zeros, hfacts d hd] at hsize
  omega

end FileIO.Drv01
