import ReplayFirmware.FileIO.DirectReads

/-! What reads of flux data send.

    A disk of flux data keeps a position in the current revolution of its track from one request to the
    next, also over steps to other tracks. The position stays inside the revolution whatever the headers
    of the image say, and so a request never needs more of the buffer than there is. What is sent are the
    next words of the revolution as long as the file has them; a revolution at an odd place in the file is
    never finished when it goes on behind the next sector boundary, since no word fits before it. -/

namespace FileIO.Drv01
open FatFs

/-! ### The burst in numbers -/

/-- How many bytes are sent: what the buffer takes up to the next sector boundary, or whole sectors. -/
def scpSentLen (pDesc : Desc) : UInt32 :=
  let room := 0x200 - (scpOffset pDesc &&& 0x1FF)
  if ScpAligned pDesc then scpTransLen pDesc
  else (if scpTransLen pDesc > room then room else scpTransLen pDesc) &&& 0xFFFE

/-- In words. -/
def scpWords (pDesc : Desc) : ℕ := (scpSentLen pDesc).toNat / 2

/-- `track_length` of the current revolution -/
def scpLen (pDesc : Desc) : UInt32 := tloLength pDesc.scp_cur_track_header pDesc.scp_cur_track_rev

/-- The state behind a burst. -/
def scpNext (pDesc : Desc) : Desc :=
  let pos := pDesc.scp_cur_track_offset + (scpSentLen pDesc >>> 1)
  let rev := pDesc.scp_cur_track_rev + 1
  if pos ≥ scpLen pDesc then
    { pDesc with scp_cur_track_offset := 0
                 scp_cur_track_rev := if rev = pDesc.scp_revolutions then 0 else rev }
  else { pDesc with scp_cur_track_offset := pos }

/-- What a burst sends. -/
def scpSent (pDrive : Drive) (pBuffer : ℕ → UInt8) : FChOut :=
  let f := (FF_Seek pDrive.fSource (scpOffset pDrive.pDesc).toNat).2
  let n := (scpSentLen pDrive.pDesc).toNat
  if ScpAligned pDrive.pDesc then .direct (FF_ReadDirect f n).1
  else .fifo 0 ((List.range n).map (readInto pBuffer (FF_Read f n).1))

theorem scpBurst_eq (pDrive : Drive) (pBuffer : ℕ → UInt8) :
    (scpBurst pDrive pBuffer).1.pDesc = scpNext pDrive.pDesc ∧
      (scpBurst pDrive pBuffer).1.fSource
        = (FF_Read (FF_Seek pDrive.fSource (scpOffset pDrive.pDesc).toNat).2
            (scpSentLen pDrive.pDesc).toNat).2 ∧
      (scpBurst pDrive pBuffer).2.2
        = (if pDrive.pDesc.scp_cur_track_offset = 0 then [.fifo 1 [0x00, 0x04]] else [])
          ++ [scpSent pDrive pBuffer] := by
  rw [scpBurst, scpNext, scpSent]
  by_cases h : ScpAligned pDrive.pDesc
  · have h' := h
    unfold ScpAligned scpOffset scpTransLen at h'
    simp only [scpSentLen, if_pos h, if_pos h']
    exact ⟨rfl, rfl, rfl⟩
  · have h' := h
    unfold ScpAligned scpOffset scpTransLen at h'
    simp only [scpSentLen, if_neg h, if_neg h']
    exact ⟨rfl, rfl, rfl⟩

/-- The position is inside the revolution, and the revolution is one that the header has. -/
structure ScpOk (pDesc : Desc) : Prop where
  revolutions : pDesc.scp_revolutions.toNat ≤ 5
  rev : pDesc.scp_cur_track_rev < pDesc.scp_revolutions
  offset : pDesc.scp_cur_track_header_addr ≠ 0 → pDesc.scp_cur_track_offset ≤ scpLen pDesc

/-- The words of the revolution that are left. -/
def scpLeft (pDesc : Desc) : ℕ := (scpLen pDesc).toNat - pDesc.scp_cur_track_offset.toNat

variable {pDesc : Desc} {pDrive : Drive} {pBuffer : ℕ → UInt8} {rq : Request}

theorem scpTransLen_toNat (h : pDesc.scp_cur_track_offset ≤ scpLen pDesc) :
    (scpTransLen pDesc).toNat = 2 * min (scpLeft pDesc) 1024 := by
  have hsub : (scpLen pDesc - pDesc.scp_cur_track_offset).toNat = scpLeft pDesc :=
    UInt32.toNat_sub_of_le _ _ h
  have hlen : tloLength pDesc.scp_cur_track_header pDesc.scp_cur_track_rev = scpLen pDesc := rfl
  have h1024 : (1024 : UInt32).toNat = 1024 := rfl
  rw [scpTransLen, hlen, UInt32.toNat_shiftLeft, show (1 : UInt32).toNat % 32 = 1 from rfl,
    Nat.shiftLeft_eq]
  by_cases hgt : scpLen pDesc - pDesc.scp_cur_track_offset > 1024
  · have hgt' := UInt32.lt_iff_toNat_lt.mp hgt
    rw [hsub, h1024] at hgt'
    rw [if_pos hgt, h1024]
    omega
  · have hle := UInt32.le_iff_toNat_le.mp (UInt32.not_lt.mp hgt)
    rw [hsub, h1024] at hle
    rw [if_neg hgt, hsub]
    omega

theorem and_FFFE : ∀ n < 513, n &&& 0xFFFE = n / 2 * 2 := by decide +kernel

/-- What is sent is at most what is left, and without the whole sectors no more than the buffer takes. -/
theorem scpSentLen_toNat (h : pDesc.scp_cur_track_offset ≤ scpLen pDesc) :
    (scpSentLen pDesc).toNat =
      if ScpAligned pDesc then 2 * min (scpLeft pDesc) 1024
      else min (2 * min (scpLeft pDesc) 1024) (512 - (scpOffset pDesc).toNat % 512) / 2 * 2 := by
  have htrans := scpTransLen_toNat h
  rw [scpSentLen]
  by_cases ha : ScpAligned pDesc
  · rw [if_pos ha, if_pos ha, htrans]
  · have hlt := Nat.mod_lt (scpOffset pDesc).toNat (show 0 < 512 by decide)
    have h200 : (0x200 : UInt32).toNat = 512 := rfl
    have hroom : (0x200 - (scpOffset pDesc &&& 0x1FF)).toNat
        = 512 - (scpOffset pDesc).toNat % 512 := by
      rw [UInt32.toNat_sub_of_le _ _ (UInt32.le_iff_toNat_le.mpr (by
        rw [Drv00.and_1FF_toNat, h200]
        omega)), Drv00.and_1FF_toNat, h200]
    have hmin : (if scpTransLen pDesc > 0x200 - (scpOffset pDesc &&& 0x1FF)
          then 0x200 - (scpOffset pDesc &&& 0x1FF) else scpTransLen pDesc).toNat
        = min (2 * min (scpLeft pDesc) 1024) (512 - (scpOffset pDesc).toNat % 512) := by
      split
      · next hgt =>
        have hgt' := UInt32.lt_iff_toNat_lt.mp hgt
        omega
      · next hle =>
        have hle' := UInt32.le_iff_toNat_le.mp (UInt32.not_lt.mp hle)
        omega
    rw [if_neg ha, if_neg ha, UInt32.toNat_and, hmin,
      show (0xFFFE : UInt32).toNat = 0xFFFE from rfl]
    exact and_FFFE _ (by omega)

theorem scpWords_two (h : pDesc.scp_cur_track_offset ≤ scpLen pDesc) :
    (scpSentLen pDesc).toNat = 2 * scpWords pDesc ∧ scpWords pDesc ≤ scpLeft pDesc ∧
      scpWords pDesc ≤ 1024 := by
  rw [scpWords, scpSentLen_toNat h]
  split <;> omega

/-- The position behind a burst, as long as it is not that of another revolution. -/
theorem scpNext_position (h : pDesc.scp_cur_track_offset ≤ scpLen pDesc) :
    (pDesc.scp_cur_track_offset + (scpSentLen pDesc >>> 1)).toNat
        = pDesc.scp_cur_track_offset.toNat + scpWords pDesc ∧
      (pDesc.scp_cur_track_offset + (scpSentLen pDesc >>> 1) ≥ scpLen pDesc ↔
        scpWords pDesc = scpLeft pDesc) := by
  obtain ⟨hlen, hleft, -⟩ := scpWords_two h
  have hle := UInt32.le_iff_toNat_le.mp h
  have hlt := (scpLen pDesc).toNat_lt
  have hwords : (scpSentLen pDesc >>> 1).toNat = scpWords pDesc := by
    rw [UInt32.toNat_shiftRight, show (1 : UInt32).toNat % 32 = 1 from rfl, Nat.shiftRight_one]
    rfl
  have hpos : (pDesc.scp_cur_track_offset + (scpSentLen pDesc >>> 1)).toNat
      = pDesc.scp_cur_track_offset.toNat + scpWords pDesc := by
    rw [scpLeft] at hleft
    rw [UInt32.toNat_add, hwords]
    exact Nat.mod_eq_of_lt (by omega)
  refine ⟨hpos, ?_⟩
  rw [ge_iff_le, UInt32.le_iff_toNat_le, hpos]
  rw [scpLeft] at hleft ⊢
  omega

theorem ScpOk.next (h : ScpOk pDesc) (haddr : pDesc.scp_cur_track_header_addr ≠ 0) :
    ScpOk (scpNext pDesc) := by
  obtain ⟨hpos, hend⟩ := scpNext_position (h.offset haddr)
  have hrevs := h.revolutions
  have hrev := UInt8.lt_iff_toNat_lt.mp h.rev
  rw [scpNext]
  split
  · refine ⟨hrevs, ?_, fun _ => UInt32.le_iff_toNat_le.mpr (Nat.zero_le _)⟩
    show (if pDesc.scp_cur_track_rev + 1 = pDesc.scp_revolutions then 0
      else pDesc.scp_cur_track_rev + 1) < pDesc.scp_revolutions
    have hsucc : (pDesc.scp_cur_track_rev + 1).toNat = pDesc.scp_cur_track_rev.toNat + 1 := by
      rw [UInt8.toNat_add, show (1 : UInt8).toNat = 1 from rfl]
      exact Nat.mod_eq_of_lt (by omega)
    split
    · exact UInt8.lt_iff_toNat_lt.mpr (Nat.zero_lt_of_lt hrev)
    · next hne =>
      have hne' : (pDesc.scp_cur_track_rev + 1).toNat ≠ pDesc.scp_revolutions.toNat :=
        fun heq => hne (UInt8.toNat_inj.mp heq)
      rw [UInt8.lt_iff_toNat_lt]
      omega
  · next hlt => exact ⟨hrevs, h.rev, fun _ => UInt32.le_of_lt (UInt32.not_le.mp hlt)⟩

/-! ### Any requests -/

theorem scpStep_ok (h : ScpOk pDrive.pDesc) (track : UInt8) : ScpOk (scpStep pDrive track).pDesc := by
  have hrev := UInt8.lt_iff_toNat_lt.mp h.rev
  rw [scpStep]
  simp only
  split
  · exact ⟨h.revolutions, h.rev, fun hne => absurd rfl hne⟩
  split
  · exact ⟨h.revolutions, h.rev, fun hne => absurd rfl hne⟩
  · refine ⟨h.revolutions, UInt8.lt_iff_toNat_lt.mpr (Nat.zero_lt_of_lt hrev), fun _ => ?_⟩
    simp only [scpLen]
    split
    · exact UInt32.le_iff_toNat_le.mpr (Nat.zero_le _)
    · next hle => exact UInt32.not_lt.mp hle

theorem scpSelect_ok (h : ScpOk pDrive.pDesc) (track : UInt8) :
    ScpOk (scpSelect pDrive track).pDesc := by
  rw [scpSelect]
  split
  · exact scpStep_ok h track
  · exact h

/-- A read of a track that is there is a burst, and a read of one that is not does nothing. -/
theorem scpRead_eq (pDrive : Drive) (pBuffer : ℕ → UInt8) (rq : Request) :
    scpRead pDrive pBuffer rq =
      if (scpSelect pDrive (rq.cmd 2)).pDesc.scp_cur_track_header_addr = 0 then
        (scpSelect pDrive (rq.cmd 2), pBuffer, [.stat statReqAck, .stat statAckOk])
      else
        ((scpBurst (scpSelect pDrive (rq.cmd 2)) pBuffer).1,
          (scpBurst (scpSelect pDrive (rq.cmd 2)) pBuffer).2.1,
          [.stat statReqAck] ++ (scpBurst (scpSelect pDrive (rq.cmd 2)) pBuffer).2.2
            ++ [.stat statAckOk]) := rfl

theorem scpRead_ok (h : ScpOk pDrive.pDesc) (pBuffer : ℕ → UInt8) (rq : Request) :
    ScpOk (scpRead pDrive pBuffer rq).1.pDesc := by
  have hsel := scpSelect_ok h (rq.cmd 2)
  rw [scpRead_eq]
  split
  · exact hsel
  · next haddr =>
    simp only
    rw [(scpBurst_eq _ pBuffer).1]
    exact hsel.next haddr

/-- The image as it is inserted. -/
theorem insertInit_scpOk {status : UInt8} {fSource : FIL} {ext : List UInt8} {hdr : ℕ → UInt8}
    (h : insertInit status fSource ext hdr = some pDrive) (hscp : pDrive.pDesc.format = .SCP) :
    ScpOk pDrive.pDesc := by
  rw [insertInit] at h
  simp only at h
  split at h
  · rw [← Option.some.inj h] at hscp
    exact Format.noConfusion hscp
  split at h
  · split at h
    · exact absurd h.symm (Option.some_ne_none _)
    split at h
    · exact absurd h.symm (Option.some_ne_none _)
    · next hrange =>
      obtain rfl := Option.some.inj h
      simp only [not_or] at hrange
      obtain ⟨-, h1, h5, -⟩ := hrange
      have h1' := UInt8.le_iff_toNat_le.mp (UInt8.not_lt.mp h1)
      have h5' := UInt8.le_iff_toNat_le.mp (UInt8.not_lt.mp h5)
      refine ⟨h5', UInt8.lt_iff_toNat_lt.mpr ?_, fun hne => absurd rfl hne⟩
      exact Nat.lt_of_lt_of_le Nat.zero_lt_one h1'
  · exact absurd h.symm (Option.some_ne_none _)

/-! ### What is sent -/

/-- The flux data among what was sent. The marker at the start of a revolution is none. -/
def fluxSent (outs : List FChOut) : List UInt8 :=
  outs.flatMap fun
    | .fifo mode bs => if mode = 0 then bs else []
    | .direct bs => bs
    | _ => []

/-- Where the next word of the revolution stands in the file. -/
def scpPlace (pDesc : Desc) : ℕ :=
  pDesc.scp_cur_track_header_addr.toNat
    + (tloOffset pDesc.scp_cur_track_header pDesc.scp_cur_track_rev).toNat
    + 2 * pDesc.scp_cur_track_offset.toNat

/-- The offset that is sought is that place, in 32 bits. -/
theorem scpOffset_toNat (pDesc : Desc) : (scpOffset pDesc).toNat = scpPlace pDesc % 2 ^ 32 := by
  rw [scpOffset, scpPlace, UInt32.toNat_add, UInt32.toNat_add, UInt32.toNat_shiftLeft,
    show (1 : UInt32).toNat % 32 = 1 from rfl, Nat.shiftLeft_eq]
  omega

/-- The position is inside the revolution, the remaining length does not underflow, and what goes through
    the buffer fits into it. -/
structure ScpSafe (pDrive : Drive) (pBuffer : ℕ → UInt8) : Prop where
  revolutions : pDrive.pDesc.scp_revolutions.toNat ≤ 5
  rev : pDrive.pDesc.scp_cur_track_rev < pDrive.pDesc.scp_revolutions
  offset : pDrive.pDesc.scp_cur_track_offset ≤ scpLen pDrive.pDesc
  remaining : (scpLen pDrive.pDesc - pDrive.pDesc.scp_cur_track_offset).toNat
    = (scpLen pDrive.pDesc).toNat - pDrive.pDesc.scp_cur_track_offset.toNat
  buffer : ∀ bs, .fifo 0 bs ∈ (scpBurst pDrive pBuffer).2.2 → bs.length ≤ 512

/-- What is sent are the next words of the revolution, all that the position moves on by; at the end of
    the revolution the next one begins. -/
structure SendsNext (pDrive : Drive) (pBuffer : ℕ → UInt8) : Prop where
  words : fluxSent (scpBurst pDrive pBuffer).2.2
    = (pDrive.fSource.data.drop (scpPlace pDrive.pDesc)).take (2 * scpWords pDrive.pDesc)
  all : (fluxSent (scpBurst pDrive pBuffer).2.2).length = 2 * scpWords pDrive.pDesc
  order : (scpBurst pDrive pBuffer).1.pDesc =
    if pDrive.pDesc.scp_cur_track_offset.toNat + scpWords pDrive.pDesc = (scpLen pDrive.pDesc).toNat then
      { pDrive.pDesc with
        scp_cur_track_offset := 0
        scp_cur_track_rev :=
          if pDrive.pDesc.scp_cur_track_rev + 1 = pDrive.pDesc.scp_revolutions then 0
          else pDrive.pDesc.scp_cur_track_rev + 1 }
    else
      { pDrive.pDesc with
        scp_cur_track_offset :=
          (pDrive.pDesc.scp_cur_track_offset.toNat + scpWords pDrive.pDesc).toUInt32 }

/-- The file has the words, below 4 GiB (or the same ones where the offset comes to in 32 bits). -/
def HasFlux (pDrive : Drive) : Prop :=
  scpWords pDrive.pDesc = 0 ∨
    scpPlace pDrive.pDesc + 2 * scpWords pDrive.pDesc ≤ pDrive.fSource.objsize ∧
      (scpPlace pDrive.pDesc < 2 ^ 32 ∨
        (pDrive.fSource.data.drop (scpPlace pDrive.pDesc % 2 ^ 32)).take (2 * scpWords pDrive.pDesc)
          = (pDrive.fSource.data.drop (scpPlace pDrive.pDesc)).take (2 * scpWords pDrive.pDesc))

theorem scpSelect_good (h : Good pDrive.fSource) (track : UInt8) :
    Good (scpSelect pDrive track).fSource := by
  rw [scpSelect]
  split
  · rw [scpStep]
    simp only
    split
    · exact h
    · split
      · exact (h.seek _).read 4
      · exact (((h.seek _).read 4).seek _).read 64
  · exact h

theorem scpRead_good (h : Good pDrive.fSource) (pBuffer : ℕ → UInt8) (rq : Request) :
    Good (scpRead pDrive pBuffer rq).1.fSource := by
  have hsel := scpSelect_good h (rq.cmd 2)
  rw [scpRead_eq]
  split
  · exact hsel
  · simp only
    rw [(scpBurst_eq _ pBuffer).2.1]
    exact (hsel.seek _).read _

theorem fluxSent_burst (pDrive : Drive) (pBuffer : ℕ → UInt8) :
    fluxSent (scpBurst pDrive pBuffer).2.2 = fluxSent [scpSent pDrive pBuffer] := by
  rw [(scpBurst_eq pDrive pBuffer).2.2, fluxSent, List.flatMap_append]
  have hmarker : fluxSent (if pDrive.pDesc.scp_cur_track_offset = 0 then [.fifo 1 [0x00, 0x04]] else [])
      = [] := by
    split <;> rfl
  rw [fluxSent] at hmarker
  rw [hmarker]
  rfl

/-- A burst inside the file sends the bytes that are there. -/
theorem fluxSent_inside (h : Good pDrive.fSource)
    (hin : (scpOffset pDrive.pDesc).toNat + (scpSentLen pDrive.pDesc).toNat ≤ pDrive.fSource.objsize) :
    fluxSent (scpBurst pDrive pBuffer).2.2
      = (pDrive.fSource.data.drop (scpOffset pDrive.pDesc).toNat).take (scpSentLen pDrive.pDesc).toNat := by
  have hle : (scpOffset pDrive.pDesc).toNat ≤ pDrive.fSource.objsize := by omega
  obtain ⟨clust, hseek⟩ := FF_Seek_in h.ok h.sound.err hle
  have hgood := h.seek (scpOffset pDrive.pDesc).toNat
  have hcap := h.sound.size_le
  have hread := h.sound.readable
  rw [fluxSent_burst, scpSent]
  rw [hseek] at hgood ⊢
  have hlen : ((pDrive.fSource.data.drop (scpOffset pDrive.pDesc).toNat).take
      (scpSentLen pDrive.pDesc).toNat).length = (scpSentLen pDrive.pDesc).toNat := by
    rw [List.length_take, List.length_drop]
    have : pDrive.fSource.data.length = pDrive.fSource.objsize := rfl
    omega
  have hsize : pDrive.fSource.objsize = ({ pDrive.fSource with
    fptr := (scpOffset pDrive.pDesc).toNat, clust := clust } : FIL).objsize := rfl
  by_cases ha : ScpAligned pDrive.pDesc
  · have hlen512 : (scpSentLen pDrive.pDesc).toNat % 512 = 0 := by
      rw [scpSentLen, if_pos ha]
      exact and_1FF_mod ha.2
    rw [if_pos ha, FF_ReadDirect_eq hgood.ok hgood.sound.err (and_1FF_mod ha.1) hlen512
      (by rw [← hsize]; exact hin) (by simp only; omega)]
    exact List.append_nil _
  · rw [if_neg ha, FF_Read_in hgood.ok hgood.sound.err (by rw [← hsize]; exact hin)
      (by simp only; omega)]
    simp only [fluxSent, List.flatMap_cons, List.flatMap_nil, List.append_nil, if_pos]
    exact (congrArg _ (by rw [hlen])).trans (map_readInto pBuffer _)

/-- A read of no bytes sends none. -/
theorem fluxSent_none (h : scpSentLen pDrive.pDesc = 0) : fluxSent (scpBurst pDrive pBuffer).2.2 = [] := by
  have hread : ∀ fp : FIL, (FF_Read fp 0).1 = [] := by
    intro fp
    rw [FF_Read, f_read]
    split
    · rfl
    · simp only [Nat.zero_min]
      rfl
  rw [fluxSent_burst, scpSent, h]
  split
  · simp only [UInt32.toNat_zero, FF_ReadDirect, hread, List.drop_nil, List.take_nil]
    rfl
  · rfl

/-- The position behind a burst is that of the word behind the last one. -/
theorem scpNext_order (h : pDesc.scp_cur_track_offset ≤ scpLen pDesc) :
    scpNext pDesc =
      if pDesc.scp_cur_track_offset.toNat + scpWords pDesc = (scpLen pDesc).toNat then
        { pDesc with
          scp_cur_track_offset := 0
          scp_cur_track_rev :=
            if pDesc.scp_cur_track_rev + 1 = pDesc.scp_revolutions then 0
            else pDesc.scp_cur_track_rev + 1 }
      else
        { pDesc with
          scp_cur_track_offset := (pDesc.scp_cur_track_offset.toNat + scpWords pDesc).toUInt32 } := by
  obtain ⟨hpos, hend⟩ := scpNext_position h
  have hle := UInt32.le_iff_toNat_le.mp h
  have hiff : pDesc.scp_cur_track_offset.toNat + scpWords pDesc = (scpLen pDesc).toNat ↔
      scpWords pDesc = scpLeft pDesc := by
    rw [scpLeft]
    omega
  rw [scpNext]
  by_cases hw : scpWords pDesc = scpLeft pDesc
  · rw [if_pos (hend.mpr hw), if_pos (hiff.mpr hw)]
  · rw [if_neg fun hge => hw (hend.mp hge), if_neg fun heq => hw (hiff.mp heq), ← hpos]
    exact congrArg (fun pos => { pDesc with scp_cur_track_offset := pos }) UInt32.ofNat_toNat.symm

theorem sendsNext_iff (h : Good pDrive.fSource)
    (hpos : pDrive.pDesc.scp_cur_track_offset ≤ scpLen pDrive.pDesc) :
    SendsNext pDrive pBuffer ↔ HasFlux pDrive := by
  obtain ⟨hlen, -, -⟩ := scpWords_two hpos
  have hofs := scpOffset_toNat pDrive.pDesc
  have hmod := Nat.mod_le (scpPlace pDrive.pDesc) (2 ^ 32)
  have hsize : pDrive.fSource.data.length = pDrive.fSource.objsize := rfl
  constructor
  · rintro ⟨hwords, hall, -⟩
    rw [HasFlux]
    rcases Nat.eq_zero_or_pos (scpWords pDrive.pDesc) with h0 | hgt
    · exact Or.inl h0
    · have hin : scpPlace pDrive.pDesc + 2 * scpWords pDrive.pDesc ≤ pDrive.fSource.objsize := by
        rw [hwords, List.length_take, List.length_drop] at hall
        omega
      rw [fluxSent_inside h (by omega), hofs, hlen] at hwords
      exact Or.inr ⟨hin, Or.inr hwords⟩
  · intro hflux
    have horder : (scpBurst pDrive pBuffer).1.pDesc = _ :=
      (scpBurst_eq pDrive pBuffer).1.trans (scpNext_order hpos)
    rcases hflux with h0 | ⟨hin, hsame⟩
    · have hnone := @fluxSent_none _ pBuffer
        (UInt32.toNat_inj.mp (show (scpSentLen pDrive.pDesc).toNat = 0 by omega))
      exact ⟨by rw [hnone, h0]; rfl, by rw [hnone, h0]; rfl, horder⟩
    · have hsent := @fluxSent_inside _ pBuffer h (by omega)
      have hwords : fluxSent (scpBurst pDrive pBuffer).2.2
          = (pDrive.fSource.data.drop (scpPlace pDrive.pDesc)).take (2 * scpWords pDrive.pDesc) := by
        rw [hsent, hofs, hlen]
        rcases hsame with hlt | hsame
        · rw [Nat.mod_eq_of_lt hlt]
        · exact hsame
      refine ⟨hwords, ?_, horder⟩
      rw [hwords, List.length_take, List.length_drop]
      omega

theorem ScpOk.safe (h : ScpOk pDrive.pDesc) (haddr : pDrive.pDesc.scp_cur_track_header_addr ≠ 0) :
    ScpSafe pDrive pBuffer := by
  have hpos := h.offset haddr
  refine ⟨h.revolutions, h.rev, hpos, UInt32.toNat_sub_of_le _ _ hpos, fun bs hbs => ?_⟩
  have hlen := scpSentLen_toNat hpos
  rw [(scpBurst_eq pDrive pBuffer).2.2] at hbs
  rcases List.mem_append.mp hbs with hmarker | hsent
  · split at hmarker
    · exact absurd (List.mem_singleton.mp hmarker) (by simp)
    · exact absurd hmarker List.not_mem_nil
  · have heq := List.mem_singleton.mp hsent
    rw [scpSent] at heq
    by_cases ha : ScpAligned pDrive.pDesc
    · rw [if_pos ha] at heq
      exact FChOut.noConfusion heq
    · rw [if_neg ha] at heq hlen
      rw [(FChOut.fifo.inj heq).2, List.length_map, List.length_range]
      omega

/-! ### Every read of a run -/

/-- `P` holds of every burst that the reads come to. -/
def EachRead (P : Drive → (ℕ → UInt8) → Prop) : Drive → List (Request × (ℕ → UInt8)) → Prop
  | _, [] => True
  | d, (rq, b) :: rqs =>
    ((scpSelect d (rq.cmd 2)).pDesc.scp_cur_track_header_addr ≠ 0 → P (scpSelect d (rq.cmd 2)) b) ∧
      EachRead P (scpRead d b rq).1 rqs

/-- What holds of every state that a read can come to holds of every read. -/
theorem eachRead_of {P : Drive → (ℕ → UInt8) → Prop}
    (hP : ∀ d b, Good d.fSource → ScpOk d.pDesc → d.pDesc.scp_cur_track_header_addr ≠ 0 → P d b) :
    ∀ (rqs : List (Request × (ℕ → UInt8))) {d : Drive}, Good d.fSource → ScpOk d.pDesc →
      EachRead P d rqs
  | [], _, _, _ => trivial
  | (rq, b) :: rqs, _, hgood, hok =>
    ⟨hP _ b (scpSelect_good hgood _) (scpSelect_ok hok _),
      eachRead_of hP rqs (scpRead_good hgood b rq) (scpRead_ok hok b rq)⟩

/-- What are the same for every state that a read can come to are the same for every run. -/
theorem eachRead_iff {P Q : Drive → (ℕ → UInt8) → Prop}
    (hPQ : ∀ d b, Good d.fSource → ScpOk d.pDesc → d.pDesc.scp_cur_track_header_addr ≠ 0 →
      (P d b ↔ Q d b)) :
    ∀ (rqs : List (Request × (ℕ → UInt8))) {d : Drive}, Good d.fSource → ScpOk d.pDesc →
      (EachRead P d rqs ↔ EachRead Q d rqs)
  | [], _, _, _ => Iff.rfl
  | (rq, b) :: rqs, d, hgood, hok => by
    have hhere : ∀ haddr, (P (scpSelect d (rq.cmd 2)) b ↔ Q (scpSelect d (rq.cmd 2)) b) :=
      hPQ _ b (scpSelect_good hgood _) (scpSelect_ok hok _)
    exact and_congr (forall_congr' hhere)
      (eachRead_iff hPQ rqs (scpRead_good hgood b rq) (scpRead_ok hok b rq))

/-- The file of an image as it is inserted. -/
theorem insertInit_good {status : UInt8} {fSource : FIL} {ext : List UInt8} {hdr : ℕ → UInt8}
    (h : insertInit status fSource ext hdr = some pDrive) (hf : Good fSource) :
    Good pDrive.fSource := by
  rw [insertInit] at h
  simp only at h
  split at h
  · rw [← Option.some.inj h]
    exact hf
  split at h
  · split at h
    · exact absurd h.symm (Option.some_ne_none _)
    split at h
    · exact absurd h.symm (Option.some_ne_none _)
    · rw [← Option.some.inj h]
      exact (hf.seek 0).read 16
  · exact absurd h.symm (Option.some_ne_none _)

/-- Every read keeps to the revolution and to the buffer, and it sends the next words of the revolution if
    and only if the file has them. -/
theorem scpRead_next_iff {status : UInt8} {fSource : FIL} {ext : List UInt8} {hdr : ℕ → UInt8}
    (h : insertInit status fSource ext hdr = some pDrive) (hscp : pDrive.pDesc.format = .SCP)
    (hf : Good fSource) (rqs : List (Request × (ℕ → UInt8))) :
    EachRead ScpSafe pDrive rqs ∧
      (EachRead SendsNext pDrive rqs ↔ EachRead (fun d _ => HasFlux d) pDrive rqs) := by
  have hok := insertInit_scpOk h hscp
  have hgood := insertInit_good h hf
  refine ⟨eachRead_of (fun d b _ hd haddr => hd.safe haddr) rqs hgood hok, ?_⟩
  exact eachRead_iff (fun d b hdf hd haddr => sendsNext_iff hdf (hd.offset haddr)) rqs hgood hok

/-- An image of one track with one revolution of two words, which is `lo + 256 * hi` behind the header of
    the track, and with `rest` behind that header. -/
def fluxImage (lo hi : UInt8) (rest : List UInt8) : File :=
  let header : List UInt8 := [0x53, 0x43, 0x50, 0, 0, 1, 0, 0, 0, 0, 0, 0, 0, 0, 0, 0, 0x14, 0, 0, 0]
  let trk : List UInt8 := [0x54, 0x52, 0x4B, 0, 0, 0, 0, 0, 2, 0, 0, 0, lo, hi, 0, 0]
  let data := header ++ trk ++ List.replicate 48 0 ++ rest
  { data := data, slack := fun _ => 0, cap := data.length, csize := 4096, readable := data.length
    size_le := le_refl _, csize_pos := by decide }

theorem fluxImage_good (lo hi : UInt8) (rest : List UInt8) :
    Good (f_open (fluxImage lo hi rest) false) :=
  ⟨f_open_ok _ _, ⟨(fluxImage lo hi rest).csize_pos, le_refl _, rfl, le_refl _⟩⟩

/-- The image in a drive. -/
def fluxDrive (lo hi : UInt8) (rest : List UInt8) : Option Drive :=
  insertInit 0x03 (f_open (fluxImage lo hi rest) false) [0x53, 0x43, 0x50] fun _ => 0

/-- A read of track 0. -/
def readFlux : Request :=
  { status := 0x08, cmd := fun _ => 0, fifo := fun _ => 0 }

/-- The read sends the two words behind the track header. -/
theorem scpRead_next_two : ∃ d, fluxDrive 64 0 [1, 2, 3, 4] = some d ∧
    EachRead ScpSafe d [(readFlux, fun _ => 0)] ∧ EachRead SendsNext d [(readFlux, fun _ => 0)] := by
  obtain ⟨d, hd⟩ : ∃ d, fluxDrive 64 0 [1, 2, 3, 4] = some d :=
    Option.isSome_iff_exists.mp (by decide)
  have hfacts : ∀ d ∈ fluxDrive 64 0 [1, 2, 3, 4], d.pDesc.format = .SCP ∧
      scpPlace (scpSelect d 0).pDesc + 2 * scpWords (scpSelect d 0).pDesc
        ≤ (scpSelect d 0).fSource.objsize ∧
      scpPlace (scpSelect d 0).pDesc < 2 ^ 32 := by
    decide
  obtain ⟨hscp, hin, hlt⟩ := hfacts d hd
  have hrun := scpRead_next_iff hd hscp (fluxImage_good 64 0 [1, 2, 3, 4]) [(readFlux, fun _ => 0)]
  exact ⟨d, hd, hrun.1, hrun.2.mpr ⟨fun _ => Or.inr ⟨hin, Or.inl hlt⟩, trivial⟩⟩

/-- The file ends behind the track header: what the buffer holds is sent in place of the words. -/
theorem missing_flux_sent : ¬∀ (status : UInt8) (fSource : FIL) (ext : List UInt8) (hdr : ℕ → UInt8)
    (d : Drive), insertInit status fSource ext hdr = some d → d.pDesc.format = .SCP → Good fSource →
      ∀ rqs, EachRead ScpSafe d rqs ∧ EachRead SendsNext d rqs := by
  intro hall
  obtain ⟨d, hd⟩ : ∃ d, fluxDrive 64 0 [] = some d := Option.isSome_iff_exists.mp (by decide)
  have hfacts : ∀ d ∈ fluxDrive 64 0 [], d.pDesc.format = .SCP ∧
      (scpSelect d 0).pDesc.scp_cur_track_header_addr ≠ 0 ∧
      fluxSent (scpBurst (scpSelect d 0) fun _ => 0).2.2 = [0, 0, 0, 0] ∧
      ((scpSelect d 0).fSource.data.drop (scpPlace (scpSelect d 0).pDesc)).take
        (2 * scpWords (scpSelect d 0).pDesc) = [] := by
    decide
  obtain ⟨hscp, haddr, hsent, hfile⟩ := hfacts d hd
  have hrun := (hall _ _ _ _ d hd hscp (fluxImage_good 64 0 []) [(readFlux, fun _ => 0)]).2
  have hwords := (hrun.1 haddr).words
  exact absurd (hsent.symm.trans (hwords.trans hfile)) (by decide)

/-! ### Progress -/

/-- The drive behind the reads. -/
def scpReads : Drive → List (Request × (ℕ → UInt8)) → Drive
  | d, [] => d
  | d, (rq, b) :: rqs => scpReads (scpRead d b rq).1 rqs

/-- A burst in this state sends all that is left of the revolution. -/
def EndsRevolution (pDesc : Desc) : Prop := scpWords pDesc = scpLeft pDesc

/-- After finitely many reads of the track, whatever they find in the buffer, one ends the revolution. -/
def Completes (pDrive : Drive) : Prop :=
  ∃ n, ∀ rqs : List (Request × (ℕ → UInt8)), rqs.length = n →
    (∀ r ∈ rqs, r.1.cmd 2 = pDrive.pDesc.scp_cur_track) → EndsRevolution (scpReads pDrive rqs).pDesc

/-- While words are left, the read sends one at least, and reads of the track come to their end. -/
def Progress (pDrive : Drive) (pBuffer : ℕ → UInt8) : Prop :=
  0 < scpLeft pDrive.pDesc →
    2 ≤ (fluxSent (scpBurst pDrive pBuffer).2.2).length ∧ Completes pDrive

/-- The next word stands at an even place, or the rest of the revolution fits in front of the next sector
    boundary; and where whole sectors go, the first one is in the file. -/
def FluxFits (pDrive : Drive) : Prop :=
  0 < scpLeft pDrive.pDesc →
    ((scpOffset pDrive.pDesc).toNat % 2 = 0 ∨
      2 * scpLeft pDrive.pDesc ≤ 511 - (scpOffset pDrive.pDesc).toNat % 512) ∧
    (ScpAligned pDrive.pDesc → (scpOffset pDrive.pDesc).toNat + 512 ≤ pDrive.fSource.objsize)

/-- Reads of the track move its position on, and do nothing else to the descriptor. -/
theorem scpReads_pDesc : ∀ (rqs : List (Request × (ℕ → UInt8))) {d : Drive},
    d.pDesc.scp_cur_track_header_addr ≠ 0 → (∀ r ∈ rqs, r.1.cmd 2 = d.pDesc.scp_cur_track) →
      (scpReads d rqs).pDesc = scpNext^[rqs.length] d.pDesc
  | [], _, _, _ => rfl
  | (rq, b) :: rqs, d, haddr, htrack => by
    have hsel : scpSelect d (rq.cmd 2) = d := by
      rw [scpSelect, if_neg fun hne => hne (htrack (rq, b) List.mem_cons_self)]
    have hdesc : (scpRead d b rq).1.pDesc = scpNext d.pDesc := by
      rw [scpRead_eq, hsel, if_neg haddr]
      exact (scpBurst_eq d b).1
    have hkept : (scpNext d.pDesc).scp_cur_track = d.pDesc.scp_cur_track ∧
        (scpNext d.pDesc).scp_cur_track_header_addr = d.pDesc.scp_cur_track_header_addr := by
      rw [scpNext]
      split <;> exact ⟨rfl, rfl⟩
    have hrest := scpReads_pDesc rqs (d := (scpRead d b rq).1) (by rw [hdesc, hkept.2]; exact haddr)
      fun r hr => by rw [hdesc, hkept.1]; exact htrack r (List.mem_cons_of_mem _ hr)
    rw [scpReads, hrest, hdesc, List.length_cons, Function.iterate_succ_apply]

theorem completes_iff (haddr : pDrive.pDesc.scp_cur_track_header_addr ≠ 0) :
    Completes pDrive ↔ ∃ n, EndsRevolution (scpNext^[n] pDrive.pDesc) := by
  constructor
  · rintro ⟨n, hn⟩
    have htrack : ∀ r ∈ List.replicate n
        (({ status := 0, cmd := fun _ => pDrive.pDesc.scp_cur_track, fifo := fun _ => 0 },
          fun _ => 0) : Request × (ℕ → UInt8)), r.1.cmd 2 = pDrive.pDesc.scp_cur_track := by
      intro r hr
      rw [(List.mem_replicate.mp hr).2]
    have hends := hn _ List.length_replicate htrack
    rw [scpReads_pDesc _ haddr htrack, List.length_replicate] at hends
    exact ⟨n, hends⟩
  · rintro ⟨n, hn⟩
    refine ⟨n, fun rqs hlen htrack => ?_⟩
    rw [scpReads_pDesc rqs haddr htrack, hlen]
    exact hn

/-- Behind a burst that does not end the revolution. -/
theorem scpNext_inside (h : pDesc.scp_cur_track_offset ≤ scpLen pDesc)
    (hne : scpWords pDesc ≠ scpLeft pDesc) :
    (scpNext pDesc).scp_cur_track_offset ≤ scpLen (scpNext pDesc) ∧
      scpLeft (scpNext pDesc) = scpLeft pDesc - scpWords pDesc ∧
      (scpOffset (scpNext pDesc)).toNat
        = ((scpOffset pDesc).toNat + 2 * scpWords pDesc) % 2 ^ 32 := by
  obtain ⟨hpos, hend⟩ := scpNext_position h
  obtain ⟨-, hleft, -⟩ := scpWords_two h
  have hlt := UInt32.not_le.mp fun hge => hne (hend.mp hge)
  have hnext : scpNext pDesc = { pDesc with
      scp_cur_track_offset := pDesc.scp_cur_track_offset + (scpSentLen pDesc >>> 1) } := by
    rw [scpNext]
    exact if_neg (UInt32.not_le.mpr hlt)
  have hplace : scpPlace { pDesc with
      scp_cur_track_offset := pDesc.scp_cur_track_offset + (scpSentLen pDesc >>> 1) }
      = scpPlace pDesc + 2 * scpWords pDesc := by
    rw [scpPlace, scpPlace]
    simp only [hpos]
    omega
  have hlen : scpLen { pDesc with
      scp_cur_track_offset := pDesc.scp_cur_track_offset + (scpSentLen pDesc >>> 1) }
      = scpLen pDesc := rfl
  rw [hnext]
  refine ⟨UInt32.le_of_lt hlt, ?_, ?_⟩
  · rw [scpLeft, hlen]
    simp only [hpos]
    rw [scpLeft]
    omega
  · rw [scpOffset_toNat, hplace, scpOffset_toNat]
    omega

/-- The words of a burst, as a function of the place and of what is left. -/
theorem scpWords_eq (h : pDesc.scp_cur_track_offset ≤ scpLen pDesc) :
    scpWords pDesc = if ScpAligned pDesc then min (scpLeft pDesc) 1024
      else min (2 * min (scpLeft pDesc) 1024) (512 - (scpOffset pDesc).toNat % 512) / 2 := by
  rw [scpWords, scpSentLen_toNat h]
  split <;> omega

theorem ScpAligned.offset (h : ScpAligned pDesc) : (scpOffset pDesc).toNat % 512 = 0 := and_1FF_mod h.1

theorem scpWords_pos (h : pDesc.scp_cur_track_offset ≤ scpLen pDesc) (hleft : 0 < scpLeft pDesc) :
    0 < scpWords pDesc ↔ (scpOffset pDesc).toNat % 512 ≠ 511 := by
  have hwords := scpWords_eq h
  by_cases ha : ScpAligned pDesc
  · have hofs := ha.offset
    rw [if_pos ha] at hwords
    omega
  · rw [if_neg ha] at hwords
    omega

/-- From an even place on, some burst ends the revolution. -/
theorem ends_even : ∀ (n : ℕ) {d : Desc}, d.scp_cur_track_offset ≤ scpLen d →
    (scpOffset d).toNat % 2 = 0 → scpLeft d ≤ n → ∃ k, EndsRevolution (scpNext^[k] d)
  | n, d, hpos, heven, hn => by
    by_cases hend : scpWords d = scpLeft d
    · exact ⟨0, hend⟩
    · obtain ⟨-, hle, -⟩ := scpWords_two hpos
      have hgt : 0 < scpWords d := (scpWords_pos hpos (by omega)).mpr (by omega)
      obtain ⟨hpos', hleft', hofs'⟩ := scpNext_inside hpos hend
      cases n with
      | zero => omega
      | succ n =>
        obtain ⟨k, hk⟩ := ends_even n hpos' (by omega) (by omega)
        exact ⟨k + 1, by rw [Function.iterate_succ_apply]; exact hk⟩

/-- From an odd place on none does, when the rest goes on behind the next sector boundary. -/
theorem not_ends_odd : ∀ (k : ℕ) {d : Desc}, d.scp_cur_track_offset ≤ scpLen d →
    (scpOffset d).toNat % 2 = 1 → 511 - (scpOffset d).toNat % 512 < 2 * scpLeft d →
      ¬EndsRevolution (scpNext^[k] d)
  | k, d, hpos, hodd, hlong => by
    have hwords := scpWords_eq hpos
    rw [if_neg fun ha => by have := ScpAligned.offset ha; omega] at hwords
    have hne : scpWords d ≠ scpLeft d := by omega
    cases k with
    | zero => exact hne
    | succ k =>
      obtain ⟨hpos', hleft', hofs'⟩ := scpNext_inside hpos hne
      rw [Function.iterate_succ_apply]
      exact not_ends_odd k hpos' (by omega) (by omega)

theorem completes_place (haddr : pDrive.pDesc.scp_cur_track_header_addr ≠ 0)
    (hpos : pDrive.pDesc.scp_cur_track_offset ≤ scpLen pDrive.pDesc) :
    Completes pDrive ↔ (scpOffset pDrive.pDesc).toNat % 2 = 0 ∨
      2 * scpLeft pDrive.pDesc ≤ 511 - (scpOffset pDrive.pDesc).toNat % 512 := by
  rw [completes_iff haddr]
  constructor
  · rintro ⟨k, hk⟩
    by_contra hstuck
    exact not_ends_odd k hpos (by omega) (by omega) hk
  · rintro (heven | hshort)
    · exact ends_even _ hpos heven (le_refl _)
    · refine ⟨0, ?_⟩
      have hwords := scpWords_eq hpos
      show scpWords pDrive.pDesc = scpLeft pDrive.pDesc
      by_cases ha : ScpAligned pDrive.pDesc
      · rw [if_pos ha] at hwords
        omega
      · rw [if_neg ha] at hwords
        omega

/-- What a burst of whole sectors sends comes from the first one on, if that is in the file. -/
theorem aligned_sends (h : Good pDrive.fSource)
    (hpos : pDrive.pDesc.scp_cur_track_offset ≤ scpLen pDrive.pDesc)
    (hleft : 0 < scpLeft pDrive.pDesc) (ha : ScpAligned pDrive.pDesc) :
    2 ≤ (fluxSent (scpBurst pDrive pBuffer).2.2).length ↔
      (scpOffset pDrive.pDesc).toNat + 512 ≤ pDrive.fSource.objsize := by
  have hgood := h.seek (scpOffset pDrive.pDesc).toNat
  obtain ⟨hsought, -, hin, hout⟩ := seek_sought h.sound (scpOffset pDrive.pDesc).toNat
  have hofs := ha.offset
  have hsize := hsought.size
  have hlen : 512 ≤ (scpSentLen pDrive.pDesc).toNat := by
    have htrans := scpTransLen_toNat hpos
    have hmod := and_1FF_mod ha.2
    rw [scpSentLen]
    simp only [if_pos ha]
    omega
  have hread := hgood.read_length (scpSentLen pDrive.pDesc).toNat
  have hsent : fluxSent (scpBurst pDrive pBuffer).2.2
      = (FF_ReadDirect (FF_Seek pDrive.fSource (scpOffset pDrive.pDesc).toNat).2
          (scpSentLen pDrive.pDesc).toNat).1 := by
    rw [fluxSent_burst, scpSent, if_pos ha]
    exact List.append_nil _
  rcases Nat.lt_or_ge pDrive.fSource.objsize (scpOffset pDrive.pDesc).toNat with hlt | hge
  · have hbehind := hout hlt
    rw [hsent, FF_ReadDirect]
    simp only [List.length_take, List.length_drop]
    omega
  · have hfptr := hin hge
    rw [hsent, FF_ReadDirect_aligned (by rw [hfptr]; exact hofs), List.length_take]
    omega

theorem progress_iff (h : Good pDrive.fSource)
    (haddr : pDrive.pDesc.scp_cur_track_header_addr ≠ 0)
    (hpos : pDrive.pDesc.scp_cur_track_offset ≤ scpLen pDrive.pDesc) :
    Progress pDrive pBuffer ↔ FluxFits pDrive := by
  refine forall_congr' fun hleft => ?_
  rw [completes_place haddr hpos]
  obtain ⟨hlen, -, -⟩ := scpWords_two hpos
  have hwords := scpWords_pos hpos hleft
  by_cases ha : ScpAligned pDrive.pDesc
  · have hsends := @aligned_sends _ pBuffer h hpos hleft ha
    have hofs := ha.offset
    simp only [ha, forall_const]
    omega
  · have hsent : (fluxSent (scpBurst pDrive pBuffer).2.2).length = (scpSentLen pDrive.pDesc).toNat := by
      rw [fluxSent_burst, scpSent, if_neg ha]
      simp only [fluxSent, List.flatMap_cons, List.flatMap_nil, List.append_nil, if_pos,
        List.length_map, List.length_range]
    simp only [ha, IsEmpty.forall_iff, and_true]
    omega

/-- Every read of a revolution with words left sends some, and finitely many reads come to its end, if and
    only if the words stand at even places or in front of a sector boundary. -/
theorem scpRead_progress_iff {status : UInt8} {fSource : FIL} {ext : List UInt8} {hdr : ℕ → UInt8}
    (h : insertInit status fSource ext hdr = some pDrive) (hscp : pDrive.pDesc.format = .SCP)
    (hf : Good fSource) (rqs : List (Request × (ℕ → UInt8))) :
    EachRead Progress pDrive rqs ↔ EachRead (fun d _ => FluxFits d) pDrive rqs :=
  eachRead_iff (fun _ _ hdf hd haddr => progress_iff hdf haddr (hd.offset haddr)) rqs
    (insertInit_good h hf) (insertInit_scpOk h hscp)

theorem scpRead_progress_two : ∃ d, fluxDrive 64 0 [1, 2, 3, 4] = some d ∧
    EachRead Progress d [(readFlux, fun _ => 0)] := by
  obtain ⟨d, hd⟩ : ∃ d, fluxDrive 64 0 [1, 2, 3, 4] = some d :=
    Option.isSome_iff_exists.mp (by decide)
  have hfacts : ∀ d ∈ fluxDrive 64 0 [1, 2, 3, 4], d.pDesc.format = .SCP ∧
      (scpOffset (scpSelect d 0).pDesc).toNat % 2 = 0 ∧ ¬ScpAligned (scpSelect d 0).pDesc := by
    decide
  obtain ⟨hscp, heven, ha⟩ := hfacts d hd
  refine ⟨d, hd, (scpRead_progress_iff hd hscp (fluxImage_good 64 0 [1, 2, 3, 4]) _).mpr ?_⟩
  exact ⟨fun _ _ => ⟨Or.inl heven, fun haligned => absurd haligned ha⟩, trivial⟩

/-- The first word stands on the last byte of a sector: nothing is ever sent. -/
theorem odd_flux_stuck : ¬∀ (status : UInt8) (fSource : FIL) (ext : List UInt8) (hdr : ℕ → UInt8)
    (d : Drive), insertInit status fSource ext hdr = some d → d.pDesc.format = .SCP → Good fSource →
      ∀ rqs, EachRead Progress d rqs := by
  intro hall
  obtain ⟨d, hd⟩ : ∃ d, fluxDrive 0xEB 0x01 (List.replicate 440 0) = some d :=
    Option.isSome_iff_exists.mp (by decide +kernel)
  have hfacts : ∀ d ∈ fluxDrive 0xEB 0x01 (List.replicate 440 0), d.pDesc.format = .SCP ∧
      (scpSelect d 0).pDesc.scp_cur_track_header_addr ≠ 0 ∧ 0 < scpLeft (scpSelect d 0).pDesc ∧
      fluxSent (scpBurst (scpSelect d 0) fun _ => 0).2.2 = [] := by
    decide +kernel
  obtain ⟨hscp, haddr, hleft, hsent⟩ := hfacts d hd
  have hsome := (hall _ _ _ _ d hd hscp (fluxImage_good _ _ _) [(readFlux, fun _ => 0)]).1 haddr hleft
  have hlen : 2 ≤ (fluxSent (scpBurst (scpSelect d 0) fun _ => 0).2.2).length := hsome.1
  rw [hsent] at hlen
  exact absurd hlen (by decide)

end FileIO.Drv01
