import ReplayFirmware.Flash.Image

/-! Verifying an image and then uploading it.

    The two passes read the file separately, each into the shared line buffer. `verify_account` and
    `upload_account` give the statics after a pass from the reading of the file; put together, they
    say when the upload sends what the verifier accounted for. -/

namespace Flash
open FatFs FileIO.MCh

/-- `DRAMupload` -/
def dramUpload : UInt32 := 0x00400000 + (576 - 480 + 480 / 5) * 720

/-- The upload in `FLASH_RebootAndFlash`, from the cleared line buffer on. -/
def uploadPass (ch : Channel) (file : Option File) (line : Line) (s : Statics) :
    Option (UInt8 × Statics) :=
  parseSRecords file (some (uploadHandler ch)) line
    { s with srecLineBuffer := fun _ => 0, srecCurrentAddr := appBase, dramBaseAddr := dramUpload }

/-! ### The statics after a pass -/

theorem Filling.start {P : Statics → List UInt8 → Prop} {s : Statics}
    (haddr : s.srecCurrentAddr = appBase) (hP : P s []) : Filling P s [] :=
  ⟨[], by rw [AtEnd, haddr]; rfl, .nil _ _, hP⟩

namespace Reading

/-- What a pass sends on of `bs`, in terms of its page buffer. -/
theorem flushed_of_paged {a : Reading} (hopen : a.ended = false) {bs out : List UInt8}
    {buf : ℕ → UInt8} (hlen : bs.length = a.img.length) (h : Paged 256 buf out bs) :
    a.flushed bs = out := by
  have hout := h.length_out
  rw [hlen] at hout
  rw [flushed, hopen, if_neg Bool.false_ne_true, ← h, whole, ← hout, List.take_left]

/-- The size the verifier reports for a reading, on top of what an earlier pass left. -/
def flashSize (a : Reading) (s : Statics) : UInt32 :=
  a.reset.elim s.s_FlashSize (fun _ => 0)
    + ((a.flushed a.seen).length - a.reset.getD 0).toUInt32

/-- The CRC register at the end of the verifier's pass. -/
def flashCrc (a : Reading) (s : Statics) : UInt32 :=
  feedCrc32 (a.reset.elim s.crc fun _ => crcInit) ((a.flushed a.seen).drop (a.reset.getD 0))

end Reading

/-- The statics the verifier leaves behind. -/
theorem verify_account {s₀ s : Statics} {a : Reading} (h : Verifying s₀ s a ∨ Verified s₀ s a) :
    s.fed = a.flushed a.seen ∧ a.reset.getD 0 ≤ (a.flushed a.seen).length ∧
      s.s_FlashSize = a.flashSize s₀ ∧
      s.s_FlashCRC32 = (if a.ended then ~~~a.flashCrc s₀ else s₀.s_FlashCRC32) ∧
      a.img.length < 2 ^ 32 := by
  obtain ⟨hopen, out, hend, hpaged, hP⟩ | ⟨hended, s1, base, hend, hP, rfl⟩ := h
  · have hout := Reading.flushed_of_paged hopen a.length_seen hpaged
    have hlt := s.srecCurrentAddr.toNat_lt
    rw [hend, a.length_seen] at hlt
    refine ⟨hP.fed.trans hout.symm, by rw [hout]; exact hP.reset_le, ?_, ?_, by omega⟩
    · rw [Reading.flashSize, hout]; exact hP.size
    · rw [hopen]; exact hP.kept
  · have hout : a.flushed a.seen = a.seen := by rw [Reading.flushed, hended, if_pos rfl]
    have hlt := s1.srecCurrentAddr.toNat_lt
    rw [hend, a.length_seen] at hlt
    refine ⟨hP.fed.trans hout.symm, by rw [hout]; exact hP.reset_le, ?_, ?_, by omega⟩
    · rw [Reading.flashSize, hout]; exact hP.size
    · rw [hended, if_pos rfl, Reading.flashCrc, hout, ← hP.crc]

/-- The transfers an upload has made. -/
theorem upload_account {s₀ s : Statics} {a : Reading} (h : Uploading s₀ s a ∨ Uploaded s₀ s a) :
    Sent s₀ s (a.flushed a.img) := by
  obtain ⟨hopen, out, _, hpaged, hsent⟩ | ⟨hended, hsent⟩ := h
  · rwa [Reading.flushed_of_paged hopen rfl hpaged]
  · rwa [Reading.flushed, hended, if_pos rfl]

/-- The verifier's pass, told from the reading of the file. -/
theorem verifySRecords_account (file : Option File) (flash : UInt32 → UInt8) (line : Line)
    (s : Statics) :
    (∀ a, reading file line = some (0, a) → ∃ crcs s', verifySRecords file flash line s
        = some (1, crcs, s')) ∧
      ∀ crcs s', verifySRecords file flash line s = some (1, crcs, s') →
        ∃ a, reading file line = some (0, a) ∧ s'.fed = a.flushed a.seen ∧
          a.reset.getD 0 ≤ (a.flushed a.seen).length ∧ s'.s_FlashSize = a.flashSize s ∧
          s'.s_FlashCRC32 = (if a.ended then ~~~a.flashCrc s else s.s_FlashCRC32) ∧
          a.img.length < 2 ^ 32 := by
  set s₀ : Statics := { s with srecCurrentAddr := appBase, fed := [] } with hs₀
  have hstart : Verifying s₀ s₀ .empty := ⟨rfl, Filling.start rfl (Tally.start _ rfl)⟩
  have hlock := (verify_lockstep s₀).parseSRecords file line hstart
  change Option.Rel _ _ (reading file line) at hlock
  unfold verifySRecords
  rw [← hs₀]
  generalize parseSRecords file (some verifyHandler) line s₀ = x at hlock
  generalize reading file line = y at hlock
  cases hlock with
  | none => exact ⟨fun a h => absurd h (by simp), fun _ _ h => absurd h (by simp)⟩
  | @some p q hpq =>
    obtain ⟨rv, s1⟩ := p
    obtain ⟨rv', a⟩ := q
    obtain ⟨hrv, hrel⟩ := hpq
    simp only at hrv hrel
    subst hrv
    by_cases h0 : rv = 0
    · subst h0
      refine ⟨fun _ _ => ⟨_, _, rfl⟩, fun crcs s' h => ⟨a, rfl, ?_⟩⟩
      simp only [ne_eq, not_true_eq_false, if_false, Option.some.injEq, Prod.mk.injEq,
        true_and] at h
      rw [← h.2]
      have hacc := verify_account hrel
      exact hacc
    · refine ⟨fun a' h => ?_, fun crcs s' h => ?_⟩
      · simp only [Option.some.injEq, Prod.mk.injEq] at h
        exact absurd h.1 h0
      · simp only [ne_eq, h0, not_false_eq_true, if_true, Option.some.injEq, Prod.mk.injEq] at h
        exact absurd h.1 (by decide)

/-- The upload's pass, told from the reading of the file. -/
theorem uploadPass_account (ch : Channel) (file : Option File) (line : Line) (s : Statics) :
    Option.Rel (fun p q => p.1 = q.1 ∧
        Sent { s with dramBaseAddr := dramUpload } p.2 (q.2.flushed q.2.img))
      (uploadPass ch file line s) (reading file line) := by
  have hstart : Uploading _ _ .empty := ⟨rfl, Filling.start rfl (Sent.start
    { s with srecLineBuffer := fun _ => 0, srecCurrentAddr := appBase, dramBaseAddr := dramUpload })⟩
  have hlock := (upload_lockstep ch _).parseSRecords file line hstart
  change Option.Rel _ (uploadPass ch file line s) (reading file line) at hlock
  generalize uploadPass ch file line s = x at hlock
  generalize reading file line = y at hlock
  cases hlock with
  | none => exact .none
  | @some p q hpq =>
    have hsent := upload_account hpq.2
    exact .some ⟨hpq.1, hsent.sent, hsent.addr, hsent.size, hsent.crc⟩

/-! ### When the passes agree -/

/-- What a verified file promises: the upload sends, from `DRAMupload` on, the bytes the verifier fed
    to the CRC; these are the image of the file, and `s_FlashSize` and `s_FlashCRC32` are its length
    and CRC. The line buffer of the parser holds something else at the start of each pass. -/
def UploadMatches (ch : Channel) (flash : UInt32 → UInt8) (file : Option File) (line line' : Line)
    (s : Statics) : Prop :=
  ∀ crcs s', verifySRecords file flash line s = some (1, crcs, s') →
    (∃ rv u ws, uploadPass ch file line' s' = some (rv, u) ∧ u.dram.sent = s'.dram.sent ++ ws ∧
      Contiguous dramUpload ws ∧ ws.flatMap Prod.snd = s'.fed) ∧
    (∃ a, reading file line = some (0, a) ∧ s'.fed = a.img) ∧
    s'.s_FlashSize.toNat = s'.fed.length ∧ s'.s_FlashCRC32 = crc32 s'.fed

/-- No header text is left over the image, the last header came before the first whole page (or there
    was none, and the statics are those of a restart), and the file has its termination record (or the
    CRC left from an earlier pass is that of this image). -/
structure Reading.Clean (a : Reading) (s : Statics) : Prop where
  text : a.flushed a.seen = a.img
  header : a.reset.getD 0 = 0
  size : a.reset = none → s.s_FlashSize = 0
  crc : a.reset = none → a.ended = true → s.crc = crcInit
  stale : a.ended = false → s.s_FlashCRC32 = crc32 a.img

theorem flashSize_eq_iff {a : Reading} {s : Statics} {n : ℕ} (hlen : (a.flushed a.seen).length = n)
    (hle : a.reset.getD 0 ≤ n) (hlt : n < 2 ^ 32) :
    (a.flashSize s).toNat = n ↔ a.reset.getD 0 = 0 ∧ (a.reset = none → s.s_FlashSize = 0) := by
  rw [Reading.flashSize, hlen]
  cases hr : a.reset with
  | none =>
    have hs := s.s_FlashSize.toNat_lt
    rw [← UInt32.toNat_inj]
    simp only [Option.elim_none, Option.getD_none, Nat.sub_zero, true_and, forall_const,
      UInt32.toNat_add, UInt32.toNat_ofNat', Nat.toUInt32]
    show _ ↔ _ = 0
    omega
  | some r =>
    rw [hr] at hle
    simp only [Option.getD_some] at hle
    simp only [Option.elim_some, Option.getD_some, UInt32.zero_add, Nat.toUInt32,
      UInt32.toNat_ofNat', reduceCtorEq, false_implies, and_true]
    omega

theorem flashCrc_eq_iff {a : Reading} {s : Statics} (h0 : a.reset.getD 0 = 0) :
    ~~~a.flashCrc s = crc32 (a.flushed a.seen) ↔ (a.reset = none → s.crc = crcInit) := by
  rw [Reading.flashCrc, h0, List.drop_zero, crc32, UInt32.not_inj]
  cases hr : a.reset with
  | none =>
    simp only [Option.elim_none, forall_const]
    exact (feedCrc32_injective _).eq_iff
  | some r => simp

/-- The upload matches what was verified exactly when both passes read the same image from the file
    and the reading is clean. -/
theorem uploadMatches_iff (ch : Channel) (flash : UInt32 → UInt8) (file : Option File)
    (line line' : Line) (s : Statics) :
    UploadMatches ch flash file line line' s ↔
      ∀ a, reading file line = some (0, a) → a.Clean s ∧
        ∃ rv a', reading file line' = some (rv, a') ∧ a'.flushed a'.img = a.img := by
  obtain ⟨hpass, hacc⟩ := verifySRecords_account file flash line s
  have hsent := fun s' => uploadPass_account ch file line' s'
  constructor
  · intro h a ha
    obtain ⟨crcs, s', hv⟩ := hpass a ha
    obtain ⟨a1, ha1, hfed, hle, hsize, hcrc, hlt⟩ := hacc crcs s' hv
    obtain ⟨⟨rv, u, ws, hu, hws, _, hbytes⟩, ⟨a2, ha2, himg⟩, hS, hC⟩ := h crcs s' hv
    obtain rfl : a = a1 := by simpa using ha.symm.trans ha1
    obtain rfl : a = a2 := by simpa using ha.symm.trans ha2
    have htext : a.flushed a.seen = a.img := hfed.symm.trans himg
    rw [hsize, himg, flashSize_eq_iff (congrArg List.length htext) (by rwa [htext] at hle) hlt] at hS
    refine ⟨⟨htext, hS.1, hS.2, fun hnone hended => ?_, fun hopen => ?_⟩, ?_⟩
    · rw [hcrc, hended, if_pos rfl, himg, ← htext] at hC
      exact (flashCrc_eq_iff hS.1).mp hC hnone
    · rwa [hcrc, hopen, if_neg Bool.false_ne_true, himg] at hC
    · have hrel := hsent s'
      rw [hu] at hrel
      generalize reading file line' = y at hrel
      cases hrel with
      | @some _ q hpq =>
        obtain ⟨_, ⟨ws', hws', _, hbytes'⟩, _⟩ := hpq
        obtain rfl : ws = ws' := List.append_cancel_left (hws.symm.trans hws')
        exact ⟨q.1, q.2, rfl, by rw [← hbytes', hbytes, himg]⟩
  · intro h crcs s' hv
    obtain ⟨a, ha, hfed, hle, hsize, hcrc, hlt⟩ := hacc crcs s' hv
    obtain ⟨hclean, rv, a', ha', himg'⟩ := h a ha
    have htext := hclean.text
    have himg : s'.fed = a.img := hfed.trans htext
    refine ⟨?_, ⟨a, ha, himg⟩, ?_, ?_⟩
    · have hrel := hsent s'
      rw [ha'] at hrel
      generalize uploadPass ch file line' s' = x at hrel
      cases hrel with
      | @some p _ hpq =>
        obtain ⟨_, ⟨ws, hws, hcont, hbytes⟩, _⟩ := hpq
        exact ⟨p.1, p.2, ws, rfl, hws, hcont, by rw [hbytes, himg, himg']⟩
    · rw [hsize, himg]
      exact (flashSize_eq_iff (congrArg List.length htext) (by rwa [htext] at hle) hlt).mpr
        ⟨hclean.header, hclean.size⟩
    · rw [hcrc, himg]
      cases hended : a.ended with
      | true =>
        rw [if_pos rfl, ← htext]
        exact (flashCrc_eq_iff hclean.header).mpr fun hnone => hclean.crc hnone hended
      | false => rw [if_neg Bool.false_ne_true]; exact hclean.stale hended

/-- The statics at power-up. -/
def Statics.boot : Statics :=
  { srecCurrentAddr := 0, srecLineBuffer := fun _ => 0, dramBaseAddr := 0, s_FlashAddress := 0
    s_FlashSize := 0, s_FlashCRC32 := 0, crc := 0, fed := []
    dram := { mem := fun _ => 0, sent := [], got := 0 } }

/-- A file on a card with 512 byte clusters, spelled out. -/
def textFile (text : String) : File :=
  let data := text.toList.map fun c => c.toNat.toUInt8
  { data := data, slack := fun _ => 0, cap := data.length, csize := 512, readable := data.length
    size_le := le_refl _, csize_pos := sector_pos }

/-- One byte of data, 0xAA at the start of the application, and a header `A` behind it. -/
def headerAfterData : File := textFile "S30600102000AA1F\nS004000041BA\nS70500102000CA\n"

theorem headerAfterData_reading : reading (some headerAfterData) (fun _ => 0)
    = some (0, { img := [0xAA], seen := [0x41], reset := some 0, ended := true
                 length_seen := rfl }) := rfl

/-- The verifier accounts for the header's letter where the upload sends the data byte. -/
theorem headerAfterData_mismatch :
    ¬ UploadMatches .faithful (fun _ => 0) (some headerAfterData) (fun _ => 0) (fun _ => 0)
      .boot := by
  intro h
  obtain ⟨hpass, hacc⟩ := verifySRecords_account (some headerAfterData) (fun _ => 0) (fun _ => 0) .boot
  obtain ⟨crcs, s', hv⟩ := hpass _ headerAfterData_reading
  obtain ⟨a, ha, hfed, _⟩ := hacc crcs s' hv
  obtain ⟨_, ⟨a', ha', himg⟩, _⟩ := h crcs s' hv
  rw [headerAfterData_reading] at ha ha'
  simp only [Option.some.injEq, Prod.mk.injEq, true_and] at ha ha'
  subst ha ha'
  rw [hfed] at himg
  exact absurd himg (by decide)

end Flash
