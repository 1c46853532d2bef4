import ReplayFirmware.Drv08.Read
import ReplayFirmware.Drv08.Write

/-! What a write reports.

    The results of the waits and of the stores are dropped, so that a write that has begun ends with a
    status without the error bit, and with every block of the FIFO handed on. It reports its failures
    exactly when there is none to report, or when it is refused before its first block. -/

namespace FileIO.Drv08
open FatFs

/-- Every store of a write goes well: no block it addresses on the card fails, or the file is healthy
    and open for writing and its volume has room. -/
def StoresFit (card : Card) (d : Drive) (tfr : TaskFile) : Prop :=
  let p := getParams tfr d.pDesc
  if d.pDesc.format = .MMC then
    CardAccepts card (p.lba + d.pDesc.lba_offset) (storeSizes tfr d.pDesc p.sector_count.toNat)
  else
    Indexed d.pDesc p.lba ∧ d.fSource.err = false ∧ d.fSource.write = true ∧
      512 * ((fileLba d.pDesc p.lba).toNat + p.sector_count.toNat) ≤ d.fSource.cap

/-- The outcome of a write reports its failures, where `late k` says that the wait for block `k` has
    timed out: a failed store or a late block ends it in an error, and no late block is stored. -/
structure Reports (late : ℕ → Bool) (done : Done) : Prop where
  error : done.failed = true ∨ (∃ k, k < done.taken ∧ late k = true) → EndsInError done.outs
  received : ∀ k, k < done.taken → late k = false

theorem RunWrite.taken_eq {card : Card} {d d' : Drive} {tfr : TaskFile} {fifo : ℕ → UInt8} {done : Done}
    (h : RunWrite card d d' tfr fifo done)
    (hspb : ¬(tfr 7 = 0xC5 ∧ d.pDesc.sectors_per_block = 0)) :
    done.taken = (getParams tfr d.pDesc).sector_count.toNat := by
  rw [h.medium.2.2.1, bursts]
  by_cases hmmc : d'.pDesc.format = .MMC
  · rw [(foldl_card fifo _ hmmc).2.1, sum_storeSizes hspb]
    exact Nat.zero_add _
  · rw [(foldl_file_card fifo _ hmmc).2, sum_storeSizes hspb]
    exact Nat.zero_add _

/-- A write that has begun fails exactly when a store does not fit. -/
theorem RunWrite.failed_iff {e : Extent} {card : Card} {d d' : Drive} {tfr : TaskFile}
    {fifo : ℕ → UInt8} {done : Done} (hm : Mounted e d) (h : RunWrite card d d' tfr fifo done)
    (hspb : ¬(tfr 7 = 0xC5 ∧ d.pDesc.sectors_per_block = 0))
    (hlow : ¬(d.pDesc.format = .HDF_NAKED ∧ (getParams tfr d.pDesc).lba < d.pDesc.lba_offset))
    (hi : d.pDesc.format = .MMC ∨ Indexed d.pDesc (getParams tfr d.pDesc).lba) :
    done.failed = false ↔ StoresFit card d tfr := by
  have hsum := sum_storeSizes hspb (getParams tfr d.pDesc).sector_count.toNat
  have hn := (getParams_count tfr d.pDesc).1
  have hseek := h.seek
  rw [h.medium.2.2.2, bursts, StoresFit]
  by_cases hmmc : d.pDesc.format = .MMC
  · have hd' : d' = d := by
      rw [hardFileSeek] at hseek
      simp only at hseek
      rw [if_pos hmmc] at hseek
      exact ((Prod.mk.inj (Option.some.inj hseek)).2).symm
    rw [hd', (foldl_card fifo _ hmmc).2.2, if_pos hmmc]
    exact ⟨fun hf => hf.2, fun hf => ⟨rfl, hf⟩⟩
  · have hi := hi.resolve_left hmmc
    rw [if_neg hmmc]
    obtain ⟨index, mru_lba, mru_cluster, hrun⟩ := hardFileSeek_run hmmc hlow hi
    rw [hrun, Option.some.injEq, Prod.mk.injEq] at hseek
    have hsame := seekStart_same d (fileLba d.pDesc (getParams tfr d.pDesc).lba)
    obtain ⟨hsame', -, hpos⟩ := FF_Seek_cases
      (seekStart d (fileLba d.pDesc (getParams tfr d.pDesc).lba)).1
      (512 * (fileLba d.pDesc (getParams tfr d.pDesc).lba).toNat)
    have hsame'' : SameFile d.fSource d'.fSource := by
      rw [← hseek.2]
      exact hsame.trans hsame'
    have hmmc' : d'.pDesc.format ≠ .MMC := by
      rw [← hseek.2]
      exact hmmc
    by_cases hno : d.fSource.err = true ∨ d.fSource.write = false
    · -- a file that takes nothing
      have hno' : d'.fSource.err = true ∨ d'.fSource.write = false := by
        rw [hsame''.err, hsame''.write]
        exact hno
      rw [(foldl_file_refused fifo _ (x := startXfer card d' (getParams tfr d.pDesc) _) hmmc' hno').2,
        hsum]
      refine ⟨fun hf => absurd hf.2 (by omega), fun hf => ?_⟩
      rcases hno with hno | hno
      · rw [hf.2.1] at hno
        exact Bool.noConfusion hno
      · rw [hf.2.2.1] at hno
        exact Bool.noConfusion hno
    · rw [not_or] at hno
      have herr : d.fSource.err = false := Bool.eq_false_of_not_eq_true hno.1
      have hwrite : d.fSource.write = true := Bool.eq_true_of_not_eq_false hno.2
      have hc : 0 < d.fSource.csize := by
        cases e with
        | file => exact (hm.2.2.2 herr).ok.csize_pos
        | partition _ _ => exact absurd hm.1 hmmc
        | wholeCard => exact absurd hm.1 hmmc
      rw [foldl_file_room fifo _ (x := startXfer card d' (getParams tfr d.pDesc) _) hmmc'
        (hsame''.err.trans herr) (hsame''.write.trans hwrite) (lt_of_lt_of_eq hc hsame''.csize.symm),
        hsum]
      show _ ∧ _ ≤ d'.fSource.cap - d'.fSource.fptr ↔ _
      -- the seek has gone to the block, or as far as the volume goes
      have htarget : ∀ fp : FIL, fp.write = true → ∀ ofs, fp.target ofs = min ofs fp.cap := by
        intro fp hfp ofs
        rw [FIL.target, if_neg]
        rw [hfp]
        exact fun hf => absurd hf.2 (by decide)
      have hfptr := hpos (hsame.err.trans herr)
      rw [htarget _ (hsame.write.trans hwrite), hsame.cap] at hfptr
      have hd' : d'.fSource.fptr = (FF_Seek (seekStart d (fileLba d.pDesc (getParams tfr d.pDesc).lba)).1
          (512 * (fileLba d.pDesc (getParams tfr d.pDesc).lba).toNat)).2.fptr := by
        rw [← hseek.2]
      rw [hsame''.cap, hd']
      generalize (FF_Seek _ _).2.fptr = pos at hfptr
      refine ⟨fun hf => ⟨hi, herr, hwrite, ?_⟩, fun hf => ⟨rfl, ?_⟩⟩
      · have := hf.2
        omega
      · have := hf.2.2.2
        omega

/-- The card mounted as a whole, for writing. -/
def wholeUnit : Drive :=
  { status := statInserted, fSource := f_open blankImage true
    pDesc := { Desc.zero with
      format := .MMC, file_size := 1024, cylinders := 4, heads := 16, sectors := 16 } }

theorem wholeUnit_mounted : Mounted .wholeCard wholeUnit := ⟨rfl, rfl⟩

/-- A card without a good block. -/
def deadCard : Card := { blankCard with fails := fun _ => true }

end FileIO.Drv08
