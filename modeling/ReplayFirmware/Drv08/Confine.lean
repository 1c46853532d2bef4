import ReplayFirmware.Drv08.Report

/-! Where a write goes.

    A unit owns a run of card blocks or the bytes of its image. The write commands look at the first
    block only, and only for the start of the made-up blocks and of the card: what follows it, and the
    end of the unit, nobody checks. A write stays inside the unit exactly when its request does. -/

namespace FileIO.Drv08
open FatFs

/-- The card blocks that belong to a unit: block 0 belongs to none. -/
def OwnBlock (card : Card) (d : Drive) : Extent → ℕ → Prop
  | .file, _ => False
  | .partition lba_start num_sectors, b =>
    lba_start.toNat ≤ b ∧ b < lba_start.toNat + num_sectors.toNat ∧ b < card.limit
  | .wholeCard, b => 0 < b ∧ b < d.pDesc.file_size.toNat ∧ b < card.limit

/-- A request stays inside the unit. -/
def Inside (card : Card) (d : Drive) (e : Extent) (tfr : TaskFile) : Prop :=
  let p := getParams tfr d.pDesc
  match e with
  | .file => d.pDesc.lba_offset.toNat ≤ p.lba.toNat ∧
      512 * (p.lba.toNat - d.pDesc.lba_offset.toNat + p.sector_count.toNat) ≤ d.pDesc.imageSize
  | e => ∀ k, k < p.sector_count.toNat →
      OwnBlock card d e (p.lba.toNat + k + d.pDesc.lba_offset.toNat)

/-- A write of `n` blocks from block `lba` on changes nothing but blocks of the unit that it addresses,
    and answers with an error when it reaches outside the unit. -/
structure Confined (card : Card) (d : Drive) (e : Extent) (tfr : TaskFile) (card' : Card)
    (d' : Drive) (outs : List FChOut) : Prop where
  blocks : ∀ b, card'.block b ≠ card.block b → OwnBlock card d e b ∧
    ∃ k, k < (getParams tfr d.pDesc).sector_count.toNat ∧
      b = (getParams tfr d.pDesc).lba.toNat + k + d.pDesc.lba_offset.toNat
  bytes : ∀ i, d'.fSource.data[i]? ≠ d.fSource.data[i]? → i < d.pDesc.imageSize ∧
    ∃ k, k < (getParams tfr d.pDesc).sector_count.toNat ∧
      i / 512 + d.pDesc.lba_offset.toNat = (getParams tfr d.pDesc).lba.toNat + k
  refused : ¬Inside card d e tfr → EndsInError outs

theorem Mounted.file_iff {e : Extent} {d : Drive} (hm : Mounted e d) :
    d.pDesc.format ≠ .MMC ↔ e = .file := by
  cases e with
  | file => exact ⟨fun _ => rfl, fun _ => hm.1⟩
  | partition _ _ => exact ⟨fun h => absurd hm.1 h, fun h => by cases h⟩
  | wholeCard => exact ⟨fun h => absurd hm.1 h, fun h => by cases h⟩

/-- A request inside a unit on the card addresses only blocks of the unit. -/
theorem Inside.own {card : Card} {d : Drive} {e : Extent} {tfr : TaskFile} (hm : Mounted e d)
    (hmmc : d.pDesc.format = .MMC) (h : Inside card d e tfr) {k : ℕ}
    (hk : k < (getParams tfr d.pDesc).sector_count.toNat) :
    OwnBlock card d e ((getParams tfr d.pDesc).lba.toNat + k + d.pDesc.lba_offset.toNat) := by
  cases e with
  | file => exact absurd hmmc hm.1
  | partition _ _ => exact h k hk
  | wholeCard => exact h k hk

theorem OwnBlock.lt_limit {card : Card} {d : Drive} {e : Extent} {b : ℕ} (h : OwnBlock card d e b) :
    b < card.limit := by
  cases e with
  | file => exact h.elim
  | partition _ _ => exact h.2.2
  | wholeCard => exact h.2.2

/-- A write inside a unit on the card. -/
theorem RunWrite.confined_card {card : Card} {d d' : Drive} {e : Extent} {tfr : TaskFile}
    {fifo : ℕ → UInt8} {done : Done} (h : RunWrite card d d' tfr fifo done) (hm : Mounted e d)
    (hmmc : d.pDesc.format = .MMC) (hspb : ¬(tfr 7 = 0xC5 ∧ d.pDesc.sectors_per_block = 0))
    (hin : Inside card d e tfr) :
    Confined card d e tfr done.card done.drive done.outs ∧ Mounted e done.drive := by
  have hseek := h.seek
  have hd' : d' = d := by
    rw [hardFileSeek] at hseek
    simp only at hseek
    rw [if_pos hmmc] at hseek
    exact ((Prod.mk.inj (Option.some.inj hseek)).2).symm
  subst hd'
  obtain ⟨hcard, hdrive, -, -⟩ := h.medium
  have hn := (getParams_count tfr d'.pDesc).1
  have hsum := sum_storeSizes hspb (getParams tfr d'.pDesc).sector_count.toNat
  have hlast := (hin.own hm hmmc (Nat.sub_lt hn Nat.one_pos)).lt_limit
  have hframe := foldl_card_frame fifo
    (storeSizes tfr d'.pDesc (getParams tfr d'.pDesc).sector_count.toNat)
    (x := startXfer card d' (getParams tfr d'.pDesc) [.stat statusReq])
    (a := (getParams tfr d'.pDesc).lba.toNat + d'.pDesc.lba_offset.toNat) hmmc
    (by rw [UInt32.ofNat_add, UInt32.ofNat_toNat, UInt32.ofNat_toNat]; rfl)
    (by rw [hsum]; show _ ≤ card.limit; omega)
  rw [hsum, ← bursts, ← hcard] at hframe
  have hkept : done.drive = d' := by
    rw [hdrive, bursts, (foldl_card fifo _ hmmc).1]
    rfl
  rw [hkept]
  refine ⟨⟨fun b hb => ?_, fun i hi => absurd rfl hi, fun hout => absurd hin hout⟩, hm⟩
  · have hrange : (getParams tfr d'.pDesc).lba.toNat + d'.pDesc.lba_offset.toNat ≤ b ∧
        b < (getParams tfr d'.pDesc).lba.toNat + d'.pDesc.lba_offset.toNat
          + (getParams tfr d'.pDesc).sector_count.toNat := by
      by_contra hno
      exact hb (hframe b (by omega))
    obtain ⟨k, rfl⟩ := Nat.exists_eq_add_of_le hrange.1
    rw [Nat.add_right_comm]
    exact ⟨hin.own hm hmmc (by omega), k, by omega, rfl⟩

/-- The file block a request inside an image starts at. -/
theorem fileLba_toNat {d : Drive} {tfr : TaskFile} (hm : Mounted .file d)
    (hle : d.pDesc.lba_offset.toNat ≤ (getParams tfr d.pDesc).lba.toNat) :
    (fileLba d.pDesc (getParams tfr d.pDesc).lba).toNat + d.pDesc.lba_offset.toNat
      = (getParams tfr d.pDesc).lba.toNat := by
  rw [fileLba]
  split
  · rw [UInt32.toNat_sub_of_le _ _ (UInt32.le_iff_toNat_le.mpr hle)]
    omega
  · next hnaked =>
    rw [hm.2.1 hnaked]
    exact Nat.add_zero _

/-- A hardfile stays in order while it is written to. -/
theorem Seekable.written {d : Drive} {p : ℕ} {fp₀ fp : FIL} (h : Seekable d) (hw : Written fp₀ p fp)
    (hsize : fp₀.objsize = d.fSource.objsize) (hcsize : fp₀.csize = d.fSource.csize) :
    Seekable { d with fSource := fp } := by
  have hcluster : ∀ {p c}, ClusterAt d.fSource p c → ClusterAt fp p c := by
    intro p c hc
    rw [ClusterAt, hw.csize, hcsize]
    exact hc
  refine ⟨hw.ok, hw.err, (hw.csize.trans hcsize).trans_le h.csize_le,
    h.size.trans (hw.size.trans hsize).ge, h.index_size,
    h.index_step, fun i c hi hle => hcluster (h.index i c hi hle), ?_⟩
  rcases h.mru with h0 | ⟨p, hp, hc, hcase⟩
  · exact Or.inl h0
  · exact Or.inr ⟨p, hp, hcluster hc, hcase⟩

/-- A write inside an image. -/
theorem RunWrite.confined_file {card : Card} {d d' : Drive} {tfr : TaskFile}
    {fifo : ℕ → UInt8} {done : Done} (h : RunWrite card d d' tfr fifo done) (hm : Mounted .file d)
    (hspb : ¬(tfr 7 = 0xC5 ∧ d.pDesc.sectors_per_block = 0))
    (hin : Inside card d .file tfr) (hi : Indexed d.pDesc (getParams tfr d.pDesc).lba) :
    Confined card d .file tfr done.card done.drive done.outs ∧ Mounted .file done.drive := by
  obtain ⟨hle, hsize⟩ := hin
  have hmmc : d.pDesc.format ≠ .MMC := hm.1
  have hlba := fileLba_toNat hm hle
  have hn := (getParams_count tfr d.pDesc).1
  have hlow : ¬(d.pDesc.format = .HDF_NAKED ∧ (getParams tfr d.pDesc).lba < d.pDesc.lba_offset) :=
    fun hf => absurd (UInt32.lt_iff_toNat_lt.mp hf.2) (by omega)
  have hsum := sum_storeSizes hspb (getParams tfr d.pDesc).sector_count.toNat
  have hseek := h.seek
  obtain ⟨hcard, hdrive, -, -⟩ := h.medium
  -- the bytes of the image, whatever becomes of the file object
  suffices hbytes : (d'.pDesc.format ≠ .MMC ∧ Mounted .file done.drive) ∧ ∀ i,
      (i < 512 * (fileLba d.pDesc (getParams tfr d.pDesc).lba).toNat ∨
        512 * (fileLba d.pDesc (getParams tfr d.pDesc).lba).toNat
          + 512 * (getParams tfr d.pDesc).sector_count.toNat ≤ i) →
      done.drive.fSource.data[i]? = d.fSource.data[i]? by
    refine ⟨⟨fun b hb => absurd ?_ hb, fun i hi => ?_, fun hout => absurd ⟨hle, hsize⟩ hout⟩,
      hbytes.1.2⟩
    · rw [hcard, bursts, (foldl_file_card fifo _ hbytes.1.1).1]
      rfl
    · have hrange : ¬(i < 512 * (fileLba d.pDesc (getParams tfr d.pDesc).lba).toNat ∨
          512 * (fileLba d.pDesc (getParams tfr d.pDesc).lba).toNat
            + 512 * (getParams tfr d.pDesc).sector_count.toNat ≤ i) := fun hno => hi (hbytes.2 i hno)
      refine ⟨by omega, i / 512 - (fileLba d.pDesc (getParams tfr d.pDesc).lba).toNat, by omega,
        by omega⟩
  rw [hdrive, bursts]
  by_cases herr : d.fSource.err = true
  · -- an aborted file stays as it is
    obtain ⟨index, mru_lba, mru_cluster, hrun⟩ := hardFileSeek_run hmmc hlow hi
    rw [hrun, Option.some.injEq, Prod.mk.injEq] at hseek
    have hsame := (seekStart_same d (fileLba d.pDesc (getParams tfr d.pDesc).lba)).trans
      (FF_Seek_cases (seekStart d (fileLba d.pDesc (getParams tfr d.pDesc).lba)).1
        (512 * (fileLba d.pDesc (getParams tfr d.pDesc).lba).toNat)).1
    obtain ⟨-, rfl⟩ := hseek
    rw [(foldl_file_refused fifo _ hmmc (Or.inl (hsame.err.trans herr))).1]
    refine ⟨⟨hmmc, hmmc, hm.2.1, hm.2.2.1, fun he => ?_⟩, fun i _ => ?_⟩
    · exact absurd ((hsame.err.trans herr).symm.trans he) (by decide)
    · exact congrArg (fun data => data[i]?) (hsame.data herr)
  · have hseekable := hm.2.2.2 (Bool.eq_false_of_not_eq_true herr)
    obtain ⟨c, index, mru_lba, mru_cluster, hrun, hs⟩ :=
      hardFileSeek_eq hseekable hmmc hlow (Or.inr (by omega)) hi
    rw [hrun, Option.some.injEq, Prod.mk.injEq] at hseek
    obtain ⟨-, rfl⟩ := hseek
    by_cases hwrite : d.fSource.write = true
    · obtain ⟨fp, hfp, hwritten, hpos⟩ := @foldl_file_written fifo d.fSource
        (512 * (fileLba d.pDesc (getParams tfr d.pDesc).lba).toNat)
        (storeSizes tfr d.pDesc (getParams tfr d.pDesc).sector_count.toNat)
        (startXfer card (sought d _ c index mru_lba mru_cluster) (getParams tfr d.pDesc)
          [.stat statusReq]) hmmc
        ⟨hs.ok, hs.healthy, hwrite, rfl, rfl, le_refl _, fun _ _ => rfl⟩
        (by
          rw [hsum]
          have := hseekable.size
          show 512 * _ + 512 * _ ≤ _
          omega)
      rw [hsum] at hpos
      rw [hfp]
      refine ⟨⟨hmmc, hmmc, hm.2.1, hm.2.2.1, fun _ => hs.written hwritten rfl rfl⟩, fun i hi => ?_⟩
      refine hwritten.bytes i ?_
      rw [hpos]
      exact hi
    · rw [(foldl_file_refused fifo _ hmmc (Or.inr (Bool.eq_false_of_not_eq_true hwrite))).1]
      exact ⟨⟨hmmc, hmmc, hm.2.1, hm.2.2.1, fun _ => hs⟩, fun i _ => rfl⟩

/-- A write stays inside its unit exactly when it is refused, or its request stays inside. -/
theorem ataWrite_confined_iff {e : Extent} {card : Card} {handle : Fin 4 → Drive} {tfr : TaskFile}
    {fifo : ℕ → UInt8} (hins : getInserted handle (unitOf tfr) = true)
    (hm : Mounted e (handle (unitOf tfr))) (hcmd : tfr 7 = 0x30 ∨ tfr 7 = 0xC5) :
    (∃ card' d' outs, ataHandle card handle tfr fifo
        = some (card', Function.update handle (unitOf tfr) d', outs) ∧
      Confined card (handle (unitOf tfr)) e tfr card' d' outs) ↔
    WriteRefused (handle (unitOf tfr)) tfr ∨ Inside card (handle (unitOf tfr)) e tfr ∧
      ((handle (unitOf tfr)).pDesc.format ≠ .MMC → Indexed (handle (unitOf tfr)).pDesc
        (getParams tfr (handle (unitOf tfr)).pDesc).lba) := by
  set d := handle (unitOf tfr) with hd
  by_cases href : WriteRefused d tfr
  · obtain ⟨done, hdone, hr⟩ := ataWrite_refused card fifo hcmd href
    refine ⟨fun _ => Or.inl href, fun _ => ⟨_, _, _, ataHandle_eq hins hdone, ?_⟩⟩
    refine ⟨fun b hb => absurd ?_ hb, fun i hi => absurd ?_ hi, fun _ => hr.error⟩
    · rw [hr.card]
    · rw [hr.data]
  · have hruns := ataWrite_runs card fifo hcmd href
    have href' := href
    simp only [WriteRefused, not_or] at href'
    obtain ⟨-, hspb, -, -, -⟩ := href'
    split at hruns
    · next hi =>
      obtain ⟨d', done, hdone, hr⟩ := hruns
      refine ⟨?_, fun h => ?_⟩
      · rintro ⟨card', d'', outs, hrun, hc⟩
        refine Or.inr ⟨?_, hi.resolve_left⟩
        by_contra hout
        rw [ataHandle_eq hins hdone, Option.some.injEq, Prod.mk.injEq, Prod.mk.injEq] at hrun
        refine hr.error ?_
        rw [hrun.2.2]
        exact hc.refused hout
      · obtain ⟨hin, -⟩ := h.resolve_left href
        refine ⟨_, _, _, ataHandle_eq hins hdone, ?_⟩
        by_cases hmmc : d.pDesc.format = .MMC
        · exact (hr.confined_card hm hmmc hspb hin).1
        · obtain rfl := hm.file_iff.mp hmmc
          exact (hr.confined_file hm hspb hin (hi.resolve_left hmmc)).1
    · next hi =>
      rw [not_or] at hi
      refine ⟨?_, fun h => absurd ?_ hi.2⟩
      · rintro ⟨card', d'', outs, hrun, -⟩
        rw [ataHandle, hins, ← hd, hruns] at hrun
        cases hrun
      · exact (h.resolve_left href).2 hi.1

/-- A write that stays inside its unit leaves it mounted. -/
theorem ataWrite_mounted {e : Extent} {card : Card} {d : Drive} {tfr : TaskFile}
    {fifo : ℕ → UInt8} (hm : Mounted e d) (hcmd : tfr 7 = 0x30 ∨ tfr 7 = 0xC5)
    (h : WriteRefused d tfr ∨ Inside card d e tfr ∧
      (d.pDesc.format ≠ .MMC → Indexed d.pDesc (getParams tfr d.pDesc).lba)) :
    ∃ done, ataCommand card d tfr fifo = some done ∧ Mounted e done.drive := by
  by_cases href : WriteRefused d tfr
  · obtain ⟨done, hdone, hr⟩ := ataWrite_refused card fifo hcmd href
    exact ⟨done, hdone, hr.mounted e hm⟩
  · obtain ⟨hin, hindexed⟩ := h.resolve_left href
    have hi : d.pDesc.format = .MMC ∨ Indexed d.pDesc (getParams tfr d.pDesc).lba :=
      or_iff_not_imp_left.mpr hindexed
    have hruns := ataWrite_runs card fifo hcmd href
    rw [if_pos hi] at hruns
    obtain ⟨d', done, hdone, hr⟩ := hruns
    simp only [WriteRefused, not_or] at href
    obtain ⟨-, hspb, -, -, -⟩ := href
    refine ⟨done, hdone, ?_⟩
    by_cases hmmc : d.pDesc.format = .MMC
    · exact (hr.confined_card hm hmmc hspb hin).2
    · obtain rfl := hm.file_iff.mp hmmc
      exact (hr.confined_file hm hspb hin (hi.resolve_left hmmc)).2

theorem ataWrite_confined_blank : ∃ card' d' outs,
    ataHandle blankCard (fun _ => wholeUnit) (secondBlock 0x30) (fun _ => 0)
        = some (card', Function.update (fun _ => wholeUnit) 0 d', outs) ∧
      Confined blankCard wholeUnit .wholeCard (secondBlock 0x30) card' d' outs := by
  refine (@ataWrite_confined_iff .wholeCard blankCard (fun _ => wholeUnit) (secondBlock 0x30)
    (fun _ => 0) (by decide) wholeUnit_mounted (Or.inl rfl)).mpr
      (Or.inr ⟨fun k hk => ?_, fun h => absurd rfl h⟩)
  have hk : k < 1 := hk
  obtain rfl : k = 0 := by omega
  exact ⟨by decide, by decide, by decide⟩

/-- WRITE SECTORS of two blocks at sector 0 of cylinder 0. -/
def sectorZero : TaskFile := fun i => [0, 0, 2, 0, 0, 0, 0, 0x30].getD i 0

/-- A card of 1024 blocks. -/
def smallCard : Card := { blankCard with fails := fun b => 1024 ≤ b }

/-- The block in front of block 0 is outside the card, and the one after that is block 0 again. -/
theorem sectorZero_not_confined : ¬ ∃ card' d' outs,
    ataHandle smallCard (fun _ => wholeUnit) sectorZero (fun _ => 1)
        = some (card', Function.update (fun _ => wholeUnit) 0 d', outs) ∧
      Confined smallCard wholeUnit .wholeCard sectorZero card' d' outs := by
  rintro ⟨card', d', outs, hrun, hc⟩
  obtain ⟨card'', drive, outs', hrun', h0⟩ : ∃ card'' drive outs',
      ataHandle smallCard (fun _ => wholeUnit) sectorZero (fun _ => 1) = some (card'', drive, outs') ∧
        card''.block 0 = fetch (fun _ => 1) 1 := ⟨_, _, _, rfl, rfl⟩
  rw [hrun, Option.some.injEq, Prod.mk.injEq] at hrun'
  have hne : card'.block 0 ≠ smallCard.block 0 := by
    rw [hrun'.1, h0]
    intro heq
    have hbyte := congrArg (fun b : Block => b[0]) heq
    simp only [fetch, smallCard, blankCard, Vector.getElem_ofFn, Vector.getElem_replicate] at hbyte
    exact absurd hbyte (by decide)
  exact absurd (hc.blocks 0 hne).1.1 (lt_irrefl 0)

end FileIO.Drv08
