import ReplayFirmware.Drv08.Index
import ReplayFirmware.Drv08.Read
import ReplayFirmware.Drv08.Write

/-! The seek of a hardfile against the plain one.

    A plain seek from the start of a file follows the cluster chain all the way. The driver comes to
    the same place over what it remembers of earlier seeks, in whatever order blocks were visited:
    `Steady` says that each entry of the index, and the last seek, are where a plain seek would have
    ended, and every seek, read and write keeps it. A seek behind the end of a file ends early, and
    what is remembered of it is right as long as the file ends with a block. -/

namespace FileIO.Drv08
open FatFs

/-! ### A history -/

/-- What happens to a unit between two seeks, and the seeks. -/
inductive Access where
  | seek (lba : UInt32)
  | read (count : ℕ)
  | write (bs : List UInt8)
  | setMultiple (sectors_per_block : UInt16)

/-- One access; `none` where a seek goes astray. -/
def access (pDrive : Drive) : Access → Option Drive
  | .seek lba => (hardFileSeek pDrive lba).map Prod.snd
  | .read count => some { pDrive with fSource := (FF_Read pDrive.fSource count).2 }
  | .write bs => some { pDrive with fSource := (FF_Write pDrive.fSource bs).2 }
  | .setMultiple n =>
    some { pDrive with pDesc := { pDrive.pDesc with sectors_per_block := n } }

/-- A history of accesses. -/
def accesses : Drive → List Access → Option Drive
  | d, [] => some d
  | d, a :: as => (access d a).bind fun d' => accesses d' as

/-- The byte of the file a block is sought at. -/
def lbaByte (pDesc : Desc) (lba : UInt32) : ℕ := 512 * (fileLba pDesc lba).toNat

/-- The block lies in the part of the image that the 1024 entries of the index cover, and a step of
    the index fits an `int`. -/
def InIndex (pDesc : Desc) (lba : UInt32) : Prop :=
  lbaByte pDesc lba < 1024 * 2 ^ pDesc.index_size.toNat ∧ pDesc.index_size.toNat < 31

/-- A seek that ends at the block, or early at the end of a file of whole blocks; an early end is not
    seen where an index step begins. -/
def Lands (d : Drive) (lba : UInt32) : Prop :=
  let ofs := lbaByte d.pDesc lba
  d.fSource.target ofs = ofs ∨
    512 ∣ d.fSource.target ofs ∧ ¬2 ^ d.pDesc.index_size.toNat ∣ ofs

/-- A seek the index is made for: it is refused, or has its entry and lands. -/
def Proper (d : Drive) : Access → Prop
  | .seek lba => d.pDesc.format = .HDF_NAKED ∧ lba < d.pDesc.lba_offset ∨
      InIndex d.pDesc lba ∧ Lands d lba
  | _ => True

/-- A history of such seeks, and any reads and writes. -/
def ProperRun : Drive → List Access → Prop
  | _, [] => True
  | d, a :: as => Proper d a ∧ ∀ d', access d a = some d' → ProperRun d' as

/-! ### What an access leaves -/

/-- A file later on: FatFs keeps its volume and open mode and cuts nothing off, and only a file that is
    open for writing grows. -/
structure Grown (fp fp' : FIL) : Prop where
  write : fp'.write = fp.write
  cap : fp'.cap = fp.cap
  csize : fp'.csize = fp.csize
  size : fp.objsize ≤ fp'.objsize
  fixed : fp.write = false → fp'.objsize = fp.objsize

theorem Grown.refl (fp : FIL) : Grown fp fp := ⟨rfl, rfl, rfl, le_refl _, fun _ => rfl⟩

theorem Grown.trans {fp fp' fp'' : FIL} (h : Grown fp fp') (h' : Grown fp' fp'') : Grown fp fp'' :=
  ⟨h'.write.trans h.write, h'.cap.trans h.cap, h'.csize.trans h.csize, h.size.trans h'.size,
    fun hw => (h'.fixed (h.write.trans hw)).trans (h.fixed hw)⟩

/-- A seek lands at the same place later on. -/
theorem Grown.target {fp fp' : FIL} (h : Grown fp fp') (ofs : ℕ) : fp'.target ofs = fp.target ofs := by
  unfold FIL.target
  rw [h.cap, h.write]
  cases hw : fp.write with
  | true => simp
  | false => rw [h.fixed hw]

theorem Grown.clusterAt {fp fp' : FIL} (h : Grown fp fp') {p c : ℕ} (hc : ClusterAt fp p c) :
    ClusterAt fp' p c := by
  intro hp
  rw [h.csize]
  exact hc hp

/-- A seek on a healthy file ends where the open mode and the volume let it. -/
theorem seek_grown {fp : FIL} (h : fp.Ok) (he : fp.err = false) (ofs : ℕ) :
    ∃ fp', FF_Seek fp ofs = (.ok, fp') ∧ fp'.Ok ∧ fp'.err = false ∧ Grown fp fp' ∧
      fp'.fptr = fp.target ofs := by
  have hok := FF_Seek_ok h ofs
  have hkept := FF_Seek_kept fp ofs
  unfold FF_Seek at hok hkept ⊢
  by_cases hpos : ofs = fp.fptr
  · rw [if_pos hpos]
    exact ⟨fp, rfl, h, he, Grown.refl fp, by rw [hpos, h.target_eq h.fptr_le]⟩
  · have hne : ¬fp.err = true := by rw [he]; decide
    rw [if_neg hpos, f_lseek_eq h, if_neg hne] at hok hkept ⊢
    refine ⟨_, rfl, hok, he, ⟨rfl, rfl, rfl, hkept.2, fun hw => ?_⟩, rfl⟩
    have hle : fp.target ofs ≤ fp.objsize := by
      have := h.size_le
      unfold FIL.target
      simp only [hw, Bool.not_false, and_true]
      split <;> omega
    rw [FIL.objsize, FIL.seeked, FIL.extend_of_le hle]
    rfl

/-- Behind the place where a seek ends early, every seek ends there, at the end of the file. -/
theorem target_early {fp : FIL} (h : fp.Ok) {q ofs : ℕ} (hne : fp.target q ≠ q) (hq : q ≤ ofs)
    (hle : fp.target q ≤ fp.objsize) :
    fp.target ofs = fp.target q ∧ fp.objsize = fp.target q ∧ fp.target q < q := by
  have hsize := h.size_le
  unfold FIL.target at hne hle ⊢
  cases hw : fp.write with
  | true =>
    simp only [hw, Bool.not_true, Bool.false_eq_true, and_false, if_false] at hne hle ⊢
    omega
  | false =>
    simp only [hw, Bool.not_false, and_true] at hne hle ⊢
    split at hne <;> split <;> omega

/-- The seek proper from a place in front of the block, where the cluster is that of a plain seek to
    the place. The place may lie behind the end of the file. -/
theorem seek_jump {fp : FIL} (h : fp.Ok) (he : fp.err = false) {q c ofs : ℕ}
    (hc : ClusterAt fp (fp.target q) c) (hle : fp.target q ≤ fp.objsize) (hq : q ≤ ofs)
    (hlands : fp.target ofs = ofs ∨ q ≠ ofs) :
    ∃ fp', FF_Seek (moveTo fp q c) ofs = (.ok, fp') ∧ fp'.Ok ∧ fp'.err = false ∧ Grown fp fp' ∧
      fp'.fptr = fp.target ofs := by
  by_cases hin : fp.target q = q
  · rw [hin] at hc hle
    obtain ⟨fp', hseek, hok, herr, ⟨h1, h2, h3, h4, h5⟩, hptr⟩ :=
      seek_grown (moveTo_ok h hle hc) he ofs
    exact ⟨fp', hseek, hok, herr, ⟨h1, h2, h3, h4, h5⟩, hptr⟩
  · obtain ⟨htarget, hsize, hlt⟩ := target_early h hin hq hle
    have hne : q ≠ ofs := by
      rcases hlands with hl | hl
      · omega
      · exact hl
    have htarget' : (moveTo fp q c).target ofs = fp.target q := htarget
    have herr : ¬(moveTo fp q c).err = true := by
      show ¬fp.err = true
      rw [he]
      decide
    rw [FF_Seek, if_neg (show ¬ofs = (moveTo fp q c).fptr from hne.symm), f_lseek, if_neg herr, htarget', htarget]
    rw [← hsize] at hc hlt ⊢
    by_cases h0 : fp.objsize = 0
    · simp only [if_pos h0]
      refine ⟨_, rfl, ⟨Nat.zero_le _, h.size_le, h.csize_pos, fun hpos => absurd hpos (lt_irrefl 0)⟩,
        he, ⟨rfl, rfl, rfl, le_refl _, fun _ => rfl⟩, h0.symm⟩
    · -- the chain is followed from the cluster of the last byte, or from its origin
      have hlast := hc (by omega)
      simp only [if_neg h0]
      refine ⟨_, rfl, ⟨?_, ?_, h.csize_pos, fun _ => ?_⟩, he, ⟨rfl, rfl, rfl, ?_, fun _ => ?_⟩, rfl⟩
      · show fp.objsize ≤ ((moveTo fp q c).extend fp.objsize).length
        rw [FIL.length_extend]
        exact le_max_right _ _
      · show ((moveTo fp q c).extend fp.objsize).length ≤ fp.cap
        rw [FIL.length_extend]
        exact max_le h.size_le h.size_le
      · have hmono : (fp.objsize - 1) / fp.csize ≤ (q - 1) / fp.csize :=
          Nat.div_le_div_right (by omega)
        show _ = (fp.objsize - 1) / fp.csize
        split
        · next hfollow =>
          have hsame : (q - 1) / fp.csize = (fp.objsize - 1) / fp.csize :=
            Nat.le_antisymm (of_decide_eq_true hfollow).2 hmono
          show c + (fp.objsize - (q - 1) / fp.csize * fp.csize - 1) / fp.csize = _
          rw [hsame, hlast, Nat.sub_right_comm, ← Nat.mod_eq_sub_div_mul,
            Nat.div_eq_of_lt (Nat.mod_lt _ h.csize_pos), Nat.add_zero]
        · show 0 + (fp.objsize - 0 - 1) / fp.csize = _
          rw [Nat.zero_add, Nat.sub_zero]
      · show fp.objsize ≤ ((moveTo fp q c).extend fp.objsize).length
        rw [FIL.length_extend]
        exact le_max_left _ _
      · show ((moveTo fp q c).extend fp.objsize).length = fp.objsize
        rw [FIL.length_extend]
        exact max_self _

/-! ### What is remembered -/

/-- The entries of the index are the clusters plain seeks to their places end in, inside the file. -/
def EntriesAt (fp : FIL) (step : ℕ) (index : ℕ → Option ℕ) : Prop :=
  ∀ i c, index i = some c → ClusterAt fp (fp.target (i * step)) c ∧ fp.target (i * step) ≤ fp.objsize

/-- No entry is known before the ones in front of it. -/
def Filled (index : ℕ → Option ℕ) : Prop :=
  ∀ i j, i ≤ j → (index j).isSome = true → (index i).isSome = true

/-- The last seek ended at the start of a block inside the file, and the entry of the block is known. -/
def MruAt (fp : FIL) (step : ℕ) (index : ℕ → Option ℕ) (mru_lba : UInt32) (mru_cluster : ℕ) : Prop :=
  mru_lba = 0xFFFFFFFF ∨ 512 * mru_lba.toNat ≤ fp.objsize ∧
    ClusterAt fp (512 * mru_lba.toNat) mru_cluster ∧
      (index (512 * mru_lba.toNat / step)).isSome = true

/-- A hardfile whose seeks end where plain ones do. -/
structure Steady (d : Drive) : Prop where
  format : d.pDesc.format ≠ .MMC
  ok : d.fSource.Ok
  healthy : d.fSource.err = false
  /-- FatFs mounts volumes with at most 32768 sectors in a cluster -/
  csize_le : d.fSource.csize ≤ 2 ^ 24
  size : d.pDesc.imageSize ≤ d.fSource.objsize
  index_size : 16 ≤ d.pDesc.index_size.toNat
  index_step : d.pDesc.imageSize / 1024 ≤ 2 ^ d.pDesc.index_size.toNat
  entries : EntriesAt d.fSource (2 ^ d.pDesc.index_size.toNat) d.pDesc.index
  filled : Filled d.pDesc.index
  mru : MruAt d.fSource (2 ^ d.pDesc.index_size.toNat) d.pDesc.index d.pDesc.mru_lba
    d.pDesc.mru_cluster

theorem Grown.entriesAt {fp fp' : FIL} (h : Grown fp fp') {step : ℕ} {index : ℕ → Option ℕ}
    (he : EntriesAt fp step index) : EntriesAt fp' step index := by
  intro i c hi
  rw [h.target]
  exact ⟨h.clusterAt (he i c hi).1, (he i c hi).2.trans h.size⟩

theorem Grown.mruAt {fp fp' : FIL} (h : Grown fp fp') {step mru_cluster : ℕ} {index : ℕ → Option ℕ}
    {mru_lba : UInt32} (hm : MruAt fp step index mru_lba mru_cluster) :
    MruAt fp' step index mru_lba mru_cluster := by
  rcases hm with hm | ⟨hle, hc, hsome⟩
  · exact Or.inl hm
  · exact Or.inr ⟨hle.trans h.size, h.clusterAt hc, hsome⟩

/-! ### Filling the index -/

/-- The loop keeps the file in order, and its entries right. -/
structure Fills (fp : FIL) (step : ℕ) (s : FIL × (ℕ → Option ℕ)) : Prop where
  ok : s.1.Ok
  healthy : s.1.err = false
  grown : Grown fp s.1
  entries : EntriesAt s.1 step s.2

theorem fillIndex_fills {fp : FIL} {step : ℕ} {s : FIL × (ℕ → Option ℕ)} (i : ℕ)
    (h : Fills fp step s) : Fills fp step (fillIndex step s i) := by
  rw [fillIndex]
  split
  · exact h
  · obtain ⟨fp', hseek, hok, herr, hgrown, hptr⟩ := seek_grown h.ok h.healthy (i * step)
    rw [hseek]
    refine ⟨hok, herr, h.grown.trans hgrown, ?_⟩
    intro j c hj
    by_cases hji : j = i
    · subst hji
      simp only [Function.update_self, Option.some.injEq] at hj
      simp only [hgrown.target, ← hptr, ← hj]
      exact ⟨hok.clust_eq, hok.fptr_le⟩
    · simp only [Function.update_of_ne hji] at hj
      exact hgrown.entriesAt h.entries j c hj

theorem foldl_fills {fp : FIL} {step : ℕ} : ∀ (is : List ℕ) {s : FIL × (ℕ → Option ℕ)},
    Fills fp step s → Fills fp step (is.foldl (fillIndex step) s)
  | [], _, h => h
  | i :: is, _, h => foldl_fills is (fillIndex_fills i h)

/-- The fill adds the entries it is asked for, and keeps the others. -/
theorem foldl_known (step : ℕ) : ∀ (is : List ℕ) (s : FIL × (ℕ → Option ℕ)) (j : ℕ),
    ((is.foldl (fillIndex step) s).2 j).isSome = true ↔ (s.2 j).isSome = true ∨ j ∈ is
  | [], s, j => by simp
  | i :: is, s, j => by
    have hfill : ((fillIndex step s i).2 j).isSome = true ↔ (s.2 j).isSome = true ∨ j = i := by
      rw [fillIndex]
      split
      · next hsome =>
        refine ⟨Or.inl, ?_⟩
        rintro (h | rfl)
        · exact h
        · exact hsome
      · by_cases hji : j = i
        · subst hji
          simp
        · simp [hji]
    rw [List.foldl_cons, foldl_known step is, hfill, List.mem_cons, or_assoc]

/-- The search ends at a known entry, or at the first one. -/
theorem findStart_known (index : ℕ → Option ℕ) : ∀ idx,
    findStart index idx = 0 ∨ (index (findStart index idx)).isSome = true
  | 0 => Or.inl rfl
  | idx + 1 => by
    rw [findStart]
    split
    · next h => exact Or.inr h
    · exact findStart_known index idx

/-- The loop leaves no gap in front of an entry. -/
theorem foldl_filled {index : ℕ → Option ℕ} (h : Filled index) (fp : FIL) (step idx : ℕ) :
    Filled ((List.range' (findStart index idx) (idx + 1 - findStart index idx)).foldl
      (fillIndex step) (fp, index)).2 := by
  intro i j hij hj
  rw [foldl_known, List.mem_range'_1] at hj ⊢
  rcases hj with hj | hj
  · exact Or.inl (h i j hij hj)
  · by_cases hi : findStart index idx ≤ i
    · exact Or.inr ⟨hi, by omega⟩
    · rcases findStart_known index idx with h0 | hsome
      · omega
      · exact Or.inl (h i _ (by omega) hsome)

/-! ### One seek -/

/-- Where the seek proper begins: it ends where a plain seek does, and the index is in order, with the
    entry of the block. -/
structure Starts (fp₀ : FIL) (step ofs : ℕ) (s : FIL × (ℕ → Option ℕ)) : Prop where
  seek : ∃ fp, FF_Seek s.1 ofs = (.ok, fp) ∧ fp.Ok ∧ fp.err = false ∧ Grown fp₀ fp ∧
    fp.fptr = fp₀.target ofs ∧ EntriesAt fp step s.2
  filled : Filled s.2
  known : (s.2 (ofs / step)).isSome = true

/-- A jump to a known entry. -/
theorem jump_starts {fp₀ fp : FIL} {step ofs c : ℕ} {index : ℕ → Option ℕ} (hok : fp.Ok)
    (he : fp.err = false) (hgrown : Grown fp₀ fp) (hentries : EntriesAt fp step index)
    (hfilled : Filled index) (hc : index (ofs / step) = some c)
    (hlands : fp₀.target ofs = ofs ∨ ¬step ∣ ofs) :
    Starts fp₀ step ofs (moveTo fp (ofs / step * step) c, index) := by
  obtain ⟨hcluster, hle⟩ := hentries _ c hc
  have hlands' : fp.target ofs = ofs ∨ ofs / step * step ≠ ofs := by
    rw [hgrown.target]
    exact hlands.imp_right fun hn heq => hn (Dvd.intro_left _ heq)
  obtain ⟨fp', hseek, hok', herr', hgrown', hptr⟩ :=
    seek_jump hok he hcluster hle (Nat.div_mul_le_self ofs step) hlands'
  exact ⟨⟨fp', hseek, hok', herr', hgrown.trans hgrown', by rw [hptr, hgrown.target],
    hgrown'.entriesAt hentries⟩, hfilled, Option.isSome_of_eq_some hc⟩

/-- A repositioning with the index. -/
theorem tableJump_starts {fp : FIL} {step ofs p c : ℕ} {index : ℕ → Option ℕ} (hok : fp.Ok)
    (he : fp.err = false) (hentries : EntriesAt fp step index) (hfilled : Filled index)
    (hfp : index (ofs / step) = none → (moveTo fp p c).Ok)
    (hlands : fp.target ofs = ofs ∨ ¬step ∣ ofs) :
    Starts fp step ofs (tableJump (moveTo fp p c) index step ofs (ofs / step)) := by
  unfold tableJump
  by_cases hn : index (ofs / step) = none
  · simp only [if_pos hn]
    have hmoved : Grown fp (moveTo fp p c) := ⟨rfl, rfl, rfl, le_refl _, fun _ => rfl⟩
    have hfills := foldl_fills (List.range' (findStart index (ofs / step))
      (ofs / step + 1 - findStart index (ofs / step)))
      (show Fills fp step (moveTo fp p c, index) from ⟨hfp hn, he, hmoved, hmoved.entriesAt hentries⟩)
    have hsome := foldl_isSome step (moveTo fp p c, index) (findStart_le index (ofs / step))
    obtain ⟨k, hk⟩ := Option.isSome_iff_exists.mp hsome
    rw [hk]
    exact jump_starts hfills.ok hfills.healthy hfills.grown hfills.entries
      (foldl_filled hfilled _ step (ofs / step)) hk hlands
  · simp only [if_neg hn]
    obtain ⟨k, hk⟩ := Option.ne_none_iff_exists'.mp hn
    rw [hk]
    have hjump := jump_starts hok he (Grown.refl fp) hentries hfilled hk hlands
    exact hjump

/-- The shortcut gives the position of the block, unless the position does not fit 32 bits; then it is
    far off, and the entry of the block is known. -/
theorem Steady.mruPosition {d : Drive} (h : Steady d) {lba : UInt32}
    (hin : 512 * lba.toNat < 1024 * 2 ^ d.pDesc.index_size.toNat)
    (hstep : d.pDesc.index_size.toNat < 31) :
    ∃ p c, mruPosition d lba = moveTo d.fSource p c ∧
      ((moveTo d.fSource p c).Ok ∨
        d.pDesc.index (512 * lba.toNat / 2 ^ d.pDesc.index_size.toNat) ≠ none ∧
          512 * lba.toNat / d.fSource.csize > p / d.fSource.csize + 1) := by
  rw [Drv08.mruPosition]
  by_cases hmru : lba = d.pDesc.mru_lba
  · rw [if_pos hmru]
    refine ⟨_, _, rfl, ?_⟩
    rcases h.mru with h0 | ⟨hle, hc, hsome⟩
    · -- no block that is in the index has this number
      have hpow : 2 ^ d.pDesc.index_size.toNat ≤ 2 ^ 30 :=
        Nat.pow_le_pow_right (by decide) (by omega)
      rw [hmru, h0, show (0xFFFFFFFF : UInt32).toNat = 4294967295 by decide] at hin
      omega
    · rw [← hmru] at hle hc hsome ⊢
      have hfptr : (lba <<< 9).toNat = 512 * lba.toNat % 4294967296 := by
        rw [UInt32.toNat_shiftLeft, show (9 : UInt32).toNat % 32 = 9 by decide, Nat.shiftLeft_eq,
          Nat.mul_comm]
      rw [hfptr]
      by_cases hlt : 512 * lba.toNat < 4294967296
      · rw [Nat.mod_eq_of_lt hlt]
        exact Or.inl (moveTo_ok h.ok hle hc)
      · refine Or.inr ⟨Option.isSome_iff_ne_none.mp hsome, ?_⟩
        -- the position has lost 2^32, at least two clusters
        have hcsize := h.csize_le
        refine (Nat.le_div_iff_mul_le h.ok.csize_pos).mpr ?_
        have hfar := Nat.div_mul_le_self (512 * lba.toNat % 4294967296) d.fSource.csize
        rw [Nat.succ_eq_add_one, Nat.add_assoc, Nat.add_mul]
        omega
  · rw [if_neg hmru]
    exact ⟨d.fSource.fptr, d.fSource.clust, rfl, Or.inl h.ok⟩

/-- The file is repositioned right, or stands right already. -/
theorem Steady.seekStart {d : Drive} (h : Steady d) {lba : UInt32}
    (hin : 512 * lba.toNat < 1024 * 2 ^ d.pDesc.index_size.toNat)
    (hstep : d.pDesc.index_size.toNat < 31)
    (hlands : d.fSource.target (512 * lba.toNat) = 512 * lba.toNat ∨
      ¬2 ^ d.pDesc.index_size.toNat ∣ 512 * lba.toNat) :
    Starts d.fSource (2 ^ d.pDesc.index_size.toNat) (512 * lba.toNat) (seekStart d lba) := by
  have hidx : indexOf d.pDesc lba = 512 * lba.toNat / 2 ^ d.pDesc.index_size.toNat := by
    rw [indexOf_eq_mod h.index_size (by omega), Nat.mod_eq_of_lt]
    exact Nat.div_lt_of_lt_mul (by omega)
  obtain ⟨p, c, hpos, hcases⟩ := h.mruPosition hin hstep
  rw [Drv08.seekStart, hidx, hpos]
  unfold reposition
  simp only
  split
  · refine tableJump_starts h.ok h.healthy h.entries h.filled (fun hn => ?_) hlands
    rcases hcases with hok | ⟨hsome, -⟩
    · exact hok
    · exact absurd hn hsome
  · next hstay =>
    rw [not_or, not_or] at hstay
    obtain ⟨-, hnear, hsome⟩ := hstay
    rcases hcases with hok | ⟨-, hfar⟩
    · obtain ⟨fp, hseek, hok', herr, ⟨h1, h2, h3, h4, h5⟩, hptr⟩ :=
        seek_grown hok h.healthy (512 * lba.toNat)
      have hgrown : Grown d.fSource fp := ⟨h1, h2, h3, h4, h5⟩
      exact ⟨⟨fp, hseek, hok', herr, hgrown, hptr, hgrown.entriesAt h.entries⟩, h.filled,
        Option.isSome_iff_ne_none.mpr hsome⟩
    · exact absurd hfar hnear

theorem target_le {fp : FIL} (ofs : ℕ) : fp.target ofs ≤ ofs := by
  unfold FIL.target
  split <;> omega

/-- A block the index covers has its entry. -/
theorem InIndex.indexed {pDesc : Desc} {lba : UInt32} (h : InIndex pDesc lba)
    (h16 : 16 ≤ pDesc.index_size.toNat) : Indexed pDesc lba := by
  obtain ⟨hlt, hstep⟩ := h
  have hdiv : 512 * (fileLba pDesc lba).toNat / 2 ^ pDesc.index_size.toNat < 1024 :=
    Nat.div_lt_of_lt_mul (by rwa [Nat.mul_comm (2 ^ _)])
  exact ⟨by rw [indexOf_eq_mod h16 (by omega), Nat.mod_eq_of_lt (by omega)]; exact hdiv, hstep⟩

/-- A seek that lands ends where a plain one does, and leaves the unit in order. -/
theorem Steady.seek {d : Drive} (h : Steady d) {lba : UInt32}
    (hlow : ¬(d.pDesc.format = .HDF_NAKED ∧ lba < d.pDesc.lba_offset)) (hin : InIndex d.pDesc lba)
    (hlands : Lands d lba) :
    ∃ d', hardFileSeek d lba = some (true, d') ∧ Steady d' ∧ Grown d.fSource d'.fSource ∧
      d'.fSource.fptr = d.fSource.target (lbaByte d.pDesc lba) := by
  obtain ⟨hidx, -⟩ := hin.indexed h.index_size
  obtain ⟨hlt, hstep⟩ := hin
  obtain ⟨⟨fp, hseek, hok, herr, hgrown, hptr, hentries⟩, hfilled, hknown⟩ :=
    h.seekStart hlt hstep (hlands.imp_right And.right)
  unfold hardFileSeek
  simp only
  rw [if_neg h.format, if_neg hlow, if_neg (by omega), hseek]
  refine ⟨_, rfl, ?_, hgrown, hptr⟩
  have hdvd : 512 ∣ fp.fptr := by
    rw [hptr]
    rcases hlands with hl | hl
    · exact ⟨_, hl⟩
    · exact hl.1
  have hle : fp.fptr ≤ 512 * (fileLba d.pDesc lba).toNat := by
    rw [hptr]
    exact target_le _
  have hblock : 512 * (fp.fptr / 512).toUInt32.toNat = fp.fptr := by
    have := (fileLba d.pDesc lba).toNat_lt
    rw [show (fp.fptr / 512).toUInt32.toNat = fp.fptr / 512 from
      UInt32.toNat_ofNat_of_lt' (by show fp.fptr / 512 < 2 ^ 32; omega), Nat.mul_div_cancel' hdvd]
  exact
    { format := h.format
      ok := hok
      healthy := herr
      csize_le := by rw [hgrown.csize]; exact h.csize_le
      size := h.size.trans hgrown.size
      index_size := h.index_size
      index_step := h.index_step
      entries := hentries
      filled := hfilled
      mru := by
        refine Or.inr ⟨?_, ?_, ?_⟩
        · show 512 * (fp.fptr / 512).toUInt32.toNat ≤ fp.objsize
          rw [hblock]
          exact hok.fptr_le
        · show ClusterAt fp (512 * (fp.fptr / 512).toUInt32.toNat) fp.clust
          rw [hblock]
          exact hok.clust_eq
        · show ((Drv08.seekStart d (fileLba d.pDesc lba)).2
            (512 * (fp.fptr / 512).toUInt32.toNat / 2 ^ d.pDesc.index_size.toNat)).isSome = true
          rw [hblock]
          exact hfilled _ _ (Nat.div_le_div_right hle) hknown }

/-! ### The other accesses -/

theorem grown_read {fp : FIL} (h : fp.Ok) (n : ℕ) : Grown fp (FF_Read fp n).2 := by
  rw [FF_Read, f_read_eq h]
  exact ⟨rfl, rfl, rfl, le_refl _, fun _ => rfl⟩

theorem grown_write {fp : FIL} (h : fp.Ok) (bs : List UInt8) : Grown fp (FF_Write fp bs).2 := by
  rw [FF_Write, f_write_eq h]
  by_cases hw : (fp.err || !fp.write) = true
  · rw [if_pos hw]
    exact Grown.refl fp
  · rw [if_neg hw]
    rw [Bool.or_eq_true, not_or, Bool.not_eq_true', Bool.not_eq_false] at hw
    refine ⟨rfl, rfl, rfl, ?_, fun hf => absurd hw.2 (by rw [hf]; decide)⟩
    show fp.objsize ≤ (Splice.splice fp.data fp.fptr (bs.take (fp.cap - fp.fptr))).length
    rw [Splice.length_splice _ h.fptr_le]
    exact le_max_left _ _

/-- A unit stays in order while its file is read and written. -/
theorem Steady.file {d : Drive} (h : Steady d) {fp : FIL} (hok : fp.Ok) (he : fp.err = false)
    (hg : Grown d.fSource fp) : Steady { d with fSource := fp } :=
  { format := h.format
    ok := hok
    healthy := he
    csize_le := by rw [hg.csize]; exact h.csize_le
    size := h.size.trans hg.size
    index_size := h.index_size
    index_step := h.index_step
    entries := hg.entriesAt h.entries
    filled := h.filled
    mru := hg.mruAt h.mru }

/-- A hardfile that is in order as long as no failed transfer has aborted it. -/
structure Usable (d : Drive) : Prop where
  format : d.pDesc.format ≠ .MMC
  index_size : 16 ≤ d.pDesc.index_size.toNat
  steady : d.fSource.err = false → Steady d

theorem Usable.file {d : Drive} (h : Usable d) {fp : FIL} (herr : d.fSource.err = true → fp.err = true)
    (hfile : d.fSource.Ok → fp.Ok ∧ Grown d.fSource fp) : Usable { d with fSource := fp } := by
  refine ⟨h.format, h.index_size, fun he => ?_⟩
  cases hd : d.fSource.err with
  | true => exact absurd he (by rw [herr hd]; decide)
  | false =>
    obtain ⟨hok, hg⟩ := hfile (h.steady hd).ok
    exact (h.steady hd).file hok he hg

/-- Every access the index is made for comes to its end, and keeps the unit in order. -/
theorem Usable.access {d : Drive} (h : Usable d) {a : Access} (hp : Proper d a) :
    ∃ d', access d a = some d' ∧ Usable d' := by
  cases a with
  | seek lba =>
    by_cases hlow : d.pDesc.format = .HDF_NAKED ∧ lba < d.pDesc.lba_offset
    · refine ⟨d, ?_, h⟩
      rw [Drv08.access, hardFileSeek]
      simp only
      rw [if_neg h.format, if_pos hlow]
      rfl
    · obtain ⟨hin, hlands⟩ := hp.resolve_left hlow
      cases herr : d.fSource.err with
      | false =>
        obtain ⟨d', hseek, hd', -⟩ := (h.steady herr).seek hlow hin hlands
        exact ⟨d', by rw [Drv08.access, hseek]; rfl, hd'.format, hd'.index_size, fun _ => hd'⟩
      | true =>
        obtain ⟨index, mru_lba, mru_cluster, hrun⟩ :=
          hardFileSeek_run h.format hlow (hin.indexed h.index_size)
        have hsame := (seekStart_same d (fileLba d.pDesc lba)).trans
          (FF_Seek_cases (Drv08.seekStart d (fileLba d.pDesc lba)).1
            (512 * (fileLba d.pDesc lba).toNat)).1
        rw [Drv08.access, hrun]
        refine ⟨_, rfl, ?_⟩
        refine ⟨h.format, h.index_size, fun he => absurd he ?_⟩
        rw [hsame.err, herr]
        decide
  | read count =>
    refine ⟨_, rfl, h.file (fun he => ?_) fun hok => ⟨FF_Read_ok hok count, grown_read hok count⟩⟩
    rw [FF_Read, f_read, if_pos he]
    exact he
  | write bs =>
    refine ⟨_, rfl, h.file (fun he => ?_) fun hok => ⟨FF_Write_ok hok bs, grown_write hok bs⟩⟩
    rw [FF_Write_refused (Or.inl he)]
    exact he
  | setMultiple n =>
    refine ⟨_, rfl, h.format, h.index_size, fun he => ?_⟩
    obtain ⟨h1, h2, h3, h4, h5, h6, h7, h8, h9, h10⟩ := h.steady he
    exact ⟨h1, h2, h3, h4, h5, h6, h7, h8, h9, h10⟩

/-- A history of them does. -/
theorem Usable.accesses {d : Drive} (h : Usable d) {as : List Access} (hp : ProperRun d as) :
    ∃ d', accesses d as = some d' ∧ Usable d' := by
  induction as generalizing d with
  | nil => exact ⟨d, rfl, h⟩
  | cons a as ih =>
    obtain ⟨d', ha, hd'⟩ := h.access hp.1
    rw [Drv08.accesses, ha]
    exact ih hd' (hp.2 d' ha)

/-! ### The commands as histories -/

theorem accesses_append : ∀ (as bs : List Access) (d : Drive),
    accesses d (as ++ bs) = (accesses d as).bind fun d' => accesses d' bs
  | [], _, _ => rfl
  | a :: as, bs, d => by
    rw [List.cons_append, accesses, accesses]
    cases access d a with
    | none => rfl
    | some d' => exact accesses_append as bs d'

/-- A unit is read and written only. -/
def Transfers (d d' : Drive) : Prop := ∃ as, (∀ lba, .seek lba ∉ as) ∧ accesses d as = some d'

theorem Transfers.refl (d : Drive) : Transfers d d := ⟨[], fun _ => List.not_mem_nil, rfl⟩

theorem Transfers.trans {d d' d'' : Drive} (h : Transfers d d') (h' : Transfers d' d'') :
    Transfers d d'' := by
  obtain ⟨as, hno, has⟩ := h
  obtain ⟨bs, hno', hbs⟩ := h'
  refine ⟨as ++ bs, fun lba hmem => ?_, by rw [accesses_append, has]; exact hbs⟩
  rcases List.mem_append.mp hmem with hmem | hmem
  · exact hno lba hmem
  · exact hno' lba hmem

theorem Transfers.one {d d' : Drive} {a : Access} (hno : ∀ lba, .seek lba ≠ a)
    (h : access d a = some d') : Transfers d d' :=
  ⟨[a], fun lba hmem => hno lba (List.mem_singleton.mp hmem), by rw [accesses, h]; rfl⟩

theorem sendBlocks_transfers (x : Xfer) (n : ℕ) : Transfers x.drive (sendBlocks x n).2.drive := by
  rw [sendBlocks]
  simp only
  split
  · exact Transfers.refl _
  · split
    · exact Transfers.refl _
    · refine Transfers.one (a := .read (512 * n)) (fun _ => Access.noConfusion) ?_
      have hread := congrArg Prod.snd (FF_ReadDirect_snd x.drive.fSource (512 * n))
      exact congrArg (fun fp => some { x.drive with fSource := fp }) hread.symm

theorem readSectorsLoop_transfers (tfr : TaskFile) : ∀ (n : ℕ) (x : Xfer),
    Transfers x.drive (readSectorsLoop tfr n x).drive
  | 0, x => Transfers.refl _
  | n + 1, x => by
    rw [readSectorsLoop]
    refine Transfers.trans ?_ (readSectorsLoop_transfers tfr n _)
    refine Transfers.trans ?_ (sendBlocks_transfers _ 1)
    split <;> exact Transfers.refl _

theorem readBurst_transfers : ∀ (fuel n : ℕ) (x : Xfer), Transfers x.drive (readBurst fuel n x).drive
  | 0, _, x => Transfers.refl _
  | fuel + 1, n, x => by
    rw [readBurst]
    split
    · exact Transfers.refl _
    · exact (sendBlocks_transfers x _).trans (readBurst_transfers fuel _ _)

theorem readMultipleLoop_transfers (tfr : TaskFile) : ∀ (fuel n : ℕ) (x : Xfer),
    Transfers x.drive (readMultipleLoop tfr fuel n x).drive
  | 0, _, x => Transfers.refl _
  | fuel + 1, n, x => by
    rw [readMultipleLoop]
    split
    · exact Transfers.refl _
    · refine Transfers.trans ?_ (readMultipleLoop_transfers tfr fuel _ _)
      exact readBurst_transfers _ _ (Xfer.send (Xfer.count (x.send _) _) _)

theorem storeBlocks_transfers (fifo : ℕ → UInt8) (x : Xfer) (n : ℕ) :
    Transfers x.drive (storeBlocks fifo x n).drive := by
  rw [storeBlocks]
  simp only
  split
  · exact Transfers.refl _
  · exact Transfers.one (a := .write _) (fun _ => Access.noConfusion) rfl

theorem writeSectorsLoop_transfers (tfr : TaskFile) (fifo : ℕ → UInt8) : ∀ (n : ℕ) (x : Xfer),
    Transfers x.drive (writeSectorsLoop tfr fifo n x).drive
  | 0, x => Transfers.refl _
  | n + 1, x => by
    rw [writeSectorsLoop]
    refine Transfers.trans ?_ (writeSectorsLoop_transfers tfr fifo n _)
    refine Transfers.trans ?_ (storeBlocks_transfers fifo _ 1)
    split <;> exact Transfers.refl _

theorem writeBurst_transfers (fifo : ℕ → UInt8) : ∀ (fuel n : ℕ) (x : Xfer),
    Transfers x.drive (writeBurst fifo fuel n x).drive
  | 0, _, x => Transfers.refl _
  | fuel + 1, n, x => by
    rw [writeBurst]
    split
    · exact Transfers.refl _
    · exact Transfers.trans (storeBlocks_transfers fifo x _) (writeBurst_transfers fifo fuel _ (Xfer.count _ _))

theorem writeMultipleLoop_transfers (tfr : TaskFile) (fifo : ℕ → UInt8) : ∀ (fuel n : ℕ) (x : Xfer),
    Transfers x.drive (writeMultipleLoop tfr fifo fuel n x).drive
  | 0, _, x => Transfers.refl _
  | fuel + 1, n, x => by
    rw [writeMultipleLoop]
    split
    · exact Transfers.refl _
    · refine Transfers.trans ?_ (writeMultipleLoop_transfers tfr fifo fuel _ _)
      exact writeBurst_transfers fifo _ _ x

/-- A seek, and transfers when it went well. -/
def SeekThen (d : Drive) (lba : UInt32) (d' : Drive) : Prop :=
  ∃ as, accesses d as = some d' ∧ ∀ lba', .seek lba' ∈ as → lba' = lba

theorem Transfers.seekThen {d d' : Drive} (h : Transfers d d') (lba : UInt32) : SeekThen d lba d' := by
  obtain ⟨as, hno, has⟩ := h
  exact ⟨as, has, fun lba' hmem => absurd hmem (hno lba')⟩

theorem seekThen {d d' d'' : Drive} {lba : UInt32} {good : Bool}
    (hseek : hardFileSeek d lba = some (good, d')) (h : Transfers d' d'') : SeekThen d lba d'' := by
  obtain ⟨as, hno, has⟩ := h
  refine ⟨.seek lba :: as, by rw [accesses, Drv08.access, hseek]; exact has, fun lba' hmem => ?_⟩
  rcases List.mem_cons.mp hmem with hmem | hmem
  · exact Access.seek.inj hmem
  · exact absurd hmem (hno lba')

theorem readTransfer_seekThen {card : Card} {d : Drive} {tfr : TaskFile} {outs : List FChOut}
    {loop : ℕ → Xfer → Xfer} {done : Done} (hloop : ∀ n x, Transfers x.drive (loop n x).drive)
    (h : readTransfer card d tfr outs loop = some done) :
    SeekThen d (lbaNaked d.pDesc (getParams tfr d.pDesc).lba) done.drive := by
  rw [readTransfer] at h
  split at h
  · cases h
  · next hseek =>
    cases h
    exact seekThen hseek (Transfers.refl _)
  · next hseek =>
    cases h
    exact seekThen hseek (hloop _ (startXfer _ _ _ _))

theorem writeTransfer_seekThen {card : Card} {d : Drive} {tfr : TaskFile} {loop : ℕ → Xfer → Xfer}
    {done : Done} (hloop : ∀ n x, Transfers x.drive (loop n x).drive)
    (h : writeTransfer card d tfr loop = some done) :
    SeekThen d (getParams tfr d.pDesc).lba done.drive := by
  rw [writeTransfer] at h
  split at h
  · cases h
  · next hseek =>
    cases h
    exact seekThen hseek (Transfers.refl _)
  · next hseek =>
    split at h
    · cases h
      exact seekThen hseek (Transfers.refl _)
    · cases h
      exact seekThen hseek (hloop _ (startXfer _ _ _ _))

/-- A command is a history: it seeks to its first block at most, and transfers from there. -/
theorem ataCommand_accesses {card : Card} {d : Drive} {tfr : TaskFile} {fifo : ℕ → UInt8} {done : Done}
    (h : ataCommand card d tfr fifo = some done) :
    ∃ lba, SeekThen d lba done.drive ∧ (lba = (getParams tfr d.pDesc).lba ∨
      lba = lbaNaked d.pDesc (getParams tfr d.pDesc).lba) := by
  have hquiet : ∀ {outs : List FChOut}, answer card d outs = some done →
      ∃ lba, SeekThen d lba done.drive ∧ (lba = (getParams tfr d.pDesc).lba ∨
        lba = lbaNaked d.pDesc (getParams tfr d.pDesc).lba) := by
    rintro outs h
    cases h
    exact ⟨_, (Transfers.refl d).seekThen _, Or.inl rfl⟩
  rw [ataCommand] at h
  obtain ⟨-, h⟩ | ⟨-, h⟩ := ite_eq_iff.mp h
  · exact hquiet h
  obtain ⟨-, h⟩ | ⟨-, h⟩ := ite_eq_iff.mp h
  · exact hquiet h
  obtain ⟨-, h⟩ | ⟨-, h⟩ := ite_eq_iff.mp h
  · exact hquiet h
  obtain ⟨-, h⟩ | ⟨-, h⟩ := ite_eq_iff.mp h
  · exact hquiet h
  obtain ⟨-, h⟩ | ⟨-, h⟩ := ite_eq_iff.mp h
  · cases h
    exact ⟨_, (Transfers.one (a := .setMultiple _) (fun _ => Access.noConfusion) rfl).seekThen _,
      Or.inl rfl⟩
  obtain ⟨-, h⟩ | ⟨-, h⟩ := ite_eq_iff.mp h
  · exact ⟨_, readTransfer_seekThen (readSectorsLoop_transfers tfr) h, Or.inr rfl⟩
  obtain ⟨-, h⟩ | ⟨-, h⟩ := ite_eq_iff.mp h
  · rw [readMultiple] at h
    split at h
    · exact hquiet h
    · exact ⟨_, readTransfer_seekThen (fun n => readMultipleLoop_transfers tfr n n) h, Or.inr rfl⟩
  obtain ⟨-, h⟩ | ⟨-, h⟩ := ite_eq_iff.mp h
  · exact hquiet h
  obtain ⟨-, h⟩ | ⟨-, h⟩ := ite_eq_iff.mp h
  · rw [writeSectors] at h
    split at h
    · exact hquiet h
    · exact ⟨_, writeTransfer_seekThen (writeSectorsLoop_transfers tfr fifo) h, Or.inl rfl⟩
  obtain ⟨-, h⟩ | ⟨-, h⟩ := ite_eq_iff.mp h
  · rw [writeMultiple] at h
    split_ifs at h
    · exact hquiet h
    · exact hquiet h
    · exact ⟨_, writeTransfer_seekThen (fun n => writeMultipleLoop_transfers tfr fifo n n) h,
        Or.inl rfl⟩
  · exact hquiet h

/-! ### From the insert on -/

theorem insertFile_fresh {format : Format} {drive_number status : UInt8} {fSource : FIL}
    {fbuf : ℕ → UInt8} {d : Drive} (h : insertFile format drive_number status fSource fbuf = .unit d) :
    (d.pDesc.index = fun _ => none) ∧ d.pDesc.mru_lba = 0xFFFFFFFF ∧
      d.pDesc.index_size = (buildHardfileIndex d.pDesc).index_size := by
  rw [insertFile] at h
  generalize getHardfileType fSource fbuf = r at h
  obtain ⟨t, fp⟩ := r
  cases h
  simp only
  split <;> exact ⟨rfl, rfl, rfl⟩

/-- A new hardfile or CD image is in order, and nothing is remembered yet. -/
theorem insertInit_usable {card : Card} {drive_number status : UInt8} {file : File} {write : Bool}
    {ext : List UInt8} {fbuf : ℕ → UInt8} {d : Drive} (hcsize : file.csize ≤ 2 ^ 24)
    (h : insertInit card drive_number status (f_open file write) ext fbuf = .unit d)
    (hformat : d.pDesc.format ≠ .MMC) : Usable d := by
  have hfresh : (d.pDesc.index = fun _ => none) ∧ d.pDesc.mru_lba = 0xFFFFFFFF ∧
      d.pDesc.index_size = (buildHardfileIndex d.pDesc).index_size := by
    rw [insertInit] at h
    split at h
    · exact insertFile_fresh h
    · split at h
      · have hm := insertCard_mounted h
        split at hm <;> exact absurd hm.1 hformat
      · split at h
        · exact insertFile_fresh h
        · exact Inserted.noConfusion h
  obtain ⟨hindex, hmru, hsize⟩ := hfresh
  have h16 : 16 ≤ d.pDesc.index_size.toNat := by
    rw [hsize, buildHardfileIndex_size]
    exact le_max_left _ _
  refine ⟨hformat, h16, fun he => ?_⟩
  obtain ⟨e, hm, -⟩ := insertInit_mounted hcsize h
  have hseek : Seekable d := by
    cases e with
    | file => exact hm.2.2.2 he
    | partition _ _ | wholeCard => exact absurd hm.1 hformat
  exact
    { format := hformat
      ok := hseek.ok
      healthy := he
      csize_le := hseek.csize_le
      size := hseek.size
      index_size := h16
      index_step := hseek.index_step
      entries := fun i c hi => by rw [hindex] at hi; cases hi
      filled := fun i j _ hj => by rw [hindex] at hj; cases hj
      mru := Or.inl hmru }

/-! ### The seek against the plain one -/

/-- Two files stand at the same place. At the start of a file there is no current cluster: FatFs goes
    on with the first one. -/
structure SamePlace (fp fp' : FIL) : Prop where
  fptr : fp'.fptr = fp.fptr
  clust : 0 < fp.fptr → fp'.clust = fp.clust

/-- A plain seek to a block, from the start of the file. -/
def plainSeek (pDrive : Drive) (lba : UInt32) : FRESULT × FIL :=
  FF_Seek (moveTo pDrive.fSource 0 0) (lbaByte pDrive.pDesc lba)

/-- A seek comes to the place of a plain one. -/
def SeeksPlain (pDrive : Drive) (lba : UInt32) : Prop :=
  ∃ pDrive', hardFileSeek pDrive lba = some (true, pDrive') ∧
    SamePlace (plainSeek pDrive lba).2 pDrive'.fSource

/-- The block begins inside the image, and is not a made-up one. -/
def BeginsInside (pDesc : Desc) (lba : UInt32) : Prop :=
  ¬(pDesc.format = .HDF_NAKED ∧ lba < pDesc.lba_offset) ∧ lbaByte pDesc lba < pDesc.imageSize

/-- Inside the image the number of an entry is not cut, so a block that has an entry has its own. -/
theorem Steady.inIndex {d : Drive} (h : Steady d) {lba : UInt32}
    (hin : lbaByte d.pDesc lba < d.pDesc.imageSize) (hi : Indexed d.pDesc lba) : InIndex d.pDesc lba := by
  obtain ⟨hidx, hstep⟩ := hi
  have hpow : 2 ^ 16 ≤ 2 ^ d.pDesc.index_size.toNat := Nat.pow_le_pow_right (by decide) h.index_size
  have hsize := h.index_step
  rw [indexOf_lt_iff rfl h.index_size (by omega), Nat.mod_eq_of_lt] at hidx
  · exact ⟨hidx, hstep⟩
  · show lbaByte d.pDesc lba < _
    omega

/-- A seek that lands is plain. -/
theorem Steady.seeksPlain {d : Drive} (h : Steady d) {lba : UInt32}
    (hlow : ¬(d.pDesc.format = .HDF_NAKED ∧ lba < d.pDesc.lba_offset)) (hin : InIndex d.pDesc lba)
    (hlands : Lands d lba) : SeeksPlain d lba := by
  obtain ⟨d', hseek, hd', hgrown, hptr⟩ := h.seek hlow hin hlands
  obtain ⟨fp, hplain, hok, -, hgrown', hptr'⟩ :=
    seek_grown (moveTo_ok h.ok (Nat.zero_le _) fun h0 => absurd h0 (lt_irrefl 0)) h.healthy
      (lbaByte d.pDesc lba)
  have hsame : d'.fSource.fptr = fp.fptr := hptr.trans hptr'.symm
  refine ⟨d', hseek, ?_⟩
  rw [plainSeek, hplain]
  refine ⟨hsame, fun hpos => ?_⟩
  have hcsize : fp.csize = d.fSource.csize := hgrown'.csize
  rw [hd'.ok.clust_eq (by rwa [hsame]), hok.clust_eq hpos, hsame, hgrown.csize, hcsize]

/-- After any history of seeks with entries in the index, reads and writes, a seek to a block of the
    image ends where a plain seek does, at the same position and in the same cluster, exactly when the
    block has an entry in the index. -/
theorem hardFileSeek_plain {card : Card} {drive_number status : UInt8} {file : File} {write : Bool}
    {ext : List UInt8} {fbuf : ℕ → UInt8} {d₀ : Drive} (hcsize : file.csize ≤ 2 ^ 24)
    (hins : insertInit card drive_number status (f_open file write) ext fbuf = .unit d₀)
    (hformat : d₀.pDesc.format ≠ .MMC) {as : List Access} (hrun : ProperRun d₀ as) :
    ∃ d, accesses d₀ as = some d ∧ (d.fSource.err = false →
      ∀ lba, BeginsInside d.pDesc lba → (SeeksPlain d lba ↔ Indexed d.pDesc lba)) := by
  obtain ⟨d, haccesses, hd⟩ := (insertInit_usable hcsize hins hformat).accesses hrun
  refine ⟨d, haccesses, fun he lba ⟨hlow, hin⟩ => ?_⟩
  have hsteady := hd.steady he
  constructor
  · rintro ⟨d', hseek, -⟩
    rw [hardFileSeek] at hseek
    simp only at hseek
    rw [if_neg hd.format, if_neg hlow] at hseek
    split at hseek
    · cases hseek
    · next hout => exact ⟨by omega, by omega⟩
  · intro hi
    exact hsteady.seeksPlain hlow (hsteady.inIndex hin hi)
      (Or.inl (hsteady.ok.target_eq ((le_of_lt hin).trans hsteady.size)))

/-! ### Images with a rigid disk block -/

theorem cluster_pos : 0 < 32768 := by decide

/-- An image of `n + 4` bytes that begins with a rigid disk block. -/
def rdskFile (n : ℕ) : File :=
  { data := strBytes "RDSK" ++ List.replicate n 0, slack := fun _ => 0, cap := n + 4, csize := 32768
    readable := n + 4, csize_pos := cluster_pos
    size_le := by
      rw [List.length_append, List.length_replicate, Nat.add_comm]
      exact le_refl _ }

/-- The unit on it. -/
def rdskUnit (n : ℕ) : Drive :=
  { status := statInserted, fSource := (f_open (rdskFile n) true).moved 512
    pDesc := buildHardfileIndex
      (getHardfileGeometry (fileDesc .HDF (FF_Size (f_open (rdskFile n) true)).toUInt64 .rdsk)) }

theorem rdskFile_length (n : ℕ) : (rdskFile n).data.length = n + 4 := by
  rw [rdskFile, List.length_append, List.length_replicate, Nat.add_comm]
  rfl

theorem rdskUnit_desc (n : ℕ) : (rdskUnit n).pDesc.format = .HDF ∧
    (rdskUnit n).pDesc.file_size = (n + 4).toUInt64 ∧
    (rdskUnit n).pDesc.index_size = (buildHardfileIndex (rdskUnit n).pDesc).index_size := by
  refine ⟨(getHardfileGeometry_kept _).1, ?_, rfl⟩
  rw [← rdskFile_length n]
  exact (getHardfileGeometry_kept _).2.1

theorem insertInit_rdsk {n : ℕ} (hn : 508 ≤ n) :
    insertInit blankCard 0 statInserted (f_open (rdskFile n) true) (strBytes "HDF") (fun _ => 0)
      = .unit (rdskUnit n) := by
  have hsize : (f_open (rdskFile n) true).objsize = n + 4 := rdskFile_length n
  have hread : FF_Read (f_open (rdskFile n) true) 512
      = (((rdskFile n).data.drop 0).take 512, (f_open (rdskFile n) true).moved 512) :=
    FF_Read_eq (f_open_ok _ _) rfl (by rw [hsize]; show 0 + 512 ≤ n + 4; omega)
      (show 0 + 512 ≤ n + 4 by omega)
  have htype : getHardfileType (f_open (rdskFile n) true) (fun _ => 0)
      = (.rdsk, (f_open (rdskFile n) true).moved 512) := by
    have hseek : FF_Seek (f_open (rdskFile n) true) 0 = (.ok, f_open (rdskFile n) true) := if_pos rfl
    rw [getHardfileType, hseek]
    simp only [typeLoop, hread]
    rfl
  have hformat : (rdskUnit n).pDesc.format ≠ .HDF_NAKED := by
    rw [(rdskUnit_desc n).1]
    exact Format.noConfusion
  rw [insertInit, if_pos (by decide), insertFile, htype]
  simp only [Inserted.unit.injEq]
  exact congrArg (fun pDesc => (⟨statInserted, (f_open (rdskFile n) true).moved 512, pDesc, []⟩ : Drive))
    (if_neg hformat)

/-- The first four blocks, after a seek to the second one. -/
theorem hardFileSeek_plain_four : ∃ d, accesses (rdskUnit 2044) [.read 512, .seek 1] = some d ∧
    (d.fSource.err = false → ∀ lba, BeginsInside d.pDesc lba → (SeeksPlain d lba ↔ Indexed d.pDesc lba)) :=
  hardFileSeek_plain (by decide) (insertInit_rdsk (by decide)) (by decide +kernel)
    ⟨trivial, fun _ h => ⟨Or.inr ⟨⟨by cases h; decide +kernel, by cases h; decide +kernel⟩,
      Or.inl (by cases h; decide +kernel)⟩, fun _ _ => trivial⟩⟩

/-- The last block of an image of 64 MiB and one block lies behind the index. -/
theorem tail_not_plain : ¬ ∀ (card : Card) (drive_number status : UInt8) (file : File) (write : Bool)
    (ext : List UInt8) (fbuf : ℕ → UInt8) (d₀ : Drive), file.csize ≤ 2 ^ 24 →
    insertInit card drive_number status (f_open file write) ext fbuf = .unit d₀ →
    d₀.pDesc.format ≠ .MMC → ∀ (as : List Access) (d : Drive), accesses d₀ as = some d →
    d.fSource.err = false → ∀ lba, BeginsInside d.pDesc lba → SeeksPlain d lba := by
  intro h
  obtain ⟨hformat, hfile, hindex⟩ := rdskUnit_desc (2 ^ 26 + 508)
  have hok := insertInit_rdsk (show 508 ≤ 2 ^ 26 + 508 by decide)
  have hall := h blankCard 0 statInserted (rdskFile (2 ^ 26 + 508)) true (strBytes "HDF") (fun _ => 0)
  have herr : (rdskUnit (2 ^ 26 + 508)).fSource.err = false := rfl
  generalize rdskUnit (2 ^ 26 + 508) = d at hformat hfile hindex hok hall herr
  have hnaked : d.pDesc.format ≠ .HDF_NAKED := by rw [hformat]; decide
  have hmmc : d.pDesc.format ≠ .MMC := by rw [hformat]; decide
  have hbyte : lbaByte d.pDesc 131072 = 2 ^ 26 := by
    rw [lbaByte, fileLba, if_neg hnaked]
    rfl
  have hsize : d.pDesc.index_size.toNat = 16 := by
    rw [hindex, buildHardfileIndex_size, Desc.imageSize, hfile]
    decide
  obtain ⟨d', hseek, -⟩ := hall d (by decide) hok hmmc [] d rfl herr 131072
    ⟨fun hlow => hnaked hlow.1, by rw [hbyte, Desc.imageSize, hfile]; decide⟩
  have hidx : indexOf d.pDesc 131072 = 1024 := by
    rw [indexOf_eq_mod (by rw [hsize]) (by rw [hsize]; decide), hsize]
    decide
  rw [hardFileSeek] at hseek
  simp only at hseek
  rw [if_neg hmmc, if_neg fun hlow => hnaked hlow.1, fileLba, if_neg hnaked, hidx,
    if_pos (Or.inl (le_refl _))] at hseek
  cases hseek

end FileIO.Drv08
