import ReplayFirmware.Drv08.Desc

/-! Seeking in a hardfile.

    Following a cluster chain from its start is slow in a large file, so the driver remembers the
    cluster of every 2^`index_size` bytes it has come past, and the cluster of its last seek, and
    starts from there. `Seekable` says that what it remembers is right; a seek inside the file keeps
    it and ends where it was asked to. -/

namespace FileIO.Drv08
open FatFs

/-! ### The seek -/

/-- The last known entry of the index up to `idx`, or 0. -/
def findStart (index : ℕ → Option ℕ) : ℕ → ℕ
  | 0 => 0
  | idx + 1 => if (index (idx + 1)).isSome then idx + 1 else findStart index idx

/-- One pass of the loop that fills the index. -/
def fillIndex (step : ℕ) (s : FIL × (ℕ → Option ℕ)) (i : ℕ) : FIL × (ℕ → Option ℕ) :=
  if (s.2 i).isSome then s
  else
    let fp := (FF_Seek s.1 (i * step)).2
    (fp, Function.update s.2 i (some fp.clust))

/-- The file is repositioned with the index, which is filled up to `idx` first when it has to be. -/
def tableJump (fp : FIL) (index : ℕ → Option ℕ) (step lba_byte idx : ℕ) : FIL × (ℕ → Option ℕ) :=
  let s :=
    if index idx = none then
      let start := findStart index idx
      (List.range' start (idx + 1 - start)).foldl (fillIndex step) (fp, index)
    else (fp, index)
  ({ s.1 with fptr := lba_byte / step * step, clust := (s.2 idx).getD 0 }, s.2)

/-- The block of the file behind block `lba` of the disk. -/
def fileLba (pDesc : Desc) (lba : UInt32) : UInt32 :=
  if pDesc.format = .HDF_NAKED then lba - pDesc.lba_offset else lba

/-- The index entry of a block. -/
def indexOf (pDesc : Desc) (lba : UInt32) : ℕ := (lba >>> (pDesc.index_size - 9)).toUInt16.toNat

/-- The shortcut of the last seek: a block that was just visited has a known position. -/
def mruPosition (pDrive : Drive) (lba : UInt32) : FIL :=
  let pDesc := pDrive.pDesc
  if lba = pDesc.mru_lba then
    { pDrive.fSource with fptr := (pDesc.mru_lba <<< 9).toNat, clust := pDesc.mru_cluster }
  else pDrive.fSource

/-- The file is repositioned unless it stands in the cluster of the block or the one before. -/
def reposition (fp : FIL) (index : ℕ → Option ℕ) (step lba_byte idx : ℕ) : FIL × (ℕ → Option ℕ) :=
  let newCluster := lba_byte / fp.csize
  let currentCluster := fp.fptr / fp.csize
  if newCluster < currentCluster ∨ newCluster > currentCluster + 1 ∨ index idx = none then
    tableJump fp index step lba_byte idx
  else (fp, index)

/-- The index has an entry for the block, and its step fits an `int`. -/
def Indexed (pDesc : Desc) (lba : UInt32) : Prop :=
  indexOf pDesc (fileLba pDesc lba) < 1024 ∧ pDesc.index_size.toNat < 31

instance (pDesc : Desc) (lba : UInt32) : Decidable (Indexed pDesc lba) :=
  inferInstanceAs (Decidable (_ ∧ _))

/-- Where the file stands before the seek proper. -/
def seekStart (pDrive : Drive) (lba : UInt32) : FIL × (ℕ → Option ℕ) :=
  reposition (mruPosition pDrive lba) pDrive.pDesc.index (2 ^ pDrive.pDesc.index_size.toNat)
    (512 * lba.toNat) (indexOf pDrive.pDesc lba)

/-- `Drv08_HardFileSeek`: whether it went well, and the unit. `none` when the entry lies outside the
    index, or the step of the index does not fit an `int`. -/
def hardFileSeek (pDrive : Drive) (lba : UInt32) : Option (Bool × Drive) :=
  let pDesc := pDrive.pDesc
  if pDesc.format = .MMC then some (true, pDrive)
  else if pDesc.format = .HDF_NAKED ∧ lba < pDesc.lba_offset then some (false, pDrive)
  else
    let lba := fileLba pDesc lba
    let lba_byte := 512 * lba.toNat
    let idx := indexOf pDesc lba
    if 1024 ≤ idx ∨ 31 ≤ pDesc.index_size.toNat then none
    else
      let s := seekStart pDrive lba
      let r := FF_Seek s.1 lba_byte
      some (r.1 = .ok, { pDrive with
        fSource := r.2
        pDesc := { pDesc with
          index := s.2, mru_lba := (r.2.fptr / 512).toUInt32, mru_cluster := r.2.clust } })

/-! ### What is remembered -/

/-- The size of the image when it was inserted. -/
def Desc.imageSize (pDesc : Desc) : ℕ := pDesc.file_size.toNat

/-- The file object at another position. -/
def moveTo (fp : FIL) (fptr clust : ℕ) : FIL := { fp with fptr := fptr, clust := clust }

@[simp] theorem moveTo_moveTo (fp : FIL) (p c p' c' : ℕ) :
    moveTo (moveTo fp p c) p' c' = moveTo fp p' c' := rfl

/-- The cluster that holds the byte before position `p`. -/
def ClusterAt (fp : FIL) (p c : ℕ) : Prop := 0 < p → c = (p - 1) / fp.csize

theorem moveTo_ok {fp : FIL} (h : fp.Ok) {p c : ℕ} (hp : p ≤ fp.objsize) (hc : ClusterAt fp p c) :
    (moveTo fp p c).Ok := ⟨hp, h.size_le, h.csize_pos, hc⟩

/-- The entries of the index that lie inside the image are right. -/
def IndexOk (fp : FIL) (size step : ℕ) (index : ℕ → Option ℕ) : Prop :=
  ∀ i c, index i = some c → i * step ≤ size → ClusterAt fp (i * step) c

/-- The last seek is remembered right: it went to a block with an entry in the index, or ended behind
    the image. -/
def MruOk (fp : FIL) (size step : ℕ) (index : ℕ → Option ℕ) (mru_lba : UInt32) (mru_cluster : ℕ) :
    Prop :=
  mru_lba = 0xFFFFFFFF ∨
    ∃ p, p / 512 = mru_lba.toNat ∧ ClusterAt fp p mru_cluster ∧
      (p % 512 = 0 ∧ (index (p / step)).isSome = true ∨ size ≤ p)

/-- A hardfile that is in order: position and cluster of the file belong together, no transfer has
    aborted it, the image lies inside it, and what is remembered is right. -/
structure Seekable (d : Drive) : Prop where
  ok : d.fSource.Ok
  healthy : d.fSource.err = false
  /-- FatFs mounts volumes with at most 32768 sectors in a cluster -/
  csize_le : d.fSource.csize ≤ 2 ^ 24
  size : d.pDesc.imageSize ≤ d.fSource.objsize
  index_size : 16 ≤ d.pDesc.index_size.toNat
  index_step : d.pDesc.imageSize / 1024 ≤ 2 ^ d.pDesc.index_size.toNat
  index : IndexOk d.fSource d.pDesc.imageSize (2 ^ d.pDesc.index_size.toNat) d.pDesc.index
  mru : MruOk d.fSource d.pDesc.imageSize (2 ^ d.pDesc.index_size.toNat) d.pDesc.index
    d.pDesc.mru_lba d.pDesc.mru_cluster

/-! ### The index -/

theorem findStart_le (index : ℕ → Option ℕ) : ∀ idx, findStart index idx ≤ idx
  | 0 => le_refl 0
  | idx + 1 => by
    rw [findStart]
    split
    · exact le_refl _
    · exact Nat.le_succ_of_le (findStart_le index idx)

/-- A seek inside the file, from any consistent position. -/
theorem seek_moveTo {fp : FIL} (h : fp.Ok) (he : fp.err = false) {ofs : ℕ} (hle : ofs ≤ fp.objsize) :
    ∃ c, FF_Seek fp ofs = (.ok, moveTo fp ofs c) ∧ ClusterAt fp ofs c := by
  obtain ⟨c, hseek⟩ := FF_Seek_in h he hle
  have hok := FF_Seek_ok h ofs
  rw [hseek] at hok
  exact ⟨c, hseek, hok.clust_eq⟩

/-- The loop keeps the file in place but for its position, and the index right. -/
structure Filling (fp : FIL) (size step : ℕ) (s : FIL × (ℕ → Option ℕ)) : Prop where
  file : ∃ p c, s.1 = moveTo fp p c
  ok : s.1.Ok
  index : IndexOk fp size step s.2

theorem fillIndex_filling {fp : FIL} {size step : ℕ} {s : FIL × (ℕ → Option ℕ)} {i : ℕ}
    (he : fp.err = false) (hi : i * step ≤ fp.objsize) (h : Filling fp size step s) :
    Filling fp size step (fillIndex step s i) := by
  obtain ⟨⟨p, c, hfile⟩, hok, hindex⟩ := h
  rw [fillIndex]
  split
  · exact ⟨⟨p, c, hfile⟩, hok, hindex⟩
  · obtain ⟨c', hseek, hc'⟩ := seek_moveTo hok (by rw [hfile]; exact he)
      (show i * step ≤ s.1.objsize by rw [hfile]; exact hi)
    rw [hseek]
    refine ⟨⟨i * step, c', by rw [hfile]; rfl⟩, ?_, ?_⟩
    · exact moveTo_ok hok (by rw [hfile]; exact hi) hc'
    · intro j k hj hle
      by_cases hji : j = i
      · subst hji
        simp only [Function.update_self, Option.some.injEq] at hj
        rw [← hj]
        intro hpos
        have := hc' hpos
        rwa [hfile] at this
      · simp only [Function.update_of_ne hji] at hj
        exact hindex j k hj hle

theorem foldl_filling {fp : FIL} {size step : ℕ} (he : fp.err = false) :
    ∀ (is : List ℕ) (s : FIL × (ℕ → Option ℕ)), (∀ i ∈ is, i * step ≤ fp.objsize) →
      Filling fp size step s → Filling fp size step (is.foldl (fillIndex step) s)
  | [], _, _, h => h
  | i :: is, _, hle, h =>
    foldl_filling he is _ (fun j hj => hle j (List.mem_cons_of_mem i hj))
      (fillIndex_filling he (hle i List.mem_cons_self) h)

theorem fillIndex_isSome (step : ℕ) (s : FIL × (ℕ → Option ℕ)) (i : ℕ) :
    ((fillIndex step s i).2 i).isSome = true := by
  rw [fillIndex]
  split
  · assumption
  · simp only [Function.update_self, Option.isSome_some]

/-- The fill ends with the entry it was asked for. -/
theorem foldl_isSome (step : ℕ) (s : FIL × (ℕ → Option ℕ)) {start idx : ℕ} (h : start ≤ idx) :
    (((List.range' start (idx + 1 - start)).foldl (fillIndex step) s).2 idx).isSome = true := by
  obtain ⟨n, rfl⟩ := Nat.exists_eq_add_of_le h
  rw [show start + n + 1 - start = n + 1 by omega, List.range'_concat, List.foldl_append, Nat.one_mul]
  exact fillIndex_isSome step _ _

/-- A jump ends at the start of its index step, with the right cluster. -/
theorem tableJump_filling {fp₀ fp : FIL} {size step lba_byte idx : ℕ} {index : ℕ → Option ℕ}
    (h₀ : fp₀.Ok) (he : fp₀.err = false) (hfile : ∃ p c, fp = moveTo fp₀ p c)
    (hindex : IndexOk fp₀ size step index) (hfp : index idx = none → fp.Ok)
    (hidx : idx = lba_byte / step) (hle : lba_byte ≤ size) (hsize : size ≤ fp₀.objsize) :
    Filling fp₀ size step (tableJump fp index step lba_byte idx) ∧
      ((tableJump fp index step lba_byte idx).2 idx).isSome = true := by
  have hpos : lba_byte / step * step ≤ lba_byte := Nat.div_mul_le_self _ _
  have hstep : ∀ i, i ≤ idx → i * step ≤ fp₀.objsize := by
    intro i hi
    have : i * step ≤ idx * step := Nat.mul_le_mul_right step hi
    rw [hidx] at this
    omega
  have hjump : ∀ s : FIL × (ℕ → Option ℕ), (∃ p c, s.1 = moveTo fp₀ p c) →
      IndexOk fp₀ size step s.2 → (s.2 idx).isSome = true →
      Filling fp₀ size step
        ({ s.1 with fptr := lba_byte / step * step, clust := (s.2 idx).getD 0 }, s.2) := by
    rintro ⟨f, index'⟩ ⟨p, c, hf⟩ hi hs
    obtain ⟨k, hk⟩ := Option.isSome_iff_exists.mp hs
    simp only at hf hi hk
    have hfile' : { f with fptr := lba_byte / step * step, clust := (index' idx).getD 0 }
        = moveTo fp₀ (lba_byte / step * step) k := by
      rw [hf, hk]
      rfl
    have hk' : ClusterAt fp₀ (lba_byte / step * step) k := by
      rw [← hidx]
      exact hi idx k hk (by rw [hidx]; omega)
    exact ⟨⟨_, _, hfile'⟩, by rw [hfile']; exact moveTo_ok h₀ (by omega) hk', hi⟩
  unfold tableJump
  by_cases hn : index idx = none
  · simp only [if_pos hn]
    obtain ⟨p, c, rfl⟩ := hfile
    have hstart := findStart_le index idx
    have hfold := foldl_filling he (List.range' (findStart index idx) (idx + 1 - findStart index idx))
      (moveTo fp₀ p c, index) (fun i hi => by
        rw [List.mem_range'_1] at hi
        exact hstep i (by omega)) ⟨⟨p, c, rfl⟩, hfp hn, hindex⟩
    have hsome := foldl_isSome step (moveTo fp₀ p c, index) hstart
    exact ⟨hjump _ hfold.file hfold.index hsome, hsome⟩
  · simp only [if_neg hn]
    have hsome : (index idx).isSome = true := Option.isSome_iff_ne_none.mpr hn
    exact ⟨hjump (fp, index) hfile hindex hsome, hsome⟩

/-! ### A seek inside the image -/

/-- A block that lies in the image as a whole, or its start. -/
def InImage (pDesc : Desc) (lba : UInt32) : Prop :=
  lba = 0 ∨ 512 * lba.toNat + 512 ≤ pDesc.imageSize

theorem InImage.le {pDesc : Desc} {lba : UInt32} (h : InImage pDesc lba) :
    512 * lba.toNat ≤ pDesc.imageSize := by
  rcases h with rfl | h
  · exact Nat.zero_le _
  · omega

/-- The index entry of a block, cut to 16 bits. -/
theorem indexOf_eq_mod {pDesc : Desc} (h16 : 16 ≤ pDesc.index_size.toNat)
    (h40 : pDesc.index_size.toNat ≤ 40) (lba : UInt32) :
    indexOf pDesc lba = 512 * lba.toNat / 2 ^ pDesc.index_size.toNat % 65536 := by
  set s := pDesc.index_size.toNat with hs
  have hsub : (pDesc.index_size - 9).toNat = s - 9 := by
    rw [UInt32.toNat_sub_of_le _ _ (UInt32.le_iff_toNat_le.mpr (by
      rw [← hs, show (9 : UInt32).toNat = 9 by decide]; omega))]
    rfl
  have hpow : 2 ^ s = 512 * 2 ^ (s - 9) := by
    rw [show (512 : ℕ) = 2 ^ 9 by decide, ← Nat.pow_add, Nat.add_sub_cancel' (by omega)]
  have hshift : (s - 9) % 32 = s - 9 := Nat.mod_eq_of_lt (by omega)
  rw [indexOf, UInt32.toNat_toUInt16, UInt32.toNat_shiftRight, hsub, hshift,
    Nat.shiftRight_eq_div_pow, hpow, Nat.mul_div_mul_left _ _ (by decide)]

/-- The index entry of a block inside the image. -/
theorem Seekable.indexOf_eq {d : Drive} (h : Seekable d) (hstep : d.pDesc.index_size.toNat < 31)
    {lba : UInt32} (hin : InImage d.pDesc lba) :
    indexOf d.pDesc lba = 512 * lba.toNat / 2 ^ d.pDesc.index_size.toNat := by
  have hin := hin.le
  have hsize := h.index_step
  have hpos : 2 ^ 16 ≤ 2 ^ d.pDesc.index_size.toNat := Nat.pow_le_pow_right (by decide) h.index_size
  rw [indexOf_eq_mod h.index_size (by omega), Nat.mod_eq_of_lt]
  exact Nat.div_lt_of_lt_mul (by omega)

/-- What a seek leaves as it was: all but the position of the file and what is remembered. -/
def sought (d : Drive) (fptr clust : ℕ) (index : ℕ → Option ℕ) (mru_lba : UInt32)
    (mru_cluster : ℕ) : Drive :=
  { d with
    fSource := moveTo d.fSource fptr clust
    pDesc := { d.pDesc with index := index, mru_lba := mru_lba, mru_cluster := mru_cluster } }

/-- The shortcut is taken only with an entry in the index, and where it gives another position than
    that of the block, its cluster is far off. -/
theorem Seekable.mruPosition_cases {d : Drive} (h : Seekable d)
    (hstep : d.pDesc.index_size.toNat < 31) {lba : UInt32} (hin : InImage d.pDesc lba) :
    (mruPosition d lba).Ok ∨
      d.pDesc.index (indexOf d.pDesc lba) ≠ none ∧
        512 * lba.toNat / d.fSource.csize > (mruPosition d lba).fptr / d.fSource.csize + 1 := by
  have hle : 512 * lba.toNat ≤ d.fSource.objsize := hin.le.trans h.size
  rw [h.indexOf_eq hstep hin, mruPosition]
  by_cases hmru : lba = d.pDesc.mru_lba
  · rw [if_pos hmru]
    have hsize := h.index_step
    have hpow : 2 ^ d.pDesc.index_size.toNat ≤ 2 ^ 30 := Nat.pow_le_pow_right (by decide) (by omega)
    rcases h.mru with h0 | ⟨p, hp, hc, hkept | hout⟩
    · rw [h0] at hmru
      have hin := hin.le
      rw [hmru, show (0xFFFFFFFF : UInt32).toNat = 4294967295 by decide] at hin
      omega
    · obtain ⟨hp0, hsome⟩ := hkept
      rw [← hmru] at hp
      have hpeq : p = 512 * lba.toNat := by omega
      subst hpeq
      have hfptr : (d.pDesc.mru_lba <<< 9).toNat = 512 * lba.toNat % 4294967296 := by
        rw [← hmru, UInt32.toNat_shiftLeft, show (9 : UInt32).toNat % 32 = 9 by decide,
          Nat.shiftLeft_eq, Nat.mul_comm]
      by_cases hlt : 512 * lba.toNat < 4294967296
      · left
        rw [hfptr, Nat.mod_eq_of_lt hlt]
        exact moveTo_ok h.ok hle hc
      · right
        refine ⟨Option.isSome_iff_ne_none.mp hsome, ?_⟩
        -- the position has lost 2^32, at least two clusters
        have hcsize := h.csize_le
        have hpos := h.ok.csize_pos
        simp only [hfptr]
        refine (Nat.le_div_iff_mul_le hpos).mpr ?_
        have hfar := Nat.div_mul_le_self (512 * lba.toNat % 4294967296) d.fSource.csize
        have hmul : (512 * lba.toNat % 4294967296 / d.fSource.csize + 1 + 1) * d.fSource.csize
            = 512 * lba.toNat % 4294967296 / d.fSource.csize * d.fSource.csize
              + 2 * d.fSource.csize := by
          rw [Nat.add_assoc, Nat.add_mul]
        rw [Nat.succ_eq_add_one, hmul]
        omega
    · rcases hin with h0 | hin
      · left
        rw [← hmru, h0]
        exact moveTo_ok h.ok (Nat.zero_le _) fun hpos => absurd hpos (lt_irrefl 0)
      · rw [← hmru] at hp
        omega
  · rw [if_neg hmru]
    exact Or.inl h.ok

/-- The file is repositioned right, with an entry in the index. -/
theorem seekStart_filling {d : Drive} (h : Seekable d) (hstep : d.pDesc.index_size.toNat < 31)
    {lba : UInt32} (hin : InImage d.pDesc lba) :
    let s := seekStart d lba
    Filling d.fSource d.pDesc.imageSize (2 ^ d.pDesc.index_size.toNat) s ∧
      (s.2 (indexOf d.pDesc lba)).isSome = true := by
  have hidx := h.indexOf_eq hstep hin
  have hcases := h.mruPosition_cases hstep hin
  have hfile : ∃ p c, mruPosition d lba = moveTo d.fSource p c := by
    unfold mruPosition
    simp only
    split
    · exact ⟨_, _, rfl⟩
    · exact ⟨d.fSource.fptr, d.fSource.clust, rfl⟩
  have hcsize : (mruPosition d lba).csize = d.fSource.csize := by
    obtain ⟨p, c, hf⟩ := hfile
    rw [hf]
    rfl
  unfold seekStart reposition
  simp only
  split
  · refine tableJump_filling h.ok h.healthy hfile h.index (fun hn => ?_) hidx hin.le h.size
    rcases hcases with hok | ⟨hsome, -⟩
    · exact hok
    · exact absurd hn hsome
  · next hstay =>
    rw [not_or, not_or] at hstay
    obtain ⟨-, hnear, hsome⟩ := hstay
    refine ⟨⟨hfile, ?_, h.index⟩, Option.isSome_iff_ne_none.mpr hsome⟩
    rcases hcases with hok | ⟨-, hfar⟩
    · exact hok
    · rw [hcsize] at hnear
      exact absurd hfar hnear

/-- A seek to a block inside the image goes there, and leaves the unit in order. -/
theorem hardFileSeek_eq {d : Drive} (h : Seekable d) (hformat : d.pDesc.format ≠ .MMC)
    {lba : UInt32} (hnaked : ¬(d.pDesc.format = .HDF_NAKED ∧ lba < d.pDesc.lba_offset))
    (hin : InImage d.pDesc (fileLba d.pDesc lba))
    (hindexed : Indexed d.pDesc lba) :
    ∃ c index mru_lba mru_cluster,
      hardFileSeek d lba
        = some (true, sought d (512 * (fileLba d.pDesc lba).toNat) c index mru_lba mru_cluster) ∧
      Seekable (sought d (512 * (fileLba d.pDesc lba).toNat) c index mru_lba mru_cluster) := by
  obtain ⟨hidx, hstep⟩ := hindexed
  have hidxeq := h.indexOf_eq hstep hin
  have hle : 512 * (fileLba d.pDesc lba).toNat ≤ d.fSource.objsize := hin.le.trans h.size
  obtain ⟨⟨⟨p, c, hf⟩, hok, hindex⟩, hsome⟩ := seekStart_filling h hstep hin
  unfold hardFileSeek
  simp only
  rw [if_neg hformat, if_neg hnaked, if_neg (by omega)]
  generalize seekStart _ _ = s at hf hok hindex hsome
  obtain ⟨c', hseek, hc'⟩ := seek_moveTo hok (by rw [hf]; exact h.healthy)
    (show 512 * (fileLba d.pDesc lba).toNat ≤ s.1.objsize by rw [hf]; exact hle)
  rw [hf] at hc'
  rw [hseek, hf]
  rw [hidxeq] at hsome
  refine ⟨c', s.2, _, c', rfl, ?_⟩
  have hblk : (512 * (fileLba d.pDesc lba).toNat / 512).toUInt32.toNat = (fileLba d.pDesc lba).toNat := by
    rw [Nat.mul_div_cancel_left _ (by decide)]
    exact congrArg UInt32.toNat (UInt32.ofNat_toNat)
  exact
    { ok := moveTo_ok h.ok hle hc'
      healthy := h.healthy
      csize_le := h.csize_le
      size := h.size
      index_size := h.index_size
      index_step := h.index_step
      index := hindex
      mru := Or.inr ⟨512 * (fileLba d.pDesc lba).toNat, by
          rw [Nat.mul_div_cancel_left _ (by decide)]; exact hblk.symm, hc',
        Or.inl ⟨Nat.mul_mod_right 512 _, hsome⟩⟩ }

end FileIO.Drv08
