import Mathlib.Data.Nat.Log
import ReplayFirmware.Drv08.Insert

/-! The entries of the cluster index a seek touches.

    The index of an image has 1024 entries, one for every 2^`index_size` bytes. The size of a step is
    found by doubling until 1024 steps reach the size of the image, with the size rounded down to
    1024 bytes; the entry of a block is cut to 16 bits. `touched` lists the entries in the order in
    which the seek comes to them. -/

namespace FileIO.Drv08
open FatFs

/-! ### The entries -/

/-- The entries the search for the last known one looks at, from `idx` down. -/
def searched (index : ℕ → Option ℕ) : ℕ → List ℕ
  | 0 => []
  | idx + 1 =>
    if (index (idx + 1)).isSome then [idx + 1] else (idx + 1) :: searched index idx

/-- The entries a repositioning touches: its own, and when that is not known those of the search and
    of the loop that fills the index. -/
def jumpTouches (index : ℕ → Option ℕ) (idx : ℕ) : List ℕ :=
  if index idx = none then
    let start := findStart index idx
    idx :: searched index idx ++ List.range' start (idx + 1 - start) ++ [idx]
  else [idx, idx]

/-- The entries the seek touches from a position on, the check for a known entry last in the
    condition. -/
def repositionTouches (fp : FIL) (index : ℕ → Option ℕ) (lba_byte idx : ℕ) : List ℕ :=
  let newCluster := lba_byte / fp.csize
  let currentCluster := fp.fptr / fp.csize
  if newCluster < currentCluster ∨ newCluster > currentCluster + 1 then jumpTouches index idx
  else if index idx = none then idx :: jumpTouches index idx
  else [idx]

/-- The entries `Drv08_HardFileSeek` touches; `none` where the shift of the block number is wider than
    the number. -/
def touched (pDrive : Drive) (lba : UInt32) : Option (List ℕ) :=
  let pDesc := pDrive.pDesc
  if pDesc.format = .MMC then some []
  else if pDesc.format = .HDF_NAKED ∧ lba < pDesc.lba_offset then some []
  else if 41 ≤ pDesc.index_size.toNat then none
  else
    let lba := fileLba pDesc lba
    some (repositionTouches (mruPosition pDrive lba) pDesc.index (512 * lba.toNat) (indexOf pDesc lba))

/-- Every entry that is touched exists. -/
def InTable (pDrive : Drive) (lba : UInt32) : Prop :=
  ∃ entries, touched pDrive lba = some entries ∧ ∀ i ∈ entries, i < 1024

theorem searched_le (index : ℕ → Option ℕ) : ∀ {idx i : ℕ}, i ∈ searched index idx → i ≤ idx
  | 0, _, h => absurd h List.not_mem_nil
  | idx + 1, i, h => by
    rw [searched] at h
    split at h
    · rw [List.mem_singleton.mp h]
    · rcases List.mem_cons.mp h with rfl | h
      · exact le_refl _
      · exact Nat.le_succ_of_le (searched_le index h)

/-- A repositioning comes to no entry behind its own. -/
theorem jumpTouches_le {index : ℕ → Option ℕ} {idx i : ℕ} (h : i ∈ jumpTouches index idx) : i ≤ idx := by
  unfold jumpTouches at h
  split at h
  · simp only [List.mem_append, List.mem_cons, List.mem_range'_1, List.not_mem_nil, or_false] at h
    rcases h with ((rfl | h) | h) | rfl
    · exact le_refl _
    · exact searched_le index h
    · omega
    · exact le_refl _
  · simp only [List.mem_cons, List.not_mem_nil, or_false, or_self] at h
    exact le_of_eq h

theorem mem_jumpTouches (index : ℕ → Option ℕ) (idx : ℕ) : idx ∈ jumpTouches index idx := by
  unfold jumpTouches
  split
  · exact List.mem_append_right _ List.mem_cons_self
  · exact List.mem_cons_self

/-- The entry of the block is the last one the seek comes to. -/
theorem repositionTouches_le {fp : FIL} {index : ℕ → Option ℕ} {lba_byte idx i : ℕ}
    (h : i ∈ repositionTouches fp index lba_byte idx) : i ≤ idx := by
  unfold repositionTouches at h
  simp only at h
  split at h
  · exact jumpTouches_le h
  · split at h
    · rcases List.mem_cons.mp h with rfl | h
      · exact le_refl _
      · exact jumpTouches_le h
    · rw [List.mem_singleton.mp h]

theorem mem_repositionTouches (fp : FIL) (index : ℕ → Option ℕ) (lba_byte idx : ℕ) :
    idx ∈ repositionTouches fp index lba_byte idx := by
  unfold repositionTouches
  simp only
  split
  · exact mem_jumpTouches index idx
  · split <;> exact List.mem_cons_self

/-- All entries that are touched exist when that of the block does. -/
theorem inTable_iff {d : Drive} {lba : UInt32} (hmmc : d.pDesc.format ≠ .MMC)
    (hlow : ¬(d.pDesc.format = .HDF_NAKED ∧ lba < d.pDesc.lba_offset)) :
    InTable d lba ↔ d.pDesc.index_size.toNat ≤ 40 ∧ indexOf d.pDesc (fileLba d.pDesc lba) < 1024 := by
  unfold InTable touched
  simp only
  rw [if_neg hmmc, if_neg hlow]
  by_cases hs : 41 ≤ d.pDesc.index_size.toNat
  · rw [if_pos hs]
    refine ⟨fun ⟨_, h, _⟩ => ?_, fun h => ?_⟩
    · cases h
    · omega
  · rw [if_neg hs]
    refine ⟨fun ⟨entries, h, hlt⟩ => ⟨by omega, ?_⟩, fun h => ⟨_, rfl, fun i hi => ?_⟩⟩
    · rw [← Option.some.inj h] at hlt
      exact hlt _ (mem_repositionTouches _ _ _ _)
    · exact lt_of_le_of_lt (repositionTouches_le hi) h.2

/-! ### No other entry matters -/

/-- The unit with another index. -/
def withIndex (pDrive : Drive) (index : ℕ → Option ℕ) : Drive :=
  { pDrive with pDesc := { pDrive.pDesc with index := index } }

/-- What comes of two runs that began with the indexes `index` and `index'`: they leave the file the
    same way and agree where they agreed, and change only the entries listed. -/
structure SameJump (entries : List ℕ) (index index' : ℕ → Option ℕ) (s s' : FIL × (ℕ → Option ℕ)) :
    Prop where
  file : s'.1 = s.1
  agree : ∀ i, index' i = index i → s'.2 i = s.2 i
  left : ∀ i, i ∉ entries → s.2 i = index i
  right : ∀ i, i ∉ entries → s'.2 i = index' i

theorem findStart_congr {index index' : ℕ → Option ℕ} : ∀ {idx : ℕ},
    (∀ i ∈ searched index idx, index' i = index i) → findStart index' idx = findStart index idx
  | 0, _ => rfl
  | idx + 1, h => by
    rw [searched] at h
    rw [findStart, findStart]
    split at h
    · next hsome =>
      rw [h (idx + 1) List.mem_cons_self, if_pos hsome, if_pos hsome]
    · next hnone =>
      rw [h (idx + 1) List.mem_cons_self, if_neg hnone, if_neg hnone]
      exact findStart_congr fun i hi => h i (List.mem_cons_of_mem _ hi)

theorem fillIndex_sameJump {entries : List ℕ} {index index' : ℕ → Option ℕ} {step i : ℕ}
    {s s' : FIL × (ℕ → Option ℕ)} (h : SameJump entries index index' s s') (hi : i ∈ entries)
    (hagree : index' i = index i) :
    SameJump entries index index' (fillIndex step s i) (fillIndex step s' i) := by
  rw [fillIndex, fillIndex, h.agree i hagree]
  split
  · exact h
  · rw [h.file]
    simp only
    refine ⟨rfl, fun j hj => ?_, fun j hj => ?_, fun j hj => ?_⟩
    · by_cases hji : j = i
      · subst hji
        simp only [Function.update_self]
      · simp only [Function.update_of_ne hji]
        exact h.agree j hj
    · have hji : j ≠ i := fun hji => hj (by rw [hji]; exact hi)
      simp only [Function.update_of_ne hji]
      exact h.left j hj
    · have hji : j ≠ i := fun hji => hj (by rw [hji]; exact hi)
      simp only [Function.update_of_ne hji]
      exact h.right j hj

theorem foldl_sameJump {entries : List ℕ} {index index' : ℕ → Option ℕ} {step : ℕ} :
    ∀ (is : List ℕ) (s s' : FIL × (ℕ → Option ℕ)), SameJump entries index index' s s' →
      (∀ i ∈ is, i ∈ entries ∧ index' i = index i) →
      SameJump entries index index' (is.foldl (fillIndex step) s) (is.foldl (fillIndex step) s')
  | [], _, _, h, _ => h
  | i :: is, _, _, h, his =>
    foldl_sameJump is _ _ (fillIndex_sameJump h (his i List.mem_cons_self).1 (his i List.mem_cons_self).2)
      fun j hj => his j (List.mem_cons_of_mem i hj)

/-- A repositioning looks at the entries it touches only, and changes no other. -/
theorem tableJump_sameJump {entries : List ℕ} {index index' : ℕ → Option ℕ} {idx : ℕ} (fp : FIL)
    (step lba_byte : ℕ) (hsub : ∀ i ∈ jumpTouches index idx, i ∈ entries)
    (hagree : ∀ i ∈ entries, index' i = index i) :
    SameJump entries index index' (tableJump fp index step lba_byte idx)
      (tableJump fp index' step lba_byte idx) := by
  have hidx : index' idx = index idx := hagree idx (hsub idx (mem_jumpTouches index idx))
  have hstart : SameJump entries index index' (fp, index) (fp, index') :=
    ⟨rfl, fun _ h => h, fun _ _ => rfl, fun _ _ => rfl⟩
  have hjump : ∀ {s s' : FIL × (ℕ → Option ℕ)}, SameJump entries index index' s s' →
      SameJump entries index index'
        ({ s.1 with fptr := lba_byte / step * step, clust := (s.2 idx).getD 0 }, s.2)
        ({ s'.1 with fptr := lba_byte / step * step, clust := (s'.2 idx).getD 0 }, s'.2) := by
    intro s s' h
    refine ⟨?_, h.agree, h.left, h.right⟩
    rw [h.file, h.agree idx hidx]
  unfold tableJump
  by_cases hn : index idx = none
  · unfold jumpTouches at hsub
    rw [if_pos hn] at hsub
    simp only [if_pos hn, if_pos (hidx.trans hn)]
    have hsearch : findStart index' idx = findStart index idx :=
      findStart_congr fun i hi => hagree i (hsub i (by simp [hi]))
    rw [hsearch]
    refine hjump (foldl_sameJump _ _ _ hstart fun i hi => ?_)
    have hmem := hsub i (List.mem_append_left _ (List.mem_append_right _ hi))
    exact ⟨hmem, hagree i hmem⟩
  · have hn' : index' idx ≠ none := by rw [hidx]; exact hn
    simp only [if_neg hn, if_neg hn']
    exact hjump hstart

theorem reposition_sameJump {entries : List ℕ} {index index' : ℕ → Option ℕ} {lba_byte idx : ℕ} {fp : FIL}
    (step : ℕ) (hsub : ∀ i ∈ repositionTouches fp index lba_byte idx, i ∈ entries)
    (hagree : ∀ i ∈ entries, index' i = index i) :
    SameJump entries index index' (reposition fp index step lba_byte idx)
      (reposition fp index' step lba_byte idx) := by
  have hidx : index' idx = index idx := hagree idx (hsub idx (mem_repositionTouches fp index _ idx))
  unfold repositionTouches at hsub
  unfold reposition
  simp only at hsub ⊢
  rw [hidx]
  by_cases hfar : lba_byte / fp.csize < fp.fptr / fp.csize ∨
      lba_byte / fp.csize > fp.fptr / fp.csize + 1
  · rw [if_pos hfar] at hsub
    rw [if_pos (hfar.imp_right Or.inl), if_pos (hfar.imp_right Or.inl)]
    exact tableJump_sameJump _ _ _ hsub hagree
  · rw [if_neg hfar] at hsub
    by_cases hn : index idx = none
    · rw [if_pos hn] at hsub
      rw [if_pos (Or.inr (Or.inr hn)), if_pos (Or.inr (Or.inr hn))]
      exact tableJump_sameJump _ _ _ (fun i hi => hsub i (List.mem_cons_of_mem _ hi)) hagree
    · have hstay : ¬(lba_byte / fp.csize < fp.fptr / fp.csize ∨
          lba_byte / fp.csize > fp.fptr / fp.csize + 1 ∨ index idx = none) := by
        rw [← or_assoc]
        exact not_or.mpr ⟨hfar, hn⟩
      rw [if_neg hstay, if_neg hstay]
      exact ⟨rfl, fun _ h => h, fun _ _ => rfl, fun _ _ => rfl⟩

/-- A seek depends on the entries it touches only: with another index that has the same ones it ends
    at the same place, and neither changes another entry. -/
theorem hardFileSeek_touches {d d' : Drive} {lba : UInt32} {entries : List ℕ} {r : Bool}
    {index' : ℕ → Option ℕ} (ht : touched d lba = some entries)
    (hagree : ∀ i ∈ entries, index' i = d.pDesc.index i) (h : hardFileSeek d lba = some (r, d')) :
    ∃ d'', hardFileSeek (withIndex d index') lba = some (r, d'') ∧ d''.fSource = d'.fSource ∧
      (∀ i ∈ entries, d''.pDesc.index i = d'.pDesc.index i) ∧
      ∀ i, i ∉ entries → d'.pDesc.index i = d.pDesc.index i ∧ d''.pDesc.index i = index' i := by
  unfold touched at ht
  unfold hardFileSeek at h ⊢
  simp only at ht h ⊢
  by_cases hmmc : d.pDesc.format = .MMC
  · rw [if_pos hmmc] at ht h
    cases ht
    cases h
    exact ⟨_, if_pos hmmc, rfl, fun i hi => absurd hi List.not_mem_nil, fun i _ => ⟨rfl, rfl⟩⟩
  · rw [if_neg hmmc] at ht h
    rw [if_neg (show (withIndex d index').pDesc.format ≠ .MMC from hmmc)]
    by_cases hlow : d.pDesc.format = .HDF_NAKED ∧ lba < d.pDesc.lba_offset
    · rw [if_pos hlow] at ht h
      cases ht
      cases h
      exact ⟨_, if_pos hlow, rfl, fun i hi => absurd hi List.not_mem_nil, fun i _ => ⟨rfl, rfl⟩⟩
    · rw [if_neg hlow] at ht h
      rw [if_neg (show ¬((withIndex d index').pDesc.format = .HDF_NAKED ∧
        lba < (withIndex d index').pDesc.lba_offset) from hlow)]
      by_cases hout : 1024 ≤ indexOf d.pDesc (fileLba d.pDesc lba) ∨ 31 ≤ d.pDesc.index_size.toNat
      · rw [if_pos hout] at h
        cases h
      · rw [if_neg hout] at h
        rw [if_neg (show ¬41 ≤ d.pDesc.index_size.toNat by omega)] at ht
        have hsame : SameJump entries d.pDesc.index index' (seekStart d (fileLba d.pDesc lba))
            (seekStart (withIndex d index') (fileLba d.pDesc lba)) :=
          reposition_sameJump _ (fun i hi => Option.some.inj ht ▸ hi) hagree
        cases h
        refine ⟨_, (if_neg hout).trans (congrArg some (Prod.ext ?_ rfl)), ?_,
          fun i hi => hsame.agree i (hagree i hi), fun i hi => ⟨hsame.left i hi, hsame.right i hi⟩⟩
        · show decide ((FF_Seek (seekStart (withIndex d index') (fileLba d.pDesc lba)).1
            (512 * (fileLba d.pDesc lba).toNat)).1 = .ok) = _
          rw [hsame.file]
        · show (FF_Seek (seekStart (withIndex d index') (fileLba d.pDesc lba)).1 _).2 = _
          rw [hsame.file]
          rfl

/-! ### The step of the index -/

/-- The bytes of an index entry: the least power of two from 2^16 on of which 1024 reach the size,
    rounded down to 1024 bytes. -/
def indexStep (size : ℕ) : ℕ := 2 ^ max 16 (Nat.clog 2 (size / 1024))

/-- The loop ends with the least power of two that is large enough. -/
theorem indexSizeLoop_least (i : ℕ) : ∀ {fuel s : ℕ}, s < indexSizeLoop i fuel (2 ^ s) s →
    2 ^ (indexSizeLoop i fuel (2 ^ s) s - 1) < i
  | 0, s, h => absurd h (lt_irrefl s)
  | fuel + 1, s, h => by
    rw [indexSizeLoop] at h ⊢
    split at h
    · next hlt =>
      rw [if_pos hlt]
      rw [← Nat.pow_succ', Nat.succ_eq_add_one] at h ⊢
      by_cases hstop : indexSizeLoop i fuel (2 ^ (s + 1)) (s + 1) = s + 1
      · rw [hstop]
        exact hlt
      · exact indexSizeLoop_least i (by omega)
    · exact absurd h (lt_irrefl s)

theorem buildHardfileIndex_size (pDesc : Desc) :
    (buildHardfileIndex pDesc).index_size.toNat = max 16 (Nat.clog 2 (pDesc.imageSize / 1024)) := by
  have hlt := pDesc.file_size.toNat_lt
  have hshift : (pDesc.file_size >>> 10).toNat = pDesc.imageSize / 1024 := by
    rw [UInt64.toNat_shiftRight, show (10 : UInt64).toNat % 64 = 10 by decide,
      Nat.shiftRight_eq_div_pow]
    rfl
  have himage : pDesc.imageSize / 1024 ≤ 2 ^ (16 + 48) := by
    rw [← hshift]
    exact le_of_lt (pDesc.file_size >>> 10).toNat_lt
  obtain ⟨h1, h2, h3⟩ := indexSizeLoop_spec (pDesc.imageSize / 1024) 48 16 himage
  have hleast := @indexSizeLoop_least (pDesc.imageSize / 1024) 48 16
  have hsize : (buildHardfileIndex pDesc).index_size.toNat
      = indexSizeLoop (pDesc.imageSize / 1024) 48 (2 ^ 16) 16 := by
    rw [← hshift]
    refine UInt32.toNat_ofNat_of_lt' ?_
    rw [hshift]
    exact lt_of_le_of_lt h2 (by decide)
  rw [hsize]
  generalize indexSizeLoop (pDesc.imageSize / 1024) 48 (2 ^ 16) 16 = r at h1 h2 h3 hleast
  have hclog : Nat.clog 2 (pDesc.imageSize / 1024) ≤ r := Nat.clog_le_of_le_pow h3
  rcases Nat.eq_or_lt_of_le h1 with h | h
  · omega
  · have : r - 1 < Nat.clog 2 (pDesc.imageSize / 1024) :=
      (Nat.lt_clog_iff_pow_lt (by decide)).mpr (hleast h)
    omega

/-- The entry of a block, by the place of the block in the image. -/
theorem indexOf_lt_iff {pDesc : Desc} {lba : UInt32} {s : ℕ} (hsize : pDesc.index_size.toNat = s)
    (h16 : 16 ≤ s) (h40 : s ≤ 40) :
    indexOf pDesc lba < 1024 ↔ 512 * lba.toNat % (65536 * 2 ^ s) < 1024 * 2 ^ s := by
  rw [indexOf_eq_mod (by rwa [hsize]) (by rwa [hsize]), hsize, Nat.mul_comm 65536,
    ← Nat.mod_mul_right_div_self, Nat.div_lt_iff_lt_mul (Nat.two_pow_pos s)]

/-- The seek does not come to the index, or the index reaches the block: it lies in the first 1024
    steps, counted modulo 65536. -/
def Covered (d : Drive) (lba : UInt32) : Prop :=
  let size := d.pDesc.imageSize
  d.pDesc.format = .MMC ∨ (d.pDesc.format = .HDF_NAKED ∧ lba < d.pDesc.lba_offset) ∨
    size / 1024 ≤ 2 ^ 40 ∧
      512 * (fileLba d.pDesc lba).toNat % (65536 * indexStep size) < 1024 * indexStep size

/-- A seek stays in its index exactly where the index reaches. -/
theorem inTable_iff_covered {d : Drive} {lba : UInt32}
    (hindex : d.pDesc.index_size = (buildHardfileIndex d.pDesc).index_size) :
    InTable d lba ↔ Covered d lba := by
  unfold Covered
  simp only
  by_cases hmmc : d.pDesc.format = .MMC
  · refine ⟨fun _ => Or.inl hmmc, fun _ => ⟨[], ?_, fun i hi => absurd hi List.not_mem_nil⟩⟩
    rw [touched]
    simp only
    rw [if_pos hmmc]
  · by_cases hlow : d.pDesc.format = .HDF_NAKED ∧ lba < d.pDesc.lba_offset
    · refine ⟨fun _ => Or.inr (Or.inl hlow), fun _ => ⟨[], ?_, fun i hi => absurd hi List.not_mem_nil⟩⟩
      rw [touched]
      simp only
      rw [if_neg hmmc, if_pos hlow]
    · have hsize := (congrArg UInt32.toNat hindex).trans (buildHardfileIndex_size d.pDesc)
      have hclog : max 16 (Nat.clog 2 (d.pDesc.imageSize / 1024)) ≤ 40 ↔
          d.pDesc.imageSize / 1024 ≤ 2 ^ 40 := by
        rw [max_le_iff, Nat.clog_le_iff_le_pow (by decide)]
        exact ⟨fun h => h.2, fun h => ⟨by decide, h⟩⟩
      rw [inTable_iff hmmc hlow, hsize, hclog, or_iff_right hmmc, or_iff_right hlow]
      refine and_congr_right fun h => ?_
      exact indexOf_lt_iff hsize (le_max_left _ _) (hclog.mpr h)

/-- Of the blocks that begin inside an image only one can lie behind the index: the last one, when
    1024 steps are the size rounded down. -/
theorem covered_inside {size lba : ℕ} (h : 512 * lba < size) :
    512 * lba % (65536 * indexStep size) < 1024 * indexStep size ↔ 512 * lba < 1024 * indexStep size := by
  have hstep : size / 1024 ≤ indexStep size := by
    refine (Nat.le_pow_clog (show 1 < 2 by decide) (size / 1024)).trans ?_
    exact Nat.pow_le_pow_right (by decide) (le_max_right _ _)
  have hpos : 2 ^ 16 ≤ indexStep size := Nat.pow_le_pow_right (by decide) (le_max_left _ _)
  rw [Nat.mod_eq_of_lt]
  omega

/-! ### An image of 64 MiB and one block -/

/-- An image of 2^26 + 512 bytes. -/
def tailImage : File :=
  { data := List.replicate (2 ^ 26 + 512) 0, slack := fun _ => 0, cap := 2 ^ 27, csize := 32768
    readable := 2 ^ 27, size_le := by rw [List.length_replicate]; decide, csize_pos := by decide }

/-- A unit on a file of that size. -/
def fileUnit (file : File) (file_size : UInt64) : Drive :=
  { status := statInserted, fSource := f_open file true
    pDesc := buildHardfileIndex (getHardfileGeometry (fileDesc .HDF file_size .rdsk)) }

theorem inTable_iff_covered_tail : InTable (fileUnit tailImage (2 ^ 26 + 512)) 131071 :=
  (inTable_iff_covered rfl).mpr (Or.inr (Or.inr ⟨by decide, by decide⟩))

/-- The last block of the image has entry 1024. -/
theorem tail_not_inTable : ¬ ∀ (d : Drive) (lba : UInt32),
    d.pDesc.index_size = (buildHardfileIndex d.pDesc).index_size →
    512 * lba.toNat + 512 ≤ d.pDesc.imageSize → InTable d lba := by
  intro h
  have htable := h (fileUnit tailImage (2 ^ 26 + 512)) 131072 rfl (by decide)
  rw [inTable_iff (by decide) (by decide)] at htable
  exact absurd htable.2 (by decide)

end FileIO.Drv08
