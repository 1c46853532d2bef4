import ReplayFirmware.Lib.LastMatch
import ReplayFirmware.Drv08.Address
import ReplayFirmware.Drv08.Insert
import ReplayFirmware.Rdb.Longs

/-! The geometries the driver makes up: for a naked image, and for the card or one of its partitions.

    Sectors and heads are the greatest numbers of their ranges that divide what is there, and the
    cylinders what is left. When no number of heads divides, the heads stay what they were: 0 on the
    card, those of `Drv08_GetHardfileGeometry` on a file. -/

namespace FileIO.Drv08
open FatFs LastMatch

/-! ### The search for a divisor -/

theorem lastDivisor_toNat (n : ℕ) : ∀ (cs : List ℕ) (old : UInt16), (∀ c ∈ cs, c < 65536) →
    (lastDivisor n old cs).toNat = last (· ∣ n) old.toNat cs
  | [], _, _ => rfl
  | c :: cs, old, hcs => by
    have hc : c.toUInt16.toNat = c := UInt16.toNat_ofNat_of_lt' (hcs c List.mem_cons_self)
    have ih := lastDivisor_toNat n cs (if n % c = 0 then c.toUInt16 else old)
      fun d hd => hcs d (List.mem_cons_of_mem c hd)
    rw [lastDivisor, List.foldl_cons, last, List.foldl_cons]
    refine ih.trans ?_
    by_cases h : n % c = 0
    · rw [if_pos h, if_pos (Nat.dvd_of_mod_eq_zero h), hc]
      rfl
    · rw [if_neg h, if_neg fun hd => h (Nat.mod_eq_zero_of_dvd hd)]
      rfl

theorem candidates_sorted {start stop step : ℕ} (h : 0 < step) :
    (candidates start stop step).Pairwise (· < ·) := by
  exact List.pairwise_lt_range' step h

theorem mem_candidates_one {start stop c : ℕ} :
    c ∈ candidates start stop 1 ↔ start ≤ c ∧ c < stop := by
  rw [candidates, List.mem_range'_1]
  omega

theorem mem_candidates_odd {c : ℕ} : c ∈ candidates 1 255 2 ↔ c % 2 = 1 ∧ c < 255 := by
  rw [candidates, List.mem_range']
  refine ⟨?_, fun h => ⟨c / 2, by omega, by omega⟩⟩
  rintro ⟨i, hi, rfl⟩
  omega

/-- A number of heads that divides, as large as they are tried. -/
def HeadDivisor (q h : ℕ) : Prop := IsGreatest {d | (4 ≤ d ∧ d < 16) ∧ d ∣ q} h

theorem lastDivisor_heads (q : ℕ) (old : UInt16) (h : ℕ) :
    (lastDivisor q old (candidates 4 16 1)).toNat = h ↔
      HeadDivisor q h ∨ (∀ d, 4 ≤ d → d < 16 → ¬d ∣ q) ∧ old.toNat = h := by
  rw [lastDivisor_toNat q _ _ fun c hc => by rw [mem_candidates_one] at hc; omega,
    last_iff old.toNat (candidates_sorted (by decide)) h]
  simp only [mem_candidates_one]
  refine or_congr Iff.rfl (and_congr_left fun _ => ?_)
  exact ⟨fun hn d h4 h16 => hn d ⟨h4, h16⟩, fun hn d hd => hn d hd.1 hd.2⟩

/-- The sectors always divide: 1 does. -/
theorem lastDivisor_sectors (n : ℕ) (old : UInt16) {step : ℕ} (hstep : step = 1 ∨ step = 2) :
    IsGreatest {d | d ∈ candidates 1 255 step ∧ d ∣ n}
      (lastDivisor n old (candidates 1 255 step)).toNat := by
  have hlt : ∀ c ∈ candidates 1 255 step, c < 65536 := by
    intro c hc
    rcases hstep with rfl | rfl
    · rw [mem_candidates_one] at hc
      omega
    · rw [mem_candidates_odd] at hc
      omega
  have hone : 1 ∈ candidates 1 255 step := by
    rcases hstep with rfl | rfl
    · exact mem_candidates_one.mpr ⟨by decide, by decide⟩
    · exact mem_candidates_odd.mpr ⟨by decide, by decide⟩
  rw [lastDivisor_toNat n _ _ hlt]
  exact last_isGreatest old.toNat (candidates_sorted (by rcases hstep with rfl | rfl <;> decide)) hone
    (one_dvd n)

/-! ### The card -/

/-- How many blocks are mounted: those of the partition, cut to whole 256 blocks, or those of the
    card. -/
def mountedBlocks (card : Card) (partition : ℕ) : ℕ :=
  match findPartition card partition with
  | some (_, num_sectors) => num_sectors.toNat / 256 * 256
  | none => card.capacity.toNat / 512

/-- A geometry of `n` blocks: every block has an address, and every address is that of a block. -/
structure Describes (pDesc : Desc) (n : ℕ) : Prop where
  heads_ne : pDesc.heads ≠ 0
  sectors_ne : pDesc.sectors ≠ 0
  size : pDesc.cylinders.toNat * pDesc.heads.toNat * pDesc.sectors.toNat = n
  reaches : ∀ b < n, ∃ tfr : TaskFile, tfr 6 &&& 0x40 = 0 ∧ (getParams tfr pDesc).lba.toNat = b ∧
    (getParams tfr pDesc).address.Legal pDesc.heads.toNat pDesc.sectors.toNat ∧
    (getParams tfr pDesc).cylinder < pDesc.cylinders
  inside : ∀ tfr : TaskFile, tfr 6 &&& 0x40 = 0 →
    (getParams tfr pDesc).address.Legal pDesc.heads.toNat pDesc.sectors.toNat →
    (getParams tfr pDesc).cylinder < pDesc.cylinders → (getParams tfr pDesc).lba.toNat < n

/-- A geometry whose numbers multiply to `n` describes `n` blocks. -/
theorem Geometric.describes {pDesc : Desc} {n : ℕ} (hg : Geometric pDesc)
    (hsize : pDesc.cylinders.toNat * pDesc.heads.toNat * pDesc.sectors.toNat = n) :
    Describes pDesc n := by
  have hne : ∀ x : UInt16, 0 < x.toNat → x ≠ 0 := fun x hx h0 => by
    rw [h0] at hx
    exact absurd hx (by decide)
  refine ⟨hne _ hg.heads_pos, hne _ hg.sectors_pos, hsize, fun b hb => ?_, fun tfr hmode hl hcyl => ?_⟩
  · have hl := Chs.ofBlock_legal hg.heads_pos hg.sectors_pos b
    have hcyl : (Chs.ofBlock pDesc.heads.toNat pDesc.sectors.toNat b).cylinder
        < pDesc.cylinders.toNat := by
      rw [← hl.block_lt_iff, Chs.block_ofBlock, hsize]
      exact hb
    have hcyl' := lt_trans hcyl pDesc.cylinders.toNat_lt
    have hsec := Nat.lt_succ_of_le (Nat.le_trans hl.sector_le hg.sectors_le)
    have hblock : (Chs.ofBlock pDesc.heads.toNat pDesc.sectors.toNat b).block pDesc.heads.toNat
      pDesc.sectors.toNat = b := Chs.block_ofBlock b
    generalize Chs.ofBlock pDesc.heads.toNat pDesc.sectors.toNat b = a at *
    obtain ⟨hmode, haddr⟩ := @getParams_address (putAt (fun _ => 0) 3 [a.sector.toUInt8,
      a.cylinder.toUInt8, (a.cylinder / 2 ^ 8).toUInt8, 0 &&& 0xF0 ||| a.head.toUInt8]) pDesc 0 a
      hsec hcyl' (lt_of_lt_of_le hl.head hg.heads_le) rfl
    refine ⟨_, hmode, ?_, by rw [haddr]; exact hl, ?_⟩
    · rw [getParams_chs hg hmode, haddr, hblock]
      have hs := hl.sector_pos
      rw [← haddr] at hs
      exact lt_of_lt_of_eq hs (UInt8.toNat_toUInt16 _)
    · rw [UInt16.lt_iff_toNat_lt]
      exact lt_of_eq_of_lt (congrArg Chs.Address.cylinder haddr) hcyl
  · rw [getParams_chs hg hmode ?_, ← hsize, hl.block_lt_iff]
    · exact UInt16.lt_iff_toNat_lt.mp hcyl
    · have hpos : 0 < (getParams tfr pDesc).sector.toNat := hl.sector_pos
      rwa [show (getParams tfr pDesc).sector = (tfr 3).toUInt16 from rfl, UInt8.toNat_toUInt16] at hpos

/-- Sectors and heads are found that divide a number, and the rest fits 16 bits. -/
def Divides (n : ℕ) : Prop :=
  ∃ s h, IsGreatest {d | (0 < d ∧ d < 255) ∧ d ∣ n} s ∧ HeadDivisor (n / s) h ∧ n / s / h < 65536

instance (n : ℕ) : Decidable (Divides n) :=
  let s := last (· ∣ n) 0 (candidates 1 255 1)
  decidable_of_iff (∃ h ∈ candidates 4 16 1, last (· ∣ n / s) 0 (candidates 4 16 1) = h ∧ h ∣ n / s ∧
    n / s / h < 65536) <| by
    have hs : IsGreatest {d | (0 < d ∧ d < 255) ∧ d ∣ n} s := by
      have h := last_isGreatest (p := (· ∣ n)) 0 (@candidates_sorted 1 255 1 Nat.one_pos)
        (mem_candidates_one.mpr ⟨le_refl 1, by decide⟩) (one_dvd n)
      simpa only [mem_candidates_one, Nat.succ_le_iff] using h
    refine ⟨?_, ?_⟩
    · rintro ⟨h, hmem, hlast, hdvd, hlt⟩
      refine ⟨s, h, hs, ?_, hlt⟩
      have hgreat := last_isGreatest (p := (· ∣ n / s)) 0 (candidates_sorted Nat.one_pos) hmem hdvd
      rw [hlast] at hgreat
      simpa only [HeadDivisor, mem_candidates_one] using hgreat
    · rintro ⟨s', h, hs', hh, hlt⟩
      obtain rfl := hs.unique hs'
      have hmem := mem_candidates_one.mpr hh.1.1
      refine ⟨h, hmem, ?_, hh.1.2, hlt⟩
      refine (last_iff 0 (candidates_sorted Nat.one_pos) h).mpr (Or.inl ?_)
      simpa only [HeadDivisor, mem_candidates_one] using hh

theorem cardUnit_describes {status : UInt8} {fSource : FIL} {lba_offset : UInt32} {lba : UInt64} :
    (∃ d, cardUnit status fSource lba_offset lba = .unit d ∧ Describes d.pDesc lba.toNat) ↔
      Divides lba.toNat := by
  have hs := lastDivisor_sectors lba.toNat 0 (Or.inl rfl)
  simp only [mem_candidates_one, Nat.succ_le_iff] at hs
  unfold cardUnit Divides
  simp only
  generalize lastDivisor lba.toNat 0 (candidates 1 255 1) = sectors at hs
  have hdiv : (lba / sectors.toUInt64).toNat = lba.toNat / sectors.toNat := by
    rw [UInt64.toNat_div, UInt16.toNat_toUInt64]
  have hheads := lastDivisor_heads (lba.toNat / sectors.toNat) 0
  rw [hdiv]
  generalize lastDivisor (lba.toNat / sectors.toNat) 0 (candidates 4 16 1) = heads at hheads
  obtain ⟨⟨⟨hspos, hs255⟩, hsdvd⟩, -⟩ := id hs
  have hsne : sectors ≠ 0 := fun h0 => by
    rw [h0] at hspos
    exact absurd hspos (by decide)
  have hcyl : (lba / sectors.toUInt64 / heads.toUInt64).toUInt16.toNat
      = lba.toNat / sectors.toNat / heads.toNat % 65536 := by
    rw [UInt64.toNat_toUInt16, UInt64.toNat_div, hdiv, UInt16.toNat_toUInt64]
  refine ⟨?_, ?_⟩
  · rintro ⟨d, hd, hdesc⟩
    split at hd
    · cases hd
    · next hne =>
      rw [not_or] at hne
      cases hd
      have hsize := hdesc.size
      simp only [hcyl] at hsize
      rcases (hheads heads.toNat).mp rfl with hgreat | ⟨-, hzero⟩
      · refine ⟨_, _, hs, hgreat, ?_⟩
        have hprod : lba.toNat / sectors.toNat / heads.toNat * heads.toNat * sectors.toNat
            = lba.toNat := by
          rw [Nat.div_mul_cancel hgreat.1.2, Nat.div_mul_cancel hsdvd]
        have hpos : 0 < heads.toNat := Nat.lt_of_lt_of_le (by decide) hgreat.1.1.1
        have hlt := Nat.mod_lt (lba.toNat / sectors.toNat / heads.toNat) (show 0 < 65536 by decide)
        refine lt_of_eq_of_lt ?_ hlt
        refine Nat.eq_of_mul_eq_mul_right hpos (Nat.eq_of_mul_eq_mul_right hspos ?_)
        rw [hprod, hsize]
      · exact absurd (UInt16.toNat_inj.mp hzero.symm) hne.2
  · rintro ⟨s, h, hs', hh', hlt⟩
    obtain rfl := hs.unique hs'
    obtain rfl := (hheads h).mpr (Or.inl hh')
    have hpos : 0 < heads.toNat := Nat.lt_of_lt_of_le (by decide) hh'.1.1.1
    have hne : heads ≠ 0 := fun h0 => by
      rw [h0] at hpos
      exact absurd hpos (by decide)
    refine ⟨_, if_neg (not_or.mpr ⟨hsne, hne⟩), ?_⟩
    have hg : Geometric { Desc.zero with
        format := .MMC, file_size := lba.toUInt32.toUInt64, lba_offset := lba_offset
        cylinders := (lba / sectors.toUInt64 / heads.toUInt64).toUInt16
        heads := heads, sectors := sectors } :=
      ⟨hpos, Nat.le_of_lt hh'.1.1.2, hspos, Nat.le_of_lt hs255⟩
    refine hg.describes ?_
    simp only [hcyl]
    rw [Nat.mod_eq_of_lt hlt, Nat.div_mul_cancel hh'.1.2, Nat.div_mul_cancel hsdvd]

/-- A partition is cut to whole 256 blocks. -/
theorem cut_toNat (x : UInt32) : (x.toUInt64 &&& (~~~0xFF : UInt64)).toNat = x.toNat / 256 * 256 := by
  have hmask : ∀ i : Fin 64, (~~~0xFF : UInt64).toBitVec.getLsbD i = decide (8 ≤ i.val) := by decide
  have hshift : x.toUInt64 &&& (~~~0xFF : UInt64) = x.toUInt64 >>> 8 <<< 8 := by
    apply UInt64.toBitVec_inj.mp
    apply BitVec.eq_of_getLsbD_eq
    intro i hi
    rw [UInt64.toBitVec_and, BitVec.getLsbD_and, hmask ⟨i, hi⟩, UInt64.toBitVec_shiftLeft,
      UInt64.toBitVec_shiftRight]
    simp
    grind
  have hx := x.toNat_lt
  rw [hshift, UInt64.toNat_shiftLeft, UInt64.toNat_shiftRight, UInt32.toNat_toUInt64,
    show (8 : UInt64).toNat % 64 = 8 by decide, Nat.shiftLeft_eq, Nat.shiftRight_eq_div_pow,
    Nat.mod_eq_of_lt]
  omega

theorem not_hdf {ext : List UInt8} (h : extIs ext "?MMC" = true) : extIs ext "HDF" = false := by
  cases ext with
  | nil => rfl
  | cons c cs =>
    have hq : Libc.toupper c = 0x3F := by
      have hlist := of_decide_eq_true h
      exact (List.cons.inj hlist).1
    refine decide_eq_false fun hlist => ?_
    have hh : Libc.toupper c = 0x48 := (List.cons.inj hlist).1
    rw [hq] at hh
    exact absurd hh (by decide)

/-- The geometry of the card, or of one of its partitions, is exact when sectors and heads divide its
    blocks and leave few enough cylinders. -/
theorem insertInit_describes_iff {card : Card} {drive_number status : UInt8} {fSource : FIL}
    {ext : List UInt8} {fbuf : ℕ → UInt8} (hext : extIs ext "?MMC" = true) :
    (∃ d, insertInit card drive_number status fSource ext fbuf = .unit d ∧
        Describes d.pDesc (mountedBlocks card (partitionOf ext))) ↔
      Divides (mountedBlocks card (partitionOf ext)) := by
  have hinsert : insertInit card drive_number status fSource ext fbuf
      = insertCard card status fSource (partitionOf ext) := by
    rw [insertInit, if_neg (by rw [not_hdf hext]; decide), if_pos hext]
  rw [hinsert, insertCard, mountedBlocks]
  cases hentry : findPartition card (partitionOf ext) with
  | none =>
    simp only
    rw [show card.capacity.toNat / 512 = (card.capacity / 512).toNat from
      (UInt64.toNat_div card.capacity 512).symm]
    exact cardUnit_describes
  | some entry =>
    obtain ⟨lba_start, num_sectors⟩ := entry
    simp only
    rw [← cut_toNat]
    exact cardUnit_describes

/-! ### Cards of 1024 and of 2^26 blocks -/

def cardOf (capacity : UInt64) : Card :=
  { sdhc := true, capacity := capacity, block := fun _ => Vector.replicate 512 0, fails := fun _ => false }

/-- What stands in the file of a unit on the card. -/
def noFile : FIL :=
  { data := [], slack := fun _ => 0, cap := 0, csize := 512, write := false, readable := 0
    err := false, fptr := 0, clust := 0 }

theorem insertInit_describes_small : ∃ d,
    insertInit (cardOf (2 ^ 19)) 0 0 noFile (strBytes "?MMC") (fun _ => 0) = .unit d ∧
      Describes d.pDesc 1024 :=
  (insertInit_describes_iff (by decide)).mpr (by decide +kernel)

/-- A card of 32 GiB gets no cylinders. -/
theorem card_not_described : ¬ ∀ (card : Card) (drive_number status : UInt8) (fSource : FIL)
    (ext : List UInt8) (fbuf : ℕ → UInt8), extIs ext "?MMC" = true →
    ∃ d, insertInit card drive_number status fSource ext fbuf = .unit d ∧
      Describes d.pDesc (mountedBlocks card (partitionOf ext)) := by
  intro h
  obtain ⟨d, hd, hdesc⟩ := h (cardOf (2 ^ 35)) 0 0 noFile (strBytes "?MMC") (fun _ => 0) (by decide)
  have hcyl : (match insertInit (cardOf (2 ^ 35)) 0 0 noFile (strBytes "?MMC") (fun _ => 0) with
      | .unit d => d.pDesc.cylinders
      | _ => 1) = 0 := by decide +kernel
  rw [hd] at hcyl
  have hsize := hdesc.size
  rw [show d.pDesc.cylinders = 0 from hcyl] at hsize
  rw [UInt16.toNat_zero, Nat.zero_mul, Nat.zero_mul] at hsize
  exact absurd hsize (by decide)

/-! ### The heads of a hardfile -/

/-- The cylinders up to which the loop over the heads goes on. -/
def cylLimit (size : UInt64) : ℕ := if size ≤ 512 * 1024 * 1024 then 1023 else 65535

theorem cylFits_iff (size : UInt64) (cyl head : ℕ) : cylFits size cyl head = true ↔ cyl ≤ cylLimit size := by
  unfold cylFits cylLimit
  split
  · exact decide_eq_true_iff
  · simp only [Bool.or_eq_true, Bool.and_eq_true, decide_eq_true_eq]
    omega

/-- The loop over the heads goes to its end when no number of heads makes the cylinders few enough. -/
theorem headLoop_heads (size : UInt64) (total spt : ℕ) : ∀ n head cyl,
    head ≤ (headLoop size total spt n head cyl).1 ∧
      ((headLoop size total spt n head cyl).1 = head + n ↔
        ∀ i < n, cylLimit size < total / ((head + i) * spt))
  | 0, head, _ => ⟨le_refl head, fun _ _ h => absurd h (Nat.not_lt_zero _), fun _ => rfl⟩
  | n + 1, head, cyl => by
    rw [headLoop]
    by_cases hfit : cylFits size (total / (head * spt)) head = true
    · simp only [if_pos hfit]
      rw [cylFits_iff] at hfit
      refine ⟨le_refl head, fun h => by omega, fun h => ?_⟩
      exact absurd (h 0 (Nat.succ_pos n)) (Nat.not_lt.mpr hfit)
    · simp only [if_neg hfit]
      rw [cylFits_iff, Nat.not_le] at hfit
      obtain ⟨hle, hall⟩ := headLoop_heads size total spt n (head + 1) (total / (head * spt))
      rw [show head + (n + 1) = head + 1 + n by omega, hall]
      refine ⟨by omega, fun h i hi => ?_, fun h i hi => ?_⟩
      · cases i with
        | zero => exact hfit
        | succ i =>
          have hlt := h i (by omega)
          rwa [show head + 1 + i = head + (i + 1) by omega] at hlt
      · have hlt := h (i + 1) (by omega)
        rwa [show head + (i + 1) = head + 1 + i by omega] at hlt

theorem sptLoop_heads (size : UInt64) (total : ℕ) : ∀ (sptt : List ℕ) (r : ℕ × ℕ × ℕ), sptt ≠ [] →
    4 ≤ (sptLoop size total sptt r).1 ∧
      ((sptLoop size total sptt r).1 = 17 ↔
        ∀ spt ∈ sptt, ∀ i < 13, cylLimit size < total / ((4 + i) * spt))
  | [], _, h => absurd rfl h
  | spt :: sptt, (_, cyl, _), _ => by
    obtain ⟨hle, hall⟩ := headLoop_heads size total spt 13 4 cyl
    have hend := headLoop_le size total spt 13 4 cyl
    rw [sptLoop]
    simp only [List.forall_mem_cons, ← hall]
    by_cases hstop : (headLoop size total spt 13 4 cyl).1 ≤ 16
    · rw [if_pos hstop]
      exact ⟨hle, fun h => by omega, fun h => by omega⟩
    · rw [if_neg hstop]
      have hlast : (headLoop size total spt 13 4 cyl).1 = 4 + 13 := by omega
      rw [eq_true hlast, true_and]
      cases sptt with
      | nil => exact ⟨hle, fun _ _ h => absurd h List.not_mem_nil, fun _ => hlast⟩
      | cons spt' sptt => exact sptLoop_heads size total _ _ (List.cons_ne_nil _ _)

/-- A hardfile has 4 to 17 heads, and 17 when it is too large for 16. -/
theorem getHardfileGeometry_heads {pDesc : Desc} (h0 : pDesc.file_size ≠ 0)
    (hlt : pDesc.file_size.toNat / 512 < 2 ^ 32) :
    4 ≤ (getHardfileGeometry pDesc).heads.toNat ∧
      ((getHardfileGeometry pDesc).heads.toNat = 17 ↔
        65536 * (16 * 255) ≤ pDesc.file_size.toNat / 512) := by
  have htotal : (pDesc.file_size / 512).toUInt32.toNat = pDesc.file_size.toNat / 512 := by
    rw [UInt64.toNat_toUInt32, UInt64.toNat_div]
    exact Nat.mod_eq_of_lt hlt
  obtain ⟨hle, hall⟩ := sptLoop_heads pDesc.file_size (pDesc.file_size / 512).toUInt32.toNat
    [63, 127, 255] (0, 0, 0) (by decide)
  have hend := (sptLoop_le pDesc.file_size (pDesc.file_size / 512).toUInt32.toNat [63, 127, 255]
    (0, 0, 0) (by decide) (by decide)).1
  rw [getHardfileGeometry, if_neg h0]
  simp only
  rw [htotal] at hle hall hend ⊢
  generalize sptLoop pDesc.file_size (pDesc.file_size.toNat / 512) [63, 127, 255] (0, 0, 0) = r
    at hle hall hend
  have hheads : r.1.toUInt16.toNat = r.1 := UInt16.toNat_ofNat_of_lt' (by
    show r.1 < 65536
    omega)
  rw [hheads, hall]
  refine ⟨hle, ?_⟩
  have hmost : (∀ spt ∈ [63, 127, 255], ∀ i < 13,
      cylLimit pDesc.file_size < pDesc.file_size.toNat / 512 / ((4 + i) * spt)) ↔
        cylLimit pDesc.file_size < pDesc.file_size.toNat / 512 / (16 * 255) := by
    refine ⟨fun h => h 255 (by decide) 12 (by decide), fun h spt hspt i hi => lt_of_lt_of_le h ?_⟩
    have hspt' : 0 < spt ∧ spt ≤ 255 := by
      simp only [List.mem_cons, List.not_mem_nil, or_false] at hspt
      omega
    exact Nat.div_le_div_left (Nat.mul_le_mul (by omega) hspt'.2) (Nat.mul_pos (by omega) hspt'.1)
  rw [hmost]
  unfold cylLimit
  split
  · next hsmall =>
    rw [UInt64.le_iff_toNat_le, show (512 * 1024 * 1024 : UInt64).toNat = 512 * 1024 * 1024 by decide]
      at hsmall
    omega
  · omega

/-! ### The geometry of a hardfile -/

/-- A loop over the heads that stops early stops at cylinders that fit. -/
theorem headLoop_stops (size : UInt64) (total spt : ℕ) : ∀ n head cyl,
    (headLoop size total spt n head cyl).1 < head + n →
      (headLoop size total spt n head cyl).2
          = total / ((headLoop size total spt n head cyl).1 * spt) ∧
        (headLoop size total spt n head cyl).2 ≤ cylLimit size
  | 0, head, _, h => absurd h (Nat.lt_irrefl head)
  | n + 1, head, cyl, h => by
    rw [headLoop] at h ⊢
    by_cases hfit : cylFits size (total / (head * spt)) head = true
    · simp only [if_pos hfit]
      exact ⟨trivial, (cylFits_iff _ _ _).mp hfit⟩
    · simp only [if_neg hfit] at h ⊢
      exact headLoop_stops size total spt n (head + 1) _ (by omega)

/-- Where the loops find a number of heads, the cylinders are what is left. -/
theorem sptLoop_stops (size : UInt64) (total : ℕ) : ∀ (sptt : List ℕ) (r : ℕ × ℕ × ℕ), sptt ≠ [] →
    (sptLoop size total sptt r).1 ≤ 16 →
      (sptLoop size total sptt r).2.2 ∈ sptt ∧
        (sptLoop size total sptt r).2.1
          = total / ((sptLoop size total sptt r).1 * (sptLoop size total sptt r).2.2) ∧
        (sptLoop size total sptt r).2.1 ≤ cylLimit size
  | [], _, h, _ => absurd rfl h
  | spt :: sptt, (_, cyl, _), _, h => by
    rw [sptLoop] at h ⊢
    simp only at h ⊢
    by_cases hstop : (headLoop size total spt 13 4 cyl).1 ≤ 16
    · rw [if_pos hstop]
      obtain ⟨hcyl, hle⟩ := headLoop_stops size total spt 13 4 cyl (by omega)
      exact ⟨List.mem_cons_self, hcyl, hle⟩
    · rw [if_neg hstop] at h ⊢
      cases sptt with
      | nil => exact absurd h hstop
      | cons spt' sptt =>
        obtain ⟨hmem, hcyl⟩ := sptLoop_stops size total _ _ (List.cons_ne_nil _ _) h
        exact ⟨List.mem_cons_of_mem spt hmem, hcyl⟩

/-- What `Drv08_GetHardfileGeometry` is for: cylinders that cover the image but for a part of one. -/
structure CoversImage (blocks : ℕ) (pDesc : Desc) : Prop where
  heads : pDesc.heads.toNat ≤ 16
  sectors : pDesc.sectors.toNat ∈ [63, 127, 255]
  fits : pDesc.cylinders.toNat * pDesc.heads.toNat * pDesc.sectors.toNat ≤ blocks
  covers : blocks < (pDesc.cylinders.toNat + 1) * pDesc.heads.toNat * pDesc.sectors.toNat

/-- Every image of a block or more, up to what 65536 cylinders of 16 heads and 255 sectors hold. The
    loops end with the numbers that are stored. -/
theorem getHardfileGeometry_covers (pDesc : Desc) (h0 : 512 ≤ pDesc.file_size.toNat)
    (hlt : pDesc.file_size.toNat < 16 * 255 * 65536 * 512) :
    CoversImage (pDesc.file_size.toNat / 512) (getHardfileGeometry pDesc) ∧
      sptLoop pDesc.file_size (pDesc.file_size.toNat / 512) [63, 127, 255] (0, 0, 0) =
        ((getHardfileGeometry pDesc).heads.toNat, (getHardfileGeometry pDesc).cylinders.toNat,
          (getHardfileGeometry pDesc).sectors.toNat) := by
  have hne : pDesc.file_size ≠ 0 := by
    rintro heq
    rw [heq] at h0
    exact absurd h0 (by decide)
  have htotal : (pDesc.file_size / 512).toUInt32.toNat = pDesc.file_size.toNat / 512 := by
    rw [UInt64.toNat_toUInt32, UInt64.toNat_div, show (512 : UInt64).toNat = 512 from rfl]
    exact Nat.mod_eq_of_lt (by omega)
  obtain ⟨hge, h17⟩ := getHardfileGeometry_heads hne (by omega)
  have hspt := sptLoop_le pDesc.file_size (pDesc.file_size.toNat / 512) [63, 127, 255]
    (0, 0, 0) (by decide) (by decide)
  have hstops := sptLoop_stops pDesc.file_size (pDesc.file_size.toNat / 512) [63, 127, 255] (0, 0, 0)
    (by decide)
  rw [getHardfileGeometry, if_neg hne] at hge h17 ⊢
  simp only [htotal] at hge h17 ⊢
  generalize sptLoop pDesc.file_size (pDesc.file_size.toNat / 512) [63, 127, 255] (0, 0, 0) = r
    at hge h17 hspt hstops ⊢
  obtain ⟨head, cyl, spt⟩ := r
  simp only at hge h17 hspt hstops ⊢
  have hlimit : cylLimit pDesc.file_size ≤ 65535 := by
    unfold cylLimit
    split
    · decide
    · exact Nat.le_refl _
  have hheads : head.toUInt16.toNat = head := UInt16.toNat_ofNat_of_lt' (by
    show head < 65536
    omega)
  rw [hheads] at hge h17
  have hhead : head ≤ 16 := by
    have h17' : head ≠ 17 := fun heq => by
      have hlarge := h17.mp heq
      omega
    omega
  obtain ⟨hmem, hcyl, hle⟩ := hstops hhead
  have hcyls : cyl.toUInt16.toNat = cyl := UInt16.toNat_ofNat_of_lt' (by
    show cyl < 65536
    omega)
  have hspts : spt.toUInt16.toNat = spt := UInt16.toNat_ofNat_of_lt' (by
    show spt < 65536
    omega)
  have hpos : 0 < head * spt := by
    refine Nat.mul_pos (by omega) ?_
    simp only [List.mem_cons, List.not_mem_nil, or_false] at hmem
    omega
  rw [hheads, hcyls, hspts]
  refine ⟨⟨?_, ?_, ?_, ?_⟩, rfl⟩
  · rw [hheads]
    exact hhead
  · rw [hspts]
    exact hmem
  · rw [hheads, hcyls, hspts, Nat.mul_assoc, hcyl]
    exact Nat.div_mul_le_self _ _
  · rw [hheads, hcyls, hspts, Nat.mul_assoc, hcyl]
    exact Nat.lt_mul_of_div_lt (Nat.lt_succ_self _) hpos

/-- An empty descriptor, for an image of some size -/
def sizedDesc (file_size : UInt64) : Desc := { Desc.zero with file_size := file_size }

theorem getHardfileGeometry_covers_small :
    CoversImage ((2 ^ 20 : UInt64).toNat / 512) (getHardfileGeometry (sizedDesc (2 ^ 20))) :=
  (getHardfileGeometry_covers (sizedDesc (2 ^ 20)) (by decide) (by decide)).1

/-- At the upper end itself there are too many cylinders, and the loop over the heads runs out. -/
theorem largest_not_covered : ¬ ∀ pDesc : Desc, 512 ≤ pDesc.file_size.toNat →
    pDesc.file_size.toNat ≤ 16 * 255 * 65536 * 512 → (getHardfileGeometry pDesc).heads.toNat ≤ 16 := by
  intro h
  have hle := h (sizedDesc (16 * 255 * 65536 * 512)) (by decide) (by decide)
  exact absurd hle (by decide)

/-! ### The made-up blocks -/

theorem readLong_toBlock (buf : ℕ → UInt8) {k : ℕ} (h : k < 128) :
    readLong (byteAt (toBlock buf)) k = readLong buf k := by
  refine Rdb.readLong_congr fun i hi => ?_
  have hlt : 4 * k + i < 512 := by omega
  rw [byteAt, List.getD_eq_getElem?_getD, Vector.getElem?_toList, Vector.getElem?_eq_getElem hlt,
    toBlock, Vector.getElem_ofFn]
  rfl

/-- The longs of a block sum to zero. -/
def SumsToZero (b : Block) : Prop := ((List.range 128).map (readLong (byteAt b))).sum = 0

/-- A checksum over the first 64 longs is one over the block when there is nothing behind them. -/
theorem toBlock_sum {buf : ℕ → UInt8} (h1 : readLong buf 1 = 0x40) (h2 : readLong buf 2 = 0)
    (hz : ∀ k, 64 ≤ k → k < 128 → readLong buf k = 0) : SumsToZero (toBlock (writeSum buf)) := by
  have hblock : (List.range 128).map (readLong (byteAt (toBlock (writeSum buf))))
      = (List.range 128).map (readLong (writeSum buf)) :=
    List.map_congr_left fun k hk => readLong_toBlock _ (List.mem_range.mp hk)
  have hsum : ∀ n, n ≤ 64 → Rdb.calcBEsum buf (64 + n) = Rdb.calcBEsum buf 64 := by
    intro n
    induction n with
    | zero => exact fun _ => rfl
    | succ n ih =>
      intro hn
      rw [Rdb.calcBEsum, ← Nat.add_assoc, List.range_succ, List.map_append, List.sum_append,
        List.map_singleton, List.sum_singleton, hz (64 + n) (by omega) (by omega), UInt32.add_zero]
      exact ih (by omega)
  rw [SumsToZero, hblock]
  have hwrite := @Rdb.calcBEsum_writeLong buf 2 (~~~Rdb.calcBEsum buf 64 + 1) h2 128
  rw [if_pos (by decide), hsum 64 (le_refl 64), Rdb.add_complement] at hwrite
  rw [writeSum, h1]
  exact hwrite

/-- `Drv08_CreateRDB` describes the file: its geometry is exact, behind two more cylinders in front of
    it, the partition is all cylinders of the file, and the sums of the blocks are right. -/
structure DescribesImage (pDesc : Desc) (file_size : ℕ) : Prop where
  heads_ne : pDesc.heads ≠ 0
  sectors_ne : pDesc.sectors ≠ 0
  cylinders : 2 ≤ pDesc.cylinders.toNat
  size : (pDesc.cylinders.toNat - 2) * pDesc.heads.toNat * pDesc.sectors.toNat * 512 = file_size
  offset : pDesc.lba_offset.toNat = 2 * pDesc.heads.toNat * pDesc.sectors.toNat
  partition :
    let part := byteAt (pDesc.hdf_rdb 1)
    let cylinder := (readLong part 35).toNat * (readLong part 37).toNat
    (readLong part 41).toNat * cylinder = pDesc.lba_offset.toNat ∧
      ((readLong part 42).toNat + 1) * cylinder = pDesc.lba_offset.toNat + file_size / 512
  sums : ∀ i, SumsToZero (pDesc.hdf_rdb i)

theorem readLong_zero (k : ℕ) : readLong (fun _ => 0) k = 0 := by
  simp [readLong]

/-! The longs that are written into the blocks. -/

def rdskKeys : List ℕ :=
  [0, 1, 3, 4, 5, 6, 7, 8, 9, 16, 17, 18, 19, 20, 24, 25, 26, 32, 33, 34, 35, 36, 38]

def partKeys : List ℕ := [0, 1, 3, 4, 5]

def environmentKeys : List ℕ := [32, 33, 35, 36, 37, 38, 41, 42, 43, 45, 46, 47, 48]

def fshdKeys : List ℕ := [0, 1, 3, 4, 8, 9, 10, 18, 19]

theorem notMem_of_le {keys : List ℕ} (h : ∀ k ∈ keys, k < 64) {k : ℕ} (hk : 64 ≤ k) : k ∉ keys :=
  fun hmem => absurd (h k hmem) (Nat.not_lt.mpr hk)

theorem rdsk_sum (cylinders heads sectors : UInt16) (lba_offset : UInt32) :
    SumsToZero (toBlock (rdsk cylinders heads sectors lba_offset)) := by
  have hput : ∀ j, j < 40 ∨ 48 ≤ j → ∀ buf, readLong (putAt (putAt (putAt buf 160 (strBytes "Replay"))
      168 (strBytes "Naked")) 184 (strBytes "1.0")) j = readLong buf j := by
    intro j hj buf
    have h6 : (strBytes "Replay").length = 6 := by decide
    have h5 : (strBytes "Naked").length = 5 := by decide
    have h3 : (strBytes "1.0").length = 3 := by decide
    rw [Rdb.readLong_putAt (by omega), Rdb.readLong_putAt (by omega), Rdb.readLong_putAt (by omega)]
  refine toBlock_sum ?_ ?_ fun k h64 _ => ?_
  · rw [hput 1 (by decide)]
    exact Rdb.readLong_writeLongs (show rdskKeys.Nodup by decide) (by simp)
  · rw [hput 2 (by decide), Rdb.readLong_writeLongs_of_notMem (show 2 ∉ rdskKeys by decide)]
    exact readLong_zero 2
  · rw [hput k (by omega),
      Rdb.readLong_writeLongs_of_notMem (notMem_of_le (show ∀ j ∈ rdskKeys, j < 64 by decide) h64)]
    exact readLong_zero k

theorem part_sum (cylinders heads sectors : UInt16) (hdf_dostype : UInt32) (drive_number : UInt8) :
    SumsToZero (toBlock (part cylinders heads sectors hdf_dostype drive_number)) := by
  have hput : ∀ j, j < 9 ∨ 11 ≤ j → ∀ buf,
      readLong (putAt buf 36 [5, 0x46, 0x50, 0x47, 0x41, 0x30 + drive_number, 0]) j = readLong buf j := by
    intro j hj buf
    refine Rdb.readLong_putAt ?_
    simp only [List.length_cons, List.length_nil]
    omega
  refine toBlock_sum ?_ ?_ fun k h64 _ => ?_
  · rw [Rdb.readLong_writeLongs_of_notMem (show 1 ∉ environmentKeys by decide), hput 1 (by decide)]
    exact Rdb.readLong_writeLongs (show partKeys.Nodup by decide) (by simp)
  · rw [Rdb.readLong_writeLongs_of_notMem (show 2 ∉ environmentKeys by decide), hput 2 (by decide),
      Rdb.readLong_writeLongs_of_notMem (show 2 ∉ partKeys by decide)]
    exact readLong_zero 2
  · rw [Rdb.readLong_writeLongs_of_notMem
        (notMem_of_le (show ∀ j ∈ environmentKeys, j < 64 by decide) h64), hput k (by omega),
      Rdb.readLong_writeLongs_of_notMem (notMem_of_le (show ∀ j ∈ partKeys, j < 64 by decide) h64)]
    exact readLong_zero k

theorem fshd_sum (hdf_dostype : UInt32) : SumsToZero (toBlock (fshd hdf_dostype)) := by
  refine toBlock_sum ?_ ?_ fun k h64 _ => ?_
  · exact Rdb.readLong_writeLongs (show fshdKeys.Nodup by decide) (by simp)
  · rw [Rdb.readLong_writeLongs_of_notMem (show 2 ∉ fshdKeys by decide)]
    exact readLong_zero 2
  · rw [Rdb.readLong_writeLongs_of_notMem (notMem_of_le (show ∀ j ∈ fshdKeys, j < 64 by decide) h64)]
    exact readLong_zero k

/-- A field of the environment of the partition block. -/
theorem readLong_part {cylinders heads sectors : UInt16} {hdf_dostype val : UInt32}
    {drive_number : UInt8} {k : ℕ} (hk : k < 128) (h2 : k ≠ 2)
    (h : (k, val) ∈ [(32, (0x10 : UInt32)), (33, 128), (35, heads.toUInt32), (36, 1),
      (37, sectors.toUInt32), (38, 2), (41, 2), (42, cylinders.toUInt32 - 1), (43, 0x1E),
      (45, 0x1FE00), (46, 0x7FFFFFFE), (47, 0), (48, hdf_dostype)]) :
    readLong (byteAt (toBlock (part cylinders heads sectors hdf_dostype drive_number))) k = val := by
  rw [readLong_toBlock _ hk, part, writeSum, Rdb.readLong_writeLong_of_ne _ h2]
  exact Rdb.readLong_writeLongs (show environmentKeys.Nodup by decide) h

/-- What the made-up blocks of a unit say, whatever its geometry: their sums are right, and the
    cylinders of the partition are those behind the first two. -/
structure SaysGeometry (d : Desc) : Prop where
  sums : ∀ i, SumsToZero (d.hdf_rdb i)
  fields :
    let part := byteAt (d.hdf_rdb 1)
    readLong part 35 = d.heads.toUInt32 ∧ readLong part 37 = d.sectors.toUInt32 ∧
      readLong part 41 = 2 ∧ readLong part 42 = d.cylinders.toUInt32 - 1

theorem createRDB_says (pDesc : Desc) (drive_number : UInt8) :
    SaysGeometry (createRDB pDesc drive_number) := by
  refine ⟨fun i => ?_, ?_⟩
  · match i with
    | 0 => exact rdsk_sum _ _ _ _
    | 1 => exact part_sum _ _ _ _ _
    | 2 => exact fshd_sum _
  · have hpart : (createRDB pDesc drive_number).hdf_rdb 1 =
        toBlock (part (createRDB pDesc drive_number).cylinders (createRDB pDesc drive_number).heads
          (createRDB pDesc drive_number).sectors pDesc.hdf_dostype drive_number) := rfl
    simp only [hpart]
    generalize createRDB pDesc drive_number = d
    exact ⟨readLong_part (by decide) (by decide) (by simp),
      readLong_part (by decide) (by decide) (by simp),
      readLong_part (by decide) (by decide) (by simp),
      readLong_part (by decide) (by decide) (by simp)⟩

/-! ### A naked image -/

/-- What `FileIO_Drv08_InsertInit` describes a naked image of `file_size` bytes with. -/
def nakedDesc (file_size : UInt64) (hdf_dostype : UInt32) (drive_number : UInt8) : Desc :=
  createRDB (buildHardfileIndex (getHardfileGeometry (fileDesc .HDF file_size (.naked hdf_dostype))))
    drive_number

/-- The heads that divide an image: a number that is tried, or the 17 that are left of an image too
    large for 16. -/
def ImageHeads (blocks q h : ℕ) : Prop :=
  HeadDivisor q h ∨
    (∀ d, 4 ≤ d → d < 16 → ¬d ∣ q) ∧ h = 17 ∧ 17 ∣ q ∧ 65536 * (16 * 255) ≤ blocks

/-- Sectors and heads are found that divide an image, and the rest and two more fit 16 bits. -/
def DividesImage (blocks : ℕ) : Prop :=
  ∃ s h, IsGreatest {d | (d % 2 = 1 ∧ d < 255) ∧ d ∣ blocks} s ∧ ImageHeads blocks (blocks / s) h ∧
    blocks / s / h + 2 < 65536

/-- The geometry `Drv08_CreateRDB` computes, as numbers. -/
structure Computed (d : Desc) (blocks old s h : ℕ) : Prop where
  sectors : d.sectors.toNat = s
  heads : d.heads.toNat = h
  track : IsGreatest {d | (d % 2 = 1 ∧ d < 255) ∧ d ∣ blocks} s
  found : HeadDivisor (blocks / s) h ∨ (∀ d, 4 ≤ d → d < 16 → ¬d ∣ blocks / s) ∧ old = h
  cylinders : d.cylinders.toNat = (blocks / s / h % 65536 + 2) % 65536
  offset : s < 255 → h < 18 → d.lba_offset.toNat = 2 * h * s

theorem createRDB_computed (pDesc : Desc) (drive_number : UInt8) :
    ∃ s h, Computed (createRDB pDesc drive_number) (pDesc.file_size / 512).toUInt32.toNat
      pDesc.heads.toNat s h := by
  have hs := lastDivisor_sectors (pDesc.file_size / 512).toUInt32.toNat pDesc.sectors (Or.inr rfl)
  simp only [mem_candidates_odd] at hs
  unfold createRDB
  simp only
  generalize (pDesc.file_size / 512).toUInt32 = lba at hs
  generalize lastDivisor lba.toNat pDesc.sectors (candidates 1 255 2) = sectors at hs
  have hq : (lba / sectors.toUInt32).toNat = lba.toNat / sectors.toNat := by
    rw [UInt32.toNat_div, UInt16.toNat_toUInt32]
  have hheads := lastDivisor_heads (lba.toNat / sectors.toNat) pDesc.heads
  rw [hq]
  generalize lastDivisor (lba.toNat / sectors.toNat) pDesc.heads (candidates 4 16 1) = heads at hheads
  refine ⟨sectors.toNat, heads.toNat, rfl, rfl, hs, (hheads _).mp rfl, ?_, fun hs255 hh18 => ?_⟩
  · rw [UInt16.toNat_add, UInt32.toNat_toUInt16, UInt32.toNat_div, hq, UInt16.toNat_toUInt32,
      show (2 : UInt16).toNat = 2 by decide]
  · have hmul : sectors.toNat * heads.toNat ≤ 255 * 18 := Nat.mul_le_mul (by omega) (by omega)
    rw [UInt32.toNat_mul, UInt32.toNat_mul, UInt16.toNat_toUInt32, UInt16.toNat_toUInt32,
      show (2 : UInt32).toNat = 2 by decide, Nat.mod_eq_of_lt (by omega), Nat.mod_eq_of_lt (by omega),
      Nat.mul_comm, Nat.mul_assoc, Nat.mul_comm heads.toNat]

/-- The heads that are left when none are found divide only as 17. -/
theorem imageHeads_of_left {blocks q old : ℕ} (hn : ∀ d, 4 ≤ d → d < 16 → ¬d ∣ q) (h4 : 4 ≤ old)
    (h17 : old ≤ 17) (hlarge : old = 17 ↔ 65536 * (16 * 255) ≤ blocks) (hdvd : old ∣ q) :
    ImageHeads blocks q old := by
  have hnot : ¬old < 16 := fun hlt => hn old h4 hlt hdvd
  have hnot16 : old ≠ 16 := by
    rintro rfl
    exact hn 4 (le_refl 4) (by decide) ((show 4 ∣ 16 by decide).trans hdvd)
  have heq : old = 17 := by omega
  exact Or.inr ⟨hn, heq, heq ▸ hdvd, hlarge.mp heq⟩

/-- An image that its geometry describes has few enough blocks for 32 bits. -/
theorem blocks_lt {x heads sectors : ℕ} (hx : x < 65536) (hh : heads < 18) (hs : sectors < 255) :
    x * heads * sectors < 2 ^ 32 := by
  have hmul : x * heads * sectors ≤ 65535 * 17 * 254 :=
    Nat.mul_le_mul (Nat.mul_le_mul (by omega) (by omega)) (by omega)
  omega

section
variable {d : Desc} {blocks old s h : ℕ}

theorem Computed.sectors_range (hc : Computed d blocks old s h) : 0 < s ∧ s < 255 := by
  obtain ⟨⟨hodd, hlt⟩, -⟩ := hc.track.1
  exact ⟨by omega, hlt⟩

theorem Computed.heads_lt (hc : Computed d blocks old s h) (h17 : old ≤ 17) : h < 18 := by
  rcases hc.found with hgreat | ⟨-, rfl⟩
  · exact lt_trans hgreat.1.1.2 (by decide)
  · exact Nat.lt_succ_of_le h17

/-- What is found divides when the numbers multiply to the blocks. -/
theorem Computed.divides (hc : Computed d blocks old s h) (h4 : 4 ≤ old) (h17 : old ≤ 17)
    (hlarge : old = 17 ↔ 65536 * (16 * 255) ≤ blocks) (hcyl : 2 ≤ d.cylinders.toNat)
    (hsize : (d.cylinders.toNat - 2) * h * s = blocks) : DividesImage blocks := by
  have hspos := hc.sectors_range.1
  have hq : blocks / s = (d.cylinders.toNat - 2) * h := by
    rw [← hsize, Nat.mul_div_cancel _ hspos]
  have hdvd : h ∣ blocks / s := ⟨_, hq.trans (Nat.mul_comm _ _)⟩
  have hheads : ImageHeads blocks (blocks / s) h := by
    rcases hc.found with hgreat | ⟨hn, rfl⟩
    · exact Or.inl hgreat
    · exact imageHeads_of_left hn h4 h17 hlarge hdvd
  have hhpos : 0 < h := by
    rcases hheads with hgreat | ⟨-, rfl, -⟩
    · exact lt_of_lt_of_le (by decide) hgreat.1.1.1
    · decide
  refine ⟨s, h, hc.track, hheads, ?_⟩
  have hlt := d.cylinders.toNat_lt
  rw [hq, Nat.mul_div_cancel _ hhpos]
  omega

/-- Numbers that divide the blocks are what is found, and multiply to them. -/
theorem Computed.of_divides (hc : Computed d blocks old s h)
    (hlarge : old = 17 ↔ 65536 * (16 * 255) ≤ blocks) (hdiv : DividesImage blocks) :
    0 < h ∧ d.cylinders.toNat = blocks / s / h + 2 ∧ blocks / s / h * h * s = blocks := by
  obtain ⟨s', h', htrack, hheads, hlt⟩ := hdiv
  obtain rfl := hc.track.unique htrack
  have heq : h = h' := by
    rcases hc.found with hgreat | ⟨hn, hold⟩
    · rcases hheads with hgreat' | ⟨hn, -⟩
      · exact hgreat.unique hgreat'
      · exact absurd hgreat.1.2 (hn h hgreat.1.1.1 hgreat.1.1.2)
    · rcases hheads with hgreat' | ⟨-, h17, -, hle⟩
      · exact absurd hgreat'.1.2 (hn h' hgreat'.1.1.1 hgreat'.1.1.2)
      · rw [← hold, h17, hlarge.mpr hle]
  subst heq
  have hfit : 0 < h ∧ h ∣ blocks / s := by
    rcases hheads with hgreat | ⟨-, rfl, hdvd, -⟩
    · exact ⟨lt_of_lt_of_le (by decide) hgreat.1.1.1, hgreat.1.2⟩
    · exact ⟨by decide, hdvd⟩
  refine ⟨hfit.1, ?_, ?_⟩
  · have hfew : blocks / s / h < 65536 := lt_of_le_of_lt (Nat.le_add_right _ 2) hlt
    rw [hc.cylinders, Nat.mod_eq_of_lt hfew, Nat.mod_eq_of_lt hlt]
  · rw [Nat.div_mul_cancel hfit.2, Nat.div_mul_cancel hc.track.1.2]

/-- A geometry that is exact is what the blocks say. -/
theorem SaysGeometry.describes {file_size : ℕ} (hrdb : SaysGeometry d) (hs : 0 < d.sectors.toNat)
    (hh : 0 < d.heads.toNat) (hcyl : 2 ≤ d.cylinders.toNat)
    (hsize : (d.cylinders.toNat - 2) * d.heads.toNat * d.sectors.toNat * 512 = file_size)
    (hoffset : d.lba_offset.toNat = 2 * d.heads.toNat * d.sectors.toNat) :
    DescribesImage d file_size := by
  have hne : ∀ x : UInt16, 0 < x.toNat → x ≠ 0 := fun x hx h0 => by
    rw [h0] at hx
    exact absurd hx (by decide)
  obtain ⟨h35, h37, h41, h42⟩ := hrdb.fields
  have hlast : (d.cylinders.toUInt32 - 1).toNat + 1 = d.cylinders.toNat := by
    rw [UInt32.toNat_sub_of_le _ _ (UInt32.le_iff_toNat_le.mpr ?_), UInt16.toNat_toUInt32,
      show (1 : UInt32).toNat = 1 by decide]
    · omega
    · rw [UInt16.toNat_toUInt32, show (1 : UInt32).toNat = 1 by decide]
      omega
  refine ⟨hne _ hh, hne _ hs, hcyl, hsize, hoffset, ?_, hrdb.sums⟩
  simp only
  rw [h35, h37, h41, h42, UInt16.toNat_toUInt32, UInt16.toNat_toUInt32, hlast, hoffset,
    show (2 : UInt32).toNat = 2 by decide, ← hsize, Nat.mul_div_cancel _ (by decide)]
  refine ⟨(Nat.mul_assoc _ _ _).symm, ?_⟩
  rw [← Nat.add_mul, ← Nat.add_mul, Nat.add_sub_cancel' hcyl, Nat.mul_assoc]

end

/-- `Drv08_CreateRDB` describes a naked image exactly when sectors and heads divide it and leave few
    enough cylinders. -/
theorem nakedDesc_describes_iff {file_size : UInt64} (hpos : file_size ≠ 0)
    (hblocks : 512 ∣ file_size.toNat) (hdf_dostype : UInt32) (drive_number : UInt8) :
    DescribesImage (nakedDesc file_size hdf_dostype drive_number) file_size.toNat ↔
      DividesImage (file_size.toNat / 512) := by
  have htotal : (file_size / 512).toUInt32.toNat = file_size.toNat / 512 % 2 ^ 32 := by
    rw [UInt64.toNat_toUInt32, UInt64.toNat_div]
    rfl
  have hfile : file_size.toNat / 512 * 512 = file_size.toNat := Nat.div_mul_cancel hblocks
  obtain ⟨-, hsize, -, hheads0, hsectors0⟩ :=
    @fileDesc_kept .HDF (by decide) file_size (.naked hdf_dostype)
  set pDesc := fileDesc .HDF file_size (.naked hdf_dostype) with hdesc
  have hkept := (getHardfileGeometry_kept pDesc).2.1.trans hsize
  have h17 := (@getHardfileGeometry_le pDesc (by rw [hheads0]; decide)
    (by rw [hsectors0]; decide)).1
  have hold := @getHardfileGeometry_heads pDesc (by rw [hsize]; exact hpos)
  rw [hsize] at hold
  obtain ⟨s, h, hc⟩ := createRDB_computed (buildHardfileIndex (getHardfileGeometry pDesc)) drive_number
  have hrdb := createRDB_says (buildHardfileIndex (getHardfileGeometry pDesc)) drive_number
  rw [show (buildHardfileIndex (getHardfileGeometry pDesc)).file_size = file_size from hkept, htotal,
    show (buildHardfileIndex (getHardfileGeometry pDesc)).heads = (getHardfileGeometry pDesc).heads
      from rfl] at hc
  rw [show nakedDesc file_size hdf_dostype drive_number
    = createRDB (buildHardfileIndex (getHardfileGeometry pDesc)) drive_number from rfl]
  generalize createRDB _ drive_number = d at hc hrdb
  generalize (getHardfileGeometry pDesc).heads.toNat = old at hc hold h17
  generalize file_size.toNat / 512 = blocks at *
  have hs := hc.sectors_range
  have hh := hc.heads_lt h17
  refine ⟨fun hdes => ?_, fun hdiv => ?_⟩
  · have hprod : (d.cylinders.toNat - 2) * h * s = blocks := by
      have := hdes.size
      rw [hc.heads, hc.sectors] at this
      omega
    have hlt : blocks < 2 ^ 32 := by
      rw [← hprod]
      exact blocks_lt (lt_of_le_of_lt (Nat.sub_le _ _) d.cylinders.toNat_lt) hh hs.2
    rw [Nat.mod_eq_of_lt hlt] at hc
    exact hc.divides (hold hlt).1 h17 (hold hlt).2 hdes.cylinders hprod
  · have hlt : blocks < 2 ^ 32 := by
      obtain ⟨s', h', htrack, hheads, hfew⟩ := hdiv
      have hh' : h' ∣ blocks / s' ∧ h' < 18 := by
        rcases hheads with hgreat | ⟨-, rfl, hdvd, -⟩
        · exact ⟨hgreat.1.2, lt_trans hgreat.1.1.2 (by decide)⟩
        · exact ⟨hdvd, by decide⟩
      rw [← Nat.div_mul_cancel htrack.1.2, ← Nat.div_mul_cancel hh'.1]
      exact blocks_lt (by omega) hh'.2 htrack.1.1.2
    rw [Nat.mod_eq_of_lt hlt] at hc
    obtain ⟨hhpos, hcyl, hprod⟩ := hc.of_divides (hold hlt).2 hdiv
    refine hrdb.describes ?_ ?_ ?_ ?_ ?_
    · rw [hc.sectors]
      exact hs.1
    · rw [hc.heads]
      exact hhpos
    · rw [hcyl]
      exact Nat.le_add_left 2 _
    · rw [hc.heads, hc.sectors, hcyl, Nat.add_sub_cancel, hprod, hfile]
    · rw [hc.heads, hc.sectors]
      exact hc.offset hs.2 hh

/-- 4096 blocks are divided by 1 sector and 8 heads. -/
theorem divides_4096 : DividesImage 4096 := by
  have hs := lastDivisor_sectors 4096 0 (Or.inr rfl)
  simp only [mem_candidates_odd] at hs
  rw [show (lastDivisor 4096 0 (candidates 1 255 2)).toNat = 1 by decide +kernel] at hs
  have hh : HeadDivisor (4096 / 1) 8 := by
    rcases (lastDivisor_heads (4096 / 1) 0 8).mp (by decide) with h | ⟨-, h⟩
    · exact h
    · exact absurd h (by decide)
  exact ⟨1, 8, hs, Or.inl hh, by decide⟩

theorem nakedDesc_describes_small : DescribesImage (nakedDesc (2 ^ 21) 0x444F5300 0) (2 ^ 21) :=
  (nakedDesc_describes_iff (by decide) (by decide) 0x444F5300 0).mpr divides_4096

/-- An image of 5 blocks gets 5 sectors, the 4 heads that were there before, and no cylinders. -/
theorem naked_not_described : ¬ ∀ (file_size : UInt64) (hdf_dostype : UInt32) (drive_number : UInt8),
    file_size ≠ 0 → 512 ∣ file_size.toNat →
    DescribesImage (nakedDesc file_size hdf_dostype drive_number) file_size.toNat := by
  intro h
  have hsize := (h 2560 0 0 (by decide) (by decide)).size
  have hcyl : (nakedDesc 2560 0 0).cylinders = 2 := by decide +kernel
  rw [hcyl, show (2 : UInt16).toNat - 2 = 0 by decide, Nat.zero_mul, Nat.zero_mul, Nat.zero_mul] at hsize
  exact absurd hsize (by decide)

end FileIO.Drv08
