import ReplayFirmware.Drv08.Blocks

/-! The long words of a block: what is read after a long or some bytes were written, and the sum
    that a checksum in long 2 brings to zero. -/

namespace Rdb
open FileIO FileIO.Drv08

/-! ### Reading what was written -/

theorem putAt_of_lt {buf : ℕ → UInt8} {off i : ℕ} (bs : List UInt8) (h : i < off) :
    putAt buf off bs i = buf i := if_neg (Nat.not_le.mpr h)

theorem putAt_of_ge {buf : ℕ → UInt8} {off i : ℕ} {bs : List UInt8} (h : off + bs.length ≤ i) :
    putAt buf off bs i = buf i := by
  rw [putAt, if_pos (by omega), List.getD_eq_getElem?_getD, List.getElem?_eq_none (by omega)]
  rfl

/-- The four bytes of a long make the long again. -/
theorem long_bytes (val : UInt32) :
    (val >>> 24).toUInt8.toUInt32 <<< 24 ||| (val >>> 16).toUInt8.toUInt32 <<< 16
      ||| (val >>> 8).toUInt8.toUInt32 <<< 8 ||| val.toUInt8.toUInt32 = val := by
  apply UInt32.toBitVec_inj.mp
  apply BitVec.eq_of_getLsbD_eq
  intro i hi
  have hmod : ∀ (x : BitVec 32) (j : ℕ), (x % 256).getLsbD j = (decide (j < 8) && x.getLsbD j) := by
    intro x j
    rw [BitVec.getLsbD, BitVec.toNat_umod, BitVec.getLsbD]
    exact Nat.testBit_mod_two_pow x.toNat 8 j
  have hshift : ∀ (x : BitVec 32) (n j : ℕ), (x >>> n).getLsbD j = x.getLsbD (n + j) := by
    intro x n j
    simp
  simp
  grind

@[simp] theorem readLong_writeLong_self (buf : ℕ → UInt8) (k : ℕ) (val : UInt32) :
    readLong (writeLong buf k val) k = val := by
  simp only [readLong, writeLong, putAt, le_refl, Nat.le_add_right, if_true, Nat.sub_self,
    Nat.add_sub_cancel_left]
  exact long_bytes val

theorem readLong_congr {buf buf' : ℕ → UInt8} {j : ℕ}
    (h : ∀ i, i < 4 → buf (4 * j + i) = buf' (4 * j + i)) :
    readLong buf j = readLong buf' j := by
  simp only [readLong]
  have h0 : buf (4 * j) = buf' (4 * j) := h 0 (by decide)
  rw [h0, h 1 (by decide), h 2 (by decide), h 3 (by decide)]

theorem readLong_writeLong_of_ne {buf : ℕ → UInt8} {j k : ℕ} (val : UInt32) (h : j ≠ k) :
    readLong (writeLong buf k val) j = readLong buf j := by
  refine readLong_congr fun i hi => ?_
  rcases Nat.lt_or_gt_of_ne h with hlt | hgt
  · exact putAt_of_lt _ (by omega)
  · exact putAt_of_ge (by simp only [List.length_cons, List.length_nil]; omega)

/-- Bytes put behind a long, or all before it, leave the long. -/
theorem readLong_putAt {buf : ℕ → UInt8} {off j : ℕ} {bs : List UInt8}
    (h : 4 * j + 4 ≤ off ∨ off + bs.length ≤ 4 * j) : readLong (putAt buf off bs) j = readLong buf j := by
  refine readLong_congr fun i hi => ?_
  rcases h with hlt | hge
  · exact putAt_of_lt _ (by omega)
  · exact putAt_of_ge (by omega)

/-- A long that is not in a list keeps its value when the list is written. -/
theorem readLong_writeLongs_of_notMem : ∀ {longs : List (ℕ × UInt32)} {buf : ℕ → UInt8} {j : ℕ},
    j ∉ longs.map Prod.fst → readLong (writeLongs buf longs) j = readLong buf j
  | [], _, _, _ => rfl
  | l :: longs, buf, j, h => by
    rw [List.map_cons, List.mem_cons, not_or] at h
    exact (readLong_writeLongs_of_notMem h.2).trans (readLong_writeLong_of_ne l.2 h.1)

/-- A long of a list without repetition has its value of the list. -/
theorem readLong_writeLongs : ∀ {longs : List (ℕ × UInt32)} {buf : ℕ → UInt8} {j : ℕ} {val : UInt32},
    (longs.map Prod.fst).Nodup → (j, val) ∈ longs → readLong (writeLongs buf longs) j = val
  | [], _, _, _, _, h => absurd h List.not_mem_nil
  | l :: longs, buf, j, val, hn, h => by
    rw [List.map_cons, List.nodup_cons] at hn
    rcases List.mem_cons.mp h with rfl | hmem
    · exact (readLong_writeLongs_of_notMem hn.1).trans (readLong_writeLong_self buf j val)
    · have ih : readLong (writeLongs (writeLong buf l.1 l.2) longs) j = val :=
        readLong_writeLongs hn.2 hmem
      exact ih

/-! ### The sum -/

/-- `CalcBEsum` of rdb.c. -/
def calcBEsum (buf : ℕ → UInt8) (numlongs : ℕ) : UInt32 := ((List.range numlongs).map (readLong buf)).sum

/-- A sum after one of its longs was zero and is written. -/
theorem calcBEsum_writeLong {buf : ℕ → UInt8} {k : ℕ} (val : UInt32) (hz : readLong buf k = 0) :
    ∀ {n : ℕ}, calcBEsum (writeLong buf k val) n = calcBEsum buf n + if k < n then val else 0
  | 0 => rfl
  | n + 1 => by
    have ih := calcBEsum_writeLong val hz (n := n)
    simp only [calcBEsum] at ih ⊢
    rw [List.range_succ, List.map_append, List.map_append, List.sum_append, List.sum_append, ih]
    simp only [List.map_cons, List.map_nil, List.sum_cons, List.sum_nil, UInt32.add_zero]
    rcases Nat.lt_trichotomy k n with hlt | rfl | hgt
    · rw [if_pos hlt, if_pos (by omega), readLong_writeLong_of_ne val (by omega)]
      ac_rfl
    · rw [if_neg (Nat.lt_irrefl k), if_pos (Nat.lt_succ_self k), readLong_writeLong_self, hz,
        UInt32.add_zero]
    · rw [if_neg (by omega), if_neg (by omega), readLong_writeLong_of_ne val (by omega), UInt32.add_zero,
        UInt32.add_zero]

/-- `rdb_ChkSum` and `pb_ChkSum`: long 2 is put to what the longs counted in long 1 lack to zero. -/
def writeSum (buf : ℕ → UInt8) : ℕ → UInt8 :=
  writeLong buf 2 (~~~calcBEsum buf (readLong buf 1).toNat + 1)

theorem add_complement (s : UInt32) : s + (~~~s + 1) = 0 := by
  rw [← UInt32.neg_eq_not_add, UInt32.add_right_neg]

/-- The longs that the block counts sum to zero. -/
theorem calcBEsum_writeSum {buf : ℕ → UInt8} (hz : readLong buf 2 = 0)
    (hn : 2 < (readLong buf 1).toNat) :
    calcBEsum (writeSum buf) (readLong (writeSum buf) 1).toNat = 0 := by
  rw [writeSum, readLong_writeLong_of_ne _ (by decide), calcBEsum_writeLong _ hz, if_pos hn]
  exact add_complement _

end Rdb
