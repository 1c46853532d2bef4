import ReplayFirmware.Rdb.Convert

/-! Where `SynchronizeRdbWithMbr` writes: an accepted MBR of `n` partitions has the blocks from 2 to
    `2 + n` written, whatever the partitions are. The room in front of the first partition is
    checked, the room in front of the others is not. -/

namespace Rdb
open FileIO FileIO.Drv08

variable {card : Card} {stack : UInt32 → ℕ → UInt8}

/-! ### The blocks that are written -/

theorem parts_map_sector {g : Geometry} : ∀ (ps : List Partition) (i b : ℕ),
    (parts g stack ps i (UInt32.ofNat b)).map Write.sector
      = (List.range' b ps.length).map UInt32.ofNat
  | [], _, _ => rfl
  | p :: ps, i, b => by
    have ih := parts_map_sector (g := g) ps (i + 1) (b + 1)
    rw [UInt32.ofNat_add] at ih
    rw [parts, List.map_cons, List.length_cons, List.range'_succ, List.map_cons]
    exact congrArg _ ih

/-- An accepted MBR has the blocks from 2 on written, one more than it has partitions. -/
theorem convert_map_sector {mbr : Block} (h : Accepted mbr) (lba : UInt32) :
    (convert mbr lba stack).map Write.sector
      = (List.range' 2 ((converted mbr).length + 1)).map UInt32.ofNat := by
  rw [convert, if_pos h, List.map_cons, List.range'_succ, List.map_cons]
  exact congrArg _ (parts_map_sector (converted mbr) 0 3)

/-- There are at most four partitions. -/
theorem converted_length_le (mbr : Block) : (converted mbr).length ≤ 4 :=
  (List.takeWhile_sublist _).length_le

/-- The card block of each write. -/
def written (card : Card) (ws : List Write) : List ℕ := ws.map fun w => card.address w.sector

theorem address_of_lt {b : ℕ} (h : b < 2 ^ 23) : card.address (UInt32.ofNat b) = b := by
  refine Card.address_eq (h.trans_le ?_)
  rw [Card.limit]
  split
  · exact Nat.pow_le_pow_right (by decide) (by decide)
  · exact le_rfl

/-- The blocks that an accepted MBR has written. -/
theorem written_convert {mbr : Block} (h : Accepted mbr) (lba : UInt32) :
    written card (convert mbr lba stack) = List.range' 2 ((converted mbr).length + 1) := by
  have hle := converted_length_le mbr
  have hsectors := congrArg (List.map card.address) (@convert_map_sector stack _ h lba)
  rw [List.map_map, List.map_map] at hsectors
  refine hsectors.trans ((List.map_congr_left fun b hb => ?_).trans (List.map_id _))
  rw [List.mem_range'_1] at hb
  exact address_of_lt (by omega)

/-- A block that no write addresses keeps what it holds. -/
theorem run_block_of_notMem : ∀ {ws : List Write} {card : Card} {b : ℕ}, b ∉ written card ws →
    (Write.run ws card).block b = card.block b
  | [], _, _, _ => rfl
  | w :: ws, card, b, h => by
    rw [written, List.map_cons, List.mem_cons, not_or] at h
    obtain ⟨hsdhc, -, -, hkeep⟩ := writeBlocks_frame [w.data] (card.address w.sector) card
    have haddr : (Card_WriteM card w.sector [w.data]).1.address = card.address := by
      funext s
      rw [Card.address, Card.address, Card_WriteM, hsdhc]
    have hb : (Card_WriteM card w.sector [w.data]).1.block b = card.block b :=
      hkeep b (by rw [List.length_singleton]; omega)
    have ih : (Write.run ws (Card_WriteM card w.sector [w.data]).1).block b
        = (Card_WriteM card w.sector [w.data]).1.block b :=
      run_block_of_notMem (by rw [written, haddr]; exact h.2)
    exact ih.trans hb

/-! ### The listed partitions -/

/-- The MBR lists the partition, in any slot. -/
def Listed (mbr : Block) (p : Partition) : Prop := p ∈ table mbr ∧ p.InUse

/-- Block `b` lies inside the partition. -/
def Partition.Contains (p : Partition) (b : ℕ) : Prop :=
  p.first_block.toNat ≤ b ∧ b < p.first_block.toNat + p.total_blocks.toNat

/-- No write addresses block 0 or a block of a listed partition. -/
def Harmless (card : Card) (ws : List Write) : Prop :=
  ∀ b ∈ written card ws, b ≠ 0 ∧ ∀ p, Listed (card.block 0) p → ¬ p.Contains b

/-- Writes that miss the partitions leave all of their blocks as they were. -/
theorem Harmless.keeps {ws : List Write} (h : Harmless card ws) {p : Partition}
    (hp : Listed (card.block 0) p) {b : ℕ} (hb : p.Contains b) :
    (Write.run ws card).block b = card.block b :=
  run_block_of_notMem fun hmem => (h b hmem).2 p hp hb

/-- The partition is empty, begins behind block `2 + n`, or ends in front of block 2. -/
def Partition.Clear (p : Partition) (n : ℕ) : Prop :=
  p.total_blocks = 0 ∨ 2 + n < p.first_block.toNat ∨
    p.first_block.toNat + p.total_blocks.toNat ≤ 2

/-- A partition has none of the blocks from 2 to `2 + n` exactly when it is clear of them. -/
theorem clear_iff {p : Partition} {n : ℕ} :
    p.Clear n ↔ ∀ b, 2 ≤ b → b ≤ 2 + n → ¬ p.Contains b := by
  constructor
  · rintro (hz | hbehind | hfront) b h2 hn ⟨hfirst, hlast⟩
    · rw [hz] at hlast
      exact absurd hlast (Nat.not_lt.mpr hfirst)
    · omega
    · omega
  · intro h
    by_contra hc
    rw [Partition.Clear, not_or, not_or, ← UInt32.toNat_inj, UInt32.toNat_zero] at hc
    obtain ⟨hz, hbehind, hfront⟩ := hc
    have hmax := h (max 2 p.first_block.toNat)
    exact hmax (le_max_left _ _) (by omega) ⟨le_max_right _ _, by omega⟩

/-- The first partition of an accepted MBR is clear of the blocks that are written. -/
theorem Accepted.first_clear {mbr : Block} (h : Accepted mbr) :
    (partition mbr 0).Clear (converted mbr).length := by
  have hle := converted_length_le mbr
  have hroom : (min_blocks_needed mbr + 2).toNat ≤ (partition mbr 0).first_block.toNat :=
    Nat.not_lt.mp fun hlt => h.2.1 (UInt32.lt_iff_toNat_lt.mpr hlt)
  have hneed : (min_blocks_needed mbr + 2).toNat = (converted mbr).length + 3 := by
    rw [min_blocks_needed, UInt32.toNat_add, UInt32.toNat_add, UInt32.toNat_ofNat']
    show ((1 + (converted mbr).length % 2 ^ 32) % 2 ^ 32 + 2) % 2 ^ 32 = _
    omega
  exact Or.inr (Or.inl (by omega))

/-- The writes miss block 0 and every listed partition exactly when there are none, or when each
    listed partition is clear of the blocks from 2 to one for each converted partition. -/
theorem harmless_iff (card : Card) (stack : UInt32 → ℕ → UInt8) :
    Harmless card (synchronizeRdbWithMbr card stack) ↔
      card.fails 0 = true ∨ ¬ Accepted (card.block 0) ∨
        ∀ p, Listed (card.block 0) p → p.Clear (converted (card.block 0)).length := by
  cases hf : card.fails 0 with
  | true =>
    rw [synchronizeRdbWithMbr_of_fails hf]
    exact ⟨fun _ => Or.inl rfl, fun _ b hb => absurd hb List.not_mem_nil⟩
  | false =>
    rw [synchronizeRdbWithMbr_eq hf]
    by_cases ha : Accepted (card.block 0)
    · rw [Harmless, written_convert ha]
      constructor
      · intro h
        refine Or.inr (Or.inr fun p hp => clear_iff.mpr fun b h2 hn => ?_)
        exact (h b (List.mem_range'_1.mpr ⟨h2, by omega⟩)).2 p hp
      · rintro (hfail | hrej | hclear) b hb
        · cases hfail
        · exact absurd ha hrej
        · rw [List.mem_range'_1] at hb
          exact ⟨by omega, fun p hp => clear_iff.mp (hclear p hp) b hb.1 (by omega)⟩
    · rw [convert, if_neg ha]
      exact ⟨fun _ => Or.inr (Or.inl ha), fun _ b hb => absurd hb List.not_mem_nil⟩

/-! ### A second partition in front of the first -/

/-- A partition at block 8, and behind it in the table one of four blocks at block 4. -/
def overlapByte (k : ℕ) : UInt8 :=
  if k = 0x1c2 ∨ k = 0x1d2 then 0x76
  else if k = 0x1c6 ∨ k = 0x1ca then 8
  else if k = 0x1d6 ∨ k = 0x1da then 4
  else 0

def overlapMbr : Block := Vector.ofFn fun i => overlapByte i

def overlapCard : Card where
  sdhc := true
  capacity := 0x100000
  block := fun _ => overlapMbr
  fails := fun _ => false

theorem byteAt_overlapMbr {k : ℕ} (h : k < 512) : byteAt overlapMbr k = overlapByte k := by
  rw [byteAt, Vector.getElem?_eq_getElem h, overlapMbr, Vector.getElem_ofFn]
  rfl

theorem table_overlapMbr :
    table overlapMbr = [⟨0, 0x76, 8, 8⟩, ⟨0, 0x76, 4, 4⟩, ⟨0, 0, 0, 0⟩, ⟨0, 0, 0, 0⟩] := by
  rw [table, show List.range 4 = [0, 1, 2, 3] from rfl]
  simp (disch := decide) only [List.map_cons, List.map_nil, partition, longAt, byteAt_overlapMbr]
  decide

theorem converted_overlapMbr : converted overlapMbr = [⟨0, 0x76, 8, 8⟩, ⟨0, 0x76, 4, 4⟩] := by
  rw [converted, table_overlapMbr]
  decide

theorem accepted_overlapMbr : Accepted overlapMbr := by
  have hfirst : partition overlapMbr 0 = ⟨0, 0x76, 8, 8⟩ := (List.cons.inj table_overlapMbr).1
  rw [Accepted, min_blocks_needed, cylblocks, converted_overlapMbr, hfirst]
  decide

/-- The second partition block is written over the first block of the second partition. -/
theorem overlap_written :
    ¬ Harmless overlapCard (synchronizeRdbWithMbr overlapCard fun _ _ => 0) := by
  have hwritten : written overlapCard (synchronizeRdbWithMbr overlapCard fun _ _ => 0)
      = [2, 3, 4] := by
    have hconvert := @written_convert overlapCard (fun _ _ => 0) _ accepted_overlapMbr 0x800
    rw [converted_overlapMbr] at hconvert
    exact (congrArg _ (synchronizeRdbWithMbr_eq rfl _)).trans hconvert
  have hlisted : Listed overlapMbr ⟨0, 0x76, 4, 4⟩ := by
    rw [Listed, table_overlapMbr]
    decide
  intro h
  exact (h 4 (by rw [hwritten]; decide)).2 _ hlisted (by rw [Partition.Contains]; decide)

end Rdb
