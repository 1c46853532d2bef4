import Mathlib.Data.List.Nodup
import ReplayFirmware.Rdb.Confine

/-! What a reader of the rigid disk block finds: the links from `rdb_PartitionList` on visit the
    partition blocks in the order of the partitions, the longs that a block counts sum to zero, and
    the cylinders of a partition block are the blocks of its partition.

    Only the longs that `rdb_SummedLongs` and `pb_SummedLongs` count sum to zero: they are the 64 of
    the structure, and what is sent behind it is in no sum. -/

namespace Rdb
open FileIO FileIO.Drv08

/-! ### The fields of a block -/

/-- Long `k` of a block. -/
def field (b : Block) (k : ℕ) : UInt32 := readLong (byteAt b) k

def summedLongs (b : Block) : UInt32 := field b 1
def pb_Next (b : Block) : UInt32 := field b 4
def ape_LoCylinder (b : Block) : UInt32 := field b 41
def ape_HiCylinder (b : Block) : UInt32 := field b 42
def rdb_PartitionList (b : Block) : UInt32 := field b 7
def rdb_Sectors (b : Block) : UInt32 := field b 17
def rdb_Heads (b : Block) : UInt32 := field b 18
def rdb_CylBlocks (b : Block) : UInt32 := field b 36

/-- The longs of a structure are sent in the first half of the block. -/
theorem field_sent {buf stack : ℕ → UInt8} {k : ℕ} (h : k < 64) :
    field (sent buf stack) k = readLong buf k := by
  refine readLong_congr fun i hi => ?_
  have hlt : 4 * k + i < 512 := by omega
  rw [byteAt, Vector.getElem?_eq_getElem hlt, sent, Vector.getElem_ofFn]
  show (if 4 * k + i < 256 then buf (4 * k + i) else stack (4 * k + i)) = _
  exact if_pos (by omega)

/-- The block counts the 64 longs of the structure, and they sum to zero. -/
def Summed (b : Block) : Prop :=
  summedLongs b = 0x40 ∧ calcBEsum (byteAt b) (summedLongs b).toNat = 0

/-- The longs that a structure counts sum to zero in the block that is sent. -/
theorem sum_sent {buf stack : ℕ → UInt8} (h1 : readLong buf 1 = 0x40) (h2 : readLong buf 2 = 0) :
    Summed (sent (writeSum buf) stack) := by
  have hcount : readLong (writeSum buf) 1 = 0x40 :=
    (readLong_writeLong_of_ne _ (by decide)).trans h1
  have hsent : summedLongs (sent (writeSum buf) stack) = 0x40 :=
    (field_sent (by decide)).trans hcount
  have hsum := calcBEsum_writeSum h2 (by rw [h1]; decide)
  rw [hcount] at hsum
  refine ⟨hsent, Eq.trans ?_ hsum⟩
  rw [hsent]
  refine congrArg List.sum (List.map_congr_left fun k hk => ?_)
  exact field_sent (List.mem_range.mp hk)

/-- Longs in front of the strings of the `tRigidDiskBlock`. -/
theorem readLong_rdskFields {g : Geometry} {cur need : UInt32} {j : ℕ} (hj : j < 40) :
    readLong (rdskFields g cur need) j
      = readLong (writeLongs (fun _ => 0) (rdskLongs g cur need)) j := by
  rw [rdskFields, readLong_putAt (Or.inl (by omega)), readLong_putAt (Or.inl (by omega)),
    readLong_putAt (Or.inl (by omega))]

/-- Longs of the `tPartitionBlock` in front of the name. -/
theorem readLong_partFields {g : Geometry} {p : Partition} {i j : ℕ} {next : UInt32} (hj : j < 9) :
    readLong (partFields g p i next) j = readLong (writeLongs (fun _ => 0) (partLongs next)) j := by
  rw [partFields, readLong_writeLongs_of_notMem, readLong_putAt (Or.inl (by omega))]
  show j ∉ [32, 33, 35, 36, 37, 38, 41, 42, 43, 45, 46, 47, 48]
  intro hmem
  simp only [List.mem_cons, List.not_mem_nil, or_false] at hmem
  omega

theorem nodup_rdskLongs (g : Geometry) (cur need : UInt32) :
    ((rdskLongs g cur need).map Prod.fst).Nodup := by
  show List.Nodup [0, 1, 3, 4, 5, 6, 7, 8, 9, 16, 17, 18, 19, 20, 24, 25, 26, 32, 33, 34, 35, 36, 38]
  decide

theorem nodup_partLongs (next : UInt32) : ((partLongs next).map Prod.fst).Nodup := by
  show List.Nodup [0, 1, 3, 4, 5]
  decide

theorem nodup_environment (g : Geometry) (locyl hicyl : UInt32) :
    ((environment g locyl hicyl).map Prod.fst).Nodup := by
  show List.Nodup [32, 33, 35, 36, 37, 38, 41, 42, 43, 45, 46, 47, 48]
  decide

/-- A field of the rigid disk block that is sent. -/
theorem field_rdsk {g : Geometry} {cur need val : UInt32} {stack : ℕ → UInt8} {j : ℕ} (hj : j < 40)
    (h2 : j ≠ 2) (h : (j, val) ∈ rdskLongs g cur need) :
    field (sent (rdsk g cur need) stack) j = val := by
  rw [field_sent (by omega), rdsk, writeSum, readLong_writeLong_of_ne _ h2, readLong_rdskFields hj]
  exact readLong_writeLongs (nodup_rdskLongs g cur need) h

theorem partitionList_rdsk (g : Geometry) (cur need : UInt32) (stack : ℕ → UInt8) :
    rdb_PartitionList (sent (rdsk g cur need) stack) = cur + 1 :=
  field_rdsk (by decide) (by decide) (by simp [rdskLongs])

theorem sectors_rdsk (g : Geometry) (cur need : UInt32) (stack : ℕ → UInt8) :
    rdb_Sectors (sent (rdsk g cur need) stack) = g.sectors :=
  field_rdsk (by decide) (by decide) (by simp [rdskLongs])

theorem heads_rdsk (g : Geometry) (cur need : UInt32) (stack : ℕ → UInt8) :
    rdb_Heads (sent (rdsk g cur need) stack) = g.heads :=
  field_rdsk (by decide) (by decide) (by simp [rdskLongs])

theorem cylBlocks_rdsk (g : Geometry) (cur need : UInt32) (stack : ℕ → UInt8) :
    rdb_CylBlocks (sent (rdsk g cur need) stack) = g.cylblocks :=
  field_rdsk (by decide) (by decide) (by simp [rdskLongs])

/-- A field of the partition block that is sent, in front of the name. -/
theorem field_part {g : Geometry} {p : Partition} {i j : ℕ} {next val : UInt32} {stack : ℕ → UInt8}
    (hj : j < 9) (h2 : j ≠ 2) (h : (j, val) ∈ partLongs next) :
    field (sent (part g p i next) stack) j = val := by
  rw [field_sent (by omega), part, writeSum, readLong_writeLong_of_ne _ h2, readLong_partFields hj]
  exact readLong_writeLongs (nodup_partLongs next) h

/-- A field of the environment of the partition block that is sent. -/
theorem field_environment {g : Geometry} {p : Partition} {i j : ℕ} {next val : UInt32}
    {stack : ℕ → UInt8} (hj : j < 64) (h2 : j ≠ 2)
    (h : (j, val) ∈ environment g (p.first_block / g.cylblocks)
      (p.first_block / g.cylblocks + p.total_blocks / g.cylblocks - 1)) :
    field (sent (part g p i next) stack) j = val := by
  rw [field_sent hj, part, writeSum, readLong_writeLong_of_ne _ h2]
  exact readLong_writeLongs (nodup_environment _ _ _) h

/-! ### The sums -/

theorem summed_rdsk (g : Geometry) (cur need : UInt32) (stack : ℕ → UInt8) :
    Summed (sent (rdsk g cur need) stack) := by
  refine sum_sent ?_ ?_
  · rw [readLong_rdskFields (by decide)]
    exact readLong_writeLongs (nodup_rdskLongs g cur need) (by simp [rdskLongs])
  · rw [readLong_rdskFields (by decide), readLong_writeLongs_of_notMem]
    · rfl
    · show 2 ∉ [0, 1, 3, 4, 5, 6, 7, 8, 9, 16, 17, 18, 19, 20, 24, 25, 26, 32, 33, 34, 35, 36, 38]
      decide

theorem summed_part (g : Geometry) (p : Partition) (i : ℕ) (next : UInt32) (stack : ℕ → UInt8) :
    Summed (sent (part g p i next) stack) := by
  refine sum_sent ?_ ?_
  · rw [readLong_partFields (by decide)]
    exact readLong_writeLongs (nodup_partLongs next) (by simp [partLongs])
  · rw [readLong_partFields (by decide), readLong_writeLongs_of_notMem]
    · rfl
    · show 2 ∉ [0, 1, 3, 4, 5]
      decide

/-! ### The geometry -/

/-- The candidates that follow keep a divisor a divisor. -/
theorem foldl_divides {n : UInt32} : ∀ (cs : List ℕ) {d : UInt32}, n % d = 0 →
    n % cs.foldl (fun d c => if n % c.toUInt32 = 0 then c.toUInt32 else d) d = 0
  | [], _, h => h
  | c :: cs, d, h => by
    rw [List.foldl_cons]
    split
    · next hc => exact foldl_divides cs hc
    · exact foldl_divides cs h

/-- The sectors divide the cylinder: 1 is a candidate. -/
theorem mod_lastDivisor (n : UInt32) : n % lastDivisor n = 0 := by
  have hone : n % (1 : ℕ).toUInt32 = 0 := UInt32.toNat_inj.mp (by
    rw [UInt32.toNat_mod]
    exact Nat.mod_one _)
  rw [lastDivisor, List.range'_succ, List.foldl_cons, if_pos hone]
  exact foldl_divides _ hone

/-- A division without remainder, multiplied back. -/
theorem div_mul_toNat {a b : UInt32} (h : a % b = 0) : (a / b).toNat * b.toNat = a.toNat := by
  have hmod : a.toNat % b.toNat = 0 := by
    rw [← UInt32.toNat_mod, h]
    rfl
  rw [UInt32.toNat_div]
  exact Nat.div_mul_cancel (Nat.dvd_of_mod_eq_zero hmod)

/-- Heads and sectors make the cylinder. -/
theorem heads_mul_sectors (lba c : UInt32) : (geometry lba c).heads.toNat *
    (geometry lba c).sectors.toNat = (geometry lba c).cylblocks.toNat := by
  simp only [geometry]
  exact div_mul_toNat (mod_lastDivisor c)

/-! ### The links -/

/-- The block that was written to a sector. -/
def found (ws : List Write) (s : UInt32) : Option Block :=
  (ws.find? fun w => w.sector = s).map Write.data

/-- Following `pb_Next` from a sector on visits these blocks and ends with `0xFFFFFFFF`. -/
inductive Chain (ws : List Write) : UInt32 → List Write → Prop
  | done : Chain ws 0xFFFFFFFF []
  | link {s : UInt32} {b : Block} {rest : List Write} : s ≠ 0xFFFFFFFF → found ws s = some b →
      Chain ws (pb_Next b) rest → Chain ws s (⟨s, b⟩ :: rest)

/-- Where no sector is written twice, each write is found. -/
theorem found_of_mem : ∀ {ws : List Write} {w : Write}, (ws.map Write.sector).Nodup → w ∈ ws →
    found ws w.sector = some w.data
  | [], _, _, h => absurd h List.not_mem_nil
  | v :: ws, w, hn, h => by
    rw [List.map_cons, List.nodup_cons] at hn
    rcases List.mem_cons.mp h with rfl | hmem
    · rw [found, List.find?_cons_of_pos (by simp)]
      rfl
    · have hne : ¬ v.sector = w.sector := fun he => hn.1 (he ▸ List.mem_map_of_mem hmem)
      rw [found, List.find?_cons_of_neg (by simpa using hne)]
      exact found_of_mem hn.2 hmem

/-- The partition blocks are linked in their order, and the last one ends the list. -/
theorem chain_parts {ws : List Write} {g : Geometry} : ∀ (ps : List Partition) (i b : ℕ), ps ≠ [] →
    b + ps.length < 2 ^ 32 →
    (∀ w ∈ parts g stack ps i (UInt32.ofNat b), found ws w.sector = some w.data) →
    Chain ws (UInt32.ofNat b) (parts g stack ps i (UInt32.ofNat b))
  | [], _, _, hne, _, _ => absurd rfl hne
  | p :: ps, i, b, _, hb, hfound => by
    rw [List.length_cons] at hb
    have hlast : UInt32.ofNat b ≠ 0xFFFFFFFF := by
      intro h
      have hval := congrArg UInt32.toNat h
      rw [UInt32.toNat_ofNat', Nat.mod_eq_of_lt (by omega)] at hval
      have h32 : (0xFFFFFFFF : UInt32).toNat = 2 ^ 32 - 1 := rfl
      omega
    rw [parts] at hfound ⊢
    rw [List.forall_mem_cons] at hfound
    refine .link hlast hfound.1 ?_
    rw [pb_Next, field_part (by decide) (by decide)
      (List.mem_cons_of_mem _ (List.mem_cons_of_mem _ (List.mem_cons_of_mem _ List.mem_cons_self)))]
    cases ps with
    | nil => exact .done
    | cons q qs =>
      have hcur : UInt32.ofNat b + 1 = UInt32.ofNat (b + 1) := (UInt32.ofNat_add b 1).symm
      rw [hcur] at hfound
      show Chain ws (UInt32.ofNat b + 1) (parts g stack (q :: qs) (i + 1) (UInt32.ofNat b + 1))
      rw [hcur]
      exact chain_parts (q :: qs) (i + 1) (b + 1) (List.cons_ne_nil _ _) (by omega) hfound.2

/-! ### The partitions -/

/-- The cylinders of a partition block are the blocks of the partition, in cylinders. -/
structure Covers (cylblocks : UInt32) (b : Block) (p : Partition) : Prop where
  lo : (ape_LoCylinder b).toNat * cylblocks.toNat = p.first_block.toNat
  hi : (ape_HiCylinder b - ape_LoCylinder b + 1).toNat * cylblocks.toNat = p.total_blocks.toNat

theorem covers_part {g : Geometry} {p : Partition} (h : p.Aligned g.cylblocks) (i : ℕ)
    (next : UInt32) (stack : ℕ → UInt8) :
    Covers g.cylblocks (sent (part g p i next) stack) p := by
  have hlo : ape_LoCylinder (sent (part g p i next) stack) = p.first_block / g.cylblocks :=
    field_environment (by decide) (by decide) (by simp [environment])
  have hhi : ape_HiCylinder (sent (part g p i next) stack)
      = p.first_block / g.cylblocks + p.total_blocks / g.cylblocks - 1 :=
    field_environment (by decide) (by decide) (by simp [environment])
  have hcount : ∀ a c : UInt32, a + c - 1 - a + 1 = c := by
    intro a c
    grind
  constructor
  · rw [hlo]
    exact div_mul_toNat h.1
  · rw [hlo, hhi, hcount]
    exact div_mul_toNat h.2

theorem covers_parts {g : Geometry} : ∀ (ps : List Partition) (i : ℕ) (cur : UInt32),
    (∀ p ∈ ps, p.Aligned g.cylblocks) →
    List.Forall₂ (fun w p => Covers g.cylblocks w.data p) (parts g stack ps i cur) ps
  | [], _, _, _ => .nil
  | p :: ps, i, cur, h => by
    rw [List.forall_mem_cons] at h
    exact .cons (covers_part h.1 i _ _) (covers_parts ps (i + 1) (cur + 1) h.2)

theorem summed_parts {g : Geometry} : ∀ (ps : List Partition) (i : ℕ) (cur : UInt32),
    ∀ w ∈ parts g stack ps i cur, Summed w.data
  | [], _, _, _, h => absurd h List.not_mem_nil
  | p :: ps, i, cur, w, h => by
    rcases List.mem_cons.mp h with rfl | hmem
    · exact summed_part g p i _ _
    · exact summed_parts ps (i + 1) (cur + 1) w hmem

/-! ### The whole -/

/-- The writes are a rigid disk block and, linked from it, a partition block for each partition. -/
structure RigidDisk (ps : List Partition) (ws : List Write) (rdsk : Block) (parts : List Write) :
    Prop where
  written : ws = ⟨2, rdsk⟩ :: parts
  first : parts.head?.map Write.sector = some (rdb_PartitionList rdsk)
  chain : Chain ws (rdb_PartitionList rdsk) parts
  once : (parts.map Write.sector).Nodup
  summed : ∀ w ∈ ws, Summed w.data
  geometry : (rdb_Heads rdsk).toNat * (rdb_Sectors rdsk).toNat = (rdb_CylBlocks rdsk).toNat
  covers : List.Forall₂ (fun w p => Covers (rdb_CylBlocks rdsk) w.data p) parts ps

/-- What an accepted MBR has written is a rigid disk block with its partition blocks. -/
theorem convert_rigidDisk {mbr : Block} (h : Accepted mbr) (lba : UInt32) :
    ∃ rdsk parts, RigidDisk (converted mbr) (convert mbr lba stack) rdsk parts := by
  have hle := converted_length_le mbr
  have hne : converted mbr ≠ [] := fun he => h.1 (by rw [he]; rfl)
  have hnodup : ((convert mbr lba stack).map Write.sector).Nodup := by
    rw [convert_map_sector h]
    refine List.Nodup.map_on (fun a ha b hb hab => ?_) List.nodup_range'
    rw [List.mem_range'_1] at ha hb
    have hval := congrArg UInt32.toNat hab
    rwa [UInt32.toNat_ofNat', UInt32.toNat_ofNat', Nat.mod_eq_of_lt (by omega),
      Nat.mod_eq_of_lt (by omega)] at hval
  have hws : convert mbr lba stack
      = ⟨2, sent (rdsk (geometry lba (cylblocks mbr)) 2 (min_blocks_needed mbr)) (stack 2)⟩ ::
        parts (geometry lba (cylblocks mbr)) stack (converted mbr) 0 3 := if_pos h
  refine ⟨_, _, hws, ?_, ?_, ?_, ?_, ?_, ?_⟩
  · rw [partitionList_rdsk]
    cases hps : converted mbr with
    | nil => exact absurd hps hne
    | cons p ps => rfl
  · rw [partitionList_rdsk]
    refine chain_parts (converted mbr) 0 3 hne (by omega) fun w hw => found_of_mem hnodup ?_
    rw [hws]
    exact List.mem_cons_of_mem _ hw
  · rw [hws, List.map_cons, List.nodup_cons] at hnodup
    exact hnodup.2
  · intro w hw
    rw [hws] at hw
    rcases List.mem_cons.mp hw with rfl | hmem
    · exact summed_rdsk _ _ _ _
    · exact summed_parts _ _ _ w hmem
  · rw [heads_rdsk, sectors_rdsk, cylBlocks_rdsk]
    exact heads_mul_sectors lba (cylblocks mbr)
  · rw [cylBlocks_rdsk]
    exact covers_parts (converted mbr) 0 3 h.2.2

/-- Wherever something is written, it is a rigid disk block with a partition block for each
    converted partition. -/
theorem synchronizeRdbWithMbr_rigidDisk (card : Card) (stack : UInt32 → ℕ → UInt8)
    (h : synchronizeRdbWithMbr card stack ≠ []) :
    ∃ rdsk parts, RigidDisk (converted (card.block 0)) (synchronizeRdbWithMbr card stack) rdsk
      parts := by
  cases hf : card.fails 0 with
  | true => exact absurd (synchronizeRdbWithMbr_of_fails hf stack) h
  | false =>
    rw [synchronizeRdbWithMbr_eq hf] at h ⊢
    by_cases ha : Accepted (card.block 0)
    · exact convert_rigidDisk ha _
    · exact absurd (if_neg ha) h

theorem overlap_rigidDisk : ∃ rdsk parts, RigidDisk (converted overlapMbr)
    (synchronizeRdbWithMbr overlapCard fun _ _ => 0) rdsk parts :=
  synchronizeRdbWithMbr_rigidDisk overlapCard (fun _ _ => 0) (by
    rw [synchronizeRdbWithMbr_eq rfl]
    intro h
    rw [show overlapCard.block 0 = overlapMbr from rfl, convert, if_pos accepted_overlapMbr] at h
    cases h)

/-- The longs behind the structure are those of the stack. -/
theorem field_sent_behind {buf stack : ℕ → UInt8} {k : ℕ} (h : 64 ≤ k) (hk : k < 128) :
    field (sent buf stack) k = readLong stack k := by
  refine readLong_congr fun i hi => ?_
  have hlt : 4 * k + i < 512 := by omega
  rw [byteAt, Vector.getElem?_eq_getElem hlt, sent, Vector.getElem_ofFn]
  show (if 4 * k + i < 256 then buf (4 * k + i) else stack (4 * k + i)) = _
  exact if_neg (by omega)

/-- The 128 longs of a block that is sent sum to those that lay behind the structure. -/
theorem sum_block {buf stack : ℕ → UInt8} (h : Summed (sent buf stack)) :
    calcBEsum (byteAt (sent buf stack)) 128 = ((List.range' 64 64).map (readLong stack)).sum := by
  have hrange : List.range 128 = List.range 64 ++ List.range' 64 64 := by decide
  have hfront : ((List.range 64).map (readLong (byteAt (sent buf stack)))).sum = 0 := by
    have hsum := h.2
    rw [h.1] at hsum
    exact hsum
  have hbehind : (List.range' 64 64).map (readLong (byteAt (sent buf stack)))
      = (List.range' 64 64).map (readLong stack) :=
    List.map_congr_left fun k hk => by
      rw [List.mem_range'_1] at hk
      exact field_sent_behind hk.1 hk.2
  rw [calcBEsum, hrange, List.map_append, List.sum_append, hfront, hbehind, UInt32.zero_add]

/-- A single byte on the stack, behind the structures. -/
def behind (_ : UInt32) (k : ℕ) : UInt8 := if k = 511 then 1 else 0

/-- With a byte behind the structure the long words of the whole block do not sum to zero. -/
theorem behind_sum : ∃ w ∈ synchronizeRdbWithMbr overlapCard behind,
    calcBEsum (byteAt w.data) 128 = 1 := by
  have hws : synchronizeRdbWithMbr overlapCard behind = convert overlapMbr 0x800 behind :=
    synchronizeRdbWithMbr_eq rfl _
  rw [hws, convert, if_pos accepted_overlapMbr]
  refine ⟨_, List.mem_cons_self, ?_⟩
  rw [sum_block (summed_rdsk _ _ _ _)]
  decide +kernel

end Rdb
