import ReplayFirmware.FileIO.Card
import ReplayFirmware.Rdb.Longs

/-! `SynchronizeRdbWithMbr`: the partition table of the first block of the card, made into a rigid
    disk block and a partition block for each partition, in the blocks from block 2 on.

    The structures that are written have 256 bytes, and a block of the card has 512: what stands
    behind a structure on the stack is written with it. -/

namespace Rdb
open FileIO FileIO.Drv08

/-! ### The partition table -/

/-- A `tPartition`, in the fields that the conversion reads. -/
structure Partition where
  active : UInt8
  file_system : UInt8
  first_block : UInt32
  total_blocks : UInt32
deriving DecidableEq, Repr

def byteAt (b : Block) (k : ℕ) : UInt8 := b[k]?.getD 0

/-- A `uint32_t` of the MBR, low byte first. -/
def longAt (b : Block) (k : ℕ) : UInt32 :=
  (byteAt b k).toUInt32 ||| (byteAt b (k + 1)).toUInt32 <<< 8
    ||| (byteAt b (k + 2)).toUInt32 <<< 16 ||| (byteAt b (k + 3)).toUInt32 <<< 24

/-- `mbr.partition[i]`: the table starts behind the boot code, the serial and two bytes. -/
def partition (mbr : Block) (i : ℕ) : Partition :=
  let off := 0x1b8 + 4 + 2 + 16 * i
  { active := byteAt mbr off, file_system := byteAt mbr (off + 4)
    first_block := longAt mbr (off + 8), total_blocks := longAt mbr (off + 12) }

/-- The four slots of the table. -/
def table (mbr : Block) : List Partition := (List.range 4).map (partition mbr)

/-- The slot lists a partition: it is active, or it is inactive and names a file system. -/
def Partition.InUse (p : Partition) : Prop :=
  ¬ (p.active ≠ 0x80 ∧ (p.active ≠ 0 ∨ p.file_system = 0))

instance (p : Partition) : Decidable p.InUse := inferInstanceAs (Decidable (¬ _))

/-- The partitions that are converted: those before the first slot that is not in use. -/
def converted (mbr : Block) : List Partition := (table mbr).takeWhile (·.InUse)

/-! ### The checks -/

/-- The first partition is taken to start at cylinder 2. -/
def cylblocks (mbr : Block) : UInt32 := (partition mbr 0).first_block / 2

def Partition.Aligned (p : Partition) (cylblocks : UInt32) : Prop :=
  p.first_block % cylblocks = 0 ∧ p.total_blocks % cylblocks = 0

instance (p : Partition) (c : UInt32) : Decidable (p.Aligned c) := inferInstanceAs (Decidable (_ ∧ _))

/-- The blocks that are needed from block 2 on: the rigid disk block and the partition blocks. -/
def min_blocks_needed (mbr : Block) : UInt32 := 1 + (converted mbr).length.toUInt32

/-- The MBR passes the checks that stand before the first write. -/
def Accepted (mbr : Block) : Prop :=
  (converted mbr).length ≠ 0 ∧ ¬ (partition mbr 0).first_block < min_blocks_needed mbr + 2 ∧
    ∀ p ∈ converted mbr, p.Aligned (cylblocks mbr)

instance (mbr : Block) : Decidable (Accepted mbr) := inferInstanceAs (Decidable (_ ∧ _ ∧ _))

/-! ### The blocks -/

/-- The geometry, from the blocks of the card and the blocks of a cylinder. -/
structure Geometry where
  cylinders : UInt32
  heads : UInt32
  sectors : UInt32
  cylblocks : UInt32

/-- The last of the counts from 1 to 254 that divides the cylinder. -/
def lastDivisor (cylblocks : UInt32) : UInt32 :=
  (List.range' 1 254).foldl
    (fun sectors sec => if cylblocks % sec.toUInt32 = 0 then sec.toUInt32 else sectors) 0

def geometry (lba cylblocks : UInt32) : Geometry :=
  let sectors := lastDivisor cylblocks
  { cylinders := lba / cylblocks, heads := cylblocks / sectors, sectors := sectors
    cylblocks := cylblocks }

/-- The longs of the `tRigidDiskBlock` that are set. -/
def rdskLongs (g : Geometry) (cur_block min_blocks_needed : UInt32) : List (ℕ × UInt32) :=
  [(0, 0x5244534B), (1, 0x40), (3, 0x7), (4, 512), (5, 0x12), (6, 0xFFFFFFFF), (7, cur_block + 1),
    (8, 0xFFFFFFFF), (9, 0xFFFFFFFF), (16, g.cylinders), (17, g.sectors), (18, g.heads), (19, 1),
    (20, g.cylinders), (24, g.cylinders), (25, g.cylinders), (26, 3), (32, 0),
    (33, g.cylblocks * 2 - 1), (34, 2), (35, g.cylinders - 1), (36, g.cylblocks),
    (38, cur_block + min_blocks_needed)]

/-- The `tRigidDiskBlock` in front of its checksum. -/
def rdskFields (g : Geometry) (cur_block min_blocks_needed : UInt32) : ℕ → UInt8 :=
  let buf := writeLongs (fun _ => 0) (rdskLongs g cur_block min_blocks_needed)
  let buf := putAt buf 160 (strBytes "Replay" ++ [0])
  let buf := putAt buf 168 (strBytes "MBR/RDB" ++ [0])
  putAt buf 184 (strBytes "1.0" ++ [0])

def rdsk (g : Geometry) (cur_block min_blocks_needed : UInt32) : ℕ → UInt8 :=
  writeSum (rdskFields g cur_block min_blocks_needed)

/-- The longs of the `tPartitionBlock` in front of the name. -/
def partLongs (next : UInt32) : List (ℕ × UInt32) :=
  [(0, 0x50415254), (1, 0x40), (3, 0x07), (4, next), (5, 1)]

/-- The longs of the `tAmigaPartitionEnvironment`. -/
def environment (g : Geometry) (locyl hicyl : UInt32) : List (ℕ × UInt32) :=
  [(32, 0x10), (33, 128), (35, g.heads), (36, 1), (37, g.sectors), (38, 2), (41, locyl),
    (42, hicyl), (43, 0x1E), (45, 0x1FE00), (46, 0x7FFFFFFE), (47, 0), (48, 0x444F5301)]

/-- The `tPartitionBlock` of partition `i` in front of its checksum; the last digit of its name
    `MMC0` counts up. -/
def partFields (g : Geometry) (p : Partition) (i : ℕ) (next : UInt32) : ℕ → UInt8 :=
  let locyl := p.first_block / g.cylblocks
  let hicyl := locyl + p.total_blocks / g.cylblocks - 1
  let buf := writeLongs (fun _ => 0) (partLongs next)
  let buf := putAt buf 36 [4, 0x4D, 0x4D, 0x43, 0x30 + i.toUInt8, 0]
  writeLongs buf (environment g locyl hicyl)

def part (g : Geometry) (p : Partition) (i : ℕ) (next : UInt32) : ℕ → UInt8 :=
  writeSum (partFields g p i next)

/-! ### The writes -/

/-- A `Card_WriteM` of one block. -/
structure Write where
  sector : UInt32
  data : Block

/-- The block that is sent for a structure: what is behind it on the stack goes with it. -/
def sent (buf stack : ℕ → UInt8) : Block :=
  Vector.ofFn fun i => if (i : ℕ) < 256 then buf i else stack i

/-- The partition blocks, from `cur_block` on; `stack` is what is behind the structure. -/
def parts (g : Geometry) (stack : UInt32 → ℕ → UInt8) :
    List Partition → ℕ → UInt32 → List Write
  | [], _, _ => []
  | p :: ps, i, cur_block =>
    let next := if ps.isEmpty then 0xFFFFFFFF else cur_block + 1
    ⟨cur_block, sent (part g p i next) (stack cur_block)⟩ :: parts g stack ps (i + 1) (cur_block + 1)

/-- The writes for an MBR that was read. -/
def convert (mbr : Block) (lba : UInt32) (stack : UInt32 → ℕ → UInt8) : List Write :=
  if Accepted mbr then
    let g := geometry lba (cylblocks mbr)
    ⟨2, sent (rdsk g 2 (min_blocks_needed mbr)) (stack 2)⟩ :: parts g stack (converted mbr) 0 3
  else []

/-- `SynchronizeRdbWithMbr`: the blocks it writes, in their order. -/
def synchronizeRdbWithMbr (card : Card) (stack : UInt32 → ℕ → UInt8) : List Write :=
  match Card_ReadM card 0 1 with
  | ([mbr], true) => convert mbr (card.capacity / 512).toUInt32 stack
  | _ => []

/-- The card after the writes; a write that fails is not looked at. -/
def Write.run (ws : List Write) (card : Card) : Card :=
  ws.foldl (fun card w => (Card_WriteM card w.sector [w.data]).1) card

/-- A card whose first block can be read is converted by that block. -/
theorem synchronizeRdbWithMbr_eq {card : Card} (h : card.fails 0 = false)
    (stack : UInt32 → ℕ → UInt8) : synchronizeRdbWithMbr card stack
      = convert (card.block 0) (card.capacity / 512).toUInt32 stack := by
  have haddr : card.address 0 = 0 := by
    rw [Card.address]
    split
    · rfl
    · rfl
  have hread : Card_ReadM card 0 1 = ([card.block 0], true) := by
    rw [Card_ReadM, haddr, readBlocks, if_neg (by rw [h]; decide)]
    rfl
  rw [synchronizeRdbWithMbr, hread]

/-- A card whose first block cannot be read is left alone. -/
theorem synchronizeRdbWithMbr_of_fails {card : Card} (h : card.fails 0 = true)
    (stack : UInt32 → ℕ → UInt8) : synchronizeRdbWithMbr card stack = [] := by
  have haddr : card.address 0 = 0 := by
    rw [Card.address]
    split
    · rfl
    · rfl
  have hread : Card_ReadM card 0 1 = ([], false) := by
    rw [Card_ReadM, haddr, readBlocks, if_pos h]
  rw [synchronizeRdbWithMbr, hread]

end Rdb
