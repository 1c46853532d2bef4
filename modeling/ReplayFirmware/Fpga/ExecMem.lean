import Mathlib.Data.UInt
import Mathlib.Algebra.BigOperators.Group.List.Basic

/-! Code that is launched from the DRAM.

    The DRAM is read twice, in blocks of 512 bytes: the words that begin within the length are summed the
    first time, and when their sum is right, all blocks are placed in the SRAM the second time. The
    length is that of a `LAUNCH` line, cut to 16 bits. -/

namespace Fpga

/-! ### Reading -/

/-- What the DRAM holds. -/
abbrev Dram := UInt32 → UInt8

/-- A word, its low byte first. -/
def word (mem : Dram) (a : UInt32) : UInt32 :=
  (mem a).toUInt32 ||| (mem (a + 1)).toUInt32 <<< 8 ||| (mem (a + 2)).toUInt32 <<< 16 |||
    (mem (a + 3)).toUInt32 <<< 24

/-- The `n` words from an address on. -/
def words (mem : Dram) (addr : UInt32) (n : ℕ) : List UInt32 :=
  (List.range n).map fun j => word mem (addr + UInt32.ofNat (4 * j))

/-- A block of 512 bytes is read as 128 words, and the address moves on. -/
def readBlock (mem : Dram) (addr : UInt32) : List UInt32 × UInt32 := (words mem addr 128, addr + 512)

/-- The words of a block are summed as long as `l` is below the length. -/
def sumBlock (len : ℕ) : List UInt32 → ℕ → UInt32 → ℕ × UInt32
  | [], l, sum => (l, sum)
  | w :: ws, l, sum => if l < len then sumBlock len ws (l + 4) (sum + w) else (l, sum)

/-- The first reading, of so many blocks. -/
def sumBlocks (mem : Dram) (len : ℕ) : ℕ → UInt32 → ℕ → UInt32 → UInt32
  | 0, _, _, sum => sum
  | blocks + 1, addr, l, sum =>
    let (buf, addr) := readBlock mem addr
    let (l, sum) := sumBlock len buf l sum
    sumBlocks mem len blocks addr l sum

/-- The second reading: what is placed at 0x00200000. -/
def copyBlocks (mem : Dram) : ℕ → UInt32 → List UInt32
  | 0, _ => []
  | blocks + 1, addr =>
    let (dest, addr) := readBlock mem addr
    dest ++ copyBlocks mem blocks addr

/-- `FPGA_ExecMem`, with what the DRAM holds at the first and at the second reading: the words that are
    placed when they are executed. -/
def execMem (first second : Dram) (base : UInt32) (len : UInt16) (checksum : UInt32) :
    Option (List UInt32) :=
  let blocks := len.toNat / 512 + 1
  if sumBlocks first len.toNat blocks base 0 0 ≠ checksum then none
  else some (copyBlocks second blocks base)

/-- `_CFG_handle_UPLOAD_LAUNCH`, with its three numbers. -/
def handleUploadLaunch (first second : Dram) (start length checksum : UInt32) : Option (List UInt32) :=
  execMem first second start length.toUInt16 checksum

/-! ### Words and blocks -/

variable {mem : Dram} {addr : UInt32} {len : ℕ}

theorem words_add (m n : ℕ) :
    words mem addr (m + n) = words mem addr m ++ words mem (addr + UInt32.ofNat (4 * m)) n := by
  rw [words, List.range_add, List.map_append, List.map_map]
  refine congrArg (words mem addr m ++ ·) (List.map_congr_left fun j _ => ?_)
  rw [Function.comp_apply, Nat.mul_add, UInt32.ofNat_add, add_assoc]

theorem length_words (n : ℕ) : (words mem addr n).length = n := by
  rw [words, List.length_map, List.length_range]

theorem take_words {m n : ℕ} (h : m ≤ n) : (words mem addr n).take m = words mem addr m := by
  rw [words, ← List.map_take, List.take_range, Nat.min_eq_left h]
  rfl

theorem copyBlocks_eq : ∀ (blocks : ℕ) (addr : UInt32),
    copyBlocks mem blocks addr = words mem addr (128 * blocks)
  | 0, _ => rfl
  | blocks + 1, addr => by
    rw [copyBlocks, readBlock]
    simp only
    rw [copyBlocks_eq blocks, Nat.mul_succ, Nat.add_comm, words_add]
    rfl

/-- The words that are still to be summed. -/
def wanted (len l : ℕ) : ℕ := (len - l + 3) / 4

theorem sumBlock_eq : ∀ (ws : List UInt32) (l : ℕ) (sum : UInt32), sumBlock len ws l sum =
    (l + 4 * min ws.length (wanted len l), sum + (ws.take (wanted len l)).sum)
  | [], l, sum => by simp [sumBlock]
  | w :: ws, l, sum => by
    rw [sumBlock]
    split
    · next h =>
      have hwanted : wanted len l = wanted len (l + 4) + 1 := by
        rw [wanted, wanted]
        omega
      rw [sumBlock_eq ws, hwanted, List.take_succ_cons, List.sum_cons, List.length_cons,
        Nat.add_min_add_right]
      exact Prod.ext (by simp only; omega) (add_assoc ..)
    · next h =>
      have hwanted : wanted len l = 0 := by
        rw [wanted]
        omega
      rw [hwanted, List.take_zero, List.sum_nil, Nat.min_zero, add_zero]
      rfl

theorem sumBlocks_eq : ∀ (blocks : ℕ) (addr : UInt32) (l : ℕ) (sum : UInt32),
    sumBlocks mem len blocks addr l sum =
      sum + ((words mem addr (128 * blocks)).take (wanted len l)).sum
  | 0, _, _, sum => by simp [sumBlocks, words]
  | blocks + 1, addr, l, sum => by
    rw [sumBlocks, readBlock]
    simp only
    rw [sumBlock_eq, sumBlocks_eq blocks, length_words]
    simp only
    have hwanted : wanted len (l + 4 * min 128 (wanted len l)) = wanted len l - 128 := by
      rw [wanted, wanted]
      omega
    rw [hwanted, Nat.mul_succ, Nat.add_comm, words_add, List.take_append, length_words, List.sum_append,
      add_assoc]
    rfl

/-! ### What is executed -/

/-- The words that begin within so many bytes. -/
def requested (mem : Dram) (base : UInt32) (length : ℕ) : List UInt32 :=
  words mem base ((length + 3) / 4)

theorem execMem_eq {first second : Dram} {base : UInt32} {len : UInt16} {checksum : UInt32} :
    execMem first second base len checksum =
      if (requested first base len.toNat).sum = checksum then
        some (words second base (128 * (len.toNat / 512 + 1)))
      else none := by
  have hsum : sumBlocks first len.toNat (len.toNat / 512 + 1) base 0 0 =
      (requested first base len.toNat).sum := by
    rw [sumBlocks_eq, take_words (by rw [wanted]; omega), zero_add]
    rfl
  rw [execMem, hsum]
  simp only [copyBlocks_eq, ne_eq, ite_not]

end Fpga
