import Mathlib.Data.Nat.Notation
import Mathlib.Tactic.Common

/-! Blocks addressed by cylinder, head and sector.

    A disk of `heads` heads and `sectors` sectors to a track numbers its blocks sector by sector, head
    by head, cylinder by cylinder; sectors count from 1. `block` and `ofBlock` go back and forth
    between a legal address and the number of its block, and `next` is the address of the block that
    follows. -/

namespace Chs

structure Address where
  cylinder : ℕ
  head : ℕ
  sector : ℕ
  deriving DecidableEq, Repr

/-- The number of the block at an address. -/
def Address.block (heads sectors : ℕ) (a : Address) : ℕ :=
  (a.cylinder * heads + a.head) * sectors + (a.sector - 1)

/-- An address the disk has, as long as its cylinder does. -/
structure Address.Legal (heads sectors : ℕ) (a : Address) : Prop where
  head : a.head < heads
  sector_pos : 0 < a.sector
  sector_le : a.sector ≤ sectors

/-- The address of a block. -/
def ofBlock (heads sectors b : ℕ) : Address :=
  ⟨b / sectors / heads, b / sectors % heads, b % sectors + 1⟩

/-- The address of the block behind. -/
def Address.next (heads sectors : ℕ) (a : Address) : Address :=
  if a.sector = sectors then
    if a.head + 1 = heads then ⟨a.cylinder + 1, 0, 1⟩ else ⟨a.cylinder, a.head + 1, 1⟩
  else ⟨a.cylinder, a.head, a.sector + 1⟩

section
variable {heads sectors : ℕ}

/-- A number in two digits has these digits. -/
theorem mul_add_div_mod {m n r : ℕ} (h : r < m) : (n * m + r) / m = n ∧ (n * m + r) % m = r := by
  rw [Nat.mul_comm]
  refine ⟨?_, ?_⟩
  · rw [Nat.mul_add_div (by omega), Nat.div_eq_of_lt h, Nat.add_zero]
  · rw [Nat.mul_add_mod, Nat.mod_eq_of_lt h]

theorem ofBlock_legal (hh : 0 < heads) (hs : 0 < sectors) (b : ℕ) :
    (ofBlock heads sectors b).Legal heads sectors :=
  ⟨Nat.mod_lt _ hh, Nat.succ_pos _, Nat.mod_lt b hs⟩

@[simp] theorem block_ofBlock (b : ℕ) : (ofBlock heads sectors b).block heads sectors = b := by
  show (b / sectors / heads * heads + b / sectors % heads) * sectors + b % sectors = b
  rw [Nat.mul_comm (b / sectors / heads), Nat.div_add_mod, Nat.mul_comm, Nat.div_add_mod]

/-- A block has one legal address. -/
theorem Address.Legal.ofBlock_block {a : Address} (h : a.Legal heads sectors) :
    ofBlock heads sectors (a.block heads sectors) = a := by
  obtain ⟨c, hd, s⟩ := a
  obtain ⟨hhead, hpos, hle⟩ := h
  simp only at hhead hpos hle
  obtain ⟨hdiv, hmod⟩ := mul_add_div_mod (n := c * heads + hd) (show s - 1 < sectors by omega)
  obtain ⟨hcyl, hrem⟩ := mul_add_div_mod (n := c) hhead
  rw [ofBlock, Address.block, hdiv, hmod, hcyl, hrem, Nat.sub_add_cancel hpos]

theorem Address.Legal.next {a : Address} (h : a.Legal heads sectors) :
    (a.next heads sectors).Legal heads sectors := by
  obtain ⟨hhead, hpos, hle⟩ := h
  unfold Address.next
  split
  · split
    · exact ⟨Nat.zero_lt_of_lt hhead, Nat.one_pos, Nat.le_trans hpos hle⟩
    · exact ⟨by show a.head + 1 < heads; omega, Nat.one_pos, Nat.le_trans hpos hle⟩
  · exact ⟨hhead, Nat.succ_pos _, by show a.sector + 1 ≤ sectors; omega⟩

/-- The next address is that of the next block. -/
theorem Address.Legal.block_next {a : Address} (h : a.Legal heads sectors) :
    (a.next heads sectors).block heads sectors = a.block heads sectors + 1 := by
  obtain ⟨c, hd, s⟩ := a
  obtain ⟨hhead, hpos, hle⟩ := h
  simp only at hhead hpos hle
  unfold Address.next Address.block
  simp only
  split
  · next hlast =>
    subst hlast
    split
    · next htop =>
      -- the last head of the cylinder
      show ((c + 1) * heads + 0) * s + (1 - 1) = _
      rw [← htop, show (c + 1) * (hd + 1) + 0 = c * (hd + 1) + hd + 1 by rw [Nat.add_mul]; omega,
        Nat.add_mul]
      omega
    · show (c * heads + (hd + 1)) * s + (1 - 1) = _
      rw [← Nat.add_assoc, Nat.add_mul]
      omega
  · show (c * heads + hd) * sectors + (s + 1 - 1) = _
    omega

/-- The blocks of the first cylinders are the first blocks. -/
theorem Address.Legal.block_lt_iff {a : Address} (h : a.Legal heads sectors) (cylinders : ℕ) :
    a.block heads sectors < cylinders * heads * sectors ↔ a.cylinder < cylinders := by
  obtain ⟨hhead, hpos, hle⟩ := h
  have hs : 0 < sectors := by omega
  have hh : 0 < heads := by omega
  obtain ⟨hdiv, -⟩ := mul_add_div_mod (n := a.cylinder * heads + a.head)
    (show a.sector - 1 < sectors by omega)
  obtain ⟨hcyl, -⟩ := mul_add_div_mod (n := a.cylinder) hhead
  rw [← Nat.div_lt_iff_lt_mul hs, Address.block, hdiv, ← Nat.div_lt_iff_lt_mul hh, hcyl]

end

end Chs
