import ReplayFirmware.FileIO.FCh

/-! The memory card, block by block.

    A command names its first block in a 32-bit argument: a block number on a high capacity card, a
    byte address on any other. A transfer goes block after block from there and ends at the first
    block that fails. -/

namespace FileIO

abbrev Block := Vector UInt8 512

/-- The card: its kind, its capacity in bytes, what its blocks hold, and which of them fail. -/
structure Card where
  sdhc : Bool
  capacity : UInt64
  block : ℕ → Block
  fails : ℕ → Bool

/-- The block a command argument addresses. -/
def Card.address (card : Card) (sector : UInt32) : ℕ :=
  if card.sdhc then sector.toNat else (sector <<< 9).toNat / 512

/-- How many blocks a command can address. -/
def Card.limit (card : Card) : ℕ := if card.sdhc then 2 ^ 32 else 2 ^ 23

/-- A multiple block read: the blocks that were sent, and whether it went to its end. -/
def readBlocks (card : Card) : ℕ → ℕ → List Block × Bool
  | 0, _ => ([], true)
  | n + 1, a =>
    if card.fails a then ([], false)
    else
      let r := readBlocks card n (a + 1)
      (card.block a :: r.1, r.2)

def Card_ReadM (card : Card) (sector : UInt32) (numSectors : ℕ) : List Block × Bool :=
  readBlocks card numSectors (card.address sector)

/-- A multiple block write: the card after it, and whether it went to its end. -/
def writeBlocks : List Block → ℕ → Card → Card × Bool
  | [], _, card => (card, true)
  | b :: bs, a, card =>
    if card.fails a then (card, false)
    else writeBlocks bs (a + 1) { card with block := Function.update card.block a b }

def Card_WriteM (card : Card) (sector : UInt32) (bs : List Block) : Card × Bool :=
  writeBlocks bs (card.address sector) card

/-- Block numbers a command can address are addressed. -/
theorem Card.address_eq {card : Card} {b : ℕ} (h : b < card.limit) :
    card.address (UInt32.ofNat b) = b := by
  unfold Card.address Card.limit at *
  cases hs : card.sdhc <;> simp only [hs, if_true, Bool.false_eq_true, if_false] at h ⊢
  · rw [UInt32.toNat_shiftLeft, UInt32.toNat_ofNat', show (9 : UInt32).toNat % 32 = 9 by decide,
      Nat.shiftLeft_eq]
    omega
  · rw [UInt32.toNat_ofNat']
    omega

/-- A read of good blocks sends all of them. -/
theorem readBlocks_eq {card : Card} : ∀ {n a : ℕ}, (∀ k, k < n → card.fails (a + k) = false) →
    (readBlocks card n a).1 = (List.range n).map fun k => card.block (a + k)
  | 0, _, _ => rfl
  | n + 1, a, h => by
    have h0 : card.fails a = false := h 0 (Nat.succ_pos n)
    have ih := @readBlocks_eq card n (a + 1) fun k hk => by
      rw [Nat.add_right_comm, Nat.add_assoc]
      exact h (k + 1) (Nat.succ_lt_succ hk)
    rw [readBlocks, if_neg (by rw [h0]; decide), List.range_succ_eq_map, List.map_cons, List.map_map]
    simp only
    rw [ih]
    refine congrArg _ (List.map_congr_left fun k _ => ?_)
    show card.block (a + 1 + k) = card.block (a + (k + 1))
    rw [Nat.add_right_comm, Nat.add_assoc]

/-- A write keeps the card and every block it does not address. -/
theorem writeBlocks_frame : ∀ (bs : List Block) (a : ℕ) (card : Card),
    (writeBlocks bs a card).1.sdhc = card.sdhc ∧
      (writeBlocks bs a card).1.capacity = card.capacity ∧
      (writeBlocks bs a card).1.fails = card.fails ∧
      ∀ b, b < a ∨ a + bs.length ≤ b → (writeBlocks bs a card).1.block b = card.block b
  | [], _, _ => ⟨rfl, rfl, rfl, fun _ _ => rfl⟩
  | x :: bs, a, card => by
    rw [writeBlocks]
    split
    · exact ⟨rfl, rfl, rfl, fun _ _ => rfl⟩
    · obtain ⟨h1, h2, h3, h4⟩ :=
        writeBlocks_frame bs (a + 1) { card with block := Function.update card.block a x }
      refine ⟨h1, h2, h3, fun b hb => ?_⟩
      rw [List.length_cons] at hb
      have hne : b ≠ a := by omega
      rw [h4 b (by omega)]
      show Function.update card.block a x b = card.block b
      rw [Function.update_of_ne hne]

end FileIO
