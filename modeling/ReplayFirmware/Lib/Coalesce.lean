import ReplayFirmware.Lib.Circle
import Mathlib.Algebra.BigOperators.Group.Finset.Piecewise
import Mathlib.Algebra.Order.BigOperators.Group.Finset

/-! A circular list of blocks of memory, none of which touches another.

    A new block is linked in between its neighbours; a block is joined with the one behind it where the
    two touch. Linking and joining on both sides brings a list without touching blocks to one again. -/

namespace Coalesce
open Circle

/-- The starts of the blocks, what each points to, and their sizes. -/
structure Blocks where
  nodes : Finset ℕ
  next : ℕ → ℕ
  size : ℕ → ℕ

/-- Where a block ends. -/
def Blocks.stop (B : Blocks) (x : ℕ) : ℕ := x + B.size x

/-- Linked in a circle and disjoint; only the blocks of `T` may touch the block behind them. -/
structure Spaced (T : Finset ℕ) (B : Blocks) : Prop where
  linked : Linked B.nodes B.next
  apart : ∀ x ∈ B.nodes, ∀ y ∈ B.nodes, x < y → B.stop x ≤ y ∧ (B.stop x = y → x ∈ T)

/-- A piece of memory that no block overlaps. -/
def Clear (B : Blocks) (lo hi : ℕ) : Prop := ∀ x ∈ B.nodes, B.stop x ≤ lo ∨ hi ≤ x

/-- A byte of one of the blocks. -/
def Blocks.Has (B : Blocks) (a : ℕ) : Prop := ∃ x ∈ B.nodes, x ≤ a ∧ a < B.stop x

/-- The sizes of all blocks. -/
def Blocks.total (B : Blocks) : ℕ := ∑ x ∈ B.nodes, B.size x

/-- Block `b` is linked in behind `p`. -/
def Blocks.link (B : Blocks) (p b : ℕ) : Blocks :=
  { B with
    nodes := insert b B.nodes
    next := Function.update (Function.update B.next b (B.next p)) p b }

/-- Block `x` takes in the one behind it. -/
def Blocks.take (B : Blocks) (x : ℕ) : Blocks :=
  { nodes := B.nodes.erase (B.next x)
    next := Function.update B.next x (B.next (B.next x))
    size := Function.update B.size x (B.size x + B.size (B.next x)) }

/-- It does so if the two touch. -/
def Blocks.join (B : Blocks) (x : ℕ) : Blocks := if B.stop x = B.next x then B.take x else B

/-- The block behind `p` is taken out. -/
def Blocks.unlink (B : Blocks) (p : ℕ) : Blocks :=
  { B with
    nodes := B.nodes.erase (B.next p)
    next := Function.update B.next p (B.next (B.next p)) }

/-- Block `x` becomes smaller. -/
def Blocks.shrink (B : Blocks) (x n : ℕ) : Blocks := { B with size := Function.update B.size x n }

variable {B B' : Blocks} {T : Finset ℕ} {p b x : ℕ}

/-! ### What the nodes say is all there is -/

/-- The same nodes, with the same pointers and sizes. -/
structure Agree (B B' : Blocks) : Prop where
  nodes : B'.nodes = B.nodes
  next : ∀ x ∈ B.nodes, B'.next x = B.next x
  size : ∀ x ∈ B.nodes, B'.size x = B.size x

theorem Agree.stop (h : Agree B B') (hx : x ∈ B.nodes) : B'.stop x = B.stop x := by
  rw [Blocks.stop, Blocks.stop, h.size x hx]

theorem Spaced.congr (h : Spaced T B) (ha : Agree B B') : Spaced T B' := by
  refine ⟨fun x hx => ?_, fun x hx y hy hxy => ?_⟩
  · rw [ha.nodes] at hx ⊢
    rw [ha.next x hx]
    exact h.linked x hx
  · rw [ha.nodes] at hx hy
    rw [ha.stop hx]
    exact h.apart x hx y hy hxy

theorem Clear.congr {lo hi : ℕ} (h : Clear B lo hi) (ha : Agree B B') : Clear B' lo hi := by
  intro x hx
  rw [ha.nodes] at hx
  rw [ha.stop hx]
  exact h x hx

theorem Blocks.not_has {a : ℕ} : ¬B.Has a ↔ Clear B a (a + 1) := by
  refine ⟨fun h x hx => ?_, fun h ⟨x, hx, hle, hlt⟩ => ?_⟩
  · by_contra hf
    exact h ⟨x, hx, by omega, by omega⟩
  · have := h x hx
    omega

theorem Agree.has (h : Agree B B') (a : ℕ) : B'.Has a ↔ B.Has a := by
  unfold Blocks.Has
  rw [h.nodes]
  refine exists_congr fun x => and_congr_right fun hx => ?_
  rw [h.stop hx]

theorem Agree.total (h : Agree B B') : B'.total = B.total := by
  rw [Blocks.total, h.nodes]
  exact Finset.sum_congr rfl h.size

/-- A block that touches another points to it. -/
theorem Spaced.next_eq (h : Spaced T B) (hx : x ∈ B.nodes) (hpos : 0 < B.size x)
    (hstop : B.stop x ∈ B.nodes) : B.next x = B.stop x := by
  have hlt : x < B.stop x := Nat.lt_add_of_pos_right hpos
  refine (h.linked x hx).unique ⟨hstop, Or.inl ⟨hlt, fun y hy hxy => (h.apart x hx y hy hxy).1⟩⟩

/-- A piece that lies in the blocks lies in one of them. -/
theorem Spaced.has_piece {lo hi : ℕ} (h : Spaced ∅ B) (hlt : lo < hi)
    (hall : ∀ a, lo ≤ a → a < hi → B.Has a) : ∃ x ∈ B.nodes, x ≤ lo ∧ hi ≤ B.stop x := by
  obtain ⟨x, hx, hle, hin⟩ := hall lo le_rfl hlt
  refine ⟨x, hx, hle, Nat.le_of_not_lt fun hshort => ?_⟩
  -- the byte behind the block is in another, which would touch it
  obtain ⟨y, hy, hyle, hyin⟩ := hall (B.stop x) (Nat.le_of_lt hin) hshort
  rcases Nat.lt_trichotomy x y with hxy | rfl | hyx
  · obtain ⟨hstop, htouch⟩ := h.apart x hx y hy hxy
    exact Finset.notMem_empty x (htouch (Nat.le_antisymm hstop hyle))
  · exact Nat.lt_irrefl _ hyin
  · have hxstop : x ≤ B.stop x := Nat.le_add_right x _
    have := (h.apart y hy x hx hyx).1
    omega

/-! ### Linking -/

theorem Spaced.link (h : Spaced ∅ B) (hp : p ∈ B.nodes) (hb : Between p b (B.next p))
    (hclear : Clear B b (B.stop b)) (hpos : 0 < B.size b) : Spaced {p, b} (B.link p b) := by
  have hnew : b ∉ B.nodes := fun hmem => by
    have := hclear b hmem
    rw [Blocks.stop] at this
    omega
  refine ⟨h.linked.insert hp hb, fun x hx y hy hxy => ?_⟩
  show B.stop x ≤ y ∧ (B.stop x = y → x ∈ ({p, b} : Finset ℕ))
  rcases Finset.mem_insert.mp hx with rfl | hxS
  · -- the new block
    have hyS := Finset.mem_of_mem_insert_of_ne hy (ne_of_gt hxy)
    have hy' := hclear y hyS
    rw [Blocks.stop, Blocks.stop] at hy'
    refine ⟨by rw [Blocks.stop]; omega, fun _ => Finset.mem_insert_of_mem (Finset.mem_singleton_self x)⟩
  · rcases Finset.mem_insert.mp hy with rfl | hyS
    · have hx' := hclear x hxS
      rw [Blocks.stop, Blocks.stop] at hx'
      refine ⟨by rw [Blocks.stop]; omega, fun htouch => ?_⟩
      -- nothing lies between a block and what it touches
      have hbehind : Next (insert y B.nodes) x y := by
        refine ⟨Finset.mem_insert_self _ _, Or.inl ⟨hxy, fun z hz hxz => ?_⟩⟩
        rcases Finset.mem_insert.mp hz with rfl | hzS
        · exact le_refl z
        · rw [← htouch]
          exact (h.apart x hxS z hzS hxz).1
      have hpy : Next (insert y B.nodes) p y := (h.linked p hp).insert_before hb
      have hxp : x = p := hbehind.injective hx (Finset.mem_insert_of_mem hp) hpy
      exact Finset.mem_insert.mpr (Or.inl hxp)
    · obtain ⟨hle, htouch⟩ := h.apart x hxS y hyS hxy
      exact ⟨hle, fun heq => absurd (htouch heq) (Finset.notMem_empty x)⟩

theorem Blocks.total_link (hb : b ∉ B.nodes) : (B.link p b).total = B.size b + B.total :=
  Finset.sum_insert hb

theorem Clear.link {lo hi : ℕ} (h : Clear B lo hi) (hb : B.stop b ≤ lo ∨ hi ≤ b) :
    Clear (B.link p b) lo hi := by
  intro x hx
  rcases Finset.mem_insert.mp hx with rfl | hx
  · exact hb
  · exact h x hx

theorem Blocks.Has.link {a : ℕ} (h : B.Has a) : (B.link p b).Has a := by
  obtain ⟨x, hx, hle, hlt⟩ := h
  exact ⟨x, Finset.mem_insert_of_mem hx, hle, hlt⟩

theorem Blocks.has_new {a : ℕ} (hle : b ≤ a) (hlt : a < B.stop b) : (B.link p b).Has a :=
  ⟨b, Finset.mem_insert_self b B.nodes, hle, hlt⟩

/-- What the list gains by a block is in the block. -/
theorem Blocks.has_link {a : ℕ} (h : (B.link p b).Has a) : B.Has a ∨ (b ≤ a ∧ a < B.stop b) := by
  obtain ⟨x, hx, hle, hlt⟩ := h
  rcases Finset.mem_insert.mp hx with rfl | hx
  · exact .inr ⟨hle, hlt⟩
  · exact .inl ⟨x, hx, hle, hlt⟩

/-! ### Joining -/

theorem Spaced.join (h : Spaced T B) (hx : x ∈ B.nodes)
    (hT : B.stop x = B.next x → 0 < B.size x ∧ B.next x ∉ T) : Spaced (T.erase x) (B.join x) := by
  rw [Blocks.join]
  by_cases htouch : B.stop x = B.next x
  · rw [if_pos htouch]
    have hq := h.linked.mem hx
    obtain ⟨hpos, hq'⟩ := hT htouch
    have hxq : x < B.next x := by
      rw [← htouch]
      exact Nat.lt_add_of_pos_right hpos
    refine ⟨h.linked.erase hx (ne_of_gt hxq), fun y hy z hz hyz => ?_⟩
    obtain ⟨hyq, hyS⟩ := Finset.mem_erase.mp hy
    obtain ⟨hzq, hzS⟩ := Finset.mem_erase.mp hz
    have hold := h.apart y hyS z hzS hyz
    by_cases hyx : y = x
    · subst hyx
      -- what comes behind it comes behind the block that it takes in
      have hqz : B.next y < z := by omega
      have hold' := h.apart _ hq z hzS hqz
      have hstop : (B.take y).stop y = B.stop (B.next y) := by
        rw [Blocks.stop, Blocks.stop, Blocks.take]
        simp only [Function.update_self]
        rw [← htouch, Blocks.stop]
        omega
      rw [hstop]
      exact ⟨hold'.1, fun heq => absurd (hold'.2 heq) hq'⟩
    · have hstop : (B.take x).stop y = B.stop y := by
        rw [Blocks.stop, Blocks.stop, Blocks.take]
        simp only [Function.update_of_ne hyx]
      rw [hstop]
      exact ⟨hold.1, fun heq => Finset.mem_erase.mpr ⟨hyx, hold.2 heq⟩⟩
  · rw [if_neg htouch]
    refine ⟨h.linked, fun y hy z hz hyz => ?_⟩
    obtain ⟨hle, hmem⟩ := h.apart y hy z hz hyz
    refine ⟨hle, fun heq => Finset.mem_erase.mpr ⟨?_, hmem heq⟩⟩
    rintro rfl
    have hpos : 0 < B.size y := by
      rw [Blocks.stop] at heq
      omega
    exact htouch (h.next_eq hy hpos (by rw [heq]; exact hz)).symm

theorem Blocks.total_join (h : Linked B.nodes B.next) (hx : x ∈ B.nodes)
    (hpos : B.stop x = B.next x → 0 < B.size x) : (B.join x).total = B.total := by
  rw [Blocks.join]
  by_cases htouch : B.stop x = B.next x
  · have hne : B.next x ≠ x := by
      have := hpos htouch
      rw [← htouch, Blocks.stop]
      omega
    have hq := h.mem hx
    have hxq : x ∈ B.nodes.erase (B.next x) := Finset.mem_erase.mpr ⟨hne.symm, hx⟩
    rw [if_pos htouch, Blocks.total, Blocks.total, Blocks.take,
      Finset.sum_update_of_mem hxq, ← Finset.add_sum_erase _ _ hq, ← Finset.add_sum_erase _ _ hxq,
      Finset.sdiff_singleton_eq_erase]
    omega
  · rw [if_neg htouch]

theorem Clear.join {lo hi : ℕ} (h : Clear B lo hi) (hx : x ∈ B.nodes) (hlink : Linked B.nodes B.next)
    (hlt : lo < hi) : Clear (B.join x) lo hi := by
  rw [Blocks.join]
  by_cases htouch : B.stop x = B.next x
  · rw [if_pos htouch]
    intro y hy
    obtain ⟨-, hyS⟩ := Finset.mem_erase.mp hy
    by_cases hyx : y = x
    · subst hyx
      have hy' := h y hyS
      have hq := h _ (hlink.mem hx)
      have hstop : (B.take y).stop y = B.stop (B.next y) := by
        rw [Blocks.stop, Blocks.stop, Blocks.take]
        simp only [Function.update_self]
        rw [← htouch, Blocks.stop]
        omega
      rw [hstop]
      omega
    · have hstop : (B.take x).stop y = B.stop y := by
        rw [Blocks.stop, Blocks.stop, Blocks.take]
        simp only [Function.update_of_ne hyx]
      rw [hstop]
      exact h y hyS
  · rw [if_neg htouch]
    exact h

/-- Joining neither gains nor loses a byte. -/
theorem Blocks.has_join {a : ℕ} (hx : x ∈ B.nodes) (hlink : Linked B.nodes B.next)
    (hpos : B.stop x = B.next x → 0 < B.size x) : (B.join x).Has a ↔ B.Has a := by
  refine ⟨fun h => ?_, fun h => ?_⟩
  · by_contra hno
    exact (Blocks.not_has.mpr ((Blocks.not_has.mp hno).join hx hlink (Nat.lt_succ_self a))) h
  rw [Blocks.join]
  by_cases htouch : B.stop x = B.next x
  · have hne : x ≠ B.next x := by
      have := hpos htouch
      rw [← htouch, Blocks.stop]
      omega
    have hstop : (B.take x).stop x = B.stop (B.next x) := by
      rw [Blocks.stop, Blocks.stop, Blocks.take]
      simp only [Function.update_self]
      rw [← htouch, Blocks.stop]
      omega
    have hmem : x ∈ (B.take x).nodes := Finset.mem_erase.mpr ⟨hne, hx⟩
    rw [if_pos htouch]
    obtain ⟨y, hy, hle, hlt⟩ := h
    by_cases hyq : y = B.next x
    · subst hyq
      refine ⟨x, hmem, ?_, by rw [hstop]; exact hlt⟩
      rw [← htouch, Blocks.stop] at hle
      omega
    by_cases hyx : y = x
    · subst hyx
      refine ⟨y, hmem, hle, ?_⟩
      rw [hstop, Blocks.stop, ← htouch]
      omega
    · refine ⟨y, Finset.mem_erase.mpr ⟨hyq, hy⟩, hle, ?_⟩
      rw [Blocks.stop, Blocks.take]
      simp only [Function.update_of_ne hyx]
      exact hlt
  · rw [if_neg htouch]
    exact h

theorem Blocks.join_nodes : (B.join x).nodes ⊆ B.nodes := by
  rw [Blocks.join]
  split
  · exact Finset.erase_subset _ _
  · exact Finset.Subset.refl _

/-! ### Taking out -/

theorem Spaced.unlink (h : Spaced T B) (hp : p ∈ B.nodes) (hne : B.next p ≠ p) :
    Spaced T (B.unlink p) :=
  ⟨h.linked.erase hp hne, fun x hx y hy => h.apart x (Finset.mem_of_mem_erase hx) y
    (Finset.mem_of_mem_erase hy)⟩

theorem Blocks.total_unlink (hq : B.next p ∈ B.nodes) :
    B.size (B.next p) + (B.unlink p).total = B.total :=
  Finset.add_sum_erase _ _ hq

theorem Clear.unlink {lo hi : ℕ} (h : Clear B lo hi) : Clear (B.unlink p) lo hi :=
  fun x hx => h x (Finset.mem_of_mem_erase hx)

/-- The place of a block that is taken out is clear. -/
theorem Spaced.clear_unlink (h : Spaced T B) (hq : B.next p ∈ B.nodes) :
    Clear (B.unlink p) (B.next p) (B.stop (B.next p)) := by
  intro x hx
  obtain ⟨hne, hxS⟩ := Finset.mem_erase.mp hx
  rcases Nat.lt_or_gt_of_ne hne with hlt | hgt
  · exact Or.inl (h.apart x hxS _ hq hlt).1
  · exact Or.inr (h.apart _ hq x hxS hgt).1

theorem Blocks.stop_shrink {n y : ℕ} (hn : n ≤ B.size x) : (B.shrink x n).stop y ≤ B.stop y := by
  rw [Blocks.stop, Blocks.stop, Blocks.shrink]
  by_cases hyx : y = x
  · subst hyx
    simp only [Function.update_self]
    omega
  · simp only [Function.update_of_ne hyx]
    exact le_refl _

theorem Spaced.shrink {n : ℕ} (h : Spaced ∅ B) (hn : n ≤ B.size x) : Spaced ∅ (B.shrink x n) := by
  refine ⟨h.linked, fun y hy z hz hyz => ?_⟩
  obtain ⟨hle, htouch⟩ := h.apart y hy z hz hyz
  have hlt : B.stop y < z := lt_of_le_of_ne hle fun heq => Finset.notMem_empty y (htouch heq)
  have hstop := lt_of_le_of_lt (B.stop_shrink (y := y) hn) hlt
  exact ⟨le_of_lt hstop, fun heq => absurd heq (ne_of_lt hstop)⟩

theorem Blocks.total_shrink {n : ℕ} (hx : x ∈ B.nodes) :
    (B.shrink x n).total + B.size x = n + B.total := by
  rw [Blocks.total, Blocks.total, Blocks.shrink, Finset.sum_update_of_mem hx,
    ← Finset.add_sum_erase _ _ hx, Finset.sdiff_singleton_eq_erase]
  omega

theorem Clear.shrink {lo hi n : ℕ} (h : Clear B lo hi) (hn : n ≤ B.size x) :
    Clear (B.shrink x n) lo hi := by
  intro y hy
  rcases h y hy with hle | hle
  · exact Or.inl ((B.stop_shrink hn).trans hle)
  · exact Or.inr hle

/-- The tail that a block gives up is clear. -/
theorem Spaced.clear_shrink {n : ℕ} (h : Spaced T B) (hx : x ∈ B.nodes) (hn : n < B.size x) :
    Clear (B.shrink x n) (x + n) (B.stop x) := by
  intro y hy
  rcases lt_trichotomy y x with hlt | rfl | hgt
  · have hle := (h.apart y hy x hx hlt).1
    have := B.stop_shrink (x := x) (y := y) (le_of_lt hn)
    exact Or.inl (by omega)
  · refine Or.inl (le_of_eq ?_)
    rw [Blocks.stop, Blocks.shrink]
    simp only [Function.update_self]
  · exact Or.inr (h.apart x hx y hy hgt).1

end Coalesce
