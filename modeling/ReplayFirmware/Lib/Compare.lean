import Mathlib.Data.List.Lex
import Mathlib.Data.Prod.Lex
import Mathlib.Tactic.Common

/-! Three-way comparison: an integer that is negative, zero or positive as the first argument comes
    before, with or after the second one.

    A comparison that looks at one thing after the other is one of pairs or of lists, in their
    lexicographic order. -/

namespace Compare

variable {κ μ : Type*} [LinearOrder κ] [LinearOrder μ]

/-- `v` is the result of comparing `a` with `b`. -/
structure Compares (v : ℤ) (a b : κ) : Prop where
  lt : v < 0 ↔ a < b
  eq : v = 0 ↔ a = b

theorem Compares.gt {v : ℤ} {a b : κ} (h : Compares v a b) : 0 < v ↔ b < a := by
  constructor
  · intro hv
    rcases lt_trichotomy a b with hab | hab | hab
    · have := h.lt.mpr hab
      omega
    · have := h.eq.mpr hab
      omega
    · exact hab
  · intro hba
    rcases lt_trichotomy v 0 with hv | hv | hv
    · exact absurd (h.lt.mp hv) (lt_asymm hba)
    · exact absurd (h.eq.mp hv).symm (ne_of_lt hba)
    · exact hv

theorem Compares.le {v : ℤ} {a b : κ} (h : Compares v a b) : v ≤ 0 ↔ a ≤ b := by
  rw [← not_lt, ← not_lt, h.gt]

theorem compares_of_lt {v : ℤ} {a b : κ} (hv : v < 0) (hab : a < b) : Compares v a b :=
  ⟨⟨fun _ => hab, fun _ => hv⟩, ⟨fun h => by omega, fun h => absurd h (ne_of_lt hab)⟩⟩

theorem compares_of_gt {v : ℤ} {a b : κ} (hv : 0 < v) (hba : b < a) : Compares v a b :=
  ⟨⟨fun h => by omega, fun h => absurd h (lt_asymm hba)⟩,
    ⟨fun h => by omega, fun h => absurd h (ne_of_gt hba)⟩⟩

theorem compares_refl (a : κ) : Compares 0 a a :=
  ⟨⟨fun h => absurd h (lt_irrefl _), fun h => absurd h (lt_irrefl _)⟩, ⟨fun _ => rfl, fun _ => rfl⟩⟩

/-- The other way around in the dual order. -/
theorem Compares.neg {v : ℤ} {a b : κ} (h : Compares v a b) :
    Compares (-v) (OrderDual.toDual a) (OrderDual.toDual b) := by
  refine ⟨?_, ?_⟩
  · rw [OrderDual.toDual_lt_toDual, ← h.gt]
    omega
  · rw [OrderDual.toDual_inj, ← h.eq]
    omega

theorem compares_sub (m n : ℕ) : Compares ((m : ℤ) - n) m n :=
  ⟨by omega, by omega⟩

theorem compares_add_sub (k m n : ℕ) : Compares ((m : ℤ) - n) (k + m) (k + n) :=
  ⟨by omega, by omega⟩

/-- First one thing, then another. -/
theorem Compares.lex {v w : ℤ} {a b : κ} {c d : μ} (h : Compares v a b) (h' : a = b → Compares w c d) :
    Compares (if v = 0 then w else v) (toLex (a, c)) (toLex (b, d)) := by
  by_cases hv : v = 0
  · obtain rfl := h.eq.mp hv
    rw [if_pos hv]
    refine ⟨?_, ?_⟩
    · rw [(h' rfl).lt, Prod.Lex.toLex_lt_toLex]
      simp only [lt_irrefl, true_and, false_or]
    · rw [(h' rfl).eq, toLex_inj, Prod.mk.injEq]
      simp only [true_and]
  · have hab : a ≠ b := fun hab => hv (h.eq.mpr hab)
    rw [if_neg hv]
    refine ⟨?_, ?_⟩
    · rw [h.lt, Prod.Lex.toLex_lt_toLex]
      simp only [hab, false_and, or_false]
    · rw [toLex_inj, Prod.mk.injEq]
      exact ⟨fun h0 => absurd h0 hv, fun h0 => absurd h0.1 hab⟩

/-- First the heads, then the tails. -/
theorem Compares.cons {v w : ℤ} {a b : κ} {s t : List κ} (h : Compares v a b)
    (h' : a = b → Compares w s t) : Compares (if v = 0 then w else v) (a :: s) (b :: t) := by
  by_cases hv : v = 0
  · obtain rfl := h.eq.mp hv
    rw [if_pos hv]
    refine ⟨?_, ?_⟩
    · rw [(h' rfl).lt, List.cons_lt_cons_iff]
      simp only [lt_irrefl, true_and, false_or]
    · rw [(h' rfl).eq, List.cons.injEq]
      simp only [true_and]
  · have hab : a ≠ b := fun hab => hv (h.eq.mpr hab)
    rw [if_neg hv]
    refine ⟨?_, ?_⟩
    · rw [h.lt, List.cons_lt_cons_iff]
      simp only [hab, false_and, or_false]
    · rw [List.cons.injEq]
      exact ⟨fun h0 => absurd h0 hv, fun h0 => absurd h0.1 hab⟩

theorem Compares.cons_of_ne {v : ℤ} {a b : κ} {s t : List κ} (h : Compares v a b) (hv : v ≠ 0) :
    Compares v (a :: s) (b :: t) := by
  have h' := h.cons (s := s) (t := t) (w := 0) fun hab => absurd (h.eq.mpr hab) hv
  rw [if_neg hv] at h'
  exact h'

/-- Where the first things are the same, the second ones decide. -/
theorem Compares.lex_same {w : ℤ} {c d : μ} (h : Compares w c d) (a : κ) :
    Compares w (toLex (a, c)) (toLex (a, d)) := by
  have h' := (compares_refl a).lex fun _ => h
  rw [if_pos rfl] at h'
  exact h'

theorem compares_lex_of_lt {v : ℤ} {a b : κ} {c d : μ} (hv : v < 0) (hab : a < b) :
    Compares v (toLex (a, c)) (toLex (b, d)) :=
  compares_of_lt hv (Prod.Lex.toLex_lt_toLex.mpr (Or.inl hab))

theorem compares_lex_of_gt {v : ℤ} {a b : κ} {c d : μ} (hv : 0 < v) (hba : b < a) :
    Compares v (toLex (a, c)) (toLex (b, d)) :=
  compares_of_gt hv (Prod.Lex.toLex_lt_toLex.mpr (Or.inl hba))

end Compare
