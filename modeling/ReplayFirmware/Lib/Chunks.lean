import Mathlib.Data.List.Flatten
import Mathlib.Tactic.Common

/-! Byte strings in chunks of one size: a string cut into chunks, and chunks put together. -/

namespace Chunks

variable {α : Type*}

theorem flatMap_range_add (f : ℕ → List α) (m n : ℕ) :
    (List.range (m + n)).flatMap f
      = (List.range m).flatMap f ++ (List.range n).flatMap fun k => f (m + k) := by
  rw [List.range_add, List.flatMap_append, List.flatMap_map]

/-- A string of whole chunks is its chunks put together. -/
theorem take_mul_eq (l : List α) (m : ℕ) : ∀ n,
    l.take (m * n) = (List.range n).flatMap fun k => (l.drop (m * k)).take m
  | 0 => by simp
  | n + 1 => by
    rw [flatMap_range_add _ n 1, ← take_mul_eq l m n, Nat.mul_succ, List.take_add]
    simp

/-- Chunks of one size put together are as long as they are together. -/
theorem length_flatMap_range {f : ℕ → List α} {m : ℕ} : ∀ {n : ℕ}, (∀ k, k < n → (f k).length = m) →
    ((List.range n).flatMap f).length = m * n
  | 0, _ => rfl
  | n + 1, h => by
    have ih := @length_flatMap_range f m n fun k hk => h k (Nat.lt_succ_of_lt hk)
    rw [flatMap_range_add f n 1, List.length_append, ih, Nat.mul_succ]
    simpa using h n (Nat.lt_succ_self n)

/-- Chunk `k` of chunks of one size put together. -/
theorem chunk_flatMap_range {f : ℕ → List α} {m n : ℕ} (h : ∀ k, k < n → (f k).length = m) {k : ℕ}
    (hk : k < n) : (((List.range n).flatMap f).drop (m * k)).take m = f k := by
  obtain ⟨j, rfl⟩ : ∃ j, n = k + (1 + j) := ⟨n - k - 1, by omega⟩
  rw [flatMap_range_add, List.drop_left' (length_flatMap_range fun i hi => h i (by omega)),
    flatMap_range_add]
  have hlen : (f k).length = m := h k hk
  simp [← hlen]

end Chunks
