import Mathlib.Data.List.Basic
import Mathlib.Algebra.Order.Ring.Nat

/-! Positions in a sequence of segments.

    A stream is cut into segments of known lengths. A position lies in one of them, or behind the
    last; where it lies can be found from any segment that starts at or before it. -/

namespace Segments
variable {α : Type*} (len : α → ℕ)

/-- The length of a sequence of segments. -/
def total (as : List α) : ℕ := (as.map len).sum

/-- The segment that holds a position, and the position in it. -/
def locate : List α → ℕ → Option (α × ℕ)
  | [], _ => none
  | a :: as, pos => if pos < len a then some (a, pos) else locate as (pos - len a)

@[simp] theorem total_nil : total len [] = 0 := rfl

@[simp] theorem total_cons (a : α) (as : List α) : total len (a :: as) = len a + total len as :=
  List.sum_cons

@[simp] theorem total_append (as bs : List α) : total len (as ++ bs) = total len as + total len bs := by
  rw [total, total, total, List.map_append, List.sum_append]

/-- A position behind some segments is looked for behind them. -/
theorem locate_append : ∀ (as bs : List α) {pos : ℕ}, total len as ≤ pos →
    locate len (as ++ bs) pos = locate len bs (pos - total len as)
  | [], _, _, _ => rfl
  | a :: as, bs, pos, h => by
    rw [total_cons] at h
    rw [List.cons_append, locate, if_neg (by omega), locate_append as bs (by omega), total_cons,
      Nat.sub_sub]

/-- The segment that holds a position. -/
theorem locate_split {as bs : List α} {a : α} {pos : ℕ} (h : total len as ≤ pos)
    (h' : pos < total len as + len a) :
    locate len (as ++ a :: bs) pos = some (a, pos - total len as) := by
  rw [locate_append len as _ h, locate, if_pos (by omega)]

/-- No segment holds a position behind the last. -/
theorem locate_behind {as : List α} {pos : ℕ} (h : total len as ≤ pos) : locate len as pos = none := by
  have := locate_append len as [] h
  rwa [List.append_nil] at this

end Segments
