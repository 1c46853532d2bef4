import Mathlib.Data.List.Basic
import Mathlib.Data.Nat.Notation
import Mathlib.Tactic.Common

/-! Folding an operation over the first `n` values of a function, as a counted loop does.

    `rangeFold op e f n` is `op (.. (op (op e (f 0)) (f 1)) ..) (f (n - 1))`. A loop splits where its
    counter does, maps through a homomorphism, and for an associative and commutative operation two
    loops of one length run side by side. -/

namespace RangeFold

variable {α β : Type*} (op : α → α → α)

/-- The loop `c = e; for (j = 0; j < n; ++j) c = op(c, f(j));`. -/
def rangeFold (e : α) (f : ℕ → α) (n : ℕ) : α := (List.range n).foldl (fun c j => op c (f j)) e

@[simp] theorem rangeFold_zero (e : α) (f : ℕ → α) : rangeFold op e f 0 = e := rfl

theorem rangeFold_succ (e : α) (f : ℕ → α) (n : ℕ) :
    rangeFold op e f (n + 1) = op (rangeFold op e f n) (f n) := by
  rw [rangeFold, List.range_succ, List.foldl_append]
  rfl

/-- The loop split at `m`. -/
theorem rangeFold_add (e : α) (f : ℕ → α) (m : ℕ) : ∀ n,
    rangeFold op e f (m + n) = rangeFold op (rangeFold op e f m) (fun j => f (m + j)) n
  | 0 => rfl
  | n + 1 => by
    rw [← Nat.add_assoc, rangeFold_succ, rangeFold_succ, rangeFold_add e f m n]

theorem rangeFold_congr {f g : ℕ → α} (e : α) : ∀ {n}, (∀ j, j < n → f j = g j) →
    rangeFold op e f n = rangeFold op e g n
  | 0, _ => rfl
  | n + 1, h => by
    rw [rangeFold_succ, rangeFold_succ, h n (Nat.lt_succ_self n),
      rangeFold_congr e fun j hj => h j (Nat.lt_succ_of_lt hj)]

/-- A homomorphism goes into the loop. -/
theorem rangeFold_hom {op' : β → β → β} (g : α → β) (hg : ∀ a b, g (op a b) = op' (g a) (g b))
    (e : α) (f : ℕ → α) : ∀ n,
    g (rangeFold op e f n) = rangeFold op' (g e) (fun j => g (f j)) n
  | 0 => rfl
  | n + 1 => by rw [rangeFold_succ, rangeFold_succ, hg, rangeFold_hom g hg e f n]

variable [Std.Associative op]

/-- A starting value can be left outside. -/
theorem rangeFold_init (c e : α) (he : ∀ a, op a e = a) (f : ℕ → α) : ∀ n,
    rangeFold op c f n = op c (rangeFold op e f n)
  | 0 => (he c).symm
  | n + 1 => by
    have hassoc : ∀ a b c, op (op a b) c = op a (op b c) := Std.Associative.assoc
    rw [rangeFold_succ, rangeFold_succ, rangeFold_init c e he f n, hassoc]

variable [Std.Commutative op]

/-- Two loops side by side. -/
theorem rangeFold_op (e : α) (he : ∀ a, op a e = a) (f g : ℕ → α) : ∀ n,
    rangeFold op e (fun j => op (f j) (g j)) n = op (rangeFold op e f n) (rangeFold op e g n)
  | 0 => (he e).symm
  | n + 1 => by
    have hswap : ∀ a b c d : α, op (op a b) (op c d) = op (op a c) (op b d) := by
      have hassoc : ∀ a b c, op (op a b) c = op a (op b c) := Std.Associative.assoc
      have hcomm : ∀ a b, op a b = op b a := Std.Commutative.comm
      intro a b c d
      rw [hassoc, hassoc, ← hassoc b c d, hcomm b c, hassoc]
    rw [rangeFold_succ, rangeFold_succ, rangeFold_succ, rangeFold_op e he f g n, hswap]

end RangeFold
