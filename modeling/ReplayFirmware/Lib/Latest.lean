import Mathlib.Data.List.Destutter
import Mathlib.Data.Nat.Notation
import Mathlib.Tactic.Common

/-! A ring of cells that keeps the latest of what is put into it, the newest first.

    With a relation that tells when something is news after the newest, what is put in is first thinned
    out: nothing in the ring follows what it is no news after. -/

namespace Latest

variable {α : Type*} {n : ℕ}

/-- The cells, and the place of the newest of the `n` that are in use. -/
structure Cells (α : Type*) where
  cell : ℕ → α
  newest : ℕ

/-- The place of what came `j` before the newest. -/
def place (n : ℕ) (r : Cells α) (j : ℕ) : ℕ :=
  if j ≤ r.newest then r.newest - j else r.newest + n - j

/-- What the ring holds, the newest first. -/
def latest (n : ℕ) (r : Cells α) : List α := (List.range n).map fun j => r.cell (place n r j)

/-- The place behind the newest. -/
def next (n : ℕ) (r : Cells α) : ℕ := if n ≤ r.newest + 1 then 0 else r.newest + 1

def push (n : ℕ) (r : Cells α) (x : α) : Cells α :=
  ⟨fun i => if i = next n r then x else r.cell i, next n r⟩

/-- It is put in if it is news. -/
def post (R : α → α → Prop) [DecidableRel R] (n : ℕ) (r : Cells α) (x : α) : Cells α :=
  if R (r.cell r.newest) x then push n r x else r

@[simp] theorem length_latest (r : Cells α) : (latest n r).length = n := by simp [latest]

theorem latest_eq_cons (r : Cells α) (hn : 0 < n) :
    latest n r = r.cell r.newest :: (latest n r).tail := by
  obtain ⟨n, rfl⟩ := Nat.exists_eq_add_of_lt hn
  rw [latest, List.range_succ_eq_map, List.map_cons, List.tail_cons]
  rfl

theorem newest_push (r : Cells α) (x : α) (hn : 0 < n) : (push n r x).newest < n := by
  change next n r < n
  rw [next]
  split <;> omega

/-- What is put in is the newest, and the oldest is gone. -/
theorem latest_push {r : Cells α} (x : α) (hr : r.newest < n) :
    latest n (push n r x) = x :: (latest n r).take (n - 1) := by
  refine List.ext_getElem ?_ fun j hj hj' => ?_
  · rw [length_latest, List.length_cons, List.length_take, length_latest]
    omega
  · rw [length_latest] at hj
    simp only [latest, List.getElem_map, List.getElem_range]
    cases j with
    | zero =>
      rw [List.getElem_cons_zero]
      exact if_pos rfl
    | succ j =>
      have hplace : place n (push n r x) (j + 1) = place n r j ∧ place n r j ≠ next n r := by
        simp only [place, push, next]
        split_ifs <;> omega
      rw [List.getElem_cons_succ, List.getElem_take, List.getElem_map, List.getElem_range, hplace.1]
      exact if_neg hplace.2

/-- More than `n` are not kept. -/
theorem take_append_take (as bs : List α) {k : ℕ} (h : n ≤ as.length + k) :
    (as ++ bs.take k).take n = (as ++ bs).take n := by
  rw [List.take_append, List.take_append, List.take_take, Nat.min_eq_left (by omega)]

/-- The ring holds the latest of what is news. -/
theorem latest_posts (R : α → α → Prop) [DecidableRel R] : ∀ {xs : List α} {r : Cells α},
    r.newest < n → latest n (xs.foldl (post R n) r) =
      ((xs.destutter' R (r.cell r.newest)).reverse ++ (latest n r).tail).take n
  | [], r, hr => by
    have hcons := latest_eq_cons r (Nat.zero_lt_of_lt hr)
    rw [List.destutter'_nil, List.reverse_singleton, List.singleton_append, ← hcons, List.take_of_length_le]
    · rfl
    · rw [length_latest]
  | x :: xs, r, hr => by
    have hcons := latest_eq_cons r (Nat.zero_lt_of_lt hr)
    rw [List.foldl_cons, List.destutter'_cons, post]
    by_cases hx : R (r.cell r.newest) x
    · rw [if_pos hx, if_pos hx, latest_posts R (newest_push r x (Nat.zero_lt_of_lt hr)),
        latest_push x hr, List.tail_cons, List.reverse_cons, List.append_assoc, List.singleton_append,
        ← hcons]
      have hnewest : (push n r x).cell (push n r x).newest = x := if_pos rfl
      have hpos := List.length_pos_iff.mpr (List.destutter'_ne_nil (l := xs) R (a := x))
      rw [hnewest]
      exact take_append_take _ _ (by rw [List.length_reverse]; omega)
    · rw [if_neg hx, if_neg hx]
      exact latest_posts R hr

end Latest
