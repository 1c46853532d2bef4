import Mathlib.Data.List.Rotate
import Mathlib.Data.List.Range

/-! A counter that goes around.

    From any of its values on, `n` steps of a counter modulo `n` come to each value once. -/

namespace RoundRobin

/-- The values of a counter modulo `n` from `c` on, `k` of them. -/
def turns (n : ℕ) : ℕ → ℕ → List ℕ
  | _, 0 => []
  | c, k + 1 => c :: turns n ((c + 1) % n) k

@[simp] theorem length_turns (n : ℕ) : ∀ c k : ℕ, (turns n c k).length = k
  | _, 0 => rfl
  | c, k + 1 => by rw [turns, List.length_cons, length_turns n _ k]

theorem getElem_turns {n : ℕ} : ∀ {c k i : ℕ}, c < n → ∀ h : i < (turns n c k).length,
    (turns n c k)[i] = (c + i) % n
  | c, 0, _, _, h => absurd h (Nat.not_lt_zero _)
  | c, k + 1, 0, hc, _ => (Nat.mod_eq_of_lt hc).symm
  | c, k + 1, i + 1, hc, h => by
    have hrest := getElem_turns (k := k) (i := i) (Nat.mod_lt (c + 1) (Nat.zero_lt_of_lt hc))
      (by rw [length_turns] at h ⊢; omega)
    simp only [turns, List.getElem_cons_succ, hrest, Nat.mod_add_mod]
    congr 1
    omega

/-- A whole round. -/
theorem turns_perm {n c : ℕ} (hc : c < n) : (turns n c n).Perm (List.range n) := by
  have hrotate : turns n c n = (List.range n).rotate c := by
    refine List.ext_getElem (by simp) fun i hi _ => ?_
    rw [getElem_turns hc hi, List.getElem_rotate, List.getElem_range, List.length_range, Nat.add_comm]
  rw [hrotate]
  exact List.rotate_perm _ _

/-- Any `n` values in a row. -/
theorem window_perm {n c k i : ℕ} (hc : c < n) (hi : i + n ≤ k) :
    (((turns n c k).drop i).take n).Perm (List.range n) := by
  have hpos := Nat.zero_lt_of_lt hc
  have hwindow : ((turns n c k).drop i).take n = turns n ((c + i) % n) n := by
    refine List.ext_getElem (by simp only [List.length_take, List.length_drop, length_turns]; omega)
      fun j hj _ => ?_
    rw [List.getElem_take, List.getElem_drop, getElem_turns hc,
      getElem_turns (Nat.mod_lt _ hpos), Nat.mod_add_mod, Nat.add_assoc]
  rw [hwindow]
  exact turns_perm (Nat.mod_lt _ hpos)

end RoundRobin
