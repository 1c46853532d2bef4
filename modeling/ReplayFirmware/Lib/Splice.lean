import Mathlib.Data.List.Basic
import Mathlib.Data.Nat.Notation
import Mathlib.Tactic.Common

/-! Overwriting a run of a list in place.

    `splice d i bs` puts `bs` over the elements of `d` from index `i` on; past the end of `d` it
    appends. Two splices that adjoin are one, and a splice inside the list keeps its length and
    every element outside the run, which is what a frame property of a write needs. -/

namespace Splice

variable {α : Type*}

/-- `d` with `bs` over its elements from index `i` on. -/
def splice (d : List α) (i : ℕ) (bs : List α) : List α :=
  d.take i ++ bs ++ d.drop (i + bs.length)

@[simp] theorem splice_nil (d : List α) (i : ℕ) : splice d i [] = d := by
  simp [splice]

/-- The length after a splice that starts inside the list (or at its end). -/
theorem length_splice {d : List α} {i : ℕ} (bs : List α) (hi : i ≤ d.length) :
    (splice d i bs).length = max d.length (i + bs.length) := by
  simp only [splice, List.length_append, List.length_take, List.length_drop]
  omega

theorem length_splice_of_le {d : List α} {i : ℕ} {bs : List α} (h : i + bs.length ≤ d.length) :
    (splice d i bs).length = d.length := by
  rw [length_splice bs (by omega)]; omega

/-- Two splices that adjoin are one. -/
theorem splice_splice {d : List α} {i : ℕ} (as bs : List α) (hi : i ≤ d.length) :
    splice (splice d i as) (i + as.length) bs = splice d i (as ++ bs) := by
  have hlen : (d.take i ++ as).length = i + as.length := by
    rw [List.length_append, List.length_take, Nat.min_eq_left hi]
  have htake : (splice d i as).take (i + as.length) = d.take i ++ as := by
    rw [splice, ← hlen, List.take_left']
    rfl
  have hdrop : (splice d i as).drop (i + as.length + bs.length)
      = d.drop (i + (as ++ bs).length) := by
    rw [splice, ← hlen, ← List.drop_drop, List.drop_left, List.drop_drop, hlen,
      List.length_append, Nat.add_assoc]
  rw [splice, htake, hdrop, splice]
  simp only [List.append_assoc]

/-- Nothing before the run changes. -/
theorem getElem?_splice_lt {d : List α} {i k : ℕ} (bs : List α) (hi : i ≤ d.length) (hk : k < i) :
    (splice d i bs)[k]? = d[k]? := by
  rw [splice, List.append_assoc, List.getElem?_append_left (by rw [List.length_take]; omega), List.getElem?_take]
  simp [hk]

/-- Nothing after the run changes. -/
theorem getElem?_splice_ge {d : List α} {i k : ℕ} (bs : List α) (hi : i ≤ d.length)
    (hk : i + bs.length ≤ k) : (splice d i bs)[k]? = d[k]? := by
  have hlen : (d.take i ++ bs).length = i + bs.length := by
    rw [List.length_append, List.length_take, Nat.min_eq_left hi]
  rw [splice, List.getElem?_append_right (by omega), hlen, List.getElem?_drop]
  congr 1
  omega

/-- Inside the run stands what was written. -/
theorem getElem?_splice_mid {d : List α} {i k : ℕ} {bs : List α} (hi : i ≤ d.length)
    (hk : k < bs.length) : (splice d i bs)[i + k]? = bs[k]? := by
  rw [splice, List.append_assoc, List.getElem?_append_right (by rw [List.length_take]; omega),
    List.getElem?_append_left (by rw [List.length_take]; omega)]
  congr 1
  simp
  omega

/-- A part of the list in front of the run, -/
theorem take_drop_splice_lt {d : List α} {i j m : ℕ} (bs : List α) (hi : i ≤ d.length) (h : j + m ≤ i) :
    ((splice d i bs).drop j).take m = (d.drop j).take m := by
  refine List.ext_getElem? fun k => ?_
  by_cases hk : k < m
  · rw [List.getElem?_take_of_lt hk, List.getElem?_take_of_lt hk, List.getElem?_drop, List.getElem?_drop,
      getElem?_splice_lt bs hi (by omega)]
  · rw [List.getElem?_take_eq_none (by omega), List.getElem?_take_eq_none (by omega)]

/-- behind it, -/
theorem take_drop_splice_ge {d bs : List α} {i j : ℕ} (hi : i ≤ d.length) (h : i + bs.length ≤ j) (m : ℕ) :
    ((splice d i bs).drop j).take m = (d.drop j).take m := by
  refine List.ext_getElem? fun k => ?_
  by_cases hk : k < m
  · rw [List.getElem?_take_of_lt hk, List.getElem?_take_of_lt hk, List.getElem?_drop, List.getElem?_drop,
      getElem?_splice_ge bs hi (by omega)]
  · rw [List.getElem?_take_eq_none (by omega), List.getElem?_take_eq_none (by omega)]

/-- and inside it. -/
theorem take_drop_splice_mid {d bs : List α} {i j m : ℕ} (hi : i ≤ d.length) (h : j + m ≤ bs.length) :
    ((splice d i bs).drop (i + j)).take m = (bs.drop j).take m := by
  refine List.ext_getElem? fun k => ?_
  by_cases hk : k < m
  · rw [List.getElem?_take_of_lt hk, List.getElem?_take_of_lt hk, List.getElem?_drop, List.getElem?_drop,
      Nat.add_assoc, getElem?_splice_mid hi (by omega)]
  · rw [List.getElem?_take_eq_none (by omega), List.getElem?_take_eq_none (by omega)]

/-- A list that is made from its indices, with a run of it made another way. -/
theorem splice_map_range {f g h : ℕ → α} {N i n : ℕ} (hn : i + n ≤ N)
    (hmid : ∀ k, k < n → g (i + k) = h k) (hrest : ∀ b, b < N → b < i ∨ i + n ≤ b → g b = f b) :
    splice ((List.range N).map f) i ((List.range n).map h) = (List.range N).map g := by
  have hlen : ((List.range n).map h).length = n := by rw [List.length_map, List.length_range]
  have hN : ((List.range N).map f).length = N := by rw [List.length_map, List.length_range]
  refine List.ext_getElem? fun b => ?_
  by_cases hb : b < N
  · have hget : ((List.range N).map g)[b]? = some (g b) := by simp [hb]
    rw [hget]
    by_cases hin : i ≤ b ∧ b < i + n
    · obtain ⟨k, rfl⟩ := Nat.exists_eq_add_of_le hin.1
      rw [getElem?_splice_mid (by omega) (by omega), hmid k (by omega)]
      have hk : k < n := by omega
      simp [hk]
    · rw [hrest b hb (by omega)]
      have hold : ((List.range N).map f)[b]? = some (f b) := by simp [hb]
      rw [← hold]
      by_cases hlow : b < i
      · exact getElem?_splice_lt _ (by omega) hlow
      · exact getElem?_splice_ge _ (by omega) (by omega)
  · have hlen' : (splice ((List.range N).map f) i ((List.range n).map h)).length
        = ((List.range N).map f).length := length_splice_of_le (by omega)
    rw [List.getElem?_eq_none (by omega), List.getElem?_eq_none (by
      rw [List.length_map, List.length_range]
      omega)]

end Splice
