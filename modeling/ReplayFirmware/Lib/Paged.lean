import Mathlib.Data.List.Basic
import Mathlib.Data.Nat.Notation
import Mathlib.Logic.Function.Basic
import Mathlib.Tactic.Common

/-! Cutting a stream into pages through a one-page buffer.

    Elements are put into the buffer one after another; when it is full the page goes out and the
    buffer starts again. `Paged size buf out img` says that `img` has come in so far, `out` has gone
    out, and the buffer holds the rest. Overwriting a buffer cell (`Paged.poke`) changes the stream
    at the place that cell stands for, if it is in use. -/

variable {α : Type*}

/-- What has gone out and what the buffer holds make up the stream. -/
def Paged (size : ℕ) (buf : ℕ → α) (out img : List α) : Prop :=
  out ++ (List.range (img.length % size)).map buf = img

namespace Paged

variable {size : ℕ} {buf : ℕ → α} {out img : List α}

theorem nil (size : ℕ) (buf : ℕ → α) : Paged size buf [] [] := by
  simp [Paged]

/-- What has gone out are whole pages. -/
theorem length_out (h : Paged size buf out img) :
    out.length = img.length - img.length % size := by
  have := congrArg List.length h
  simp only [List.length_append, List.length_map, List.length_range] at this
  omega

/-- On a page boundary everything has gone out. -/
theorem out_eq (h : Paged size buf out img) (h0 : img.length % size = 0) : out = img := by
  rw [Paged, h0] at h
  simpa using h

theorem range_map_update (buf : ℕ → α) (p : ℕ) (b : α) :
    (List.range (p + 1)).map (Function.update buf p b) = (List.range p).map buf ++ [b] := by
  rw [List.range_succ, List.map_append, List.map_singleton, Function.update_self]
  congr 1
  refine List.map_congr_left fun i hi => Function.update_of_ne ?_ _ _
  have := List.mem_range.mp hi
  omega

/-- One more element, with room left in the buffer. -/
theorem push (h : Paged size buf out img) (b : α) (hlt : img.length % size + 1 < size) :
    Paged size (Function.update buf (img.length % size) b) out (img ++ [b]) := by
  have hmod : (img ++ [b]).length % size = img.length % size + 1 := by
    have hd := Nat.mod_add_div img.length size
    rw [List.length_append, List.length_singleton,
      show img.length + 1 = img.length % size + 1 + size * (img.length / size) by omega,
      Nat.add_mul_mod_self_left, Nat.mod_eq_of_lt hlt]
  rw [Paged, hmod, range_map_update, ← List.append_assoc, h]

/-- One more element, and the page is full. -/
theorem push_full (h : Paged size buf out img) (b : α) (hfull : img.length % size + 1 = size)
    (buf' : ℕ → α) :
    Paged size buf'
      (out ++ (List.range size).map (Function.update buf (img.length % size) b)) (img ++ [b]) := by
  have hmod : (img ++ [b]).length % size = 0 := by
    have hd := Nat.mod_add_div img.length size
    rw [List.length_append, List.length_singleton,
      show img.length + 1 = size * (img.length / size + 1) by rw [Nat.mul_add]; omega]
    exact Nat.mul_mod_right _ _
  have hpage := range_map_update buf (img.length % size) b
  rw [hfull] at hpage
  rw [Paged, hmod, hpage, ← List.append_assoc, h]
  simp

/-- A cell of the buffer is overwritten. -/
theorem poke (h : Paged size buf out img) (i : ℕ) (v : α) :
    Paged size (Function.update buf i v) out
      (img.set (img.length - img.length % size + i) v) := by
  have hcells : (List.range (img.length % size)).map (Function.update buf i v)
      = ((List.range (img.length % size)).map buf).set i v := by
    apply List.ext_getElem?
    intro k
    rw [List.getElem?_set, List.getElem?_map, List.getElem?_map]
    by_cases hk : k < img.length % size
    · rw [List.getElem?_range hk]
      by_cases hik : i = k
      · subst hik; simp [hk]
      · simp [hik, Function.update_of_ne (Ne.symm hik)]
    · have hnone : (List.range (img.length % size))[k]? = none := by simp; omega
      rw [hnone]
      by_cases hik : i = k
      · subst hik; simp [hk]
      · simp [hik]
  rw [Paged, List.length_set, hcells, ← h.length_out]
  conv_rhs => rw [← h]
  rw [List.set_append_right _ _ (by omega), Nat.add_sub_cancel_left]

end Paged
