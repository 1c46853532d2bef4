import Mathlib.Data.Nat.Notation
import Mathlib.Tactic.Common

/-! Fields of a word, each of them the bits of a mask, that are written one after the other: the bits of
    the mask are cleared, and the value is put in.

    Fields that are apart, with values inside their masks, do not disturb each other: each reads as it
    was written, whatever the order, and what is outside of all of them stays. -/

namespace Masks

variable {w : ℕ}

/-! ### One field -/

/-- A mask, and the value that goes there. -/
structure Field (w : ℕ) where
  mask : BitVec w
  value : BitVec w

/-- The value is inside the mask. -/
def Field.Inside (f : Field w) : Prop := f.mask &&& f.value = f.value

/-- The field is written to a word. -/
def Field.put (f : Field w) (x : BitVec w) : BitVec w := x &&& ~~~f.mask ||| f.value

variable {f : Field w} {x b : BitVec w}

theorem Field.getElem_put {i : ℕ} (hi : i < w) :
    (f.put x)[i] = (x[i] && !f.mask[i] || f.value[i]) := by
  simp [Field.put]

theorem getElem_of_and {a d : BitVec w} (h : a &&& b = d) {i : ℕ} (hi : i < w) :
    (a[i] && b[i]) = d[i] := by
  rw [← h, BitVec.getElem_and]

/-- Bits that are apart from the mask stay. -/
theorem Field.Inside.put_and (hf : f.Inside) (hb : f.mask &&& b = 0) : f.put x &&& b = x &&& b := by
  ext i hi
  have hbit : (f.mask[i] && b[i]) = false := (getElem_of_and hb hi).trans (BitVec.getElem_zero hi)
  have hval := getElem_of_and hf hi
  rw [BitVec.getElem_and, BitVec.getElem_and, Field.getElem_put]
  revert hbit hval
  cases f.mask[i] <;> cases b[i] <;> cases f.value[i] <;> simp

/-- The field reads as it was written. -/
theorem Field.Inside.put_mask (hf : f.Inside) : f.put x &&& f.mask = f.value := by
  ext i hi
  have hval := getElem_of_and hf hi
  rw [BitVec.getElem_and, Field.getElem_put]
  revert hval
  cases f.mask[i] <;> simp

/-- A field that is written already. -/
theorem Field.put_eq (h : x &&& f.mask = f.value) : f.put x = x := by
  ext i hi
  have hval := getElem_of_and h hi
  rw [Field.getElem_put, ← hval]
  cases f.mask[i] <;> simp

/-! ### Several fields -/

/-- The fields in their order. -/
def putAll (fs : List (Field w)) (x : BitVec w) : BitVec w := fs.foldl (fun x f => f.put x) x

theorem putAll_and : ∀ {fs : List (Field w)} {x : BitVec w},
    (∀ f ∈ fs, f.Inside ∧ f.mask &&& b = 0) → putAll fs x &&& b = x &&& b
  | [], _, _ => rfl
  | f :: fs, x, h => by
    rw [List.forall_mem_cons] at h
    exact (putAll_and h.2).trans (h.1.1.put_and h.1.2)

/-- Every field reads as it was written. -/
theorem putAll_mask : ∀ {fs : List (Field w)} {x : BitVec w}, (∀ f ∈ fs, f.Inside) →
    fs.Pairwise (fun f g => g.mask &&& f.mask = 0) → ∀ f ∈ fs, putAll fs x &&& f.mask = f.value
  | [], _, _, _, _, hf => absurd hf List.not_mem_nil
  | g :: fs, x, hin, hapart, f, hf => by
    rw [List.forall_mem_cons] at hin
    rw [List.pairwise_cons] at hapart
    rcases List.mem_cons.mp hf with rfl | hf
    · have hrest : putAll fs (f.put x) &&& f.mask = f.put x &&& f.mask :=
        putAll_and fun g hg => ⟨hin.2 g hg, hapart.1 g hg⟩
      exact hrest.trans hin.1.put_mask
    · exact putAll_mask hin.2 hapart.2 f hf

theorem putAll_eq : ∀ {fs : List (Field w)} {x : BitVec w},
    (∀ f ∈ fs, x &&& f.mask = f.value) → putAll fs x = x
  | [], _, _ => rfl
  | f :: fs, x, h => by
    rw [List.forall_mem_cons] at h
    rw [putAll, List.foldl_cons, Field.put_eq h.1]
    exact putAll_eq h.2

/-- Fields that are written again. -/
theorem putAll_putAll {fs : List (Field w)} (hin : ∀ f ∈ fs, f.Inside)
    (hapart : fs.Pairwise fun f g => g.mask &&& f.mask = 0) :
    putAll fs (putAll fs x) = putAll fs x :=
  putAll_eq (putAll_mask hin hapart)

end Masks
