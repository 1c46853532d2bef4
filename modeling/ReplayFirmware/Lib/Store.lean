import ReplayFirmware.Lib.Splice
import Mathlib.Logic.Function.Basic

/-! Stores of numbered elements, and the accesses that are made to them.

    An access reads a run of elements, or puts one in the place of what is there. Behind a list of
    accesses an element is what the last access that reached it put there, and a read delivers just
    that. Of several stores each is left with the accesses that were made to it. -/

namespace Store
open Splice

variable {κ α : Type*}

/-- A read of `n` elements from index `i` on, or a write of these from there on. -/
inductive Access (α : Type*) where
  | read (i n : ℕ)
  | write (i : ℕ) (bs : List α)

/-- The index that an access begins at. -/
def Access.start : Access α → ℕ
  | .read i _ => i
  | .write i _ => i

/-- How many elements it is about. -/
def Access.size : Access α → ℕ
  | .read _ n => n
  | .write _ bs => bs.length

/-- It lies inside a store of `N` elements. -/
def Access.Fits (N : ℕ) (a : Access α) : Prop := a.start + a.size ≤ N

/-- The first `m` elements of it. -/
def Access.cut (m : ℕ) : Access α → Access α
  | .read i n => .read i (min m n)
  | .write i bs => .write i (bs.take m)

/-- What it leaves behind. -/
def Access.after (d : List α) : Access α → List α
  | .read _ _ => d
  | .write i bs => splice d i bs

/-- What it delivers. -/
def Access.answer (d : List α) : Access α → List α
  | .read i n => (d.drop i).take n
  | .write _ _ => []

/-- What it puts at index `p`. -/
def Access.put (p : ℕ) : Access α → Option α
  | .read _ _ => none
  | .write i bs => if i ≤ p then bs[p - i]? else none

theorem Access.size_cut (m : ℕ) (a : Access α) : (a.cut m).size = min m a.size := by
  cases a with
  | read i n => rfl
  | write i bs => exact List.length_take

theorem Access.start_cut (m : ℕ) (a : Access α) : (a.cut m).start = a.start := by cases a <;> rfl

/-- All of it. -/
theorem Access.cut_size (a : Access α) : a.cut a.size = a := by
  cases a with
  | read i n => simp [Access.cut, Access.size]
  | write i bs => simp [Access.cut, Access.size]

/-- Nothing of it. -/
theorem Access.cut_zero (d : List α) (a : Access α) :
    (a.cut 0).after d = d ∧ (a.cut 0).answer d = [] := by
  cases a with
  | read i n => simp [Access.cut, Access.after, Access.answer]
  | write i bs => simp [Access.cut, Access.after, Access.answer]

theorem Access.Fits.cut {N : ℕ} {a : Access α} (h : a.Fits N) (m : ℕ) : (a.cut m).Fits N := by
  have hle : min m a.size ≤ a.size := Nat.min_le_right m a.size
  rw [Access.Fits] at h ⊢
  rw [Access.start_cut, Access.size_cut]
  omega

/-- An access inside a store leaves its size alone. -/
theorem Access.length_after {d : List α} {a : Access α} (h : a.Fits d.length) :
    (a.after d).length = d.length := by
  cases a with
  | read i n => rfl
  | write i bs => exact length_splice_of_le h

theorem Access.getElem?_after {d : List α} {a : Access α} (h : a.Fits d.length) (p : ℕ) :
    (a.after d)[p]? = (a.put p).or d[p]? := by
  cases a with
  | read i n => rfl
  | write i bs =>
    have hi : i ≤ d.length := Nat.le_of_add_right_le h
    simp only [Access.after, Access.put]
    by_cases hlow : i ≤ p
    · obtain ⟨k, rfl⟩ := Nat.exists_eq_add_of_le hlow
      rw [if_pos hlow, Nat.add_sub_cancel_left]
      by_cases hk : k < bs.length
      · rw [getElem?_splice_mid hi hk, List.getElem?_eq_getElem hk, Option.some_or]
      · have hnone : bs[k]? = none := List.getElem?_eq_none (by omega)
        rw [getElem?_splice_ge bs hi (by omega), hnone, Option.none_or]
    · rw [if_neg hlow, getElem?_splice_lt bs hi (by omega), Option.none_or]

/-! ### Runs -/

/-- What a list of accesses leaves behind. -/
def behind (d : List α) (as : List (Access α)) : List α := as.foldl Access.after d

/-- What the last of them that reaches index `p` puts there. -/
def lastPut (p : ℕ) (as : List (Access α)) : Option α := (as.filterMap (Access.put p)).getLast?

@[simp] theorem behind_nil (d : List α) : behind d [] = d := rfl

theorem behind_append (d : List α) (as bs : List (Access α)) :
    behind d (as ++ bs) = behind (behind d as) bs := List.foldl_append

theorem length_behind {d : List α} {as : List (Access α)} (h : ∀ a ∈ as, a.Fits d.length) :
    (behind d as).length = d.length := by
  induction as generalizing d with
  | nil => rfl
  | cons a as ih =>
    rw [List.forall_mem_cons] at h
    have hlen := Access.length_after h.1
    exact (ih (by rw [hlen]; exact h.2)).trans hlen

theorem lastPut_cons (p : ℕ) (a : Access α) (as : List (Access α)) :
    lastPut p (a :: as) = (lastPut p as).or (a.put p) := by
  rw [lastPut, lastPut, List.filterMap_cons]
  cases a.put p with
  | none => rw [Option.or_none]
  | some x =>
    rw [List.getLast?_cons]
    cases (as.filterMap (Access.put p)).getLast? <;> rfl

/-- Behind a run an element is what was put there last, or what was there before. -/
theorem getElem?_behind {d : List α} {as : List (Access α)} (h : ∀ a ∈ as, a.Fits d.length) (p : ℕ) :
    (behind d as)[p]? = (lastPut p as).or d[p]? := by
  induction as generalizing d with
  | nil => rfl
  | cons a as ih =>
    rw [List.forall_mem_cons] at h
    have hlen := Access.length_after h.1
    rw [lastPut_cons, Option.or_assoc, ← Access.getElem?_after h.1]
    exact ih (by rw [hlen]; exact h.2)

/-! ### Several stores -/

/-- The accesses that are made to store `k`. -/
def madeTo [DecidableEq κ] (k : κ) (as : List (κ × Access α)) : List (Access α) :=
  as.filterMap fun a => if a.1 = k then some a.2 else none

/-- What accesses to several stores leave in each of them. -/
def allBehind [DecidableEq κ] (s : κ → List α) (as : List (κ × Access α)) : κ → List α := fun k =>
  behind (s k) (madeTo k as)

/-- What each of them delivers. -/
def replies [DecidableEq κ] (s : κ → List α) : List (κ × Access α) → List (List α)
  | [] => []
  | a :: as => a.2.answer (s a.1) :: replies (Function.update s a.1 (a.2.after (s a.1))) as

section
variable [DecidableEq κ]

@[simp] theorem allBehind_nil (s : κ → List α) : allBehind s ([] : List (κ × Access α)) = s := rfl

theorem madeTo_append (k : κ) (as bs : List (κ × Access α)) :
    madeTo k (as ++ bs) = madeTo k as ++ madeTo k bs := List.filterMap_append

/-- Accesses to one store. -/
theorem madeTo_map (j k : κ) (as : List (Access α)) :
    madeTo j (as.map (Prod.mk k)) = if k = j then as else [] := by
  rw [madeTo, List.filterMap_map]
  by_cases hk : k = j
  · rw [if_pos hk]
    refine (List.filterMap_congr fun a _ => ?_).trans List.filterMap_some
    exact if_pos hk
  · rw [if_neg hk]
    exact List.filterMap_eq_nil_iff.mpr fun a _ => if_neg hk

theorem allBehind_append (s : κ → List α) (as bs : List (κ × Access α)) :
    allBehind s (as ++ bs) = allBehind (allBehind s as) bs := by
  funext k
  rw [allBehind, madeTo_append, behind_append]
  rfl

theorem allBehind_singleton (s : κ → List α) (k : κ) (a : Access α) :
    allBehind s [(k, a)] = Function.update s k (a.after (s k)) := by
  funext j
  by_cases hj : k = j
  · subst hj
    simp [allBehind, madeTo, behind]
  · rw [Function.update_of_ne (Ne.symm hj)]
    simp [allBehind, madeTo, hj]

theorem allBehind_cons (s : κ → List α) (k : κ) (a : Access α) (as : List (κ × Access α)) :
    allBehind s ((k, a) :: as) = allBehind (Function.update s k (a.after (s k))) as := by
  rw [← List.singleton_append, allBehind_append, allBehind_singleton]

theorem replies_cons (s : κ → List α) (k : κ) (a : Access α) (as : List (κ × Access α)) :
    replies s ((k, a) :: as)
      = a.answer (s k) :: replies (Function.update s k (a.after (s k))) as := rfl

theorem replies_append (s : κ → List α) (as bs : List (κ × Access α)) :
    replies s (as ++ bs) = replies s as ++ replies (allBehind s as) bs := by
  induction as generalizing s with
  | nil => rfl
  | cons a as ih =>
    obtain ⟨k, a⟩ := a
    rw [List.cons_append, replies_cons, ih, replies_cons, allBehind_cons, List.cons_append]

theorem length_replies (s : κ → List α) (as : List (κ × Access α)) :
    (replies s as).length = as.length := by
  induction as generalizing s with
  | nil => rfl
  | cons a as ih => exact congrArg (· + 1) (ih _)

/-- A read delivers what was put last in front of it, or what was there before. -/
theorem getElem?_replies {s : κ → List α} {as bs : List (κ × Access α)} {k : κ} {i n : ℕ}
    (h : ∀ a ∈ madeTo k as, a.Fits (s k).length) {j : ℕ} (hj : j < n) :
    ((replies s (as ++ (k, .read i n) :: bs))[as.length]?.bind (·[j]?))
      = (lastPut (i + j) (madeTo k as)).or (s k)[i + j]? := by
  have hlen := length_replies s as
  rw [replies_append, List.getElem?_append_right (by omega), hlen, Nat.sub_self, replies_cons,
    List.getElem?_cons_zero, Option.bind_some, Access.answer, List.getElem?_take_of_lt hj,
    List.getElem?_drop, allBehind, getElem?_behind h]

end

end Store
