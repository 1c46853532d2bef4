import ReplayFirmware.Lib.Splice

/-! A place that is written over and over from its front, and what is left of what it held.

    Each write lays a list over the front of the place. An element is then that of the last list that
    reaches it. A text that ends with a terminator is still read at its index exactly when all of its
    elements, and the terminator, are those that it was written with. -/

namespace Overlay
open Splice

variable {α : Type*}

/-- `d` with each of these lists laid over its front, one after the other. -/
def overlays (d : List α) (bss : List (List α)) : List α := bss.foldl (splice · 0) d

@[simp] theorem overlays_nil (d : List α) : overlays d [] = d := rfl

theorem overlays_cons (d bs : List α) (bss : List (List α)) :
    overlays d (bs :: bss) = overlays (splice d 0 bs) bss := rfl

theorem overlays_concat (d bs : List α) (bss : List (List α)) :
    overlays d (bss ++ [bs]) = splice (overlays d bss) 0 bs := by
  rw [overlays, List.foldl_append]
  rfl

theorem length_overlays : ∀ {bss : List (List α)} {d : List α}, (∀ bs ∈ bss, bs.length ≤ d.length) →
    (overlays d bss).length = d.length
  | [], _, _ => rfl
  | bs :: bss, d, h => by
    rw [List.forall_mem_cons] at h
    have hlen : (splice d 0 bs).length = d.length := length_splice_of_le (by omega)
    rw [overlays_cons, length_overlays (fun bs' hbs' => hlen ▸ h.2 bs' hbs'), hlen]

/-- What the last of these lists that reaches an index has there. -/
def lastAt (bss : List (List α)) (p : ℕ) : Option α := (bss.filterMap (·[p]?)).getLast?

theorem lastAt_cons (bs : List α) (bss : List (List α)) (p : ℕ) :
    lastAt (bs :: bss) p = (lastAt bss p).or bs[p]? := by
  rw [lastAt, lastAt, List.filterMap_cons]
  cases bs[p]? with
  | none => rw [Option.or_none]
  | some a =>
    rw [List.getLast?_cons]
    cases (bss.filterMap (·[p]?)).getLast? <;> rfl

theorem getElem?_splice_zero (d bs : List α) (p : ℕ) : (splice d 0 bs)[p]? = (bs[p]?).or d[p]? := by
  by_cases hp : p < bs.length
  · have hmid := getElem?_splice_mid (Nat.zero_le d.length) hp
    rw [Nat.zero_add] at hmid
    rw [hmid, List.getElem?_eq_getElem hp]
    rfl
  · have hnone : bs[p]? = none := List.getElem?_eq_none (by omega)
    rw [getElem?_splice_ge bs (Nat.zero_le _) (by omega), hnone, Option.none_or]

/-- An element is that of the last list that reaches it, or what was there before. -/
theorem getElem?_overlays : ∀ (bss : List (List α)) (d : List α) (p : ℕ),
    (overlays d bss)[p]? = (lastAt bss p).or d[p]?
  | [], _, _ => rfl
  | bs :: bss, d, p => by
    rw [overlays_cons, getElem?_overlays bss, getElem?_splice_zero, lastAt_cons, Option.or_assoc]

section
variable [DecidableEq α] {z : α}

/-- The elements in front of the terminator `z`. -/
def textOf (z : α) (d : List α) : List α := d.takeWhile (· ≠ z)

theorem notMem_textOf : ∀ d : List α, z ∉ textOf z d
  | [] => List.not_mem_nil
  | a :: d => by
    rw [textOf, List.takeWhile_cons]
    split
    · next ha =>
      have hne : a ≠ z := by simpa using ha
      exact fun hz => (List.mem_cons.mp hz).elim (fun he => hne he.symm) (notMem_textOf d)
    · exact List.not_mem_nil

/-- A text is read exactly when it is there, up to its terminator. -/
theorem textOf_eq_iff : ∀ {s d : List α}, z ∉ s → s.length < d.length →
    (textOf z d = s ↔ ∀ i < s.length + 1, d[i]? = (s ++ [z])[i]?)
  | _, [], _, hlen => absurd hlen (Nat.not_lt_zero _)
  | [], a :: d, _, _ => by
    rw [textOf, List.takeWhile_cons]
    by_cases ha : a = z
    · simp [ha]
    · simp [ha]
  | b :: s, a :: d, hz, hlen => by
    rw [List.mem_cons, not_or] at hz
    have ih : d.takeWhile (· ≠ z) = s ↔ _ := textOf_eq_iff hz.2 (Nat.lt_of_succ_lt_succ hlen)
    rw [textOf, List.takeWhile_cons]
    constructor
    · intro heq
      split at heq
      · obtain ⟨rfl, hs⟩ := List.cons.inj heq
        intro i hi
        cases i with
        | zero => rfl
        | succ i => exact ih.mp hs i (Nat.lt_of_succ_lt_succ hi)
      · cases heq
    · intro hall
      have hhead : a = b := Option.some.inj (hall 0 (Nat.succ_pos _))
      have hs := ih.mpr fun i hi => hall (i + 1) (Nat.succ_lt_succ hi)
      have hne : a ≠ z := fun he => hz.1 (he.symm.trans hhead)
      rw [if_pos (by simpa using hne), hs, hhead]

/-- A text that was written at an index is still read there, behind other writes, exactly when the last
    of them that reach it wrote what it was written with. -/
theorem textOf_overlays_iff {d s : List α} {p : ℕ} {bss : List (List α)} (hz : z ∉ s)
    (hlen : p + s.length < d.length) (hbss : ∀ bs ∈ bss, bs.length ≤ d.length)
    (hs : ∀ i < s.length + 1, d[p + i]? = (s ++ [z])[i]?) :
    textOf z ((overlays d bss).drop p) = s ↔
      ∀ i < s.length + 1, ∀ a ∈ lastAt bss (p + i), (s ++ [z])[i]? = some a := by
  rw [textOf_eq_iff hz (by rw [List.length_drop, length_overlays hbss]; omega)]
  refine forall_congr' fun i => forall_congr' fun hi => ?_
  rw [List.getElem?_drop, getElem?_overlays, hs i hi]
  cases lastAt bss (p + i) with
  | none => simp
  | some a => simp [eq_comm]

end

end Overlay
