import ReplayFirmware.Lib.Compare
import Mathlib.Data.List.Sort

/-! A short sorted list that keeps the nearest of what is offered to it.

    Whatever the order of the offers, it ends with the first `n` elements of the sorted whole. -/

namespace Nearest
open Compare

variable {α κ : Type*} [LinearOrder κ] (key : α → κ)

/-- Strictly sorted by its keys. -/
def Sorted (l : List α) : Prop := l.Pairwise fun a b => key a < key b

/-- An element is put in its place, and what is over falls off the end. -/
def keep (n : ℕ) (l : List α) (x : α) : List α :=
  (l.orderedInsert (fun a b => key a ≤ key b) x).take n

variable {key}

theorem sorted_le {l : List α} (h : Sorted key l) : l.Pairwise fun a b => key a ≤ key b :=
  h.imp le_of_lt

/-- Two sorted lists of the same elements are the same. -/
theorem Sorted.eq_of_perm {l l' : List α} (h : Sorted key l) (h' : Sorted key l') (hp : l.Perm l') :
    l = l' :=
  hp.eq_of_pairwise (fun _ _ _ _ hab hba => absurd hab (lt_asymm hba)) h h'

theorem Sorted.insert {l : List α} (h : Sorted key l) {x : α} (hx : ∀ y ∈ l, key y ≠ key x) :
    Sorted key (l.orderedInsert (fun a b => key a ≤ key b) x) := by
  have hle : (l.orderedInsert (fun a b => key a ≤ key b) x).Pairwise fun a b => key a ≤ key b := by
    have : IsTrans α fun a b => key a ≤ key b := ⟨fun _ _ _ => le_trans⟩
    have : Std.Total fun a b : α => key a ≤ key b := ⟨fun _ _ => le_total _ _⟩
    exact (sorted_le h).orderedInsert x l
  have hne : (l.orderedInsert (fun a b => key a ≤ key b) x).Pairwise fun a b => key a ≠ key b := by
    refine (List.perm_orderedInsert _ x l).symm.pairwise (l := x :: l) ?_ (fun h => h.symm)
    exact List.pairwise_cons.mpr ⟨fun y hy => (hx y hy).symm, h.imp ne_of_lt⟩
  exact hle.imp₂ (fun _ _ => lt_of_le_of_ne) hne

/-- A list without two elements of one key can be sorted. -/
theorem exists_sorted : ∀ {l : List α}, (l.Pairwise fun a b => key a ≠ key b) →
    ∃ whole, Sorted key whole ∧ l.Perm whole
  | [], _ => ⟨[], List.Pairwise.nil, List.Perm.refl _⟩
  | x :: l, h => by
    obtain ⟨hx, hl⟩ := List.pairwise_cons.mp h
    obtain ⟨whole, hw, hp⟩ := exists_sorted hl
    refine ⟨_, hw.insert fun y hy => (hx y (hp.mem_iff.mpr hy)).symm, ?_⟩
    exact (hp.cons x).trans (List.perm_orderedInsert _ x whole).symm

/-- What falls off never comes back. -/
theorem keep_take (n : ℕ) (x : α) : ∀ l : List α, keep key n (l.take n) x = keep key n l x := by
  intro l
  rw [keep, keep]
  induction l generalizing n with
  | nil => rw [List.take_nil]
  | cons y l ih =>
    cases n with
    | zero => rw [List.take_zero, List.take_zero]
    | succ n =>
      rw [List.take_succ_cons]
      by_cases hxy : key x ≤ key y
      · rw [List.orderedInsert_cons, List.orderedInsert_cons, if_pos hxy, if_pos hxy,
          List.take_succ_cons, List.take_succ_cons]
        cases n with
        | zero => rfl
        | succ n =>
          rw [List.take_succ_cons, List.take_succ_cons, List.take_take, Nat.min_eq_left (by omega)]
      · rw [List.orderedInsert_cons, List.orderedInsert_cons, if_neg hxy, if_neg hxy,
          List.take_succ_cons, List.take_succ_cons, ih]

/-- The nearest of a sorted list, whatever order its elements come in. -/
theorem foldl_keep (n : ℕ) : ∀ (xs : List α) {l whole : List α}, Sorted key l → Sorted key whole →
    (xs ++ l).Perm whole → xs.foldl (keep key n) (l.take n) = whole.take n
  | [], l, whole, hl, hw, hp => by
    rw [List.foldl_nil, hl.eq_of_perm hw hp]
  | x :: xs, l, whole, hl, hw, hp => by
    have hx : ∀ y ∈ l, key y ≠ key x := by
      intro y hy
      have hne : (x :: (xs ++ l)).Pairwise fun a b => key a ≠ key b :=
        hp.symm.pairwise (hw.imp ne_of_lt) (fun h => h.symm)
      exact ((List.pairwise_cons.mp hne).1 y (List.mem_append_right _ hy)).symm
    have hins := List.perm_orderedInsert (fun a b => key a ≤ key b) x l
    rw [List.foldl_cons, keep_take]
    exact foldl_keep n xs (hl.insert hx) hw
      (((hins.append_left xs).trans List.perm_middle).trans hp)

/-! ### Above and below an element -/

variable (key) in
/-- The elements above one. -/
def above (x : α) (l : List α) : List α := l.filter fun y => decide (key x < key y)

variable (key) in
/-- The elements below one. -/
def below (x : α) (l : List α) : List α := l.filter fun y => decide (key y < key x)

theorem above_cons {x y : α} (l : List α) (h : key x < key y) :
    above key x (y :: l) = y :: above key x l := List.filter_cons_of_pos (decide_eq_true h)

theorem above_cons_skip {x y : α} (l : List α) (h : ¬ key x < key y) :
    above key x (y :: l) = above key x l :=
  List.filter_cons_of_neg (by rw [decide_eq_true_eq]; exact h)

theorem below_cons {x y : α} (l : List α) (h : key y < key x) :
    below key x (y :: l) = y :: below key x l := List.filter_cons_of_pos (decide_eq_true h)

theorem below_cons_skip {x y : α} (l : List α) (h : ¬ key y < key x) :
    below key x (y :: l) = below key x l :=
  List.filter_cons_of_neg (by rw [decide_eq_true_eq]; exact h)

/-- The elements behind one of a sorted list are those above it. -/
theorem Sorted.above {a b : List α} {x : α} (h : Sorted key (a ++ x :: b)) :
    above key x (a ++ x :: b) = b := by
  obtain ⟨-, hb, hab⟩ := List.pairwise_append.mp h
  have hxb := (List.pairwise_cons.mp hb).1
  have hbelow : a.filter (fun y => decide (key x < key y)) = [] :=
    List.filter_eq_nil_iff.mpr fun y hy => by
      rw [decide_eq_true_eq]
      exact lt_asymm (hab y hy x List.mem_cons_self)
  have habove : b.filter (fun y => decide (key x < key y)) = b :=
    List.filter_eq_self.mpr fun y hy => decide_eq_true (hxb y hy)
  rw [Nearest.above, List.filter_append,
    List.filter_cons_of_neg (by rw [decide_eq_true_eq]; exact lt_irrefl _), hbelow, habove,
    List.nil_append]

/-- Those before it are those below it. -/
theorem Sorted.below {a b : List α} {x : α} (h : Sorted key (a ++ x :: b)) :
    below key x (a ++ x :: b) = a := by
  obtain ⟨-, hb, hab⟩ := List.pairwise_append.mp h
  have hxb := (List.pairwise_cons.mp hb).1
  have habove : b.filter (fun y => decide (key y < key x)) = [] :=
    List.filter_eq_nil_iff.mpr fun y hy => by
      rw [decide_eq_true_eq]
      exact lt_asymm (hxb y hy)
  have hbelow : a.filter (fun y => decide (key y < key x)) = a :=
    List.filter_eq_self.mpr fun y hy => decide_eq_true (hab y hy x List.mem_cons_self)
  rw [Nearest.below, List.filter_append,
    List.filter_cons_of_neg (by rw [decide_eq_true_eq]; exact lt_irrefl _), hbelow, habove,
    List.append_nil]

end Nearest
