import Mathlib.Data.Finset.Sort
import Mathlib.Data.List.Rotate
import Mathlib.Tactic.Common

/-! Circular lists in the order of their nodes.

    Every node points to the next one above it, and the last one to the first. So the nodes and their
    order say what the pointers are, and where a new node belongs: between the two that it lies
    between. -/

namespace Circle

variable {α : Type*} [LinearOrder α] {S : Finset α} {f : α → α} {p q b : α}

/-- `q` comes behind `p` in the circle. -/
def Next (S : Finset α) (p q : α) : Prop :=
  q ∈ S ∧ ((p < q ∧ ∀ x ∈ S, p < x → q ≤ x) ∨ (q ≤ p ∧ ∀ x ∈ S, q ≤ x ∧ x ≤ p))

/-- `b` lies between a node and the one behind it: between their values, or at the seam. -/
def Between (p b q : α) : Prop := (p < b ∧ b < q) ∨ (q ≤ p ∧ (p < b ∨ b < q))

/-- The nodes of `S` are linked in a circle, in their order. -/
def Linked (S : Finset α) (f : α → α) : Prop := ∀ p ∈ S, Next S p (f p)

theorem Next.unique {q' : α} (h : Next S p q) (h' : Next S p q') : q = q' := by
  grind [Next]

theorem Next.injective {p' : α} (hp : p ∈ S) (hp' : p' ∈ S) (h : Next S p q) (h' : Next S p' q) :
    p = p' := by
  grind [Next]

theorem Linked.mem (h : Linked S f) (hp : p ∈ S) : f p ∈ S := (h p hp).1

/-- A circle in which a node points to itself has no other. -/
theorem Next.alone {x : α} (h : Next S p p) (hx : x ∈ S) : x = p := by
  grind [Next]

/-! ### Walking around -/

/-- No node lies between a node and the next. -/
theorem Next.not_between {x : α} (h : Next S p q) (hx : x ∈ S) : ¬ Between p x q := by
  grind [Next, Between]

/-- One step further on the way from `s` one more node lies behind. -/
theorem Next.between_step {s x : α} (h : Next S p q) (hx : x ∈ S)
    (hs : Between s x q) : Between s x p ∨ x = p := by
  grind [Next, Between]

/-- All the way around, everything else does. -/
theorem between_self {s x : α} (hne : x ≠ s) : Between s x s := by
  grind [Between]

/-! ### A new node -/

theorem Next.insert_before (h : Next S p q) (hb : Between p b q) : Next (insert b S) p b := by
  grind [Next, Between]

theorem Next.insert_behind (h : Next S p q) (hb : Between p b q) : Next (insert b S) b q := by
  grind [Next, Between]

/-- Only one node changes its neighbour. -/
theorem Next.insert_other {x y : α} (hp : p ∈ S) (h : Next S p q) (hb : Between p b q) (hx : x ∈ S)
    (hxp : x ≠ p) (hxy : Next S x y) : Next (insert b S) x y := by
  grind [Next, Between]

theorem Linked.insert (h : Linked S f) (hp : p ∈ S) (hb : Between p b (f p)) :
    Linked (insert b S) (Function.update (Function.update f b (f p)) p b) := by
  intro x hx
  by_cases hxp : x = p
  · rw [hxp, Function.update_self]
    exact (h p hp).insert_before hb
  · rw [Function.update_of_ne hxp]
    by_cases hxb : x = b
    · rw [hxb, Function.update_self]
      exact (h p hp).insert_behind hb
    · rw [Function.update_of_ne hxb]
      have hxS := Finset.mem_of_mem_insert_of_ne hx hxb
      exact (h p hp).insert_other hp hb hxS hxp (h x hxS)

/-! ### A node less -/

theorem Next.erase_before {r : α} (hp : p ∈ S) (h : Next S p q) (hq : Next S q r) (hne : q ≠ p) :
    Next (S.erase q) p r := by
  grind [Next]

theorem Next.erase_other {x y : α} (hp : p ∈ S) (h : Next S p q) (hx : x ∈ S) (hxp : x ≠ p)
    (hxy : Next S x y) : Next (S.erase q) x y := by
  grind [Next]

theorem Linked.erase (h : Linked S f) (hp : p ∈ S) (hne : f p ≠ p) :
    Linked (S.erase (f p)) (Function.update f p (f (f p))) := by
  intro x hx
  have hxS := Finset.mem_of_mem_erase hx
  by_cases hxp : x = p
  · rw [hxp, Function.update_self]
    exact (h p hp).erase_before hp (h _ (h.mem hp)) hne
  · rw [Function.update_of_ne hxp]
    exact (h p hp).erase_other hp hxS hxp (h x hxS)

/-! ### The circle as a list -/

/-- Read from its first node, every node of the circle points to the following one. -/
theorem Linked.map_sort (h : Linked S f) : S.sort.map f = S.sort.rotate 1 := by
  have hsort := S.sortedLT_sort
  apply List.ext_getElem
  · rw [List.length_map, List.length_rotate]
  · intro i hi hi'
    rw [List.length_map] at hi
    rw [List.getElem_map, List.getElem_rotate]
    have hmem : ∀ (j : ℕ) (hj : j < S.sort.length), S.sort[j] ∈ S := fun j hj =>
      (Finset.mem_sort _).mp (List.getElem_mem hj)
    have hget : ∀ x ∈ S, ∃ (j : ℕ) (hj : j < S.sort.length), S.sort[j] = x := fun x hx =>
      List.getElem_of_mem ((Finset.mem_sort (· ≤ ·)).mpr hx)
    refine (h _ (hmem i hi)).unique ⟨hmem _ _, ?_⟩
    by_cases hlast : i + 1 < S.sort.length
    · simp only [Nat.mod_eq_of_lt hlast]
      refine Or.inl ⟨hsort.getElem_lt_getElem_iff.mpr (Nat.lt_succ_self i), fun x hx hlt => ?_⟩
      obtain ⟨j, hj, rfl⟩ := hget x hx
      exact hsort.getElem_le_getElem_iff.mpr (hsort.getElem_lt_getElem_iff.mp hlt)
    · have hend : i + 1 = S.sort.length := by omega
      simp only [hend, Nat.mod_self]
      refine Or.inr ⟨hsort.getElem_le_getElem_iff.mpr (Nat.zero_le i), fun x hx => ?_⟩
      obtain ⟨j, hj, rfl⟩ := hget x hx
      exact ⟨hsort.getElem_le_getElem_iff.mpr (Nat.zero_le j),
        hsort.getElem_le_getElem_iff.mpr (by omega)⟩

/-- One step nearer to another node, one node less lies on the way. -/
theorem Next.between_of_step {s x : α} (h : Next S p q) (hs : s ∈ S) (hqs : q ≠ s)
    (hb : Between q x s) : Between p x s := by
  grind [Next, Between]

theorem Next.between_next {s : α} (h : Next S p q) (hs : s ∈ S) (hqs : q ≠ s) : Between p q s := by
  grind [Next, Between]

theorem not_between_start {s : α} : ¬Between q q s := by
  grind [Between]

instance (p b q : α) : Decidable (Between p b q) := by
  unfold Between
  infer_instance

/-- From every node the circle leads to every other. -/
theorem Linked.reach (h : Linked S f) (hq : q ∈ S) : ∀ p ∈ S, ∃ k, f^[k] p = q := by
  suffices hcount : ∀ n, ∀ p ∈ S, (S.filter fun x => Between p x q).card = n → ∃ k, f^[k] p = q from
    fun p hp => hcount _ p hp rfl
  intro n
  induction n using Nat.strong_induction_on with
  | _ n ih =>
    intro p hp hn
    by_cases hnext : f p = q
    · exact ⟨1, hnext⟩
    have hless : (S.filter fun x => Between (f p) x q).card < n := by
      rw [← hn]
      refine Finset.card_lt_card ⟨fun x hx => ?_, fun hsub => ?_⟩
      · obtain ⟨hxS, hb⟩ := Finset.mem_filter.mp hx
        exact Finset.mem_filter.mpr ⟨hxS, (h p hp).between_of_step hq hnext hb⟩
      · have hmem := hsub (Finset.mem_filter.mpr ⟨h.mem hp, (h p hp).between_next hq hnext⟩)
        exact not_between_start (Finset.mem_filter.mp hmem).2
    obtain ⟨k, hk⟩ := ih _ hless (f p) (h.mem hp) rfl
    exact ⟨k + 1, hk⟩

/-- A new node has its place in the circle. -/
theorem Linked.exists_between (h : Linked S f) (hS : S.Nonempty) (hb : b ∉ S) :
    ∃ p ∈ S, Between p b (f p) := by
  by_cases hbelow : (S.filter (· < b)).Nonempty
  · obtain ⟨p, hp, hmax⟩ := Finset.exists_max_image _ id hbelow
    obtain ⟨hpS, hpb⟩ := Finset.mem_filter.mp hp
    refine ⟨p, hpS, ?_⟩
    rcases (h p hpS).2 with ⟨hlt, -⟩ | ⟨hle, -⟩
    · refine .inl ⟨hpb, lt_of_not_ge fun hge => ?_⟩
      have hne : f p ≠ b := fun heq => hb (heq ▸ h.mem hpS)
      have := hmax (f p) (Finset.mem_filter.mpr ⟨h.mem hpS, lt_of_le_of_ne hge hne⟩)
      exact absurd this (not_le.mpr hlt)
    · exact .inr ⟨hle, .inl hpb⟩
  · obtain ⟨p, hpS, hmax⟩ := Finset.exists_max_image S id hS
    refine ⟨p, hpS, .inr ⟨hmax (f p) (h.mem hpS), .inr (lt_of_le_of_ne (le_of_not_gt fun hlt => ?_) ?_)⟩⟩
    · exact hbelow ⟨f p, Finset.mem_filter.mpr ⟨h.mem hpS, hlt⟩⟩
    · exact fun heq => hb (heq ▸ h.mem hpS)

end Circle
