import Mathlib.Order.Bounds.Basic

/-! The last element of a list with a property, as a loop finds it that overwrites its result.

    In an ascending list the last element is the greatest. -/

namespace LastMatch

variable {α : Type*} (p : α → Prop) [DecidablePred p]

/-- The loop: `old` is overwritten by every element with the property. -/
def last (old : α) (cs : List α) : α := cs.foldl (fun d c => if p c then c else d) old

variable {p}

/-- Nothing is found, or what comes out is in the list. -/
theorem last_cases : ∀ (cs : List α) (old : α),
    last p old cs = old ∧ (∀ c ∈ cs, ¬p c) ∨ last p old cs ∈ cs ∧ p (last p old cs)
  | [], _ => Or.inl ⟨rfl, fun _ h => absurd h List.not_mem_nil⟩
  | c :: cs, old => by
    rw [last, List.foldl_cons]
    by_cases hc : p c
    · rw [if_pos hc]
      rcases last_cases cs c with ⟨h, -⟩ | ⟨h, hp⟩
      · exact Or.inr ⟨by rw [show cs.foldl _ c = c from h]; exact List.mem_cons_self,
          by rw [show cs.foldl _ c = c from h]; exact hc⟩
      · exact Or.inr ⟨List.mem_cons_of_mem c h, hp⟩
    · rw [if_neg hc]
      rcases last_cases cs old with ⟨h, hn⟩ | ⟨h, hp⟩
      · refine Or.inl ⟨h, fun c' hc' => ?_⟩
        rcases List.mem_cons.mp hc' with rfl | hc'
        · exact hc
        · exact hn c' hc'
      · exact Or.inr ⟨List.mem_cons_of_mem c h, hp⟩

/-- In an ascending list nothing that is found is greater. -/
theorem le_last [Preorder α] : ∀ {cs : List α} {old c : α}, cs.Pairwise (· < ·) →
    c ∈ cs → p c → c ≤ last p old cs
  | c' :: cs, old, c, hs, hc, hp => by
    rw [List.pairwise_cons] at hs
    rw [last, List.foldl_cons]
    rcases List.mem_cons.mp hc with rfl | hc
    · rw [if_pos hp]
      rcases last_cases (p := p) cs c with ⟨h, -⟩ | ⟨h, -⟩
      · exact le_of_eq h.symm
      · exact le_of_lt (hs.1 _ h)
    · exact le_last hs.2 hc hp

theorem last_isGreatest [Preorder α] {cs : List α} {c : α} (old : α) (hs : cs.Pairwise (· < ·))
    (hc : c ∈ cs) (hp : p c) : IsGreatest {d | d ∈ cs ∧ p d} (last p old cs) := by
  rcases last_cases (p := p) cs old with ⟨-, hn⟩ | h
  · exact absurd hp (hn c hc)
  · exact ⟨h, fun d hd => le_last hs hd.1 hd.2⟩

/-- What is found is the greatest there is; when there is none, the result stays as it was. -/
theorem last_iff [PartialOrder α] {cs : List α} (old : α) (hs : cs.Pairwise (· < ·)) (m : α) :
    last p old cs = m ↔
      IsGreatest {d | d ∈ cs ∧ p d} m ∨ (∀ d ∈ cs, ¬p d) ∧ old = m := by
  rcases last_cases (p := p) cs old with ⟨ho, hn⟩ | ⟨hmem, hp⟩
  · rw [ho]
    refine ⟨fun h => Or.inr ⟨hn, h⟩, fun h => ?_⟩
    rcases h with h | ⟨-, h⟩
    · exact absurd h.1.2 (hn m h.1.1)
    · exact h
  · refine ⟨fun h => Or.inl ?_, fun h => ?_⟩
    · rw [← h]
      exact last_isGreatest old hs hmem hp
    · rcases h with h | ⟨hn, -⟩
      · exact (last_isGreatest old hs hmem hp).unique h
      · exact absurd hp (hn _ hmem)

end LastMatch
