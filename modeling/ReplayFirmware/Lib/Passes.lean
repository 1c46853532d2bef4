import Mathlib.Data.Nat.Notation
import Mathlib.Logic.Relation

/-! Loops that go on pass by pass.

    A pass either ends the loop or gives the state of the next one. A loop stops when the passes of a run
    bring a measure down, and never stops when they keep to states from which there always is a next one. -/

namespace Passes

variable {σ β : Type*} {pass : σ → Option σ} {loop : ℕ → σ → Option β}

/-- The states that a loop comes to. -/
def Comes (pass : σ → Option σ) : σ → σ → Prop := Relation.ReflTransGen fun s s' => pass s = some s'

theorem Comes.refl (s : σ) : Comes pass s s := Relation.ReflTransGen.refl

theorem Comes.head {s s' s'' : σ} (h : pass s = some s') (hs : Comes pass s' s'') : Comes pass s s'' :=
  Relation.ReflTransGen.head h hs

/-- What every pass keeps holds of every state that the loop comes to. -/
theorem Comes.keeps {Inv : σ → Prop} (hkeep : ∀ s s', Inv s → pass s = some s' → Inv s') {s s' : σ}
    (h : Comes pass s s') (hs : Inv s) : Inv s' := by
  induction h with
  | refl => exact hs
  | tail _ hpass ih => exact hkeep _ _ ih hpass

/-- `loop` makes these passes; it has no result when it runs out of fuel. -/
structure Runs (pass : σ → Option σ) (loop : ℕ → σ → Option β) : Prop where
  empty : ∀ s, loop 0 s = none
  ends : ∀ s, pass s = none → ∀ fuel, (loop (fuel + 1) s).isSome
  goes : ∀ s s', pass s = some s' → ∀ fuel, loop (fuel + 1) s = loop fuel s'

theorem Runs.stops_within (h : Runs pass loop) (measure : σ → ℕ) : ∀ (n : ℕ) (s : σ), measure s < n →
    (∀ s₁ s₂, Comes pass s s₁ → pass s₁ = some s₂ → measure s₂ < measure s₁) → (loop n s).isSome
  | 0, _, hn, _ => absurd hn (Nat.not_lt_zero _)
  | n + 1, s, hn, hdown => by
    cases hpass : pass s with
    | none => exact h.ends s hpass n
    | some s' =>
      have hless := hdown s s' (Comes.refl s) hpass
      rw [h.goes s s' hpass]
      exact h.stops_within measure n s' (by omega) fun s₁ s₂ hs => hdown s₁ s₂ (hs.head hpass)

/-- A loop whose passes bring a measure down stops. -/
theorem Runs.stops (h : Runs pass loop) (measure : σ → ℕ) {s : σ}
    (hdown : ∀ s₁ s₂, Comes pass s s₁ → pass s₁ = some s₂ → measure s₂ < measure s₁) :
    ∃ fuel, (loop fuel s).isSome :=
  ⟨measure s + 1, h.stops_within measure _ s (Nat.lt_succ_self _) hdown⟩

/-- A loop that always has a next pass does not. -/
theorem Runs.hangs (h : Runs pass loop) {Inv : σ → Prop}
    (hnext : ∀ s, Inv s → ∃ s', pass s = some s' ∧ Inv s') : ∀ (fuel : ℕ) {s : σ}, Inv s →
      loop fuel s = none
  | 0, s, _ => h.empty s
  | fuel + 1, s, hs => by
    obtain ⟨s', hpass, hs'⟩ := hnext s hs
    rw [h.goes s s' hpass]
    exact h.hangs hnext fuel hs'

end Passes
