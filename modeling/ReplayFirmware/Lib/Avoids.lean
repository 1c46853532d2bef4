import Mathlib.Tactic.Common

/-! Computations that may fail, and one way of failing that they avoid.

    What is wanted of the result is carried through the steps from the end to the start: each rule says
    exactly when a computation avoids the failure. -/

namespace Guarded

variable {ε α β : Type} {f : ε}

/-- The computation gives a result with `Q`, or fails in another way than `f`. -/
def Avoids (f : ε) (x : Except ε α) (Q : α → Prop) : Prop :=
  match x with
  | .ok a => Q a
  | .error e => e ≠ f

@[simp] theorem avoids_ok {a : α} {Q : α → Prop} : Avoids f (.ok a : Except ε α) Q ↔ Q a := Iff.rfl

@[simp] theorem avoids_pure {a : α} {Q : α → Prop} : Avoids f (pure a : Except ε α) Q ↔ Q a := Iff.rfl

@[simp] theorem avoids_error {e : ε} {Q : α → Prop} :
    Avoids f (.error e : Except ε α) Q ↔ e ≠ f := Iff.rfl

/-- Every step avoids the failure. -/
@[simp] theorem avoids_bind {x : Except ε α} {g : α → Except ε β} {Q : β → Prop} :
    Avoids f (x >>= g) Q ↔ Avoids f x fun a => Avoids f (g a) Q := by
  cases x with
  | ok a => exact Iff.rfl
  | error e => exact Iff.rfl

@[simp] theorem avoids_map {x : Except ε α} {g : α → β} {Q : β → Prop} :
    Avoids f (x.map g) Q ↔ Avoids f x fun a => Q (g a) := by
  cases x with
  | ok a => exact Iff.rfl
  | error e => exact Iff.rfl

@[simp] theorem avoids_functorMap {x : Except ε α} {g : α → β} {Q : β → Prop} :
    Avoids f (g <$> x) Q ↔ Avoids f x fun a => Q (g a) := avoids_map

@[simp] theorem avoids_ite {c : Prop} [Decidable c] {x y : Except ε α} {Q : α → Prop} :
    Avoids f (if c then x else y) Q ↔ (c → Avoids f x Q) ∧ (¬c → Avoids f y Q) := by
  by_cases hc : c
  · simp [hc]
  · simp [hc]

/-- The result does not matter. -/
theorem avoids_true_iff {x : Except ε α} : Avoids f x (fun _ => True) ↔ x ≠ .error f := by
  cases x with
  | ok a => simp
  | error e => simp

theorem Avoids.mono {x : Except ε α} {Q R : α → Prop} (h : Avoids f x Q) (hQR : ∀ a, Q a → R a) :
    Avoids f x R := by
  cases x with
  | ok a => exact hQR a h
  | error e => exact h

/-! ### Results -/

/-- Every result has `Q`. -/
def Gives (x : Except ε α) (Q : α → Prop) : Prop := ∀ a, x = .ok a → Q a

@[simp] theorem gives_ok {a : α} {Q : α → Prop} : Gives (.ok a : Except ε α) Q ↔ Q a :=
  ⟨fun h => h a rfl, fun h b hb => by cases hb; exact h⟩

@[simp] theorem gives_pure {a : α} {Q : α → Prop} : Gives (pure a : Except ε α) Q ↔ Q a := gives_ok

@[simp] theorem gives_error {e : ε} {Q : α → Prop} : Gives (.error e : Except ε α) Q ↔ True :=
  ⟨fun _ => trivial, fun _ _ h => by cases h⟩

@[simp] theorem gives_bind {x : Except ε α} {g : α → Except ε β} {Q : β → Prop} :
    Gives (x >>= g) Q ↔ Gives x fun a => Gives (g a) Q := by
  cases x with
  | ok a =>
    rw [gives_ok]
    exact Iff.rfl
  | error e => exact iff_of_true (gives_error.mpr trivial) (gives_error.mpr trivial)

@[simp] theorem gives_ite {c : Prop} [Decidable c] {x y : Except ε α} {Q : α → Prop} :
    Gives (if c then x else y) Q ↔ (c → Gives x Q) ∧ (¬c → Gives y Q) := by
  by_cases hc : c
  · simp [hc]
  · simp [hc]

@[simp] theorem gives_map {f : α → β} {x : Except ε α} {Q : β → Prop} :
    Gives (f <$> x) Q ↔ Gives x fun a => Q (f a) := by
  cases x with
  | ok a => exact (gives_ok (a := f a)).trans (gives_ok (Q := fun a => Q (f a))).symm
  | error e => exact iff_of_true (gives_error.mpr trivial) (gives_error.mpr trivial)

theorem gives_of_forall {x : Except ε α} {Q : α → Prop} (h : ∀ a, Q a) : Gives x Q := fun a _ => h a

@[simp] theorem gives_true {x : Except ε α} : Gives x fun _ => True := gives_of_forall fun _ => trivial

end Guarded
