import Mathlib.Logic.Basic

/-! Runs of a machine that may go astray.

    A property holds of a machine when it holds of the states that its runs reach. Where each step
    leads from a state with the property to one with the property exactly when a condition on the
    step is met, the property holds all along a run exactly when its steps all meet the condition. -/

namespace Steps

variable {σ ι : Type*} (step : σ → ι → Option σ)

/-- The state that the steps lead to; `none` when one of them does not come back. -/
def run : σ → List ι → Option σ
  | s, [] => some s
  | s, i :: is => (step s i).bind fun s' => run s' is

/-- The property holds where the run begins and after every step that comes back. -/
def AllStates (P : σ → Prop) : σ → List ι → Prop
  | s, [] => P s
  | s, i :: is => P s ∧ ∀ s', step s i = some s' → AllStates P s' is

/-- Every step that comes back meets the condition, in the state that it is made from. -/
def AllSteps (Q : σ → ι → Prop) : σ → List ι → Prop
  | _, [] => True
  | s, i :: is => ∀ s', step s i = some s' → Q s i ∧ AllSteps Q s' is

variable {step} {P Inv : σ → Prop} {Q : σ → ι → Prop}

theorem AllStates.head : ∀ {is : List ι} {s : σ}, AllStates step P s is → P s
  | [], _, h => h
  | _ :: _, _, h => h.1

/-- What holds all along a run holds of the state that a part of it leads to. -/
theorem AllStates.reached : ∀ {is js : List ι} {s s' : σ}, AllStates step P s (is ++ js) →
    run step s is = some s' → P s'
  | [], _, _, _, h, hrun => by
    obtain rfl := Option.some.inj hrun
    exact h.head
  | i :: is, js, s, s', h, hrun => by
    obtain ⟨s₁, hstep, hrun⟩ := Option.bind_eq_some_iff.mp hrun
    exact (h.2 s₁ hstep).reached hrun

/-- An invariant of the steps holds all along every run. -/
theorem allStates_of_inv (hkeep : ∀ s i s', Inv s → step s i = some s' → Inv s') :
    ∀ (is : List ι) {s : σ}, Inv s → AllStates step Inv s is
  | [], _, hs => hs
  | i :: is, s, hs => ⟨hs, fun s' hstep => allStates_of_inv hkeep is (hkeep s i s' hs hstep)⟩

/-- A property that steps carry on exactly under a condition holds along the runs whose steps meet the
    condition. -/
theorem allStates_iff (hkeep : ∀ s i s', Inv s → step s i = some s' → Inv s')
    (hstep : ∀ s i s', Inv s → P s → step s i = some s' → (P s' ↔ Q s i)) :
    ∀ (is : List ι) {s : σ}, Inv s → P s → (AllStates step P s is ↔ AllSteps step Q s is)
  | [], _, _, hP => ⟨fun _ => trivial, fun _ => hP⟩
  | i :: is, s, hs, hP => by
    constructor
    · rintro ⟨-, hrest⟩ s' hgo
      have hq := (hstep s i s' hs hP hgo).mp (hrest s' hgo).head
      refine ⟨hq, ?_⟩
      exact (allStates_iff hkeep hstep is (hkeep s i s' hs hgo)
        ((hstep s i s' hs hP hgo).mpr hq)).mp (hrest s' hgo)
    · intro hall
      refine ⟨hP, fun s' hgo => ?_⟩
      obtain ⟨hq, hrest⟩ := hall s' hgo
      exact (allStates_iff hkeep hstep is (hkeep s i s' hs hgo)
        ((hstep s i s' hs hP hgo).mpr hq)).mpr hrest

end Steps
