import Mathlib.Data.List.Basic

/-! Two runs of a machine that look the same.

    A machine takes one input after another, may go astray, and shows something at each step. When a
    relation between two states is kept by a step on two inputs, and both steps show the same or both
    go astray, then so do the runs: what the inputs differ in does not come to light. -/

namespace Unwinding

variable {σ ι ω : Type}

/-- What a run shows, step by step; `none` when it goes astray. -/
def run (step : σ → ι → Option (σ × ω)) : σ → List ι → Option (List ω)
  | _, [] => some []
  | s, i :: is => (step s i).bind fun r => (run step r.1 is).map (r.2 :: ·)

/-- Two outcomes of a step that look the same through `view`, and are related. -/
inductive Alike {ν : Type} (R : σ → σ → Prop) (view : ω → ν) :
    Option (σ × ω) → Option (σ × ω) → Prop
  | astray : Alike R view none none
  | goes {s t : σ} {o p : ω} (hr : R s t) (hv : view o = view p) : Alike R view (some (s, o)) (some (t, p))

/-- The steps of a run meet a condition. -/
def Along (step : σ → ι → Option (σ × ω)) (P : σ → ι → Prop) : σ → List ι → Prop
  | _, [] => True
  | s, i :: is => P s i ∧
      match step s i with
      | none => True
      | some r => Along step P r.1 is

instance decidableAlong (step : σ → ι → Option (σ × ω)) (P : σ → ι → Prop)
    [∀ s i, Decidable (P s i)] : ∀ (s : σ) (is : List ι), Decidable (Along step P s is)
  | _, [] => inferInstanceAs (Decidable True)
  | s, i :: is =>
    have : Decidable (match step s i with
        | none => True
        | some r => Along step P r.1 is) :=
      match step s i with
      | none => inferInstanceAs (Decidable True)
      | some r => decidableAlong step P r.1 is
    inferInstanceAs (Decidable (_ ∧ _))

/-- Runs whose steps look the same look the same. -/
theorem run_alike {ν : Type} {step : σ → ι → Option (σ × ω)} {R : σ → σ → Prop} {view : ω → ν}
    {P : σ → ι → Prop} {low : ι → ι}
    (hstep : ∀ s t i, R s t → P s i → Alike R view (step s i) (step t (low i))) :
    ∀ (is : List ι) {s t : σ}, R s t → Along step P s is →
      (run step s is).map (List.map view) = (run step t (is.map low)).map (List.map view)
  | [], _, _, _, _ => rfl
  | i :: is, s, t, hr, ⟨hp, hrest⟩ => by
    have halike := hstep s t i hr hp
    rw [run, List.map_cons, run]
    generalize step s i = a at halike hrest
    generalize step t (low i) = b at halike
    cases halike with
    | astray => rfl
    | @goes s' t' o p hr' hv =>
      have ih := run_alike hstep is hr' hrest
      simp only [Option.bind_some]
      generalize run step s' is = x at ih
      generalize run step t' (is.map low) = y at ih
      cases x <;> cases y
      · rfl
      · cases ih
      · cases ih
      · simp only [Option.map_some, Option.some.injEq] at ih ⊢
        rw [List.map_cons, List.map_cons, hv, ih]

/-! ### Where a run leads -/

/-- The state behind a run; `none` when it goes astray. -/
def after (step : σ → ι → Option (σ × ω)) : σ → List ι → Option σ
  | s, [] => some s
  | s, i :: is => (step s i).bind fun r => after step r.1 is

variable {step : σ → ι → Option (σ × ω)} {P : σ → ι → Prop}

theorem after_append : ∀ (is js : List ι) (s : σ),
    after step s (is ++ js) = (after step s is).bind fun t => after step t js
  | [], _, _ => rfl
  | i :: is, js, s => by
    rw [List.cons_append, after, after]
    cases step s i with
    | none => rfl
    | some r => exact after_append is js r.1

theorem along_append : ∀ {is js : List ι} {s : σ}, Along step P s (is ++ js) →
    Along step P s is ∧ ∀ t, after step s is = some t → Along step P t js
  | [], _, _, h => ⟨trivial, fun _ ht => by rwa [← Option.some.inj ht]⟩
  | i :: is, js, s, h => by
    obtain ⟨hp, hrest⟩ := h
    rw [Along, after]
    cases hstep : step s i with
    | none => exact ⟨⟨hp, trivial⟩, fun t ht => by cases ht⟩
    | some r =>
      rw [hstep] at hrest
      obtain ⟨hhead, htail⟩ := @along_append is js r.1 hrest
      exact ⟨⟨hp, hhead⟩, htail⟩

/-- A run goes on, and keeps an invariant, when the steps that meet the condition do. -/
theorem after_inv {Inv : σ → Prop}
    (hstep : ∀ s i, Inv s → P s i → ∃ r, step s i = some r ∧ Inv r.1) :
    ∀ (is : List ι) {s : σ}, Inv s → Along step P s is → ∃ t, after step s is = some t ∧ Inv t
  | [], s, hs, _ => ⟨s, rfl, hs⟩
  | i :: is, s, hs, ⟨hp, hrest⟩ => by
    obtain ⟨r, hr, hinv⟩ := hstep s i hs hp
    rw [hr] at hrest
    obtain ⟨t, ht, htinv⟩ := after_inv hstep is hinv hrest
    exact ⟨t, by rw [after, hr]; exact ht, htinv⟩

end Unwinding
