import ReplayFirmware.Flash.Records
import Mathlib.Data.Option.Basic

/-! Two handlers over one file.

    `Lockstep` relates two handlers that answer every data byte alike. The parser then reads the same
    lines with either and stops in the same place, so what one of them makes of a file can be told
    from what the other makes of it: `parseSRecords_lockstep`. -/

namespace Flash
open FatFs

variable {σ τ : Type} {h₁ : SRECHandler σ} {h₂ : SRECHandler τ} {R R' : σ → τ → Prop}

/-- `R` holds while data is offered, `R'` after a termination record. -/
structure Lockstep (h₁ : SRECHandler σ) (h₂ : SRECHandler τ) (R R' : σ → τ → Prop) : Prop where
  data : ∀ type base i len v s t, type ≠ 7 → R s t →
    Option.Rel (fun p q => p.1 = q.1 ∧ R p.2 q.2) (h₁ type base i len v s) (h₂ type base i len v t)
  term : ∀ base s t, R s t →
    Option.Rel (fun p q => p.1 = q.1 ∧ R' p.2 q.2) (h₁ 7 base 0 0 0 s) (h₂ 7 base 0 0 0 t)

theorem Lockstep.offer (h : Lockstep h₁ h₂ R R') {type : UInt8} (h7 : type ≠ 7) (addr : UInt32)
    (len : UInt8) : ∀ (bs : List UInt8) (i : UInt32) (s : σ) (t : τ), R s t →
    Option.Rel (fun p q => p.1 = q.1 ∧ R p.2 q.2) (offer h₁ type addr len i bs s)
      (offer h₂ type addr len i bs t)
  | [], _, _, _, hR => .some ⟨rfl, hR⟩
  | b :: bs, i, s, t, hR => by
    have hstep := h.data type addr i len b s t h7 hR
    simp only [Flash.offer]
    generalize h₁ type addr i len b s = x at hstep
    generalize h₂ type addr i len b t = y at hstep
    cases hstep with
    | none => exact .none
    | @some p q hpq =>
      obtain ⟨hrv, hR1⟩ := hpq
      simp only [← hrv]
      by_cases h0 : p.1 = 0
      · simp only [h0, ne_eq, not_true_eq_false, if_false]
        exact h.offer h7 addr len bs (i + 1) _ _ hR1
      · simp only [ne_eq, h0, not_false_eq_true, if_true]
        exact .some ⟨rfl, hR1⟩

theorem Lockstep.run (h : Lockstep h₁ h₂ R R') (r : SRec) {s : σ} {t : τ} (hR : R s t) :
    Option.Rel (fun p q => p.1 = q.1 ∧ (R p.2 q.2 ∨ p.1 ≠ .next ∧ R' p.2 q.2))
      (r.run h₁ s) (r.run h₂ t) := by
  have hoffer : Option.Rel (fun p q => p.1 = q.1 ∧ R p.2 q.2) (r.offer h₁ s) (r.offer h₂ t) := by
    by_cases h7 : r.type = 7
    · -- a termination record offers nothing
      simp only [SRec.offer, r.data_of_term h7]
      exact .some ⟨rfl, hR⟩
    · exact h.offer h7 _ _ _ _ _ _ hR
  unfold SRec.run
  generalize r.offer h₁ s = x at hoffer
  generalize r.offer h₂ t = y at hoffer
  cases hoffer with
  | none => exact .none
  | @some p q hpq =>
    obtain ⟨hrv, hR1⟩ := hpq
    simp only [← hrv]
    by_cases hstop : p.1 ≠ 0 ∨ r.refused = true ∨ (!r.sumOk) = true
    · rw [if_pos hstop, if_pos hstop]
      exact .some ⟨rfl, .inl hR1⟩
    · rw [if_neg hstop, if_neg hstop]
      by_cases h7 : r.type = 7
      · have hterm := h.term r.addr _ _ hR1
        simp only [h7, if_true]
        generalize h₁ 7 r.addr 0 0 0 p.2 = x at hterm
        generalize h₂ 7 r.addr 0 0 0 q.2 = y at hterm
        cases hterm with
        | none => exact .none
        | @some p' q' hpq' =>
          obtain ⟨hrv', hR'⟩ := hpq'
          simp only [← hrv']
          by_cases h0 : p'.1 = 0
          · rw [if_pos h0, if_pos h0]
            exact .some ⟨rfl, .inr ⟨by simp, hR'⟩⟩
          · rw [if_neg h0, if_neg h0]
            exact .some ⟨rfl, .inr ⟨by simp, hR'⟩⟩
      · rw [if_neg h7, if_neg h7]
        exact .some ⟨rfl, .inl hR1⟩

theorem Lockstep.record (h : Lockstep h₁ h₂ R R') (l : Line) {s : σ} {t : τ} (hR : R s t) :
    Option.Rel (fun p q => p.1 = q.1 ∧ (R p.2 q.2 ∨ p.1 ≠ .next ∧ R' p.2 q.2))
      (record h₁ l s) (record h₂ l t) := by
  rw [record_eq, record_eq]
  cases decode l with
  | none => exact .some ⟨rfl, .inl hR⟩
  | some r => exact h.run r hR

theorem Lockstep.runLines (h : Lockstep h₁ h₂ R R') : ∀ (ls : List Line) (n : ℕ) (s : σ) (t : τ),
    R s t → Option.Rel (fun p q => p.1 = q.1 ∧ (R p.2 q.2 ∨ R' p.2 q.2))
      (runLines h₁ ls n s) (runLines h₂ ls n t)
  | [], _, _, _, hR => .some ⟨rfl, .inl hR⟩
  | l :: ls, n, s, t, hR => by
    have hrec := h.record l hR
    simp only [Flash.runLines]
    generalize Flash.record h₁ l s = x at hrec
    generalize Flash.record h₂ l t = y at hrec
    cases hrec with
    | none => exact .none
    | @some p q hpq =>
      obtain ⟨o, s'⟩ := p
      obtain ⟨o', t'⟩ := q
      obtain ⟨ho, hR1⟩ := hpq
      simp only at ho hR1
      subst ho
      cases o with
      | next => exact h.runLines ls (n + 1) s' t' (by simpa using hR1)
      | stop => exact .some ⟨rfl, hR1.imp id And.right⟩
      | done => exact .some ⟨rfl, hR1.imp id And.right⟩

/-- Handlers in lockstep get the same verdict on a file. -/
theorem Lockstep.parseSRecords (h : Lockstep h₁ h₂ R R') (file : Option File) (line : Line) {s : σ}
    {t : τ} (hR : R s t) :
    Option.Rel (fun p q => p.1 = q.1 ∧ (R p.2 q.2 ∨ R' p.2 q.2))
      (parseSRecords file (some h₁) line s) (parseSRecords file (some h₂) line t) := by
  cases file with
  | none => exact .some ⟨rfl, .inl hR⟩
  | some file =>
    have hrun := h.runLines (fileLines file line) 0 s t hR
    rw [parseSRecords_eq, parseSRecords_eq]
    generalize Flash.runLines h₁ (fileLines file line) 0 s = x at hrun
    generalize Flash.runLines h₂ (fileLines file line) 0 t = y at hrun
    cases hrun with
    | none => exact .none
    | @some p q hpq => exact .some ⟨congrArg Nat.toUInt8 hpq.1, hpq.2⟩

end Flash
