import Mathlib.Data.Nat.Basic
import Mathlib.Logic.Function.Basic

/-! Resources that are acquired, held and released.

    A pool gives a new name to every resource and counts how often each has been released. A holder has
    a pointer to at most one resource. Nothing is lost and nothing is released twice as long as what is
    live is held, by one holder, and what is held is live. -/

namespace Owned
open Function

/-- The names given out are those below `next`. -/
structure Pool where
  next : ℕ
  released : ℕ → ℕ

/-- Nothing has been acquired. -/
def Pool.empty : Pool := { next := 0, released := fun _ => 0 }

/-- One more resource, with the name `next`. -/
def Pool.acquire (p : Pool) : Pool := { p with next := p.next + 1 }

/-- The resource is released, once more. -/
def Pool.release (p : Pool) (r : ℕ) : Pool :=
  { p with released := update p.released r (p.released r + 1) }

/-- Acquired, if at all, and the pointer to it. -/
def Pool.acquireIf (p : Pool) (b : Bool) : Option ℕ × Pool :=
  if b then (some p.next, p.acquire) else (none, p)

/-- What a pointer leads to is released, if it leads anywhere. -/
def Pool.releaseIf (p : Pool) : Option ℕ → Pool
  | none => p
  | some r => p.release r

/-- Acquired, and not released. -/
def Pool.Live (p : Pool) (r : ℕ) : Prop := r < p.next ∧ p.released r = 0

instance (p : Pool) (r : ℕ) : Decidable (p.Live r) := inferInstanceAs (Decidable (_ ∧ _))

/-- The pointers of the holders, and the pool that they point into. -/
structure Holds {κ : Type} (p : Pool) (held : κ → Option ℕ) : Prop where
  /-- No pointer is left over from a resource that has been released. -/
  live : ∀ k r, held k = some r → p.Live r
  /-- No two holders share one. -/
  one : ∀ k k' r, held k = some r → held k' = some r → k = k'
  /-- None is lost. -/
  kept : ∀ r, p.Live r → ∃ k, held k = some r
  /-- None is released twice. -/
  once : ∀ r, p.released r ≤ 1
  /-- What has not been acquired has not been released. -/
  fresh : ∀ r, p.next ≤ r → p.released r = 0

variable {κ : Type} {p : Pool} {held : κ → Option ℕ} {k : κ} {r : ℕ}

theorem holds_empty : Holds Pool.empty (fun _ : κ => none) where
  live := by rintro k r ⟨⟩
  one := by rintro k k' r ⟨⟩
  kept := by rintro r ⟨hr, -⟩; exact absurd hr (Nat.not_lt_zero r)
  once := fun _ => Nat.zero_le 1
  fresh := fun _ _ => rfl

/-- A pointer to what is not live is dangling. -/
theorem not_holds_dangling (hk : held k = some r) (hr : ¬p.Live r) : ¬Holds p held := fun h =>
  hr (h.live k r hk)

theorem Holds.lt (h : Holds p held) (hk : held k = some r) : r < p.next := (h.live k r hk).1

@[simp] theorem released_acquire : p.acquire.released = p.released := rfl

theorem released_release_self : (p.release r).released r = p.released r + 1 := update_self ..

/-- What has been released cannot be released again. -/
theorem not_holds_twice (hr : 1 ≤ p.released r) : ¬Holds (p.release r) held := fun h =>
  absurd (h.once r) (by rw [released_release_self]; omega)

theorem released_release_ne {r' : ℕ} (h : r' ≠ r) : (p.release r).released r' = p.released r' :=
  update_of_ne h ..

/-- Releasing takes nothing back. -/
theorem released_le_releaseIf (o : Option ℕ) (r : ℕ) :
    p.released r ≤ (p.releaseIf o).released r := by
  cases o with
  | none => exact le_refl _
  | some r' =>
    by_cases h : r = r'
    · subst h
      rw [Pool.releaseIf, released_release_self]
      omega
    · rw [Pool.releaseIf, released_release_ne h]

theorem released_releaseIf_self (o : Option ℕ) (ho : o = some r) :
    1 ≤ (p.releaseIf o).released r := by
  subst ho
  rw [Pool.releaseIf, released_release_self]
  omega

theorem released_acquireIf (b : Bool) : (p.acquireIf b).2.released = p.released := by
  cases b <;> rfl

theorem live_release_ne {r' : ℕ} (h : r' ≠ r) : (p.release r).Live r' ↔ p.Live r' := by
  rw [Pool.Live, released_release_ne h]
  rfl

theorem not_live_release : ¬(p.release r).Live r := by
  rintro ⟨-, h⟩
  rw [released_release_self] at h
  omega

/-- What is released right away is no one's. -/
theorem Holds.pass (h : Holds p held) : Holds (p.acquire.release p.next) held where
  live := by
    intro k r hk
    have hr := h.live k r hk
    exact (live_release_ne (Nat.ne_of_lt hr.1)).mpr ⟨Nat.lt_succ_of_lt hr.1, hr.2⟩
  one := h.one
  kept := by
    intro r hr
    have hne : r ≠ p.next := by
      rintro rfl
      exact not_live_release hr
    obtain ⟨hlt, hr0⟩ := (live_release_ne hne).mp hr
    exact h.kept r ⟨Nat.lt_of_le_of_ne (Nat.le_of_lt_succ hlt) hne, hr0⟩
  once := by
    intro r
    by_cases hr : r = p.next
    · rw [hr, released_release_self, released_acquire, h.fresh _ (le_refl _)]
    · rw [released_release_ne hr]
      exact h.once r
  fresh := by
    intro r hr
    rw [released_release_ne (Nat.ne_of_gt hr)]
    exact h.fresh r (Nat.le_of_succ_le hr)

section
variable [DecidableEq κ]

/-- Forgetting a pointer loses what it leads to. -/
theorem Holds.forget_iff (h : Holds p held) : Holds p (update held k none) ↔ held k = none := by
  constructor
  · intro h'
    rw [Option.eq_none_iff_forall_ne_some]
    intro r hk
    obtain ⟨k', hk'⟩ := h'.kept r (h.live k r hk)
    by_cases hkk : k' = k
    · rw [hkk, update_self] at hk'
      exact absurd hk' (Option.some_ne_none r).symm
    · rw [update_of_ne hkk] at hk'
      exact hkk (h.one k' k r hk' hk)
  · intro hk
    rw [← hk, update_eq_self]
    exact h

theorem Holds.acquire (h : Holds p held) (hk : held k = none) :
    Holds p.acquire (update held k (some p.next)) where
  live := by
    intro k' r hr
    by_cases hkk : k' = k
    · rw [hkk, update_self] at hr
      obtain rfl := Option.some.inj hr
      exact ⟨Nat.lt_succ_self _, h.fresh _ (le_refl _)⟩
    · rw [update_of_ne hkk] at hr
      exact ⟨Nat.lt_succ_of_lt (h.live k' r hr).1, (h.live k' r hr).2⟩
  one := by
    intro k₁ k₂ r h₁ h₂
    rw [update_apply] at h₁ h₂
    split at h₁ <;> split at h₂
    · rename_i e₁ e₂
      rw [e₁, e₂]
    · obtain rfl := Option.some.inj h₁
      exact absurd (h.lt h₂) (lt_irrefl _)
    · obtain rfl := Option.some.inj h₂
      exact absurd (h.lt h₁) (lt_irrefl _)
    · exact h.one k₁ k₂ r h₁ h₂
  kept := by
    rintro r ⟨hr, hr0⟩
    rcases Nat.lt_succ_iff_lt_or_eq.mp hr with hlt | heq
    · obtain ⟨k', hk'⟩ := h.kept r ⟨hlt, hr0⟩
      refine ⟨k', ?_⟩
      rw [update_of_ne, hk']
      rintro rfl
      exact absurd (hk'.symm.trans hk) (Option.some_ne_none r)
    · exact ⟨k, by rw [update_self, heq]⟩
  once := h.once
  fresh := fun r hr => h.fresh r (Nat.le_of_succ_le hr)

/-- Overwriting a pointer with one to a new resource loses what it led to. -/
theorem Holds.acquire_iff (h : Holds p held) :
    Holds p.acquire (update held k (some p.next)) ↔ held k = none := by
  refine ⟨fun h' => ?_, h.acquire⟩
  rw [Option.eq_none_iff_forall_ne_some]
  intro r hk
  have hr := h.live k r hk
  obtain ⟨k', hk'⟩ := h'.kept r ⟨Nat.lt_succ_of_lt hr.1, hr.2⟩
  by_cases hkk : k' = k
  · rw [hkk, update_self] at hk'
    obtain rfl := Option.some.inj hk'
    exact lt_irrefl _ hr.1
  · rw [update_of_ne hkk] at hk'
    exact hkk (h.one k' k r hk' hk)

/-- What a holder releases, and forgets, is released once. -/
theorem Holds.release (h : Holds p held) (hk : held k = some r) :
    Holds (p.release r) (update held k none) where
  live := by
    intro k' r' hr
    by_cases hkk : k' = k
    · rw [hkk, update_self] at hr
      exact absurd hr (Option.some_ne_none r').symm
    · rw [update_of_ne hkk] at hr
      rw [live_release_ne]
      · exact h.live k' r' hr
      · rintro rfl
        exact hkk (h.one k' k _ hr hk)
  one := by
    intro k₁ k₂ r' h₁ h₂
    rw [update_apply] at h₁ h₂
    split at h₁
    · exact absurd h₁ (Option.some_ne_none r').symm
    · split at h₂
      · exact absurd h₂ (Option.some_ne_none r').symm
      · exact h.one k₁ k₂ r' h₁ h₂
  kept := by
    intro r' hr'
    have hne : r' ≠ r := by
      rintro rfl
      exact not_live_release hr'
    obtain ⟨k', hk'⟩ := h.kept r' ((live_release_ne hne).mp hr')
    refine ⟨k', ?_⟩
    rw [update_of_ne, hk']
    rintro rfl
    exact hne (Option.some.inj (hk'.symm.trans hk))
  once := by
    intro r'
    by_cases hr : r' = r
    · rw [hr, released_release_self, (h.live k r hk).2]
    · rw [released_release_ne hr]
      exact h.once r'
  fresh := by
    intro r' hr'
    have hlt := h.lt hk
    rw [released_release_ne]
    · exact h.fresh r' hr'
    · rintro rfl
      exact absurd hlt (Nat.not_lt.mpr hr')

theorem Holds.acquireIf_iff (h : Holds p held) (b : Bool) :
    Holds (p.acquireIf b).2 (update held k (p.acquireIf b).1) ↔ held k = none := by
  cases b with
  | false => exact h.forget_iff
  | true => exact h.acquire_iff

/-- A resource that is given back at once, its pointer forgotten. -/
theorem Holds.passIf_iff (h : Holds p held) (b : Bool) :
    Holds ((p.acquireIf b).2.releaseIf (p.acquireIf b).1) (update held k none) ↔ held k = none := by
  cases b with
  | false => exact h.forget_iff
  | true =>
    refine ⟨fun h' => ?_, fun hk => ?_⟩
    · rw [Option.eq_none_iff_forall_ne_some]
      intro r hk
      have hr := h.live k r hk
      have hne : r ≠ p.next := Nat.ne_of_lt hr.1
      obtain ⟨k', hk'⟩ := h'.kept r ((live_release_ne hne).mpr ⟨Nat.lt_succ_of_lt hr.1, hr.2⟩)
      by_cases hkk : k' = k
      · rw [hkk, update_self] at hk'
        exact absurd hk' (Option.some_ne_none r).symm
      · rw [update_of_ne hkk] at hk'
        exact hkk (h.one k' k r hk' hk)
    · rw [← hk, update_eq_self]
      exact h.pass

/-- A resource that is given back at once, but its pointer kept. -/
theorem Holds.keptIf_iff (h : Holds p held) (b : Bool) :
    Holds ((p.acquireIf b).2.releaseIf (p.acquireIf b).1) (update held k (p.acquireIf b).1) ↔
      b = false ∧ held k = none := by
  cases b with
  | false => exact h.forget_iff.trans (and_iff_right rfl).symm
  | true =>
    refine iff_of_false (not_holds_dangling (update_self k (some p.next) held) not_live_release) ?_
    rintro ⟨hb, -⟩
    exact absurd hb.symm Bool.false_ne_true

theorem Holds.releaseIf (h : Holds p held) : Holds (p.releaseIf (held k)) (update held k none) := by
  cases hk : held k with
  | none => exact h.forget_iff.mpr hk
  | some r => exact h.release hk

end

/-- A pointer that is kept after its resource is released dangles. -/
theorem Holds.releaseIf_kept_iff (h : Holds p held) :
    Holds (p.releaseIf (held k)) held ↔ held k = none := by
  cases hk : held k with
  | none => exact iff_of_true h rfl
  | some r => exact iff_of_false (not_holds_dangling hk not_live_release) (Option.some_ne_none r)

/-- All pointers can be forgotten only where there are none. -/
theorem Holds.clear_iff (h : Holds p held) :
    Holds p (fun _ : κ => none) ↔ ∀ k, held k = none := by
  constructor
  · intro h' k
    rw [Option.eq_none_iff_forall_ne_some]
    intro r hk
    obtain ⟨k', hk'⟩ := h'.kept r (h.live k r hk)
    exact absurd hk' (Option.some_ne_none r).symm
  · intro hnone
    rw [show (fun _ : κ => none) = held from funext fun k => (hnone k).symm]
    exact h

end Owned
