import Mathlib.Data.List.DropRight
import Mathlib.Data.List.TakeWhile

/-! Strings in a buffer. A string is what stands from an index on, up to its NUL.

    What would be read or written outside the buffer has no outcome. -/

namespace CStr

variable {p : UInt8 → Bool} {b : List UInt8} {i j : ℕ} {s t : List UInt8}

/-! ### Reading and writing -/

/-- `*p = v` -/
def write (b : List UInt8) (i : ℕ) (v : UInt8) : Option (List UInt8) :=
  if i < b.length then some (b.set i v) else none

/-- A loop that goes on as long as the characters pass. -/
def forward (p : UInt8 → Bool) (b : List UInt8) (i : ℕ) : Option ℕ :=
  let rec go : List UInt8 → ℕ → Option ℕ
    | [], _ => none
    | c :: cs, i => if p c = true then go cs (i + 1) else some i
  go (b.drop i) i

/-- A loop that goes back as long as the characters pass, down to an index. -/
def backward (p : UInt8 → Bool) (b : List UInt8) (lo : ℕ) : ℕ → Option ℕ
  | 0 => some 0
  | i + 1 =>
    if lo < i + 1 then
      b[i + 1]?.bind fun c => if p c = true then backward p b lo i else some (i + 1)
    else some (i + 1)

/-- `strlen(s)`, with no outcome when the pointer is null. -/
def strlen (b : List UInt8) (s : Option ℕ) : Option ℕ :=
  s.bind fun s => (forward (· ≠ 0) b s).map (· - s)

/-- What a function that reads a string finds. -/
def string (b : List UInt8) (s : ℕ) : Option (List UInt8) :=
  (strlen b (some s)).map fun n => (b.drop s).take n

/-! ### Strings -/

/-- The string stands at this index. -/
structure At (b : List UInt8) (i : ℕ) (s : List UInt8) : Prop where
  nonzero : 0 ∉ s
  get : ∀ k ≤ s.length, b[i + k]? = (s ++ [0])[k]?

theorem At.lt (h : At b i s) : i + s.length < b.length := by
  have hget := h.get s.length le_rfl
  rw [List.getElem?_append_right le_rfl, Nat.sub_self] at hget
  exact (List.getElem?_eq_some_iff.mp hget).1

theorem At.end (h : At b i s) : b[i + s.length]? = some 0 := by
  have hget := h.get s.length le_rfl
  rwa [List.getElem?_append_right le_rfl, Nat.sub_self] at hget

theorem At.head {c : UInt8} (h : At b i (c :: s)) : b[i]? = some c := h.get 0 (Nat.zero_le _)

/-- What is behind a part of a string is a string. -/
theorem At.suffix (h : At b i (s ++ t)) : At b (i + s.length) t := by
  refine ⟨fun h0 => h.nonzero (List.mem_append_right s h0), fun k hk => ?_⟩
  have hget := h.get (s.length + k) (by rw [List.length_append]; omega)
  rw [← Nat.add_assoc, List.append_assoc, List.getElem?_append_right (by omega),
    Nat.add_sub_cancel_left] at hget
  exact hget

theorem At.tail {c : UInt8} (h : At b i (c :: s)) : At b (i + 1) s :=
  At.suffix (s := [c]) h

/-- What is written elsewhere does not change a string. -/
theorem At.set (h : At b i s) {v : UInt8} (hj : j < i ∨ i + s.length < j) : At (b.set j v) i s := by
  refine ⟨h.nonzero, fun k hk => ?_⟩
  rw [List.getElem?_set_ne (by omega)]
  exact h.get k hk

/-- A NUL cuts a string. -/
theorem At.cut (h : At b i (s ++ t)) : At (b.set (i + s.length) 0) i s := by
  have hlt := h.lt
  rw [List.length_append] at hlt
  refine ⟨fun h0 => h.nonzero (List.mem_append_left t h0), fun k hk => ?_⟩
  rcases Nat.lt_or_eq_of_le hk with hk | rfl
  · have hget := h.get k (by rw [List.length_append]; omega)
    rw [List.getElem?_set_ne (by omega), hget, List.append_assoc, List.getElem?_append_left hk,
      List.getElem?_append_left hk]
  · rw [List.getElem?_set_self (by omega), List.getElem?_append_right le_rfl, Nat.sub_self]
    rfl

/-- A buffer with a NUL has a string at its front. -/
theorem at_takeWhile (h : 0 ∈ b) : At b 0 (b.takeWhile (· ≠ 0)) := by
  induction b with
  | nil => exact absurd h List.not_mem_nil
  | cons c cs ih =>
    by_cases hc : c = 0
    · subst hc
      refine ⟨by simp, fun k hk => ?_⟩
      have hk : k = 0 := by simpa using hk
      subst hk
      simp
    · have ih := ih ((List.mem_cons.mp h).resolve_left (Ne.symm hc))
      have htake : (c :: cs).takeWhile (· ≠ 0) = c :: cs.takeWhile (· ≠ 0) := by simp [hc]
      rw [htake]
      refine ⟨fun h0 => ?_, fun k hk => ?_⟩
      · exact (List.mem_cons.mp h0).elim (fun h0 => hc h0.symm) ih.nonzero
      · cases k with
        | zero => rfl
        | succ k =>
          have hget := ih.get k (by simpa using hk)
          simpa using hget

/-! ### Loops -/

theorem forward_step {c : UInt8} (h : b[i]? = some c) :
    forward p b i = if p c = true then forward p b (i + 1) else some i := by
  obtain ⟨hlt, hc⟩ := List.getElem?_eq_some_iff.mp h
  rw [forward, List.drop_eq_getElem_cons hlt, hc, forward.go]
  rfl

/-- A loop that stops at the NUL stops in the string, or at its end. -/
theorem At.forward : ∀ {s : List UInt8} {i : ℕ}, At b i s → p 0 = false →
    forward p b i = some (i + (s.takeWhile p).length)
  | [], i, h, h0 => by
    have hend : b[i]? = some 0 := h.end
    rw [forward_step hend, h0, if_neg (by decide)]
    rfl
  | c :: s, i, h, h0 => by
    rw [forward_step h.head]
    by_cases hc : p c = true
    · rw [if_pos hc, h.tail.forward h0, List.takeWhile_cons_of_pos hc, List.length_cons]
      congr 1
      omega
    · rw [if_neg hc, List.takeWhile_cons_of_neg hc]
      rfl

theorem At.strlen (h : At b i s) : strlen b (some i) = some s.length := by
  have hall : s.takeWhile (· ≠ 0) = s := by
    rw [List.takeWhile_eq_self_iff]
    intro c hc
    exact decide_eq_true fun h0 => h.nonzero (h0 ▸ hc)
  rw [CStr.strlen, Option.bind_some, h.forward (by decide), hall, Option.map_some,
    Nat.add_sub_cancel_left]

theorem At.string (h : At b i s) : string b i = some s := by
  rw [CStr.string, h.strlen, Option.map_some]
  congr 1
  refine List.ext_getElem? fun k => ?_
  by_cases hk : k < s.length
  · rw [List.getElem?_take_of_lt hk, List.getElem?_drop, h.get k hk.le, List.getElem?_append_left hk]
  · rw [List.getElem?_eq_none (Nat.not_lt.mp hk), List.getElem?_eq_none]
    rw [List.length_take]
    omega

/-- Going back over the characters that follow an index. -/
theorem backward_eq : ∀ {s : List UInt8}, (∀ k < s.length, b[i + 1 + k]? = s[k]?) →
    backward p b i (i + s.length) = some (i + (s.rdropWhile p).length) := by
  intro s
  induction s using List.reverseRecOn with
  | nil =>
    intro _
    cases i with
    | zero => rfl
    | succ i => exact if_neg (Nat.lt_irrefl _)
  | append_singleton s c ih =>
    intro h
    have hget : b[i + s.length + 1]? = some c := by
      have hget := h s.length (by simp)
      rw [List.getElem?_append_right le_rfl, Nat.sub_self] at hget
      rw [← Nat.add_right_comm]
      exact hget
    have hs : ∀ k < s.length, b[i + 1 + k]? = s[k]? := fun k hk => by
      rw [h k (by rw [List.length_append]; omega), List.getElem?_append_left hk]
    rw [List.length_append, List.length_singleton, ← Nat.add_assoc, backward, if_pos (by omega), hget,
      Option.bind_some]
    by_cases hc : p c = true
    · rw [if_pos hc, ih hs, List.rdropWhile_concat_pos _ _ _ hc]
    · rw [if_neg hc, List.rdropWhile_concat_neg _ _ _ hc, List.length_append, List.length_singleton,
        ← Nat.add_assoc]

end CStr
