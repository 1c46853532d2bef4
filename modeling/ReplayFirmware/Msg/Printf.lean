import Mathlib.Data.List.Basic
import Mathlib.Data.Nat.Notation
import Mathlib.Tactic.Common
import ReplayFirmware.Libc.Ctype
import Mathlib.Algebra.Order.Ring.Nat

/-! `tfp_format`: what a format makes of its arguments.

    A format is a string without its NUL. What is taken as an argument is whatever there is: nothing
    says how many there are, or what they are. A text without `%` is what comes out; a text with `%`
    does not come out as it is, whatever the arguments. -/

namespace Msg
open Libc

/-! ### Arguments -/

/-- The words that are taken as arguments, one after the other, and the strings that they point to,
    where one can be read. A long is a word too. -/
structure Args where
  word : ℕ → UInt32
  string : UInt32 → Option (List UInt8)

/-! ### Numbers -/

def digitChar (uc : Bool) (d : ℕ) : UInt8 :=
  if d < 10 then UInt8.ofNat (0x30 + d) else UInt8.ofNat ((if uc then 0x41 else 0x61) + (d - 10))

/-- The digits of a number, which are at most `fuel`. -/
def digits (base : ℕ) (uc : Bool) : ℕ → ℕ → List UInt8
  | 0, _ => []
  | fuel + 1, n =>
    if n < base then [digitChar uc n]
    else digits base uc fuel (n / base) ++ [digitChar uc (n % base)]

/-- `ui2a` -/
def ui2a (num : UInt32) (base : ℕ) (uc : Bool) : List UInt8 := digits base uc 32 num.toNat

/-- `i2a` -/
def i2a (num : UInt32) : List UInt8 :=
  if num.toNat < 2 ^ 31 then ui2a num 10 false else 0x2D :: ui2a (0 - num) 10 false

/-- `a2d` -/
def a2d (ch : UInt8) : Option ℕ :=
  if isdigit ch then some (ch.toNat - 0x30)
  else if 0x61 ≤ ch ∧ ch ≤ 0x66 then some (ch.toNat - 0x61 + 10)
  else if 0x41 ≤ ch ∧ ch ≤ 0x46 then some (ch.toNat - 0x41 + 10)
  else none

/-- `a2i`: a digit of the value of the base is taken for one. -/
def a2i (base : ℕ) : List UInt8 → UInt32 → UInt32 × List UInt8
  | [], num => (num, [])
  | ch :: s, num =>
    match a2d ch with
    | none => (num, ch :: s)
    | some d =>
      if d > base then (num, ch :: s) else a2i base s (num * UInt32.ofNat base + UInt32.ofNat d)

/-- `putchw`: a width from 2^31 on is negative. -/
def putchw (n : UInt32) (z : Bool) (bf : List UInt8) : List UInt8 :=
  let n := if n.toNat < 2 ^ 31 then n.toNat else 0
  List.replicate (n - bf.length) (if z then 0x30 else 0x20) ++ bf

/-! ### Formats -/

/-- A conversion that takes an argument. -/
inductive Conv where
  | unsigned | signed | hex (uc : Bool) | char | string
deriving DecidableEq

def conversion (ch : UInt8) : Option Conv :=
  if ch = 0x75 then some .unsigned
  else if ch = 0x64 then some .signed
  else if ch = 0x78 then some (.hex false)
  else if ch = 0x58 then some (.hex true)
  else if ch = 0x63 then some .char
  else if ch = 0x73 then some .string
  else none

/-- What a conversion puts out for an argument. -/
def Conv.put (a : Args) (lz : Bool) (w v : UInt32) : Conv → Option (List UInt8)
  | .unsigned => some (putchw w lz (ui2a v 10 false))
  | .signed => some (putchw w lz (i2a v))
  | .hex uc => some (putchw w lz (ui2a v 16 uc))
  | .char => some [v.toUInt8]
  | .string => (a.string v).map (putchw w false)

/-- What stands between `%` and the character of the conversion: `lz`, `w`, and the `l`. -/
def flags (fmt : List UInt8) : Bool × UInt32 × List UInt8 :=
  let lz : Bool := fmt.head? = some 0x30
  let fmt := if lz then fmt.tail else fmt
  let r := if (fmt.head?.any fun ch => isdigit ch) = true then a2i 10 fmt 0 else (0, fmt)
  (lz, r.1, if r.2.head? = some 0x6C then r.2.tail else r.2)

/-- The loop of `tfp_format`, with the number of the next argument. Every pass takes a character. -/
def formatLoop (a : Args) : ℕ → ℕ → List UInt8 → Option (List UInt8)
  | 0, _, _ => some []
  | _ + 1, _, [] => some []
  | fuel + 1, k, ch :: fmt =>
    if ch ≠ 0x25 then (formatLoop a fuel k fmt).map (ch :: ·)
    else
      let (lz, w, fmt) := flags fmt
      match fmt with
      | [] => some []
      | ch :: fmt =>
        match conversion ch with
        | some c => (c.put a lz w (a.word k)).bind fun out =>
          (formatLoop a fuel (k + 1) fmt).map (out ++ ·)
        | none =>
          if ch = 0x25 then (formatLoop a fuel k fmt).map (ch :: ·) else formatLoop a fuel k fmt

/-- `tfp_format` -/
def tfpFormat (a : Args) (fmt : List UInt8) : Option (List UInt8) := formatLoop a fmt.length 0 fmt

/-! ### Texts -/

/-- A text without `%` comes out as it is. -/
theorem formatLoop_plain (a : Args) : ∀ {fuel k : ℕ} {fmt : List UInt8}, fmt.length ≤ fuel →
    0x25 ∉ fmt → formatLoop a fuel k fmt = some fmt
  | 0, _, [], _, _ => rfl
  | _ + 1, _, [], _, _ => rfl
  | 0, _, _ :: _, hfuel, _ => absurd hfuel (Nat.not_succ_le_zero _)
  | fuel + 1, k, ch :: fmt, hfuel, hfmt => by
    rw [List.mem_cons, not_or] at hfmt
    rw [formatLoop, if_pos (Ne.symm hfmt.1), formatLoop_plain a (Nat.le_of_succ_le_succ hfuel) hfmt.2]
    rfl

theorem a2i_suffix (base : ℕ) : ∀ (fmt : List UInt8) (num : UInt32), (a2i base fmt num).2 <:+ fmt
  | [], _ => List.suffix_rfl
  | ch :: fmt, num => by
    rw [a2i]
    split
    · exact List.suffix_rfl
    · split
      · exact List.suffix_rfl
      · exact (a2i_suffix base fmt _).trans (List.suffix_cons ch fmt)

theorem tail_if_suffix (c : Prop) [Decidable c] (s : List UInt8) : (if c then s.tail else s) <:+ s := by
  split
  · exact List.tail_suffix s
  · exact List.suffix_rfl

/-- The character of the conversion is behind the flags. -/
theorem flags_suffix (fmt : List UInt8) : (flags fmt).2.2 <:+ fmt := by
  have hwidth : ∀ (c : Prop) [Decidable c] (s : List UInt8),
      (if c then a2i 10 s 0 else (0, s)).2 <:+ s := by
    intro c _ s
    split
    · exact a2i_suffix ..
    · exact List.suffix_rfl
  exact (tail_if_suffix _ _).trans ((hwidth _ _).trans (tail_if_suffix _ _))

/-- Arguments that are all one number, and point to nothing. -/
def sameWord (v : UInt32) : Args := ⟨fun _ => v, fun _ => none⟩

/-- Two numbers are put out alike only as strings, where there are none. -/
theorem Conv.put_ne (c : Conv) (lz : Bool) (w : UInt32) {out out' rest rest' : List UInt8}
    (h : c.put (sameWord 0x41) lz w 0x41 = some out) (h' : c.put (sameWord 0x42) lz w 0x42 = some out') :
    out ++ rest ≠ out' ++ rest' := by
  have hpad : ∀ {bf bf' : List UInt8}, bf.length = bf'.length → bf ≠ bf' →
      putchw w lz bf ++ rest ≠ putchw w lz bf' ++ rest' := by
    intro bf bf' hlen hne heq
    rw [putchw, putchw, hlen] at heq
    have hsame := List.append_inj_left heq (by simp [hlen])
    exact hne (List.append_cancel_left hsame)
  cases c with
  | unsigned =>
    cases h
    cases h'
    exact hpad rfl (by decide)
  | signed =>
    cases h
    cases h'
    exact hpad rfl (by decide)
  | hex uc =>
    cases h
    cases h'
    cases uc
    · exact hpad rfl (by decide)
    · exact hpad rfl (by decide)
  | char =>
    cases h
    cases h'
    exact fun heq => absurd (List.cons.inj heq).1 (by decide)
  | string => cases h

/-- What comes out for two numbers alike is not longer than the text, and shorter when there is a `%`
    in it. -/
theorem formatLoop_shorter : ∀ {fuel k : ℕ} {fmt out : List UInt8}, fmt.length ≤ fuel →
    formatLoop (sameWord 0x41) fuel k fmt = some out →
    formatLoop (sameWord 0x42) fuel k fmt = some out →
    out.length ≤ fmt.length ∧ (0x25 ∈ fmt → out.length < fmt.length)
  | 0, _, [], out, _, h, _ => by
    cases h
    exact ⟨Nat.le_refl _, fun hmem => absurd hmem List.not_mem_nil⟩
  | _ + 1, _, [], out, _, h, _ => by
    cases h
    exact ⟨Nat.le_refl _, fun hmem => absurd hmem List.not_mem_nil⟩
  | 0, _, _ :: _, _, hfuel, _, _ => absurd hfuel (Nat.not_succ_le_zero _)
  | fuel + 1, k, ch :: fmt, out, hfuel, h, h' => by
    have hle := Nat.le_of_succ_le_succ hfuel
    rw [formatLoop] at h h'
    by_cases hch : ch ≠ 0x25
    · rw [if_pos hch] at h h'
      obtain ⟨o, ho, rfl⟩ := Option.map_eq_some_iff.mp h
      obtain ⟨o', ho', heq⟩ := Option.map_eq_some_iff.mp h'
      obtain rfl := (List.cons.inj heq).2
      obtain ⟨hlen, hlt⟩ := formatLoop_shorter hle ho ho'
      simp only [List.length_cons, List.mem_cons]
      refine ⟨by omega, ?_⟩
      rintro (rfl | hmem)
      · exact absurd rfl hch
      · have := hlt hmem
        omega
    · rw [if_neg hch] at h h'
      have hsuffix := (flags_suffix fmt).length_le
      -- it is enough that what comes out is shorter
      suffices hshort : out.length ≤ fmt.length by
        rw [List.length_cons]
        exact ⟨by omega, fun _ => by omega⟩
      dsimp only at h h'
      split at h
      · cases h
        exact Nat.zero_le _
      · next c rest hrest =>
        rw [hrest] at h' hsuffix
        rw [List.length_cons] at hsuffix
        dsimp only at h'
        split at h
        · next conv hconv =>
          rw [hconv] at h'
          obtain ⟨o, ho, h⟩ := Option.bind_eq_some_iff.mp h
          obtain ⟨o', ho', h'⟩ := Option.bind_eq_some_iff.mp h'
          obtain ⟨r, -, rfl⟩ := Option.map_eq_some_iff.mp h
          obtain ⟨r', -, heq⟩ := Option.map_eq_some_iff.mp h'
          exact absurd heq.symm (Conv.put_ne conv _ _ ho ho')
        · next hconv =>
          rw [hconv] at h'
          dsimp only at h'
          split at h
          · next hpct =>
            rw [if_pos hpct] at h'
            obtain ⟨o, ho, rfl⟩ := Option.map_eq_some_iff.mp h
            obtain ⟨o', ho', heq⟩ := Option.map_eq_some_iff.mp h'
            obtain rfl := (List.cons.inj heq).2
            have hlen := (formatLoop_shorter (by omega) ho ho').1
            rw [List.length_cons]
            omega
          · next hpct =>
            rw [if_neg hpct] at h'
            have hlen := (formatLoop_shorter (by omega) h h').1
            omega

theorem putchw_nonzero {bf : List UInt8} (h : 0 ∉ bf) (n : UInt32) (z : Bool) : 0 ∉ putchw n z bf := by
  intro h0
  rw [putchw] at h0
  rcases List.mem_append.mp h0 with h0 | h0
  · have hfill := List.eq_of_mem_replicate h0
    cases z
    · exact absurd hfill (by decide)
    · exact absurd hfill (by decide)
  · exact h h0

/-- These numbers put no NUL out. -/
theorem Conv.put_nonzero (c : Conv) (lz : Bool) (w : UInt32) {v : UInt32} (hv : v = 0x41 ∨ v = 0x42)
    {out : List UInt8} (h : c.put (sameWord v) lz w v = some out) : 0 ∉ out := by
  cases c with
  | unsigned =>
    cases h
    refine putchw_nonzero ?_ w lz
    rcases hv with rfl | rfl
    · decide
    · decide
  | signed =>
    cases h
    refine putchw_nonzero ?_ w lz
    rcases hv with rfl | rfl
    · decide
    · decide
  | hex uc =>
    cases h
    refine putchw_nonzero ?_ w lz
    rcases hv with rfl | rfl
    · cases uc <;> decide
    · cases uc <;> decide
  | char =>
    cases h
    rcases hv with rfl | rfl
    · decide
    · decide
  | string => cases h

theorem formatLoop_nonzero {v : UInt32} (hv : v = 0x41 ∨ v = 0x42) :
    ∀ {fuel k : ℕ} {fmt out : List UInt8}, 0 ∉ fmt →
      formatLoop (sameWord v) fuel k fmt = some out → 0 ∉ out
  | 0, _, _, out, _, h => by
    cases h
    exact List.not_mem_nil
  | _ + 1, _, [], out, _, h => by
    cases h
    exact List.not_mem_nil
  | fuel + 1, k, ch :: fmt, out, hfmt, h => by
    rw [List.mem_cons, not_or] at hfmt
    rw [formatLoop] at h
    by_cases hch : ch ≠ 0x25
    · rw [if_pos hch] at h
      obtain ⟨o, ho, rfl⟩ := Option.map_eq_some_iff.mp h
      rw [List.mem_cons, not_or]
      exact ⟨hfmt.1, formatLoop_nonzero hv hfmt.2 ho⟩
    · rw [if_neg hch] at h
      have hsuffix := (flags_suffix fmt).subset
      dsimp only at h
      split at h
      · cases h
        exact List.not_mem_nil
      · next c rest hrest =>
        rw [hrest] at hsuffix
        have hzero : 0 ∉ rest := fun h0 => hfmt.2 (hsuffix (List.mem_cons_of_mem c h0))
        split at h
        · next conv hconv =>
          obtain ⟨o, ho, h⟩ := Option.bind_eq_some_iff.mp h
          obtain ⟨r, hr, rfl⟩ := Option.map_eq_some_iff.mp h
          rw [List.mem_append, not_or]
          exact ⟨conv.put_nonzero _ _ hv ho, formatLoop_nonzero hv hzero hr⟩
        · split at h
          · next hpct =>
            obtain ⟨o, ho, rfl⟩ := Option.map_eq_some_iff.mp h
            rw [List.mem_cons, not_or]
            exact ⟨by rw [hpct]; decide, formatLoop_nonzero hv hzero ho⟩
          · exact formatLoop_nonzero hv hzero h

end Msg
