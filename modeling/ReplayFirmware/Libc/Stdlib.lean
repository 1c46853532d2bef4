import ReplayFirmware.Libc.Ctype
import Mathlib.Algebra.Order.Ring.Nat

/-! `strtoul` and `strtol` of the C library, where a `long` has 32 bits.

    Blanks and a sign are passed, then a prefix that goes with the base; the digits that follow are the
    number. What is out of range saturates. -/

namespace Libc.Stdlib

/-- The value of a character as a digit; 36 when it is none. -/
def digitValue (c : UInt8) : ℕ :=
  if isdigit c then c.toNat - 0x30
  else if islower c then c.toNat - 0x61 + 10
  else if isupper c then c.toNat - 0x41 + 10
  else 36

def isDigitOf (base : ℕ) (c : UInt8) : Bool := digitValue c < base

/-- The number that digits stand for. -/
def valueOf (base : ℕ) (ds : List UInt8) : ℕ := ds.foldl (fun n c => n * base + digitValue c) 0

/-- A sign, and what is behind it. -/
def sign : List UInt8 → Bool × List UInt8
  | 0x2D :: s => (true, s)
  | 0x2B :: s => (false, s)
  | s => (false, s)

/-- The base, and the string behind its prefix: `0x` belongs to 16, when a digit follows, and 0 to 8. -/
def prefixed (base : ℕ) (s : List UInt8) : ℕ × List UInt8 :=
  match s with
  | 0x30 :: x :: d :: t =>
    if (base = 0 ∨ base = 16) ∧ (x = 0x78 ∨ x = 0x58) ∧ isDigitOf 16 d = true then (16, d :: t)
    else (if base = 0 then 8 else base, s)
  | 0x30 :: _ => (if base = 0 then 8 else base, s)
  | _ => (if base = 0 then 10 else base, s)

/-- The sign and the number that a string begins with. -/
def subject (s : List UInt8) (base : ℕ) : Bool × ℕ :=
  let signed := sign (s.dropWhile isspace)
  let digits := prefixed base signed.2
  (signed.1, valueOf digits.1 (digits.2.takeWhile (isDigitOf digits.1)))

/-- `strtoul(s, NULL, base)` -/
def strtoul (s : List UInt8) (base : ℕ) : UInt32 :=
  let n := subject s base
  if 2 ^ 32 ≤ n.2 then 0xFFFFFFFF else if n.1 then -n.2.toUInt32 else n.2.toUInt32

/-- `strtol(s, NULL, base)` -/
def strtol (s : List UInt8) (base : ℕ) : UInt32 :=
  let n := subject s base
  if n.1 then if 2 ^ 31 < n.2 then 0x80000000 else -n.2.toUInt32
  else if 2 ^ 31 ≤ n.2 then 0x7FFFFFFF else n.2.toUInt32

end Libc.Stdlib
