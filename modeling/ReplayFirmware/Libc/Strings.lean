import ReplayFirmware.Libc.Ctype
import Mathlib.Data.Int.Notation

/-! The string functions that file names go through, from `stringlight.c` and the C library.

    A string is the list of its characters, without the terminating NUL; `char` is unsigned. -/

namespace Libc

/-- The characters `s[0]`, `s[1]`, .. of a string, behind its end its NUL. -/
def charAt (s : List UInt8) (i : ℕ) : UInt8 := s.getD i 0

/-- `strtoul(s, &end, 10)` on a string that starts with a digit: the value, `ULONG_MAX` at most, and
    what is left of the string. -/
def strtoul (s : List UInt8) : ℕ × List UInt8 :=
  (min 0xFFFFFFFF ((s.takeWhile isdigit).foldl (fun acc c => acc * 10 + (c.toNat - 0x30)) 0),
    s.dropWhile isdigit)

theorem strtoul_length (c : UInt8) (s : List UInt8) (hc : isdigit c = true) :
    (strtoul (c :: s)).2.length < (c :: s).length := by
  rw [strtoul, List.dropWhile_cons_of_pos hc]
  exact Nat.lt_succ_of_le (List.dropWhile_suffix isdigit).length_le

/-- `_stricmp_logical`: digits are compared as numbers and come first, letters without case. -/
def stricmpLogical : List UInt8 → List UInt8 → ℤ
  | [], [] => 0
  | [], c2 :: _ => 0 - (c2.toNat : ℤ)
  | c1 :: _, [] => c1.toNat - 0
  | c1 :: s1, c2 :: s2 =>
    if _ : isdigit c1 = true ∨ isdigit c2 = true then
      if _ : isdigit c1 = true ∧ ¬ isdigit c2 = true then -1
      else if _ : ¬ isdigit c1 = true ∧ isdigit c2 = true then 1
      else
        let d1 := (strtoul (c1 :: s1)).1 &&& 0x7FFFFFFF
        let d2 := (strtoul (c2 :: s2)).1 &&& 0x7FFFFFFF
        let v := (d1 : ℤ) - d2
        if v = 0 then stricmpLogical (strtoul (c1 :: s1)).2 (strtoul (c2 :: s2)).2 else v
    else
      let v := ((tolower c1).toNat : ℤ) - (tolower c2).toNat
      if v = 0 then stricmpLogical s1 s2 else v
termination_by s => s.length
decreasing_by
  · exact strtoul_length c1 s1 (by tauto)
  · exact Nat.lt_succ_self _

/-- `_strncmp`, for `n` from 1 on. -/
def strncmp (n : ℕ) : List UInt8 → List UInt8 → ℤ
  | [], [] => 0
  | [], c2 :: _ => 0 - (c2.toNat : ℤ)
  | c1 :: _, [] => c1.toNat - 0
  | c1 :: s1, c2 :: s2 =>
    let v := (c1.toNat : ℤ) - c2.toNat
    if v = 0 ∧ n - 1 > 0 then strncmp (n - 1) s1 s2 else v

/-- `strnicmp(a, b, n) == 0` -/
def strnicmpEq (a b : List UInt8) (n : ℕ) : Bool := (a.take n).map tolower = (b.take n).map tolower

/-- `strcasestr(s, find)` finds something. -/
def strcasestr (find : List UInt8) : List UInt8 → Bool
  | [] => find.isEmpty
  | c :: s => strnicmpEq (c :: s) find find.length || strcasestr find s

/-- `GetExtension`, for a name that is not empty: what follows the last dot that is not its first
    character, unless a slash comes behind it. -/
def getExtension (filename : List UInt8) : List UInt8 :=
  let rec loop : ℕ → List UInt8
    | 0 => []
    | i + 1 =>
      if charAt filename (i + 1) = 0x2E then filename.drop (i + 2)
      else if charAt filename (i + 1) = 0x2F ∨ charAt filename (i + 1) = 0x5C then []
      else loop i
  loop (filename.length - 1)

end Libc
