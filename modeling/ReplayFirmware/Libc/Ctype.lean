import Mathlib.Data.Nat.Notation
import Mathlib.Tactic.Common

/-! The character classes of the firmware's own `ctype.c`, over one byte.

    Its `isxdigit` covers the letters only; callers that want a hexadecimal digit ask `isdigit` as
    well. -/

namespace Libc

def isdigit (c : UInt8) : Bool := 0x30 ≤ c ∧ c ≤ 0x39

def isupper (c : UInt8) : Bool := 0x41 ≤ c ∧ c ≤ 0x5A

def islower (c : UInt8) : Bool := 0x61 ≤ c ∧ c ≤ 0x7A

def isalpha (c : UInt8) : Bool := isupper c || islower c

def isalnum (c : UInt8) : Bool := isalpha c || isdigit c

/-- The letters `A`..`F` and `a`..`f`, without the digits. -/
def isxdigit (c : UInt8) : Bool := (0x41 ≤ c ∧ c ≤ 0x46) ∨ (0x61 ≤ c ∧ c ≤ 0x66)

def isspace (c : UInt8) : Bool := (0x09 ≤ c ∧ c ≤ 0x0D) ∨ c = 0x20

def tolower (c : UInt8) : UInt8 := if isupper c then c ||| 0x20 else c

def toupper (c : UInt8) : UInt8 := if islower c then c &&& ~~~0x20 else c

end Libc
