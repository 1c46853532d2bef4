import Mathlib.Data.List.DropRight
import ReplayFirmware.Ini.Symtab

/-! One line of an INI file: a section, a keyword with its value, or nothing.

    A string is the list of its characters, without the terminating NUL; a null pointer is `none`.
    An empty value is a null pointer (`FindFirstChar` has it so), and the NUL that is then put
    behind its end goes to address 1. -/

namespace Ini
open Libc

variable {σ : Type}

/-! ### The strings -/

/-- The string in a character buffer. -/
def cstr (buf : List UInt8) : List UInt8 := buf.takeWhile (· ≠ 0)

def stripTrailingSpaces (s : List UInt8) : List UInt8 := s.rdropWhile isspace

def findFirstChar (s : List UInt8) : Option (List UInt8) :=
  if s = [] then none else some (s.dropWhile isspace)

/-- `FindLastChar`, as the number of characters up to the one that it points to. -/
def findLastChar (s : List UInt8) : ℕ := max 1 (s.rdropWhile isspace).length

/-- What `FindChar` goes past: all but the character and the start of a comment. -/
def passes (c x : UInt8) : Bool := x ≠ c ∧ x ≠ 0x3B ∧ x ≠ 0x23

/-- `FindChar`: what is in front of the place it finds, and what is from there on. -/
def findChar (s : List UInt8) (c : UInt8) : List UInt8 × List UInt8 :=
  (s.takeWhile (passes c), s.dropWhile (passes c))

/-! ### The handler -/

/-- What the parser calls: the handler of its caller, with section, name and value, and `FreeList`
    for the values that handlers have parsed. A handler says 0 when it succeeds. -/
structure Client (σ : Type) where
  parseHandle : σ → Symbol → Symbol → Option (List UInt8) → UInt8 × σ
  freeList : σ → σ

/-- A call of the handler. -/
structure Call where
  iniSection : Symbol
  name : Symbol
  value : Option (List UInt8)
deriving DecidableEq, Repr

/-- What a parse carries from line to line: the section, the dataset of the handler, and the calls
    it has made. -/
structure Progress (σ : Type) where
  iniSection : Symbol
  config : σ
  calls : List Call

def Progress.call (p : Progress σ) (k : Client σ) (name : Symbol) (value : Option (List UInt8)) :
    UInt8 × Progress σ :=
  let r := k.parseHandle p.config p.iniSection name value
  (r.1, { p with config := r.2, calls := p.calls ++ [⟨p.iniSection, name, value⟩] })

/-- `ParseLine`: 0, or the number of the line. A name that is unknown, or not valid as a name, is an
    error, and the handler is called all the same. -/
def parseLine (k : Client σ) (lineNumber : UInt32) (lineBuffer : List UInt8) (p : Progress σ) :
    UInt32 × Progress σ :=
  let p := { p with config := k.freeList p.config }
  match findFirstChar (stripTrailingSpaces (cstr lineBuffer)) with
  | none | some [] => (0, p)
  | some (c :: start) =>
    if c = 0x5B then
      let end' := findChar start 0x5D
      if end'.2.head? = some 0x5D then
        let entry := lookup end'.1
        let p := { p with iniSection := entry.token }
        if entry.token = .unknown then (lineNumber, p)
        else if entry.isSection = false then (lineNumber, p)
        else
          let r := p.call k .unknown none
          (if r.1 ≠ 0 then lineNumber else 0, r.2)
      else (lineNumber, p)
    else if c ≠ 0x3B ∧ c ≠ 0x23 then
      let end' := findChar start 0x3D
      if end'.2.head? = some 0x3D then
        let entry := lookup (stripTrailingSpaces (c :: end'.1))
        let value := (findFirstChar end'.2.tail).map fun v => v.take (findLastChar v)
        let lineError :=
          if entry.token = .unknown then lineNumber
          else if entry.isSection = true then lineNumber
          else 0
        let r := p.call k entry.token value
        (if r.1 ≠ 0 then lineNumber else lineError, r.2)
      else (0, p)
    else (0, p)

/-- The line is parsed, and the handler succeeds. -/
def Parsed (k : Client σ) (lineBuffer : List UInt8) (p : Progress σ) : Prop :=
  (parseLine k 1 lineBuffer p).1 = 0

instance (k : Client σ) (lineBuffer : List UInt8) (p : Progress σ) :
    Decidable (Parsed k lineBuffer p) := inferInstanceAs (Decidable (_ = _))

/-- The number of a line is only what is returned when it fails. -/
theorem parseLine_eq (k : Client σ) (lineNumber : UInt32) (lineBuffer : List UInt8)
    (p : Progress σ) : parseLine k lineNumber lineBuffer p
      = (if Parsed k lineBuffer p then 0 else lineNumber, (parseLine k 1 lineBuffer p).2) := by
  have hone : ¬ (1 : UInt32) = 0 := by decide
  unfold Parsed parseLine
  simp only
  split
  · rfl
  · rfl
  · split_ifs <;> first | rfl | contradiction

end Ini
