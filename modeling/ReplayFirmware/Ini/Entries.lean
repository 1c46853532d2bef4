import ReplayFirmware.Ini.Fields

/-! The entries of a value as a handler of the configuration sees them: a text, unless the field is
    empty, and a number. -/

namespace Ini
open InPlace Splice

/-- `strval`, with the text that it points to, and `intval`. -/
structure ValueEntry where
  strval : Option (List UInt8)
  intval : UInt32
deriving DecidableEq

/-- The entries that `ParseList` fills, with room for `n`. -/
def valueList (v : ValueString) (n : ℕ) (b : ValueBuffer) : Option (List ValueEntry) :=
  (InPlace.parseList (v.chars ++ [0]) n 0 (raw b.freeList)).map fun r =>
    r.1.map fun e => ⟨readEntry r.2.bytes e, e.intval⟩

theorem length_cstr_le (s : List UInt8) : (cstr s).length ≤ s.length :=
  (List.takeWhile_prefix _).length_le

theorem zero_notMem_cstr (s : List UInt8) : 0 ∉ cstr s := by
  intro h0
  simpa using List.mem_takeWhile_imp h0

variable {v : ValueString} {n : ℕ} {b : ValueBuffer} {es : List ValueEntry}

/-- A text is a string of the buffer. -/
theorem text_valueList (h : valueList v n b = some es) {e : ValueEntry} (he : e ∈ es)
    {t : List UInt8} (ht : e.strval = some t) : 0 ∉ t ∧ t.length ≤ maxLineLen := by
  obtain ⟨⟨les, b'⟩, hparse, rfl⟩ := Option.map_eq_some_iff.mp h
  obtain ⟨hsplits, ts, hts, -, rfl⟩ := (parseList_entries ..).mp hparse
  have hlen := length_laid [] hsplits hts
  have hshort := v.short
  obtain ⟨le, -, rfl⟩ := List.mem_map.mp he
  obtain ⟨p, -, rfl⟩ := Option.map_eq_some_iff.mp ht
  refine ⟨zero_notMem_cstr _, (length_cstr_le _).trans ?_⟩
  rw [List.length_drop, length_splice _ (Nat.zero_le _), b.length_eq]
  omega

end Ini
