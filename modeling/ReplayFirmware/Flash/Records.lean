import ReplayFirmware.Flash.SRecord
import Mathlib.Data.List.Basic
import Mathlib.Tactic.Common

/-! The records of an SREC file and the parser's verdict on them.

    `decode` reads a line once and for all handlers; `record_eq` says that the parser's loop body is
    `SRec.run` on the decoded record. `Accepted` is the purpose of the parser: every record up to and
    including a termination record was read, had a matching checksum and was taken by the handler.
    `StopsAt` gives the line at which a run that is not accepted ends. -/

namespace Flash
open FatFs Libc

/-! ### Records -/

/-- A record as its line spells it. `refused` says that the parser itself turns it down: a header
    record with an address, a termination record with data. Those offer no data to the handler. -/
structure SRec where
  type : UInt8
  addr : UInt32
  data : List UInt8
  refused : Bool
  sumOk : Bool
  data_of_refused : refused = true → data = []
  data_of_term : type = 7 → data = []

/-- `n` data bytes from position `s` on. -/
def dataBytes (line : Line) : ℕ → ℕ → List UInt8
  | 0, _ => []
  | n + 1, s => hexByte line s :: dataBytes line n (s + 2)

@[simp] theorem length_dataBytes (line : Line) : ∀ n s, (dataBytes line n s).length = n
  | 0, _ => rfl
  | n + 1, s => by rw [dataBytes, List.length_cons, length_dataBytes line n (s + 2)]

theorem head_refused (line : Line) (type count : UInt8) (s : ℕ)
    (h : (head line type count s).retval ≠ 0) : (head line type count s).len = 0 := by
  revert h
  unfold head
  simp only
  split_ifs <;> simp

theorem head_term (line : Line) (count : UInt8) (s : ℕ) : (head line 7 count s).len = 0 := by
  unfold head
  simp only [show ¬ ((7 : UInt8) = 0) by decide, if_false, or_true, if_true, true_and]
  split_ifs with h
  · rfl
  · simpa using h

/-- The record a line spells; `none` for a line that is not an S-record. -/
def decode (line : Line) : Option SRec :=
  let type := line 1 - 0x30
  let count := hexByte line 2
  if line 0 ≠ 0x53 ∧ 3 ≤ count then none
  else
    let h := head line type count 4
    let data := dataBytes line h.len.toNat h.pos
    let c := hexByte line (h.pos + 2 * data.length)
    some
      { type := type, addr := h.addr, data := data, refused := h.retval ≠ 0
        sumOk := ~~~(data.foldl (· + ·) h.checksum) = c
        data_of_refused := fun hr => by
          have := head_refused line type count 4 (of_decide_eq_true hr)
          simp [data, h, this, dataBytes]
        data_of_term := fun ht => by
          have := head_term line count 4
          simp [data, h, ht, this, dataBytes] }

variable {σ : Type}

/-- The data bytes offered to the handler in turn, up to the first it rejects. -/
def offer (handler : SRECHandler σ) (type : UInt8) (addr : UInt32) (len : UInt8) :
    UInt32 → List UInt8 → σ → Option (UInt8 × σ)
  | _, [], st => some (0, st)
  | i, b :: bs, st =>
    match handler type addr i len b st with
    | none => none
    | some (retval, st) =>
      if retval ≠ 0 then some (retval, st) else offer handler type addr len (i + 1) bs st

/-- The handler's part in a record. -/
def SRec.offer (r : SRec) (handler : SRECHandler σ) (st : σ) : Option (UInt8 × σ) :=
  Flash.offer handler r.type r.addr r.data.length.toUInt8 0 r.data st

/-- What the parser does with a decoded record. -/
def SRec.run (r : SRec) (handler : SRECHandler σ) (st : σ) : Option (Outcome × σ) :=
  match r.offer handler st with
  | none => none
  | some (retval, st) =>
    if retval ≠ 0 ∨ r.refused ∨ !r.sumOk then some (.stop, st)
    else if r.type = 7 then
      match handler r.type r.addr 0 0 0 st with
      | none => none
      | some (retval, st) => if retval = 0 then some (.done, st) else some (.stop, st)
    else some (.next, st)

/-- The data loop is the offer of the decoded bytes; when all are taken it has also summed them up
    and moved past them. -/
theorem dataLoop_eq (handler : SRECHandler σ) (line : Line) (type : UInt8) (addr : UInt32)
    (len : UInt8) : ∀ (n : ℕ) (i : UInt32) (s : ℕ) (rv cs : UInt8) (st : σ),
    match offer handler type addr len i (dataBytes line n s) st with
    | none => dataLoop handler line type addr len n i s rv cs st = none
    | some (rv', st') =>
      if rv' ≠ 0 then
        ∃ cs' s', dataLoop handler line type addr len n i s rv cs st = some (rv', cs', s', st')
      else dataLoop handler line type addr len n i s rv cs st
        = some (if n = 0 then rv else 0, (dataBytes line n s).foldl (· + ·) cs, s + 2 * n, st')
  | 0, i, s, rv, cs, st => by simp [offer, dataBytes, dataLoop]
  | n + 1, i, s, rv, cs, st => by
    simp only [dataBytes, offer, dataLoop]
    cases hh : handler type addr i len (hexByte line s) st with
    | none => rfl
    | some r =>
      obtain ⟨rv1, st1⟩ := r
      by_cases h1 : rv1 = 0
      · subst h1
        have ih := dataLoop_eq handler line type addr len n (i + 1) (s + 2) 0
          (cs + hexByte line s) st1
        simp only [ne_eq, not_true_eq_false, if_false]
        revert ih
        cases offer handler type addr len (i + 1) (dataBytes line n (s + 2)) st1 with
        | none => exact id
        | some r =>
          simp only [List.foldl_cons, ite_self, Nat.add_eq_zero_iff, one_ne_zero, and_false,
            if_false, show s + 2 + 2 * n = s + 2 * (n + 1) by omega]
          exact id
      · simp [h1]

/-- The loop body of the parser, on the decoded record. -/
theorem record_eq (handler : SRECHandler σ) (line : Line) (st : σ) :
    record handler line st = match decode line with
      | none => some (.next, st)
      | some r => r.run handler st := by
  unfold record decode
  simp only
  by_cases hS : line 0 ≠ 0x53 ∧ 3 ≤ hexByte line 2
  · rw [if_pos hS, if_pos hS]
  · rw [if_neg hS, if_neg hS]
    set h := head line (line 1 - 0x30) (hexByte line 2) 4 with hh
    have hloop := dataLoop_eq handler line (line 1 - 0x30) h.addr h.len.toNat.toUInt8 h.len.toNat 0
      h.pos h.retval h.checksum st
    simp only [SRec.run, SRec.offer, length_dataBytes, ← hh]
    revert hloop
    cases offer handler (line 1 - 0x30) h.addr h.len.toNat.toUInt8 0
      (dataBytes line h.len.toNat h.pos) st with
    | none => intro hloop; rw [hloop]
    | some r =>
      obtain ⟨rv, st1⟩ := r
      intro hloop
      by_cases hrv : rv = 0
      · subst hrv
        simp only [ne_eq, not_true_eq_false, if_false] at hloop
        rw [hloop]
        -- the last `retval` is the parser's own when there is no data
        have hrefused : (if h.len.toNat = 0 then h.retval else 0) ≠ 0 ↔ h.retval ≠ 0 := by
          constructor
          · intro hne h0; simp [h0] at hne
          · intro hne; rwa [show h.len.toNat = 0 by rw [head_refused _ _ _ _ hne]; rfl, if_pos rfl]
        simp only [hrefused, ne_eq, not_true_eq_false, false_or, decide_eq_true_eq,
          Bool.not_eq_true', decide_eq_false_iff_not]
        by_cases hstop : ¬ h.retval = 0 ∨
            ¬ ~~~((dataBytes line h.len.toNat h.pos).foldl (· + ·) h.checksum)
              = hexByte line (h.pos + 2 * h.len.toNat)
        · simp only [if_pos hstop]
        · simp only [if_neg hstop]
          by_cases h7 : line 1 - 0x30 = 7
          · have h0 : h.len = 0 := by rw [hh, h7]; exact head_term _ _ _
            simp only [if_pos h7, h0]
            rfl
          · simp only [if_neg h7]
      · simp only [ne_eq, hrv, not_false_eq_true, if_true] at hloop
        obtain ⟨cs', s', hloop⟩ := hloop
        rw [hloop]
        simp [hrv]

end Flash
