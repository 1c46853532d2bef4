import ReplayFirmware.Flash.Records

/-! The parser's verdict on a file.

    `Accepted` is what a zero is meant to say: every record up to and including a termination record
    was read, had a matching checksum and was taken by the handler. `StopsAt` gives the line at which
    a run that is not accepted ends. A run is accepted, stops at one line, or never returns
    (`runLines_cases`); the first returns zero, the second its line number squeezed into a byte. -/

namespace Flash
open FatFs

variable {σ : Type} (handler : SRECHandler σ)

/-- The handler took every data byte of a record that reads well. -/
def SRec.Taken (r : SRec) (st st' : σ) : Prop :=
  r.refused = false ∧ r.sumOk = true ∧ r.offer handler st = some (0, st')

/-- A line that leaves the run going: no S-record, or a record taken that does not end the file. -/
def Good (l : Line) (st st' : σ) : Prop :=
  (decode l = none ∧ st' = st) ∨ ∃ r, decode l = some r ∧ r.type ≠ 7 ∧ r.Taken handler st st'

/-- A termination record the handler accepts. -/
def Ends (l : Line) (st st' : σ) : Prop :=
  ∃ r st1, decode l = some r ∧ r.type = 7 ∧ r.Taken handler st st1 ∧
    handler r.type r.addr 0 0 0 st1 = some (0, st')

/-- A bad record: refused by the parser, rejected by the handler, or with a wrong checksum. -/
def Bad (l : Line) (st : σ) : Prop :=
  ∃ r rv st1, decode l = some r ∧ r.offer handler st = some (rv, st1) ∧
    (rv ≠ 0 ∨ r.refused = true ∨ r.sumOk = false ∨
      (r.type = 7 ∧ ∃ rv' st2, handler r.type r.addr 0 0 0 st1 = some (rv', st2) ∧ rv' ≠ 0))

/-- Every record up to and including a termination record is taken. -/
inductive Accepted : List Line → σ → σ → Prop
  | ends {l ls st st'} : Ends handler l st st' → Accepted (l :: ls) st st'
  | more {l ls st st1 st'} : Good handler l st st1 → Accepted ls st1 st' → Accepted (l :: ls) st st'

/-- The run ends at line `k` without a termination record: line `k` is bad, or the last. -/
inductive StopsAt : List Line → σ → ℕ → Prop
  | eof {st} : StopsAt [] st 0
  | bad {l ls st} : Bad handler l st → StopsAt (l :: ls) st 1
  | more {l ls st st1 k} : Good handler l st st1 → StopsAt ls st1 k → StopsAt (l :: ls) st (k + 1)

/-! ### One line -/

theorem record_of_good {handler : SRECHandler σ} {l : Line} {st st' : σ}
    (h : Good handler l st st') : record handler l st = some (.next, st') := by
  rw [record_eq]
  obtain ⟨hd, rfl⟩ | ⟨r, hd, h7, href, hsum, hoff⟩ := h
  · rw [hd]
  · rw [hd]
    simp [SRec.run, hoff, href, hsum, h7]

theorem record_of_ends {handler : SRECHandler σ} {l : Line} {st st' : σ}
    (h : Ends handler l st st') : record handler l st = some (.done, st') := by
  obtain ⟨r, st1, hd, h7, ⟨href, hsum, hoff⟩, hfin⟩ := h
  rw [record_eq, hd]
  simp only [h7] at hfin
  simp [SRec.run, hoff, href, hsum, h7, hfin]

theorem record_of_bad {handler : SRECHandler σ} {l : Line} {st : σ} (h : Bad handler l st) :
    ∃ st', record handler l st = some (.stop, st') := by
  obtain ⟨r, rv, st1, hd, hoff, hbad⟩ := h
  rw [record_eq, hd]
  simp only [SRec.run, hoff]
  by_cases hstop : rv ≠ 0 ∨ r.refused ∨ !r.sumOk
  · exact ⟨st1, by simp only [if_pos hstop]⟩
  · rw [if_neg hstop]
    obtain hrv | href | hsum | ⟨h7, rv', st2, hfin, hrv'⟩ := hbad
    · exact absurd (.inl hrv) hstop
    · exact absurd (.inr (.inl href)) hstop
    · exact absurd (.inr (.inr (by simp [hsum]))) hstop
    · exact ⟨st2, by rw [if_pos h7, hfin]; simp only [if_neg hrv']⟩

/-- The loop body has no other way to go. -/
theorem record_cases (l : Line) (st : σ) :
    record handler l st = none ∨ (∃ st', Good handler l st st') ∨ (∃ st', Ends handler l st st') ∨
      Bad handler l st := by
  rw [record_eq]
  cases hd : decode l with
  | none => exact .inr (.inl ⟨st, .inl ⟨hd, rfl⟩⟩)
  | some r =>
    simp only [SRec.run]
    cases hoff : r.offer handler st with
    | none => exact .inl rfl
    | some p =>
      obtain ⟨rv, st1⟩ := p
      by_cases hrv : rv = 0
      · subst hrv
        cases href : r.refused with
        | true => exact .inr (.inr (.inr ⟨r, 0, st1, hd, hoff, .inr (.inl href)⟩))
        | false =>
          cases hsum : r.sumOk with
          | false => exact .inr (.inr (.inr ⟨r, 0, st1, hd, hoff, .inr (.inr (.inl hsum))⟩))
          | true =>
            have htaken : r.Taken handler st st1 := ⟨href, hsum, hoff⟩
            by_cases h7 : r.type = 7
            · cases hfin : handler r.type r.addr 0 0 0 st1 with
              | none => left; rw [h7] at hfin; simp [h7, hfin]
              | some q =>
                obtain ⟨rv', st2⟩ := q
                by_cases hrv' : rv' = 0
                · subst hrv'
                  exact .inr (.inr (.inl ⟨st2, r, st1, hd, h7, htaken, hfin⟩))
                · exact .inr (.inr (.inr
                    ⟨r, 0, st1, hd, hoff, .inr (.inr (.inr ⟨h7, rv', st2, hfin, hrv'⟩))⟩))
            · exact .inr (.inl ⟨st1, .inr ⟨r, hd, h7, htaken⟩⟩)
      · exact .inr (.inr (.inr ⟨r, rv, st1, hd, hoff, .inl hrv⟩))

/-! ### The whole run -/

variable {handler}

theorem runLines_good {l : Line} {st st' : σ} (h : Good handler l st st') (ls : List Line) (n : ℕ) :
    runLines handler (l :: ls) n st = runLines handler ls (n + 1) st' := by
  rw [runLines, record_of_good h]

theorem runLines_of_accepted {ls : List Line} {st st' : σ} (h : Accepted handler ls st st') :
    ∀ n, runLines handler ls n st = some (0, st') := by
  induction h with
  | ends hl => intro n; rw [runLines, record_of_ends hl]
  | more hl _ ih => intro n; rw [runLines_good hl]; exact ih (n + 1)

theorem runLines_of_stopsAt {ls : List Line} {st : σ} {k : ℕ} (h : StopsAt handler ls st k) :
    ∀ n, ∃ st', runLines handler ls n st = some (n + k, st') := by
  induction h with
  | eof => exact fun n => ⟨_, rfl⟩
  | bad hl =>
    intro n
    obtain ⟨st', hr⟩ := record_of_bad hl
    exact ⟨st', by rw [runLines, hr]⟩
  | @more l ls st st1 k hl _ ih =>
    intro n
    obtain ⟨st', hr⟩ := ih (n + 1)
    exact ⟨st', by rw [runLines_good hl, hr, Nat.add_right_comm, Nat.add_assoc]⟩

/-- A run never returns, is accepted, or stops at a line. -/
theorem runLines_cases : ∀ (ls : List Line) (n : ℕ) (st : σ),
    runLines handler ls n st = none ∨ (∃ st', Accepted handler ls st st') ∨
      ∃ k, StopsAt handler ls st k
  | [], _, _ => .inr (.inr ⟨0, .eof⟩)
  | l :: ls, n, st => by
    obtain hnone | ⟨st1, hgood⟩ | ⟨st', hends⟩ | hbad := record_cases handler l st
    · left; rw [runLines, hnone]
    · obtain hrun | ⟨st', hacc⟩ | ⟨k, hstop⟩ := runLines_cases ls (n + 1) st1
      · left; rw [runLines_good hgood]; exact hrun
      · exact .inr (.inl ⟨st', .more hgood hacc⟩)
      · exact .inr (.inr ⟨k + 1, .more hgood hstop⟩)
    · exact .inr (.inl ⟨st', .ends hends⟩)
    · exact .inr (.inr ⟨1, .bad hbad⟩)

theorem Accepted.not_stopsAt {ls : List Line} {st st' : σ} (h : Accepted handler ls st st') {k : ℕ} :
    ¬ StopsAt handler ls st k := by
  intro hs
  -- the two runs would return different line numbers
  obtain ⟨st'', hr⟩ := runLines_of_stopsAt hs 1
  rw [runLines_of_accepted h 1] at hr
  simp only [Option.some.injEq, Prod.mk.injEq] at hr
  omega

/-! ### The verdict -/

/-- The file opens and every record up to and including a termination record is taken. -/
def FileAccepted (file : Option File) (handler : Option (SRECHandler σ)) (line : Line)
    (st st' : σ) : Prop :=
  ∃ f h, file = some f ∧ handler = some h ∧ Accepted h (fileLines f line) st st'

/-- The file opens, and its run ends at line `k` without a termination record. -/
def FileStopsAt (file : Option File) (handler : Option (SRECHandler σ)) (line : Line) (st : σ)
    (k : ℕ) : Prop :=
  ∃ f h, file = some f ∧ handler = some h ∧ StopsAt h (fileLines f line) st k

/-- The verdict tells the two apart: zero means accepted, and a file that stops anywhere is reported
    with a non-zero value. -/
def TrueVerdict (file : Option File) (handler : Option (SRECHandler σ)) (line : Line) (st : σ) :
    Prop :=
  (∀ st', parseSRecords file handler line st = some (0, st') ↔
      FileAccepted file handler line st st') ∧
    ∀ k, FileStopsAt file handler line st k →
      ∃ rv st', parseSRecords file handler line st = some (rv, st') ∧ rv ≠ 0

theorem parseSRecords_of_accepted {file : Option File} {handler : Option (SRECHandler σ)}
    {line : Line} {st st' : σ} (h : FileAccepted file handler line st st') :
    parseSRecords file handler line st = some (0, st') := by
  obtain ⟨f, h, rfl, rfl, hacc⟩ := h
  rw [parseSRecords_eq, runLines_of_accepted hacc 0]
  rfl

theorem parseSRecords_of_stopsAt {file : Option File} {handler : Option (SRECHandler σ)}
    {line : Line} {st : σ} {k : ℕ} (h : FileStopsAt file handler line st k) :
    ∃ st', parseSRecords file handler line st = some (k.toUInt8, st') := by
  obtain ⟨f, h, rfl, rfl, hstop⟩ := h
  obtain ⟨st', hr⟩ := runLines_of_stopsAt hstop 0
  exact ⟨st', by rw [parseSRecords_eq, hr, Nat.zero_add]; rfl⟩

/-- Without a stop a zero comes from an accepted file only. -/
theorem accepted_or_stopsAt {file : Option File} {handler : Option (SRECHandler σ)} {line : Line}
    {st st' : σ} (h : parseSRecords file handler line st = some (0, st')) :
    FileAccepted file handler line st st' ∨ ∃ k, FileStopsAt file handler line st k := by
  match handler, file with
  | none, _ => exact absurd h (by simp [parseSRecords])
  | some h', none => exact absurd h (by simp [parseSRecords])
  | some h', some f =>
    obtain hnone | ⟨st1, hacc⟩ | ⟨k, hstop⟩ := @runLines_cases _ h' (fileLines f line) 0 st
    · rw [parseSRecords_eq, hnone] at h
      exact absurd h (by simp)
    · left
      have hf : FileAccepted (some f) (some h') line st st1 := ⟨f, h', rfl, rfl, hacc⟩
      rw [parseSRecords_of_accepted hf] at h
      simp only [Option.some.injEq, Prod.mk.injEq, true_and] at h
      exact h ▸ hf
    · exact .inr ⟨k, f, h', rfl, rfl, hstop⟩

theorem FileAccepted.not_stopsAt {file : Option File} {handler : Option (SRECHandler σ)}
    {line : Line} {st st' : σ} (h : FileAccepted file handler line st st') {k : ℕ} :
    ¬ FileStopsAt file handler line st k := by
  rintro ⟨f', h', hf, hh, hstop⟩
  obtain ⟨f, h, rfl, rfl, hacc⟩ := h
  obtain rfl : f = f' := by simpa using hf
  obtain rfl : h = h' := by simpa using hh
  exact hacc.not_stopsAt hstop

theorem toUInt8_eq_zero_iff (k : ℕ) : k.toUInt8 = 0 ↔ k % 256 = 0 := by
  rw [← UInt8.toNat_inj]
  simp

/-- The verdict is true exactly when the run does not stop at a line whose number is a multiple of
    256, the end of an empty file included. -/
theorem trueVerdict_iff (file : Option File) (handler : Option (SRECHandler σ)) (line : Line)
    (st : σ) :
    TrueVerdict file handler line st ↔
      ∀ k, FileStopsAt file handler line st k → k % 256 ≠ 0 := by
  constructor
  · rintro ⟨_, hstops⟩ k hk h0
    obtain ⟨st', hr⟩ := parseSRecords_of_stopsAt hk
    obtain ⟨rv, st'', hr', hrv⟩ := hstops k hk
    rw [hr, (toUInt8_eq_zero_iff k).mpr h0] at hr'
    simp only [Option.some.injEq, Prod.mk.injEq] at hr'
    exact hrv hr'.1.symm
  · intro hk
    have hstops : ∀ k, FileStopsAt file handler line st k →
        ∃ rv st', parseSRecords file handler line st = some (rv, st') ∧ rv ≠ 0 := by
      intro k hstop
      obtain ⟨st', hr⟩ := parseSRecords_of_stopsAt hstop
      exact ⟨_, st', hr, fun h0 => hk k hstop ((toUInt8_eq_zero_iff k).mp h0)⟩
    refine ⟨fun st' => ⟨fun h0 => ?_, parseSRecords_of_accepted⟩, hstops⟩
    obtain hacc | ⟨k, hstop⟩ := accepted_or_stopsAt h0
    · exact hacc
    · obtain ⟨rv, st'', hr, hrv⟩ := hstops k hstop
      rw [h0] at hr
      simp only [Option.some.injEq, Prod.mk.injEq] at hr
      exact absurd hr.1.symm hrv

/-- An empty file on a volume with 512 byte clusters. -/
def emptyFile : File :=
  { data := [], slack := fun _ => 0, cap := 0, csize := 512, readable := 0
    size_le := le_refl 0, csize_pos := sector_pos }

/-- An empty file has no termination record, and is reported as accepted. -/
theorem emptyFile_verdict :
    ¬ TrueVerdict (some emptyFile) (some fun _ _ _ _ _ (st : Unit) => some (0, st)) (fun _ => 0)
      () := by
  rintro ⟨_, hstops⟩
  obtain ⟨rv, st', hr, hrv⟩ := hstops 0 ⟨emptyFile, _, rfl, rfl, .eof⟩
  have h0 : parseSRecords (some emptyFile) (some fun _ _ _ _ _ (st : Unit) => some (0, st))
      (fun _ => 0) () = some (0, ()) := rfl
  rw [h0] at hr
  simp only [Option.some.injEq, Prod.mk.injEq] at hr
  exact hrv hr.1.symm

end Flash
