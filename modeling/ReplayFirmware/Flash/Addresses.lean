import ReplayFirmware.Flash.Upload

/-! Which files the fill loops of the two handlers come to an end with.

    A handler refuses an address below `srecCurrentAddr` and fills up to any other one, so which
    addresses it takes can be told from the addresses alone: `addressHandler`. The last of all addresses
    is none that it can be filled up to, for `srecCurrentAddr` wraps there. -/

namespace Flash
open FatFs FileIO.MCh

variable {σ α β : Type} {D : σ → Bool} {handler : SRECHandler σ}

/-! ### Handlers that stop -/

/-- A handler that has no outcome once its state is such. -/
def cut (D : σ → Bool) (handler : SRECHandler σ) : SRECHandler σ := fun type base offset length value st =>
  (handler type base offset length value st).filter fun r => !D r.2

/-- A step, and what follows its answer. -/
def andThen (step : σ → Option (α × σ)) (next : α → σ → Option (β × σ)) (st : σ) : Option (β × σ) :=
  (step st).bind fun r => next r.1 r.2

/-- A step that keeps such states, and the same step without an outcome there. -/
structure Cuts (D : σ → Bool) (step stopping : σ → Option (α × σ)) : Prop where
  stays : ∀ {st r}, step st = some r → D st = true → D r.2 = true
  eq : ∀ {st}, D st = false → stopping st = (step st).filter fun r => !D r.2

theorem filter_eq_none {p : α → Bool} {a : α} (h : p a = false) : (some a).filter p = none := by
  rw [Option.filter, h]
  rfl

theorem filter_eq_some {p : α → Bool} {a : α} (h : p a = true) : (some a).filter p = some a := by
  rw [Option.filter, h]
  rfl

theorem Cuts.pure (a : α) : Cuts D (fun st => some (a, st)) fun st => some (a, st) where
  stays h hst := Option.some.inj h ▸ hst
  eq hst := (filter_eq_some (by rw [hst]; rfl)).symm

theorem Cuts.bind {f g : σ → Option (α × σ)} {F G : α → σ → Option (β × σ)} (h : Cuts D f g)
    (hF : ∀ a, Cuts D (F a) (G a)) :
    Cuts D (andThen f F) (andThen g G) where
  stays {st r} hr hst := by
    obtain ⟨q, hq, hqr⟩ := Option.bind_eq_some_iff.mp hr
    exact (hF q.1).stays hqr (h.stays hq hst)
  eq {st} hst := by
    rw [andThen, andThen, h.eq hst]
    cases hf : f st with
    | none => rfl
    | some q =>
      cases hq : D q.2 with
      | false =>
        rw [filter_eq_some (by rw [hq]; rfl)]
        exact (hF q.1).eq hq
      | true =>
        rw [filter_eq_none (by rw [hq]; rfl), Option.bind_some, Option.bind_none]
        cases hr : F q.1 q.2 with
        | none => rfl
        | some r => rw [filter_eq_none (by rw [(hF q.1).stays hr hq]; rfl)]

/-- A handler keeps such states. -/
def Stays (D : σ → Bool) (handler : SRECHandler σ) : Prop :=
  ∀ type base offset length value, Cuts D (handler type base offset length value)
    (cut D handler type base offset length value)

theorem offer_cons (handler : SRECHandler σ) (type : UInt8) (addr : UInt32) (len : UInt8) (i : UInt32)
    (b : UInt8) (bs : List UInt8) : offer handler type addr len i (b :: bs) =
      andThen (handler type addr i len b) fun retval =>
        if retval ≠ 0 then fun st => some (retval, st) else offer handler type addr len (i + 1) bs := by
  funext st
  rw [offer, andThen]
  cases handler type addr i len b st with
  | none => rfl
  | some r =>
    simp only [Option.bind_some]
    split <;> rfl

theorem run_andThen (r : SRec) (handler : SRECHandler σ) : r.run handler =
    andThen (r.offer handler) fun retval =>
      if retval ≠ 0 ∨ r.refused = true ∨ (!r.sumOk) = true then fun st => some (Outcome.stop, st)
      else if r.type = 7 then andThen (handler r.type r.addr 0 0 0) fun retval st =>
        some (if retval = 0 then Outcome.done else .stop, st)
      else fun st => some (Outcome.next, st) := by
  funext st
  rw [SRec.run, andThen]
  cases r.offer handler st with
  | none => rfl
  | some q =>
    simp only [Option.bind_some]
    split
    · rfl
    · split
      · rw [andThen]
        cases handler r.type r.addr 0 0 0 q.2 with
        | none => rfl
        | some q =>
          simp only [Option.bind_some]
          split <;> rfl
      · rfl

theorem record_elim (handler : SRECHandler σ) (l : Line) : record handler l =
    (decode l).elim (fun st => some (Outcome.next, st)) fun r => r.run handler := by
  funext st
  rw [record_eq]
  cases decode l <;> rfl

/-- What follows a record. -/
def behind (handler : SRECHandler σ) (ls : List Line) (n : ℕ) : Outcome → σ → Option (ℕ × σ)
  | .next => runLines handler ls (n + 1)
  | .stop => fun st => some (n + 1, st)
  | .done => fun st => some (0, st)

theorem runLines_cons (handler : SRECHandler σ) (l : Line) (ls : List Line) (n : ℕ) :
    runLines handler (l :: ls) n = andThen (record handler l) (behind handler ls n) := by
  funext st
  rw [runLines, andThen]
  cases record handler l st with
  | none => rfl
  | some r =>
    obtain ⟨o, st⟩ := r
    cases o <;> rfl

theorem parseSRecords_andThen (handler : SRECHandler σ) (file : File) (line : Line) :
    parseSRecords (some file) (some handler) line =
      andThen (runLines handler (fileLines file line) 0) fun n st => some (n.toUInt8, st) := by
  funext st
  rw [parseSRecords_eq, andThen]
  cases runLines handler (fileLines file line) 0 st <;> rfl

theorem Cuts.offer (h : Stays D handler) (type : UInt8) (addr : UInt32) (len : UInt8) :
    ∀ (bs : List UInt8) (i : UInt32),
      Cuts D (Flash.offer handler type addr len i bs) (Flash.offer (cut D handler) type addr len i bs)
  | [], _ => Cuts.pure 0
  | b :: bs, i => by
    rw [offer_cons, offer_cons]
    refine (h type addr i len b).bind fun retval => ?_
    split
    · exact Cuts.pure retval
    · exact Cuts.offer h type addr len bs (i + 1)

theorem Cuts.run (h : Stays D handler) (r : SRec) : Cuts D (r.run handler) (r.run (cut D handler)) := by
  rw [run_andThen, run_andThen]
  refine Cuts.bind (Cuts.offer h r.type r.addr _ r.data 0) fun retval => ?_
  split
  · exact Cuts.pure Outcome.stop
  · split
    · exact (h r.type r.addr 0 0 0).bind fun retval => Cuts.pure _
    · exact Cuts.pure Outcome.next

theorem Cuts.record (h : Stays D handler) (l : Line) :
    Cuts D (Flash.record handler l) (Flash.record (cut D handler) l) := by
  rw [record_elim, record_elim]
  cases decode l with
  | none => exact Cuts.pure Outcome.next
  | some r => exact Cuts.run h r

theorem Cuts.runLines (h : Stays D handler) : ∀ (ls : List Line) (n : ℕ),
    Cuts D (Flash.runLines handler ls n) (Flash.runLines (cut D handler) ls n)
  | [], n => Cuts.pure n
  | l :: ls, n => by
    rw [runLines_cons, runLines_cons]
    refine (Cuts.record h l).bind fun o => ?_
    cases o with
    | next => exact Cuts.runLines h ls (n + 1)
    | stop => exact Cuts.pure (n + 1)
    | done => exact Cuts.pure 0

theorem Cuts.parseSRecords (h : Stays D handler) (file : Option File) (line : Line) :
    Cuts D (parseSRecords file (some handler) line) (parseSRecords file (some (cut D handler)) line) := by
  cases file with
  | none => exact Cuts.pure 0xFF
  | some file =>
    rw [parseSRecords_andThen, parseSRecords_andThen]
    exact (Cuts.runLines h _ 0).bind fun n => Cuts.pure n.toUInt8

/-! ### Handlers that always answer -/

/-- A step that has an outcome in every state. -/
def Total (step : σ → Option (α × σ)) : Prop := ∀ st, (step st).isSome = true

theorem Total.andThen {f : σ → Option (α × σ)} {F : α → σ → Option (β × σ)} (hf : Total f)
    (hF : ∀ a, Total (F a)) : Total (andThen f F) := fun st => by
  obtain ⟨r, hr⟩ := Option.isSome_iff_exists.mp (hf st)
  rw [Flash.andThen, hr]
  exact hF r.1 r.2

/-- The parser has an outcome when its handler has. -/
theorem parseSRecords_total (h : ∀ type base offset length value, Total (handler type base offset length value))
    (file : Option File) (line : Line) : Total (parseSRecords file (some handler) line) := by
  have hoffer : ∀ type addr len (bs : List UInt8) i, Total (offer handler type addr len i bs) := by
    intro type addr len bs
    induction bs with
    | nil => exact fun _ _ => rfl
    | cons b bs ih =>
      intro i
      rw [offer_cons]
      refine (h type addr i len b).andThen fun retval => ?_
      split
      · exact fun _ => rfl
      · exact ih (i + 1)
  have hrecord : ∀ l, Total (record handler l) := by
    intro l
    rw [record_elim]
    cases decode l with
    | none => exact fun _ => rfl
    | some r =>
      show Total (r.run handler)
      rw [run_andThen]
      refine Total.andThen (hoffer r.type r.addr _ r.data 0) fun retval => ?_
      split
      · exact fun _ => rfl
      · split
        · exact (h r.type r.addr 0 0 0).andThen fun _ _ => rfl
        · exact fun _ => rfl
  have hlines : ∀ (ls : List Line) n, Total (runLines handler ls n) := by
    intro ls
    induction ls with
    | nil => exact fun _ _ => rfl
    | cons l ls ih =>
      intro n
      rw [runLines_cons]
      refine (hrecord l).andThen fun o => ?_
      cases o with
      | next => exact ih (n + 1)
      | stop => exact fun _ => rfl
      | done => exact fun _ => rfl
  cases file with
  | none => exact fun _ => rfl
  | some file =>
    rw [parseSRecords_andThen]
    exact (hlines _ 0).andThen fun _ _ => rfl

/-! ### Addresses -/

/-- The address behind all that are taken, and what is taken. -/
structure Taken where
  next : ℕ
  addrs : List UInt32

/-- What a handler takes, told from the addresses alone. -/
def addressHandler : SRECHandler Taken := fun type base offset _ _ t =>
  let addr := base + offset
  if type = 0 ∨ type = 7 then some (0, t)
  else if addr.toNat < t.next then some (0xFF, t)
  else some (0, ⟨addr.toNat + 1, t.addrs ++ [addr]⟩)

/-- The addresses of the data bytes that a file has taken, from an address on. -/
def takenFrom (file : Option File) (line : Line) (start : ℕ) : List UInt32 :=
  (parseSRecords file (some addressHandler) line ⟨start, []⟩).elim [] fun r => r.2.addrs

def Taken.last (t : Taken) : Bool := 0xFFFFFFFF ∈ t.addrs

theorem address_stays : Stays Taken.last addressHandler := by
  intro type base offset length value
  refine ⟨fun {t r} h hlast => ?_, fun _ => rfl⟩
  rw [addressHandler] at h
  split at h
  · exact Option.some.inj h ▸ hlast
  · split at h
    · exact Option.some.inj h ▸ hlast
    · obtain rfl := Option.some.inj h
      exact decide_eq_true (List.mem_append_left _ (of_decide_eq_true hlast))

theorem address_total (type : UInt8) (base offset : UInt32) (length value : UInt8) :
    Total (addressHandler type base offset length value) := by
  intro t
  rw [addressHandler]
  split
  · rfl
  · split <;> rfl

/-! ### The fill loop -/

variable {flush : Statics → Statics}

theorem putByte_addr (hflush : ∀ s, (flush s).srecCurrentAddr = s.srecCurrentAddr) (b : UInt8) (s : Statics) :
    (putByte flush b s).srecCurrentAddr = s.srecCurrentAddr + 1 := by
  rw [putByte]
  simp only
  split
  · exact hflush _
  · rfl

/-- The loop ends one behind an address that is not the last one. -/
theorem fillLoop_addr (hflush : ∀ s, (flush s).srecCurrentAddr = s.srecCurrentAddr) {addr : UInt32}
    (hne : addr ≠ 0xFFFFFFFF) (value : UInt8) : ∀ (n fuel : ℕ) (s : Statics),
    addr.toNat + 1 = s.srecCurrentAddr.toNat + n → n < fuel →
    ∃ s', fillLoop flush addr value fuel s = some s' ∧ s'.srecCurrentAddr.toNat = addr.toNat + 1
  | _, 0, _, _, hfuel => absurd hfuel (Nat.not_lt_zero _)
  | 0, fuel + 1, s, hn, _ => by
    have hpast : ¬s.srecCurrentAddr ≤ addr := by
      rw [UInt32.le_iff_toNat_le]
      omega
    exact ⟨s, by rw [fillLoop, if_neg hpast], hn.symm⟩
  | n + 1, fuel + 1, s, hn, hfuel => by
    have hle : s.srecCurrentAddr ≤ addr := by
      rw [UInt32.le_iff_toNat_le]
      omega
    have hcur : s.srecCurrentAddr ≠ 0xFFFFFFFF := by
      intro h
      rw [h] at hle
      exact hne (UInt32.le_antisymm (UInt32.le_iff_toNat_le.mpr (Nat.le_of_lt_succ addr.toNat_lt)) hle)
    rw [fillLoop, if_pos hle]
    refine fillLoop_addr hflush hne value n fuel _ ?_ (Nat.lt_of_succ_lt_succ hfuel)
    rw [putByte_addr hflush, toNat_add_one hcur]
    omega

theorem dataByte_addr (hflush : ∀ s, (flush s).srecCurrentAddr = s.srecCurrentAddr) (base offset : UInt32)
    (value : UInt8) {s : Statics} (hge : ¬base + offset < s.srecCurrentAddr) :
    (base + offset = 0xFFFFFFFF → dataByte flush base offset value s = none) ∧
      (base + offset ≠ 0xFFFFFFFF → ∃ s', dataByte flush base offset value s = some (0, s') ∧
        s'.srecCurrentAddr.toNat = (base + offset).toNat + 1) := by
  rw [dataByte]
  simp only [if_neg hge]
  refine ⟨fun hlast => by rw [hlast, fillLoop_last]; rfl, fun hne => ?_⟩
  rw [UInt32.lt_iff_toNat_lt] at hge
  have hlt := (base + offset).toNat_lt
  obtain ⟨s', hs', haddr⟩ := fillLoop_addr hflush hne value
    ((base + offset).toNat + 1 - s.srecCurrentAddr.toNat) (2 ^ 32 + 1) s (by omega) (by omega)
  exact ⟨s', by rw [hs']; rfl, haddr⟩

/-! ### Both handlers -/

/-- A handler of the firmware: it fills up to the address of a data byte, and keeps `srecCurrentAddr` at
    all other records. -/
structure Fills (handler : SRECHandler Statics) : Prop where
  data : ∃ flush : Statics → Statics, (∀ s, (flush s).srecCurrentAddr = s.srecCurrentAddr) ∧
    ∀ {type base offset length value s}, type ≠ 0 → type ≠ 7 →
      handler type base offset length value s = dataByte flush base offset value s
  other : ∀ {type base offset length value s}, type = 0 ∨ type = 7 →
    ∃ s', handler type base offset length value s = some (0, s') ∧ s'.srecCurrentAddr = s.srecCurrentAddr

theorem flushRest_addr (hflush : ∀ s, (flush s).srecCurrentAddr = s.srecCurrentAddr) (s : Statics) :
    (flushRest flush s).srecCurrentAddr = s.srecCurrentAddr := by
  rw [flushRest]
  split
  · exact hflush s
  · rfl

theorem verify_fills : Fills verifyHandler where
  data := by
    refine ⟨dumpToConsole, fun _ => rfl, fun h0 h7 => ?_⟩
    rw [verifyHandler, if_neg h0, if_neg h7]
  other := by
    rintro type base offset length value s (rfl | rfl)
    · rw [verifyHandler, if_pos rfl]
      simp only
      split <;> exact ⟨_, rfl, rfl⟩
    · exact ⟨_, rfl, @flushRest_addr dumpToConsole (fun _ => rfl) s⟩

theorem upload_fills (ch : Channel) : Fills (uploadHandler ch) where
  data := by
    refine ⟨uploadToDRAM ch, fun _ => rfl, fun h0 h7 => ?_⟩
    rw [uploadHandler, if_neg h0, if_neg h7]
  other := by
    rintro type base offset length value s (rfl | rfl)
    · exact ⟨s, rfl, rfl⟩
    · exact ⟨_, rfl, @flushRest_addr (uploadToDRAM ch) (fun _ => rfl) s⟩

/-- A handler, with the account whether each data byte that it took has left `srecCurrentAddr` one behind
    its address. -/
def logged (handler : SRECHandler Statics) : SRECHandler (Statics × Bool) :=
  fun type base offset length value p =>
    (handler type base offset length value p.1).map fun r =>
      (r.1, r.2, p.2 && (type = 0 ∨ type = 7 ∨ r.1 ≠ 0 ∨
        r.2.srecCurrentAddr.toNat = (base + offset).toNat + 1 : Bool))

/-- The parser comes to an end, and fills up to every address that it takes. -/
def FillsUp (handler : SRECHandler Statics) (file : Option File) (line : Line) (s : Statics) : Prop :=
  parseSRecords file (some handler) line s ≠ none ∧
    ∀ retval p, parseSRecords file (some (logged handler)) line (s, true) = some (retval, p) → p.2 = true

theorem logged_lockstep (handler : SRECHandler Statics) :
    Lockstep (logged handler) handler (fun p s => p.1 = s) (fun p s => p.1 = s) where
  data type base i len v p s _ h := by
    subst h
    rw [logged]
    cases handler type base i len v p.1 with
    | none => exact .none
    | some r => exact .some ⟨rfl, rfl⟩
  term base p s h := by
    subst h
    rw [logged]
    cases handler 7 base 0 0 0 p.1 with
    | none => exact .none
    | some r => exact .some ⟨rfl, rfl⟩

/-- The handler keeps up with the addresses, and the last one is not among them. -/
def Follows (p : Statics × Bool) (t : Taken) : Prop :=
  p.2 = true ∧ p.1.srecCurrentAddr.toNat = t.next ∧ t.last = false

theorem fills_other {handler : SRECHandler Statics} (h : Fills handler) {type : UInt8} (htype : type = 0 ∨ type = 7)
    (base offset : UInt32) (length value : UInt8) {p : Statics × Bool} {t : Taken} (hR : Follows p t) :
    Option.Rel (fun p q => p.1 = q.1 ∧ Follows p.2 q.2) (logged handler type base offset length value p)
      (cut Taken.last addressHandler type base offset length value t) := by
  obtain ⟨hlog, hnext, hlast⟩ := hR
  obtain ⟨s', hs', haddr⟩ := @Fills.other _ h type base offset length value p.1 htype
  rw [logged, hs', cut, addressHandler]
  simp only [if_pos htype]
  rw [filter_eq_some (by rw [hlast]; rfl)]
  refine .some ⟨rfl, ?_, haddr ▸ hnext, hlast⟩
  simp only [hlog, Bool.true_and, decide_eq_true_eq]
  exact htype.imp_right Or.inl

theorem fills_lockstep {handler : SRECHandler Statics} (h : Fills handler) :
    Lockstep (logged handler) (cut Taken.last addressHandler) Follows Follows where
  term base _ _ hR := fills_other h (Or.inr rfl) base 0 0 0 hR
  data type base i len v p t h7 hR := by
    by_cases h0 : type = 0
    · exact fills_other h (Or.inl h0) base i len v hR
    obtain ⟨hlog, hnext, hlast⟩ := hR
    obtain ⟨flush, hflush, hdata⟩ := h.data
    have hnot : ¬(type = 0 ∨ type = 7) := not_or.mpr ⟨h0, h7⟩
    rw [logged, hdata h0 h7, cut, addressHandler]
    simp only [if_neg hnot, ← hnext, ← UInt32.lt_iff_toNat_lt]
    by_cases hlt : base + i < p.1.srecCurrentAddr
    · have hrefused : dataByte flush base i v p.1 = some (0xFF, p.1) := if_pos hlt
      rw [if_pos hlt, filter_eq_some (by rw [hlast]; rfl), hrefused]
      refine .some ⟨rfl, ?_, hnext, hlast⟩
      simp only [hlog, Bool.true_and, decide_eq_true_eq]
      exact Or.inr (Or.inr (Or.inl (by decide)))
    rw [if_neg hlt]
    obtain ⟨hhang, hfill⟩ := dataByte_addr hflush base i v hlt
    by_cases hmax : base + i = 0xFFFFFFFF
    · rw [hhang hmax, filter_eq_none]
      · exact .none
      · rw [hmax, Taken.last, decide_eq_true (List.mem_append_right _ List.mem_cons_self)]
        rfl
    · obtain ⟨s', hs', haddr⟩ := hfill hmax
      have hlast' : (Taken.last ⟨(base + i).toNat + 1, t.addrs ++ [base + i]⟩) = false := by
        refine decide_eq_false fun hmem => ?_
        rcases List.mem_append.mp hmem with hmem | hmem
        · exact of_decide_eq_false hlast hmem
        · exact hmax (List.mem_singleton.mp hmem).symm
      rw [hs', filter_eq_some (by rw [hlast']; rfl)]
      refine .some ⟨rfl, ?_, haddr, hlast'⟩
      simp only [hlog, Bool.true_and, decide_eq_true_eq]
      exact Or.inr (Or.inr (Or.inr haddr))

/-- A handler fills up to all addresses exactly when it takes no data byte for the last one. -/
theorem fills_fillsUp_iff {handler : SRECHandler Statics} (h : Fills handler) (file : Option File) (line : Line)
    (s : Statics) :
    FillsUp handler file line s ↔ 0xFFFFFFFF ∉ takenFrom file line s.srecCurrentAddr.toNat := by
  have hplain := (logged_lockstep handler).parseSRecords file line (s := (s, true)) (t := s) rfl
  have hstart : Follows (s, true) ⟨s.srecCurrentAddr.toNat, []⟩ := ⟨rfl, rfl, rfl⟩
  have hstep := (fills_lockstep h).parseSRecords file line hstart
  rw [(Cuts.parseSRecords address_stays file line).eq rfl] at hstep
  obtain ⟨⟨retval, t⟩, ht⟩ := Option.isSome_iff_exists.mp
    (parseSRecords_total address_total file line ⟨s.srecCurrentAddr.toNat, []⟩)
  rw [ht] at hstep
  have hlast : 0xFFFFFFFF ∉ takenFrom file line s.srecCurrentAddr.toNat ↔ t.last = false := by
    rw [takenFrom, ht, Taken.last, decide_eq_false_iff_not]
    rfl
  rw [hlast, FillsUp]
  generalize parseSRecords file (some (logged handler)) line (s, true) = run at hplain hstep
  generalize parseSRecords file (some handler) line s = plain at hplain
  cases hd : t.last with
  | true =>
    rw [filter_eq_none (by rw [hd]; rfl)] at hstep
    cases hstep
    cases hplain
    exact iff_of_false (fun hall => hall.1 rfl) (by decide)
  | false =>
    rw [filter_eq_some (by rw [hd]; rfl)] at hstep
    refine iff_of_true ?_ rfl
    cases hstep with
    | some hR =>
      cases hplain with
      | some _ =>
        refine ⟨Option.some_ne_none _, fun retval p hp => ?_⟩
        obtain rfl := Option.some.inj hp
        exact hR.2.elim And.left And.left

/-- Both handlers end, one behind every address that they take, unless that is the last of all. -/
theorem fillsUp_iff (ch : Channel) (file : Option File) (line : Line) (s : Statics) :
    (FillsUp verifyHandler file line s ↔ 0xFFFFFFFF ∉ takenFrom file line s.srecCurrentAddr.toNat) ∧
    (FillsUp (uploadHandler ch) file line s ↔
      0xFFFFFFFF ∉ takenFrom file line s.srecCurrentAddr.toNat) :=
  ⟨fills_fillsUp_iff verify_fills file line s, fills_fillsUp_iff (upload_fills ch) file line s⟩

/-- One byte at the last address. -/
def lastByteFile : File := textFile "S306FFFFFFFFAA53\n"

/-- The verifier never comes back from it. -/
theorem lastByte_hangs : ¬∀ (file : Option File) (line : Line) (s : Statics),
    FillsUp verifyHandler file line { s with srecCurrentAddr := 0x102000 } := by
  intro h
  have htaken : takenFrom (some lastByteFile) (fun _ => 0) 0x102000 = [0xFFFFFFFF] := rfl
  have hfree := (fills_fillsUp_iff verify_fills _ _ _).mp (h (some lastByteFile) (fun _ => 0) .boot)
  exact hfree (htaken ▸ List.mem_cons_self)

end Flash
