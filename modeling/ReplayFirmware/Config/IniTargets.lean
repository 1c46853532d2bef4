import ReplayFirmware.Config.AddDefault
import ReplayFirmware.Ini.ValueBuffer

/-! The targets of an INI file, from its lines to the pointers that `CFG_add_default` reads them through.

    A handler that has its value parsed overwrites the buffer of all values. The handler of a target
    keeps pointers into that buffer: it does not copy the strings. What a parse leaves behind is told by
    the calls of the handler alone, whatever else the handlers do. -/

namespace Config
open Ini Splice Overlay

variable {α β σ : Type} (low : List UInt8)

/-! ### The records -/

/-- `tIniTarget`, over what its pointers are to. -/
structure IniTarget (α : Type) where
  name : Option α
  dir : Option α
  file : Option α

/-- The pointers of a target, from two or three entries. -/
def IniTarget.ofList : List (Option α) → Option (IniTarget α)
  | [name, file] => some ⟨name, none, file⟩
  | [name, dir, file] => some ⟨name, dir, file⟩
  | _ => none

def IniTarget.map (f : α → β) (t : IniTarget α) : IniTarget β :=
  ⟨t.name.map f, t.dir.map f, t.file.map f⟩

theorem IniTarget.ofList_map (f : α → β) : ∀ l : List (Option α),
    ofList (l.map (Option.map f)) = (ofList l).map (IniTarget.map f)
  | [] | [_] | [_, _] | [_, _, _] => rfl
  | _ :: _ :: _ :: _ :: _ => rfl

/-- The entries that a target is made from. -/
theorem IniTarget.ofList_mem {l : List (Option α)} {t : IniTarget α} (h : ofList l = some t) :
    t.name ∈ l ∧ (∀ a, t.dir = some a → some a ∈ l) ∧ t.file ∈ l := by
  unfold ofList at h
  split at h
  · rw [← Option.some.inj h]
    exact ⟨by simp, nofun, by simp⟩
  · rw [← Option.some.inj h]
    exact ⟨by simp, fun a ha => ha ▸ by simp, by simp⟩
  · cases h

/-! ### The handlers -/

/-- What `EN_TWI` and `EN_SPI` have set before the core is started. -/
structure Features where
  twi_enabled : Bool
  spi_fpga_enabled : Bool

/-- The number of entries that the handler of a line has room for, where it parses its value as a list;
    `_CFG_parse_handler`, for a core that is not the embedded one. -/
def listRoom (f : Features) : Symbol → Symbol → Option ℕ
  | .setup, .config => if f.spi_fpga_enabled then some 8 else none
  | .setup, .info => some 8
  | .setup, .video => if f.twi_enabled then some 32 else none
  | .targets, .target => some 3
  | .menu, .title | .menu, .item | .menu, .option => some 8
  | .upload, .data => if f.spi_fpga_enabled then some 32 else none
  | .upload, .launch => some 8
  | .upload, .rom => if f.spi_fpga_enabled then some 8 else none
  | .files, .chaMount | .files, .chbMount => some 2
  | .files, .chaCfg | .files, .chbCfg => some 5
  | _, _ => none

/-- The buffer of the values, `ini_targets`, and the rest of what the handlers work on. -/
structure Dataset (σ : Type) where
  rest : σ
  buffer : ValueBuffer
  ini_targets : List (IniTarget ℕ)

/-- The list that the handler of a line parses; without one the buffer is left alone. -/
def parseValue (f : Features) (k : Call) (b : ValueBuffer) : Option (List (Option ℕ) × ValueBuffer) :=
  match listRoom f k.iniSection k.name with
  | none => some ([], b)
  | some n => parseList low n (k.value.getD []) b

/-- `_CFG_handle_TARGETS_TARGET`, behind `ParseList`. -/
def handleTarget (valueList : List (Option ℕ)) (d : Dataset σ) : UInt8 × Dataset σ :=
  match IniTarget.ofList valueList with
  | some t => (0, { d with ini_targets := t :: d.ini_targets })
  | none => (1, d)

def Call.IsTarget (k : Call) : Prop := k.iniSection = .targets ∧ k.name = .target

instance (k : Call) : Decidable (Call.IsTarget k) := inferInstanceAs (Decidable (_ ∧ _))

/-- The handler, with what the other lines do as `others`. There is no dataset behind a list that does
    not fit the buffer. -/
def parseHandler (f : Features) (others : σ → Call → UInt8 × σ) : Client (Option (Dataset σ)) where
  parseHandle
    | none, _, _, _ => (1, none)
    | some d, iniSection, name, value =>
      let k : Call := ⟨iniSection, name, value⟩
      match parseValue low f k d.buffer with
      | none => (1, none)
      | some (valueList, b) =>
        if Call.IsTarget k then
          let r := handleTarget valueList { d with buffer := b }
          (r.1, some r.2)
        else
          let r := others d.rest k
          (r.1, some { d with rest := r.2, buffer := b })
  freeList := Option.map fun d => { d with buffer := d.buffer.freeList }

/-! ### The calls -/

section
variable (f : Features) (k : Call)

/-- The texts that a call stores, from the front of the buffer on. -/
def Call.texts : Option (List (Option (List UInt8))) :=
  match listRoom f k.iniSection k.name with
  | none => some []
  | some n => storedTexts low n (k.value.getD [])

/-- What a call lays over the front of the buffer. -/
def Call.written : List UInt8 := laid ((Call.texts low f k).getD [])

/-- The texts of a call fit into the buffer. -/
def Call.Fits : Prop := (Call.texts low f k).isSome ∧ (Call.written low f k).length ≤ maxLineLen

instance : Decidable (Call.Fits low f k) := inferInstanceAs (Decidable (_ ∧ _))

/-- The target of a call, as its texts with their places. -/
def Call.target : Option (IniTarget (ℕ × List UInt8)) :=
  if Call.IsTarget k then IniTarget.ofList (layout 0 ((Call.texts low f k).getD [])) else none

end

theorem parseValue_eq (f : Features) (k : Call) (b : ValueBuffer) :
    parseValue low f k b = (Call.texts low f k).bind fun ts =>
      (b.store (laid ts)).map fun b' => (places b.offset ts, b') := by
  rw [parseValue, Call.texts]
  split
  · rw [Option.bind_some, show laid [] = [] from rfl, b.store_nil]
    rfl
  · exact parseList_eq low _ _ b

/-- The targets of these calls, the last one first. -/
def targetsOf (f : Features) (cs : List Call) : List (IniTarget (ℕ × List UInt8)) :=
  (cs.filterMap (Call.target low f)).reverse

/-- What becomes of a dataset by these calls. -/
def Leaves (f : Features) (d : Dataset σ) (c : Option (Dataset σ)) (cs : List Call) : Prop :=
  (∃ d', c = some d' ∧ (∀ k ∈ cs, Call.Fits low f k) ∧
    d'.ini_targets = (targetsOf low f cs).map (IniTarget.map Prod.fst) ++ d.ini_targets ∧
    d'.buffer.bytes = overlays d.buffer.bytes (cs.map (Call.written low f))) ∨
  c = none ∧ ∃ k ∈ cs, ¬ Call.Fits low f k

/-- A call that does not parse a list lays nothing over the buffer. -/
theorem written_of_listRoom {f : Features} {k : Call} (h : listRoom f k.iniSection k.name = none) :
    Call.texts low f k = some [] ∧ Call.written low f k = [] := by
  have htexts : Call.texts low f k = some [] := by rw [Call.texts, h]
  exact ⟨htexts, by rw [Call.written, htexts]; rfl⟩

variable {low}
variable {f : Features} {others : σ → Call → UInt8 × σ} {d : Dataset σ}

/-- The buffer is free, or the call does not parse a list. -/
def Call.Ready (f : Features) (k : Call) (b : ValueBuffer) : Prop :=
  b.offset = 0 ∨ listRoom f k.iniSection k.name = none

theorem parseValue_unfit {k : Call} {b : ValueBuffer} (h : ¬ Call.Fits low f k) :
    parseValue low f k b = none := by
  rw [parseValue_eq]
  cases htexts : Call.texts low f k with
  | none => rfl
  | some ts =>
    have hlen : ¬ (laid ts).length ≤ maxLineLen := fun hle => h
      ⟨by rw [htexts]; rfl, by rw [Call.written, htexts]; exact hle⟩
    rw [Option.bind_some, ValueBuffer.store, dif_neg (by omega)]
    rfl

/-- A list that fits is laid over the front of the buffer, and its pointers are to its texts. -/
theorem parseValue_fits {k : Call} {b : ValueBuffer} (h : Call.Fits low f k) (hb : Call.Ready f k b) :
    ∃ ps b', parseValue low f k b = some (ps, b') ∧
      b'.bytes = splice b.bytes 0 (Call.written low f k) ∧
      (Call.IsTarget k → IniTarget.ofList ps = (Call.target low f k).map (IniTarget.map Prod.fst)) := by
  obtain ⟨ts, htexts⟩ := Option.isSome_iff_exists.mp h.1
  have hwritten : Call.written low f k = laid ts := by rw [Call.written, htexts]; rfl
  have hvalue := parseValue_eq low f k b
  rw [htexts, Option.bind_some] at hvalue
  rcases hb with h0 | hroom
  · have hle : b.offset + (laid ts).length ≤ maxLineLen := by
      rw [h0, ← hwritten, Nat.zero_add]
      exact h.2
    rw [ValueBuffer.store, dif_pos hle] at hvalue
    refine ⟨_, _, hvalue, ?_, fun ht => ?_⟩
    · rw [hwritten]
      exact congrArg (splice b.bytes · (laid ts)) h0
    · rw [Call.target, if_pos ht, htexts, h0, places, IniTarget.ofList_map]
      rfl
  · obtain ⟨-, hnil⟩ := written_of_listRoom low hroom
    rw [← hwritten, hnil, b.store_nil] at hvalue
    refine ⟨_, _, hvalue, by rw [hnil, splice_nil], fun ht => ?_⟩
    rw [ht.1, ht.2] at hroom
    cases hroom

theorem targetsOf_concat (cs : List Call) (k : Call) :
    targetsOf low f (cs ++ [k]) = (Call.target low f k).toList ++ targetsOf low f cs := by
  rw [targetsOf, List.filterMap_append, List.reverse_append]
  cases hk : Call.target low f k <;> simp [hk, targetsOf]

/-- One more call. -/
theorem Leaves.call {c : Option (Dataset σ)} {cs : List Call} (h : Leaves low f d c cs) (k : Call)
    (hready : ∀ d', c = some d' → Call.Ready f k d'.buffer) :
    Leaves low f d
      ((parseHandler low f others).parseHandle c k.iniSection k.name k.value).2 (cs ++ [k]) := by
  rcases h with ⟨d', rfl, hfits, htargets, hbytes⟩ | ⟨rfl, k', hk', hfits⟩
  swap
  · exact Or.inr ⟨rfl, k', List.mem_append_left _ hk', hfits⟩
  by_cases hk : Call.Fits low f k
  swap
  · refine Or.inr ⟨?_, k, by simp, hk⟩
    dsimp only [parseHandler]
    rw [show (⟨k.iniSection, k.name, k.value⟩ : Call) = k from rfl, parseValue_unfit hk]
  obtain ⟨ps, b, hvalue, hb, htarget⟩ := parseValue_fits hk (hready d' rfl)
  have hall : ∀ k' ∈ cs ++ [k], Call.Fits low f k' := fun k' hk' =>
    (List.mem_append.mp hk').elim (hfits k') fun h1 => List.mem_singleton.mp h1 ▸ hk
  have hbytes' : b.bytes = overlays d.buffer.bytes ((cs ++ [k]).map (Call.written low f)) := by
    rw [List.map_append, List.map_singleton, overlays_concat, hb, hbytes]
  have hlist := @targetsOf_concat low f cs k
  dsimp only [parseHandler]
  rw [show (⟨k.iniSection, k.name, k.value⟩ : Call) = k from rfl, hvalue]
  dsimp only
  split
  · next ht =>
    rw [handleTarget, htarget ht]
    cases htk : Call.target low f k with
    | none =>
      rw [htk] at hlist
      exact Or.inl ⟨_, rfl, hall, by rw [hlist]; exact htargets, hbytes'⟩
    | some t =>
      rw [htk] at hlist
      exact Or.inl ⟨_, rfl, hall, by rw [hlist]; exact congrArg (_ :: ·) htargets, hbytes'⟩
  · next ht =>
    have htk : Call.target low f k = none := if_neg ht
    rw [htk] at hlist
    exact Or.inl ⟨_, rfl, hall, by rw [hlist]; exact htargets, hbytes'⟩

/-- What a parse leaves behind. -/
theorem parse_leaves (f : Features) (others : σ → Call → UInt8 × σ) (d : Dataset σ)
    (input : List UInt8) :
    let p := (parse (parseHandler low f others) input (some d)).2
    Leaves low f d p.config p.calls := by
  refine parse_calls (P := Leaves low f d)
    (Q := fun c cs => Leaves low f d c cs ∧ ∀ d', c = some d' → d'.buffer.offset = 0)
    ?_ (fun _ _ h => h.1) (fun c cs s n v h => h.1.call ⟨s, n, v⟩ fun d' hd' => Or.inl (h.2 d' hd'))
    (fun c cs h => h.call ⟨.unknown, .unknown, none⟩ fun _ _ => Or.inr rfl) input
    (Or.inl ⟨d, rfl, fun _ h => absurd h List.not_mem_nil, rfl, rfl⟩)
  rintro c cs (⟨d', rfl, h⟩ | ⟨rfl, h⟩)
  · exact ⟨Or.inl ⟨_, rfl, h⟩, fun d'' hd'' => by rw [← Option.some.inj hd'']; rfl⟩
  · exact ⟨Or.inr ⟨rfl, h⟩, nofun⟩

end Config
