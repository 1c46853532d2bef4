import ReplayFirmware.Config.TargetMenu
import ReplayFirmware.Config.IniTargets

/-! The targets of an INI file in the "Replay Menu", over any number of loads.

    `CFG_add_default` reads the targets through pointers into the buffer of all values, when later lines
    have written over it. And the list of the targets is never emptied: the targets of an INI file are
    there when the next one is loaded. -/

namespace Config
open Ini Splice Overlay FatFs

variable {σ : Type} (low : List UInt8)

/-! ### What is listed -/

/-- The string that a pointer into the buffer is to. -/
def readPtr (bytes : List UInt8) : Option ℕ → List UInt8
  | none => cstr low
  | some p => cstr (bytes.drop p)

/-- A target, as `CFG_add_default` reads it. -/
def IniTarget.read (bytes : List UInt8) (t : IniTarget ℕ) : Target where
  name := readPtr low bytes t.name
  dir := t.dir.map fun p => cstr (bytes.drop p)
  file := readPtr low bytes t.file

def Dataset.listed (d : Dataset σ) : List Target :=
  d.ini_targets.map (IniTarget.read low d.buffer.bytes)

/-- The string of an entry. -/
def ownString : Option (ℕ × List UInt8) → List UInt8
  | none => []
  | some a => cstr a.2

/-- A target, as its own line has it. -/
def IniTarget.own (t : IniTarget (ℕ × List UInt8)) : Target where
  name := ownString t.name
  dir := t.dir.map fun a => cstr a.2
  file := ownString t.file

/-! ### What is kept -/

/-- The string of an entry is left as it is by the lists of later lines. For an entry that is empty
    there must be nothing at address 0. -/
def EntryKept (later : List (List UInt8)) : Option (ℕ × List UInt8) → Prop
  | none => cstr low = []
  | some a => Kept later a.1 (cstr a.2)

/-- The strings of a target are kept. -/
structure IniTarget.Kept (later : List (List UInt8)) (t : IniTarget (ℕ × List UInt8)) : Prop where
  name : EntryKept low later t.name
  dir : ∀ a, t.dir = some a → Ini.Kept later a.1 (cstr a.2)
  file : EntryKept low later t.file

/-- The lists of the lines behind a target leave its strings as they are. -/
def Undisturbed (f : Features) : List Call → Prop
  | [] => True
  | k :: later => (∀ t, Call.target low f k = some t →
      t.Kept low (later.map (Call.written low f))) ∧ Undisturbed f later

section
variable {low} {f : Features} {d : List UInt8} {later : List (List UInt8)}

/-- What is read through the pointer of an entry. -/
theorem readPtr_iff {k : Call} {ts : List (Option (List UInt8))} {a : Option (ℕ × List UInt8)}
    (hk : Call.Fits low f k) (htexts : Call.texts low f k = some ts) (ha : a ∈ layout 0 ts)
    (hd : d.length = maxLineLen) (hlater : ∀ l ∈ later, l.length ≤ maxLineLen) :
    readPtr low (overlays (splice d 0 (Call.written low f k)) later) (a.map Prod.fst) = ownString a ↔
      EntryKept low later a := by
  cases a with
  | none => exact Iff.rfl
  | some a =>
    have hwritten : Call.written low f k = laid ts := by rw [Call.written, htexts]; rfl
    have hzero : 0 ∈ a.2 := by
      rw [Call.texts] at htexts
      split at htexts
      · rw [← Option.some.inj htexts] at ha
        exact absurd ha List.not_mem_nil
      · exact zero_mem_storedTexts low htexts a.2 (mem_layout ha).1
    rw [hwritten]
    exact read_iff_kept hd (hwritten ▸ hk.2) hlater ha hzero

/-- A target is read as its own line has it exactly when its strings are kept. -/
theorem read_eq_own_iff {k : Call} {t : IniTarget (ℕ × List UInt8)} (hk : Call.Fits low f k)
    (ht : Call.target low f k = some t) (hd : d.length = maxLineLen)
    (hlater : ∀ l ∈ later, l.length ≤ maxLineLen) :
    (t.map Prod.fst).read low (overlays (splice d 0 (Call.written low f k)) later) = t.own ↔
      t.Kept low later := by
  obtain ⟨ts, htexts⟩ := Option.isSome_iff_exists.mp hk.1
  rw [Call.target, htexts] at ht
  split at ht
  swap
  · cases ht
  obtain ⟨hname, hdir, hfile⟩ := IniTarget.ofList_mem ht
  have hiff := fun a ha => @readPtr_iff low f d later k ts a hk htexts ha hd hlater
  have hdir' : (t.dir.map Prod.fst).map (fun p => cstr ((overlays (splice d 0
      (Call.written low f k)) later).drop p)) = t.dir.map (fun a => cstr a.2) ↔
      ∀ a, t.dir = some a → Ini.Kept later a.1 (cstr a.2) := by
    cases hcase : t.dir with
    | none => exact ⟨fun _ a ha => absurd ha.symm (Option.some_ne_none a), fun _ => rfl⟩
    | some a =>
      have ha := hiff (some a) (hdir a hcase)
      constructor
      · rintro heq _ ⟨⟩
        exact ha.mp (Option.some.inj heq)
      · exact fun hall => congrArg some (ha.mpr (hall a rfl))
  rw [IniTarget.read, IniTarget.own, Target.mk.injEq]
  constructor
  · rintro ⟨h1, h2, h3⟩
    exact ⟨(hiff t.name hname).mp h1, hdir'.mp h2, (hiff t.file hfile).mp h3⟩
  · rintro ⟨h1, h2, h3⟩
    exact ⟨(hiff t.name hname).mpr h1, hdir'.mpr h2, (hiff t.file hfile).mpr h3⟩

/-- All targets of these calls are read as their lines have them exactly when no later line disturbs
    them. -/
theorem read_all_iff : ∀ {cs : List Call} {d : List UInt8}, (∀ k ∈ cs, Call.Fits low f k) →
    d.length = maxLineLen →
    ((cs.filterMap (Call.target low f)).map (fun t =>
        (t.map Prod.fst).read low (overlays d (cs.map (Call.written low f))))
      = (cs.filterMap (Call.target low f)).map IniTarget.own ↔ Undisturbed low f cs)
  | [], _, _, _ => ⟨fun _ => trivial, fun _ => rfl⟩
  | k :: cs, d, hfits, hd => by
    rw [List.forall_mem_cons] at hfits
    have hlen : (splice d 0 (Call.written low f k)).length = maxLineLen := by
      rw [length_splice_of_le (by rw [hd, Nat.zero_add]; exact hfits.1.2), hd]
    have ih := read_all_iff hfits.2 hlen
    have hlater : ∀ l ∈ cs.map (Call.written low f), l.length ≤ maxLineLen := by
      intro l hl
      obtain ⟨k', hk', rfl⟩ := List.mem_map.mp hl
      exact (hfits.2 k' hk').2
    rw [Undisturbed, List.map_cons, overlays_cons, ← ih]
    cases ht : Call.target low f k with
    | none =>
      rw [List.filterMap_cons_none ht]
      exact ⟨fun h => ⟨nofun, h⟩, fun h => h.2⟩
    | some t =>
      rw [List.filterMap_cons_some ht, List.map_cons, List.map_cons, List.cons.injEq,
        read_eq_own_iff hfits.1 ht hd hlater]
      refine and_congr_left fun _ => ?_
      exact ⟨fun h _ ht' => Option.some.inj ht' ▸ h, fun h => h t rfl⟩

/-- The strings that are read are C strings. -/
theorem read_strings (bytes : List UInt8) (t : IniTarget ℕ) : (t.read low bytes).Strings := by
  have hptr : ∀ p, 0 ∉ readPtr low bytes p := fun p => by
    cases p <;> exact notMem_textOf _
  refine ⟨hptr _, hptr _, fun s hs => ?_⟩
  obtain ⟨p, -, rfl⟩ := Option.map_eq_some_iff.mp hs
  exact notMem_textOf _

theorem listed_strings (d : Dataset σ) : ∀ t ∈ d.listed low, t.Strings := by
  intro t ht
  obtain ⟨t', -, rfl⟩ := List.mem_map.mp ht
  exact read_strings _ t'

end

/-! ### Loads -/

/-- One load of a core from the card: its INI file, what the other lines do, and the menus that they have
    made when `CFG_add_default` is called. The buffer holds what the first pass over the file, or
    anything before it, has left there. -/
structure Load (σ : Type) where
  features : Features
  others : σ → Call → UInt8 × σ
  rest : σ
  buffer : ValueBuffer
  file : File
  readable : file.data.length ≤ file.readable
  malloc : Malloc
  grants : Grants malloc
  menus : Status
  list : List ℕ
  menuList : MenuList menus list

section
variable (L : Load σ) (old : List (IniTarget ℕ))

/-- `CFG_init` parses the file; `old` are the targets that are there already. -/
def Load.parsed : Option (UInt8 × Progress (Option (Dataset σ))) :=
  parseIni (parseHandler low L.features L.others) (f_open L.file false) (some ⟨L.rest, L.buffer, old⟩)

/-- The calls that the parse makes. -/
def Load.calls : List Call :=
  (parse (parseHandler low L.features L.others) (f_open L.file false).rest
    (some ⟨L.rest, L.buffer, old⟩)).2.calls

/-- The targets of the file, the last one first. -/
def Load.targets : List (IniTarget (ℕ × List UInt8)) := targetsOf low L.features (L.calls low old)

/-- Leaves the load the "Replay Menu" shows the targets of this file, each as its line has it, and no
    others. -/
def Load.Survives : Prop :=
  ∃ r d s', L.parsed low old = some r ∧ r.2.config = some d ∧
    addDefault L.malloc (d.listed low) L.menus = some s' ∧
    ReplayShows s' L.menus.blocks ((L.targets low old).map IniTarget.own)

/-- The lists of the file fit the buffer, its targets fit the menu, and no later line disturbs them. -/
structure Load.Keeps : Prop where
  lists : ∀ k ∈ L.calls low old, Call.Fits low L.features k
  strings : ∀ t ∈ L.targets low old, t.own.Fits
  undisturbed : Undisturbed low L.features (L.calls low old)

end

/-- Every load of a run survives. -/
def AllSurvive : List (IniTarget ℕ) → List (Load σ) → Prop
  | _, [] => True
  | old, L :: Ls => L.Survives low old ∧
      ∀ r d, L.parsed low old = some r → r.2.config = some d → AllSurvive d.ini_targets Ls

variable {low}
variable {L : Load σ} {old : List (IniTarget ℕ)}

/-- What the parse of a load leaves behind. -/
theorem Load.parsed_leaves : ∃ r, L.parsed low old = some r ∧
    Leaves low L.features ⟨L.rest, L.buffer, old⟩ r.2.config (L.calls low old) :=
  ⟨_, parseIni_eq _ (f_open_readable L.readable false) _, parse_leaves L.features L.others _ _⟩

/-- What is listed are the targets of the file exactly when there were none before and no later line
    disturbs them. -/
theorem listed_iff {d : Dataset σ} (hfits : ∀ k ∈ L.calls low old, Call.Fits low L.features k)
    (htargets : d.ini_targets = (L.targets low old).map (IniTarget.map Prod.fst) ++ old)
    (hbytes : d.buffer.bytes
      = overlays L.buffer.bytes ((L.calls low old).map (Call.written low L.features))) :
    d.listed low = (L.targets low old).map IniTarget.own ↔
      old = [] ∧ Undisturbed low L.features (L.calls low old) := by
  have hread := read_all_iff hfits L.buffer.length_eq
  have hown : (L.targets low old).map IniTarget.own
      = (((L.calls low old).filterMap (Call.target low L.features)).map IniTarget.own).reverse :=
    List.map_reverse ..
  have hlisted : d.listed low
      = (((L.calls low old).filterMap (Call.target low L.features)).map fun t =>
          (t.map Prod.fst).read low (overlays L.buffer.bytes
            ((L.calls low old).map (Call.written low L.features)))).reverse ++
        old.map (IniTarget.read low d.buffer.bytes) := by
    rw [Dataset.listed, htargets, List.map_append, List.map_map, hbytes, ← List.map_reverse]
    rfl
  rw [hlisted, hown, ← hread]
  constructor
  · intro heq
    have hlen := congrArg List.length heq
    simp only [List.length_append, List.length_reverse, List.length_map] at hlen
    have hold : old = [] := List.eq_nil_of_length_eq_zero (by omega)
    rw [hold, List.map_nil, List.append_nil] at heq
    rw [hold]
    exact ⟨rfl, List.reverse_injective heq⟩
  · rintro ⟨rfl, heq⟩
    rw [heq, List.map_nil, List.append_nil]

/-- One load. -/
theorem Load.survives_iff : L.Survives low old ↔ old = [] ∧ L.Keeps low old := by
  obtain ⟨r, hparsed, hleaves⟩ := (L.parsed_leaves : ∃ r, L.parsed low old = some r ∧ _)
  rcases hleaves with ⟨d, hd, hfits, htargets, hbytes⟩ | ⟨hnone, k, hk, hunfit⟩
  swap
  · -- a list does not fit
    refine ⟨?_, fun h => absurd (h.2.lists k hk) hunfit⟩
    rintro ⟨r', d', s', hparsed', hd', -⟩
    rw [hparsed] at hparsed'
    rw [← Option.some.inj hparsed', hnone] at hd'
    cases hd'
  have hlisted := listed_iff hfits htargets hbytes
  constructor
  · rintro ⟨r', d', s', hparsed', hd', hadd, hshows⟩
    rw [hparsed] at hparsed'
    rw [← Option.some.inj hparsed', hd] at hd'
    obtain rfl := Option.some.inj hd'
    have heq := (addDefault_shows L.menuList hadd (listed_strings d)).unique hshows
    obtain ⟨hold, hkept⟩ := hlisted.mp heq
    refine ⟨hold, hfits, fun t ht => ?_, hkept⟩
    refine (addDefault_isSome_iff L.grants L.menuList).mp ⟨s', hadd⟩ t.own ?_
    rw [heq]
    exact List.mem_map_of_mem ht
  · rintro ⟨hold, hkeeps⟩
    have heq := hlisted.mpr ⟨hold, hkeeps.undisturbed⟩
    have hfit : ∀ t ∈ d.listed low, t.Fits := by
      rw [heq]
      intro t ht
      obtain ⟨t', ht', rfl⟩ := List.mem_map.mp ht
      exact hkeeps.strings t' ht'
    obtain ⟨s', hadd⟩ := (addDefault_isSome_iff L.grants L.menuList).mpr hfit
    exact ⟨r, d, s', hparsed, hd, hadd, heq ▸ addDefault_shows L.menuList hadd (listed_strings d)⟩

/-- In a run of loads from power up, every "Replay Menu" shows the targets of its own file, each as its
    line has it, exactly when the lists and the targets of every file fit and no later line disturbs
    them, and no file but the last has a target. -/
theorem targets_survive_iff (low : List UInt8) : ∀ Ls : List (Load σ), AllSurvive low [] Ls ↔
    (∀ L ∈ Ls, L.Keeps low []) ∧ ∀ L ∈ Ls.dropLast, L.targets low [] = []
  | [] => ⟨fun _ => ⟨List.forall_mem_nil _, List.forall_mem_nil _⟩, fun _ => trivial⟩
  | L :: Ls => by
    obtain ⟨r, hparsed, hleaves⟩ := (L.parsed_leaves : ∃ r, L.parsed low [] = some r ∧ _)
    rw [AllSurvive, Load.survives_iff, List.forall_mem_cons]
    -- the targets of this file are there when the next one is loaded
    have hnext : L.Keeps low [] → ∃ d, r.2.config = some d ∧
        d.ini_targets = (L.targets low []).map (IniTarget.map Prod.fst) := by
      intro hkeeps
      rcases hleaves with ⟨d, hd, -, htargets, -⟩ | ⟨-, k, hk, hunfit⟩
      · exact ⟨d, hd, htargets.trans (List.append_nil _)⟩
      · exact absurd (hkeeps.lists k hk) hunfit
    have hrest : ∀ d : Dataset σ, d.ini_targets = (L.targets low []).map (IniTarget.map Prod.fst) →
        (AllSurvive low d.ini_targets Ls ↔ (∀ L' ∈ Ls, L'.Keeps low []) ∧
          ∀ L' ∈ (L :: Ls).dropLast, L'.targets low [] = []) := by
      intro d hd
      cases Ls with
      | nil => exact ⟨fun _ => ⟨List.forall_mem_nil _, List.forall_mem_nil _⟩, fun _ => trivial⟩
      | cons L' Ls =>
        have hdrop : (∀ L'' ∈ (L :: L' :: Ls).dropLast, L''.targets low [] = []) ↔
            L.targets low [] = [] ∧ ∀ L'' ∈ (L' :: Ls).dropLast, L''.targets low [] = [] := by
          rw [List.dropLast_cons_cons]
          exact List.forall_mem_cons
        rw [hdrop, hd]
        cases htargets : L.targets low [] with
        | nil =>
          rw [List.map_nil, targets_survive_iff low (L' :: Ls)]
          exact ⟨fun h => ⟨h.1, rfl, h.2⟩, fun h => ⟨h.1, h.2.2⟩⟩
        | cons t ts =>
          refine ⟨fun h => ?_, fun h => absurd h.2.1 (List.cons_ne_nil _ _)⟩
          exact absurd (Load.survives_iff.mp h.1).1 (List.cons_ne_nil _ _)
    constructor
    · rintro ⟨⟨-, hkeeps⟩, hall⟩
      obtain ⟨d, hd, htargets⟩ := hnext hkeeps
      obtain ⟨h1, h2⟩ := (hrest d htargets).mp (hall r d hparsed hd)
      exact ⟨⟨hkeeps, h1⟩, h2⟩
    · rintro ⟨⟨hkeeps, h1⟩, h2⟩
      obtain ⟨d, hd, htargets⟩ := hnext hkeeps
      refine ⟨⟨rfl, hkeeps⟩, fun r' d' hparsed' hd' => ?_⟩
      rw [hparsed] at hparsed'
      rw [← Option.some.inj hparsed', hd] at hd'
      obtain rfl := Option.some.inj hd'
      exact (hrest d htargets).mpr ⟨h1, h2⟩

/-! ### Two targets -/

def emptyBuffer : ValueBuffer where
  bytes := List.replicate maxLineLen 0
  offset := 0
  length_eq := List.length_replicate
  offset_le := Nat.zero_le _

/-- A load whose other lines do nothing. -/
def plainLoad (text : String) : Load Unit where
  features := ⟨true, true⟩
  others := fun _ _ => (0, ())
  rest := ()
  buffer := emptyBuffer
  file := iniFile text
  readable := le_rfl
  malloc := zeroed
  grants := zeroed_grants
  menus := start 0 powerUp
  list := []
  menuList := start_menuList 0 powerUp

def twoTargets : Load Unit := plainLoad "[TARGETS]\nTARGET=A,a.ini\nTARGET=B,b.ini\n"

/-- The first target is shown with the strings of the second. -/
theorem second_target_twice : ¬ ∀ (low : List UInt8) (Ls : List (Load Unit)), AllSurvive low [] Ls := by
  intro hall
  obtain ⟨⟨r, d, s', hparsed, hd, hadd, hshows⟩, -⟩ := hall [] [twoTargets]
  have hlisted : ∀ r ∈ twoTargets.parsed [] [], ∀ d ∈ r.2.config, d.listed []
      = [⟨chars "B", none, chars "b.ini"⟩, ⟨chars "B", none, chars "b.ini"⟩] := by decide
  have hown : (twoTargets.targets [] []).map IniTarget.own
      = [⟨chars "B", none, chars "b.ini"⟩, ⟨chars "A", none, chars "a.ini"⟩] := by decide
  have hd' := hlisted r hparsed d hd
  have heq := (addDefault_shows twoTargets.menuList hadd (listed_strings d)).unique hshows
  rw [hd', hown] at heq
  exact absurd heq (by decide)

end Config
