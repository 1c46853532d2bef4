import Mathlib.Algebra.Order.Ring.Nat
import Mathlib.Data.List.Basic
import Mathlib.Data.Nat.Notation
import Mathlib.Tactic.Common

/-! `FF_MkDirTree`: the directories of a path, one by one.

    `f_mkdir` is called with what stands in front of each separator, and with the whole path in the end.
    A directory that exists is no error as long as more of the path follows its separator; the whole
    path must not exist. -/

namespace FatFs

/-! ### What the calls answer -/

/-- What FatFs answers. -/
inductive Fresult where
  | ok | diskErr | intErr | notReady | noFile | noPath | invalidName | denied | exist | invalidObject
  | writeProtected | invalidDrive | notEnabled | noFilesystem | mkfsAborted | timeout | locked
  | notEnoughCore | tooManyOpenFiles | invalidParameter
  deriving DecidableEq, Repr

/-- `FF_ERR_…` -/
inductive FfError where
  | none | deviceDriverFailed | iomanDriverFatalError | iomanNoMountablePartition | fileNotFound
  | fileInvalidPath | fileIsReadOnly | fileDestinationExists | fileBadHandle | iomanInvalidPartitionNum
  | iomanNotEnoughFreeSpace | iomanNotFatFormatted | iomanInvalidFormat | iomanDriverBusy
  | fileAlreadyOpen | notEnoughMemory | fileCouldNotCreateDirent | nullPointer
  deriving DecidableEq, Repr

def mapError : Fresult → FfError
  | .ok => .none
  | .diskErr => .deviceDriverFailed
  | .intErr => .iomanDriverFatalError
  | .notReady => .iomanNoMountablePartition
  | .noFile => .fileNotFound
  | .noPath => .fileNotFound
  | .invalidName => .fileInvalidPath
  | .denied => .fileIsReadOnly
  | .exist => .fileDestinationExists
  | .invalidObject => .fileBadHandle
  | .writeProtected => .fileIsReadOnly
  | .invalidDrive => .iomanInvalidPartitionNum
  | .notEnabled => .iomanNotEnoughFreeSpace
  | .noFilesystem => .iomanNotFatFormatted
  | .mkfsAborted => .iomanInvalidFormat
  | .timeout => .iomanDriverBusy
  | .locked => .fileAlreadyOpen
  | .notEnoughCore => .notEnoughMemory
  | .tooManyOpenFiles => .fileCouldNotCreateDirent
  | .invalidParameter => .nullPointer

theorem mapError_none {r : Fresult} : mapError r = .none ↔ r = .ok := by
  cases r <;> decide

theorem mapError_exists {r : Fresult} : mapError r = .fileDestinationExists ↔ r = .exist := by
  cases r <;> decide

variable {V : Type}

def FF_MkDir (f_mkdir : List UInt8 → V → Fresult × V) (Path : List UInt8) (v : V) : FfError × V :=
  ((mapError (f_mkdir Path v).1), (f_mkdir Path v).2)

/-! ### The loop -/

def FF_MAX_PATH : ℕ := 2600 / 8

/-- `c == '/' || c == '\\'` -/
def isSeparator (c : UInt8) : Bool := c = 47 || c = 92

/-- The string in a buffer. -/
def cString (p : List UInt8) : List UInt8 := p.takeWhile (· ≠ 0)

/-- The loop: `left` turns may follow. -/
def mkDirLoop (f_mkdir : List UInt8 → V → Fresult × V) (Path : ℕ → UInt8) :
    ℕ → ℕ → ℕ → List UInt8 → FfError → V → FfError × V
  | 0, _, _, _, err, v => (err, v)
  | left + 1, i, j, p, err, v =>
    let c := Path i
    if 0 < i ∧ (isSeparator c = true ∨ c = 0) then
      let p := p.set j 0
      let made := FF_MkDir f_mkdir (cString p) v
      if ¬(made.1 = .fileDestinationExists ∧ Path (i + 1) ≠ 0) ∧ made.1 ≠ .none then made
      else if Path i = 0 then made
      else mkDirLoop f_mkdir Path left (i + 1) (j + 1) (p.set j c) made.1 made.2
    else mkDirLoop f_mkdir Path left (i + 1) (j + 1) (p.set j c) err v

def FF_MkDirTree (f_mkdir : List UInt8 → V → Fresult × V) (Path : ℕ → UInt8) (v : V) : FfError × V :=
  mkDirLoop f_mkdir Path (FF_MAX_PATH - 1) 0 0 (List.replicate FF_MAX_PATH 0) .none v

/-! ### The walk -/

/-- What stands in front of the separators of `rest`, and the whole. -/
def prefixesFrom : List UInt8 → List UInt8 → List (List UInt8)
  | front, [] => [front]
  | front, c :: rest =>
    if front ≠ [] ∧ isSeparator c = true then front :: prefixesFrom (front ++ [c]) rest
    else prefixesFrom (front ++ [c]) rest

/-- The paths that a walk makes. -/
def prefixes (path : List UInt8) : List (List UInt8) := prefixesFrom [] path

/-- A walk goes on behind a directory that it has made, or that exists while more of the path follows. -/
def GoesOn (path p : List UInt8) (err : FfError) : Prop :=
  err = .none ∨ err = .fileDestinationExists ∧ p.length + 1 < path.length

instance (path p : List UInt8) (err : FfError) : Decidable (GoesOn path p err) :=
  inferInstanceAs (Decidable (_ ∨ _))

/-- One directory behind the other, up to the first answer that ends the walk. -/
def makeEach (f_mkdir : List UInt8 → V → Fresult × V) (path : List UInt8) :
    List (List UInt8) → V → FfError × V
  | [], v => (.none, v)
  | p :: ps, v =>
    let made := FF_MkDir f_mkdir p v
    if GoesOn path p made.1 then makeEach f_mkdir path ps made.2 else made

/-- A string stands in memory. -/
structure StringAt (Path : ℕ → UInt8) (path : List UInt8) : Prop where
  nonzero : 0 ∉ path
  get : ∀ front c rest, path = front ++ c :: rest → Path front.length = c
  terminator : Path path.length = 0

variable {f_mkdir : List UInt8 → V → Fresult × V} {Path : ℕ → UInt8} {path : List UInt8}

theorem StringAt.zero_iff (h : StringAt Path path) {front rest : List UInt8} (hpath : path = front ++ rest) :
    Path front.length = 0 ↔ rest = [] := by
  cases rest with
  | nil =>
    rw [List.append_nil] at hpath
    exact iff_of_true (hpath ▸ h.terminator) rfl
  | cons c rest =>
    rw [h.get front c rest hpath]
    refine iff_of_false (fun h0 => h.nonzero ?_) (List.cons_ne_nil _ _)
    rw [hpath, h0]
    exact List.mem_append_right _ List.mem_cons_self

theorem cString_front {front : List UInt8} (h : 0 ∉ front) (n : ℕ) :
    cString (front ++ List.replicate (n + 1) 0) = front := by
  rw [cString, List.takeWhile_append_of_pos, List.replicate_succ, List.takeWhile_cons_of_neg (by decide),
    List.append_nil]
  exact fun c hc => decide_eq_true fun h0 => h (h0 ▸ hc)

theorem set_front (front : List UInt8) (c : UInt8) (n : ℕ) :
    (front ++ List.replicate (n + 1) 0).set front.length c = (front ++ [c]) ++ List.replicate n 0 := by
  rw [List.set_append_right _ _ (le_refl _), Nat.sub_self, List.replicate_succ, List.set_cons_zero,
    List.append_assoc]
  rfl

/-- The terminator is in the buffer already. -/
theorem set_terminator (front : List UInt8) (n : ℕ) :
    (front ++ List.replicate (n + 1) 0).set front.length 0 = front ++ List.replicate (n + 1) 0 := by
  rw [set_front, List.append_assoc]
  rfl

theorem loop_makeEach (h : StringAt Path path) : ∀ (left : ℕ) {front rest : List UInt8} (n : ℕ)
    (err : FfError) (v : V), path = front ++ rest → path ≠ [] → rest.length < left → left ≤ n →
    mkDirLoop f_mkdir Path left front.length front.length (front ++ List.replicate (n + 1) 0) err v =
      makeEach f_mkdir path (prefixesFrom front rest) v
  | 0, _, _, _, _, _, _, _, hleft, _ => absurd hleft (Nat.not_lt_zero _)
  | left + 1, front, [], n, err, v, hpath, hne, _, _ => by
    rw [List.append_nil] at hpath
    have hpos : 0 < front.length := List.length_pos_iff.mpr (hpath ▸ hne)
    have hend : Path front.length = 0 := hpath ▸ h.terminator
    have hself : ∀ e, GoesOn path front e ↔ e = .none := fun e =>
      ⟨fun hgo => hgo.resolve_right fun hlt => by rw [hpath] at hlt; omega, Or.inl⟩
    have hturn : 0 < front.length ∧ (isSeparator (Path front.length) = true ∨ Path front.length = 0) :=
      ⟨hpos, Or.inr hend⟩
    rw [mkDirLoop, prefixesFrom, makeEach, if_pos hturn]
    simp only [set_terminator, cString_front (hpath ▸ h.nonzero), hself, hend, if_true, makeEach, ite_self]
    generalize FF_MkDir f_mkdir front v = made
    split
    · next hnone => rw [← hnone]
    · rfl
  | left + 1, front, c :: rest, n + 1, err, v, hpath, hne, hleft, hn => by
    have hc : Path front.length = c := h.get front c rest hpath
    have hc0 : c ≠ 0 := fun h0 => h.nonzero (by
      rw [hpath, h0]
      exact List.mem_append_right _ List.mem_cons_self)
    have hnext : path = (front ++ [c]) ++ rest := by rw [hpath, List.append_assoc]; rfl
    have hlen : (front ++ [c]).length = front.length + 1 := List.length_append
    have hmore : Path (front.length + 1) ≠ 0 ↔ front.length + 1 < path.length := by
      have hzero := h.zero_iff hnext
      rw [hlen] at hzero
      rw [ne_eq, hzero, hnext, List.length_append, hlen, ← ne_eq, ← List.length_pos_iff]
      omega
    have hzero : 0 ∉ front := fun h0 => h.nonzero (hpath ▸ List.mem_append_left _ h0)
    have ih := fun err v => loop_makeEach h left n err v hnext hne (Nat.lt_of_succ_lt_succ hleft)
      (Nat.le_of_succ_le_succ hn)
    rw [hlen] at ih
    rw [mkDirLoop, prefixesFrom]
    simp only [hc, hc0, or_false, if_false]
    by_cases hsep : 0 < front.length ∧ isSeparator c = true
    · have hsep' : front ≠ [] ∧ isSeparator c = true := ⟨List.length_pos_iff.mp hsep.1, hsep.2⟩
      rw [if_pos hsep, if_pos hsep', makeEach]
      simp only [set_terminator, cString_front hzero, hmore]
      rw [set_front, ih]
      by_cases hgo : GoesOn path front (FF_MkDir f_mkdir front v).1
      · rw [if_pos hgo, if_neg fun hstop => hgo.elim hstop.2 hstop.1]
      · rw [if_neg hgo, if_pos ⟨fun hex => hgo (Or.inr hex), fun hnone => hgo (Or.inl hnone)⟩]
    · rw [if_neg hsep, set_front, ih, if_neg fun hs => hsep ⟨List.length_pos_iff.mpr hs.1, hs.2⟩]

/-- The loop walks the path. -/
theorem FF_MkDirTree_eq (h : StringAt Path path) (hne : path ≠ []) (hlen : path.length < FF_MAX_PATH - 1)
    (v : V) : FF_MkDirTree f_mkdir Path v = makeEach f_mkdir path (prefixes path) v :=
  @loop_makeEach V f_mkdir Path path h (FF_MAX_PATH - 1) [] path (FF_MAX_PATH - 1) .none v rfl hne hlen (le_refl _)

/-! ### Walks that reach the end -/

/-- All these paths are made, or exist. -/
inductive Walks (f_mkdir : List UInt8 → V → Fresult × V) (path : List UInt8) :
    List (List UInt8) → V → V → Prop where
  | done (v : V) : Walks f_mkdir path [] v v
  | next {p : List UInt8} {ps : List (List UInt8)} {v w : V} :
      GoesOn path p (FF_MkDir f_mkdir p v).1 → Walks f_mkdir path ps (FF_MkDir f_mkdir p v).2 w →
        Walks f_mkdir path (p :: ps) v w

theorem makeEach_none_iff : ∀ {ps : List (List UInt8)} {v w : V},
    makeEach f_mkdir path ps v = (.none, w) ↔ Walks f_mkdir path ps v w
  | [], v, w => by
    rw [makeEach]
    constructor
    · intro h
      rw [← (Prod.mk.inj h).2]
      exact .done v
    · rintro ⟨⟩
      rfl
  | p :: ps, v, w => by
    rw [makeEach]
    by_cases hgo : GoesOn path p (FF_MkDir f_mkdir p v).1
    · rw [if_pos hgo, makeEach_none_iff]
      refine ⟨.next hgo, fun h => ?_⟩
      cases h with
      | next _ hrest => exact hrest
    · rw [if_neg hgo]
      refine ⟨fun h => absurd (Or.inl (congrArg Prod.fst h)) hgo, fun h => ?_⟩
      cases h with
      | next hgo' _ => exact absurd hgo' hgo

/-- Any other answer ends the walk, and is the answer of the whole. -/
theorem makeEach_stops : ∀ {ps : List (List UInt8)} {v : V}, (makeEach f_mkdir path ps v).1 ≠ .none →
    ∃ front p back u, ps = front ++ p :: back ∧ Walks f_mkdir path front v u ∧
      FF_MkDir f_mkdir p u = makeEach f_mkdir path ps v ∧ ¬GoesOn path p (FF_MkDir f_mkdir p u).1
  | [], _, h => absurd rfl h
  | p :: ps, v, h => by
    rw [makeEach] at h ⊢
    by_cases hgo : GoesOn path p (FF_MkDir f_mkdir p v).1
    · rw [if_pos hgo] at h ⊢
      obtain ⟨front, q, back, u, rfl, hwalk, hmade, hstop⟩ := makeEach_stops h
      exact ⟨p :: front, q, back, u, rfl, .next hgo hwalk, hmade, hstop⟩
    · rw [if_neg hgo]
      exact ⟨[], p, ps, v, rfl, .done v, rfl, hgo⟩

theorem Walks.last : ∀ {ps : List (List UInt8)} {v w : V}, Walks f_mkdir path (ps ++ [path]) v w →
    ∃ u, Walks f_mkdir path ps v u ∧ f_mkdir path u = (.ok, w)
  | [], v, w, h => by
    cases h with
    | next hgo hrest =>
      cases hrest
      refine ⟨v, .done v, ?_⟩
      have hnone := hgo.resolve_right fun hlt => absurd hlt.2 (by omega)
      exact Prod.ext (mapError_none.mp hnone) rfl
  | p :: ps, v, w, h => by
    cases h with
    | next hgo hrest =>
      obtain ⟨u, hwalk, hlast⟩ := hrest.last
      exact ⟨u, .next hgo hwalk, hlast⟩

theorem prefixesFrom_last : ∀ (rest front : List UInt8), ∃ ps, prefixesFrom front rest = ps ++ [front ++ rest]
  | [], front => ⟨[], by rw [prefixesFrom, List.append_nil]; rfl⟩
  | c :: rest, front => by
    obtain ⟨ps, hps⟩ := prefixesFrom_last rest (front ++ [c])
    rw [List.append_assoc] at hps
    rw [prefixesFrom, hps]
    split
    · exact ⟨front :: ps, rfl⟩
    · exact ⟨ps, rfl⟩

/-- A path that a walk makes ends in front of a separator, or is the whole. -/
theorem mem_prefixesFrom : ∀ {rest front p : List UInt8}, p ∈ prefixesFrom front rest ↔
    p = front ++ rest ∨ p ≠ [] ∧ ∃ mid c back, rest = mid ++ c :: back ∧ isSeparator c = true ∧ p = front ++ mid
  | [], front, p => by
    rw [prefixesFrom, List.append_nil, List.mem_singleton]
    refine ⟨Or.inl, fun h => h.resolve_right ?_⟩
    rintro ⟨-, mid, c, back, hnil, -⟩
    exact absurd hnil (by simp)
  | c :: rest, front, p => by
    have ih := @mem_prefixesFrom rest (front ++ [c]) p
    have hmem : p ∈ prefixesFrom front (c :: rest) ↔
        p = front ∧ front ≠ [] ∧ isSeparator c = true ∨ p ∈ prefixesFrom (front ++ [c]) rest := by
      rw [prefixesFrom]
      split
      · next hsep => rw [List.mem_cons, and_iff_left hsep]
      · next hsep => rw [or_iff_right fun h => hsep h.2]
    rw [hmem, ih, List.append_assoc]
    constructor
    · rintro (⟨rfl, hne, hsep⟩ | rfl | ⟨hne, mid, d, back, rfl, hsep, rfl⟩)
      · exact Or.inr ⟨hne, [], c, rest, rfl, hsep, (List.append_nil p).symm⟩
      · exact Or.inl rfl
      · exact Or.inr ⟨hne, c :: mid, d, back, rfl, hsep, List.append_assoc front [c] mid⟩
    · rintro (rfl | ⟨hne, mid, d, back, hrest, hsep, rfl⟩)
      · exact Or.inr (Or.inl rfl)
      · cases mid with
        | nil =>
          obtain ⟨rfl, rfl⟩ := List.cons.inj hrest
          rw [List.append_nil] at hne ⊢
          exact Or.inl ⟨rfl, hne, hsep⟩
        | cons e mid =>
          obtain ⟨rfl, rfl⟩ := List.cons.inj hrest
          exact Or.inr (Or.inr ⟨hne, mid, d, back, rfl, hsep, (List.append_assoc front [c] mid).symm⟩)

theorem mem_prefixes {p : List UInt8} : p ∈ prefixes path ↔
    p = path ∨ p ≠ [] ∧ ∃ c back, path = p ++ c :: back ∧ isSeparator c = true := by
  rw [prefixes, mem_prefixesFrom, List.nil_append]
  simp only [List.nil_append]
  refine or_congr_right (and_congr_right fun _ => ?_)
  constructor
  · rintro ⟨mid, c, back, hpath, hsep, rfl⟩
    exact ⟨c, back, hpath, hsep⟩
  · rintro ⟨c, back, hpath, hsep⟩
    exact ⟨p, c, back, hpath, hsep, rfl⟩

/-! ### Volumes -/

/-- A volume and its `f_mkdir`, which makes what was no directory, in a directory, and removes none. -/
structure Volume (V : Type) where
  f_mkdir : List UInt8 → V → Fresult × V
  dir : V → List UInt8 → Prop
  made : ∀ {p v w}, f_mkdir p v = (.ok, w) → ¬dir v p ∧ dir w p
  parent : ∀ {p c q v w}, f_mkdir (p ++ c :: q) v = (.ok, w) → isSeparator c = true → p ≠ [] → dir w p
  kept : ∀ {p q v}, dir v q → dir (f_mkdir p v).2 q

variable {vol : Volume V}

theorem makeEach_kept : ∀ {ps : List (List UInt8)} {v : V} {q : List UInt8}, vol.dir v q →
    vol.dir (makeEach vol.f_mkdir path ps v).2 q
  | [], _, _, h => h
  | p :: ps, v, q, h => by
    rw [makeEach]
    split
    · exact makeEach_kept (vol.kept h)
    · exact vol.kept h

theorem Walks.kept {ps : List (List UInt8)} {v w : V} {q : List UInt8}
    (h : Walks vol.f_mkdir path ps v w) (hq : vol.dir v q) : vol.dir w q := by
  have hkept := @makeEach_kept V path vol ps v q hq
  rwa [makeEach_none_iff.mpr h] at hkept

/-- A volume of names, each made behind those in front of it. -/
def namedVolume : Volume (List (List UInt8)) where
  f_mkdir p v :=
    if p ∈ v then (.exist, v)
    else if ∀ q ∈ prefixes p, q = p ∨ q ∈ v then (.ok, p :: v)
    else (.noPath, v)
  dir v p := p ∈ v
  made {p v w} h := by
    split at h
    · exact absurd (Prod.mk.inj h).1 (by decide)
    · next hnew =>
      split at h
      · rw [← (Prod.mk.inj h).2]
        exact ⟨hnew, List.mem_cons_self⟩
      · exact absurd (Prod.mk.inj h).1 (by decide)
  parent {p c q v w} h hsep hp := by
    split at h
    · exact absurd (Prod.mk.inj h).1 (by decide)
    · split at h
      · next hfront =>
        rw [← (Prod.mk.inj h).2]
        refine List.mem_cons_of_mem _ ((hfront p ?_).resolve_left fun heq => ?_)
        · exact mem_prefixes.mpr (Or.inr ⟨hp, c, q, rfl, hsep⟩)
        · exact absurd (congrArg List.length heq) (by simp)
      · exact absurd (Prod.mk.inj h).1 (by decide)
  kept {p q v} h := by
    split
    · exact h
    · split
      · exact List.mem_cons_of_mem _ h
      · exact h

theorem stringAt_getD (h : 0 ∉ path) : StringAt (fun i => path.getD i 0) path where
  nonzero := h
  get front c rest hpath := by simp [hpath]
  terminator := by simp

end FatFs
