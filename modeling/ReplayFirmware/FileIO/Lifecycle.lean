import ReplayFirmware.FileIO.Slots

/-! What becomes of the files and the descriptors.

    An insert clears the slot before it opens anything, a failed insert and an eject release what the
    slot points to and leave the pointers where they are. So a run releases everything once exactly when
    no insert goes to a drive that is inserted, and no eject to one that is not but has pointers; and no
    pointer dangles exactly when hardly anything is ever ejected. -/

namespace FileIO.Slots
open Function Owned Steps

variable {s s' : State} {op : Op} {a : Answers} {ch : Fin 2} {drive_number : Fin 4}
  {path : List UInt8}

/-- The slot points nowhere. -/
def Bare (s : State) (k : Fin 2 × Fin 4) : Prop :=
  (s.handle k).fSource = none ∧ (s.handle k).pDesc = none

/-- Every file that has been opened, and every descriptor, is released once or has one slot that points
    to it; no slot points to one that has been released; a slot that is not inserted points nowhere. -/
structure Clean (s : State) : Prop where
  files : Holds s.files fun k => (s.handle k).fSource
  descs : Holds s.descs fun k => (s.handle k).pDesc
  bare : ∀ k, (s.handle k).inserted = false → Bare s k

/-- The call leaves no pointer behind and overwrites none. -/
def Fine (s : State) : Op → Prop
  | .insert a ch drive_number path => Bare s (ch, drive_number) ∧
      (Accepts a (s.driver ch) drive_number path ∨ Idle a (s.driver ch) path)
  | .eject ch drive_number => Bare s (ch, drive_number)
  | .init => ∀ k, Bare s k
  | _ => True

/-- The file of a drive that is inserted. -/
def Slot.ownFile (pDrive : Slot) : Option ℕ := if pDrive.inserted then pDrive.fSource else none

/-- The descriptor of a drive that is inserted. -/
def Slot.ownDesc (pDrive : Slot) : Option ℕ := if pDrive.inserted then pDrive.pDesc else none

/-- Every file that has been opened, and every descriptor, is released once or belongs to one drive that
    is inserted. -/
structure Balanced (s : State) : Prop where
  files : Holds s.files fun k => (s.handle k).ownFile
  descs : Holds s.descs fun k => (s.handle k).ownDesc

/-- An insert goes to a drive that is not inserted, an eject to one that is, or that points nowhere. -/
def Guarded (s : State) : Op → Prop
  | .insert _ ch drive_number _ => (s.handle (ch, drive_number)).inserted = false
  | .eject ch drive_number => (s.handle (ch, drive_number)).inserted = true ∨ Bare s (ch, drive_number)
  | .init => ∀ k, (s.handle k).inserted = false
  | _ => True

/-- What every call keeps: an inserted drive has a descriptor, and the pointers of a slot that is not
    inserted are left over. -/
structure Sound (s : State) : Prop where
  furnished : ∀ k, (s.handle k).inserted = true → (s.handle k).pDesc ≠ none
  oldFile : ∀ k r, (s.handle k).inserted = false → (s.handle k).fSource = some r →
    1 ≤ s.files.released r
  oldDesc : ∀ k r, (s.handle k).inserted = false → (s.handle k).pDesc = some r →
    1 ≤ s.descs.released r

/-! ### Where the pointers of one slot are replaced -/

theorem comp_update {β : Type} (f : Slot → β) (handle : Fin 2 × Fin 4 → Slot) (k : Fin 2 × Fin 4)
    (pDrive : Slot) :
    (fun k' => f (update handle k pDrive k')) = update (fun k' => f (handle k')) k (f pDrive) :=
  funext fun k' => apply_update (fun _ => f) handle k pDrive k'

/-- A slot is clean when what it points to is its own, and it points nowhere if it is not inserted. -/
theorem clean_update_iff (h : Clean s) (k : Fin 2 × Fin 4) (pDrive : Slot) (driver : Fin 2 → UInt8)
    (files descs : Pool) (sent : Fin 2 → Option UInt8) :
    Clean ⟨update s.handle k pDrive, driver, files, descs, sent⟩ ↔
      Holds files (update (fun k => (s.handle k).fSource) k pDrive.fSource) ∧
      Holds descs (update (fun k => (s.handle k).pDesc) k pDrive.pDesc) ∧
      (pDrive.inserted = false → pDrive.fSource = none ∧ pDrive.pDesc = none) := by
  rw [← comp_update Slot.fSource, ← comp_update Slot.pDesc]
  constructor
  · rintro ⟨hfiles, hdescs, hbare⟩
    refine ⟨hfiles, hdescs, fun hi => ?_⟩
    have hk := hbare k
    simp only [Bare, update_self] at hk
    exact hk hi
  · rintro ⟨hfiles, hdescs, hbare⟩
    refine ⟨hfiles, hdescs, fun k' hi => ?_⟩
    by_cases hk : k' = k
    · subst hk
      simp only [update_self] at hi
      simp only [Bare, update_self]
      exact hbare hi
    · simp only [update_of_ne hk] at hi
      simp only [Bare, update_of_ne hk]
      exact h.bare k' hi

theorem balanced_update_iff (k : Fin 2 × Fin 4) (pDrive : Slot) (driver : Fin 2 → UInt8)
    (files descs : Pool) (sent : Fin 2 → Option UInt8) :
    Balanced ⟨update s.handle k pDrive, driver, files, descs, sent⟩ ↔
      Holds files (update (fun k => (s.handle k).ownFile) k pDrive.ownFile) ∧
      Holds descs (update (fun k => (s.handle k).ownDesc) k pDrive.ownDesc) := by
  rw [← comp_update Slot.ownFile, ← comp_update Slot.ownDesc]
  exact ⟨fun h => ⟨h.files, h.descs⟩, fun h => ⟨h.1, h.2⟩⟩

/-! ### What one call does -/

theorem insert_clean_iff (h : Clean s) (hins : Inserts a ch drive_number path s s') :
    Clean s' ↔ Fine s (.insert a ch drive_number path) := by
  cases hins with
  | absent hopen =>
    have hidle : Idle a (s.driver ch) path := fun status fSource h0 => by
      rw [hopen] at h0
      exact absurd h0.symm (Option.some_ne_none _)
    rw [clean_update_iff h, Slot.clear, h.files.forget_iff, h.descs.forget_iff, Fine, Bare]
    simp only [hidle, or_true, and_true, implies_true]
  | refused hopen hv =>
    rename_i status fSource
    have hnot := not_accepts_of_refused hopen hv
    have hidle : Idle a (s.driver ch) path ↔
        fSource.isSome = false ∧ allocates a (s.driver ch) = false := by
      constructor
      · exact fun hi => hi status fSource hopen
      · intro hi _ _ h0
        obtain ⟨rfl, rfl⟩ := Prod.ext_iff.mp (Option.some.inj (hopen.symm.trans h0))
        exact hi
    rw [clean_update_iff h, h.files.keptIf_iff, h.descs.keptIf_iff, Fine, Bare, hidle]
    constructor
    · rintro ⟨⟨hf, hfile⟩, ⟨hd, hdesc⟩, -⟩
      exact ⟨⟨hfile, hdesc⟩, Or.inr ⟨hf, hd⟩⟩
    · rintro ⟨⟨hfile, hdesc⟩, hacc | ⟨hf, hd⟩⟩
      · exact absurd hacc hnot
      · exact ⟨⟨hf, hfile⟩, ⟨hd, hdesc⟩, fun _ => by rw [hf, hd]; exact ⟨rfl, rfl⟩⟩
  | taken hopen hv =>
    have hacc : Accepts a (s.driver ch) drive_number path := ⟨_, _, _, hopen, hv⟩
    rw [updateDriveStatus, clean_update_iff h, h.files.acquireIf_iff, h.descs.acquireIf_iff, Fine, Bare]
    simp only [inserted_or, Bool.true_eq_false, IsEmpty.forall_iff, and_true, hacc, true_or]

theorem eject_clean_iff (h : Clean s) :
    Clean (eject ch drive_number s) ↔ Bare s (ch, drive_number) := by
  have hfiles := update_eq_self (ch, drive_number) fun k => (s.handle k).fSource
  have hdescs := update_eq_self (ch, drive_number) fun k => (s.handle k).pDesc
  rw [eject, updateDriveStatus, clean_update_iff h]
  simp only at hfiles hdescs ⊢
  rw [hfiles, hdescs]
  constructor
  · rintro ⟨hf, hd, -⟩
    exact ⟨h.files.releaseIf_kept_iff.mp hf, h.descs.releaseIf_kept_iff.mp hd⟩
  · intro hbare
    exact ⟨h.files.releaseIf_kept_iff.mpr hbare.1, h.descs.releaseIf_kept_iff.mpr hbare.2,
      fun _ => hbare⟩

theorem togProtect_clean (h : Clean s) : Clean (togProtect ch drive_number s) := by
  have hfiles := update_eq_self (ch, drive_number) fun k => (s.handle k).fSource
  have hdescs := update_eq_self (ch, drive_number) fun k => (s.handle k).pDesc
  rw [togProtect]
  split
  · rw [updateDriveStatus, clean_update_iff h]
    simp only at hfiles hdescs ⊢
    rw [hfiles, hdescs, inserted_xor]
    exact ⟨h.files, h.descs, h.bare (ch, drive_number)⟩
  · exact h

theorem init_clean_iff (h : Clean s) : Clean (init s) ↔ ∀ k, Bare s k := by
  constructor
  · rintro ⟨hfiles, hdescs, -⟩ k
    exact ⟨h.files.clear_iff.mp hfiles k, h.descs.clear_iff.mp hdescs k⟩
  · intro hbare
    exact ⟨h.files.clear_iff.mpr fun k => (hbare k).1, h.descs.clear_iff.mpr fun k => (hbare k).2,
      fun _ _ => ⟨rfl, rfl⟩⟩

/-- A call leaves a clean state clean if and only if it is fine. -/
theorem step_clean_iff (h : Clean s) (hstep : step s op = some s') : Clean s' ↔ Fine s op := by
  cases op with
  | insert a ch drive_number path => exact insert_clean_iff h (insert_inserts hstep)
  | eject ch drive_number =>
    obtain rfl := Option.some.inj hstep
    exact eject_clean_iff h
  | togProtect ch drive_number =>
    obtain rfl := Option.some.inj hstep
    exact iff_of_true (togProtect_clean h) trivial
  | init =>
    obtain rfl := Option.some.inj hstep
    exact init_clean_iff h
  | setDriver ch type =>
    obtain rfl := Option.some.inj hstep
    exact iff_of_true ⟨h.files, h.descs, h.bare⟩ trivial
  | updateDriveStatus ch =>
    obtain rfl := Option.some.inj hstep
    exact iff_of_true ⟨h.files, h.descs, h.bare⟩ trivial

/-! ### What every call keeps -/

theorem sound_update (hs : Sound s) (k : Fin 2 × Fin 4) {pDrive : Slot} {driver : Fin 2 → UInt8}
    {files descs : Pool} {sent : Fin 2 → Option UInt8}
    (hfiles : ∀ r, s.files.released r ≤ files.released r)
    (hdescs : ∀ r, s.descs.released r ≤ descs.released r)
    (hfurnished : pDrive.inserted = true → pDrive.pDesc ≠ none)
    (hfile : ∀ r, pDrive.inserted = false → pDrive.fSource = some r → 1 ≤ files.released r)
    (hdesc : ∀ r, pDrive.inserted = false → pDrive.pDesc = some r → 1 ≤ descs.released r) :
    Sound ⟨update s.handle k pDrive, driver, files, descs, sent⟩ := by
  refine ⟨fun k' hi => ?_, fun k' r hi hr => ?_, fun k' r hi hr => ?_⟩ <;> by_cases hk : k' = k
  · subst hk
    simp only [update_self] at hi ⊢
    exact hfurnished hi
  · simp only [update_of_ne hk] at hi ⊢
    exact hs.furnished k' hi
  · subst hk
    simp only [update_self] at hi hr
    exact hfile r hi hr
  · simp only [update_of_ne hk] at hi hr
    exact (hs.oldFile k' r hi hr).trans (hfiles r)
  · subst hk
    simp only [update_self] at hi hr
    exact hdesc r hi hr
  · simp only [update_of_ne hk] at hi hr
    exact (hs.oldDesc k' r hi hr).trans (hdescs r)

/-- A resource that is acquired and released again does not take a release back. -/
theorem released_le_pass (p : Pool) (b : Bool) (r : ℕ) :
    p.released r ≤ ((p.acquireIf b).2.releaseIf (p.acquireIf b).1).released r :=
  (le_of_eq (congrFun (released_acquireIf b).symm r)).trans (released_le_releaseIf _ r)

theorem insert_sound (hs : Sound s) (hins : Inserts a ch drive_number path s s') : Sound s' := by
  cases hins with
  | absent hopen =>
    exact sound_update hs _ (fun _ => le_refl _) (fun _ => le_refl _) (fun hi => absurd hi (by decide))
      (fun r _ hr => absurd hr.symm (Option.some_ne_none r))
      (fun r _ hr => absurd hr.symm (Option.some_ne_none r))
  | refused hopen hv =>
    refine sound_update hs _ (released_le_pass _ _) (released_le_pass _ _) (fun hi => ?_)
      (fun r _ hr => released_releaseIf_self _ hr) (fun r _ hr => released_releaseIf_self _ hr)
    rw [failed_not_inserted hopen] at hi
    exact absurd hi Bool.false_ne_true
  | taken hopen hv =>
    refine sound_update hs _ (fun r => le_of_eq (congrFun (released_acquireIf _).symm r))
      (fun r => le_of_eq (congrFun (released_acquireIf _).symm r)) (fun _ => ?_)
      (fun r hi => ?_) (fun r hi => ?_)
    · rw [allocates_of_taken hv]
      exact Option.some_ne_none _
    · rw [inserted_or] at hi
      exact absurd hi.symm Bool.false_ne_true
    · rw [inserted_or] at hi
      exact absurd hi.symm Bool.false_ne_true

theorem sound_start : Sound State.start :=
  ⟨fun _ hi => absurd (hi.symm.trans (inserted_zero ..)) (by decide), fun _ r _ hr => absurd hr.symm (Option.some_ne_none r),
    fun _ r _ hr => absurd hr.symm (Option.some_ne_none r)⟩

theorem step_sound (s : State) (op : Op) (s' : State) (hs : Sound s) (hstep : step s op = some s') :
    Sound s' := by
  cases op with
  | insert a ch drive_number path => exact insert_sound hs (insert_inserts hstep)
  | eject ch drive_number =>
    obtain rfl := Option.some.inj hstep
    exact sound_update hs _ (released_le_releaseIf _) (released_le_releaseIf _)
      (fun hi => absurd (hi.symm.trans (inserted_zero ..)) (by decide))
      (fun r _ hr => released_releaseIf_self _ hr)
      (fun r _ hr => released_releaseIf_self _ hr)
  | togProtect ch drive_number =>
    obtain rfl := Option.some.inj hstep
    rw [togProtect]
    split
    · next hi =>
      refine sound_update hs _ (fun _ => le_refl _) (fun _ => le_refl _) (fun _ => hs.furnished _ hi)
        (fun r hi' => ?_) (fun r hi' => ?_)
      · exact absurd (hi'.symm.trans ((inserted_xor _).trans hi)) Bool.false_ne_true
      · exact absurd (hi'.symm.trans ((inserted_xor _).trans hi)) Bool.false_ne_true
    · exact hs
  | init =>
    obtain rfl := Option.some.inj hstep
    exact ⟨sound_start.furnished, fun _ r _ hr => absurd hr.symm (Option.some_ne_none r),
      fun _ r _ hr => absurd hr.symm (Option.some_ne_none r)⟩
  | setDriver ch type =>
    obtain rfl := Option.some.inj hstep
    exact ⟨hs.furnished, hs.oldFile, hs.oldDesc⟩
  | updateDriveStatus ch =>
    obtain rfl := Option.some.inj hstep
    exact ⟨hs.furnished, hs.oldFile, hs.oldDesc⟩

/-! ### Whether all is released once -/

theorem Slot.ownFile_of_not {pDrive : Slot} (h : pDrive.inserted = false) : pDrive.ownFile = none := by
  rw [Slot.ownFile, h]
  rfl

theorem Slot.ownDesc_of_not {pDrive : Slot} (h : pDrive.inserted = false) : pDrive.ownDesc = none := by
  rw [Slot.ownDesc, h]
  rfl

/-- A drive that is not inserted owns nothing, one that is has its descriptor. -/
theorem owns_iff (hs : Sound s) (k : Fin 2 × Fin 4) :
    (s.handle k).ownFile = none ∧ (s.handle k).ownDesc = none ↔ (s.handle k).inserted = false := by
  constructor
  · rintro ⟨-, hdesc⟩
    by_contra hi
    rw [Bool.not_eq_false] at hi
    rw [Slot.ownDesc, if_pos hi] at hdesc
    exact hs.furnished k hi hdesc
  · exact fun hi => ⟨Slot.ownFile_of_not hi, Slot.ownDesc_of_not hi⟩

theorem insert_balanced_iff (hs : Sound s) (h : Balanced s)
    (hins : Inserts a ch drive_number path s s') :
    Balanced s' ↔ (s.handle (ch, drive_number)).inserted = false := by
  rw [← owns_iff hs]
  cases hins with
  | absent hopen =>
    rw [balanced_update_iff, Slot.ownFile_of_not (inserted_readonly ..),
      Slot.ownDesc_of_not (inserted_readonly ..), h.files.forget_iff,
      h.descs.forget_iff]
  | refused hopen hv =>
    rw [balanced_update_iff, Slot.ownFile_of_not (failed_not_inserted hopen _ _ _),
      Slot.ownDesc_of_not (failed_not_inserted hopen _ _ _), h.files.passIf_iff, h.descs.passIf_iff]
  | taken hopen hv =>
    rw [updateDriveStatus, balanced_update_iff, Slot.ownFile, Slot.ownDesc]
    simp only [inserted_or, if_true]
    rw [h.files.acquireIf_iff, h.descs.acquireIf_iff]

theorem eject_balanced_iff (hs : Sound s) (h : Balanced s) :
    Balanced (eject ch drive_number s) ↔
      (s.handle (ch, drive_number)).inserted = true ∨ Bare s (ch, drive_number) := by
  rw [eject, updateDriveStatus, balanced_update_iff, Slot.ownFile_of_not (inserted_zero ..),
    Slot.ownDesc_of_not (inserted_zero ..)]
  by_cases hi : (s.handle (ch, drive_number)).inserted = true
  · have hfile := h.files.releaseIf (k := (ch, drive_number))
    have hdesc := h.descs.releaseIf (k := (ch, drive_number))
    rw [Slot.ownFile, if_pos hi] at hfile
    rw [Slot.ownDesc, if_pos hi] at hdesc
    exact iff_of_true ⟨hfile, hdesc⟩ (Or.inl hi)
  · have hnot : (s.handle (ch, drive_number)).inserted = false := Bool.eq_false_of_not_eq_true hi
    rw [or_iff_right hi]
    constructor
    · rintro ⟨hfile, hdesc⟩
      refine ⟨Option.eq_none_iff_forall_ne_some.mpr fun r hr => ?_,
        Option.eq_none_iff_forall_ne_some.mpr fun r hr => ?_⟩
      · rw [hr] at hfile
        exact not_holds_twice (hs.oldFile _ r hnot hr) hfile
      · rw [hr] at hdesc
        exact not_holds_twice (hs.oldDesc _ r hnot hr) hdesc
    · rintro ⟨hfile, hdesc⟩
      rw [hfile, hdesc]
      exact ⟨h.files.forget_iff.mpr (Slot.ownFile_of_not hnot),
        h.descs.forget_iff.mpr (Slot.ownDesc_of_not hnot)⟩

theorem togProtect_balanced (h : Balanced s) : Balanced (togProtect ch drive_number s) := by
  have hfiles := update_eq_self (ch, drive_number) fun k => (s.handle k).ownFile
  have hdescs := update_eq_self (ch, drive_number) fun k => (s.handle k).ownDesc
  rw [togProtect]
  split
  · next hi =>
    rw [updateDriveStatus, balanced_update_iff, Slot.ownFile, Slot.ownDesc, inserted_xor, if_pos hi,
      if_pos hi]
    simp only [Slot.ownFile, Slot.ownDesc, if_pos hi] at hfiles hdescs ⊢
    rw [hfiles, hdescs]
    exact ⟨h.files, h.descs⟩
  · exact h

theorem init_balanced_iff (hs : Sound s) (h : Balanced s) :
    Balanced (init s) ↔ ∀ k, (s.handle k).inserted = false := by
  have hfile : (fun k => ((init s).handle k).ownFile) = fun _ => none := funext fun _ =>
    Slot.ownFile_of_not (inserted_zero ..)
  have hdesc : (fun k => ((init s).handle k).ownDesc) = fun _ => none := funext fun _ =>
    Slot.ownDesc_of_not (inserted_zero ..)
  have hiff : Balanced (init s) ↔ Holds s.files (fun k => ((init s).handle k).ownFile) ∧
      Holds s.descs fun k => ((init s).handle k).ownDesc :=
    ⟨fun hb => ⟨hb.files, hb.descs⟩, fun hb => ⟨hb.1, hb.2⟩⟩
  rw [hiff, hfile, hdesc, h.files.clear_iff, h.descs.clear_iff, ← forall_and]
  exact forall_congr' fun k => owns_iff hs k

/-- A call keeps the balance if and only if it is guarded. -/
theorem step_balanced_iff (hs : Sound s) (h : Balanced s) (hstep : step s op = some s') :
    Balanced s' ↔ Guarded s op := by
  cases op with
  | insert a ch drive_number path => exact insert_balanced_iff hs h (insert_inserts hstep)
  | eject ch drive_number =>
    obtain rfl := Option.some.inj hstep
    exact eject_balanced_iff hs h
  | togProtect ch drive_number =>
    obtain rfl := Option.some.inj hstep
    exact iff_of_true (togProtect_balanced h) trivial
  | init =>
    obtain rfl := Option.some.inj hstep
    exact init_balanced_iff hs h
  | setDriver ch type =>
    obtain rfl := Option.some.inj hstep
    exact iff_of_true ⟨h.files, h.descs⟩ trivial
  | updateDriveStatus ch =>
    obtain rfl := Option.some.inj hstep
    exact iff_of_true ⟨h.files, h.descs⟩ trivial

/-! ### Runs -/

theorem Clean.ownFile (h : Clean s) (k : Fin 2 × Fin 4) :
    (s.handle k).ownFile = (s.handle k).fSource := by
  rw [Slot.ownFile]
  split
  · rfl
  · next hi => exact (h.bare k (Bool.eq_false_of_not_eq_true hi)).1.symm

theorem Clean.ownDesc (h : Clean s) (k : Fin 2 × Fin 4) :
    (s.handle k).ownDesc = (s.handle k).pDesc := by
  rw [Slot.ownDesc]
  split
  · rfl
  · next hi => exact (h.bare k (Bool.eq_false_of_not_eq_true hi)).2.symm

/-- In a clean state nothing is lost and nothing released twice. -/
theorem Clean.balanced (h : Clean s) : Balanced s :=
  ⟨by rw [funext h.ownFile]; exact h.files, by rw [funext h.ownDesc]; exact h.descs⟩

theorem clean_start : Clean State.start := ⟨holds_empty, holds_empty, fun _ _ => ⟨rfl, rfl⟩⟩

/-- From power-up on every state is clean if and only if every call is fine, and every state is balanced
    if and only if every call is guarded. -/
theorem lifecycle_iff (ops : List Op) :
    (AllStates step Clean State.start ops ↔ AllSteps step Fine State.start ops) ∧
    (AllStates step Balanced State.start ops ↔ AllSteps step Guarded State.start ops) :=
  ⟨allStates_iff (fun _ _ _ _ _ => trivial) (fun _ _ _ (_ : True) h hstep => step_clean_iff h hstep)
      ops trivial clean_start,
    allStates_iff step_sound (fun _ _ _ hs h hstep => step_balanced_iff hs h hstep)
      ops sound_start clean_start.balanced⟩

attribute [local instance] twoChannels fourDrives in
/-- Two inserts into one slot. -/
def twoInserts : List Op :=
  [.insert imageAnswers 0 0 [0x2F, 0x61], .insert imageAnswers 0 0 [0x2F, 0x61]]

theorem double_insert_leaks : ¬(∀ ops, AllStates step Clean State.start ops) ∧
    ¬∀ ops, AllStates step Balanced State.start ops := by
  have hsome : (run step State.start twoInserts).isSome = true := by decide
  have hlost : ∀ s ∈ run step State.start twoInserts,
      s.files.Live 0 ∧ ∀ i j, (s.handle (i, j)).ownFile ≠ some 0 := by decide
  obtain ⟨s, hrun⟩ := Option.isSome_iff_exists.mp hsome
  obtain ⟨hlive, hnone⟩ := hlost s hrun
  have hnot : ¬Balanced s := by
    intro hb
    obtain ⟨k, hk⟩ := hb.files.kept 0 hlive
    exact hnone k.1 k.2 hk
  constructor
  · intro hall
    exact hnot (AllStates.reached (hall (twoInserts ++ [])) hrun).balanced
  · intro hall
    exact hnot (AllStates.reached (hall (twoInserts ++ [])) hrun)

end FileIO.Slots
