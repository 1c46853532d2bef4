import ReplayFirmware.Drv08.Insert
import ReplayFirmware.FileIO.Drv01
import ReplayFirmware.FileIO.Uef
import ReplayFirmware.Lib.Owned
import ReplayFirmware.Lib.Steps
import ReplayFirmware.Libc.Strings

/-! The slots of the file channels.

    Two channels have four slots each. A slot points to the file that is open for it and to the
    descriptor that its driver has allocated; files and descriptors go by the names that their pools
    give them. The core learns from a status byte which drives of a channel are inserted and which can
    be written. -/

namespace FileIO.Slots
open FatFs Libc Function

/-- `fch_t` -/
structure Slot where
  status : UInt8
  fSource : Option ℕ
  pDesc : Option ℕ
  name : List UInt8

/-- A slot as `FileIO_FCh_Init` leaves it. -/
def Slot.clear : Slot := { status := 0, fSource := none, pDesc := none, name := [] }

/-- `FileIO_FCh_GetInserted` -/
def Slot.inserted (pDrive : Slot) : Bool := pDrive.status &&& statInserted ≠ 0

/-- Not read only and not protected. -/
def Slot.writable (pDrive : Slot) : Bool := pDrive.status &&& statReadonlyOrProtected = 0

/-- `fch_handle` and `fch_driver`, the files and the descriptors that have been opened and allocated,
    and the status byte that each channel has been sent last. -/
structure State where
  handle : Fin 2 × Fin 4 → Slot
  driver : Fin 2 → UInt8
  files : Owned.Pool
  descs : Owned.Pool
  sent : Fin 2 → Option UInt8

/-- The state at power-up. -/
def State.start : State :=
  { handle := fun _ => Slot.clear, driver := fun _ => 0, files := .empty, descs := .empty
    sent := fun _ => none }

/-- What an insert finds: the file when it is opened for reading and writing, and for reading, whether
    there is memory for a descriptor, what stands where a null pointer to a file leads and on the stack,
    the card, and for a tape how long a gap is and how many chunks are passed. -/
structure Answers where
  rw : Option FIL
  ro : Option FIL
  calloc : Bool
  null : FIL
  stack : ℕ → UInt8
  card : Card
  carrier : UInt16 → UInt32
  fuel : ℕ

/-- `FileDisplayName`: what follows the last slash that is not the first character, or the first
    character, filled up with spaces. -/
def fileDisplayName (name_len : ℕ) (path : List UInt8) : List UInt8 :=
  let rec slash : ℕ → ℕ
    | 0 => 0
    | i + 1 =>
      if charAt path (i + 1) = 0x5C ∨ charAt path (i + 1) = 0x2F then i + 1 else slash i
  let name := path.drop (slash path.length + 1)
  (name.take name_len ++ List.replicate (name_len - name.length) 0x20).take (name_len - 1)

/-- `MAX_DISPLAY_FILENAME` -/
def maxDisplayFilename : ℕ := 24 + 1

/-! ### Status -/

/-- The loop of `FileIO_FCh_UpdateDriveStatus`. -/
def driveStatus (pDrive : Fin 4 → Slot) : UInt8 :=
  (List.finRange 4).foldl (fun status i =>
    let status := if (pDrive i).inserted then status ||| (0x01 <<< i.val.toUInt8) else status
    if (pDrive i).writable then status ||| (0x10 <<< i.val.toUInt8) else status) 0

/-- `FileIO_FCh_UpdateDriveStatus` -/
def updateDriveStatus (ch : Fin 2) (s : State) : State :=
  { s with sent := update s.sent ch (some (driveStatus fun i => s.handle (ch, i))) }

/-! ### Inserting and ejecting -/

/-- `strchr(path, '?')`, which is no name of a file. -/
def special (path : List UInt8) : List UInt8 := path.dropWhile (· ≠ 0x3F)

/-- The file is opened for reading and writing, or else for reading: the status with it; `none` when
    there is no such file. A special path opens nothing. -/
def openSource (a : Answers) (path : List UInt8) : Option (UInt8 × Option FIL) :=
  if special path ≠ [] then some (0, none)
  else match a.rw with
    | some f => some (0, some f)
    | none => a.ro.map fun f => (statReadonly, some f)

/-- `pFile_ext` -/
def fileExt (path : List UInt8) : List UInt8 :=
  if special path = [] then getExtension path else special path

/-- There is a driver of that number. -/
def known (driver : UInt8) : Bool := driver = 0x0 ∨ driver = 0x1 ∨ driver = 0x2 ∨ driver = 0x8

/-- The driver gets its descriptor. -/
def allocates (a : Answers) (driver : UInt8) : Bool := known driver && a.calloc

/-- What the drivers do with a descriptor: the status of the slot, or no status when the image is
    refused. A driver may not come back. -/
def insertInit (a : Answers) (driver : UInt8) (drive_number : Fin 4) (status : UInt8) (fSource : FIL)
    (ext : List UInt8) : Option (Option UInt8) :=
  if driver = 0x0 then
    some (some (Drv00.insertInit drive_number.val.toUInt8 status fSource).1.status)
  else if driver = 0x1 then some ((Drv01.insertInit status fSource ext a.stack).map (·.status))
  else if driver = 0x2 then
    (Uef.insertInit a.carrier a.fuel drive_number.val.toUInt8 status fSource ext).map
      fun r => some r.1.status
  else
    match Drv08.insertInit a.card drive_number.val.toUInt8 status fSource ext a.stack with
    | .refused => some none
    | .astray => none
    | .unit pDrive => some (some pDrive.status)

/-- The switch of `FileIO_FCh_Insert`. -/
def verdict (a : Answers) (driver : UInt8) (drive_number : Fin 4) (path : List UInt8) (status : UInt8)
    (fSource : Option FIL) : Option (Option UInt8) :=
  if allocates a driver then
    insertInit a driver drive_number status (fSource.getD a.null) (fileExt path)
  else some none

/-- `FileIO_FCh_Insert` -/
def insert (a : Answers) (ch : Fin 2) (drive_number : Fin 4) (path : List UInt8) (s : State) :
    Option State :=
  match openSource a path with
  | none =>
    some { s with handle := update s.handle (ch, drive_number) { Slot.clear with status := statReadonly } }
  | some (status, fSource) =>
    let (file, files) := s.files.acquireIf fSource.isSome
    let (desc, descs) := s.descs.acquireIf (allocates a (s.driver ch))
    (verdict a (s.driver ch) drive_number path status fSource).map fun
      | none =>
        { s with
          files := files.releaseIf file
          descs := descs.releaseIf desc
          handle := update s.handle (ch, drive_number)
            { status := status, fSource := file, pDesc := desc, name := [] } }
      | some status =>
        updateDriveStatus ch { s with
          files := files
          descs := descs
          handle := update s.handle (ch, drive_number)
            { status := status ||| statInserted, fSource := file, pDesc := desc
              name := fileDisplayName maxDisplayFilename path } }

/-- `FileIO_FCh_Eject` -/
def eject (ch : Fin 2) (drive_number : Fin 4) (s : State) : State :=
  let pDrive := s.handle (ch, drive_number)
  updateDriveStatus ch { s with
    files := s.files.releaseIf pDrive.fSource
    descs := s.descs.releaseIf pDrive.pDesc
    handle := update s.handle (ch, drive_number) { pDrive with status := 0, name := [] } }

/-- `FileIO_FCh_TogProtect` -/
def togProtect (ch : Fin 2) (drive_number : Fin 4) (s : State) : State :=
  let pDrive := s.handle (ch, drive_number)
  if pDrive.inserted then
    updateDriveStatus ch { s with
      handle := update s.handle (ch, drive_number)
        { pDrive with status := pDrive.status ^^^ statProtected } }
  else s

/-- `FileIO_FCh_Init` -/
def init (s : State) : State := { s with handle := fun _ => Slot.clear }

/-- `FileIO_FCh_SetDriver` -/
def setDriver (ch : Fin 2) (type : UInt8) (s : State) : State :=
  { s with driver := update s.driver ch type }

/-- A call. -/
inductive Op where
  | insert (a : Answers) (ch : Fin 2) (drive_number : Fin 4) (path : List UInt8)
  | eject (ch : Fin 2) (drive_number : Fin 4)
  | togProtect (ch : Fin 2) (drive_number : Fin 4)
  | init
  | setDriver (ch : Fin 2) (type : UInt8)
  | updateDriveStatus (ch : Fin 2)

/-- The state after a call, if it comes back. -/
def step (s : State) : Op → Option State
  | .insert a ch drive_number path => insert a ch drive_number path s
  | .eject ch drive_number => some (eject ch drive_number s)
  | .togProtect ch drive_number => some (togProtect ch drive_number s)
  | .init => some (init s)
  | .setDriver ch type => some (setDriver ch type s)
  | .updateDriveStatus ch => some (updateDriveStatus ch s)

/-! ### What an insert comes to -/

/-- The driver takes the image. -/
def Accepts (a : Answers) (driver : UInt8) (drive_number : Fin 4) (path : List UInt8) : Prop :=
  ∃ status fSource st, openSource a path = some (status, fSource) ∧
    verdict a driver drive_number path status fSource = some (some st)

/-- Nothing is opened and nothing allocated. -/
def Idle (a : Answers) (driver : UInt8) (path : List UInt8) : Prop :=
  ∀ status fSource, openSource a path = some (status, fSource) →
    fSource.isSome = false ∧ allocates a driver = false

/-- The status that a slot has after a failed insert. -/
def failedStatus (a : Answers) (path : List UInt8) : UInt8 :=
  match openSource a path with
  | none => statReadonly
  | some (status, _) => status

/-- An insert that comes back has found no file, or a driver has refused the image, or has taken it. -/
inductive Inserts (a : Answers) (ch : Fin 2) (drive_number : Fin 4) (path : List UInt8) (s : State) :
    State → Prop
  | absent (h : openSource a path = none) : Inserts a ch drive_number path s { s with
      handle := update s.handle (ch, drive_number) { Slot.clear with status := statReadonly } }
  | refused {status : UInt8} {fSource : Option FIL} (h : openSource a path = some (status, fSource))
      (hv : verdict a (s.driver ch) drive_number path status fSource = some none) :
      Inserts a ch drive_number path s { s with
        files := (s.files.acquireIf fSource.isSome).2.releaseIf (s.files.acquireIf fSource.isSome).1
        descs := (s.descs.acquireIf (allocates a (s.driver ch))).2.releaseIf
          (s.descs.acquireIf (allocates a (s.driver ch))).1
        handle := update s.handle (ch, drive_number)
          { status := status, fSource := (s.files.acquireIf fSource.isSome).1
            pDesc := (s.descs.acquireIf (allocates a (s.driver ch))).1, name := [] } }
  | taken {status st : UInt8} {fSource : Option FIL} (h : openSource a path = some (status, fSource))
      (hv : verdict a (s.driver ch) drive_number path status fSource = some (some st)) :
      Inserts a ch drive_number path s (updateDriveStatus ch { s with
        files := (s.files.acquireIf fSource.isSome).2
        descs := (s.descs.acquireIf (allocates a (s.driver ch))).2
        handle := update s.handle (ch, drive_number)
          { status := st ||| statInserted, fSource := (s.files.acquireIf fSource.isSome).1
            pDesc := (s.descs.acquireIf (allocates a (s.driver ch))).1
            name := fileDisplayName maxDisplayFilename path } })

theorem insert_inserts {a : Answers} {ch : Fin 2} {drive_number : Fin 4} {path : List UInt8}
    {s s' : State} (h : insert a ch drive_number path s = some s') :
    Inserts a ch drive_number path s s' := by
  rw [insert] at h
  split at h
  · next hopen =>
    obtain rfl := Option.some.inj h
    exact .absent hopen
  · next status fSource hopen =>
    obtain ⟨st, hv, rfl⟩ := Option.map_eq_some_iff.mp h
    cases st with
    | none => exact .refused hopen hv
    | some st => exact .taken hopen hv

/-- A driver takes an image only with a descriptor. -/
theorem allocates_of_taken {a : Answers} {driver : UInt8} {drive_number : Fin 4} {path : List UInt8}
    {status st : UInt8} {fSource : Option FIL}
    (h : verdict a driver drive_number path status fSource = some (some st)) :
    allocates a driver = true := by
  rw [verdict] at h
  split at h
  · next ha => exact ha
  · exact absurd (Option.some.inj h).symm (Option.some_ne_none st)

theorem not_accepts_of_refused {a : Answers} {driver : UInt8} {drive_number : Fin 4}
    {path : List UInt8} {status : UInt8} {fSource : Option FIL}
    (h : openSource a path = some (status, fSource))
    (hv : verdict a driver drive_number path status fSource = some none) :
    ¬Accepts a driver drive_number path := by
  rintro ⟨_, _, st, h0, hv'⟩
  obtain ⟨rfl, rfl⟩ := Prod.ext_iff.mp (Option.some.inj (h.symm.trans h0))
  exact Option.some_ne_none st (Option.some.inj (hv'.symm.trans hv))

/-! ### The status of a slot -/

theorem not_inserted {st : UInt8} (h : st &&& statInserted = 0) (fSource pDesc : Option ℕ)
    (name : List UInt8) : Slot.inserted ⟨st, fSource, pDesc, name⟩ = false := by
  rw [Slot.inserted, decide_eq_false_iff_not, not_not]
  exact h

theorem inserted_zero (fSource pDesc : Option ℕ) (name : List UInt8) :
    Slot.inserted ⟨0, fSource, pDesc, name⟩ = false := not_inserted (by decide) ..

theorem inserted_readonly (fSource pDesc : Option ℕ) (name : List UInt8) :
    Slot.inserted ⟨statReadonly, fSource, pDesc, name⟩ = false := not_inserted (by decide) ..

theorem writable_zero (fSource pDesc : Option ℕ) (name : List UInt8) :
    Slot.writable ⟨0, fSource, pDesc, name⟩ = true :=
  decide_eq_true (rfl : (0 : UInt8) &&& statReadonlyOrProtected = 0)

theorem not_writable_readonly (fSource pDesc : Option ℕ) (name : List UInt8) :
    Slot.writable ⟨statReadonly, fSource, pDesc, name⟩ = false :=
  decide_eq_false (by decide : ¬statReadonly &&& statReadonlyOrProtected = 0)

/-- A slot begins with no bit set, or read only. -/
theorem openSource_status {a : Answers} {path : List UInt8} {status : UInt8} {fSource : Option FIL}
    (h : openSource a path = some (status, fSource)) : status = 0 ∨ status = statReadonly := by
  rw [openSource] at h
  split at h
  · exact Or.inl (congrArg Prod.fst (Option.some.inj h)).symm
  · split at h
    · exact Or.inl (congrArg Prod.fst (Option.some.inj h)).symm
    · obtain ⟨f, -, hf⟩ := Option.map_eq_some_iff.mp h
      exact Or.inr (congrArg Prod.fst hf).symm

theorem failed_not_inserted {a : Answers} {path : List UInt8} {status : UInt8} {fSource : Option FIL}
    (h : openSource a path = some (status, fSource)) (file desc : Option ℕ) (name : List UInt8) :
    Slot.inserted ⟨status, file, desc, name⟩ = false := by
  rcases openSource_status h with rfl | rfl
  · exact inserted_zero ..
  · exact inserted_readonly ..

theorem inserted_or (st : UInt8) (fSource pDesc : Option ℕ) (name : List UInt8) :
    Slot.inserted ⟨st ||| statInserted, fSource, pDesc, name⟩ = true := by
  have hand : (st ||| statInserted) &&& statInserted = (st &&& statInserted) ||| statInserted := by
    apply UInt8.toNat_inj.mp
    rw [UInt8.toNat_and, UInt8.toNat_or, Nat.and_or_distrib_right, UInt8.toNat_or, UInt8.toNat_and,
      Nat.and_self]
  rw [Slot.inserted, hand, decide_eq_true_eq, ne_eq, UInt8.or_eq_zero_iff]
  exact fun h0 => absurd h0.2 (by decide)

theorem inserted_xor (pDrive : Slot) :
    Slot.inserted { pDrive with status := pDrive.status ^^^ statProtected } = pDrive.inserted := by
  have hand : (pDrive.status ^^^ statProtected) &&& statInserted = pDrive.status &&& statInserted := by
    apply UInt8.toNat_inj.mp
    rw [UInt8.toNat_and, UInt8.toNat_xor, Nat.and_xor_distrib_right, UInt8.toNat_and]
    exact Nat.xor_zero _
  rw [Slot.inserted, Slot.inserted, hand]

/-! ### An image -/

/-- A file without bytes. -/
def emptyImage : File :=
  { data := [], slack := fun _ => 0, cap := 0, csize := 512, readable := 0
    size_le := Nat.le_refl 0, csize_pos := sector_pos }

/-- An image that opens, and memory for its descriptor. -/
def imageAnswers : Answers :=
  { rw := some (f_open emptyImage true), ro := none, calloc := true
    null := f_open emptyImage false, stack := fun _ => 0
    card := { sdhc := true, capacity := 0, block := fun _ => Vector.replicate 512 0
              fails := fun _ => false }
    carrier := fun _ => 0, fuel := 0 }

end FileIO.Slots
