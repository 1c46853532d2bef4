import ReplayFirmware.Filesel.Order
import ReplayFirmware.Lib.Nearest

/-! The scans of the file browser.

    A directory is read from its start to its end, in the order of the medium. The browser keeps an
    entry to look from, the reference, and up to twelve neighbours on either side of it, each side
    nearest first. Indices count from the reference, which is 128. -/

namespace Filesel
open Libc Compare Nearest

/-! ### The directory -/

/-- `FILINFO`: what `f_readdir` gives of an entry. -/
structure FilInfo where
  fattrib : UInt8
  fname : List UInt8
  no_nul : 0 ∉ fname
  ne_nil : fname ≠ []

/-- The medium: the entries of a directory, and `none` where `f_opendir` fails. -/
abbrev Volume := List UInt8 → Option (List FilInfo)

/-- `FF_FindNext`: a name that is too long is cut. -/
def FilInfo.entry (info : FilInfo) : FileEntry :=
  { attrib := info.fattrib
    fileName :=
      { chars := info.fname.take (maxFilename - 1)
        no_nul := fun h => info.no_nul (List.mem_of_mem_take h)
        fits := Nat.lt_of_le_of_lt (List.length_take_le _ _) (by decide) } }

/-- The entry that `FF_FindFirst` makes up for the parent directory. -/
def parentEntry : FileEntry :=
  { attrib := 0x10, fileName := { chars := dotdot, no_nul := by decide, fits := by decide } }

def isSlash (c : UInt8) : Bool := c = 0x2F ∨ c = 0x5C

/-- The path without a slash at its end. -/
def openPath (path : List UInt8) : List UInt8 :=
  if path.length > 1 ∧ isSlash (charAt path (path.length - 1)) then path.dropLast else path

/-- `root`, of `FF_FindFirst` -/
def isRoot (path : List UInt8) : Bool := isSlash (charAt path 0) ∧ charAt path 1 = 0

/-- What `FF_FindFirst` and the `FF_FindNext` after it give. -/
def listing (vol : Volume) (path : List UInt8) : List FileEntry :=
  match vol (openPath path) with
  | none => []
  | some infos => (if isRoot path then [] else [parentEntry]) ++ infos.map FilInfo.entry

/-! ### The filter -/

/-- `FilterExtension`, over the extensions up to the first empty one. -/
def filterExtension (pFile_ext : List UInt8) : List (List UInt8) → Bool
  | [] => false
  | ext :: exts =>
    if charAt ext 0 = 0 then false
    else if charAt ext 0 = 0x2A then true
    else if strnicmpEq pFile_ext ext 3 then true
    else filterExtension pFile_ext exts

/-- `FilterFile` -/
def filterFile (file_exts : Option (List (List UInt8))) (file_filter : List UInt8) (mydir : FileEntry) :
    Bool :=
  let name := mydir.fileName.chars
  if charAt file_filter 0 ≠ 0 ∧ ¬ strcasestr file_filter name then false
  else if charAt name 0 = 0x2E ∧ charAt name 1 ≠ 0 ∧ charAt name 2 ≠ 0 then false
  else if mydir.isDir then name ≠ [0x2E]
  else match file_exts with
    | none => true
    | some exts => filterExtension (getExtension name) exts

/-! ### The browser's memory -/

/-- `MAXDIRENTRIES` -/
def maxDirEntries : ℕ := 12

/-- The inner loops of the scans, over an array with `room` places left: the entry goes before the first
    one that it precedes, and the last one of a full array falls off; at the end there must be room. -/
def insertEntry (cmp : FileEntry → FileEntry → ℤ) (mydir : FileEntry) :
    ℕ → List FileEntry → List FileEntry
  | 0, es => es
  | _ + 1, [] => [mydir]
  | room + 1, e :: es =>
    let comp_result2 := cmp mydir e
    if comp_result2 = 0 then e :: es
    else if comp_result2 < 0 then (mydir :: e :: es).take (room + 1)
    else e :: insertEntry cmp mydir room es

theorem length_insertEntry (cmp : FileEntry → FileEntry → ℤ) (mydir : FileEntry) :
    ∀ {room : ℕ} {es : List FileEntry}, es.length ≤ room →
      (insertEntry cmp mydir room es).length ≤ room
  | 0, _, h => h
  | room + 1, [], _ => Nat.succ_le_succ (Nat.zero_le room)
  | room + 1, e :: es, h => by
    rw [insertEntry]
    split
    · exact h
    split
    · exact List.length_take_le _ _
    · exact Nat.succ_le_succ (length_insertEntry cmp mydir (Nat.le_of_succ_le_succ h))

/-- The part of an array of entries that is in use. -/
abbrev DirEntries := { l : List FileEntry // l.length ≤ maxDirEntries }

def DirEntries.none : DirEntries := ⟨[], Nat.zero_le _⟩

def DirEntries.insert (l : DirEntries) (cmp : FileEntry → FileEntry → ℤ) (mydir : FileEntry) :
    DirEntries :=
  ⟨insertEntry cmp mydir maxDirEntries l.val, length_insertEntry cmp mydir l.property⟩

/-- `tDirScan`; `prevc` and `nextc` are the lengths of `dPrev` and `dNext`. -/
structure TDirScan where
  file_exts : Option (List (List UInt8))
  pPath : List UInt8
  file_filter : List UInt8
  total_entries : UInt32
  refc : UInt8
  offset : UInt8
  sel : UInt8
  dPrev : DirEntries
  dRef : FileEntry
  dNext : DirEntries

/-- The entries that the scans see, in the order of the medium. -/
def TDirScan.entries (vol : Volume) (s : TDirScan) : List FileEntry :=
  (listing vol s.pPath).filter (filterFile s.file_exts s.file_filter)

/-- The loop body of `Filesel_ScanUpdate`. -/
def scanUpdateStep (s : TDirScan) (mydir : FileEntry) : TDirScan :=
  let comp_result := compareDirEntries mydir s.dRef
  if comp_result > 0 then { s with dNext := s.dNext.insert compareDirEntries mydir }
  else if comp_result < 0 then
    { s with dPrev := s.dPrev.insert (fun a b => -compareDirEntries a b) mydir }
  else s

/-- `Filesel_ScanUpdate` -/
def scanUpdate (vol : Volume) (s : TDirScan) : TDirScan :=
  (s.entries vol).foldl scanUpdateStep { s with dPrev := .none, refc := 1, dNext := .none }

/-- `Filesel_ScanFirst` -/
def scanFirst (vol : Volume) (s : TDirScan) : TDirScan :=
  { s with dPrev := .none
           refc := 0
           dNext := (s.entries vol).foldl (fun l mydir => l.insert compareDirEntries mydir) .none
           offset := 128
           sel := 129
           total_entries := (s.entries vol).length.toUInt32 }

/-- `dNull` -/
def nullEntry : FileEntry :=
  { attrib := 0, fileName := { chars := [], no_nul := by decide, fits := by decide } }

/-- `Filesel_GetEntry` -/
def getEntry (s : TDirScan) (entry : UInt8) : FileEntry :=
  if entry = 128 then if s.refc ≠ 0 then s.dRef else nullEntry
  else if entry < 128 then s.dPrev.val.getD (127 - entry).toNat nullEntry
  else s.dNext.val.getD (entry - 129).toNat nullEntry

/-- `Filesel_CheckIndex` -/
def checkIndex (s : TDirScan) (offset : UInt8) : Bool :=
  if offset = 128 then s.refc ≠ 0
  else if offset < 128 then (127 - offset).toNat < s.dPrev.val.length
  else (offset - 129).toNat < s.dNext.val.length

/-- `toupper((int)mydir.FileName[0]) == search`, for an entry of a kind. -/
def initialIs (isDir : Bool) (search : UInt8) (mydir : FileEntry) : Bool :=
  toupper (charAt mydir.fileName.chars 0) = search ∧ mydir.isDir = isDir

/-- The loop body of `Filesel_ScanFind`, for directories or for files: the lowest entry is kept. -/
def lowestStep (isDir : Bool) (search : UInt8) (found : Option FileEntry) (mydir : FileEntry) :
    Option FileEntry :=
  if initialIs isDir search mydir then
    match found with
    | none => some mydir
    | some e => if compareDirEntries mydir e < 0 then some mydir else some e
  else found

def lowest (isDir : Bool) (search : UInt8) (entries : List FileEntry) : Option FileEntry :=
  entries.foldl (lowestStep isDir search) none

/-- `Filesel_ScanFind` -/
def scanFind (vol : Volume) (search : UInt8) (s : TDirScan) : TDirScan :=
  let dirent_file := lowest false search (s.entries vol)
  let dirent_dir := lowest true search (s.entries vol)
  let found := if (getEntry s s.sel).isDir then dirent_file.or dirent_dir else dirent_dir.or dirent_file
  match found with
  | none => s
  | some mydir => { scanUpdate vol { s with dRef := mydir } with offset := 127, sel := 128 }

end Filesel
