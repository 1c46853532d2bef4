import ReplayFirmware.Config.Terminated
import ReplayFirmware.FatFs.Wrapper

/-! Where ROMs are loaded.

    A `ROM` line without an address takes the one behind the ROM before it, which is known when that line
    has been read: its base and the size that it was given. A size of zero stands for the whole file when
    the file is loaded, but for no bytes at all when the next address is set. -/

namespace Config.Handlers
open Guarded Ini Ini.InPlace FatFs

variable {env : Env} {v : ValueString} {st st' : State}

/-! ### A ROM line -/

/-- What a `ROM` line gives to `CFG_upload_rom`; `addressed` when it has an address of its own. -/
structure RomArgs where
  filename : List UInt8
  fullname : List UInt8
  size : UInt32
  base : UInt32
  addressed : Bool
  format : UInt8
  swizzle : Option (List UInt8)

/-- `_CFG_handle_UPLOAD_ROM` up to the address of the next ROM: what is loaded, or where it ends. -/
def romArgs (env : Env) (v : ValueString) (st : State) : Result (RomArgs ⊕ (UInt8 × State)) :=
  if st.setup.spi_fpga_enabled = 0 then
    .ok (.inr (1, st.warning (chars "ROM upload, but SPI disabled")))
  else do
    let vs ← parseList env v 8
    let filename ← text vs 0
    if vs.length < 2 ∨ 4 < vs.length ∨ filename.length = 0 then
      return .inr (1, st.warning
        (chars "invalid ROM config: entries=" ++ decimal vs.length ++ chars " str0: " ++ filename))
    else
      let size ← num vs 1
      let base ← ifSo (2 < vs.length) (num vs 2) st.menu.last_rom_adr
      let format ← ifSo (3 < vs.length) ((num vs 3).map UInt32.toUInt8) 0
      let swizzle ← ifSo (3 < vs.length) (pointer vs 3) none
      return .inl ⟨filename, pathcat st.setup.ini_dir filename, size, base, decide (2 < vs.length),
        format,
        swizzle⟩

/-- There is a file to load. -/
def RomArgs.exists (env : Env) (a : RomArgs) : Bool := nameValid a.filename && env.canOpen a.fullname

/-- The rest of `_CFG_handle_UPLOAD_ROM`. -/
def romUpload (env : Env) (st : State) (a : RomArgs) : Result (UInt8 × State) :=
  let st := { st with menu := { st.menu with last_rom_adr := a.base + a.size } }
  let upload :=
    if a.exists env then
      env.uploadRom a.fullname a.base a.size st.setup.verify_dl a.format a.swizzle st.menu.config_s
    else .done st.menu.config_s
  match upload with
  | .failed => .ok (1, st.warning (chars "ROM upload to FPGA failed"))
  | .done staticbits => do
    let st := if nameValid a.filename && !a.exists env then
      st.warning (chars "Could not open " ++ a.filename) else st
    let st := { st with menu := { st.menu with config_s := staticbits } }
    let st := st.request (.configSendUserS staticbits)
    let menu ← follow (addRom env.malloc a.filename a.size a.base a.format st.menu)
    return (0, { st with menu := menu })

theorem handleUploadRom_eq : handleUploadRom env v st =
    romArgs env v st >>= fun | .inl a => romUpload env st a | .inr r => .ok r := by
  rw [handleUploadRom, romArgs]
  split
  · rfl
  rw [bind_assoc]
  refine bind_congr fun vs => ?_
  rw [bind_assoc]
  refine bind_congr fun filename => ?_
  split
  · rfl
  simp only [bind_assoc, pure_bind]
  refine bind_congr fun size => bind_congr fun base => bind_congr fun format =>
    bind_congr fun swizzle => ?_
  rfl

/-! ### The next address -/

@[simp] theorem warning_menu (st : State) (s : List UInt8) : (st.warning s).menu = st.menu := rfl

@[simp] theorem info_menu (st : State) (s : List UInt8) : (st.info s).menu = st.menu := rfl

@[simp] theorem request_menu (st : State) (r : Request) : (st.request r).menu = st.menu := rfl

theorem allocMenu_adr {malloc : Malloc} {s s' : Status} {title : List UInt8}
    (h : allocMenu malloc title s = some s') : s'.last_rom_adr = s.last_rom_adr := by
  unfold allocMenu at h
  split at h
  · cases h
  · split at h <;> cases h <;> rfl

theorem allocItem_adr {malloc : Malloc} {s s' : Status} (h : allocItem malloc s = some s') :
    s'.last_rom_adr = s.last_rom_adr := by
  unfold allocItem at h
  split at h
  · split at h <;> cases h <;> rfl
  · cases h

theorem allocOption_adr {malloc : Malloc} {s s' : Status} (h : allocOption malloc s = some s') :
    s'.last_rom_adr = s.last_rom_adr := by
  unfold allocOption at h
  split at h
  · split at h <;> cases h <;> rfl
  · cases h

theorem finishOption_adr (kind : OptionKind) (v0 v1 : Value) (i o : ℕ) (s : Status) :
    (finishOption kind v0 v1 i o s).2.last_rom_adr = s.last_rom_adr := by
  unfold finishOption
  simp only
  split <;> split
  all_goals first
    | rfl
    | split <;> rfl

theorem addRom_adr {malloc : Malloc} {filename : List UInt8} {size base : UInt32} {format : UInt8}
    {s s' : Status} (h : addRom malloc filename size base format s = some s') :
    s'.last_rom_adr = s.last_rom_adr := by
  rw [addRom] at h
  obtain ⟨s₁, hentry, h⟩ := Option.bind_eq_some_iff.mp h
  obtain ⟨s₀, hmenu, hitem⟩ := Option.bind_eq_some_iff.mp hentry
  have hfirst : s₀.last_rom_adr = s.last_rom_adr := by
    split at hmenu
    · cases hmenu
      rfl
    · exact allocMenu_adr hmenu
  split at h
  · cases h
  · obtain ⟨s₂, hoption, h⟩ := Option.bind_eq_some_iff.mp h
    split at h
    · cases h
    · cases h
      exact (allocOption_adr hoption).trans ((allocItem_adr hitem).trans hfirst)

/-- Whatever state there is behind the handler, the address of the next ROM is kept. -/
def KeepsAdr (st : State) (x : Result (UInt8 × State)) : Prop :=
  Gives x fun r => r.2.menu.last_rom_adr = st.menu.last_rom_adr

theorem setupInfo_keepsAdr : KeepsAdr st (handleSetupInfo env v st) := by
  refine gives_bind.mpr (gives_of_forall fun vs => gives_ite.mpr ⟨fun _ => ?_, fun _ => gives_ok.mpr rfl⟩)
  refine gives_bind.mpr (gives_of_forall fun fmt => ?_)
  split
  · exact gives_error.mpr trivial
  · exact gives_ok.mpr rfl

theorem configureChannel_keepsAdr (bad : List UInt8) (get : Setup → Channel)
    (set : Setup → Channel → Setup) : KeepsAdr st (configureChannel env v st bad get set) := by
  refine gives_bind.mpr (gives_of_forall fun vs => gives_bind.mpr (gives_of_forall fun mode => ?_))
  cases mode with
  | none => exact gives_ok.mpr rfl
  | some mode => exact gives_bind.mpr (gives_of_forall fun ext => gives_ok.mpr rfl)

theorem menuTitle_keepsAdr : KeepsAdr st (handleMenuTitle env v st) := by
  refine gives_bind.mpr (gives_of_forall fun vs => gives_ite.mpr ⟨fun _ => ?_, fun _ => gives_ok.mpr rfl⟩)
  refine gives_bind.mpr (gives_of_forall fun _ => gives_bind.mpr (gives_of_forall fun title => ?_))
  refine gives_bind.mpr (gives_follow.mpr fun menu hmenu => gives_ok.mpr ?_)
  obtain ⟨s, halloc, hitem⟩ := Option.bind_eq_some_iff.mp hmenu
  exact (allocItem_adr hitem).trans (allocMenu_adr halloc)

theorem menuItem_keepsAdr : KeepsAdr st (handleMenuItem env v st) := by
  refine gives_bind.mpr (gives_of_forall fun vs => gives_ite.mpr ⟨fun _ => ?_, fun _ => gives_ok.mpr rfl⟩)
  refine gives_bind.mpr (gives_of_forall fun act => gives_bind.mpr (gives_follow.mpr fun s hs => ?_))
  have hkept : s.last_rom_adr = st.menu.last_rom_adr := by
    split at hs
    · exact allocItem_adr hs
    · cases hs
      rfl
  refine gives_bind.mpr (gives_of_forall fun i => gives_bind.mpr (gives_of_forall fun r => ?_))
  refine gives_ite.mpr ⟨fun _ => gives_ok.mpr hkept, fun _ => ?_⟩
  exact gives_bind.mpr (gives_follow.mpr fun s' hs' => gives_ok.mpr ((allocOption_adr hs').trans hkept))

theorem menuOption_keepsAdr : KeepsAdr st (handleMenuOption env v st) := by
  refine gives_bind.mpr (gives_of_forall fun vs => gives_ite.mpr ⟨fun _ => ?_, fun _ => gives_ok.mpr rfl⟩)
  refine gives_bind.mpr (gives_of_forall fun act => gives_bind.mpr (gives_follow.mpr fun s hs => ?_))
  have hkept : s.last_rom_adr = st.menu.last_rom_adr := by
    split at hs
    · exact allocOption_adr hs
    · cases hs
      rfl
  refine gives_bind.mpr (gives_of_forall fun o => gives_bind.mpr (gives_of_forall fun value => ?_))
  refine gives_bind.mpr (gives_of_forall fun kind => gives_ite.mpr ⟨fun _ => gives_ok.mpr hkept,
    fun _ => ?_⟩)
  refine gives_bind.mpr (gives_of_forall fun i => gives_ite.mpr ⟨fun _ => gives_ok.mpr ?_, fun _ => ?_⟩)
  · exact (finishOption_adr ..).trans hkept
  · exact gives_bind.mpr (gives_of_forall fun name =>
      gives_ok.mpr ((finishOption_adr ..).trans hkept))

/-- Only `ROM` sets the address of the next ROM. -/
theorem run_keepsAdr {hd : Handler} (h : hd ≠ .uploadRom) : KeepsAdr st (hd.run env v st) := by
  rw [KeepsAdr]
  cases hd with
  | setupBin => simp [Handler.run, handleSetupBin]
  | setupClock => simp [Handler.run, handleSetupClock]
  | setupCoder =>
    rw [Handler.run, handleSetupCoder]
    split <;> simp
  | setupPhase => simp [Handler.run, handleSetupPhase]
  | setupVfilter => simp [Handler.run, handleSetupVfilter]
  | setupEnTwi => simp [Handler.run, handleSetupEnTwi]
  | setupEnSpi => simp [Handler.run, handleSetupEnSpi]
  | setupSpiClk => simp [Handler.run, handleSetupSpiClk]
  | setupButton => simp [Handler.run, handleSetupButton]
  | setupHotkey => simp [Handler.run, handleSetupHotkey]
  | setupClockmon => simp [Handler.run, handleSetupClockmon]
  | setupOsdInit => simp [Handler.run, handleSetupOsdInit]
  | setupOsdTimeout => simp [Handler.run, handleSetupOsdTimeout]
  | setupVideo => simp [Handler.run, handleSetupVideo]
  | setupConfig => simp [Handler.run, handleSetupConfig]
  | setupInfo => exact setupInfo_keepsAdr
  | targetsTarget => simp [Handler.run, handleTargetsTarget]
  | menuTitle => exact menuTitle_keepsAdr
  | menuItem => exact menuItem_keepsAdr
  | menuOption => exact menuOption_keepsAdr
  | uploadVerify => simp [Handler.run, handleUploadVerify]
  | uploadData => simp [Handler.run, handleUploadData]
  | uploadLaunch => simp [Handler.run, handleUploadLaunch]
  | uploadRom => exact absurd rfl h
  | filesChaMount => simp [Handler.run, handleFilesMount]
  | filesChbMount => simp [Handler.run, handleFilesMount]
  | filesChaCfg =>
    rw [Handler.run, handleFilesChaCfg]
    exact configureChannel_keepsAdr _ _ _
  | filesChbCfg =>
    rw [Handler.run, handleFilesChbCfg]
    exact configureChannel_keepsAdr _ _ _

/-- An accepted ROM sets it to where the ROM ends. -/
theorem romUpload_adr (a : RomArgs) : Gives (romUpload env st a) fun r =>
    r.1 = 0 → r.2.menu.last_rom_adr = a.base + a.size := by
  rw [romUpload]
  simp only
  split
  · exact gives_ok.mpr fun h => absurd (show (1 : UInt8) = 0 from h) (by decide)
  · refine gives_bind.mpr (gives_follow.mpr fun menu hmenu => gives_ok.mpr fun _ => ?_)
    rw [addRom_adr hmenu]
    split <;> rfl

/-! ### Runs -/

/-- A ROM that is loaded, with the size of its own file, zero when there is none. -/
structure Load where
  base : UInt32
  size : UInt32
  addressed : Bool
  own : UInt32
  deriving DecidableEq, Repr

/-- The size of a ROM: that of its file when none is given. -/
def Load.effective (l : Load) : UInt32 := if l.size = 0 then l.own else l.size

/-- Where a ROM ends. -/
def Load.stop (l : Load) : UInt32 := l.base + l.effective

def RomArgs.load (files : List UInt8 → File) (env : Env) (a : RomArgs) : Load :=
  ⟨a.base, a.size, a.addressed,
    if a.exists env then (FF_BytesLeft (f_open (files a.fullname) false)).toUInt32 else 0⟩

/-- What a line loads. -/
def Line.load (files : List UInt8 → File) (l : Line) (st : State) : Option Load :=
  if handlerOf l.pass l.iniSection l.name = some .uploadRom then
    match romArgs l.env l.value st with
    | .ok (.inl a) => some (a.load files l.env)
    | _ => none
  else none

/-- What lines load, up to one that fails. -/
def loads (files : List UInt8 → File) : List Line → State → List Load
  | [], _ => []
  | l :: ls, st =>
    (l.load files st).toList ++
      match l.parse st with
      | .ok (rc, st') => if rc = 0 then loads files ls st' else []
      | .error _ => []

/-- A ROM without an address is loaded behind the one before it, which ends where `stop` says. -/
def PlacedBy (stop : Load → UInt32) : UInt32 → List Load → Prop
  | _, [] => True
  | adr, l :: ls => (l.addressed = false → l.base = adr) ∧ PlacedBy stop (stop l) ls

/-- A ROM without an address is loaded directly behind the end of the one before it; the first one at
    `adr`. -/
def Placed (adr : UInt32) (ls : List Load) : Prop := PlacedBy Load.stop adr ls

/-- The size in front of a ROM without an address is given, or there is nothing in its file. -/
def Sized (a b : Load) : Prop := b.addressed = false → a.size ≠ 0 ∨ a.own = 0

variable {files : List UInt8 → File} {l : Line}

/-- Without an address of its own a ROM takes the one behind the last. -/
theorem romArgs_base : Gives (romArgs env v st) fun r =>
    ∀ a, r = .inl a → a.addressed = false → a.base = st.menu.last_rom_adr := by
  refine gives_ite.mpr ⟨fun _ => gives_ok.mpr nofun, fun _ => ?_⟩
  refine gives_bind.mpr (gives_of_forall fun vs => gives_bind.mpr (gives_of_forall fun filename => ?_))
  refine gives_ite.mpr ⟨fun _ => gives_ok.mpr nofun, fun _ => ?_⟩
  refine gives_bind.mpr (gives_of_forall fun size => gives_bind.mpr fun base hbase => ?_)
  refine gives_bind.mpr (gives_of_forall fun format => gives_bind.mpr (gives_of_forall fun swizzle => ?_))
  refine gives_ok.mpr ?_
  rintro a ha haddr
  cases ha
  rw [ifSo, if_neg (of_decide_eq_false haddr)] at hbase
  cases hbase
  rfl

/-- A line that loads nothing fails. -/
theorem romArgs_fails : Gives (romArgs env v st) fun r => ∀ x, r = .inr x → x.1 = 1 := by
  refine gives_ite.mpr ⟨fun _ => gives_ok.mpr ?_, fun _ => ?_⟩
  · rintro x hx
    rw [← Sum.inr.inj hx]
  refine gives_bind.mpr (gives_of_forall fun vs => gives_bind.mpr (gives_of_forall fun filename => ?_))
  refine gives_ite.mpr ⟨fun _ => gives_ok.mpr ?_, fun _ => ?_⟩
  · rintro x hx
    rw [← Sum.inr.inj hx]
  refine gives_bind.mpr (gives_of_forall fun size => gives_bind.mpr (gives_of_forall fun base => ?_))
  refine gives_bind.mpr (gives_of_forall fun format => gives_bind.mpr (gives_of_forall fun swizzle => ?_))
  exact gives_ok.mpr fun x hx => (Sum.inl_ne_inr hx).elim

theorem Line.load_base {a : Load} (h : l.load files st = some a) (ha : a.addressed = false) :
    a.base = st.menu.last_rom_adr := by
  rw [Line.load] at h
  split at h
  · split at h
    · next args hargs =>
      cases h
      exact romArgs_base _ hargs args rfl ha
    · cases h
  · cases h

/-- An accepted line sets the next address behind its ROM, by the size that it gives. -/
theorem Line.parse_adr (h : l.parse st = .ok (0, st')) : st'.menu.last_rom_adr =
    ((l.load files st).map fun a => a.base + a.size).getD st.menu.last_rom_adr := by
  rw [Line.parse, parseHandler] at h
  rw [Line.load]
  by_cases hrom : handlerOf l.pass l.iniSection l.name = some .uploadRom
  · rw [if_pos hrom]
    rw [hrom] at h
    have hrun : handleUploadRom l.env l.value st = .ok (0, st') := h
    rw [handleUploadRom_eq] at hrun
    cases hargs : romArgs l.env l.value st with
    | error e =>
      rw [hargs] at hrun
      cases hrun
    | ok r =>
      rw [hargs] at hrun
      cases r with
      | inl a => exact romUpload_adr a _ hrun rfl
      | inr r =>
        cases hrun
        exact absurd (romArgs_fails _ hargs _ rfl) (show ¬(0 : UInt8) = 1 by decide)
  · rw [if_neg hrom]
    cases hhd : handlerOf l.pass l.iniSection l.name with
    | none =>
      rw [hhd] at h
      cases h
      rfl
    | some hd =>
      rw [hhd] at h
      exact run_keepsAdr (fun heq => hrom (hhd.trans (congrArg some heq))) _ h

/-- A run: each ROM without an address begins where the size that the one before it was given ends. -/
theorem loads_placed : ∀ (ls : List Line) (st : State),
    PlacedBy (fun a => a.base + a.size) st.menu.last_rom_adr (loads files ls st)
  | [], _ => trivial
  | l :: ls, st => by
    rw [loads]
    have hrest : ∀ {adr : UInt32}, (∀ st', l.parse st = .ok (0, st') → st'.menu.last_rom_adr = adr) →
        PlacedBy (fun a => a.base + a.size) adr (match l.parse st with
          | .ok (rc, st') => if rc = 0 then loads files ls st' else []
          | .error _ => []) := by
      intro adr hadr
      split
      · next rc st' hparse =>
        split
        · next hrc =>
          rw [← hadr st' (hrc ▸ hparse)]
          exact loads_placed ls st'
        · exact trivial
      · exact trivial
    cases hload : l.load files st with
    | none => exact hrest fun st' h => by rw [l.parse_adr h, hload]; rfl
    | some a =>
      refine ⟨fun ha => l.load_base hload ha, hrest fun st' h => ?_⟩
      rw [l.parse_adr h, hload]
      rfl

/-- The end of a ROM is where the size that it was given ends, or else the file counts. -/
theorem Load.stop_eq_iff (a : Load) : a.stop = a.base + a.size ↔ a.size ≠ 0 ∨ a.own = 0 := by
  rw [Load.stop, Load.effective]
  by_cases h : a.size = 0
  · rw [if_pos h, h, UInt32.add_right_inj]
    simp
  · rw [if_neg h]
    simp [h]

theorem placedBy_iff : ∀ {ls : List Load} (a : Load),
    PlacedBy (fun a => a.base + a.size) (a.base + a.size) ls →
      (Placed a.stop ls ↔ (a :: ls).IsChain Sized)
  | [], a, _ => iff_of_true trivial (List.isChain_singleton a)
  | b :: ls, a, h => by
    rw [List.isChain_cons_cons, ← placedBy_iff b h.2, Placed, PlacedBy]
    refine and_congr (forall_congr' fun hb => ?_) Iff.rfl
    rw [h.1 hb, ← Load.stop_eq_iff]
    exact eq_comm

/-- ROMs without an address are loaded directly behind the one before them, in every run, exactly when
    the size of that one is given or its file is empty. -/
theorem placed_iff (files : List UInt8 → File) (ls : List Line) (st : State) :
    Placed st.menu.last_rom_adr (loads files ls st) ↔ (loads files ls st).IsChain Sized := by
  have hrun := @loads_placed files ls st
  cases hloads : loads files ls st with
  | nil => exact iff_of_true trivial List.isChain_nil
  | cons a rest =>
    rw [hloads] at hrun
    rw [← placedBy_iff a hrun.2]
    exact ⟨fun h => h.2, fun h => ⟨hrun.1, h⟩⟩

/-- The addresses of a ROM. -/
def Load.Covers (l : Load) (x : UInt32) : Prop := (x - l.base).toNat < l.effective.toNat

/-- ROMs that follow each other do not overlap, and leave no hole. -/
theorem covers_iff {a b : Load} (h : b.base = a.stop)
    (hroom : a.effective.toNat + b.effective.toNat ≤ 2 ^ 32)
    (x : UInt32) : ¬(a.Covers x ∧ b.Covers x) ∧
      (a.Covers x ∨ b.Covers x ↔ (x - a.base).toNat < a.effective.toNat + b.effective.toNat) := by
  have hx := x.toNat_lt
  have ha := a.base.toNat_lt
  have hstop : (x - b.base).toNat = ((x - a.base).toNat + (2 ^ 32 - a.effective.toNat)) % 2 ^ 32 := by
    rw [h, Load.stop]
    have he := a.effective.toNat_lt
    simp only [UInt32.toNat_sub, UInt32.toNat_add]
    omega
  have hoff := (x - a.base).toNat_lt
  have he := a.effective.toNat_lt
  simp only [Load.Covers, hstop]
  omega

/-- A line `ROM=file,size` with a size of one digit. -/
def romLine (name digit : UInt8) (h : name ≠ 0 ∧ digit ≠ 0) : Line where
  pass := .post false
  iniSection := .upload
  name := .rom
  value := ⟨[name, 0x2C, digit], by simp [h.1.symm, h.2.symm], show 3 < maxLineLen by decide⟩
  env := { plenty InPlace.emptyBuffer with canOpen := fun _ => true }

/-- A file of one byte. -/
def byteFile : File where
  data := [0xEA]
  slack := fun _ => 0
  cap := 512
  csize := 512
  readable := 512
  size_le := by decide
  csize_pos := sector_pos

/-- `ROM=f,0` and `ROM=g,1`. -/
def romLines : List Line := [romLine 0x66 0x30 (by decide), romLine 0x67 0x31 (by decide)]

/-- A ROM with the size of its file is overwritten by the next one. -/
theorem fileSized_overlaps : ¬∀ (files : List UInt8 → File) (ls : List Line) (st : State),
    Placed st.menu.last_rom_adr (loads files ls st) := by
  have hloads : loads (fun _ => byteFile) romLines blank = [⟨0, 0, false, 1⟩, ⟨0, 1, false, 1⟩] := by
    decide +kernel
  have hnot : ¬Placed blank.menu.last_rom_adr (loads (fun _ => byteFile) romLines blank) := by
    rw [hloads]
    rintro ⟨-, hbehind, -⟩
    exact absurd (hbehind rfl) (by decide)
  exact not_forall.mpr ⟨fun _ => byteFile, not_forall.mpr ⟨romLines, not_forall.mpr ⟨blank, hnot⟩⟩⟩

end Config.Handlers
