import ReplayFirmware.Config.Handlers
import ReplayFirmware.Lib.Avoids

/-! Missing fields: an empty field has no string, and a list has no other entries than its fields.

    Each handler uses some of the fields as strings, and does without the others. None is missing
    exactly when those that are used are not empty; the state of the core does not matter. -/

namespace Config.Handlers
open Ini Guarded
open Ini.InPlace (ValueString)

/-! ### Steps -/

/-- Nothing that is missing is used. -/
def Filled {α : Type} (x : Result α) : Prop := Avoids .missing x fun _ => True

variable {α : Type} {vs : List ValueEntry} {i : ℕ}

theorem filled_iff {x : Result α} : Filled x ↔ x ≠ .error .missing := avoids_true_iff

theorem avoids_follow {o : Option α} {Q : α → Prop} :
    Avoids .missing (follow o) Q ↔ ∀ a, o = some a → Q a := by
  cases o with
  | none => simp [follow]
  | some a => simp [follow]

theorem avoids_text {Q : List UInt8 → Prop} :
    Avoids .missing (text vs i) Q ↔ ∃ t, strval vs i = some t ∧ Q t := by
  rw [text]
  cases strval vs i with
  | none => simp
  | some t => simp

theorem avoids_num_iff {Q : UInt32 → Prop} :
    Avoids .missing (num vs i) Q ↔ ∃ e, vs[i]? = some e ∧ Q e.intval := by
  rw [num]
  cases vs[i]? with
  | none => simp
  | some e => simp

/-- An entry that is there has a number. -/
theorem avoids_num (h : i < vs.length) {Q : UInt32 → Prop} (hQ : ∀ n, Q n) :
    Avoids .missing (num vs i) Q :=
  avoids_num_iff.mpr ⟨vs[i], List.getElem?_eq_getElem h, hQ _⟩

theorem avoids_pointer (h : i < vs.length) {Q : Option (List UInt8) → Prop} (hQ : ∀ p, Q p) :
    Avoids .missing (pointer vs i) Q := by
  rw [pointer, List.getElem?_eq_getElem h]
  exact hQ _

theorem avoids_nums : ∀ {i k : ℕ}, i + k ≤ vs.length → ∀ {Q : List UInt32 → Prop}, (∀ ns, Q ns) →
    Avoids .missing (nums vs i k) Q
  | _, 0, _, _, hQ => hQ []
  | i, k + 1, h, Q, hQ => by
    rw [nums]
    refine avoids_bind.mpr (avoids_num (by omega) fun n => ?_)
    exact avoids_bind.mpr (avoids_nums (by omega) fun ns => hQ (n :: ns))

theorem avoids_ifSo {c : Prop} [Decidable c] {x : Result α} {d : α} {Q : α → Prop} :
    Avoids .missing (ifSo c x d) Q ↔ (c → Avoids .missing x Q) ∧ (¬c → Q d) := avoids_ite

theorem avoids_ifSo_of {c : Prop} [Decidable c] {x : Result α} {d : α} {Q : α → Prop}
    (hx : c → Filled x) (hQ : ∀ a, Q a) : Avoids .missing (ifSo c x d) Q :=
  avoids_ifSo.mpr ⟨fun hc => (hx hc).mono fun a _ => hQ a, fun _ => hQ d⟩

variable {env : Env} {v : ValueString} {st : State} {n k : ℕ}

theorem avoids_parseList {Q : List ValueEntry → Prop} : Avoids .missing (parseList env v n) Q ↔
    ∀ vs, valueList v n env.buffer = some vs → Q vs := by
  rw [parseList]
  cases valueList v n env.buffer with
  | none => simp
  | some vs => simp

/-- A list of as many entries as are wanted, or another. -/
theorem filled_list {body other : List ValueEntry → Result α}
    (hbody : ∀ vs : List ValueEntry, vs.length = k → Filled (body vs)) (hother : ∀ vs, Filled (other vs)) :
    Filled (parseList env v n >>= fun vs => if vs.length = k then body vs else other vs) := by
  refine avoids_bind.mpr (avoids_parseList.mpr fun vs _ => avoids_ite.mpr ⟨fun h => ?_, fun _ => ?_⟩)
  · exact hbody vs h
  · exact hother vs

/-! ### Numbers -/

theorem setupClock_filled : Filled (handleSetupClock env v st) := by
  rw [handleSetupClock]
  refine avoids_ite.mpr ⟨fun _ => trivial, fun _ => ?_⟩
  refine avoids_ite.mpr ⟨fun _ => trivial, fun _ => ?_⟩
  refine avoids_ite.mpr ⟨fun _ => trivial, fun _ => ?_⟩
  refine filled_list (fun vs h => ?_) fun _ => trivial
  exact avoids_bind.mpr (avoids_nums (by omega) fun _ => trivial)

theorem setupCoder_filled : Filled (handleSetupCoder v st) := by
  rw [handleSetupCoder]
  split
  · trivial
  · exact avoids_ite.mpr ⟨fun _ => trivial, fun _ => trivial⟩

theorem setupVfilter_filled : Filled (handleSetupVfilter env v st) := by
  refine filled_list (fun vs h => ?_) fun _ => trivial
  simp only [Filled, avoids_bind]
  exact avoids_num (by omega) fun _ => avoids_num (by omega) fun _ => avoids_num (by omega) fun _ => trivial

theorem setupPhase_filled : Filled (handleSetupPhase env v st) :=
  filled_list (fun _ h => avoids_bind.mpr (avoids_num (by omega) fun _ => trivial)) fun _ => trivial

theorem setupEnTwi_filled : Filled (handleSetupEnTwi env v st) :=
  filled_list (fun _ h => avoids_bind.mpr (avoids_num (by omega) fun _ => trivial)) fun _ => trivial

theorem setupEnSpi_filled : Filled (handleSetupEnSpi env v st) := by
  refine filled_list (fun vs h => ?_) fun _ => trivial
  simp only [Filled, avoids_bind]
  exact avoids_num (by omega) fun _ => avoids_num (by omega) fun _ => trivial

theorem setupSpiClk_filled : Filled (handleSetupSpiClk env v st) := by
  refine filled_list (fun vs h => avoids_bind.mpr (avoids_num (by omega) fun m => ?_)) fun _ => trivial
  simp

theorem setupButton_filled : Filled (handleSetupButton v st) := by simp [Filled, handleSetupButton]

theorem setupHotkey_filled : Filled (handleSetupHotkey env v st) := by
  simp [Filled, handleSetupHotkey]

theorem setupClockmon_filled : Filled (handleSetupClockmon v st) := by
  simp [Filled, handleSetupClockmon]

theorem setupOsdInit_filled : Filled (handleSetupOsdInit v st) := by
  simp [Filled, handleSetupOsdInit]

theorem setupOsdTimeout_filled : Filled (handleSetupOsdTimeout env v st) := by
  refine filled_list (fun vs h => avoids_bind.mpr (avoids_num (by omega) fun m => ?_)) fun _ => trivial
  exact avoids_ite.mpr ⟨fun _ => trivial, fun _ => trivial⟩

theorem setupVideo_filled : Filled (handleSetupVideo env v st) := by
  rw [handleSetupVideo]
  refine avoids_ite.mpr ⟨fun _ => ?_, fun _ => trivial⟩
  refine filled_list (fun vs h => ?_) fun _ => trivial
  exact avoids_bind.mpr (avoids_nums (by omega) fun _ => trivial)

theorem setupConfig_filled : Filled (handleSetupConfig env v st) := by
  rw [handleSetupConfig]
  refine avoids_ite.mpr ⟨fun _ => ?_, fun _ => trivial⟩
  refine filled_list (fun vs h => ?_) fun _ => trivial
  simp only [avoids_bind, Filled]
  exact avoids_num (by omega) fun _ => avoids_num (by omega) fun _ => trivial

theorem targetsTarget_filled : Filled (handleTargetsTarget env v st) := by
  rw [handleTargetsTarget]
  refine avoids_bind.mpr (avoids_parseList.mpr fun vs _ => ?_)
  refine avoids_ite.mpr ⟨fun h => ?_, fun _ => trivial⟩
  refine avoids_ite.mpr ⟨fun _ => ?_, fun _ => by simp⟩
  refine avoids_bind.mpr (avoids_pointer (by omega) fun name => ?_)
  refine avoids_bind.mpr (avoids_ifSo_of (fun h3 => ?_) fun dir => ?_)
  · exact avoids_pointer (by omega) fun _ => trivial
  · exact avoids_bind.mpr (avoids_pointer (by split <;> omega) fun _ => trivial)

theorem uploadVerify_filled : Filled (handleUploadVerify env v st) :=
  filled_list (fun _ h => avoids_bind.mpr (avoids_num (by omega) fun _ => trivial)) fun _ => trivial

theorem uploadLaunch_filled : Filled (handleUploadLaunch env v st) := by
  refine filled_list (fun vs h => ?_) fun _ => trivial
  simp only [Filled, avoids_bind]
  exact avoids_num (by omega) fun _ => avoids_num (by omega) fun _ => avoids_num (by omega) fun _ => trivial

/-! ### Strings -/

/-- There is an entry with a string. -/
def hasText (vs : List ValueEntry) (i : ℕ) : Bool := (strval vs i).isSome

/-- The strings that the handler uses are there. The name of an `ITEM` and its last field are used, and
    what the field before names when the last one is no kind; an `OPTION` is named when its kind is
    known, a mount uses its file when there is such a unit, and a channel its extensions when its mode
    is known. `DATA` uses no string, but a single number cannot stand for a size of -1. -/
@[simp] def Handler.complete (vs : List ValueEntry) : Handler → Bool
  | setupInfo | menuTitle => vs.length ≠ 1 || hasText vs 0
  | menuItem =>
    if vs.length = 2 then hasText vs 0 && hasText vs 1
    else if vs.length = 3 then
      hasText vs 0 && (strval vs 2).any fun t => isDynamic t || isStatic t || hasText vs 1
    else vs.length ≠ 4 || hasText vs 0 && hasText vs 3
  | menuOption =>
    if vs.length = 3 then (strval vs 2).any fun t => kindOf t = .bad || hasText vs 0
    else vs.length ≠ 2 || hasText vs 0
  | uploadData =>
    match vs with
    | [] => false
    | [e] => e.intval ≠ 0xFFFFFFFF
    | _ => true
  | uploadRom => hasText vs 0
  | filesChaMount | filesChbMount =>
    match vs with
    | [e] => e.strval.isSome
    | [e, unit] => 4 ≤ unit.intval.toUInt8 || e.strval.isSome
    | _ => true
  | filesChaCfg | filesChbCfg =>
    match vs with
    | [] => true
    | e :: exts => e.strval.any fun t =>
      !isMatch t "REMOVABLE" && !isMatch t "FIXED" || exts.all fun ext => ext.strval.isSome
  | _ => true

/-- The room for entries in the list of a handler that has one. -/
def Handler.room : Handler → ℕ
  | setupClock | setupVideo | uploadData => 32
  | setupOsdTimeout => 1
  | targetsTarget => 3
  | filesChaMount | filesChbMount => 2
  | filesChaCfg | filesChbCfg => 5
  | _ => 8

variable {b : ValueBuffer}

/-- In no state a handler uses what is missing. -/
def Always (b : ValueBuffer) (run : Env → State → Result (UInt8 × State)) : Prop :=
  ∀ env st, env.buffer = b → Filled (run env st)

/-- A handler of lists does so for the list of its value. -/
theorem always_list {body : Env → State → List ValueEntry → Result (UInt8 × State)} :
    Always b (fun env st => parseList env v n >>= body env st) ↔
      ∀ vs, valueList v n b = some vs → Always b fun env st => body env st vs := by
  constructor
  · intro h vs hvs env st hb
    exact avoids_parseList.mp (avoids_bind.mp (h env st hb)) vs (hb ▸ hvs)
  · intro h env st hb
    refine avoids_bind.mpr (avoids_parseList.mpr fun vs hvs => ?_)
    exact h vs (hb ▸ hvs) env st hb

/-- Blank records, without a menu, and with an item that every value fits. -/
def blankMenu : Status where
  menu_top := none
  menu_act := none
  menu_item_act := some 0
  item_opt_act := some 0
  last_rom_adr := 0
  config_s := 0
  config_d := 0
  menus _ := ⟨none, none, fun _ => 0, none⟩
  items _ := ⟨none, none, fun _ => 0, none, none, 0xFFFFFFFF, 0, fun _ => 0, 0⟩
  options _ := ⟨none, none, fun _ => 0, 0⟩
  blocks := 1

/-- The connections to the core are there. -/
def blank : State where
  setup :=
    { coder_fitted := false, ini_dir := [], bin_file := fun _ => 0, twi_enabled := 1
      spi_osd_enabled := 1, spi_fpga_enabled := 1, verify_dl := 0, dram_phase := 0
      clockmon := false, fileio_cha := ⟨.removable, none⟩, fileio_chb := ⟨.removable, none⟩
      button := .menu, hotkey := 0, hotkey_string := fun _ => 0, osd_init := true
      osd_timeout := 30, clock_cfg := clockConfigNtsc, filter_cfg := ⟨0, 0, 3⟩
      coder_cfg := .disable, ini_targets := [] }
  menu := blankMenu
  msgs := Msg.powerUp
  requests := []

/-- There is memory for everything. -/
def plenty (b : ValueBuffer) : Env where
  buffer := b
  malloc _ := some ⟨blankMenu.menus 0, blankMenu.items 0, blankMenu.options 0⟩
  memory := true
  args := Msg.sameWord 0
  spiFreq := 0
  keyCode _ := 0
  keyName _ := []
  bufToMem _ := 0
  memToBuf := []
  canOpen _ := false
  uploadRom _ _ _ _ _ _ staticbits := .done staticbits

theorem hasText_iff : hasText vs i = true ↔ ∃ t, strval vs i = some t := Option.isSome_iff_exists

theorem setupInfo_iff : Always b (fun env st => handleSetupInfo env v st) ↔
    ∀ vs, valueList v 8 b = some vs → Handler.setupInfo.complete vs = true := by
  refine always_list.trans (forall₂_congr fun vs _ => ?_)
  rw [Handler.complete, Bool.or_eq_true, decide_eq_true_eq, hasText_iff, ← imp_iff_not_or]
  constructor
  · intro h hlen
    have hfilled := (avoids_ite.mp (h (plenty b) blank rfl)).1 hlen
    obtain ⟨t, ht, -⟩ := avoids_text.mp (avoids_bind.mp hfilled)
    exact ⟨t, ht⟩
  · intro h env st _
    refine avoids_ite.mpr ⟨fun hlen => ?_, fun _ => trivial⟩
    obtain ⟨t, ht⟩ := h hlen
    refine avoids_bind.mpr (avoids_text.mpr ⟨t, ht, ?_⟩)
    split
    · simp
    · trivial

theorem menuTitle_iff : Always b (fun env st => handleMenuTitle env v st) ↔
    ∀ vs, valueList v 8 b = some vs → Handler.menuTitle.complete vs = true := by
  refine always_list.trans (forall₂_congr fun vs _ => ?_)
  rw [Handler.complete, Bool.or_eq_true, decide_eq_true_eq, hasText_iff, ← imp_iff_not_or]
  constructor
  · intro h hlen
    have hfilled := (avoids_ite.mp (h (plenty b) blank rfl)).1 hlen
    obtain ⟨t, ht, -⟩ := avoids_text.mp (avoids_bind.mp
      (avoids_follow.mp (avoids_bind.mp hfilled) _ rfl))
    exact ⟨t, ht⟩
  · intro h env st _
    refine avoids_ite.mpr ⟨fun hlen => ?_, fun _ => trivial⟩
    obtain ⟨t, ht⟩ := h hlen
    refine avoids_bind.mpr (avoids_follow.mpr fun _ _ => avoids_bind.mpr (avoids_text.mpr ⟨t, ht, ?_⟩))
    exact avoids_bind.mpr (avoids_follow.mpr fun _ _ => trivial)

/-- The strings of an `ITEM` with two, three or four fields. -/
theorem configure_filled (it : MenuItem) : ∀ {vs : List ValueEntry}, 2 ≤ vs.length → vs.length ≤ 4 →
    (Filled (configure it vs) ↔ Handler.menuItem.complete vs = true)
  | [e0, e1], _, _ => by
    simp [configure, Filled, avoids_text, Handler.complete, hasText, strval,
      Option.isSome_iff_exists]
  | [e0, e1, e2], _, _ => by
    cases h0 : e0.strval with
    | none => simp [configure, Filled, avoids_text, Handler.complete, hasText, strval, h0]
    | some t0 =>
      cases h2 : e2.strval with
      | none => simp [configure, Filled, avoids_text, Handler.complete, hasText, strval, num, h2]
      | some t2 =>
        simp [configure, Filled, avoids_text, Handler.complete, hasText, strval, num, h0, h2,
          Option.isSome_iff_exists]
        cases isDynamic t2 <;> cases isStatic t2 <;> simp
  | [e0, e1, e2, e3], _, _ => by
    simp [configure, Filled, avoids_text, Handler.complete, hasText, strval,
      Option.isSome_iff_exists, num]
  | [], h, _ => absurd h (by decide)
  | [_], h, _ => absurd h (by simp)
  | _ :: _ :: _ :: _ :: _ :: _, _, h => absurd h (by simp)

theorem menuItem_iff : Always b (fun env st => handleMenuItem env v st) ↔
    ∀ vs, valueList v 8 b = some vs → Handler.menuItem.complete vs = true := by
  refine always_list.trans (forall₂_congr fun vs _ => ?_)
  constructor
  · intro h
    by_cases hlen : 2 ≤ vs.length ∧ vs.length ≤ 4
    · have hfilled := (avoids_ite.mp (h (plenty b) blank rfl)).1 hlen
      have hitem := avoids_follow.mp (avoids_bind.mp hfilled) 0 rfl
      have hnamed := avoids_follow.mp (avoids_bind.mp hitem) blankMenu rfl
      have hconfigure := avoids_bind.mp (avoids_follow.mp (avoids_bind.mp hnamed) 0 rfl)
      exact (configure_filled _ hlen.1 hlen.2).mp (hconfigure.mono fun _ _ => trivial)
    · have h2 : ¬vs.length = 2 := by omega
      have h3 : ¬vs.length = 3 := by omega
      have h4 : ¬vs.length = 4 := by omega
      simp [Handler.complete, h2, h3, h4]
  · intro h env st _
    refine avoids_ite.mpr ⟨fun hlen => ?_, fun _ => trivial⟩
    refine avoids_bind.mpr (avoids_follow.mpr fun act _ => ?_)
    refine avoids_bind.mpr (avoids_follow.mpr fun menu _ => ?_)
    refine avoids_bind.mpr (avoids_follow.mpr fun i _ => ?_)
    refine avoids_bind.mpr (((configure_filled _ hlen.1 hlen.2).mpr h).mono fun r _ => ?_)
    refine avoids_ite.mpr ⟨fun _ => trivial, fun _ => ?_⟩
    exact avoids_bind.mpr (avoids_follow.mpr fun _ _ => trivial)

/-- The strings of an `OPTION` with two or three fields. -/
theorem menuOption_complete_iff (hlen : vs.length = 2 ∨ vs.length = 3) :
    Handler.menuOption.complete vs = true ↔
      (vs.length = 3 → ∃ t, strval vs 2 = some t ∧ (kindOf t ≠ .bad → hasText vs 0 = true)) ∧
        (vs.length ≠ 3 → hasText vs 0 = true) := by
  rcases hlen with h2 | h3
  · simp [Handler.complete, h2]
  · cases ht : strval vs 2 with
    | none => simp [Handler.complete, h3, ht]
    | some t => simp [Handler.complete, h3, ht, imp_iff_not_or]

theorem ones_and (n : UInt32) : 0xFFFFFFFF &&& n = n := by
  have hones : (0xFFFFFFFF : UInt32) = -1 := by decide
  rw [hones, UInt32.neg_one_and]

theorem menuOption_iff : Always b (fun env st => handleMenuOption env v st) ↔
    ∀ vs, valueList v 8 b = some vs → Handler.menuOption.complete vs = true := by
  refine always_list.trans (forall₂_congr fun vs _ => ?_)
  constructor
  · intro h
    by_cases hlen : vs.length = 2 ∨ vs.length = 3
    · have hfilled := (avoids_ite.mp (h (plenty b) blank rfl)).1 hlen
      have hnamed := avoids_follow.mp (avoids_bind.mp hfilled) 0 rfl
      have hoption := avoids_follow.mp (avoids_bind.mp hnamed) blankMenu rfl
      have hvalue := avoids_bind.mp (avoids_follow.mp (avoids_bind.mp hoption) 0 rfl)
      rw [num, List.getElem?_eq_getElem (by omega)] at hvalue
      have hkind := avoids_ifSo.mp (avoids_bind.mp hvalue)
      refine (menuOption_complete_iff hlen).mpr ⟨fun h3 => ?_, fun h3 => ?_⟩
      · obtain ⟨t, ht, hrest⟩ := avoids_text.mp (avoids_map.mp (hkind.1 h3))
        refine ⟨t, ht, fun hbad => ?_⟩
        have hitem := avoids_follow.mp (avoids_bind.mp ((avoids_ite.mp hrest).2 hbad)) 0 rfl
        have hname := (avoids_ite.mp hitem).2 fun hmask => hmask.1 (ones_and _)
        obtain ⟨name, h0, -⟩ := avoids_text.mp (avoids_bind.mp hname)
        exact hasText_iff.mpr ⟨name, h0⟩
      · have hitem := avoids_follow.mp (avoids_bind.mp ((avoids_ite.mp (hkind.2 h3)).2 (by decide))) 0 rfl
        have hname := (avoids_ite.mp hitem).2 fun hmask => hmask.1 (ones_and _)
        obtain ⟨name, h0, -⟩ := avoids_text.mp (avoids_bind.mp hname)
        exact hasText_iff.mpr ⟨name, h0⟩
    · rw [not_or] at hlen
      simp [Handler.complete, hlen.1, hlen.2]
  · intro h env st _
    refine avoids_ite.mpr ⟨fun hlen => ?_, fun _ => trivial⟩
    obtain ⟨hthree, htwo⟩ := (menuOption_complete_iff hlen).mp h
    refine avoids_bind.mpr (avoids_follow.mpr fun act _ => ?_)
    refine avoids_bind.mpr (avoids_follow.mpr fun menu _ => ?_)
    refine avoids_bind.mpr (avoids_follow.mpr fun o _ => ?_)
    refine avoids_bind.mpr (avoids_num (by omega) fun value => ?_)
    refine avoids_bind.mpr ?_
    -- the name is there, unless the kind is bad
    have hkind : Avoids .missing (ifSo (vs.length = 3) ((text vs 2).map kindOf) .plain) fun kind =>
        kind ≠ .bad → hasText vs 0 = true := by
      refine avoids_ifSo.mpr ⟨fun h3 => ?_, fun h3 _ => htwo h3⟩
      exact avoids_map.mpr (avoids_text.mpr (hthree h3))
    refine hkind.mono fun kind hname => ?_
    refine avoids_ite.mpr ⟨fun _ => trivial, fun hbad => ?_⟩
    refine avoids_bind.mpr (avoids_follow.mpr fun i _ => ?_)
    refine avoids_ite.mpr ⟨fun _ => trivial, fun _ => ?_⟩
    obtain ⟨t, ht⟩ := hasText_iff.mp (hname hbad)
    exact avoids_bind.mpr (avoids_text.mpr ⟨t, ht, trivial⟩)

/-- The size of a single entry is compared to -1. -/
theorem minusOne_iff (n : UInt32) : ((1 : ℕ) : ℤ) - 2 = n.toInt32.toInt ↔ n = 0xFFFFFFFF := by
  constructor
  · intro h
    have hint : n.toInt32 = -1 := Int32.toInt_inj.mp (by rw [← h]; decide)
    have hback := congrArg Int32.toUInt32 hint
    rwa [UInt32.toUInt32_toInt32] at hback
  · rintro rfl
    decide

theorem uploadData_iff : Always b (fun env st => handleUploadData env v st) ↔
    ∀ vs, valueList v 32 b = some vs → Handler.uploadData.complete vs = true := by
  constructor
  · intro h vs hvs
    have hdata := (avoids_ite.mp (h (plenty b) blank rfl)).2 (by decide)
    have hfilled := avoids_parseList.mp (avoids_bind.mp hdata) vs hvs
    match vs, hfilled with
    | [], hfilled => exact absurd rfl ((avoids_ite.mp hfilled).1 (by decide))
    | [e], hfilled =>
      have hsize := (avoids_ite.mp hfilled).1 (Nat.le_of_ble_eq_true rfl)
      obtain ⟨e', he', hrest⟩ := avoids_num_iff.mp (avoids_bind.mp hsize)
      obtain rfl : e = e' := Option.some.inj he'
      refine decide_eq_true fun hminus => ?_
      have hread := (avoids_ite.mp hrest).1 ((minusOne_iff _).mpr hminus)
      exact absurd rfl hread
    | _ :: _ :: _, _ => rfl
  · intro h env st hb
    refine avoids_ite.mpr ⟨fun _ => trivial, fun _ => ?_⟩
    refine avoids_bind.mpr (avoids_parseList.mpr fun vs hvs => ?_)
    have hcomplete := h vs (hb ▸ hvs)
    have hpos : 0 < vs.length := by
      cases vs with
      | nil => exact absurd hcomplete (by decide)
      | cons e es => exact Nat.succ_pos _
    refine avoids_ite.mpr ⟨fun _ => ?_, fun _ => trivial⟩
    refine avoids_bind.mpr (avoids_num_iff.mpr ⟨_, List.getElem?_eq_getElem (by omega), ?_⟩)
    refine avoids_ite.mpr ⟨fun hsize => ?_, fun _ => trivial⟩
    -- a single entry is not -1
    have htwo : 2 ≤ vs.length := by
      by_contra hone
      obtain ⟨e, rfl⟩ := List.length_eq_one_iff.mp (by omega : vs.length = 1)
      exact of_decide_eq_true hcomplete ((minusOne_iff _).mp hsize)
    refine avoids_bind.mpr (avoids_nums (by omega) fun ns => ?_)
    refine avoids_bind.mpr (avoids_ite.mpr ⟨fun _ => avoids_num (by omega) fun base => ?_, fun hno => absurd htwo hno⟩)
    refine avoids_ite.mpr ⟨fun _ => trivial, fun _ => ?_⟩
    refine avoids_ite.mpr ⟨fun _ => ?_, fun _ => trivial⟩
    exact avoids_ite.mpr ⟨fun _ => trivial, fun _ => trivial⟩

theorem uploadRom_iff : Always b (fun env st => handleUploadRom env v st) ↔
    ∀ vs, valueList v 8 b = some vs → Handler.uploadRom.complete vs = true := by
  constructor
  · intro h vs hvs
    have hrom := (avoids_ite.mp (h (plenty b) blank rfl)).2 (by decide)
    have hfilled := avoids_parseList.mp (avoids_bind.mp hrom) vs hvs
    obtain ⟨t, ht, -⟩ := avoids_text.mp (avoids_bind.mp hfilled)
    exact hasText_iff.mpr ⟨t, ht⟩
  · intro h env st hb
    refine avoids_ite.mpr ⟨fun _ => trivial, fun _ => ?_⟩
    refine avoids_bind.mpr (avoids_parseList.mpr fun vs hvs => ?_)
    obtain ⟨t, ht⟩ := hasText_iff.mp (h vs (hb ▸ hvs))
    refine avoids_bind.mpr (avoids_text.mpr ⟨t, ht, ?_⟩)
    refine avoids_ite.mpr ⟨fun _ => trivial, fun hlen => ?_⟩
    refine avoids_bind.mpr (avoids_num (by omega) fun size => ?_)
    refine avoids_bind.mpr (avoids_ifSo_of (fun h2 => ?_) fun base => ?_)
    · exact avoids_num (by omega) fun _ => trivial
    refine avoids_bind.mpr (avoids_ifSo_of (fun h3 => ?_) fun format => ?_)
    · exact avoids_map.mpr (avoids_num (by omega) fun _ => trivial)
    refine avoids_bind.mpr (avoids_ifSo_of (fun h3 => ?_) fun swizzle => ?_)
    · exact avoids_pointer (by omega) fun _ => trivial
    dsimp only
    split
    · trivial
    · exact avoids_bind.mpr (avoids_follow.mpr fun _ _ => trivial)

theorem filesMount_iff (ch : ℕ) : Always b (fun env st => handleFilesMount env v st ch) ↔
    ∀ vs, valueList v 2 b = some vs → Handler.filesChaMount.complete vs = true := by
  refine always_list.trans (forall₂_congr fun vs _ => ?_)
  constructor
  · intro h
    have hmount := avoids_ite.mp (h (plenty b) blank rfl)
    match vs, hmount with
    | [], _ => rfl
    | [e], hmount =>
      have hunit := (avoids_ifSo.mp (avoids_bind.mp (hmount.1 (Or.inl rfl)))).2 (by simp)
      obtain ⟨t, ht, -⟩ := avoids_text.mp (avoids_bind.mp ((avoids_ite.mp hunit).1 (by decide)))
      exact hasText_iff.mpr ⟨t, ht⟩
    | [e, unit], hmount =>
      have hunit := (avoids_ifSo.mp (avoids_bind.mp (hmount.1 (Or.inr rfl)))).1 rfl
      obtain ⟨u, hu, hrest⟩ := avoids_num_iff.mp (avoids_map.mp hunit)
      obtain rfl : unit = u := Option.some.inj hu
      by_cases hfour : unit.intval.toUInt8 < 4
      · obtain ⟨t, ht, -⟩ := avoids_text.mp (avoids_bind.mp ((avoids_ite.mp hrest).1 hfour))
        exact Bool.or_eq_true_iff.mpr (Or.inr (hasText_iff.mpr ⟨t, ht⟩))
      · exact Bool.or_eq_true_iff.mpr (Or.inl (decide_eq_true (UInt8.not_lt.mp hfour)))
    | _ :: _ :: _ :: _, _ => rfl
  · intro h env st _
    refine avoids_ite.mpr ⟨fun hlen => avoids_bind.mpr ?_, fun _ => trivial⟩
    have hunit : Avoids .missing (ifSo (vs.length = 2) ((num vs 1).map UInt32.toUInt8) 0) fun unit =>
        unit < 4 → ∃ t, strval vs 0 = some t := by
      match vs, hlen, h with
      | [e], _, h => exact avoids_ifSo.mpr ⟨fun h2 => absurd h2 (by simp), fun _ _ => hasText_iff.mp h⟩
      | [e, unit], _, h =>
        refine avoids_ifSo.mpr ⟨fun _ => avoids_map.mpr (avoids_num_iff.mpr ⟨unit, rfl, fun hlt => ?_⟩),
          fun h2 => absurd rfl h2⟩
        rcases Bool.or_eq_true_iff.mp h with hfour | htext
        · exact absurd hlt (UInt8.not_lt.mpr (of_decide_eq_true hfour))
        · exact hasText_iff.mp htext
    refine hunit.mono fun unit htext => avoids_ite.mpr ⟨fun hlt => ?_, fun _ => trivial⟩
    obtain ⟨t, ht⟩ := htext hlt
    exact avoids_bind.mpr (avoids_text.mpr ⟨t, ht, avoids_ite.mpr ⟨fun _ => trivial, fun _ => trivial⟩⟩)

/-- The extensions are read as long as there is memory for them. -/
theorem avoids_extensions (memory : Bool) : ∀ {i k : ℕ}, (∀ j, i ≤ j → j < i + k → hasText vs j = true) →
    Avoids .missing (extensions memory vs i k) fun _ => True
  | _, 0, _ => trivial
  | i, k + 1, h => by
    rw [extensions]
    obtain ⟨t, ht⟩ := hasText_iff.mp (h i (Nat.le_refl i) (by omega))
    refine avoids_bind.mpr (avoids_text.mpr ⟨t, ht, avoids_ite.mpr ⟨fun _ => ?_, fun _ => ?_⟩⟩)
    · exact avoids_bind.mpr (avoids_extensions memory fun j hj hjk => h j (by omega) (by omega))
    · simp

theorem hasText_of_extensions : ∀ {i k : ℕ}, Avoids .missing (extensions true vs i k) (fun _ => True) →
    ∀ j, i ≤ j → j < i + k → hasText vs j = true
  | _, 0, _, j, hj, hjk => absurd hjk (by omega)
  | i, k + 1, h, j, hj, hjk => by
    rw [extensions] at h
    obtain ⟨t, ht, hrest⟩ := avoids_text.mp (avoids_bind.mp h)
    rcases Nat.eq_or_lt_of_le hj with rfl | hlt
    · exact hasText_iff.mpr ⟨t, ht⟩
    · have hmore := avoids_bind.mp ((avoids_ite.mp hrest).1 rfl)
      exact hasText_of_extensions (hmore.mono fun _ _ => trivial) j hlt (by omega)

theorem hasText_cons {e : ValueEntry} (exts : List ValueEntry) :
    (exts.all fun ext => ext.strval.isSome) = true ↔
      ∀ j, 1 ≤ j → j < 1 + exts.length → hasText (e :: exts) j = true := by
  rw [List.all_eq_true, List.forall_mem_iff_getElem]
  constructor
  · intro h j hj hlt
    obtain ⟨k, rfl⟩ := Nat.exists_eq_add_of_le' hj
    have hk : k < exts.length := by omega
    rw [hasText, strval, List.getElem?_cons_succ, List.getElem?_eq_getElem hk]
    exact h k hk
  · intro h k hk
    have hj := h (k + 1) (by omega) (by omega)
    rwa [hasText, strval, List.getElem?_cons_succ, List.getElem?_eq_getElem hk] at hj

theorem modeOf_eq_none {t : List UInt8} :
    modeOf t = none ↔ (!isMatch t "REMOVABLE" && !isMatch t "FIXED") = true := by
  rw [modeOf]
  cases isMatch t "REMOVABLE" <;> cases isMatch t "FIXED" <;> simp

theorem configureChannel_iff (bad : List UInt8) (get : Setup → Channel)
    (set : Setup → Channel → Setup) :
    Always b (fun env st => configureChannel env v st bad get set) ↔
      ∀ vs, valueList v 5 b = some vs → Handler.filesChaCfg.complete vs = true := by
  refine always_list.trans (forall₂_congr fun vs _ => ?_)
  cases vs with
  | nil => exact iff_of_true (fun env st _ => trivial) rfl
  | cons e exts =>
    constructor
    · intro h
      have hmode := (avoids_ifSo.mp (avoids_bind.mp (h (plenty b) blank rfl))).1 (Nat.succ_pos _)
      obtain ⟨t, ht, hrest⟩ := avoids_text.mp (avoids_map.mp hmode)
      have hstrval : e.strval = some t := ht
      rw [Handler.complete, hstrval, Option.any_some, Bool.or_eq_true_iff, ← modeOf_eq_none]
      cases hm : modeOf t with
      | none => exact Or.inl rfl
      | some mode =>
        rw [hm] at hrest
        refine Or.inr ((hasText_cons (e := e) exts).mpr fun j hj hlt => ?_)
        have hexts := (avoids_ifSo.mp (avoids_bind.mp hrest)).1 (by rw [List.length_cons]; omega)
        refine hasText_of_extensions ((avoids_map.mp hexts).mono fun _ _ => trivial) j hj ?_
        rw [List.length_cons]
        omega
    · intro h env st _
      obtain ⟨t, hstrval, hexts⟩ : ∃ t, e.strval = some t ∧ (!isMatch t "REMOVABLE" &&
          !isMatch t "FIXED" || exts.all fun ext => ext.strval.isSome) = true := by
        rw [Handler.complete] at h
        cases hs : e.strval with
        | none =>
          rw [hs] at h
          exact absurd h Bool.false_ne_true
        | some t =>
          rw [hs] at h
          exact ⟨t, rfl, h⟩
      rw [Bool.or_eq_true_iff, ← modeOf_eq_none, hasText_cons (e := e)] at hexts
      have hmode : Avoids .missing (ifSo (0 < (e :: exts).length) ((text (e :: exts) 0).map modeOf)
          (some (get st.setup).mode)) fun mode => mode = modeOf t :=
        avoids_ifSo.mpr ⟨fun _ => avoids_map.mpr (avoids_text.mpr ⟨t, hstrval, rfl⟩),
          fun hno => absurd (Nat.succ_pos _) hno⟩
      refine avoids_bind.mpr (hmode.mono fun mode hmode => ?_)
      rw [hmode]
      rcases hexts with hnone | hexts
      · rw [hnone]
        trivial
      · cases modeOf t with
        | none => trivial
        | some mode =>
          refine avoids_bind.mpr (avoids_ifSo_of (fun _ => ?_) fun _ => trivial)
          refine avoids_map.mpr (avoids_extensions env.memory fun j hj hlt => hexts j hj ?_)
          rw [List.length_cons] at hlt
          omega

theorem filesChaCfg_iff : Always b (fun env st => handleFilesChaCfg env v st) ↔
    ∀ vs, valueList v 5 b = some vs → Handler.filesChaCfg.complete vs = true :=
  configureChannel_iff ..

theorem filesChbCfg_iff : Always b (fun env st => handleFilesChbCfg env v st) ↔
    ∀ vs, valueList v 5 b = some vs → Handler.filesChbCfg.complete vs = true :=
  configureChannel_iff ..

/-! ### Lines -/

/-- The handler of a value, in no state, uses a field that is missing. -/
def NoMissing (h : Handler) (v : ValueString) (b : ValueBuffer) : Prop :=
  Always b fun env st => h.run env v st

/-- The strings that the handler uses are there, in the list of the value. -/
def Complete (h : Handler) (v : ValueString) (b : ValueBuffer) : Prop :=
  ∀ vs, valueList v h.room b = some vs → h.complete vs = true

theorem noMissing_iff (h : Handler) (v : ValueString) (b : ValueBuffer) :
    NoMissing h v b ↔ Complete h v b := by
  cases h with
  | setupInfo => exact setupInfo_iff
  | menuTitle => exact menuTitle_iff
  | menuItem => exact menuItem_iff
  | menuOption => exact menuOption_iff
  | uploadData => exact uploadData_iff
  | uploadRom => exact uploadRom_iff
  | filesChaMount => exact filesMount_iff 0
  | filesChbMount => exact filesMount_iff 1
  | filesChaCfg => exact filesChaCfg_iff
  | filesChbCfg => exact filesChbCfg_iff
  | setupBin => exact iff_of_true (fun _ _ _ => trivial) fun _ _ => rfl
  | setupClock => exact iff_of_true (fun _ _ _ => setupClock_filled) fun _ _ => rfl
  | setupCoder => exact iff_of_true (fun _ _ _ => setupCoder_filled) fun _ _ => rfl
  | setupPhase => exact iff_of_true (fun _ _ _ => setupPhase_filled) fun _ _ => rfl
  | setupVfilter => exact iff_of_true (fun _ _ _ => setupVfilter_filled) fun _ _ => rfl
  | setupEnTwi => exact iff_of_true (fun _ _ _ => setupEnTwi_filled) fun _ _ => rfl
  | setupEnSpi => exact iff_of_true (fun _ _ _ => setupEnSpi_filled) fun _ _ => rfl
  | setupSpiClk => exact iff_of_true (fun _ _ _ => setupSpiClk_filled) fun _ _ => rfl
  | setupButton => exact iff_of_true (fun _ _ _ => setupButton_filled) fun _ _ => rfl
  | setupHotkey => exact iff_of_true (fun _ _ _ => setupHotkey_filled) fun _ _ => rfl
  | setupClockmon => exact iff_of_true (fun _ _ _ => setupClockmon_filled) fun _ _ => rfl
  | setupOsdInit => exact iff_of_true (fun _ _ _ => setupOsdInit_filled) fun _ _ => rfl
  | setupOsdTimeout => exact iff_of_true (fun _ _ _ => setupOsdTimeout_filled) fun _ _ => rfl
  | setupVideo => exact iff_of_true (fun _ _ _ => setupVideo_filled) fun _ _ => rfl
  | setupConfig => exact iff_of_true (fun _ _ _ => setupConfig_filled) fun _ _ => rfl
  | targetsTarget => exact iff_of_true (fun _ _ _ => targetsTarget_filled) fun _ _ => rfl
  | uploadVerify => exact iff_of_true (fun _ _ _ => uploadVerify_filled) fun _ _ => rfl
  | uploadLaunch => exact iff_of_true (fun _ _ _ => uploadLaunch_filled) fun _ _ => rfl

/-- A line uses no missing field, in any state, exactly when the strings that its handler uses are
    there. -/
theorem parseHandler_filled_iff (pass : Pass) (iniSection name : Symbol) (v : ValueString)
    (b : ValueBuffer) :
    (∀ env st, env.buffer = b → parseHandler env v st pass iniSection name ≠ .error .missing) ↔
      ∀ h ∈ handlerOf pass iniSection name, Complete h v b := by
  cases hh : handlerOf pass iniSection name with
  | none =>
    refine iff_of_true (fun env st _ => ?_) (by simp)
    rw [parseHandler, hh]
    simp
  | some h =>
    simp only [parseHandler, hh, Option.mem_def, Option.some.injEq, forall_eq']
    rw [← noMissing_iff]
    exact forall₃_congr fun _ _ _ => filled_iff.symm

/-- `,x` -/
def unnamed : ValueString := ⟨[0x2C, 0x78], by decide, by decide⟩

/-- The name of `ITEM = ,x` is copied through a null pointer. -/
theorem unnamedItem_missing : ¬∀ (pass : Pass) (iniSection name : Symbol) (v : ValueString) (env : Env)
    (st : State), parseHandler env v st pass iniSection name ≠ .error .missing := by
  intro h
  have hlist : valueList unnamed 8 InPlace.emptyBuffer = some [⟨none, 0⟩, ⟨some [0x78], 0⟩] := by
    decide +kernel
  have hall : NoMissing .menuItem unnamed InPlace.emptyBuffer := fun env st _ =>
    filled_iff.mpr (h (.post false) .menu .item unnamed env st)
  exact absurd ((noMissing_iff ..).mp hall _ hlist) (by decide)

end Config.Handlers
