import Mathlib.Algebra.Order.Ring.Nat
import Mathlib.Data.List.Basic

/-! Reads and writes of the card, and what lies between them.

    Whenever a write follows a read, or a read a write, a dummy read of block 0 goes before it. Which of
    them came last is remembered in a static, and the dummy read goes through the read that looks at it.
    However the card answers, the dummy read is issued when the direction changes and only then, it never
    issues another one, and on every way out the card is deselected. The data itself is left to the
    model of the card's blocks. -/

namespace Card

/-! ### The bus -/

def CMD12 : UInt8 := 0x4C
def CMD13 : UInt8 := 0x4D
def CMD17 : UInt8 := 0x51
def CMD18 : UInt8 := 0x52
def CMD23 : UInt8 := 0x57
def CMD24 : UInt8 := 0x58
def CMD25 : UInt8 := 0x59
def CMD55 : UInt8 := 0x77

def CARDTYPE_MMC : UInt8 := 1
def CARDTYPE_SDHC : UInt8 := 3

def FF_ERR_NONE : UInt32 := 0
def FF_ERR_DEVICE_DRIVER_FAILED : UInt32 := 0x80000004

/-- What the hardware is asked: whether the card is ready before a timeout, the response to a command,
    whether a data token comes, whether the DMA ends, a byte. -/
inductive Query where
  | waitXfer
  | command (cmd : UInt8) (arg : UInt32)
  | stop
  | dataToken
  | dma
  | rSPI (outByte : UInt8)

/-- A call of `Card_ReadM`, with data for the buffer or for the FPGA, or of `Card_WriteM`. -/
inductive Call where
  | read (direct : Bool) (sector numSectors : UInt32)
  | write (sector numSectors : UInt32)
  deriving DecidableEq

def Call.isWrite : Call → Bool
  | .read .. => false
  | .write .. => true

/-- What happens: the card is selected for a call, something is asked, a call returns with what is
    selected then. -/
inductive Event where
  | select (c : Call)
  | ask (q : Query)
  | ret (card fileSelected : Bool)

/-- The driver, and the hardware with a state of its own. -/
structure Driver (σ : Type) where
  cardType : UInt8
  writeStateActive : Bool
  selected : Bool
  fileSelected : Bool
  hw : σ
  log : List Event

variable {σ : Type} (b : σ → Query → UInt8 × σ)

def Driver.ask (s : Driver σ) (q : Query) : UInt8 × Driver σ :=
  ((b s.hw q).1, { s with hw := (b s.hw q).2, log := s.log ++ [.ask q] })

/-- `SPI_EnableCard` -/
def Driver.enableCard (s : Driver σ) (c : Call) : Driver σ :=
  { s with selected := true, log := s.log ++ [.select c] }

/-- `SPI_DisableCard` -/
def Driver.disableCard (s : Driver σ) : Driver σ := { (s.ask b (.rSPI 0xFF)).2 with selected := false }

/-- A return, behind `SPI_DisableCard`. -/
def Driver.leave (code : UInt32) (s : Driver σ) : UInt32 × Driver σ :=
  let s := s.disableCard b
  (code, { s with log := s.log ++ [.ret s.selected s.fileSelected] })

/-! ### The code -/

/-- `Card_GetStatus` -/
def cardGetStatus (s : Driver σ) : Bool × Driver σ :=
  let (response, s) := s.ask b (.command CMD13 0)
  if response ≠ 0 then (false, s)
  else
    let (byte2, s) := s.ask b (.rSPI 0xFF)
    (byte2 = 0, s)

/-- The sectors of a read; `SPI_EnableFileIO` and `SPI_DisableFileIO` around the data for the FPGA. -/
def readLoop (direct : Bool) : ℕ → Driver σ → Bool × Driver σ
  | 0, s => (true, s)
  | sectorCount + 1, s =>
    let (token, s) := s.ask b .dataToken
    if token = 0 then (false, s)
    else
      let s := if direct then { s with fileSelected := true } else s
      let (done, s) := s.ask b .dma
      let s := if direct then { s with fileSelected := false } else s
      if done = 0 then (false, s)
      else
        let (_, s) := s.ask b (.rSPI 0xFF)
        let (_, s) := s.ask b (.rSPI 0xFF)
        readLoop direct sectorCount s

/-- `Card_ReadM`, behind the dummy read. -/
def readTransfer (direct : Bool) (sector numSectors : UInt32) (s : Driver σ) : UInt32 × Driver σ :=
  let s := s.enableCard (.read direct sector numSectors)
  let (ready, s) := s.ask b .waitXfer
  if ready = 0 then s.leave b FF_ERR_DEVICE_DRIVER_FAILED
  else
    let address := if s.cardType ≠ CARDTYPE_SDHC then sector <<< 9 else sector
    let (response, s) := s.ask b (.command (if numSectors = 1 then CMD17 else CMD18) address)
    if response ≠ 0 then s.leave b FF_ERR_DEVICE_DRIVER_FAILED
    else
      let (done, s) := readLoop b direct numSectors.toNat s
      if done = false then s.leave b FF_ERR_DEVICE_DRIVER_FAILED
      else
        let s := if numSectors ≠ 1 then (s.ask b .stop).2 else s
        let (ok, s) := cardGetStatus b s
        if ok = false then s.leave b FF_ERR_DEVICE_DRIVER_FAILED
        else s.leave b FF_ERR_NONE

/-- The sectors of a write. -/
def writeLoop (single : Bool) : ℕ → Driver σ → Bool × Driver σ
  | 0, s => (true, s)
  | sectorCount + 1, s =>
    let (_, s) := s.ask b (.rSPI 0xFF)
    let (_, s) := s.ask b (.rSPI (if single then 0xFE else 0xFC))
    let (done, s) := s.ask b .dma
    if done = 0 then (false, s)
    else
      let (_, s) := s.ask b (.rSPI 0xFF)
      let (_, s) := s.ask b (.rSPI 0xFF)
      let (response, s) := s.ask b (.rSPI 0xFF)
      if response &&& 0x1F ≠ 0x05 then (false, s)
      else
        let (ready, s) := s.ask b .waitXfer
        if ready = 0 then (false, s)
        else writeLoop single sectorCount s

/-- The commands ahead of the sectors of a write. -/
def writeCommands (sector numSectors : UInt32) (s : Driver σ) : Bool × Driver σ :=
  let address := if s.cardType ≠ CARDTYPE_SDHC then sector <<< 9 else sector
  if numSectors = 1 then
    let (response, s) := s.ask b (.command CMD24 address)
    (response = 0, s)
  else
    let (response, s) := if s.cardType ≠ CARDTYPE_MMC then s.ask b (.command CMD55 0) else (0, s)
    if response ≠ 0 then (false, s)
    else
      let (response, s) := s.ask b (.command CMD23 numSectors)
      if response ≠ 0 then (false, s)
      else
        let (response, s) := s.ask b (.command CMD25 address)
        (response = 0, s)

/-- `Card_WriteM`, behind the dummy read. -/
def writeTransfer (sector numSectors : UInt32) (s : Driver σ) : UInt32 × Driver σ :=
  let s := s.enableCard (.write sector numSectors)
  let (ready, s) := s.ask b .waitXfer
  if ready = 0 then s.leave b FF_ERR_DEVICE_DRIVER_FAILED
  else
    let (accepted, s) := writeCommands b sector numSectors s
    if accepted = false then s.leave b FF_ERR_DEVICE_DRIVER_FAILED
    else
      let (done, s) := writeLoop b (numSectors = 1) numSectors.toNat s
      if done = false then s.leave b FF_ERR_DEVICE_DRIVER_FAILED
      else
        let (_, s) := s.ask b (.rSPI (if numSectors = 1 then 0xFF else 0xFD))
        let (_, s) := s.ask b (.rSPI 0xFF)
        let (ready, s) := s.ask b .waitXfer
        if ready = 0 then s.leave b FF_ERR_DEVICE_DRIVER_FAILED
        else
          let (ok, s) := cardGetStatus b s
          if ok = false then s.leave b FF_ERR_DEVICE_DRIVER_FAILED
          else s.leave b FF_ERR_NONE

/-- `Card_ReadM`, which may be entered as often as `depth` says within itself. -/
def cardReadM : ℕ → Bool → UInt32 → UInt32 → Driver σ → Option (UInt32 × Driver σ)
  | 0, _, _, _, _ => none
  | depth + 1, direct, sector, numSectors, s => do
    let s ← if s.writeStateActive then
        (cardReadM depth false 0 1 { s with writeStateActive := false }).map Prod.snd
      else some s
    return readTransfer b direct sector numSectors s

/-- `Card_TriggerFillRead` -/
def cardTriggerFillRead (depth : ℕ) (s : Driver σ) : Option (Driver σ) :=
  (cardReadM b depth false 0 1 s).map Prod.snd

/-- `Card_WriteM` -/
def cardWriteM (depth : ℕ) (sector numSectors : UInt32) (s : Driver σ) : Option (UInt32 × Driver σ) := do
  let s ← if s.writeStateActive = false then
      (cardTriggerFillRead b depth s).map fun s => { s with writeStateActive := true }
    else some s
  return writeTransfer b sector numSectors s

def Call.run (depth : ℕ) (s : Driver σ) : Call → Option (UInt32 × Driver σ)
  | .read direct sector numSectors => cardReadM b (depth + 1) direct sector numSectors s
  | .write sector numSectors => cardWriteM b depth sector numSectors s

/-- Calls one after the other, whatever they return. -/
def runCalls (depth : ℕ) : List Call → Driver σ → Option (Driver σ)
  | [], s => some s
  | c :: cs, s => do
    let r ← c.run b depth s
    runCalls depth cs r.2

/-- The driver as it starts. -/
def Driver.powerUp (cardType : UInt8) (h : σ) : Driver σ := ⟨cardType, false, false, false, h, []⟩

/-! ### What it is for -/

/-- `dummy` of block 0. -/
def dummyRead : Call := .read false 0 1

/-- The transfers for these calls: a dummy read goes before each call in another direction than the one
    before it. -/
def switched : Bool → List Call → List Call
  | _, [] => []
  | writing, c :: cs => (if c.isWrite ≠ writing then [dummyRead] else []) ++ c :: switched c.isWrite cs

/-- The calls that the card was selected for. -/
def transfers (log : List Event) : List Call :=
  log.filterMap fun
    | .select c => some c
    | _ => none

/-- Nothing is selected on return. -/
def Deselected (log : List Event) : Prop :=
  ∀ card fileSelected, .ret card fileSelected ∈ log → card = false ∧ fileSelected = false

theorem transfers_append (a b : List Event) : transfers (a ++ b) = transfers a ++ transfers b :=
  List.filterMap_append

theorem deselected_append {a b : List Event} (ha : Deselected a) (hb : Deselected b) : Deselected (a ++ b) := by
  intro card fileSelected h
  rcases List.mem_append.mp h with h | h
  · exact ha card fileSelected h
  · exact hb card fileSelected h

/-! ### Within a transfer -/

/-- What a transfer leaves alone on its way. -/
structure Within (s t : Driver σ) : Prop where
  cardType : t.cardType = s.cardType
  mode : t.writeStateActive = s.writeStateActive
  fileSelected : t.fileSelected = s.fileSelected
  asked : ∃ qs : List Query, t.log = s.log ++ qs.map .ask

variable {b}

theorem Within.refl (s : Driver σ) : Within s s := ⟨rfl, rfl, rfl, [], (List.append_nil _).symm⟩

theorem Within.trans {s t u : Driver σ} (h : Within s t) (h' : Within t u) : Within s u := by
  obtain ⟨qs, hqs⟩ := h.asked
  obtain ⟨qs', hqs'⟩ := h'.asked
  exact ⟨h'.cardType.trans h.cardType, h'.mode.trans h.mode, h'.fileSelected.trans h.fileSelected, qs ++ qs',
    by rw [hqs', hqs, List.map_append, List.append_assoc]⟩

theorem Within.ask {s t : Driver σ} (h : Within s t) (q : Query) : Within s (t.ask b q).2 :=
  h.trans ⟨rfl, rfl, rfl, [q], rfl⟩

theorem Within.ite {α : Type} {c : Prop} [Decidable c] {s : Driver σ} {a b : α × Driver σ}
    (ha : Within s a.2) (hb : Within s b.2) : Within s (if c then a else b).2 := by
  split
  · exact ha
  · exact hb

theorem Within.then (c : Prop) [Decidable c] {s a b : Driver σ} (ha : Within s a) (hb : Within s b) :
    Within s (if c then a else b) := by
  split
  · exact ha
  · exact hb

theorem Within.getStatus {s t : Driver σ} (h : Within s t) : Within s (cardGetStatus b t).2 :=
  .ite (h.ask _) ((h.ask _).ask _)

theorem Within.dma {s t : Driver σ} (direct : Bool) (h : Within s t) (hio : s.fileSelected = false) :
    Within s (if direct then
      { ((if direct then { t with fileSelected := true } else t).ask b .dma).2 with fileSelected := false }
      else ((if direct then { t with fileSelected := true } else t).ask b .dma).2) := by
  cases direct with
  | false => exact h.ask _
  | true =>
    obtain ⟨qs, hqs⟩ := h.asked
    refine ⟨h.cardType, h.mode, hio.symm, qs ++ [.dma], ?_⟩
    rw [List.map_append, ← List.append_assoc, ← hqs]
    rfl

theorem Within.readLoop (direct : Bool) {s : Driver σ} (hio : s.fileSelected = false) :
    ∀ (sectorCount : ℕ) {t : Driver σ}, Within s t → Within s (readLoop b direct sectorCount t).2
  | 0, _, h => h
  | sectorCount + 1, t, h => by
    have hdma := (h.ask (b := b) .dataToken).dma (b := b) direct hio
    rw [Card.readLoop]
    exact .ite (h.ask _) (.ite hdma (Within.readLoop direct hio sectorCount ((hdma.ask _).ask _)))

theorem Within.writeLoop (single : Bool) {s : Driver σ} :
    ∀ (sectorCount : ℕ) {t : Driver σ}, Within s t → Within s (writeLoop b single sectorCount t).2
  | 0, _, h => h
  | sectorCount + 1, t, h => by
    rw [Card.writeLoop]
    refine .ite (((h.ask _).ask _).ask _) (.ite ((((((h.ask _).ask _).ask _).ask _).ask _).ask _) (.ite ?_ ?_))
    · exact ((((((h.ask _).ask _).ask _).ask _).ask _).ask _).ask _
    · exact Within.writeLoop single sectorCount (((((((h.ask _).ask _).ask _).ask _).ask _).ask _).ask _)

theorem Within.writeCommands (sector numSectors : UInt32) {s t : Driver σ} (h : Within s t) :
    Within s (writeCommands b sector numSectors t).2 := by
  have hacmd : Within s
      (if t.cardType ≠ CARDTYPE_MMC then t.ask b (.command CMD55 0) else (0, t)).2 := .ite (h.ask _) h
  exact .ite (h.ask _) (.ite hacmd (.ite (hacmd.ask _) ((hacmd.ask _).ask _)))

/-! ### A transfer -/

variable (b)

/-- What a transfer leaves: nothing is selected, it was selected for this call, and it has returned. -/
structure Transferred (c : Call) (s t : Driver σ) : Prop where
  selected : t.selected = false
  fileSelected : t.fileSelected = false
  mode : t.writeStateActive = s.writeStateActive
  events : ∃ log, t.log = s.log ++ log ∧ transfers log = [c] ∧ Deselected log

variable {b}

theorem transfers_ask (qs : List Query) : transfers (qs.map .ask) = [] := by
  rw [transfers, List.filterMap_map, List.filterMap_eq_nil_iff]
  exact fun _ _ => rfl

theorem Within.leave {c : Call} {s t : Driver σ} (h : Within (s.enableCard c) t) (hio : s.fileSelected = false)
    (code : UInt32) : Transferred c s (t.leave b code).2 := by
  obtain ⟨qs, hqs⟩ := (h.ask (b := b) (.rSPI 0xFF)).asked
  refine ⟨rfl, h.fileSelected.trans hio, h.mode, .select c :: (qs.map .ask ++ [.ret false false]), ?_, ?_, ?_⟩
  · show ((t.ask b (.rSPI 0xFF)).2).log ++ [.ret false t.fileSelected] = _
    rw [hqs, h.fileSelected, show (s.enableCard c).fileSelected = false from hio]
    show s.log ++ [.select c] ++ _ ++ _ = _
    rw [List.append_assoc, List.append_assoc, List.singleton_append]
  · show c :: transfers (qs.map .ask ++ [.ret false false]) = [c]
    rw [transfers_append, transfers_ask]
    rfl
  · intro card fileSelected hmem
    rcases List.mem_append.mp ((List.mem_cons.mp hmem).resolve_left fun hf => nomatch hf) with hmem | hmem
    · obtain ⟨q, -, hq⟩ := List.mem_map.mp hmem
      cases hq
    · cases List.mem_singleton.mp hmem
      exact ⟨rfl, rfl⟩

theorem Transferred.ite {p : Prop} [Decidable p] {c : Call} {s : Driver σ} {a b : UInt32 × Driver σ}
    (ha : Transferred c s a.2) (hb : Transferred c s b.2) : Transferred c s (if p then a else b).2 := by
  split
  · exact ha
  · exact hb

theorem readTransfer_transferred (direct : Bool) (sector numSectors : UInt32) {s : Driver σ}
    (hio : s.fileSelected = false) :
    Transferred (.read direct sector numSectors) s (readTransfer b direct sector numSectors s).2 := by
  have hready := (Within.refl (s.enableCard (.read direct sector numSectors))).ask (b := b) .waitXfer
  have hio' : (s.enableCard (.read direct sector numSectors)).fileSelected = false := hio
  have hloop := Within.readLoop (b := b) direct hio' numSectors.toNat (hready.ask (b := b)
    (.command (if numSectors = 1 then CMD17 else CMD18)
      (if s.cardType ≠ CARDTYPE_SDHC then sector <<< 9 else sector)))
  have hstop := Within.then (numSectors ≠ 1) (hloop.ask (b := b) .stop) hloop
  unfold readTransfer
  dsimp only
  refine .ite (hready.leave hio _) (.ite ((hready.ask _).leave hio _) (.ite (hloop.leave hio _) ?_))
  exact .ite (hstop.getStatus.leave hio _) (hstop.getStatus.leave hio _)

theorem writeTransfer_transferred (sector numSectors : UInt32) {s : Driver σ} (hio : s.fileSelected = false) :
    Transferred (.write sector numSectors) s (writeTransfer b sector numSectors s).2 := by
  have hready := (Within.refl (s.enableCard (.write sector numSectors))).ask (b := b) .waitXfer
  have hcommands := hready.writeCommands (b := b) sector numSectors
  have hloop := hcommands.writeLoop (b := b) (numSectors = 1) numSectors.toNat
  unfold writeTransfer
  dsimp only
  refine .ite (hready.leave hio _) (.ite (hcommands.leave hio _) (.ite (hloop.leave hio _) ?_))
  have hdone := ((hloop.ask (b := b) (.rSPI (if numSectors = 1 then 0xFF else 0xFD))).ask (b := b)
    (.rSPI 0xFF)).ask (b := b) .waitXfer
  exact .ite (hdone.leave hio _) (.ite (hdone.getStatus.leave hio _) (hdone.getStatus.leave hio _))

/-! ### The calls -/

/-- What calls leave. -/
structure Switched (mode : Bool) (cs : List Call) (s t : Driver σ) : Prop where
  selected : t.selected = false
  fileSelected : t.fileSelected = false
  mode : t.writeStateActive = mode
  events : ∃ log, t.log = s.log ++ log ∧ transfers log = cs ∧ Deselected log

theorem Switched.trans {m m' : Bool} {cs cs' : List Call} {s t u : Driver σ} (h : Switched m cs s t)
    (h' : Switched m' cs' t u) : Switched m' (cs ++ cs') s u := by
  obtain ⟨log, hlog, hcs, hout⟩ := h.events
  obtain ⟨log', hlog', hcs', hout'⟩ := h'.events
  exact ⟨h'.selected, h'.fileSelected, h'.mode, log ++ log', by rw [hlog', hlog, List.append_assoc],
    by rw [transfers_append, hcs, hcs'], deselected_append hout hout'⟩

theorem Transferred.switched {c : Call} {s s' t : Driver σ} (h : Transferred c s' t) (hlog : s'.log = s.log) :
    Switched s'.writeStateActive [c] s t :=
  ⟨h.selected, h.fileSelected, h.mode, hlog ▸ h.events⟩

/-- While the card is read, a read is only itself. -/
theorem cardReadM_reading (depth : ℕ) (direct : Bool) (sector numSectors : UInt32) {s : Driver σ}
    (h : s.writeStateActive = false) : cardReadM b (depth + 1) direct sector numSectors s =
      some (readTransfer b direct sector numSectors s) := by
  rw [cardReadM, h]
  rfl

/-- One call: it is entered at most once within itself. -/
theorem Call.run_switched (c : Call) {s : Driver σ} (hio : s.fileSelected = false) :
    ∃ r, c.run b 1 s = some r ∧
      Switched c.isWrite ((if c.isWrite ≠ s.writeStateActive then [dummyRead] else []) ++ [c]) s r.2 := by
  cases c with
  | read direct sector numSectors =>
    have hself := fun {t : Driver σ} => readTransfer_transferred (b := b) direct sector numSectors (s := t)
    cases hmode : s.writeStateActive with
    | false =>
      refine ⟨_, cardReadM_reading 1 direct sector numSectors hmode, ?_⟩
      have hs := (hself hio).switched rfl
      rw [hmode] at hs
      exact hs
    | true =>
      set s' : Driver σ := { s with writeStateActive := false } with hs'
      have hdummy := (readTransfer_transferred (b := b) false 0 1 (s := s') hio).switched (s := s) rfl
      refine ⟨readTransfer b direct sector numSectors (readTransfer b false 0 1 s').2, ?_, ?_⟩
      · rw [Call.run, cardReadM, hmode, if_pos rfl, ← hs', cardReadM_reading 0 false 0 1 rfl]
        rfl
      · have hnext := (hself hdummy.fileSelected).switched rfl
        rw [hdummy.mode] at hnext
        exact hdummy.trans hnext
  | write sector numSectors =>
    have hself := fun {t : Driver σ} => writeTransfer_transferred (b := b) sector numSectors (s := t)
    cases hmode : s.writeStateActive with
    | true =>
      refine ⟨writeTransfer b sector numSectors s, ?_, ?_⟩
      · rw [Call.run, cardWriteM, hmode]
        rfl
      · have hs := (hself hio).switched rfl
        rw [hmode] at hs
        exact hs
    | false =>
      have hdummy := (readTransfer_transferred (b := b) false 0 1 hio).switched rfl
      set t : Driver σ := { (readTransfer b false 0 1 s).2 with writeStateActive := true } with ht
      refine ⟨writeTransfer b sector numSectors t, ?_, ?_⟩
      · rw [Call.run, cardWriteM, hmode, if_pos rfl, cardTriggerFillRead, cardReadM_reading 0 false 0 1 hmode]
        rfl
      · exact hdummy.trans ((hself (t := t) hdummy.fileSelected).switched rfl)

theorem runCalls_switched : ∀ (cs : List Call) {s : Driver σ}, s.selected = false → s.fileSelected = false →
    ∃ t, runCalls b 1 cs s = some t ∧
      Switched ((cs.getLast?.map Call.isWrite).getD s.writeStateActive) (switched s.writeStateActive cs) s t
  | [], s, hcard, hio =>
    ⟨s, rfl, hcard, hio, rfl, [], (List.append_nil _).symm, rfl, fun _ _ h => absurd h List.not_mem_nil⟩
  | c :: cs, s, _, hio => by
    obtain ⟨r, hrun, hfirst⟩ := c.run_switched (b := b) hio
    obtain ⟨t, hruns, hrest⟩ := runCalls_switched cs hfirst.selected hfirst.fileSelected
    refine ⟨t, ?_, ?_⟩
    · rw [runCalls, hrun]
      exact hruns
    · rw [hfirst.mode] at hrest
      have hboth := hfirst.trans hrest
      rw [List.append_assoc, List.singleton_append] at hboth
      rw [switched, List.getLast?_cons, Option.map_some, Option.getD_some]
      cases hlast : cs.getLast? with
      | none =>
        rw [hlast] at hboth
        exact hboth
      | some c' =>
        rw [hlast] at hboth
        exact hboth

variable (b)

end Card
