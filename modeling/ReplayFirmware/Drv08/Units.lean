import ReplayFirmware.Drv08.Disk

/-! The hard disks of both channels over runs of commands.

    What a command does to its unit is said once, for each of the three kinds of commands. From that it
    follows for any run that the units do not disturb each other, and that each of them is a store of
    blocks: it holds what was written to it last, and a read delivers that. -/

namespace FileIO.Drv08
open FatFs

/-! ### One command on one unit -/

/-- A unit that can be read and written wherever it shows a block. -/
structure Workable (card : Card) (e : Extent) (d : Drive) : Prop where
  mounted : Mounted e d
  file : d.pDesc.format ≠ .MMC → d.fSource.err = false ∧ d.pDesc.imageSize ≤ d.fSource.readable ∧
    (d.writable = true → d.fSource.write = true)
  card : d.pDesc.format = .MMC → diskSize d.pDesc + d.pDesc.lba_offset.toNat ≤ card.limit ∧
    ∀ b, b < diskSize d.pDesc → card.fails (b + d.pDesc.lba_offset.toNat) = false

/-- The blocks of the card that a unit shows. -/
def Owns (d : Drive) (b : ℕ) : Prop :=
  d.pDesc.format = .MMC ∧ d.pDesc.lba_offset.toNat ≤ b ∧
    b < diskSize d.pDesc + d.pDesc.lba_offset.toNat

/-- The access that a command asks of its unit, if any. -/
def transfer (d : Drive) (tfr : TaskFile) (fifo : ℕ → UInt8) : Option (Store.Access (List UInt8)) :=
  let p := getParams tfr d.pDesc
  if tfr 7 = 0x20 ∨ tfr 7 = 0xC4 then some (.read p.lba.toNat p.sector_count.toNat)
  else if tfr 7 = 0x30 ∨ tfr 7 = 0xC5 then some (.write p.lba.toNat (brought fifo p.sector_count.toNat))
  else none

/-- It is one for blocks of the unit, the first of which has an entry in the index of a hardfile. -/
structure Aimed (d : Drive) (tfr : TaskFile) : Prop where
  inside : (getParams tfr d.pDesc).lba.toNat + (getParams tfr d.pDesc).sector_count.toNat
    ≤ diskSize d.pDesc
  index : d.pDesc.format ≠ .MMC → Indexed d.pDesc (lbaNaked d.pDesc (getParams tfr d.pDesc).lba)

/-- It is refused: a multiple command without a size, or a write to a protected unit, to a made-up block
    or to block 0 of the card. -/
def Refused (d : Drive) (spb : UInt16) (tfr : TaskFile) : Prop :=
  let lba := (getParams tfr d.pDesc).lba
  ((tfr 7 = 0xC4 ∨ tfr 7 = 0xC5) ∧ spb = 0) ∨ ((tfr 7 = 0x30 ∨ tfr 7 = 0xC5) ∧
    (d.writable = false ∨ (d.pDesc.format = .HDF_NAKED ∧ lba < d.pDesc.lba_offset) ∨
      (d.pDesc.format = .MMC ∧ d.pDesc.lba_offset = 0 ∧ lba = 0)))

/-- What is left of an access: nothing when it ends in an error. -/
def carried (outs : List FChOut) (a : Option (Store.Access (List UInt8))) :
    Option (Store.Access (List UInt8)) :=
  match outs.getLast? with
  | some (.stat s) => if s &&& statusErr ≠ 0 then none else a
  | _ => a

theorem carried_error {outs : List FChOut} (h : EndsInError outs) (a : Option (Store.Access (List UInt8))) :
    carried outs a = none := by
  obtain ⟨s, hs, herr⟩ := h
  rw [carried, hs]
  exact if_pos herr

theorem carried_done {outs : List FChOut} (h : ¬EndsInError outs)
    (a : Option (Store.Access (List UInt8))) : carried outs a = a := by
  rw [carried]
  split
  · next s hs => exact if_neg fun herr => h ⟨s, hs, herr⟩
  · rfl

/-- What a command does to its unit, to the card and to its core. -/
structure Stepped (card : Card) (e : Extent) (d : Drive) (tfr : TaskFile) (fifo : ℕ → UInt8)
    (done : Done) : Prop where
  same : SameUnit d done.drive
  multiple : done.drive.pDesc.sectors_per_block = multiple tfr d.pDesc.sectors_per_block
  mounted : Mounted e done.drive
  limit : done.card.sdhc = card.sdhc ∧ done.card.fails = card.fails
  others : ∀ b, ¬Owns d b → done.card.block b = card.block b
  shows : diskBlocks done.card done.drive
    = Store.behind (diskBlocks card d) (carried done.outs (transfer d tfr fifo)).toList
  refused : transfer d tfr fifo ≠ none → (EndsInError done.outs ↔ Refused d d.pDesc.sectors_per_block tfr)
  delivered : tfr 7 = 0x20 ∨ tfr 7 = 0xC4 → ¬EndsInError done.outs →
    Delivered card d (getParams tfr d.pDesc).lba.toNat (getParams tfr d.pDesc).sector_count.toNat done.outs

theorem diskSize_le {d : Drive} (hmmc : d.pDesc.format ≠ .MMC)
    (hoff : d.pDesc.format ≠ .HDF_NAKED → d.pDesc.lba_offset = 0) :
    diskSize d.pDesc = d.pDesc.lba_offset.toNat + d.pDesc.imageSize / 512 := by
  rw [diskSize]
  split
  · next hf => exact absurd hf hmmc
  · rfl
  · next hn =>
    rw [hoff hn]
    exact (Nat.zero_add _).symm

/-- Reads of a unit. -/
theorem Workable.reads {card : Card} {e : Extent} {d : Drive} {tfr : TaskFile} (h : Workable card e d)
    (ha : Aimed d tfr) : ReadsInside card d tfr where
  inside := ha.inside
  card hmmc := by
    obtain ⟨hlimit, hgood⟩ := h.card hmmc
    have hin := ha.inside
    exact ⟨by omega, fun k hk => hgood _ (by omega)⟩
  file hmmc := by
    obtain ⟨herr, hread, -⟩ := h.file hmmc
    obtain rfl := h.mounted.file_iff.mp hmmc
    have hsize := diskSize_le hmmc h.mounted.2.1
    have hin := ha.inside
    exact ⟨herr, by omega⟩
  index := ha.index

/-- A refused command leaves everything as it was. -/
theorem Stepped.refuse {card : Card} {e : Extent} {d : Drive} {tfr : TaskFile} (fifo : ℕ → UInt8)
    (hm : Mounted e d) (hset : tfr 7 ≠ 0xC6) (href : Refused d d.pDesc.sectors_per_block tfr)
    (outs : List FChOut) :
    Stepped card e d tfr fifo { card := card, drive := d, outs := outs ++ abort tfr } where
  same := SameUnit.refl d
  multiple := (if_neg hset).symm
  mounted := hm
  limit := ⟨rfl, rfl⟩
  others _ _ := rfl
  shows := by
    rw [carried_error (abort_endsInError tfr outs)]
    rfl
  refused _ := ⟨fun _ => href, fun _ => abort_endsInError tfr outs⟩
  delivered _ h := absurd (abort_endsInError tfr outs) h

theorem transfer_read {d : Drive} {tfr : TaskFile} (fifo : ℕ → UInt8) (h : tfr 7 = 0x20 ∨ tfr 7 = 0xC4) :
    transfer d tfr fifo = some (.read (getParams tfr d.pDesc).lba.toNat
      (getParams tfr d.pDesc).sector_count.toNat) := if_pos h

theorem transfer_write {d : Drive} {tfr : TaskFile} (fifo : ℕ → UInt8) (h : tfr 7 = 0x30 ∨ tfr 7 = 0xC5) :
    transfer d tfr fifo = some (.write (getParams tfr d.pDesc).lba.toNat
      (brought fifo (getParams tfr d.pDesc).sector_count.toNat)) := by
  rw [transfer, if_neg (by rcases h with h | h <;> rw [h] <;> decide), if_pos h]

theorem transfer_other {d : Drive} {tfr : TaskFile} (fifo : ℕ → UInt8)
    (hread : ¬(tfr 7 = 0x20 ∨ tfr 7 = 0xC4)) (hwrite : ¬(tfr 7 = 0x30 ∨ tfr 7 = 0xC5)) :
    transfer d tfr fifo = none := by
  rw [transfer, if_neg hread, if_neg hwrite]

/-- A read that has no size. -/
theorem refused_read {d : Drive} {spb : UInt16} {tfr : TaskFile} (h : tfr 7 = 0x20 ∨ tfr 7 = 0xC4) :
    Refused d spb tfr ↔ tfr 7 = 0xC4 ∧ spb = 0 := by
  rw [Refused]
  rcases h with h | h
  · rw [h]
    simp
  · rw [h]
    simp

/-- A write to a file that is in order is refused before anything is done. -/
theorem refused_write {d : Drive} {tfr : TaskFile} (h : tfr 7 = 0x30 ∨ tfr 7 = 0xC5)
    (herr : d.pDesc.format ≠ .MMC → d.fSource.err = false) :
    Refused d d.pDesc.sectors_per_block tfr ↔ WriteRefused d tfr := by
  have hread : tfr 7 ≠ 0xC4 := by rcases h with h | h <;> rw [h] <;> decide
  rw [Refused, WriteRefused]
  constructor
  · rintro (⟨hc, hz⟩ | ⟨-, hw | hn | hc⟩)
    · exact Or.inr (Or.inl ⟨hc.resolve_left hread, hz⟩)
    · exact Or.inl hw
    · exact Or.inr (Or.inr (Or.inl hn))
    · exact Or.inr (Or.inr (Or.inr (Or.inl hc)))
  · rintro (hw | ⟨hc, hz⟩ | hn | hc | ⟨hmmc, -, he, -⟩)
    · exact Or.inr ⟨h, Or.inl hw⟩
    · exact Or.inl ⟨Or.inr hc, hz⟩
    · exact Or.inr ⟨h, Or.inr (Or.inl hn)⟩
    · exact Or.inr ⟨h, Or.inr (Or.inr hc)⟩
    · rw [herr hmmc] at he
      cases he

/-- Then it is refused from where it is. -/
theorem ataWrite_unmoved (card : Card) (fifo : ℕ → UInt8) {d : Drive} {tfr : TaskFile}
    (hcmd : tfr 7 = 0x30 ∨ tfr 7 = 0xC5) (href : Refused d d.pDesc.sectors_per_block tfr) :
    ∃ outs, ataCommand card d tfr fifo = refuse card d tfr outs := by
  have hread : tfr 7 ≠ 0xC4 := by rcases hcmd with h | h <;> rw [h] <;> decide
  by_cases hw : d.writable = true
  · by_cases hspb : tfr 7 = 0xC5 ∧ d.pDesc.sectors_per_block = 0
    · rw [ataCommand_writeMultiple hspb.1, writeMultiple, hw, if_neg (by decide), if_pos hspb.2]
      exact ⟨_, rfl⟩
    · rw [ataCommand_write hcmd hw hspb, writeTransfer]
      rcases href with ⟨hc, hz⟩ | ⟨-, h | hlow | ⟨hmmc, hoff, hlba⟩⟩
      · exact absurd ⟨hc.resolve_left hread, hz⟩ hspb
      · rw [hw] at h
        cases h
      · -- the made-up blocks
        have hseek : hardFileSeek d (getParams tfr d.pDesc).lba = some (false, d) := by
          rw [hardFileSeek]
          simp only
          rw [if_neg (by rw [hlow.1]; decide), if_pos hlow]
        rw [hseek]
        exact ⟨_, rfl⟩
      · -- block 0 of the card
        have hseek : hardFileSeek d (getParams tfr d.pDesc).lba = some (true, d) := by
          rw [hardFileSeek]
          simp only
          rw [if_pos hmmc]
        rw [hseek]
        simp only
        rw [if_pos ⟨hlba, hmmc, hoff⟩]
        exact ⟨_, rfl⟩
  · have hw := Bool.eq_false_of_not_eq_true hw
    rcases hcmd with hc | hc
    · rw [ataCommand_writeSectors hc, writeSectors, hw, if_pos (by decide)]
      exact ⟨_, rfl⟩
    · rw [ataCommand_writeMultiple hc, writeMultiple, hw, if_pos (by decide)]
      exact ⟨_, rfl⟩

/-- A read in order. -/
theorem Workable.step_read {card : Card} {e : Extent} {d : Drive} {tfr : TaskFile} (fifo : ℕ → UInt8)
    (h : Workable card e d) (ha : Aimed d tfr) (hcmd : tfr 7 = 0x20 ∨ tfr 7 = 0xC4) :
    ∃ done, ataCommand card d tfr fifo = some done ∧ Stepped card e d tfr fifo done := by
  have hset : tfr 7 ≠ 0xC6 := by rcases hcmd with h | h <;> rw [h] <;> decide
  by_cases hspb : tfr 7 = 0xC4 ∧ d.pDesc.sectors_per_block = 0
  · refine ⟨_, ?_, Stepped.refuse fifo h.mounted hset ((refused_read hcmd).mpr hspb) []⟩
    rw [ataCommand_readMultiple hspb.1, readMultiple, if_pos hspb.2]
    rfl
  · obtain ⟨done, hdone, hcard, hm, hgood, hdel, hsame, hkept, hdata⟩ :=
      ataRead_shows fifo h.mounted (h.reads ha) hcmd hspb
    refine ⟨done, hdone, ?_⟩
    exact {
      same := hsame
      multiple := hkept.trans (if_neg hset).symm
      mounted := hm
      limit := by rw [hcard]; exact ⟨rfl, rfl⟩
      others := fun b _ => by rw [hcard]
      shows := by
        rw [carried_done hgood, transfer_read fifo hcmd]
        show _ = diskBlocks card d
        by_cases hmmc : d.pDesc.format = .MMC
        · exact diskBlocks_card hsame hmmc fun b _ => by rw [hcard]
        · exact diskBlocks_file card done.card hsame hmmc hdata
      refused := fun _ => ⟨fun hbad => absurd hbad hgood, fun href =>
        absurd ((refused_read hcmd).mp href) hspb⟩
      delivered := fun _ _ => hdel }

/-- A write in order. -/
theorem Workable.step_write {card : Card} {e : Extent} {d : Drive} {tfr : TaskFile} (fifo : ℕ → UInt8)
    (h : Workable card e d) (ha : Aimed d tfr) (hcmd : tfr 7 = 0x30 ∨ tfr 7 = 0xC5) :
    ∃ done, ataCommand card d tfr fifo = some done ∧ Stepped card e d tfr fifo done := by
  have hset : tfr 7 ≠ 0xC6 := by rcases hcmd with h | h <;> rw [h] <;> decide
  have hread : ¬(tfr 7 = 0x20 ∨ tfr 7 = 0xC4) := by rcases hcmd with h | h <;> rw [h] <;> decide
  have href := @refused_write d tfr hcmd fun hmmc => (h.file hmmc).1
  by_cases hbad : Refused d d.pDesc.sectors_per_block tfr
  · obtain ⟨outs, houts⟩ := ataWrite_unmoved card fifo hcmd hbad
    exact ⟨_, houts, Stepped.refuse fifo h.mounted hset hbad outs⟩
  · have hin := ha.inside
    have hnot : ¬WriteRefused d tfr := fun hw => hbad (href.mpr hw)
    have hruns := ataWrite_runs card fifo hcmd hnot
    simp only [WriteRefused, not_or] at hnot
    obtain ⟨hw, hspb, hlow, -, -⟩ := hnot
    have hw : d.writable = true := Bool.eq_true_of_not_eq_false hw
    by_cases hmmc : d.pDesc.format = .MMC
    · rw [if_pos (Or.inl hmmc)] at hruns
      obtain ⟨d', done, hdone, hr⟩ := hruns
      obtain ⟨hlimit, hgood⟩ := h.card hmmc
      obtain ⟨hdrive, hsdhc, hfails, hshows, hothers⟩ := hr.shows_card hmmc hspb hin hlimit hgood
      refine ⟨done, hdone, ?_⟩
      exact {
        same := by rw [hdrive]; exact SameUnit.refl d
        multiple := by rw [hdrive]; exact (if_neg hset).symm
        mounted := by rw [hdrive]; exact h.mounted
        limit := ⟨hsdhc, hfails⟩
        others := fun b hb => hothers b (by
          by_contra hno
          exact hb ⟨hmmc, by omega, by omega⟩)
        shows := by
          rw [carried_done hr.error, transfer_write fifo hcmd, hdrive]
          exact hshows
        refused := fun _ => ⟨fun he => absurd he hr.error, fun hb => absurd hb hbad⟩
        delivered := fun hc => absurd hc hread }
    · obtain ⟨herr, -, hopen⟩ := h.file hmmc
      have hm := h.mounted
      obtain rfl := hm.file_iff.mp hmmc
      -- the block is not one of those made up
      have hle : d.pDesc.lba_offset.toNat ≤ (getParams tfr d.pDesc).lba.toNat := by
        by_cases hnaked : d.pDesc.format = .HDF_NAKED
        · exact Nat.le_of_not_lt fun hlt => hlow ⟨hnaked, UInt32.lt_iff_toNat_lt.mpr hlt⟩
        · rw [hm.2.1 hnaked]
          exact Nat.zero_le _
      have hi := ha.index hmmc
      rw [lbaNaked, if_neg fun hlt => absurd (UInt32.lt_iff_toNat_lt.mp hlt) (Nat.not_lt.mpr hle)] at hi
      rw [if_pos (Or.inr hi)] at hruns
      obtain ⟨d', done, hdone, hr⟩ := hruns
      obtain ⟨hcard, hsame, hkept, hshows⟩ := hr.shows_file hm herr (hopen hw) hspb hle hin hi
      have hinside : Inside card d .file tfr := by
        have hsize := diskSize_le hmmc hm.2.1
        exact ⟨hle, by omega⟩
      refine ⟨done, hdone, ?_⟩
      exact {
        same := hsame
        multiple := hkept.trans (if_neg hset).symm
        mounted := (hr.confined_file hm hspb hinside hi).2
        limit := by rw [hcard]; exact ⟨rfl, rfl⟩
        others := fun b _ => by rw [hcard]
        shows := by
          rw [carried_done hr.error, transfer_write fifo hcmd, hcard]
          exact hshows
        refused := fun _ => ⟨fun he => absurd he hr.error, fun hb => absurd hb hbad⟩
        delivered := fun hc => absurd hc hread }

/-- Any command: it answers, and does to a workable unit what it should. -/
theorem Workable.step {card : Card} {e : Extent} {d : Drive} {tfr : TaskFile} (fifo : ℕ → UInt8)
    (h : Workable card e d) (ha : transfer d tfr fifo ≠ none → Aimed d tfr) :
    ∃ done, ataCommand card d tfr fifo = some done ∧ Stepped card e d tfr fifo done := by
  by_cases hread : tfr 7 = 0x20 ∨ tfr 7 = 0xC4
  · exact h.step_read fifo (ha (by rw [transfer_read fifo hread]; exact Option.some_ne_none _)) hread
  · by_cases hwrite : tfr 7 = 0x30 ∨ tfr 7 = 0xC5
    · exact h.step_write fifo (ha (by rw [transfer_write fifo hwrite]; exact Option.some_ne_none _)) hwrite
    · obtain ⟨done, hdone, hcard, hdrive⟩ := ataCommand_other card d fifo hread hwrite
      have hnone := @transfer_other d tfr fifo hread hwrite
      have hsame : SameUnit d done.drive := by
        rw [hdrive]
        exact ⟨rfl, rfl, rfl, rfl, rfl, rfl, rfl, rfl, rfl, rfl, rfl⟩
      refine ⟨done, hdone, ?_⟩
      exact {
        same := hsame
        multiple := by rw [hdrive]
        mounted := by rw [hdrive]; exact h.mounted.multiple _
        limit := by rw [hcard]; exact ⟨rfl, rfl⟩
        others := fun b _ => by rw [hcard]
        shows := by
          have hcarried : carried done.outs (transfer d tfr fifo) = none := by
            rw [hnone]
            by_cases hbad : EndsInError done.outs
            · exact carried_error hbad none
            · exact carried_done hbad none
          rw [hcarried]
          show _ = diskBlocks card d
          by_cases hmmc : d.pDesc.format = .MMC
          · exact diskBlocks_card hsame hmmc fun b _ => by rw [hcard]
          · exact diskBlocks_file card done.card hsame hmmc (by rw [hdrive])
        refused := fun hsome => absurd hnone hsome
        delivered := fun hc => absurd hc hread }

theorem SameUnit.imageSize {d d' : Drive} (h : SameUnit d d') : d'.pDesc.imageSize = d.pDesc.imageSize := by
  rw [Desc.imageSize, Desc.imageSize, h.file_size]

/-- It stays workable. -/
theorem Workable.kept {card card' : Card} {e : Extent} {d d' : Drive} (h : Workable card e d)
    (hs : SameUnit d d') (hm : Mounted e d') (hcard : card'.sdhc = card.sdhc ∧ card'.fails = card.fails) :
    Workable card' e d' where
  mounted := hm
  file hmmc := by
    rw [hs.format] at hmmc
    rw [hs.err, hs.readable, hs.write, hs.writable, hs.imageSize]
    exact h.file hmmc
  card hmmc := by
    rw [hs.format] at hmmc
    have hlimit : card'.limit = card.limit := by rw [Card.limit, Card.limit, hcard.1]
    rw [hs.diskSize, hs.lba_offset, hlimit, hcard.2]
    exact h.card hmmc

/-! ### Both channels -/

/-- A card, and the units of both channels. -/
structure Units where
  card : Card
  handle : Fin 2 → Fin 4 → Drive

/-- A command that the core of a channel gives: its task file, and what its FIFO then brings. -/
structure Command where
  ch : Fin 2
  tfr : TaskFile
  fifo : ℕ → UInt8

/-- The unit it is for. -/
def Command.place (c : Command) : Fin 2 × Fin 4 := (c.ch, unitOf c.tfr)

/-- A unit. -/
def Units.unit (s : Units) (k : Fin 2 × Fin 4) : Drive := s.handle k.1 k.2

/-- It is there. -/
def Units.inserted (s : Units) (k : Fin 2 × Fin 4) : Bool := getInserted (s.handle k.1) k.2

/-- `Drv08_ATA_Handle` for a command of one of the channels: what becomes of the units, and what its core
    is sent. -/
def ataStep (s : Units) (c : Command) : Option (Units × List FChOut) :=
  (ataHandle s.card (s.handle c.ch) c.tfr c.fifo).map fun r =>
    ({ card := r.1, handle := Function.update s.handle c.ch r.2.1 }, r.2.2)

/-- Commands, one after the other, and what was sent for each. -/
def ataRun (s : Units) : List Command → Option (Units × List (Command × List FChOut))
  | [] => some (s, [])
  | c :: cs => (ataStep s c).bind fun r => (ataRun r.1 cs).map fun r' => (r'.1, (c, r.2) :: r'.2)

/-- The units that are there can be used, and those on the card lie apart from each other. -/
structure Ready (e : Fin 2 × Fin 4 → Extent) (s : Units) : Prop where
  usable : ∀ k, s.inserted k = true → Workable s.card (e k) (s.unit k)
  apart : ∀ k k', k ≠ k' → s.inserted k = true → s.inserted k' = true → ∀ b,
    Owns (s.unit k) b → ¬Owns (s.unit k') b

/-- The units that are there show these blocks. -/
def Shows (D : Fin 2 × Fin 4 → List (List UInt8)) (s : Units) : Prop :=
  ∀ k, s.inserted k = true → diskBlocks s.card (s.unit k) = D k

/-- A command that transfers blocks is one for blocks of its unit. -/
def Aims (s : Units) (c : Command) : Prop :=
  s.inserted c.place = true → transfer (s.unit c.place) c.tfr c.fifo ≠ none →
    Aimed (s.unit c.place) c.tfr

/-- All units but the one of a command stay what they are, and that stays the same unit. -/
structure SameUnits (s s' : Units) : Prop where
  unit : ∀ k, SameUnit (s.unit k) (s'.unit k)
  card : s'.card.sdhc = s.card.sdhc ∧ s'.card.fails = s.card.fails

theorem SameUnits.refl (s : Units) : SameUnits s s := ⟨fun _ => SameUnit.refl _, rfl, rfl⟩

theorem SameUnits.trans {s s' s'' : Units} (h : SameUnits s s') (h' : SameUnits s' s'') : SameUnits s s'' :=
  ⟨fun k => (h.unit k).trans (h'.unit k), h'.card.1.trans h.card.1, h'.card.2.trans h.card.2⟩

theorem SameUnits.inserted {s s' : Units} (h : SameUnits s s') (k : Fin 2 × Fin 4) :
    s'.inserted k = s.inserted k := by
  rw [Units.inserted, Units.inserted, getInserted, getInserted]
  exact congrArg (fun status => decide (status &&& statInserted ≠ 0)) (h.unit k).status

theorem SameUnit.owns {d d' : Drive} (h : SameUnit d d') (b : ℕ) : Owns d' b ↔ Owns d b := by
  rw [Owns, Owns, h.format, h.lba_offset, h.diskSize]

theorem SameUnit.transfer {d d' : Drive} (h : SameUnit d d') (tfr : TaskFile) (fifo : ℕ → UInt8) :
    Drv08.transfer d' tfr fifo = Drv08.transfer d tfr fifo := by
  rw [Drv08.transfer, Drv08.transfer, h.getParams]

theorem SameUnit.aimed {d d' : Drive} (h : SameUnit d d') {tfr : TaskFile} (ha : Aimed d tfr) :
    Aimed d' tfr where
  inside := by
    rw [h.getParams, h.diskSize]
    exact ha.inside
  index hmmc := by
    rw [h.getParams, h.indexed, lbaNaked, h.lba_offset]
    rw [h.format] at hmmc
    exact ha.index hmmc

theorem SameUnit.refused {d d' : Drive} (h : SameUnit d d') (spb : UInt16) (tfr : TaskFile) :
    Refused d' spb tfr ↔ Refused d spb tfr := by
  rw [Refused, Refused, h.getParams, h.writable, h.format, h.lba_offset]

/-- The units with one of them replaced. -/
def Units.put (s : Units) (k : Fin 2 × Fin 4) (card : Card) (d : Drive) : Units :=
  { card := card, handle := Function.update s.handle k.1 (Function.update (s.handle k.1) k.2 d) }

@[simp] theorem Units.put_card (s : Units) (k : Fin 2 × Fin 4) (card : Card) (d : Drive) :
    (s.put k card d).card = card := rfl

@[simp] theorem Units.put_self (s : Units) (k : Fin 2 × Fin 4) (card : Card) (d : Drive) :
    (s.put k card d).unit k = d := by
  show Function.update s.handle k.1 (Function.update (s.handle k.1) k.2 d) k.1 k.2 = d
  rw [Function.update_self, Function.update_self]

theorem Units.put_ne (s : Units) {j k : Fin 2 × Fin 4} (h : j ≠ k) (card : Card) (d : Drive) :
    (s.put k card d).unit j = s.unit j := by
  obtain ⟨ch, n⟩ := j
  show Function.update s.handle k.1 (Function.update (s.handle k.1) k.2 d) ch n = s.handle ch n
  by_cases hch : ch = k.1
  · subst hch
    have hn : n ≠ k.2 := fun hn => h (Prod.ext rfl hn)
    rw [Function.update_self, Function.update_of_ne hn]
  · rw [Function.update_of_ne hch]

theorem ataStep_eq {s : Units} {c : Command} {done : Done} (hins : s.inserted c.place = true)
    (h : ataCommand s.card (s.unit c.place) c.tfr c.fifo = some done) :
    ataStep s c = some (s.put c.place done.card done.drive, done.outs) := by
  have hrun : ataHandle s.card (s.handle c.ch) c.tfr c.fifo
      = some (done.card, Function.update (s.handle c.ch) (unitOf c.tfr) done.drive, done.outs) :=
    ataHandle_eq hins h
  rw [ataStep, hrun]
  rfl

theorem ataStep_empty {s : Units} {c : Command} (hins : s.inserted c.place = false) :
    ataStep s c = some (s, abort c.tfr) := by
  have hno : getInserted (s.handle c.ch) (unitOf c.tfr) = false := hins
  rw [ataStep, ataHandle, hno, if_pos (by decide), Option.map_some, Function.update_eq_self]

theorem Aims.congr {s s' : Units} {c : Command} (h : SameUnits s s') (ha : Aims s c) : Aims s' c := by
  intro hins htransfer
  rw [h.inserted] at hins
  rw [(h.unit c.place).transfer] at htransfer
  exact (h.unit c.place).aimed (ha hins htransfer)

/-! ### Runs -/

/-- The accesses that a log of commands and answers comes to. -/
def made (s : Units) (log : List (Command × List FChOut)) :
    List ((Fin 2 × Fin 4) × Store.Access (List UInt8)) :=
  log.flatMap fun x =>
    (carried x.2 (transfer (s.unit x.1.place) x.1.tfr x.1.fifo)).toList.map (Prod.mk x.1.place)

/-- The size that READ and WRITE MULTIPLE have on a unit behind it. -/
def multipleBehind (s : Units) (k : Fin 2 × Fin 4) (log : List (Command × List FChOut)) : UInt16 :=
  log.foldl (fun spb x => if x.1.place = k then multiple x.1.tfr spb else spb)
    (s.unit k).pDesc.sectors_per_block

/-- What a command is answered behind a log: an error when there is no unit or the command is refused, and
    else, for a read, block by block what was written there last, or what the unit showed before. -/
structure Answered (D : Fin 2 × Fin 4 → List (List UInt8)) (s : Units)
    (log : List (Command × List FChOut)) (c : Command) (outs : List FChOut) : Prop where
  empty : s.inserted c.place = false → EndsInError outs
  refused : s.inserted c.place = true → transfer (s.unit c.place) c.tfr c.fifo ≠ none →
    (EndsInError outs ↔ Refused (s.unit c.place) (multipleBehind s c.place log) c.tfr)
  latest : s.inserted c.place = true → c.tfr 7 = 0x20 ∨ c.tfr 7 = 0xC4 → ¬EndsInError outs →
    (sent outs).length = 512 * (getParams c.tfr (s.unit c.place).pDesc).sector_count.toNat ∧
    ∀ j, j < (getParams c.tfr (s.unit c.place).pDesc).sector_count.toNat →
      some (((sent outs).drop (512 * j)).take 512)
        = (Store.lastPut ((getParams c.tfr (s.unit c.place).pDesc).lba.toNat + j)
            (Store.madeTo c.place (made s log))).or
          (D c.place)[(getParams c.tfr (s.unit c.place).pDesc).lba.toNat + j]?

/-- A log explains a run from `s` to `s'`. -/
structure RunsAs (e : Fin 2 × Fin 4 → Extent) (D : Fin 2 × Fin 4 → List (List UInt8)) (s : Units)
    (log : List (Command × List FChOut)) (s' : Units) : Prop where
  same : SameUnits s s'
  ready : Ready e s'
  shows : Shows (Store.allBehind D (made s log)) s'
  multiple : ∀ k, s.inserted k = true →
    (s'.unit k).pDesc.sectors_per_block = multipleBehind s k log
  fits : ∀ k, s.inserted k = true → ∀ a ∈ Store.madeTo k (made s log), a.Fits (D k).length
  answered : ∀ log₁ c outs log₂, log = log₁ ++ (c, outs) :: log₂ → Answered D s log₁ c outs

theorem made_snoc (s : Units) (log : List (Command × List FChOut)) (c : Command) (outs : List FChOut) :
    made s (log ++ [(c, outs)]) = made s log
      ++ (carried outs (transfer (s.unit c.place) c.tfr c.fifo)).toList.map (Prod.mk c.place) := by
  rw [made, List.flatMap_append, List.flatMap_singleton]
  rfl

theorem multipleBehind_snoc (s : Units) (k : Fin 2 × Fin 4) (log : List (Command × List FChOut))
    (c : Command) (outs : List FChOut) :
    multipleBehind s k (log ++ [(c, outs)])
      = if c.place = k then multiple c.tfr (multipleBehind s k log) else multipleBehind s k log := by
  rw [multipleBehind, List.foldl_append]
  rfl

theorem RunsAs.refl {e : Fin 2 × Fin 4 → Extent} {D : Fin 2 × Fin 4 → List (List UInt8)} {s : Units}
    (hr : Ready e s) (hs : Shows D s) : RunsAs e D s [] s where
  same := SameUnits.refl s
  ready := hr
  shows := hs
  multiple _ _ := rfl
  fits _ _ _ ha := absurd ha List.not_mem_nil
  answered _ _ _ _ h := by simp at h

theorem Shows.length {D : Fin 2 × Fin 4 → List (List UInt8)} {s : Units} (h : Shows D s)
    {k : Fin 2 × Fin 4} (hins : s.inserted k = true) : (D k).length = diskSize (s.unit k).pDesc := by
  rw [← h k hins, diskBlocks, List.length_map, List.length_range]

/-- A command on a unit leaves what the other units show. -/
theorem diskBlocks_others {card card' : Card} {d d' : Drive} (hothers : ∀ b, ¬Owns d b →
    card'.block b = card.block b) (hapart : ∀ b, Owns d' b → ¬Owns d b) :
    diskBlocks card' d' = diskBlocks card d' := by
  by_cases hmmc : d'.pDesc.format = .MMC
  · exact diskBlocks_card (SameUnit.refl d') hmmc fun b hb =>
      hothers _ (hapart _ ⟨hmmc, Nat.le_add_left _ _, Nat.add_lt_add_right hb _⟩)
  · exact diskBlocks_file card card' (SameUnit.refl d') hmmc rfl

/-- The access a command comes to, on the units that answer. -/
theorem transfer_fits {d : Drive} {tfr : TaskFile} {fifo : ℕ → UInt8} {outs : List FChOut}
    {a : Store.Access (List UInt8)} (h : a ∈ (carried outs (transfer d tfr fifo)).toList)
    (haim : transfer d tfr fifo ≠ none → Aimed d tfr) : a.Fits (diskSize d.pDesc) := by
  have hsome : transfer d tfr fifo = some a := by
    rw [Option.mem_toList] at h
    by_cases hbad : EndsInError outs
    · rw [carried_error hbad] at h
      cases h
    · rw [carried_done hbad] at h
      exact h
  have hin := (haim (by rw [hsome]; exact Option.some_ne_none a)).inside
  rw [Store.Access.Fits]
  by_cases hread : tfr 7 = 0x20 ∨ tfr 7 = 0xC4
  · rw [transfer_read fifo hread, Option.some.injEq] at hsome
    subst hsome
    exact hin
  · by_cases hwrite : tfr 7 = 0x30 ∨ tfr 7 = 0xC5
    · rw [transfer_write fifo hwrite, Option.some.injEq] at hsome
      subst hsome
      rw [Store.Access.start, Store.Access.size, brought, List.length_map, List.length_range]
      exact hin
    · rw [transfer_other fifo hread hwrite] at hsome
      cases hsome

/-- A workable unit answers as it should. -/
theorem Stepped.answered {e : Fin 2 × Fin 4 → Extent} {D : Fin 2 × Fin 4 → List (List UInt8)} {s s₁ : Units}
    {log : List (Command × List FChOut)} {c : Command} {done : Done} (h : RunsAs e D s log s₁)
    (hins : s.inserted c.place = true)
    (haim : transfer (s.unit c.place) c.tfr c.fifo ≠ none → Aimed (s.unit c.place) c.tfr)
    (hstep : Stepped s₁.card (e c.place) (s₁.unit c.place) c.tfr c.fifo done) :
    Answered D s log c done.outs where
  empty hno := by
    rw [hins] at hno
    cases hno
  refused _ hsome := by
    have href := hstep.refused (by rw [(h.same.unit c.place).transfer]; exact hsome)
    rw [(h.same.unit c.place).refused, h.multiple _ hins] at href
    exact href
  latest _ hread hgood := by
    have hdel := hstep.delivered hread hgood
    have hins₁ := (h.same.inserted c.place).trans hins
    have hin := (haim (by rw [transfer_read c.fifo hread]; exact Option.some_ne_none _)).inside
    rw [(h.same.unit c.place).getParams] at hdel
    refine ⟨hdel.length, fun j hj => ?_⟩
    rw [hdel.block j hj, ← Store.getElem?_behind (h.fits _ hins)]
    have hshows := h.shows c.place hins₁
    have hbehind : Store.behind (D c.place) (Store.madeTo c.place (made s log))
        = diskBlocks s₁.card (s₁.unit c.place) := hshows.symm
    rw [hbehind, diskBlocks, List.getElem?_map, (h.same.unit c.place).diskSize,
      List.getElem?_range (by omega), Option.map_some]

/-- One more command. -/
theorem RunsAs.snoc {e : Fin 2 × Fin 4 → Extent} {D : Fin 2 × Fin 4 → List (List UInt8)} {s s₁ : Units}
    {log : List (Command × List FChOut)} {c : Command} (h : RunsAs e D s log s₁) (hD : Shows D s)
    (haim : Aims s c) :
    ∃ s' outs, ataStep s₁ c = some (s', outs) ∧ RunsAs e D s (log ++ [(c, outs)]) s' := by
  -- the answers to the commands before stay what they are
  have hold : ∀ {outs : List FChOut}, Answered D s log c outs → ∀ log₁ c' outs' log₂,
      log ++ [(c, outs)] = log₁ ++ (c', outs') :: log₂ → Answered D s log₁ c' outs' := by
    intro outs hnew log₁ c' outs' log₂ heq
    rcases List.eq_nil_or_concat log₂ with rfl | ⟨log₂, x, rfl⟩
    · obtain ⟨rfl, hc⟩ := List.append_inj' heq rfl
      obtain ⟨rfl, rfl⟩ := Prod.mk.inj (List.singleton_inj.mp hc)
      exact hnew
    · rw [List.concat_eq_append, ← List.cons_append, ← List.append_assoc] at heq
      exact h.answered _ _ _ _ (List.append_inj' heq rfl).1
  by_cases hins : s.inserted c.place = true
  · have hins₁ := (h.same.inserted c.place).trans hins
    have hu := h.ready.usable c.place hins₁
    obtain ⟨done, hdone, hstep⟩ := hu.step c.fifo (haim.congr h.same hins₁)
    have hnew := hstep.answered h hins (haim hins)
    refine ⟨_, done.outs, ataStep_eq hins₁ hdone, ?_⟩
    set s' := s₁.put c.place done.card done.drive with hs'
    have hsame : SameUnits s₁ s' := by
      refine ⟨fun k => ?_, hstep.limit⟩
      by_cases hk : k = c.place
      · rw [hk, hs', Units.put_self]
        exact hstep.same
      · rw [hs', Units.put_ne _ hk]
        exact SameUnit.refl _
    have hcarried := congrArg (carried done.outs) ((h.same.unit c.place).transfer c.tfr c.fifo)
    exact {
      same := h.same.trans hsame
      ready := {
        usable := fun k hk => by
          rw [hsame.inserted] at hk
          refine (h.ready.usable k hk).kept (hsame.unit k) ?_ hstep.limit
          by_cases hkc : k = c.place
          · rw [hkc, hs', Units.put_self]
            exact hstep.mounted
          · rw [hs', Units.put_ne _ hkc]
            exact (h.ready.usable k hk).mounted
        apart := fun j k hjk hj hk b hb => by
          rw [hsame.inserted] at hj hk
          rw [(hsame.unit j).owns] at hb
          rw [(hsame.unit k).owns]
          exact h.ready.apart j k hjk hj hk b hb }
      shows := fun k hk => by
        rw [hsame.inserted] at hk
        rw [made_snoc, Store.allBehind_append, Store.allBehind, Store.madeTo_map, ← h.shows k hk]
        by_cases hkc : c.place = k
        · subst hkc
          rw [if_pos rfl, hs', Units.put_self, Units.put_card, hstep.shows, hcarried]
        · rw [if_neg hkc, hs', Units.put_ne _ (Ne.symm hkc), Units.put_card]
          exact diskBlocks_others hstep.others (h.ready.apart k c.place (Ne.symm hkc) hk hins₁)
      multiple := fun k hk => by
        rw [multipleBehind_snoc, ← h.multiple k hk]
        by_cases hkc : c.place = k
        · subst hkc
          rw [if_pos rfl, hs', Units.put_self, hstep.multiple]
        · rw [if_neg hkc, hs', Units.put_ne _ (Ne.symm hkc)]
      fits := fun k hk a ha => by
        rw [made_snoc, Store.madeTo_append, Store.madeTo_map] at ha
        rcases List.mem_append.mp ha with ha | ha
        · exact h.fits k hk a ha
        · by_cases hkc : c.place = k
          · subst hkc
            rw [if_pos rfl] at ha
            rw [hD.length hk]
            exact transfer_fits ha (haim hins)
          · rw [if_neg hkc] at ha
            exact absurd ha List.not_mem_nil
      answered := hold hnew }
  · have hno : s.inserted c.place = false := Bool.eq_false_of_not_eq_true hins
    have herr : EndsInError (abort c.tfr) := abort_endsInError c.tfr []
    have hmade : made s (log ++ [(c, abort c.tfr)]) = made s log := by
      rw [made_snoc, carried_error herr]
      exact List.append_nil _
    refine ⟨s₁, abort c.tfr, ataStep_empty ((h.same.inserted _).trans hno), ?_⟩
    exact {
      same := h.same
      ready := h.ready
      shows := by rw [hmade]; exact h.shows
      multiple := fun k hk => by
        rw [multipleBehind_snoc, if_neg fun hkc => hins (by rw [hkc]; exact hk)]
        exact h.multiple k hk
      fits := by rw [hmade]; exact h.fits
      answered := hold ⟨fun _ => herr, fun hyes => absurd hyes hins, fun hyes => absurd hyes hins⟩ }

theorem RunsAs.run {e : Fin 2 × Fin 4 → Extent} {D : Fin 2 × Fin 4 → List (List UInt8)} {s : Units}
    (hD : Shows D s) : ∀ (cs : List Command) {s₁ : Units} {log : List (Command × List FChOut)},
    RunsAs e D s log s₁ → (∀ c ∈ cs, Aims s c) →
      ∃ s' log', ataRun s₁ cs = some (s', log') ∧ log'.map Prod.fst = cs ∧ RunsAs e D s (log ++ log') s'
  | [], s₁, log, h, _ => ⟨s₁, [], rfl, rfl, by rw [List.append_nil]; exact h⟩
  | c :: cs, s₁, log, h, haim => by
    obtain ⟨hc, hcs⟩ := List.forall_mem_cons.mp haim
    obtain ⟨s₂, outs, hstep, h₂⟩ := h.snoc hD hc
    obtain ⟨s', log', hrun, hlog, h'⟩ := RunsAs.run hD cs h₂ hcs
    refine ⟨s', (c, outs) :: log', ?_, congrArg (c :: ·) hlog, ?_⟩
    · rw [ataRun, hstep, Option.bind_some, hrun]
      rfl
    · rw [List.append_assoc, List.singleton_append] at h'
      exact h'

attribute [local instance] twoChannels fourDrives in
/-- A hardfile on one of the channels, and the card as a whole on the other. -/
def blankUnits : Units :=
  { card := blankCard
    handle := fun ch n => if n = 0 then if ch = 0 then blankUnit else wholeUnit else { blankUnit with status := 0 } }

attribute [local instance] twoChannels in
/-- Both are written to and read. -/
def blankCommands : List Command :=
  [⟨0, secondBlock 0x30, fun _ => 0x41⟩, ⟨1, secondBlock 0x30, fun _ => 0x42⟩, ⟨0, secondBlock 0x20, fun _ => 0⟩,
    ⟨1, secondBlock 0x20, fun _ => 0⟩]

attribute [local instance] twoChannels fourDrives in
theorem blankUnits_cases : ∀ k : Fin 2 × Fin 4, blankUnits.inserted k = true → k = (0, 0) ∨ k = (1, 0) := by
  rintro ⟨ch, n⟩
  revert ch n
  decide

attribute [local instance] twoChannels in
/-- What the two are. -/
def blankExtent (k : Fin 2 × Fin 4) : Extent := if k.1 = 0 then .file else .wholeCard

theorem blankUnits_ready : Ready blankExtent blankUnits where
  usable k hk := by
    rcases blankUnits_cases k hk with rfl | rfl
    · exact ⟨blankUnit_mounted, fun _ => ⟨rfl, by decide, fun _ => rfl⟩, fun hmmc => absurd hmmc (by decide)⟩
    · exact ⟨wholeUnit_mounted, fun hmmc => absurd rfl hmmc, fun _ => ⟨by decide, fun _ _ => rfl⟩⟩
  apart j k hjk hj hk b hbj hbk := by
    rcases blankUnits_cases j hj with rfl | rfl
    · exact absurd hbj.1 (by decide)
    · rcases blankUnits_cases k hk with rfl | rfl
      · exact absurd hbk.1 (by decide)
      · exact hjk rfl

end FileIO.Drv08
