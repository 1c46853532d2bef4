import ReplayFirmware.FileIO.UefRun

/-! Two tapes at once.

    Every drive has its own file, but there is one record of a chunk for all of them. A request finds
    the record that the last request left, from whatever drive. The drives do not disturb each other
    as long as every request finds a record that is right for its own file. -/

namespace FileIO.Uef
open FatFs Drv02 Segments

/-- A channel and a drive of it. -/
abbrev Slot := Fin 2 × Fin 4

/-- The mounted tapes, and `s_ChunkData`. -/
structure Tapes where
  slots : Slot → Fch Desc
  chunk : ChunkInfo

/-- A read request to a drive. -/
structure TapeRead where
  slot : Slot
  addr : UInt32
  size : UInt16

section
variable (carrier : UInt16 → UInt32)

/-- A read request: what the drive is served, and the tapes after it. -/
def Tapes.request (fuel : ℕ) (junk : UInt8) (r : TapeRead) (st : Tapes) :
    Option (List FChOut × Tapes) :=
  let pDrive := st.slots r.slot
  (uefProcess carrier fuel junk pDrive.pDesc.file_size r.addr r.size ⟨pDrive.fSource, st.chunk⟩).map
    fun (outs, t) =>
      (outs, { slots := Function.update st.slots r.slot { pDrive with fSource := t.f }
               chunk := t.chunk })

/-- A run of read requests: what is served, with the drive it is served to. -/
def Tapes.run (fuel : ℕ) (junk : UInt8) : List TapeRead → Tapes → Option (List (Slot × List FChOut))
  | [], _ => some []
  | r :: rs, st =>
    match st.request carrier fuel junk r with
    | none => none
    | some (outs, st) => (Tapes.run fuel junk rs st).map ((r.slot, outs) :: ·)

/-- The drive is served in a run what it is served when it has the record for itself. -/
def ServedAlone (fuel : ℕ) (junk junk' : UInt8) (rs : List TapeRead) (st : Tapes) (chunk : ChunkInfo)
    (s : Slot) : Prop :=
  ∃ served, st.run carrier fuel junk rs = some served ∧
    Tapes.run carrier fuel junk' (rs.filter (·.slot = s)) { st with chunk := chunk }
      = some (served.filter (·.1 = s))

/-- Where a request starts to read. -/
def clampAddr (file_size addr : UInt32) : UInt32 := if file_size < addr then file_size else addr

/-- A request finds a record that is right for its file, and the file has the data of the bits it asks
    for. -/
structure FindsOwn (data : List UInt8) (r : TapeRead) (st : Tapes) : Prop where
  record : Recorded carrier data st.chunk
  present : ∀ pos ∈ bitPositions (clampAddr (st.slots r.slot).pDesc.file_size r.addr) r.size.toNat,
    (tapeBit carrier data pos.toNat).isSome = true

/-- Every request of a run does. -/
def Undisturbed (data : Slot → List UInt8) (fuel : ℕ) (junk : UInt8) : List TapeRead → Tapes → Prop
  | [], _ => True
  | r :: rs, st => FindsOwn carrier (data r.slot) r st ∧
      ∀ outs st', st.request carrier fuel junk r = some (outs, st') →
        Undisturbed data fuel junk rs st'

end

section
variable {carrier : UInt16 → UInt32}

theorem mem_bitPositions {addr : UInt32} {n : ℕ} {pos : UInt32} :
    pos ∈ bitPositions addr n ↔ ∃ k, k < n ∧ ∃ b, b < 8 ∧
      pos = (addr + k.toUInt32) <<< 3 + b.toUInt32 := by
  simp only [bitPositions, List.mem_flatMap, List.mem_map, List.mem_range, eq_comm]

/-- A part of a request asks for some of its bits. -/
theorem bitPositions_part {addr : UInt32} {m n N : ℕ} (h : m + n ≤ N) {pos : UInt32}
    (hpos : pos ∈ bitPositions (addr + m.toUInt32) n) : pos ∈ bitPositions addr N := by
  obtain ⟨k, hk, b, hb, rfl⟩ := mem_bitPositions.mp hpos
  refine mem_bitPositions.mpr ⟨m + k, by omega, b, hb, ?_⟩
  show _ = (addr + UInt32.ofNat (m + k)) <<< 3 + _
  rw [UInt32.ofNat_add, ← UInt32.add_assoc]

/-- Bits that the file has the data of are answered in one way. -/
theorem answers_unique {data : List UInt8} : ∀ {ps : List UInt32} {bits bits' : List UInt8},
    (∀ pos ∈ ps, (tapeBit carrier data pos.toNat).isSome = true) →
    List.Forall₂ (Answers carrier data) ps bits → List.Forall₂ (Answers carrier data) ps bits' →
    bits = bits'
  | _, _, _, _, .nil, .nil => rfl
  | pos :: _, _, _, hp, .cons h hs, .cons h' hs' => by
    obtain ⟨b, hb⟩ := Option.isSome_iff_exists.mp (hp pos List.mem_cons_self)
    rw [h.2 b hb, h'.2 b hb, answers_unique (fun p hp' => hp p (List.mem_cons_of_mem pos hp')) hs hs']

/-- Two tapes in step with the same file are served the same. -/
theorem uefLoop_agree {data : List UInt8} (hplay : Playable carrier data) {fuel : ℕ}
    (hfuel : data.length < fuel) (junk junk' : UInt8) {file_size : UInt32} :
    ∀ (n : ℕ) {addr : UInt32} {size : UInt16} {t t' : Tape}, addr ≤ file_size →
      (∀ pos ∈ bitPositions addr size.toNat, (tapeBit carrier data pos.toNat).isSome = true) →
      InStep carrier data t → InStep carrier data t' →
      ∃ outs t₁ t₁', uefLoop carrier fuel junk file_size n addr size t = some (outs, t₁) ∧
        uefLoop carrier fuel junk' file_size n addr size t' = some (outs, t₁') ∧
        InStep carrier data t₁ ∧ InStep carrier data t₁'
  | 0, _, _, t, t', _, _, h, h' => ⟨_, t, t', rfl, rfl, h, h'⟩
  | n + 1, addr, size, t, t', hle, hpos, h, h' => by
    rw [uefLoop, uefLoop]
    by_cases h0 : size = 0
    · rw [if_pos h0, if_pos h0]
      exact ⟨_, t, t', rfl, rfl, h, h'⟩
    · rw [if_neg h0, if_neg h0]
      simp only
      set cur_size : UInt16 := if size > 512 then 512 else size with hcur
      set act_size : UInt32 := if file_size < addr + cur_size.toUInt32 then file_size - addr
        else cur_size.toUInt32 with hact
      have hcurle : cur_size.toNat ≤ size.toNat ∧ cur_size.toNat ≤ 512 := by
        rw [hcur]
        split
        · next hbig =>
          have := UInt16.lt_iff_toNat_lt.mp hbig
          rw [show (512 : UInt16).toNat = 512 by decide] at this ⊢
          omega
        · next hbig =>
          have := UInt16.le_iff_toNat_le.mp (UInt16.not_lt.mp hbig)
          rw [show (512 : UInt16).toNat = 512 by decide] at this
          omega
      have hle' := UInt32.le_iff_toNat_le.mp hle
      have hsum : (addr + cur_size.toUInt32).toNat = (addr.toNat + cur_size.toNat) % 2 ^ 32 := by
        rw [UInt32.toNat_add, UInt16.toNat_toUInt32]
      have hlt := file_size.toNat_lt
      have hactle : act_size.toNat ≤ cur_size.toNat := by
        rw [hact]
        split
        · next hend =>
          have hend := UInt32.lt_iff_toNat_lt.mp hend
          rw [UInt32.toNat_sub_of_le _ _ hle]
          omega
        · rw [UInt16.toNat_toUInt32]
      have hpart : ∀ pos ∈ bitPositions addr act_size.toNat,
          (tapeBit carrier data pos.toNat).isSome = true := by
        intro pos hp
        refine hpos pos (bitPositions_part (m := 0) (n := act_size.toNat) (by omega) ?_)
        rw [show addr + (0 : ℕ).toUInt32 = addr from UInt32.add_zero addr]
        exact hp
      obtain ⟨bits, t₁, hrun, h₁, hbits⟩ := getBits_answers hplay hfuel junk
        (bitPositions addr act_size.toNat) h
      obtain ⟨bits', t₁', hrun', h₁', hbits'⟩ := getBits_answers hplay hfuel junk'
        (bitPositions addr act_size.toNat) h'
      obtain rfl := answers_unique hpart hbits hbits'
      rw [hrun, hrun']
      simp only
      by_cases hcut : act_size ≠ cur_size.toUInt32
      · rw [if_pos hcut, if_pos hcut]
        exact ⟨_, t₁, t₁', rfl, rfl, h₁, h₁'⟩
      · rw [if_neg hcut, if_neg hcut]
        have hnext : addr + cur_size.toUInt32 ≤ file_size := by
          by_contra hno
          have hend := UInt32.not_le.mp hno
          have hend' := UInt32.lt_iff_toNat_lt.mp hend
          refine hcut fun heq => ?_
          rw [hact, if_pos hend] at heq
          have hnat := congrArg UInt32.toNat heq
          rw [UInt32.toNat_sub_of_le _ _ hle, UInt16.toNat_toUInt32] at hnat
          omega
        have hrest : ∀ pos ∈ bitPositions (addr + cur_size.toUInt32) (size - cur_size).toNat,
            (tapeBit carrier data pos.toNat).isSome = true := by
          intro pos hp
          refine hpos pos (bitPositions_part (m := cur_size.toNat) (n := (size - cur_size).toNat) ?_ ?_)
          · rw [UInt16.toNat_sub_of_le _ _ (UInt16.le_iff_toNat_le.mpr hcurle.1)]
            omega
          · have hlt := cur_size.toNat_lt
            have hcast : cur_size.toNat.toUInt32 = cur_size.toUInt32 := UInt32.toNat_inj.mp (by
              rw [UInt16.toNat_toUInt32, Nat.toUInt32_eq, UInt32.toNat_ofNat']
              omega)
            rw [hcast]
            exact hp
        obtain ⟨outs, t₂, t₂', hl, hl', h₂, h₂'⟩ := uefLoop_agree hplay hfuel junk junk' n hnext hrest
          h₁ h₁'
        rw [hl, hl']
        exact ⟨_, t₂, t₂', rfl, rfl, h₂, h₂'⟩

theorem uefProcess_agree {data : List UInt8} (hplay : Playable carrier data) {fuel : ℕ}
    (hfuel : data.length < fuel) (junk junk' : UInt8) {file_size addr : UInt32} {size : UInt16}
    (t t' : Tape) (hpos : ∀ pos ∈ bitPositions (clampAddr file_size addr) size.toNat,
      (tapeBit carrier data pos.toNat).isSome = true)
    (h : InStep carrier data t) (h' : InStep carrier data t') :
    ∃ outs t₁ t₁', uefProcess carrier fuel junk file_size addr size t = some (outs, t₁) ∧
      uefProcess carrier fuel junk' file_size addr size t' = some (outs, t₁') ∧
      InStep carrier data t₁ ∧ InStep carrier data t₁' := by
  have hle : clampAddr file_size addr ≤ file_size := by
    rw [clampAddr]
    split
    · exact UInt32.le_refl _
    · next hlt => exact UInt32.not_lt.mp hlt
  exact uefLoop_agree hplay hfuel junk junk' _ hle hpos h h'

/-- The files of the drives that are asked. -/
def Mounted (carrier : UInt16 → UInt32) (data : Slot → List UInt8) (fuel : ℕ) (rs : List TapeRead)
    (slots : Slot → Fch Desc) : Prop :=
  ∀ r ∈ rs, Playable carrier (data r.slot) ∧ (data r.slot).length < fuel ∧
    Holds (data r.slot) (tapeEnd carrier (data r.slot)) (slots r.slot).fSource

/-- A request leaves the files in place. -/
theorem Mounted.update {data : Slot → List UInt8} {fuel : ℕ} {r : TapeRead} {rs : List TapeRead}
    {slots : Slot → Fch Desc} (h : Mounted carrier data fuel (r :: rs) slots) {s : Slot} {f : FIL}
    (hf : Holds (data s) (tapeEnd carrier (data s)) f) :
    Mounted carrier data fuel rs (Function.update slots s { slots s with fSource := f }) := by
  intro r' hr'
  obtain ⟨hplay, hfuel, hholds⟩ := h r' (List.mem_cons_of_mem r hr')
  refine ⟨hplay, hfuel, ?_⟩
  by_cases hs : r'.slot = s
  · subst hs
    rw [Function.update_self]
    exact hf
  · rw [Function.update_of_ne hs]
    exact hholds

/-- The two runs go on side by side: a drive has the same unit in both but for the position of its
    file, and alone it is in step. -/
theorem run_servedAlone {data : Slot → List UInt8} {fuel : ℕ} {junk : UInt8} (junk' : UInt8)
    {s : Slot} : ∀ (rs : List TapeRead) (st st' : Tapes), Mounted carrier data fuel rs st.slots →
      Mounted carrier data fuel rs st'.slots →
      (∀ s', (st'.slots s').pDesc.file_size = (st.slots s').pDesc.file_size) →
      Recorded carrier (data s) st'.chunk → Undisturbed carrier data fuel junk rs st →
      ∃ served, st.run carrier fuel junk rs = some served ∧
        st'.run carrier fuel junk' (rs.filter (·.slot = s)) = some (served.filter (·.1 = s))
  | [], _, _, _, _, _, _, _ => ⟨[], rfl, rfl⟩
  | r :: rs, st, st', hm, hm', hsize, hrec, ⟨hfinds, hrest⟩ => by
    obtain ⟨hplay, hfuel, hholds⟩ := hm r List.mem_cons_self
    obtain ⟨-, -, hholds'⟩ := hm' r List.mem_cons_self
    by_cases hs : r.slot = s
    · -- the drive itself
      subst hs
      obtain ⟨outs, t₁, t₁', hrun, hrun', h₁, h₁'⟩ := uefProcess_agree hplay hfuel junk junk'
        ⟨(st.slots r.slot).fSource, st.chunk⟩ ⟨(st'.slots r.slot).fSource, st'.chunk⟩
        hfinds.present ⟨hholds, hfinds.record⟩ ⟨hholds', hrec⟩
      have hreq : st.request carrier fuel junk r = some (outs,
          { slots := Function.update st.slots r.slot { st.slots r.slot with fSource := t₁.f }
            chunk := t₁.chunk }) := by
        rw [Tapes.request, hrun]
        rfl
      have hreq' : st'.request carrier fuel junk' r = some (outs,
          { slots := Function.update st'.slots r.slot { st'.slots r.slot with fSource := t₁'.f }
            chunk := t₁'.chunk }) := by
        rw [Tapes.request, hsize, hrun']
        rfl
      obtain ⟨served, hserved, halone⟩ := run_servedAlone junk' rs
        { slots := Function.update st.slots r.slot { st.slots r.slot with fSource := t₁.f }
          chunk := t₁.chunk }
        { slots := Function.update st'.slots r.slot { st'.slots r.slot with fSource := t₁'.f }
          chunk := t₁'.chunk }
        (hm.update h₁.holds) (hm'.update h₁'.holds) (fun s' => by
          by_cases hs' : s' = r.slot
          · subst hs'
            simp only [Function.update_self]
            exact hsize r.slot
          · simp only [Function.update_of_ne hs']
            exact hsize s') h₁'.record (hrest _ _ hreq)
      refine ⟨(r.slot, outs) :: served, ?_, ?_⟩
      · rw [Tapes.run, hreq]
        simp only
        rw [hserved]
        rfl
      · rw [List.filter_cons_of_pos (by simp only [decide_true]), Tapes.run, hreq',
          List.filter_cons_of_pos (by simp only [decide_true])]
        simp only
        rw [halone]
        rfl
    · -- another drive: alone nothing happens
      obtain ⟨outs, t₁, -, hrun, -, h₁, -⟩ := uefProcess_agree hplay hfuel junk junk
        ⟨(st.slots r.slot).fSource, st.chunk⟩ ⟨(st.slots r.slot).fSource, st.chunk⟩
        hfinds.present ⟨hholds, hfinds.record⟩ ⟨hholds, hfinds.record⟩
      have hreq : st.request carrier fuel junk r = some (outs,
          { slots := Function.update st.slots r.slot { st.slots r.slot with fSource := t₁.f }
            chunk := t₁.chunk }) := by
        rw [Tapes.request, hrun]
        rfl
      obtain ⟨served, hserved, halone⟩ := run_servedAlone junk' rs
        { slots := Function.update st.slots r.slot { st.slots r.slot with fSource := t₁.f }
          chunk := t₁.chunk } st'
        (hm.update h₁.holds) (fun r' hr' => hm' r' (List.mem_cons_of_mem r hr')) (fun s' => by
          by_cases hs' : s' = r.slot
          · subst hs'
            simp only [Function.update_self]
            exact hsize r.slot
          · simp only [Function.update_of_ne hs']
            exact hsize s') hrec (hrest _ _ hreq)
      refine ⟨(r.slot, outs) :: served, ?_, ?_⟩
      · rw [Tapes.run, hreq]
        simp only
        rw [hserved]
        rfl
      · rw [List.filter_cons_of_neg (by simpa only [decide_eq_true_eq] using hs),
          List.filter_cons_of_neg (by simpa only [decide_eq_true_eq] using hs)]
        exact halone

end

/-! ### A tone and a gap -/

/-- A tape of one tone or one gap of 8 milliseconds. -/
def chunkTape (id : UInt8) : File :=
  { data := uefHeader ++ [id, 0x01, 2, 0, 0, 0, 8, 0], slack := fun _ => 0, cap := 512, csize := 512
    readable := 512
    size_le := by
      rw [List.length_append]
      exact (by decide : 12 + 8 ≤ 512)
    csize_pos := sector_pos }

/-- It is inserted into a drive. -/
def insertTape (id drive_number : UInt8) : Option (Fch Desc × ChunkInfo × List FChOut) :=
  insertInit carrierBits 30 drive_number statInserted (f_open (chunkTape id) false) (strBytes "UEF")

attribute [local instance] twoChannels fourDrives in
/-- A tone in drive 0, then a gap in drive 1 of channel 0. -/
def toneAndGap : Option Tapes :=
  match insertTape 0x10 0, insertTape 0x12 1 with
  | some (d, _, _), some (d', chunk, _) =>
    some { slots := fun s => if s = (0, 0) then d else d', chunk := chunk }
  | _, _ => none

attribute [local instance] twoChannels fourDrives in
/-- The first byte of each. -/
def firstBytes : List TapeRead := [⟨(0, 0), 0, 1⟩, ⟨(0, 1), 0, 1⟩]

/-- Gaps in all drives. -/
def gapTapes : Tapes :=
  { slots := fun _ =>
      { status := statInserted, fSource := f_open (chunkTape 0x12) false
        pDesc := { format := .UEF, file_size := 1 } }
    chunk := .zero }

end FileIO.Uef
