import ReplayFirmware.Drv08.Address
import ReplayFirmware.Drv08.Read
import ReplayFirmware.Drv08.Write

/-! The task file behind a transfer.

    The four transfer commands move the parameters on and write them back at different moments. A
    transfer that has counted `m` blocks from block `a` on has come to block `a + (m - 1)`, and when a
    command is done the address registers are the encoding of its last block. -/

namespace FileIO.Drv08
open FatFs

/-! ### What moves the parameters -/

/-- Two descriptors with one geometry. -/
structure SameGeometry (pDesc pDesc' : Desc) : Prop where
  heads : pDesc'.heads = pDesc.heads
  sectors : pDesc'.sectors = pDesc.sectors
  sectors_per_block : pDesc'.sectors_per_block = pDesc.sectors_per_block

theorem SameGeometry.refl (pDesc : Desc) : SameGeometry pDesc pDesc := ⟨rfl, rfl, rfl⟩

theorem SameGeometry.incParams_eq {pDesc pDesc' : Desc} (h : SameGeometry pDesc pDesc') (p : Params) :
    incParams pDesc' p = incParams pDesc p := by
  simp only [incParams, h.heads, h.sectors]

/-- The transfer has counted `m` blocks from block `a` on. -/
structure Counted (pDesc : Desc) (tfr : TaskFile) (a m : ℕ) (x : Xfer) : Prop where
  geometry : SameGeometry pDesc x.drive.pDesc
  first : x.first = decide (m = 0)
  p : x.p.Denotes pDesc tfr (a + (m - 1))

/-- The registers are the encoding of the block that was counted last. -/
def Shown (pDesc : Desc) (tfr : TaskFile) (a m : ℕ) (x : Xfer) : Prop :=
  addressRegs (registers tfr x.outs) = encode pDesc tfr (a + (m - 1))

section
variable {pDesc : Desc} {tfr : TaskFile} {a : ℕ}

/-- The parameters of a burst, behind the first block. -/
theorem burstParams_denotes {pDesc' : Desc} (hg : Geometric pDesc) (hs : SameGeometry pDesc pDesc') :
    ∀ (n : ℕ) {b : ℕ} {p : Params}, p.Denotes pDesc tfr b → b + n < addressable pDesc tfr →
      (burstParams pDesc' n false p).Denotes pDesc tfr (b + n)
  | 0, _, _, h, _ => h
  | n + 1, b, p, h, hb => by
    have hstep : (nextParams pDesc' false p).Denotes pDesc tfr (b + 1) := by
      rw [nextParams, if_neg (by decide), hs.incParams_eq]
      exact h.inc hg (by omega)
    have hrest := burstParams_denotes hg hs n hstep (by omega)
    rw [burstParams]
    rwa [show b + (n + 1) = b + 1 + n by omega]

theorem Counted.count {m : ℕ} {x : Xfer} (hg : Geometric pDesc) (h : Counted pDesc tfr a m x) (n : ℕ)
    (hb : a + (m + n) ≤ addressable pDesc tfr) (hpos : 0 < m + n) :
    Counted pDesc tfr a (m + n) (x.count n) := by
  obtain ⟨hs, hf, hp⟩ := h
  refine ⟨hs, ?_, ?_⟩
  · show (x.first && decide (n = 0)) = _
    rw [hf, ← Bool.decide_and]
    exact decide_eq_decide.mpr (by omega)
  · show (burstParams x.drive.pDesc n x.first x.p).Denotes pDesc tfr _
    rw [hf]
    rcases Nat.eq_zero_or_pos m with rfl | hm
    · -- the first block of the command is where it starts
      obtain ⟨k, rfl⟩ : ∃ k, n = k + 1 := ⟨n - 1, by omega⟩
      rw [decide_eq_true rfl, burstParams, nextParams, if_pos rfl]
      have hrest := burstParams_denotes hg hs k hp (by omega)
      rwa [show a + (0 + (k + 1) - 1) = a + (0 - 1) + k by omega]
    · rw [decide_eq_false (by omega)]
      have hrest := burstParams_denotes hg hs n hp (by omega)
      rwa [show a + (m + n - 1) = a + (m - 1) + n by omega]

/-- What leaves the parameters and the geometry as they are. -/
theorem Counted.congr {m : ℕ} {x y : Xfer} (h : Counted pDesc tfr a m x)
    (hpDesc : y.drive.pDesc = x.drive.pDesc) (hf : y.first = x.first) (hp : y.p = x.p) :
    Counted pDesc tfr a m y :=
  ⟨by rw [hpDesc]; exact h.geometry, hf.trans h.first, by rw [hp]; exact h.p⟩

/-! ### What moves the registers -/

/-- Nothing goes to the command registers. -/
def Quiet (outs : List FChOut) : Prop := ∀ o ∈ outs, ∀ reg bytes, o ≠ .cmd reg bytes

theorem registers_quiet : ∀ {outs : List FChOut} (t : TaskFile), Quiet outs → registers t outs = t
  | [], _, _ => rfl
  | out :: outs, t, h => by
    obtain ⟨hout, houts⟩ := List.forall_mem_cons.mp h
    have hrest : registers t outs = t := registers_quiet t houts
    cases out with
    | cmd reg bytes => exact absurd rfl (hout reg bytes)
    | stat _ => exact hrest
    | fifo _ _ => exact hrest
    | direct _ => exact hrest

/-- Something quiet is sent. -/
theorem Shown.quiet {m : ℕ} {x y : Xfer} {outs : List FChOut} (h : Shown pDesc tfr a m x)
    (ho : y.outs = x.outs ++ outs) (hq : Quiet outs) : Shown pDesc tfr a m y := by
  rw [Shown, ho, registers_append, registers_quiet _ hq]
  exact h

theorem encode_four (pDesc : Desc) (tfr : TaskFile) (b : ℕ) :
    ∃ r3 r4 r5 r6, encode pDesc tfr b = [r3, r4, r5, r6] := by
  unfold encode
  simp only
  split <;> exact ⟨_, _, _, _, rfl⟩

/-- The parameters are written back. -/
theorem Counted.shown {m : ℕ} {x : Xfer} (hg : Geometric pDesc) (h : Counted pDesc tfr a m x)
    (hb : a + (m - 1) < addressable pDesc tfr) : Shown pDesc tfr a m (x.send [updateParams tfr x.p]) := by
  show addressRegs (registers tfr (x.outs ++ [_])) = _
  rw [h.p.update hg hb, registers_append]
  obtain ⟨r3, r4, r5, r6, hregs⟩ := encode_four pDesc tfr (a + (m - 1))
  rw [hregs]
  rfl

/-- The blocks come without a word to the registers. -/
theorem sendBlocks_quiet (x : Xfer) (n : ℕ) :
    (∃ outs, (sendBlocks x n).2.outs = x.outs ++ outs ∧ Quiet outs) ∧
      (sendBlocks x n).2.drive.pDesc = x.drive.pDesc ∧ (sendBlocks x n).2.first = x.first ∧
      (sendBlocks x n).2.p = x.p := by
  unfold sendBlocks
  simp only
  split
  · refine ⟨⟨_, rfl, fun o ho reg bytes => ?_⟩, rfl, rfl, rfl⟩
    rw [List.mem_singleton.mp ho]
    exact FChOut.noConfusion
  · split
    · refine ⟨⟨_, rfl, fun o ho reg bytes => ?_⟩, rfl, rfl, rfl⟩
      obtain ⟨k, -, rfl⟩ := List.mem_map.mp ho
      exact FChOut.noConfusion
    · refine ⟨⟨_, rfl, fun o ho reg bytes => ?_⟩, rfl, rfl, rfl⟩
      rw [List.mem_singleton.mp ho]
      exact FChOut.noConfusion

/-- A burst leaves parameters and registers alone. -/
theorem readBurst_shown {m : ℕ} : ∀ (fuel n : ℕ) {x : Xfer}, Counted pDesc tfr a m x →
    Shown pDesc tfr a m x →
    Counted pDesc tfr a m (readBurst fuel n x) ∧ Shown pDesc tfr a m (readBurst fuel n x)
  | 0, _, _, hc, hs => ⟨hc, hs⟩
  | fuel + 1, n, x, hc, hs => by
    rw [readBurst]
    split
    · exact ⟨hc, hs⟩
    · obtain ⟨⟨outs, ho, hq⟩, h1, h2, h3⟩ := sendBlocks_quiet x (min n maxReadBurst)
      exact readBurst_shown fuel _ (hc.congr h1 h2 h3) (hs.quiet ho hq)

/-! ### The loops -/

/-- A store moves neither the parameters nor the registers. -/
theorem storeBlocks_counts (fifo : ℕ → UInt8) (x : Xfer) (n : ℕ) :
    (storeBlocks fifo x n).drive.pDesc = x.drive.pDesc ∧ (storeBlocks fifo x n).first = x.first ∧
      (storeBlocks fifo x n).p = x.p ∧ (storeBlocks fifo x n).outs = x.outs := by
  unfold storeBlocks
  simp only
  split <;> exact ⟨rfl, rfl, rfl, rfl⟩

/-- The bursts of a multiple command are not empty. -/
theorem Counted.burst_pos {m : ℕ} {x : Xfer} (hc : Counted pDesc tfr a m x)
    (hspb : pDesc.sectors_per_block ≠ 0) : 0 < x.drive.pDesc.sectors_per_block.toNat := by
  rw [hc.geometry.sectors_per_block]
  exact Nat.pos_of_ne_zero fun hz => hspb (UInt16.toNat_inj.mp hz)

theorem quiet_stats (ss : List UInt8) : Quiet (ss.map .stat) := by
  intro o ho reg bytes
  obtain ⟨s, -, rfl⟩ := List.mem_map.mp ho
  exact FChOut.noConfusion

/-- One block is counted and written back, but for the first one, which the registers hold already. -/
theorem Counted.step {m : ℕ} {x : Xfer} (hg : Geometric pDesc) (hc : Counted pDesc tfr a m x)
    (hs : Shown pDesc tfr a m x) (hb : a + (m + 1) ≤ addressable pDesc tfr) :
    let y := x.count 1
    let z := if x.first then y else y.send [updateParams tfr y.p]
    Counted pDesc tfr a (m + 1) z ∧ Shown pDesc tfr a (m + 1) z := by
  have hcount := hc.count hg 1 hb (Nat.succ_pos m)
  simp only
  rw [hc.first]
  by_cases hm : m = 0
  · subst hm
    exact ⟨hcount, hs⟩
  · rw [decide_eq_false hm, if_neg (by decide)]
    exact ⟨hcount.congr rfl rfl rfl, hcount.shown hg (by omega)⟩

theorem readSectorsLoop_shown (hg : Geometric pDesc) : ∀ (n : ℕ) {m : ℕ} {x : Xfer},
    a + (m + n) ≤ addressable pDesc tfr → Counted pDesc tfr a m x → Shown pDesc tfr a m x →
    Shown pDesc tfr a (m + n) (readSectorsLoop tfr n x)
  | 0, _, _, _, _, hs => hs
  | n + 1, m, x, hb, hc, hs => by
    have hsend : Shown pDesc tfr a m (x.send [.stat statusRdy, .stat statusIrq]) :=
      hs.quiet rfl (quiet_stats [statusRdy, statusIrq])
    obtain ⟨hc', hs'⟩ := Counted.step hg (hc.congr (y := x.send _) rfl rfl rfl) hsend (by omega)
    obtain ⟨⟨outs, ho, hq⟩, h1, h2, h3⟩ := sendBlocks_quiet _ 1
    have hrest := readSectorsLoop_shown hg n (by omega) (hc'.congr h1 h2 h3) (hs'.quiet ho hq)
    rw [show m + (n + 1) = m + 1 + n by omega]
    exact hrest

theorem readMultipleLoop_shown (hg : Geometric pDesc) (hspb : pDesc.sectors_per_block ≠ 0) :
    ∀ (fuel n : ℕ) {m : ℕ} {x : Xfer}, n ≤ fuel → a + (m + n) ≤ addressable pDesc tfr →
    Counted pDesc tfr a m x → Shown pDesc tfr a m x →
    Shown pDesc tfr a (m + n) (readMultipleLoop tfr fuel n x)
  | 0, n, _, _, hn, _, _, hs => by
    obtain rfl : n = 0 := Nat.le_zero.mp hn
    exact hs
  | fuel + 1, n, m, x, hn, hb, hc, hs => by
    rw [readMultipleLoop]
    by_cases h0 : n = 0
    · subst h0
      exact hs
    · rw [if_neg h0]
      have hpos := hc.burst_pos hspb
      set i := min n x.drive.pDesc.sectors_per_block.toNat with hi
      set y := (x.send [.stat statusIrq]).count i
      have hcount : Counted pDesc tfr a (m + i) y :=
        Counted.count hg (hc.congr (y := x.send _) rfl rfl rfl) i (by omega) (by omega)
      obtain ⟨hc', hs'⟩ := readBurst_shown (x := y.send [updateParams tfr y.p]) i i
        (hcount.congr rfl rfl rfl) (hcount.shown hg (by omega))
      have hrest := readMultipleLoop_shown hg hspb fuel (n - i) (by omega) (by omega) hc' hs'
      rw [show m + n = m + i + (n - i) by omega]
      exact hrest

theorem writeSectorsLoop_shown (hg : Geometric pDesc) (fifo : ℕ → UInt8) : ∀ (n : ℕ) {m : ℕ}
    {x : Xfer}, a + (m + n) ≤ addressable pDesc tfr → Counted pDesc tfr a m x →
    Shown pDesc tfr a m x → Shown pDesc tfr a (m + n) (writeSectorsLoop tfr fifo n x)
  | 0, _, _, _, _, hs => hs
  | n + 1, m, x, hb, hc, hs => by
    obtain ⟨hc', hs'⟩ := Counted.step hg hc hs (by omega)
    obtain ⟨h1, h2, h3, h4⟩ := storeBlocks_counts fifo (Xfer.send _ [release n]) 1
    have hrest := writeSectorsLoop_shown hg fifo n (by omega) (hc'.congr h1 h2 h3)
      (hs'.quiet h4 (quiet_stats [_]))
    rw [show m + (n + 1) = m + 1 + n by omega]
    exact hrest

/-- A burst of WRITE MULTIPLE counts its blocks behind each store. -/
theorem writeBurst_counted (hg : Geometric pDesc) (fifo : ℕ → UInt8) : ∀ (fuel n : ℕ) {m : ℕ}
    {x : Xfer}, n ≤ fuel → 0 < m + n → a + (m + n) ≤ addressable pDesc tfr →
    Counted pDesc tfr a m x → Counted pDesc tfr a (m + n) (writeBurst fifo fuel n x) ∧
      (writeBurst fifo fuel n x).outs = x.outs
  | 0, n, _, _, hn, _, _, hc => by
    obtain rfl : n = 0 := Nat.le_zero.mp hn
    exact ⟨hc, rfl⟩
  | fuel + 1, n, m, x, hn, hpos, hb, hc => by
    rw [writeBurst]
    by_cases h0 : n = 0
    · subst h0
      exact ⟨hc, rfl⟩
    · rw [if_neg h0]
      have hmax : 0 < maxNumBlocks := by decide
      set i := min n maxNumBlocks with hi
      obtain ⟨h1, h2, h3, h4⟩ := storeBlocks_counts fifo x i
      have hcount := (hc.congr h1 h2 h3).count hg i (by omega) (by omega)
      obtain ⟨hc', ho⟩ := writeBurst_counted hg fifo fuel (n - i) (by omega) (by omega) (by omega) hcount
      rw [show m + n = m + i + (n - i) by omega]
      exact ⟨hc', ho.trans h4⟩

theorem writeMultipleLoop_shown (hg : Geometric pDesc) (hspb : pDesc.sectors_per_block ≠ 0)
    (fifo : ℕ → UInt8) : ∀ (fuel n : ℕ) {m : ℕ} {x : Xfer}, n ≤ fuel →
    a + (m + n) ≤ addressable pDesc tfr → Counted pDesc tfr a m x → Shown pDesc tfr a m x →
    Shown pDesc tfr a (m + n) (writeMultipleLoop tfr fifo fuel n x)
  | 0, n, _, _, hn, _, _, hs => by
    obtain rfl : n = 0 := Nat.le_zero.mp hn
    exact hs
  | fuel + 1, n, m, x, hn, hb, hc, hs => by
    rw [writeMultipleLoop]
    by_cases h0 : n = 0
    · subst h0
      exact hs
    · rw [if_neg h0]
      have hpos := hc.burst_pos hspb
      set i := min n x.drive.pDesc.sectors_per_block.toNat with hi
      obtain ⟨hc', ho⟩ := writeBurst_counted hg fifo i i (le_refl i) (by omega) (by omega) hc
      set y := writeBurst fifo i i x
      have hshown := hc'.shown hg (by omega)
      have hs' : Shown pDesc tfr a (m + i) (y.send [updateParams tfr y.p, release (n - i)]) :=
        hshown.quiet (List.append_assoc y.outs [_] [release (n - i)]).symm (quiet_stats [_])
      have hrest := writeMultipleLoop_shown hg hspb fifo fuel (n - i) (by omega) (by omega)
        (hc'.congr (y := y.send _) rfl rfl rfl) hs'
      rw [show m + n = m + i + (n - i) by omega]
      exact hrest

end

/-! ### The commands -/

/-- A seek keeps the geometry. -/
theorem hardFileSeek_geometry {d d' : Drive} {lba : UInt32} {ok : Bool}
    (h : hardFileSeek d lba = some (ok, d')) : SameGeometry d.pDesc d'.pDesc := by
  unfold hardFileSeek at h
  simp only at h
  split at h
  · obtain ⟨-, rfl⟩ := Prod.mk.inj (Option.some.inj h)
    exact SameGeometry.refl _
  · split at h
    · obtain ⟨-, rfl⟩ := Prod.mk.inj (Option.some.inj h)
      exact SameGeometry.refl _
    · split at h
      · cases h
      · obtain ⟨-, rfl⟩ := Prod.mk.inj (Option.some.inj h)
        exact ⟨rfl, rfl, rfl⟩

/-- The blocks of a command, from the one its registers denote, all have an address. -/
structure Addressed (pDesc : Desc) (tfr : TaskFile) : Prop where
  start : StartsLegal pDesc tfr
  last : (getParams tfr pDesc).lba.toNat + (getParams tfr pDesc).sector_count.toNat
    ≤ addressable pDesc tfr

/-- The state a transfer starts in. -/
theorem startXfer_counted {d d' : Drive} {tfr : TaskFile} (hg : Geometric d.pDesc)
    (ha : Addressed d.pDesc tfr) (hs : SameGeometry d.pDesc d'.pDesc) (card : Card)
    {outs : List FChOut} (hq : Quiet outs) :
    let x := startXfer card d' (getParams tfr d.pDesc) outs
    Counted d.pDesc tfr (getParams tfr d.pDesc).lba.toNat 0 x ∧
      Shown d.pDesc tfr (getParams tfr d.pDesc).lba.toNat 0 x := by
  have hlt : (getParams tfr d.pDesc).lba.toNat < addressable d.pDesc tfr := by
    have := ha.last
    have := (getParams_count tfr d.pDesc).1
    omega
  refine ⟨⟨hs, rfl, denotes_start hg ha.start⟩, ?_⟩
  show addressRegs (registers tfr outs) = _
  rw [registers_quiet tfr hq]
  exact encode_start hg ha.start hlt

/-- A loop leaves the registers at the last of its blocks. -/
def LoopShows (pDesc : Desc) (tfr : TaskFile) (loop : ℕ → Xfer → Xfer) : Prop :=
  ∀ {n : ℕ} {x : Xfer}, (getParams tfr pDesc).lba.toNat + n ≤ addressable pDesc tfr →
    Counted pDesc tfr (getParams tfr pDesc).lba.toNat 0 x →
    Shown pDesc tfr (getParams tfr pDesc).lba.toNat 0 x →
    Shown pDesc tfr (getParams tfr pDesc).lba.toNat n (loop n x)

/-- The registers hold the last block of a command. -/
def ShowsLast (pDesc : Desc) (tfr : TaskFile) (outs : List FChOut) : Prop :=
  addressRegs (registers tfr outs) = encode pDesc tfr
    ((getParams tfr pDesc).lba.toNat + ((getParams tfr pDesc).sector_count.toNat - 1))

section
variable {card : Card} {d : Drive} {tfr : TaskFile} {done : Done}

theorem refuse_ends {d' : Drive} {outs : List FChOut} (h : refuse card d' tfr outs = some done) :
    EndsInError done.outs := by
  rw [← Option.some.inj h]
  exact abort_endsInError tfr outs

theorem readTransfer_shows {outs : List FChOut} {loop : ℕ → Xfer → Xfer} (hg : Geometric d.pDesc)
    (ha : Addressed d.pDesc tfr) (hq : Quiet outs) (hloop : LoopShows d.pDesc tfr loop)
    (h : readTransfer card d tfr outs loop = some done) (hok : ¬EndsInError done.outs) :
    ShowsLast d.pDesc tfr done.outs := by
  unfold readTransfer at h
  simp only at h
  split at h
  · cases h
  · exact absurd (refuse_ends h) hok
  · next d' hseek =>
    obtain ⟨hc, hs⟩ := startXfer_counted hg ha (hardFileSeek_geometry hseek) card hq
    rw [← Option.some.inj h]
    exact hloop ha.last hc hs

theorem writeTransfer_shows {loop : ℕ → Xfer → Xfer} (hg : Geometric d.pDesc)
    (ha : Addressed d.pDesc tfr) (hloop : LoopShows d.pDesc tfr loop)
    (h : writeTransfer card d tfr loop = some done) (hok : ¬EndsInError done.outs) :
    ShowsLast d.pDesc tfr done.outs := by
  unfold writeTransfer at h
  simp only at h
  split at h
  · cases h
  · exact absurd (refuse_ends h) hok
  · next d' hseek =>
    split at h
    · exact absurd (refuse_ends h) hok
    · obtain ⟨hc, hs⟩ := startXfer_counted hg ha (hardFileSeek_geometry hseek) card
        (quiet_stats [statusReq])
      rw [← Option.some.inj h]
      exact hloop ha.last hc hs

/-- A transfer command that is not refused leaves the registers at its last block. -/
theorem ataCommand_shows {fifo : ℕ → UInt8} (hg : Geometric d.pDesc) (ha : Addressed d.pDesc tfr)
    (hcmd : tfr 7 = 0x20 ∨ tfr 7 = 0xC4 ∨ tfr 7 = 0x30 ∨ tfr 7 = 0xC5)
    (h : ataCommand card d tfr fifo = some done) (hok : ¬EndsInError done.outs) :
    ShowsLast d.pDesc tfr done.outs := by
  rcases hcmd with hc | hc | hc | hc
  · rw [ataCommand_readSectors hc] at h
    refine readTransfer_shows hg ha (quiet_stats []) (fun {n x} hb hcount hshown => ?_) h hok
    have hloop := readSectorsLoop_shown hg n (by rwa [Nat.zero_add]) hcount hshown
    rwa [Nat.zero_add] at hloop
  · rw [ataCommand_readMultiple hc, readMultiple] at h
    split at h
    · exact absurd (refuse_ends h) hok
    · next hspb =>
      refine readTransfer_shows hg ha (quiet_stats [statusRdy]) (fun {n x} hb hcount hshown => ?_) h hok
      have hloop := readMultipleLoop_shown hg hspb n n (le_refl n) (by rwa [Nat.zero_add]) hcount hshown
      rwa [Nat.zero_add] at hloop
  · rw [ataCommand_writeSectors hc, writeSectors] at h
    split at h
    · exact absurd (refuse_ends h) hok
    · refine writeTransfer_shows hg ha (fun {n x} hb hcount hshown => ?_) h hok
      have hloop := writeSectorsLoop_shown hg fifo n (by rwa [Nat.zero_add]) hcount hshown
      rwa [Nat.zero_add] at hloop
  · rw [ataCommand_writeMultiple hc, writeMultiple] at h
    split at h
    · exact absurd (refuse_ends h) hok
    · split at h
      · exact absurd (refuse_ends h) hok
      · next hspb =>
        refine writeTransfer_shows hg ha (fun {n x} hb hcount hshown => ?_) h hok
        have hloop := writeMultipleLoop_shown hg hspb fifo n n (le_refl n) (by rwa [Nat.zero_add])
          hcount hshown
        rwa [Nat.zero_add] at hloop

end

/-- The parameters after `k` steps. -/
def stepped (pDesc : Desc) (tfr : TaskFile) (k : ℕ) : Params :=
  (incParams pDesc)^[k] (getParams tfr pDesc)

/-- As long as the blocks have an address, the parameters stay at them. -/
theorem stepped_denotes {pDesc : Desc} {tfr : TaskFile} (hg : Geometric pDesc)
    (hs : StartsLegal pDesc tfr) : ∀ {k : ℕ},
      (getParams tfr pDesc).lba.toNat + k < addressable pDesc tfr →
      (stepped pDesc tfr k).Denotes pDesc tfr ((getParams tfr pDesc).lba.toNat + k)
  | 0, _ => denotes_start hg hs
  | k + 1, hb => by
    rw [stepped, Function.iterate_succ_apply']
    exact (stepped_denotes hg hs (k := k) (by omega)).inc hg hb

/-- A transfer whose blocks all have an address leaves it at the last of them, and in cylinder, head
    and sector every step on the way keeps the address and the block number together. -/
theorem ataCommand_address {card : Card} {d : Drive} {tfr : TaskFile} {fifo : ℕ → UInt8} {done : Done}
    (hg : Geometric d.pDesc) (ha : Addressed d.pDesc tfr)
    (hcmd : tfr 7 = 0x20 ∨ tfr 7 = 0xC4 ∨ tfr 7 = 0x30 ∨ tfr 7 = 0xC5)
    (h : ataCommand card d tfr fifo = some done) (hok : ¬EndsInError done.outs) :
    let first := (getParams tfr d.pDesc).lba.toNat
    let n := (getParams tfr d.pDesc).sector_count.toNat
    addressRegs (registers tfr done.outs) = encode d.pDesc tfr (first + n - 1) ∧
      (getParams (registers tfr done.outs) d.pDesc).lba.toNat = first + n - 1 ∧
      (tfr 6 &&& 0x40 = 0 → ∀ k, k < n →
        (stepped d.pDesc tfr k).address.Legal d.pDesc.heads.toNat d.pDesc.sectors.toNat ∧
        (stepped d.pDesc tfr k).address.block d.pDesc.heads.toNat d.pDesc.sectors.toNat
          = (stepped d.pDesc tfr k).lba.toNat ∧
        (stepped d.pDesc tfr k).lba.toNat = first + k) := by
  have hshown := ataCommand_shows hg ha hcmd h hok
  have hn := (getParams_count tfr d.pDesc).1
  have hlast := ha.last
  rw [ShowsLast, ← Nat.add_sub_assoc hn] at hshown
  refine ⟨hshown, getParams_encode hg (by omega) hshown, fun hm k hk => ?_⟩
  have hden := stepped_denotes hg ha.start (k := k) (by omega)
  have hbound : addressable d.pDesc tfr ≤ 2 ^ 32 := by
    rw [addressable, if_neg (not_not.mpr hm)]
    calc 65536 * d.pDesc.heads.toNat * d.pDesc.sectors.toNat ≤ 65536 * 16 * 255 :=
          Nat.mul_le_mul (Nat.mul_le_mul_left _ hg.heads_le) hg.sectors_le
      _ ≤ 2 ^ 32 := by decide
  have hlba : (stepped d.pDesc tfr k).lba.toNat = (getParams tfr d.pDesc).lba.toNat + k := by
    rw [hden.lba]
    exact UInt32.toNat_ofNat_of_lt' (lt_of_lt_of_le (by omega) hbound)
  exact ⟨hden.legal hm, (hden.block hm).trans hlba.symm, hlba⟩

/-! ### A card of more than 2^28 blocks -/

/-- A card of 2^28 blocks and one more. -/
def largeUnit : Drive :=
  { status := statInserted, fSource := f_open blankImage true
    pDesc := { Desc.zero with
      format := .MMC, file_size := 2 ^ 28 + 1, cylinders := 1, heads := 16, sectors := 63 } }

/-- READ SECTORS of two blocks, from the address in the registers on. -/
def twoBlocks (r3 r4 r5 r6 : UInt8) : TaskFile := fun i => [0, 0, 2, r3, r4, r5, r6, 0x20].getD i 0

/-- What is sent of the last block is no status. -/
theorem direct_not_error {outs : List FChOut} {bs : List UInt8}
    (h : outs.getLast? = some (.direct bs)) : ¬EndsInError outs := by
  rintro ⟨s, hs, -⟩
  rw [h] at hs
  cases hs

theorem ataCommand_address_head : ∃ done,
    ataCommand blankCard largeUnit (twoBlocks 63 0 0 0) (fun _ => 0) = some done ∧
      addressRegs (registers (twoBlocks 63 0 0 0) done.outs) = [1, 0, 0, 1] := by
  obtain ⟨done, hrun, hok⟩ : ∃ done,
      ataCommand blankCard largeUnit (twoBlocks 63 0 0 0) (fun _ => 0) = some done ∧
        ¬EndsInError done.outs := ⟨_, rfl, direct_not_error rfl⟩
  exact ⟨done, hrun, (ataCommand_address ⟨by decide, by decide, by decide, by decide⟩
    ⟨fun _ => ⟨by decide, by decide, by decide⟩, by decide⟩ (Or.inl rfl) hrun hok).1⟩

/-- The block that cylinder, head and sector stand for in the mode of a command. -/
def Params.triple (pDesc : Desc) (p : Params) : ℕ :=
  if p.lba_mode ≠ 0 then 2 ^ 24 * p.head.toNat + 2 ^ 8 * p.cylinder.toNat + p.sector.toNat
  else p.address.block pDesc.heads.toNat pDesc.sectors.toNat

/-- A command inside the disk, on a unit it can be addressed on. -/
structure InRange (pDesc : Desc) (tfr : TaskFile) : Prop where
  geometry : Geometric pDesc
  start : StartsLegal pDesc tfr
  inside : (getParams tfr pDesc).lba.toNat + (getParams tfr pDesc).sector_count.toNat ≤ diskSize pDesc

/-- A command that goes on behind block 2^28 leaves the address of block 0, and with block numbers the
    steps do not keep cylinder, head and sector. -/
theorem address_law_fails :
    (¬ ∀ d tfr done, InRange d.pDesc tfr → ataCommand blankCard d tfr (fun _ => 0) = some done →
      ¬EndsInError done.outs → (getParams (registers tfr done.outs) d.pDesc).lba.toNat
        = (getParams tfr d.pDesc).lba.toNat + (getParams tfr d.pDesc).sector_count.toNat - 1) ∧
      ¬ ∀ pDesc tfr k, InRange pDesc tfr → k < (getParams tfr pDesc).sector_count.toNat →
        (stepped pDesc tfr k).triple pDesc = (stepped pDesc tfr k).lba.toNat := by
  refine ⟨fun h => ?_, fun h => ?_⟩
  · obtain ⟨done, hrun, hok, hread⟩ : ∃ done,
        ataCommand blankCard largeUnit (twoBlocks 0xFF 0xFF 0xFF 0x4F) (fun _ => 0) = some done ∧
          ¬EndsInError done.outs ∧ (getParams (registers (twoBlocks 0xFF 0xFF 0xFF 0x4F) done.outs)
            largeUnit.pDesc).lba.toNat = 0 := ⟨_, rfl, direct_not_error rfl, by decide⟩
    have hin : InRange largeUnit.pDesc (twoBlocks 0xFF 0xFF 0xFF 0x4F) :=
      ⟨⟨by decide, by decide, by decide, by decide⟩, fun hm => absurd hm (by decide), by decide⟩
    have hlast := h largeUnit _ done hin hrun hok
    rw [hread] at hlast
    exact absurd hlast (by decide)
  · have hin : InRange largeUnit.pDesc (twoBlocks 63 0 0 0x40) :=
      ⟨⟨by decide, by decide, by decide, by decide⟩, fun hm => absurd hm (by decide), by decide⟩
    exact absurd (h largeUnit.pDesc (twoBlocks 63 0 0 0x40) 1 hin (by decide)) (by decide)

end FileIO.Drv08
