import ReplayFirmware.FileIO.FloppyProcess
import ReplayFirmware.FileIO.UefDrives

/-! Requests and their answers.

    A core waits for an acknowledge of its request, and then for the code the transfer has ended with.
    The generic driver gives both on every path. The other two look at the format of the image, and
    where there is nothing to do for the format and the direction, they fall through. -/

namespace FileIO
open FatFs

/-! ### Status writes -/

/-- The status writes among what is sent. -/
def stats : List FChOut → List UInt8
  | [] => []
  | .stat s :: outs => s :: stats outs
  | .cmd _ _ :: outs => stats outs
  | .fifo _ _ :: outs => stats outs
  | .direct _ :: outs => stats outs

theorem stats_append : ∀ outs outs' : List FChOut, stats (outs ++ outs') = stats outs ++ stats outs'
  | [], _ => rfl
  | .stat s :: outs, outs' => congrArg (s :: ·) (stats_append outs outs')
  | .cmd _ _ :: outs, outs' => stats_append outs outs'
  | .fifo _ _ :: outs, outs' => stats_append outs outs'
  | .direct _ :: outs, outs' => stats_append outs outs'

theorem stats_fifo (outs : List FChOut) (mode : UInt8) (bytes : List UInt8) :
    stats (outs ++ [.fifo mode bytes]) = stats outs := by
  rw [stats_append]
  exact List.append_nil _

theorem stats_direct (outs : List FChOut) (bytes : List UInt8) :
    stats (outs ++ [.direct bytes]) = stats outs := by
  rw [stats_append]
  exact List.append_nil _

/-- The codes that end a request. -/
def Terminal (s : UInt8) : Prop :=
  s = Drv00.statAckOk ∨ s = Drv00.statAckSeekErr ∨ s = Drv00.statAckTruncErr
    ∨ s = Drv00.statAckAbortErr

/-- One acknowledge, and one code that ends the request. -/
def Answered (outs : List FChOut) : Prop :=
  ∃ s, Terminal s ∧ stats outs = [Drv00.statReqAck, s]

/-! ### The transfer loop -/

namespace Drv00

section
variable {δ : Type}

/-- What a part of a transfer comes to: it goes through without a status, or it stops the transfer with
    one. -/
inductive Ends (t t' : Transfer δ) : Prop
  | through (hstop : t'.stopped = false) (hstats : stats t'.outs = stats t.outs)
  | short (outs : List FChOut) (s : UInt8) (hstop : t'.stopped = true) (houts : t'.outs = outs ++ [.stat s])
      (hstats : stats outs = stats t.outs) (hs : s = statAckTruncErr ∨ s = statAckAbortErr)

theorem Ends.trans {t t' t'' : Transfer δ} (hstats : stats t'.outs = stats t.outs) (h : Ends t' t'') :
    Ends t t'' := by
  rcases h with ⟨hstop, hstats'⟩ | ⟨outs, s, hstop, houts, hstats', hs⟩
  · exact .through hstop (hstats'.trans hstats)
  · exact .short outs s hstop houts (hstats'.trans hstats) hs

theorem writePass_ends {t : Transfer δ} (hstop : t.stopped = false) (rq : Request) (pos : ℕ)
    (cur_size : UInt16) : Ends t (writePass t rq pos cur_size) := by
  rw [writePass]
  split
  · exact .short t.outs _ rfl rfl rfl (Or.inl rfl)
  · simp only
    split
    · exact .short t.outs _ rfl rfl rfl (Or.inl rfl)
    · exact .through hstop rfl

theorem readPass_ends {t : Transfer δ} (hstop : t.stopped = false) (burstable : Bool)
    (cur_size : UInt16) : Ends t (readPass t burstable cur_size) := by
  rw [readPass]
  cases burstable
  · simp only [Bool.false_eq_true, if_false]
    split
    · exact .short _ _ rfl rfl (stats_fifo t.outs _ _) (Or.inl rfl)
    · exact .through hstop (stats_fifo t.outs _ _)
  · simp only [if_true]
    split
    · exact .short _ _ rfl rfl (stats_direct t.outs _) (Or.inl rfl)
    · exact .through hstop (stats_direct t.outs _)

/-- One pass. -/
def pass (rq : Request) (pos : ℕ) (burstable : Bool) (cur_size : UInt16) (t : Transfer δ) :
    Transfer δ :=
  if dir rq.status then writePass t rq pos cur_size else readPass t burstable cur_size

/-- What comes behind a pass: the end, or the wait and the rest. -/
def behindPass (burst : Bool) (rq : Request) (stall : ℕ → Bool) (file_size fuel k pos : ℕ)
    (addr : UInt32) (size cur_size : UInt16) (t : Transfer δ) : Transfer δ :=
  if t.stopped then t
  else if size - cur_size ≠ 0 ∧ stall k = true then
    { t with outs := t.outs ++ [.stat statAckAbortErr], stopped := true }
  else transferLoop burst rq stall file_size fuel (k + 1) (pos + cur_size.toNat)
    (addr + cur_size.toUInt32) (size - cur_size) t

/-- One round of the loop. -/
theorem transferLoop_round (burst : Bool) (rq : Request) (stall : ℕ → Bool)
    (file_size fuel k pos : ℕ) (addr : UInt32) {size : UInt16} (hs : size ≠ 0) :
    ∃ burstable cur_size, ∀ t : Transfer δ,
      transferLoop burst rq stall file_size (fuel + 1) k pos addr size t
        = behindPass burst rq stall file_size fuel k pos addr size cur_size
          (pass rq pos burstable cur_size t) :=
  ⟨_, _, fun t => by rw [transferLoop, if_neg hs]; rfl⟩

theorem pass_ends {t : Transfer δ} (hstop : t.stopped = false) (rq : Request) (pos : ℕ)
    (burstable : Bool) (cur_size : UInt16) : Ends t (pass rq pos burstable cur_size t) := by
  rw [pass]
  split
  · exact writePass_ends hstop rq pos cur_size
  · exact readPass_ends hstop burstable cur_size

/-- The loop goes through, or one of its passes ends it, or the wait behind one. -/
theorem transferLoop_ends (burst : Bool) (rq : Request) (stall : ℕ → Bool) (file_size : ℕ) :
    ∀ (fuel k pos : ℕ) (addr : UInt32) (size : UInt16) {t : Transfer δ}, t.stopped = false →
      Ends t (transferLoop burst rq stall file_size fuel k pos addr size t)
  | 0, _, _, _, _, _, hstop => .through hstop rfl
  | fuel + 1, k, pos, addr, size, t, hstop => by
    by_cases hs : size = 0
    · rw [transferLoop, if_pos hs]
      exact .through hstop rfl
    · obtain ⟨burstable, cur_size, hround⟩ :=
        @transferLoop_round δ burst rq stall file_size fuel k pos addr size hs
      rw [hround, behindPass]
      rcases pass_ends hstop rq pos burstable cur_size with
        ⟨hstop', hstats⟩ | ⟨outs, s, hstop', houts, hstats, hs⟩
      · rw [if_neg (by rw [hstop']; decide)]
        split
        · exact .short _ _ rfl rfl hstats (Or.inr rfl)
        · exact (transferLoop_ends burst rq stall file_size fuel _ _ _ _ hstop').trans hstats
      · rw [if_pos hstop']
        exact .short outs s hstop' houts hstats hs

/-- A transfer writes one status, which ends the request. -/
theorem transfer_stats (burst : Bool) (rq : Request) (stall : ℕ → Bool) {t : Transfer δ}
    (hstop : t.stopped = false) :
    ∃ s, Terminal s ∧ stats (transfer burst rq stall t).outs = stats t.outs ++ [s] := by
  rw [transfer]
  split
  · next fSource _ =>
    simp only
    rcases transferLoop_ends burst rq stall (FF_Size fSource) (reqSize rq).toNat 0 0 (reqAddr rq)
      (reqSize rq) (t := { t with pDrive := { t.pDrive with fSource := fSource } }) hstop
      with ⟨hstop', hstats⟩ | ⟨outs, s, hstop', houts, hstats, hs⟩
    · rw [if_neg (by rw [hstop']; decide)]
      exact ⟨statAckOk, Or.inl rfl, by rw [stats_append, hstats]; rfl⟩
    · rw [if_pos hstop']
      refine ⟨s, ?_, by rw [houts, stats_append, hstats]; rfl⟩
      rcases hs with rfl | rfl
      · exact Or.inr (Or.inr (Or.inl rfl))
      · exact Or.inr (Or.inr (Or.inr rfl))
  · exact ⟨statAckSeekErr, Or.inr (Or.inl rfl), stats_append _ _⟩

/-- A transfer with more sent in front of it. -/
def Transfer.behind (outs : List FChOut) (t : Transfer δ) : Transfer δ :=
  { t with outs := outs ++ t.outs }

theorem writePass_behind (outs : List FChOut) (t : Transfer δ) (rq : Request) (pos : ℕ)
    (cur_size : UInt16) :
    writePass (t.behind outs) rq pos cur_size = (writePass t rq pos cur_size).behind outs := by
  unfold writePass Transfer.behind
  by_cases hw : (!t.pDrive.writable) = true
  · simp only [if_pos hw, List.append_assoc]
  · simp only [if_neg hw]
    split
    · rw [List.append_assoc]
    · rfl

theorem readPass_behind (outs : List FChOut) (t : Transfer δ) (burstable : Bool) (cur_size : UInt16) :
    readPass (t.behind outs) burstable cur_size = (readPass t burstable cur_size).behind outs := by
  unfold readPass Transfer.behind
  cases burstable
  · simp only [Bool.false_eq_true, if_false]
    by_cases hact : (FF_Read t.pDrive.fSource cur_size.toNat).1.length = cur_size.toNat
    · simp only [hact, ne_eq, not_true_eq_false, if_false, List.append_assoc]
    · simp only [ne_eq, hact, not_false_eq_true, if_true, List.append_assoc]
  · simp only [if_true]
    by_cases hact : (FF_ReadDirect t.pDrive.fSource cur_size.toNat).2.1 = cur_size.toNat
    · simp only [hact, ne_eq, not_true_eq_false, if_false, List.append_assoc]
    · simp only [ne_eq, hact, not_false_eq_true, if_true, List.append_assoc]

theorem pass_behind (outs : List FChOut) (t : Transfer δ) (rq : Request) (pos : ℕ) (burstable : Bool)
    (cur_size : UInt16) :
    pass rq pos burstable cur_size (t.behind outs)
      = (pass rq pos burstable cur_size t).behind outs := by
  rw [pass, pass]
  split
  · exact writePass_behind outs t rq pos cur_size
  · exact readPass_behind outs t burstable cur_size

theorem transferLoop_behind (burst : Bool) (rq : Request) (stall : ℕ → Bool) (file_size : ℕ)
    (outs : List FChOut) : ∀ (fuel k pos : ℕ) (addr : UInt32) (size : UInt16) (t : Transfer δ),
    transferLoop burst rq stall file_size fuel k pos addr size (t.behind outs)
      = (transferLoop burst rq stall file_size fuel k pos addr size t).behind outs
  | 0, _, _, _, _, _ => rfl
  | fuel + 1, k, pos, addr, size, t => by
    by_cases hs : size = 0
    · rw [transferLoop, transferLoop, if_pos hs, if_pos hs]
    · obtain ⟨burstable, cur_size, hround⟩ :=
        @transferLoop_round δ burst rq stall file_size fuel k pos addr size hs
      rw [hround, hround, pass_behind, behindPass, behindPass]
      generalize pass rq pos burstable cur_size t = t'
      by_cases hstop : t'.stopped = true
      · rw [if_pos hstop]
        exact if_pos hstop
      · rw [if_neg hstop, if_neg (show ¬(t'.behind outs).stopped = true from hstop),
          transferLoop_behind burst rq stall file_size outs fuel]
        split
        · simp only [Transfer.behind, List.append_assoc]
        · rfl

theorem transfer_behind (burst : Bool) (rq : Request) (stall : ℕ → Bool) (outs : List FChOut)
    (t : Transfer δ) :
    transfer burst rq stall (t.behind outs) = (transfer burst rq stall t).behind outs := by
  have hfinish : ∀ t' : Transfer δ, (if (t'.behind outs).stopped = true then t'.behind outs
        else { t'.behind outs with outs := (t'.behind outs).outs ++ [.stat statAckOk] })
      = (if t'.stopped = true then t'
        else { t' with outs := t'.outs ++ [.stat statAckOk] }).behind outs := by
    intro t'
    by_cases hstop : t'.stopped = true
    · rw [if_pos hstop]
      exact if_pos hstop
    · rw [if_neg hstop, if_neg (show ¬(t'.behind outs).stopped = true from hstop)]
      simp only [Transfer.behind, List.append_assoc]
  rw [transfer, transfer, show (t.behind outs).pDrive = t.pDrive from rfl]
  split
  · next fSource _ =>
    rw [← hfinish, ← transferLoop_behind]
    rfl
  · simp only [Transfer.behind, List.append_assoc]

end

end Drv00

/-! ### Requests of the three drivers -/

/-- What is sent for a request to a drive that is not mounted. -/
def unmounted : List FChOut := [.stat Drv00.statReqAck, .stat Drv00.statAckAbortErr]

/-- The generic driver: what is sent for a request. -/
def Drv00.answer (handle : Fin 4 → Fch Desc) (fbuf : ℕ → UInt8) (rq : Request) (stall : ℕ → Bool) :
    List FChOut :=
  if !getInserted handle (driveNumber rq.status) then unmounted
  else
    (request rq stall
      { pDrive := handle (driveNumber rq.status), fbuf := fbuf, outs := [], stopped := false }).outs

/-- The floppy driver. -/
def Drv01.answer (p : Proc) (rq : Request) : List FChOut :=
  if !getInserted p.chan.handle (driveNumber rq.status) then unmounted
  else (request { p with chan := { p.chan with outs := [] } } rq).chan.outs

section
variable (carrier : UInt16 → UInt32)

/-- A request of `FileIO_Drv02_Process`, what is sent for it and the tapes after it; `none` when the
    walk over the chunks has not come to an end. `fbuf` and `junk` are what the stack holds. -/
def Drv02.answer (fuel : ℕ) (ch : Fin 2) (st : Uef.Tapes) (fbuf : ℕ → UInt8) (junk : UInt8)
    (rq : Request) (stall : ℕ → Bool) : Option (List FChOut × Uef.Tapes) :=
  let s : Uef.Slot := (ch, driveNumber rq.status)
  let pDrive := st.slots s
  if !getInserted (fun d => st.slots (ch, d)) (driveNumber rq.status) then some (unmounted, st)
  else
    match pDrive.pDesc.format with
    | .RAW =>
      let t := request rq stall { pDrive := pDrive, fbuf := fbuf, outs := [], stopped := false }
      some (t.outs, { st with slots := Function.update st.slots s t.pDrive })
    | .UEF =>
      -- writes are not supported
      if dir rq.status then some ([.stat Drv00.statReqAck], st)
      else
        (st.request carrier fuel junk ⟨s, Drv00.reqAddr rq, Drv00.reqSize rq⟩).map fun (outs, st) =>
          (.stat Drv00.statReqAck :: outs, st)
    | .XXX => some ([.stat Drv00.statReqAck], st)

/-- A request that one of the drivers has taken, with what the driver finds. -/
inductive Taken where
  | drv00 (handle : Fin 4 → Fch Drv00.Desc) (fbuf : ℕ → UInt8) (rq : Request) (stall : ℕ → Bool)
  | drv01 (p : Drv01.Proc) (rq : Request)
  | drv02 (ch : Fin 2) (st : Uef.Tapes) (fbuf : ℕ → UInt8) (junk : UInt8) (rq : Request)
      (stall : ℕ → Bool)

/-- What is sent for it. -/
def Taken.outs (fuel : ℕ) : Taken → Option (List FChOut)
  | .drv00 handle fbuf rq stall => some (Drv00.answer handle fbuf rq stall)
  | .drv01 p rq => some (Drv01.answer p rq)
  | .drv02 ch st fbuf junk rq stall =>
    (Drv02.answer carrier fuel ch st fbuf junk rq stall).map (·.1)

/-- It is answered, once. -/
def Taken.IsAnswered (t : Taken) : Prop := ∃ fuel outs, t.outs carrier fuel = some outs ∧ Answered outs

/-! ### Bits of a request -/

/-- The bits a request to a tape asks for, up to the end of the tape. -/
def Uef.asked (file_size : UInt32) : ℕ → UInt32 → UInt16 → List UInt32
  | 0, _, _ => []
  | n + 1, addr, size =>
    if size = 0 then []
    else
      let cur_size := if size > 512 then 512 else size
      let act_size :=
        if file_size < addr + cur_size.toUInt32 then file_size - addr else cur_size.toUInt32
      bitPositions addr act_size.toNat
        ++ if act_size ≠ cur_size.toUInt32 then []
          else Uef.asked file_size n (addr + cur_size.toUInt32) (size - cur_size)

/-- The walk over the chunks comes to an end for every bit a request asks for. -/
def Uef.Tapes.WalksEnd (st : Uef.Tapes) (s : Uef.Slot) (junk : UInt8) (addr : UInt32) (size : UInt16) :
    Prop :=
  let pDrive := st.slots s
  ∃ fuel, (Uef.getBits carrier fuel junk (Uef.asked pDrive.pDesc.file_size size.toNat
    (Uef.clampAddr pDrive.pDesc.file_size addr) size) ⟨pDrive.fSource, st.chunk⟩).isSome

/-- There is a handler for the format and the direction of a request to a mounted drive, and for a tape
    the walks end. -/
def Taken.IsHandled : Taken → Prop
  | .drv00 _ _ _ _ => True
  | .drv01 p rq => getInserted p.chan.handle (driveNumber rq.status) = true →
    match (p.chan.handle (driveNumber rq.status)).pDesc.format with
    | .ADF => True
    | .SCP => dir rq.status = false
    | .XXX => False
  | .drv02 ch st _ junk rq _ =>
    getInserted (fun d => st.slots (ch, d)) (driveNumber rq.status) = true →
      match (st.slots (ch, driveNumber rq.status)).pDesc.format with
      | .RAW => True
      | .UEF => dir rq.status = false ∧
        st.WalksEnd carrier (ch, driveNumber rq.status) junk (Drv00.reqAddr rq) (Drv00.reqSize rq)
      | .XXX => False

end

/-! ### Which requests are answered -/

theorem unmounted_answered : Answered unmounted :=
  ⟨Drv00.statAckAbortErr, Or.inr (Or.inr (Or.inr rfl)), rfl⟩

/-- The generic driver answers all its requests. -/
theorem Drv00.answer_answered (handle : Fin 4 → Fch Desc) (fbuf : ℕ → UInt8) (rq : Request)
    (stall : ℕ → Bool) : Answered (answer handle fbuf rq stall) := by
  rw [answer]
  split
  · exact unmounted_answered
  · obtain ⟨s, hs, hstats⟩ := @transfer_stats Desc true rq stall
      { pDrive := handle (driveNumber rq.status), fbuf := fbuf, outs := [.stat statReqAck]
        stopped := false } rfl
    exact ⟨s, hs, hstats⟩

theorem Drv01.adfWrite_answered (pDrive : Drive) (rq : Request) (write_state : UInt8) :
    Answered (adfWrite pDrive rq write_state).2.2 := by
  have hstats : stats (adfWrite pDrive rq write_state).2.2 = [statReqAck, statAckOk] := by
    rw [adfWrite]
    split
    · rfl
    · split <;> rfl
  exact ⟨statAckOk, Or.inl rfl, hstats⟩

theorem Drv01.adfRead_answered (pDrive : Drive) (pBuffer : ℕ → UInt8) (rq : Request) :
    Answered (adfRead pDrive pBuffer rq).2.2 := by
  have hgap : ∀ sector, stats (if sector = lastSector then
      [.fifo 1 [0xAA, 0xAA], .fifo 0 (List.replicate (gapSize / 2) 0xAA)] else []) = [] := by
    intro sector
    split <;> rfl
  rw [adfRead]
  simp only
  generalize FF_Seek _ _ = r
  obtain ⟨res, fSource⟩ := r
  rcases res with _ | _ | _
  · refine ⟨statAckOk, Or.inl rfl, ?_⟩
    simp only [stats_append, hgap]
    rfl
  · exact ⟨statAckSeekErr, Or.inr (Or.inl rfl), rfl⟩
  · exact ⟨statAckSeekErr, Or.inr (Or.inl rfl), rfl⟩

theorem Drv01.scpRead_answered (pDrive : Drive) (pBuffer : ℕ → UInt8) (rq : Request) :
    Answered (scpRead pDrive pBuffer rq).2.2 := by
  refine ⟨statAckOk, Or.inl rfl, ?_⟩
  have hburst : ∀ d : Drive, stats (scpBurst d pBuffer).2.2 = [] := by
    intro d
    have hmarker : ∀ pos : UInt32, stats (if pos = 0 then [.fifo 1 [0x00, 0x04]] else []) = [] := by
      intro pos
      split <;> rfl
    have hsent : ∀ (aligned : Prop) [Decidable aligned] (bs bs' : List UInt8),
        stats [if aligned then .direct bs else .fifo 0 bs'] = [] := by
      intro aligned _ bs bs'
      split <;> rfl
    rw [scpBurst]
    simp only [stats_append, hmarker, apply_ite Prod.snd, apply_ite Prod.fst, hsent]
    rfl
  rw [scpRead]
  simp only
  generalize (if rq.cmd 2 ≠ pDrive.pDesc.scp_cur_track then scpStep pDrive (rq.cmd 2)
    else pDrive) = d
  split
  · rfl
  · simp only [stats_append, hburst]
    rfl

/-- The floppy driver answers what it has a handler for. -/
theorem Drv01.answer_iff (p : Proc) (rq : Request) : Answered (answer p rq) ↔
    (getInserted p.chan.handle (driveNumber rq.status) = true →
      match (p.chan.handle (driveNumber rq.status)).pDesc.format with
      | .ADF => True
      | .SCP => dir rq.status = false
      | .XXX => False) := by
  have hnone : ¬Answered [] := fun ⟨_, _, h⟩ => by cases h
  by_cases hin : getInserted p.chan.handle (driveNumber rq.status) = true
  · rw [answer, hin, if_neg (by decide), request]
    cases hdir : dir rq.status with
    | true =>
      rw [if_pos rfl, writeRequest]
      cases (p.chan.handle (driveNumber rq.status)).pDesc.format with
      | ADF =>
        simp only [List.nil_append]
        exact iff_of_true (adfWrite_answered _ _ _) fun _ => trivial
      | SCP =>
        simp only
        exact ⟨fun h => absurd h hnone, fun h => absurd (h trivial) (by decide)⟩
      | XXX =>
        simp only
        exact ⟨fun h => absurd h hnone, fun h => absurd (h trivial) (by decide)⟩
    | false =>
      rw [if_neg (by decide), readRequest]
      cases (p.chan.handle (driveNumber rq.status)).pDesc.format with
      | ADF =>
        simp only [List.nil_append]
        exact iff_of_true (adfRead_answered _ _ _) fun _ => trivial
      | SCP =>
        simp only [List.nil_append]
        exact iff_of_true (scpRead_answered _ _ _) fun _ => trivial
      | XXX =>
        simp only
        exact ⟨fun h => absurd h hnone, fun h => (h trivial).elim⟩
  · rw [answer, if_pos (by simpa using hin)]
    exact ⟨fun _ h => absurd h hin, fun _ => unmounted_answered⟩

section
variable {carrier : UInt16 → UInt32}

/-- Queries one after another. -/
theorem Uef.getBits_append (fuel : ℕ) (junk : UInt8) : ∀ (ps qs : List UInt32) (t : Tape),
    getBits carrier fuel junk (ps ++ qs) t = match getBits carrier fuel junk ps t with
      | none => none
      | some (bits, t) => (getBits carrier fuel junk qs t).map fun r => (bits ++ r.1, r.2)
  | [], qs, t => by
    simp only [List.nil_append, getBits]
    cases getBits carrier fuel junk qs t <;> rfl
  | p :: ps, qs, t => by
    rw [List.cons_append, getBits, getBits]
    cases getBitAtPos carrier fuel junk t p with
    | none => rfl
    | some r =>
      obtain ⟨bit, t⟩ := r
      simp only
      rw [getBits_append fuel junk ps qs t]
      cases getBits carrier fuel junk ps t with
      | none => rfl
      | some r =>
        simp only [Option.map_some, Option.map_map]
        rfl

/-- The transfer of a tape comes to an end when its bits do, and then it writes one status. -/
theorem Uef.uefLoop_ends (fuel : ℕ) (junk : UInt8) (file_size : UInt32) :
    ∀ (n : ℕ) (addr : UInt32) (size : UInt16) (t : Tape),
      (uefLoop carrier fuel junk file_size n addr size t).isSome
          = (getBits carrier fuel junk (asked file_size n addr size) t).isSome ∧
        ∀ outs t', uefLoop carrier fuel junk file_size n addr size t = some (outs, t') →
          ∃ s, Terminal s ∧ stats outs = [s]
  | 0, _, _, t => by
    refine ⟨rfl, fun outs t' h => ?_⟩
    cases h
    exact ⟨_, Or.inl rfl, rfl⟩
  | n + 1, addr, size, t => by
    rw [uefLoop, asked]
    by_cases hs : size = 0
    · rw [if_pos hs, if_pos hs]
      refine ⟨rfl, fun outs t' h => ?_⟩
      cases h
      exact ⟨_, Or.inl rfl, rfl⟩
    · rw [if_neg hs, if_neg hs]
      simp only
      rw [getBits_append]
      generalize (if size > 512 then 512 else size : UInt16) = cur_size
      generalize (if file_size < addr + cur_size.toUInt32 then file_size - addr
        else cur_size.toUInt32) = act_size
      cases getBits carrier fuel junk (bitPositions addr act_size.toNat) t with
      | none => exact ⟨rfl, fun _ _ h => by cases h⟩
      | some r =>
        obtain ⟨bits, t⟩ := r
        simp only
        by_cases hcut : act_size ≠ cur_size.toUInt32
        · rw [if_pos hcut, if_pos hcut]
          refine ⟨rfl, fun outs t' h => ?_⟩
          cases h
          exact ⟨_, Or.inr (Or.inr (Or.inl rfl)), rfl⟩
        · rw [if_neg hcut, if_neg hcut]
          obtain ⟨hsome, hstats⟩ := uefLoop_ends fuel junk file_size n (addr + cur_size.toUInt32)
            (size - cur_size) t
          refine ⟨by rw [Option.isSome_map, Option.isSome_map, hsome], fun outs t' h => ?_⟩
          obtain ⟨⟨outs', t''⟩, hrest, heq⟩ := Option.map_eq_some_iff.mp h
          cases heq
          exact hstats outs' t'' hrest

theorem Uef.request_ends (fuel : ℕ) (junk : UInt8) (r : TapeRead) (st : Tapes) :
    (st.request carrier fuel junk r).isSome
        = (getBits carrier fuel junk (asked (st.slots r.slot).pDesc.file_size r.size.toNat
          (clampAddr (st.slots r.slot).pDesc.file_size r.addr) r.size)
          ⟨(st.slots r.slot).fSource, st.chunk⟩).isSome ∧
      ∀ outs st', st.request carrier fuel junk r = some (outs, st') →
        ∃ s, Terminal s ∧ stats outs = [s] := by
  obtain ⟨hsome, hstats⟩ := @uefLoop_ends carrier fuel junk (st.slots r.slot).pDesc.file_size
    r.size.toNat (clampAddr (st.slots r.slot).pDesc.file_size r.addr) r.size
    ⟨(st.slots r.slot).fSource, st.chunk⟩
  refine ⟨by rw [Tapes.request, Option.isSome_map, ← hsome]; rfl, fun outs st' h => ?_⟩
  rw [Tapes.request] at h
  obtain ⟨⟨outs', t'⟩, hloop, heq⟩ := Option.map_eq_some_iff.mp h
  cases heq
  exact hstats outs t' hloop

/-- The tape driver answers what it has a handler for, when its walks end. -/
theorem Drv02.answered_iff (ch : Fin 2) (st : Uef.Tapes) (fbuf : ℕ → UInt8) (junk : UInt8)
    (rq : Request) (stall : ℕ → Bool) :
    (Taken.drv02 ch st fbuf junk rq stall).IsAnswered carrier
      ↔ (Taken.drv02 ch st fbuf junk rq stall).IsHandled carrier := by
  have hack : ¬Answered [.stat Drv00.statReqAck] := fun ⟨_, _, h⟩ => by cases h
  unfold Taken.IsAnswered Taken.outs Taken.IsHandled
  by_cases hin : getInserted (fun d => st.slots (ch, d)) (driveNumber rq.status) = true
  · simp only [Drv02.answer, hin, Bool.not_true, Bool.false_eq_true, if_false]
    cases hformat : (st.slots (ch, driveNumber rq.status)).pDesc.format with
    | RAW =>
      obtain ⟨s, hs, hstats⟩ := @Drv00.transfer_stats Desc false rq stall
        { pDrive := st.slots (ch, driveNumber rq.status), fbuf := fbuf
          outs := [.stat Drv00.statReqAck], stopped := false } rfl
      exact ⟨fun _ _ => trivial, fun _ => ⟨0, _, rfl, s, hs, hstats⟩⟩
    | UEF =>
      cases hdir : dir rq.status with
      | true =>
        refine ⟨fun ⟨_, outs, h, hans⟩ => ?_, fun h => absurd (h trivial).1 (by decide)⟩
        cases h
        exact absurd hans hack
      | false =>
        simp only [Bool.false_eq_true, if_false, Option.map_map]
        refine ⟨fun ⟨fuel, outs, h, _⟩ _ => ⟨trivial, fuel, ?_⟩, fun h => ?_⟩
        · obtain ⟨hsome, -⟩ := @Uef.request_ends carrier fuel junk
            ⟨(ch, driveNumber rq.status), Drv00.reqAddr rq, Drv00.reqSize rq⟩ st
          obtain ⟨r, hr, -⟩ := Option.map_eq_some_iff.mp h
          rw [← hsome, hr]
          rfl
        · obtain ⟨-, fuel, hends⟩ := h trivial
          obtain ⟨hsome, hstats⟩ := @Uef.request_ends carrier fuel junk
            ⟨(ch, driveNumber rq.status), Drv00.reqAddr rq, Drv00.reqSize rq⟩ st
          obtain ⟨⟨outs, st'⟩, hr⟩ := Option.isSome_iff_exists.mp (hsome.trans hends)
          obtain ⟨s, hs, hstat⟩ := hstats outs st' hr
          exact ⟨fuel, _, Option.map_eq_some_iff.mpr ⟨_, hr, rfl⟩, s, hs, congrArg (_ :: ·) hstat⟩
    | XXX =>
      refine ⟨fun ⟨_, outs, h, hans⟩ => ?_, fun h => (h trivial).elim⟩
      cases h
      exact absurd hans hack
  · simp only [Drv02.answer, hin, Bool.not_false, if_true]
    exact ⟨fun _ h => absurd h (by decide), fun _ => ⟨0, _, rfl, unmounted_answered⟩⟩

/-- A request is answered, with one acknowledge and one code that ends it, if and only if there is a
    handler for it. -/
theorem answered_iff_handled (t : Taken) : t.IsAnswered carrier ↔ t.IsHandled carrier := by
  cases t with
  | drv00 handle fbuf rq stall =>
    exact ⟨fun _ => trivial, fun _ => ⟨0, _, rfl, Drv00.answer_answered handle fbuf rq stall⟩⟩
  | drv01 p rq =>
    rw [Taken.IsHandled, ← Drv01.answer_iff]
    refine ⟨fun ⟨_, outs, h, hans⟩ => ?_, fun h => ⟨0, _, rfl, h⟩⟩
    cases h
    exact hans
  | drv02 ch st fbuf junk rq stall => exact Drv02.answered_iff ch st fbuf junk rq stall

end

/-! ### Calls of the drivers -/

/-- The requests a call of the generic driver takes. -/
def Drv00.taken (rq : ℕ → Request) (stall : ℕ → ℕ → Bool) :
    ℕ → ℕ → (Fin 4 → Fch Desc) → (ℕ → UInt8) → List Taken
  | 0, _, _, _ => []
  | goes + 1, k, handle, fbuf =>
    let drive_number := driveNumber (rq k).status
    .drv00 handle fbuf (rq k) (stall k) ::
      if !getInserted handle drive_number then []
      else
        let t := request (rq k) (stall k)
          { pDrive := handle drive_number, fbuf := fbuf, outs := [], stopped := false }
        if !t.stopped ∧ (rq (k + 1)).status &&& reqAct ≠ 0 then
          taken rq stall goes (k + 1) (Function.update handle drive_number t.pDrive) t.fbuf
        else []

/-- The requests a call of the floppy driver takes. -/
def Drv01.taken (rq : ℕ → Request) : ℕ → ℕ → Proc → List Taken
  | 0, _, _ => []
  | goes + 1, k, p =>
    .drv01 p (rq k) ::
      if !getInserted p.chan.handle (driveNumber (rq k).status) then []
      else if (rq (k + 1)).status &&& reqAct ≠ 0 then taken rq goes (k + 1) (request p (rq k)) else []

section
variable (carrier : UInt16 → UInt32)

/-- `FileIO_Drv02_Process`, from request `k` of the channel on, with `goes` requests to go. -/
def Drv02.process (fuel : ℕ) (ch : Fin 2) (rq : ℕ → Request) (stall : ℕ → ℕ → Bool)
    (fbuf : ℕ → ℕ → UInt8) (junk : UInt8) :
    ℕ → ℕ → Uef.Tapes → List FChOut → Option (Uef.Tapes × List FChOut)
  | 0, _, st, outs => some (st, outs)
  | goes + 1, k, st, outs =>
    match answer carrier fuel ch st (fbuf k) junk (rq k) (stall k) with
    | none => none
    | some (outs', st') =>
      if getInserted (fun d => st.slots (ch, d)) (driveNumber (rq k).status)
          ∧ (rq (k + 1)).status &&& reqAct ≠ 0 then
        process fuel ch rq stall fbuf junk goes (k + 1) st' (outs ++ outs')
      else some (st', outs ++ outs')

/-- The requests it takes. -/
def Drv02.taken (fuel : ℕ) (ch : Fin 2) (rq : ℕ → Request) (stall : ℕ → ℕ → Bool)
    (fbuf : ℕ → ℕ → UInt8) (junk : UInt8) : ℕ → ℕ → Uef.Tapes → List Taken
  | 0, _, _ => []
  | goes + 1, k, st =>
    .drv02 ch st (fbuf k) junk (rq k) (stall k) ::
      match answer carrier fuel ch st (fbuf k) junk (rq k) (stall k) with
      | none => []
      | some (_, st') =>
        if getInserted (fun d => st.slots (ch, d)) (driveNumber (rq k).status)
            ∧ (rq (k + 1)).status &&& reqAct ≠ 0 then
          taken fuel ch rq stall fbuf junk goes (k + 1) st'
        else []

/-- What is sent for requests one after another. -/
def answers (fuel : ℕ) : List Taken → Option (List FChOut)
  | [] => some []
  | t :: ts =>
    match t.outs carrier fuel with
    | none => none
    | some outs => (answers fuel ts).map (outs ++ ·)

end

section
variable {carrier : UInt16 → UInt32}

/-- A call of the generic driver sends what its requests are answered. -/
theorem Drv00.process_answers (fuel : ℕ) (rq : ℕ → Request) (stall : ℕ → ℕ → Bool) :
    ∀ (goes k : ℕ) (handle : Fin 4 → Fch Desc) (fbuf : ℕ → UInt8) (outs : List FChOut),
      (answers carrier fuel (taken rq stall goes k handle fbuf)).map (outs ++ ·)
        = some (process rq stall goes k handle fbuf outs).2.2
  | 0, _, _, _, outs => congrArg some (List.append_nil outs)
  | goes + 1, k, handle, fbuf, outs => by
    rw [process, taken, answers, Taken.outs, answer]
    simp only
    split
    · exact congrArg some (congrArg (outs ++ ·) (List.append_nil _))
    · have hbehind := transfer_behind true (rq k) (stall k) outs
        { pDrive := handle (driveNumber (rq k).status), fbuf := fbuf, outs := [.stat statReqAck]
          stopped := false }
      have hreq : request (rq k) (stall k)
          { pDrive := handle (driveNumber (rq k).status), fbuf := fbuf, outs := outs, stopped := false }
          = (request (rq k) (stall k)
            { pDrive := handle (driveNumber (rq k).status), fbuf := fbuf, outs := []
              stopped := false }).behind outs := hbehind
      rw [hreq]
      generalize request (rq k) (stall k) { pDrive := handle (driveNumber (rq k).status), fbuf := fbuf,
                                            outs := [], stopped := false } = t
      by_cases hmore : (!t.stopped) = true ∧ (rq (k + 1)).status &&& reqAct ≠ 0
      · have ih := process_answers fuel rq stall goes (k + 1)
          (Function.update handle (driveNumber (rq k).status) t.pDrive) t.fbuf (outs ++ t.outs)
        rw [if_pos hmore, if_pos (show (!(t.behind outs).stopped) = true ∧ _ from hmore),
          Option.map_map]
        refine Eq.trans ?_ ih
        exact congrArg (Option.map · _) (funext fun rest => (List.append_assoc _ _ _).symm)
      · rw [if_neg hmore, if_neg (show ¬((!(t.behind outs).stopped) = true ∧ _) from hmore)]
        exact congrArg some (congrArg (outs ++ ·) (List.append_nil _))

/-- So does a call of the floppy driver. -/
theorem Drv01.process_answers (fuel : ℕ) (rq : ℕ → Request) : ∀ (goes k : ℕ) (p : Proc),
    (answers carrier fuel (taken rq goes k p)).map (p.chan.outs ++ ·)
      = some (process rq goes k p).chan.outs
  | 0, _, p => congrArg some (List.append_nil _)
  | goes + 1, k, p => by
    have hreq : (request p (rq k)).chan.outs
        = p.chan.outs ++ (request { p with chan := { p.chan with outs := [] } } (rq k)).chan.outs := by
      rw [request, request]
      split
      · rw [writeRequest, writeRequest]
        simp only
        split
        · simp only [List.nil_append]
        · simp only [List.append_nil]
      · rw [readRequest, readRequest]
        rfl
    rw [process, taken, answers, Taken.outs, answer]
    simp only
    split
    · exact congrArg some (congrArg (p.chan.outs ++ ·) (List.append_nil _))
    · split
      · have ih := process_answers fuel rq goes (k + 1) (request p (rq k))
        rw [← ih, hreq, Option.map_map]
        exact congrArg (Option.map · _) (funext fun rest => (List.append_assoc _ _ _).symm)
      · rw [hreq]
        exact congrArg some (congrArg (p.chan.outs ++ ·) (List.append_nil _))

/-- And a call of the tape driver, as far as its walks end. -/
theorem Drv02.process_answers (fuel : ℕ) (ch : Fin 2) (rq : ℕ → Request) (stall : ℕ → ℕ → Bool)
    (fbuf : ℕ → ℕ → UInt8) (junk : UInt8) : ∀ (goes k : ℕ) (st : Uef.Tapes) (outs : List FChOut),
    (answers carrier fuel (taken carrier fuel ch rq stall fbuf junk goes k st)).map (outs ++ ·)
      = (process carrier fuel ch rq stall fbuf junk goes k st outs).map (·.2)
  | 0, _, _, outs => congrArg some (List.append_nil outs)
  | goes + 1, k, st, outs => by
    rw [process, taken, answers, Taken.outs]
    cases answer carrier fuel ch st (fbuf k) junk (rq k) (stall k) with
    | none => rfl
    | some r =>
      obtain ⟨outs', st'⟩ := r
      simp only [Option.map_some]
      split
      · have ih := process_answers fuel ch rq stall fbuf junk goes (k + 1) st' (outs ++ outs')
        rw [← ih, Option.map_map]
        exact congrArg (Option.map · _) (funext fun rest => (List.append_assoc _ _ _).symm)
      · exact congrArg some (congrArg (outs ++ ·) (List.append_nil _))

end

/-- A disk of flux data in every drive. -/
def fluxDisks : Drv01.Proc :=
  { chan := {
      handle := fun _ => { Drv01.blank with
        status := statInserted ||| statReadonly
        pDesc := { Drv01.Desc.zero with format := .SCP, file_size := 5632, total_tracks := 1
                                        scp_revolutions := 1, scp_cur_track := 255 } }
      trans := [], outs := [] }
    statics := Drv01.Statics.init
    fbuf := fun _ => 0 }

/-- A write to one is not answered at all. -/
theorem flux_write_unanswered : ¬∀ t : Taken, t.IsAnswered Uef.carrierBits := by
  intro h
  obtain ⟨fuel, outs, houts, s, -, hstats⟩ := h (.drv01 fluxDisks Drv01.zeroSector)
  have hnone : Drv01.answer fluxDisks Drv01.zeroSector = [] := by decide
  cases houts
  rw [hnone] at hstats
  cases hstats

end FileIO
