import ReplayFirmware.FileIO.ReadExact
import ReplayFirmware.Lib.Store

/-! The generic driver as a store of bytes.

    A request is an access to the image in a drive. Whatever the passes of its transfer are, and wherever
    a wait ends it, it does the first bytes of that access and nothing else, and it is acknowledged as
    done only when that is all of it. So a run of calls on both channels leaves in every drive what the
    accesses to it leave in a store, and delivers what they deliver. -/

namespace FileIO.Drv00
open FatFs Store
open Drv08 (sent sent_append)

/-- The bytes of a request from byte `pos` of its FIFO on, `n` of them, at position `a`. -/
def part (rq : Request) (a pos n : ℕ) : Access UInt8 :=
  if dir rq.status then .write a ((List.range n).map fun i => rq.fifo (pos + i)) else .read a n

/-- The access a request asks for. -/
def access (rq : Request) : Access UInt8 := part rq (reqAddr rq).toNat 0 (reqSize rq).toNat

theorem size_part (rq : Request) (a pos n : ℕ) : (part rq a pos n).size = n := by
  rw [part]
  split
  · rw [Access.size, List.length_map, List.length_range]
  · rfl

theorem start_part (rq : Request) (a pos n : ℕ) : (part rq a pos n).start = a := by
  rw [part]
  split <;> rfl

theorem cut_part (rq : Request) (a pos n : ℕ) {m : ℕ} (h : m ≤ n) :
    (part rq a pos n).cut m = part rq a pos m := by
  rw [part, part]
  split
  · rw [Access.cut, ← List.map_take, List.take_range, Nat.min_eq_left h]
  · rw [Access.cut, Nat.min_eq_left h]

/-- Two parts that adjoin are one. -/
theorem after_part (rq : Request) {d : List UInt8} {a : ℕ} (ha : a ≤ d.length) (pos m n : ℕ) :
    (part rq (a + m) (pos + m) n).after ((part rq a pos m).after d) = (part rq a pos (m + n)).after d := by
  simp only [part]
  split
  · have hmap : (List.range (m + n)).map (fun i => rq.fifo (pos + i))
        = (List.range m).map (fun i => rq.fifo (pos + i))
          ++ (List.range n).map (fun i => rq.fifo (pos + m + i)) := by
      rw [List.range_add, List.map_append, List.map_map]
      refine congrArg _ (List.map_congr_left fun i _ => ?_)
      rw [Nat.add_assoc]
      rfl
    have hlen : ((List.range m).map fun i => rq.fifo (pos + i)).length = m := by
      rw [List.length_map, List.length_range]
    have hjoin := Splice.splice_splice ((List.range m).map fun i => rq.fifo (pos + i))
      ((List.range n).map fun i => rq.fifo (pos + m + i)) ha
    rw [hlen, ← hmap] at hjoin
    exact hjoin
  · rfl

theorem answer_part (rq : Request) (d : List UInt8) (a pos m n : ℕ) :
    (part rq a pos m).answer d ++ (part rq (a + m) (pos + m) n).answer ((part rq a pos m).after d)
      = (part rq a pos (m + n)).answer d := by
  simp only [part]
  split
  · rfl
  · simp only [Access.answer, Access.after]
    rw [← List.drop_drop, List.take_add]

/-! ### Passes -/

section
variable {δ : Type}

/-- What stays of a drive while a transfer moves its file. -/
structure SameDrive (d d' : Fch δ) : Prop where
  status : d'.status = d.status
  write : d'.fSource.write = d.fSource.write

theorem SameDrive.refl (d : Fch δ) : SameDrive d d := ⟨rfl, rfl⟩

theorem SameDrive.trans {d d' d'' : Fch δ} (h : SameDrive d d') (h' : SameDrive d' d'') :
    SameDrive d d'' := ⟨h'.status.trans h.status, h'.write.trans h.write⟩

theorem SameDrive.writable {d d' : Fch δ} (h : SameDrive d d') : d'.writable = d.writable := by
  rw [Fch.writable, Fch.writable, h.status]

/-- A part of a transfer does the first `m` bytes of what is left of a request. -/
structure Does (rq : Request) (data : List UInt8) (a pos m : ℕ) (t t' : Transfer δ) : Prop where
  sent : sent t'.outs = sent t.outs ++ (part rq a pos m).answer data
  stands : At ((part rq a pos m).after data) (a + m) t'.pDrive.fSource
  same : SameDrive t.pDrive t'.pDrive

theorem Does.trans {rq : Request} {data : List UInt8} {a pos m n : ℕ} {t t' t'' : Transfer δ}
    (ha : a ≤ data.length) (h : Does rq data a pos m t t')
    (h' : Does rq ((part rq a pos m).after data) (a + m) (pos + m) n t' t'') :
    Does rq data a pos (m + n) t t'' where
  sent := by rw [h'.sent, h.sent, List.append_assoc, answer_part]
  stands := by
    have hat := h'.stands
    rw [after_part rq ha, Nat.add_assoc] at hat
    exact hat
  same := h.same.trans h'.same

/-- Nothing is done. -/
theorem Does.nothing {rq : Request} {data : List UInt8} {a pos : ℕ} {t t' : Transfer δ}
    (h : At data a t.pDrive.fSource) (hdrive : t'.pDrive = t.pDrive)
    (hsent : Drv08.sent t'.outs = Drv08.sent t.outs) : Does rq data a pos 0 t t' := by
  have hpart : (part rq a pos 0).answer data = [] ∧ (part rq a pos 0).after data = data := by
    rw [part]
    split
    · exact ⟨rfl, Splice.splice_nil data a⟩
    · exact ⟨rfl, rfl⟩
  refine ⟨?_, ?_, ?_⟩
  · rw [hpart.1, List.append_nil, hsent]
  · rw [hpart.2, Nat.add_zero, hdrive]
    exact h
  · rw [hdrive]
    exact SameDrive.refl _

/-- A write moves a file that it fits in, past what it stored. -/
theorem At.write {data : List UInt8} {a : ℕ} {fp : FIL} (h : At data a fp) (hw : fp.write = true)
    (bs : List UInt8) (hle : a + bs.length ≤ data.length) :
    (FF_Write fp bs).1 = bs.length ∧ At (Splice.splice data a bs) (a + bs.length) (FF_Write fp bs).2 ∧
      (FF_Write fp bs).2.write = fp.write := by
  obtain ⟨hok, herr, rfl, rfl, hread⟩ := h
  have hsize : fp.fptr + bs.length ≤ fp.objsize := hle
  have hcap := hok.size_le
  obtain ⟨hcount, hsame, hpos⟩ := @FF_Write_count fp bs herr hw hok.csize_pos
  have hin := FF_Write_in hok herr hw hsize
  have hdata : (FF_Write fp bs).2.data = Splice.splice fp.data fp.fptr bs := by rw [hin]
  have hlen : (FF_Write fp bs).1 = bs.length := by
    rw [hcount]
    exact Nat.min_eq_right (by omega)
  refine ⟨hlen, ⟨FF_Write_ok hok bs, hsame.err.trans herr, hdata, by rw [hpos, hlen], ?_⟩, hsame.write⟩
  rw [Splice.length_splice_of_le hle, hin]
  exact hread

variable {rq : Request} {stall : ℕ → Bool} {data : List UInt8} {a pos : ℕ} {t : Transfer δ}

theorem writePass_does (hdir : dir rq.status = true) (h : At data a t.pDrive.fSource)
    (hstop : t.stopped = false) (hwritable : t.pDrive.writable = true)
    (hw : t.pDrive.fSource.write = true) {cur_size : UInt16} (hle : a + cur_size.toNat ≤ data.length) :
    (writePass t rq pos cur_size).stopped = false ∧
      Does rq data a pos cur_size.toNat t (writePass t rq pos cur_size) := by
  have hlen : ((List.range cur_size.toNat).map fun i => rq.fifo (pos + i)).length = cur_size.toNat := by
    rw [List.length_map, List.length_range]
  obtain ⟨hcount, hat, hsame⟩ := h.write hw
    ((List.range cur_size.toNat).map fun i => rq.fifo (pos + i)) (by rw [hlen]; exact hle)
  rw [hlen] at hcount hat
  rw [writePass, if_neg (by rw [hwritable]; decide)]
  simp only
  rw [if_neg (by rw [hcount]; exact fun hne => hne rfl)]
  refine ⟨hstop, ?_, ?_, ⟨rfl, hsame⟩⟩
  · rw [part, if_pos hdir]
    exact (List.append_nil _).symm
  · rw [part, if_pos hdir]
    exact hat

theorem readPass_status (t : Transfer δ) (burstable : Bool) (cur_size : UInt16) :
    (readPass t burstable cur_size).pDrive.status = t.pDrive.status := by
  rw [readPass]
  cases burstable
  · simp only [Bool.false_eq_true, if_false]
    split <;> rfl
  · simp only [if_true]
    split <;> rfl

theorem readPass_does (hdir : dir rq.status = false) (h : At data a t.pDrive.fSource)
    (hstop : t.stopped = false) {burstable : Bool} {cur_size : UInt16}
    (hb : burstable = true → a % 512 = 0 ∧ cur_size.toNat % 512 = 0)
    (hle : a + cur_size.toNat ≤ data.length) :
    (readPass t burstable cur_size).stopped = false ∧
      Does rq data a pos cur_size.toNat t (readPass t burstable cur_size) := by
  have hfit : passStatus data a cur_size.toNat = none := by
    rw [passStatus, if_neg (by omega)]
  have hat := readPass_at h burstable cur_size
  have hmin : min cur_size.toNat (data.length - a) = cur_size.toNat := Nat.min_eq_left (by omega)
  have hcame : CameTo t (readPass t burstable cur_size) ((data.drop a).take cur_size.toNat) none := by
    rw [← hfit]
    cases burstable with
    | false => exact readPass_buffered hstop h cur_size
    | true =>
      obtain ⟨ha, hn⟩ := hb rfl
      have hburst := readPass_burst hstop h ha cur_size
      rw [hmin, Nat.div_mul_cancel (Nat.dvd_of_mod_eq_zero hn)] at hburst
      exact hburst
  rw [hmin] at hat
  have hnot : ¬dir rq.status = true := by rw [hdir]; decide
  refine ⟨hcame.status, ?_, ?_, ⟨?_, ?_⟩⟩
  · rw [hcame.bytes, part, if_neg hnot]
    rfl
  · rw [part, if_neg hnot]
    exact hat
  · exact readPass_status t burstable cur_size
  · rw [readPass_file]
    exact (FF_Read_kept _ _).2

/-! ### The loop -/

/-- The bytes of one pass of the loop, and whether they go as a burst. -/
theorem transferLoop_pass (rq : Request) (stall : ℕ → Bool) (file_size fuel k pos : ℕ) (addr : UInt32)
    {size : UInt16} (hs : size ≠ 0) (t : Transfer δ) :
    ∃ (burstable : Bool) (cur_size : UInt16),
      transferLoop true rq stall file_size (fuel + 1) k pos addr size t
        = behindPass true rq stall file_size fuel k pos addr size cur_size (pass rq pos burstable cur_size t) ∧
      0 < cur_size.toNat ∧ cur_size.toNat ≤ size.toNat ∧
      (burstable = true → addr.toNat % 512 = 0 ∧ cur_size.toNat % 512 = 0) := by
  have hpos : 0 < size.toNat := Nat.pos_of_ne_zero fun hz => hs (UInt16.toNat_inj.mp hz)
  have hcur := curSize_toNat addr size
  cases hdir : dir rq.status with
  | true =>
    refine ⟨false, curSize addr size, ?_, by omega, by omega, fun h => Bool.noConfusion h⟩
    rw [transferLoop, if_neg hs, pass]
    simp only [hdir, Bool.not_true, Bool.and_false, Bool.false_and, Bool.false_eq_true, if_false, if_true]
    rfl
  | false =>
    refine ⟨decide (Burst file_size addr size), passSize file_size addr size, ?_, ?_⟩
    · rw [transferLoop_read hdir _ _ _ _ _ _ hs, pass, if_neg (by rw [hdir]; decide)]
    · rw [passSize]
      by_cases hb : Burst file_size addr size
      · have hsize := burst_size size
        have h512 := hb.2.1
        rw [if_pos hb, hsize]
        exact ⟨by omega, by omega, fun _ => ⟨hb.1, Nat.mul_mod_left _ _⟩⟩
      · rw [if_neg hb]
        exact ⟨by omega, by omega, fun h => absurd (of_decide_eq_true h) hb⟩

variable (rq pos) in
theorem pass_does {burstable : Bool} {cur_size : UInt16} (h : At data a t.pDrive.fSource)
    (hstop : t.stopped = false)
    (hw : dir rq.status = true → t.pDrive.writable = true ∧ t.pDrive.fSource.write = true)
    (hb : burstable = true → a % 512 = 0 ∧ cur_size.toNat % 512 = 0)
    (hle : a + cur_size.toNat ≤ data.length) :
    (pass rq pos burstable cur_size t).stopped = false ∧
      Does rq data a pos cur_size.toNat t (pass rq pos burstable cur_size t) := by
  rw [pass]
  split
  · next hdir => exact writePass_does hdir h hstop (hw hdir).1 (hw hdir).2 hle
  · next hdir => exact readPass_does (Bool.eq_false_of_not_eq_true hdir) h hstop hb hle

variable (rq stall) in
/-- The loop does the first `m` bytes of what is left, all of them when no wait times out, and it stops
    the transfer when they are not all. -/
theorem transferLoop_does : ∀ (fuel k pos : ℕ) (addr : UInt32) (size : UInt16) {a : ℕ}
    {data : List UInt8} {t : Transfer δ}, size.toNat ≤ fuel → At data a t.pDrive.fSource →
    t.stopped = false →
    (dir rq.status = true → t.pDrive.writable = true ∧ t.pDrive.fSource.write = true) →
    addr.toNat = a % 2 ^ 32 → a + size.toNat ≤ data.length →
    ∃ m, m ≤ size.toNat ∧
      Does rq data a pos m t (transferLoop true rq stall data.length fuel k pos addr size t) ∧
      ((transferLoop true rq stall data.length fuel k pos addr size t).stopped = true ↔ m < size.toNat) ∧
      ((∀ j, stall j = false) → m = size.toNat)
  | 0, k, pos, addr, size, a, data, t, hfuel, h, hstop, _, _, _ => by
    have h0 : size.toNat = 0 := Nat.le_zero.mp hfuel
    refine ⟨0, Nat.zero_le _, Does.nothing h rfl rfl, ?_, fun _ => h0.symm⟩
    rw [transferLoop, hstop, h0]
    exact ⟨fun hc => Bool.noConfusion hc, fun hc => absurd hc (Nat.lt_irrefl 0)⟩
  | fuel + 1, k, pos, addr, size, a, data, t, hfuel, h, hstop, hw, haddr, hle => by
    by_cases hs : size = 0
    · subst hs
      rw [transferLoop, if_pos rfl]
      refine ⟨0, Nat.zero_le _, Does.nothing h rfl rfl, ?_, fun _ => rfl⟩
      rw [hstop]
      exact ⟨fun hc => Bool.noConfusion hc, fun hc => absurd hc (Nat.lt_irrefl 0)⟩
    · obtain ⟨burstable, cur_size, hround, hpos, hcur, hb⟩ :=
        transferLoop_pass rq stall data.length fuel k pos addr hs t
      rw [hround]
      obtain ⟨hstop', hdoes⟩ := pass_does rq pos h hstop hw
        (fun hburst => by
          obtain ⟨h1, h2⟩ := hb hburst
          exact ⟨by omega, h2⟩)
        (show a + cur_size.toNat ≤ data.length by omega)
      generalize pass rq pos burstable cur_size t = t' at hstop' hdoes ⊢
      rw [behindPass, if_neg (by rw [hstop']; decide)]
      have hsub := sub_toNat hcur
      by_cases hstall : size - cur_size ≠ 0 ∧ stall k = true
      · -- the wait behind the pass times out
        rw [if_pos hstall]
        have hlt : cur_size.toNat < size.toNat := by
          have hne : (size - cur_size).toNat ≠ 0 := fun hz => hstall.1 (UInt16.toNat_inj.mp hz)
          omega
        refine ⟨cur_size.toNat, hcur, ⟨?_, hdoes.stands, hdoes.same⟩, ⟨fun _ => hlt, fun _ => rfl⟩, fun hno => ?_⟩
        · rw [sent_append, hdoes.sent]
          exact List.append_nil _
        · rw [hno k] at hstall
          exact Bool.noConfusion hstall.2
      · rw [if_neg hstall]
        have hlen : ((part rq a pos cur_size.toNat).after data).length = data.length := by
          refine Access.length_after ?_
          rw [Access.Fits, start_part, size_part]
          omega
        obtain ⟨m, hm, hrest, hstopped, hall⟩ := transferLoop_does fuel (k + 1)
          (pos + cur_size.toNat) _ (size - cur_size) (t := t') (by omega) hdoes.stands hstop'
          (fun hdir => by
            rw [hdoes.same.writable, hdoes.same.write]
            exact hw hdir)
          (addr_behind haddr) (by rw [hlen]; omega)
        rw [hlen] at hrest hstopped
        refine ⟨cur_size.toNat + m, by omega, hdoes.trans (by omega) hrest, ?_, fun hno => ?_⟩
        · rw [hstopped]
          omega
        · have := hall hno
          omega

/-- Nothing is written to a drive that is not to be written to. -/
theorem transferLoop_protected (hdir : dir rq.status = true) (hw : t.pDrive.writable = false)
    (hstop : t.stopped = false) {file_size fuel k pos : ℕ} {addr : UInt32} {size : UInt16}
    (hfuel : size.toNat ≤ fuel) :
    (transferLoop true rq stall file_size fuel k pos addr size t).pDrive = t.pDrive ∧
      sent (transferLoop true rq stall file_size fuel k pos addr size t).outs = sent t.outs ∧
      ((transferLoop true rq stall file_size fuel k pos addr size t).stopped = true ↔ 0 < size.toNat) := by
  by_cases hs : size = 0
  · have hend : transferLoop true rq stall file_size fuel k pos addr size t = t := by
      cases fuel with
      | zero => rfl
      | succ fuel => rw [transferLoop, if_pos hs]
    rw [hend, hs, hstop]
    exact ⟨rfl, rfl, fun hc => Bool.noConfusion hc, fun hc => absurd hc (Nat.lt_irrefl 0)⟩
  · have hpos : 0 < size.toNat := Nat.pos_of_ne_zero fun hz => hs (UInt16.toNat_inj.mp hz)
    obtain ⟨fuel, rfl⟩ : ∃ n, fuel = n + 1 := ⟨fuel - 1, by omega⟩
    obtain ⟨burstable, cur_size, hround, -⟩ :=
      transferLoop_pass rq stall file_size fuel k pos addr hs t
    have hpass : pass rq pos burstable cur_size t
        = { t with outs := t.outs ++ [.stat statAckTruncErr], stopped := true } := by
      rw [pass, if_pos hdir, writePass, if_pos (by rw [hw]; rfl)]
    rw [hround, hpass, behindPass, if_pos rfl, sent_append]
    exact ⟨rfl, List.append_nil _, fun _ => hpos, fun _ => rfl⟩

end

/-! ### Requests -/

/-- A drive holds these bytes: its file can be read to its end, and written to when the drive can be. -/
structure Holds (data : List UInt8) (d : Fch Desc) : Prop where
  stands : ∃ a, At data a d.fSource
  write : d.writable = true → d.fSource.write = true

/-- A request inside the image does the first `m` bytes of its access. It stops when they are not all, and
    they are when no wait times out and the drive can be written to. -/
theorem request_does (rq : Request) (stall : ℕ → Bool) {data : List UInt8} {t : Transfer Desc}
    (h : Holds data t.pDrive) (hstop : t.stopped = false) (hfit : (access rq).Fits data.length) :
    ∃ m, m ≤ (access rq).size ∧
      sent (request rq stall t).outs = sent t.outs ++ ((access rq).cut m).answer data ∧
      Holds (((access rq).cut m).after data) (request rq stall t).pDrive ∧
      SameDrive t.pDrive (request rq stall t).pDrive ∧
      ((request rq stall t).stopped = true ↔ m < (access rq).size) ∧
      ((∀ j, stall j = false) → (dir rq.status = true → t.pDrive.writable = true) →
        m = (access rq).size) := by
  obtain ⟨⟨pos, hat⟩, hwrite⟩ := h
  obtain ⟨hok, herr, rfl, -, hread⟩ := hat
  rw [Access.Fits, access, start_part, size_part] at hfit
  have hsize : (access rq).size = (reqSize rq).toNat := size_part ..
  obtain ⟨clust, hseek⟩ := FF_Seek_in hok herr (show (reqAddr rq).toNat ≤ t.pDrive.fSource.objsize from
    (Nat.le_add_right _ _).trans hfit)
  have hok' := FF_Seek_ok hok (reqAddr rq).toNat
  rw [hseek] at hok'
  set u : Transfer Desc := { t with
    pDrive := { t.pDrive with
      fSource := { t.pDrive.fSource with fptr := (reqAddr rq).toNat, clust := clust } }
    outs := t.outs ++ [.stat statReqAck] } with hu
  have hat : At t.pDrive.fSource.data (reqAddr rq).toNat u.pDrive.fSource := ⟨hok', herr, rfl, rfl, hread⟩
  have hsent : sent u.outs = sent t.outs := by
    rw [hu, sent_append]
    exact List.append_nil _
  have hrun : request rq stall t
      = if (transferLoop true rq stall t.pDrive.fSource.data.length (reqSize rq).toNat 0 0 (reqAddr rq)
          (reqSize rq) u).stopped then
        transferLoop true rq stall t.pDrive.fSource.data.length (reqSize rq).toNat 0 0 (reqAddr rq)
          (reqSize rq) u
      else { transferLoop true rq stall t.pDrive.fSource.data.length (reqSize rq).toNat 0 0 (reqAddr rq)
          (reqSize rq) u with
        outs := (transferLoop true rq stall t.pDrive.fSource.data.length (reqSize rq).toNat 0 0
          (reqAddr rq) (reqSize rq) u).outs ++ [.stat statAckOk] } := by
    rw [request, transfer, show ({ t with outs := t.outs ++ [.stat statReqAck] } : Transfer Desc).pDrive
      = t.pDrive from rfl, hseek]
    rfl
  -- the loop, and what it says about the request
  have hfinish : ∀ m, m ≤ (access rq).size →
      Does rq t.pDrive.fSource.data (reqAddr rq).toNat 0 m u (transferLoop true rq stall
        t.pDrive.fSource.data.length (reqSize rq).toNat 0 0 (reqAddr rq) (reqSize rq) u) →
      sent (request rq stall t).outs = sent t.outs ++ ((access rq).cut m).answer t.pDrive.fSource.data ∧
        Holds (((access rq).cut m).after t.pDrive.fSource.data) (request rq stall t).pDrive ∧
        SameDrive t.pDrive (request rq stall t).pDrive ∧
        (request rq stall t).stopped = (transferLoop true rq stall t.pDrive.fSource.data.length
          (reqSize rq).toNat 0 0 (reqAddr rq) (reqSize rq) u).stopped := by
    intro m hm hdoes
    rw [hrun]
    generalize transferLoop true rq stall t.pDrive.fSource.data.length (reqSize rq).toNat 0 0 (reqAddr rq)
      (reqSize rq) u = t' at hdoes ⊢
    have hsame : SameDrive t.pDrive t'.pDrive := ⟨hdoes.same.status, hdoes.same.write⟩
    have hout : sent t'.outs
        = sent t.outs ++ ((access rq).cut m).answer t.pDrive.fSource.data := by
      rw [access, cut_part rq _ _ _ (by rw [← hsize]; exact hm), hdoes.sent, hsent]
    have hholds : Holds (((access rq).cut m).after t.pDrive.fSource.data) t'.pDrive := by
      rw [access, cut_part rq _ _ _ (by rw [← hsize]; exact hm)]
      refine ⟨⟨_, hdoes.stands⟩, fun hwr => ?_⟩
      rw [hsame.write]
      exact hwrite (by rw [← hsame.writable]; exact hwr)
    split
    · exact ⟨hout, hholds, hsame, rfl⟩
    · refine ⟨?_, hholds, hsame, rfl⟩
      rw [sent_append, hout]
      exact List.append_nil _
  by_cases hw : dir rq.status = true → t.pDrive.writable = true
  · obtain ⟨m, hm, hdoes, hstopped, hall⟩ := transferLoop_does rq stall
      (reqSize rq).toNat 0 0 (reqAddr rq) (reqSize rq) (t := u) (le_refl _) hat hstop
      (fun hdir => ⟨hw hdir, hwrite (hw hdir)⟩) (Nat.mod_eq_of_lt (reqAddr rq).toNat_lt).symm hfit
    rw [← hsize] at hm
    obtain ⟨h1, h2, h3, h4⟩ := hfinish m hm hdoes
    refine ⟨m, hm, h1, h2, h3, ?_, fun hno _ => ?_⟩
    · rw [h4, hstopped, hsize]
    · rw [hsize]
      exact hall hno
  · rw [Classical.not_imp] at hw
    obtain ⟨hdir, hw⟩ := hw
    obtain ⟨h1, h2, h3⟩ := @transferLoop_protected Desc rq stall u hdir (Bool.eq_false_of_not_eq_true hw)
      hstop t.pDrive.fSource.data.length (reqSize rq).toNat 0 0 (reqAddr rq) (reqSize rq) (le_refl _)
    obtain ⟨h4, h5, h6, h7⟩ := hfinish 0 (Nat.zero_le _) (Does.nothing hat h1 h2)
    refine ⟨0, Nat.zero_le _, h4, h5, h6, ?_, fun _ hall => absurd (hall hdir) hw⟩
    rw [h7, h3, hsize]

/-- A request is acknowledged, and then answered; it is done exactly when it does not stop. -/
theorem request_code (rq : Request) (stall : ℕ → Bool) {t : Transfer Desc} (hstop : t.stopped = false) :
    ∃ s, Terminal s ∧ stats (request rq stall t).outs = stats t.outs ++ [statReqAck, s] ∧
      (s = statAckOk ↔ (request rq stall t).stopped = false) := by
  rw [request, transfer]
  split
  · next fSource _ =>
    simp only
    rcases transferLoop_ends true rq stall (FF_Size fSource) (reqSize rq).toNat 0 0 (reqAddr rq)
      (reqSize rq) (t := { t with
        pDrive := { t.pDrive with fSource := fSource }, outs := t.outs ++ [.stat statReqAck] }) hstop
      with ⟨hstop', hstats⟩ | ⟨outs, s, hstop', houts, hstats, hs⟩
    · rw [if_neg (by rw [hstop']; decide)]
      refine ⟨statAckOk, Or.inl rfl, ?_, fun _ => hstop', fun _ => rfl⟩
      rw [stats_append, hstats, stats_append, List.append_assoc]
      rfl
    · rw [if_pos hstop']
      refine ⟨s, ?_, ?_, ?_⟩
      · rcases hs with rfl | rfl
        · exact Or.inr (Or.inr (Or.inl rfl))
        · exact Or.inr (Or.inr (Or.inr rfl))
      · rw [houts, stats_append, hstats, stats_append, List.append_assoc]
        rfl
      · rw [hstop']
        rcases hs with rfl | rfl <;> decide
  · refine ⟨statAckSeekErr, Or.inr (Or.inl rfl), ?_, fun h => absurd h (by decide), fun h => Bool.noConfusion h⟩
    rw [stats_append, stats_append, List.append_assoc]
    rfl

/-! ### Runs -/

/-- The drives of both channels, and what their cores have been sent. -/
structure Channels where
  handle : Fin 2 → Fin 4 → Fch Desc
  outs : Fin 2 → List FChOut

/-- A call for one of the channels: what its core presents from then on, the waits that time out, and what
    happens to lie in the buffer. -/
structure Call where
  ch : Fin 2
  rq : ℕ → Request
  stall : ℕ → ℕ → Bool
  fbuf : ℕ → UInt8

/-- A channel as its driver leaves it. -/
def Channels.put (s : Channels) (ch : Fin 2) (r : (Fin 4 → Fch Desc) × (ℕ → UInt8) × List FChOut) :
    Channels :=
  { handle := Function.update s.handle ch r.1, outs := Function.update s.outs ch r.2.2 }

/-- `FileIO_FCh_Process`, for channels with this driver. -/
def fchProcess (s : Channels) (c : Call) : Channels :=
  if (c.rq 0).status &&& reqAct ≠ 0 then
    s.put c.ch (process c.rq c.stall processLimit 0 (s.handle c.ch) c.fbuf (s.outs c.ch))
  else s

/-- A request that was taken: the access it came to, and the code it was answered with. -/
structure Entry where
  ch : Fin 2
  rq : Request
  stall : ℕ → Bool
  acc : Access UInt8
  code : UInt8

/-- The drive it is about. -/
def Entry.place (e : Entry) : Fin 2 × Fin 4 := (e.ch, driveNumber e.rq.status)

/-- The accesses that were made. -/
def accesses (log : List Entry) : List ((Fin 2 × Fin 4) × Access UInt8) := log.map fun e => (e.place, e.acc)

theorem accesses_append (log log' : List Entry) :
    accesses (log ++ log') = accesses log ++ accesses log' := List.map_append

/-- What the core of a channel is sent of the answers. -/
def deliveredTo (ch : Fin 2) (log : List Entry) (bss : List (List UInt8)) : List UInt8 :=
  (log.zip bss).flatMap fun x => if x.1.ch = ch then x.2 else []

/-- The codes it is answered with. -/
def codesTo (ch : Fin 2) (log : List Entry) : List UInt8 :=
  log.flatMap fun e => if e.ch = ch then [statReqAck, e.code] else []

/-- A request comes to the first bytes of the access it asks for, and is answered as done only if that is
    all of it; with a drive that is mounted, and that can be written to if need be, it is done when no wait
    times out. -/
structure Entry.Fair (handle : Fin 2 → Fin 4 → Fch Desc) (e : Entry) : Prop where
  part : ∃ m, e.acc = (access e.rq).cut m
  terminal : Terminal e.code
  done : e.code = statAckOk → e.acc = access e.rq
  mounted : e.code = statAckOk → getInserted (handle e.ch) (driveNumber e.rq.status) = true
  prompt : (∀ j, e.stall j = false) → getInserted (handle e.ch) (driveNumber e.rq.status) = true →
    (dir e.rq.status = true → (handle e.ch (driveNumber e.rq.status)).writable = true) →
    e.code = statAckOk

/-- A log of accesses explains what becomes of the channels, whose drives held `d`. -/
structure Explains (d : Fin 2 × Fin 4 → List UInt8) (log : List Entry) (s s' : Channels) : Prop where
  holds : ∀ k, getInserted (s.handle k.1) k.2 = true →
    Holds (allBehind d (accesses log) k) (s'.handle k.1 k.2)
  same : ∀ c n, SameDrive (s.handle c n) (s'.handle c n)
  data : ∀ ch, sent (s'.outs ch) = sent (s.outs ch) ++ deliveredTo ch log (replies d (accesses log))
  codes : ∀ ch, stats (s'.outs ch) = stats (s.outs ch) ++ codesTo ch log
  fair : ∀ e ∈ log, e.Fair s.handle
  fits : ∀ e ∈ log, getInserted (s.handle e.ch) (driveNumber e.rq.status) = true →
    e.acc.Fits (d e.place).length

/-- Every mounted drive holds what it should. -/
def Stores (d : Fin 2 × Fin 4 → List UInt8) (s : Channels) : Prop :=
  ∀ k, getInserted (s.handle k.1) k.2 = true → Holds (d k) (s.handle k.1 k.2)

/-- A request to a mounted drive lies inside its image. -/
def Inside (d : Fin 2 × Fin 4 → List UInt8) (handle : Fin 2 → Fin 4 → Fch Desc) (ch : Fin 2)
    (rq : Request) : Prop :=
  getInserted (handle ch) (driveNumber rq.status) = true →
    (access rq).Fits (d (ch, driveNumber rq.status)).length

theorem Explains.refl {d : Fin 2 × Fin 4 → List UInt8} {s : Channels} (h : Stores d s) :
    Explains d [] s s where
  holds := h
  same _ _ := SameDrive.refl _
  data _ := (List.append_nil _).symm
  codes _ := (List.append_nil _).symm
  fair _ he := absurd he List.not_mem_nil
  fits _ he := absurd he List.not_mem_nil

theorem SameDrive.inserted {handle handle' : Fin 4 → Fch Desc} {n : Fin 4}
    (h : SameDrive (handle n) (handle' n)) : getInserted handle' n = getInserted handle n := by
  rw [getInserted, getInserted, h.status]

theorem Entry.Fair.congr {handle handle' : Fin 2 → Fin 4 → Fch Desc} {e : Entry}
    (hsame : ∀ c n, SameDrive (handle c n) (handle' c n)) (h : e.Fair handle') : e.Fair handle where
  part := h.part
  terminal := h.terminal
  done := h.done
  mounted hc := (hsame _ _).inserted.symm.trans (h.mounted hc)
  prompt hno hins hw := h.prompt hno ((hsame _ _).inserted.trans hins) fun hdir =>
    (hsame _ _).writable.trans (hw hdir)

/-- The accesses to a mounted drive lie inside what it holds. -/
theorem Explains.madeTo_fits {d : Fin 2 × Fin 4 → List UInt8} {log : List Entry} {s s' : Channels}
    (h : Explains d log s s') {k : Fin 2 × Fin 4} (hins : getInserted (s.handle k.1) k.2 = true) :
    ∀ a ∈ madeTo k (accesses log), a.Fits (d k).length := by
  intro a ha
  obtain ⟨x, hx, hkx⟩ := List.mem_filterMap.mp ha
  obtain ⟨e, he, rfl⟩ := List.mem_map.mp hx
  by_cases hk : e.place = k
  · rw [if_pos hk] at hkx
    obtain rfl := Option.some.inj hkx
    subst hk
    exact h.fits e he hins
  · rw [if_neg hk] at hkx
    cases hkx

/-- They leave its size alone. -/
theorem Explains.length {d : Fin 2 × Fin 4 → List UInt8} {log : List Entry} {s s' : Channels}
    (h : Explains d log s s') {k : Fin 2 × Fin 4} (hins : getInserted (s.handle k.1) k.2 = true) :
    (allBehind d (accesses log) k).length = (d k).length := length_behind (h.madeTo_fits hins)

theorem Explains.trans {d : Fin 2 × Fin 4 → List UInt8} {log log' : List Entry} {s s' s'' : Channels}
    (h : Explains d log s s') (h' : Explains (allBehind d (accesses log)) log' s' s'') :
    Explains d (log ++ log') s s'' where
  holds k hins := by
    rw [accesses_append, allBehind_append]
    exact h'.holds k ((h.same _ _).inserted.trans hins)
  same c n := (h.same c n).trans (h'.same c n)
  data ch := by
    have hlen : log.length = (replies d (accesses log)).length := by
      rw [length_replies, accesses, List.length_map]
    rw [h'.data, h.data, List.append_assoc, accesses_append, replies_append, deliveredTo, deliveredTo,
      deliveredTo, List.zip_append hlen, List.flatMap_append]
  codes ch := by rw [h'.codes, h.codes, List.append_assoc, codesTo, codesTo, codesTo, List.flatMap_append]
  fair e he := by
    rcases List.mem_append.mp he with he | he
    · exact h.fair e he
    · exact (h'.fair e he).congr h.same
  fits e he hins := by
    rcases List.mem_append.mp he with he | he
    · exact h.fits e he hins
    · have hfit := h'.fits e he ((h.same _ _).inserted.trans hins)
      rw [h.length (k := e.place) hins] at hfit
      exact hfit

/-- Reads that are done deliver, byte by byte, what was put there last, or what the drive held. -/
def ReadsLatest (d : Fin 2 × Fin 4 → List UInt8) (log : List Entry) : Prop :=
  ∀ (log₁ : List Entry) (e : Entry) (log₂ : List Entry), log = log₁ ++ e :: log₂ → e.code = statAckOk →
    dir e.rq.status = false → ∀ j, j < (reqSize e.rq).toNat →
      (replies d (accesses log))[log₁.length]?.bind (·[j]?)
        = (lastPut ((reqAddr e.rq).toNat + j) (madeTo e.place (accesses log₁))).or
          (d e.place)[(reqAddr e.rq).toNat + j]?

theorem Explains.readsLatest {d : Fin 2 × Fin 4 → List UInt8} {log : List Entry} {s s' : Channels}
    (h : Explains d log s s') : ReadsLatest d log := by
  rintro log₁ e log₂ rfl hok hdir j hj
  have he : e ∈ log₁ ++ e :: log₂ := List.mem_append_right _ List.mem_cons_self
  have hins := (h.fair e he).mounted hok
  have hread : e.acc = .read (reqAddr e.rq).toNat (reqSize e.rq).toNat := by
    rw [(h.fair e he).done hok, access, part, if_neg (by rw [hdir]; decide)]
  have hfits : ∀ a ∈ madeTo e.place (accesses log₁), a.Fits (d e.place).length := by
    intro a ha
    refine h.madeTo_fits (k := e.place) hins a ?_
    rw [accesses_append, madeTo_append]
    exact List.mem_append_left _ ha
  have hlen : (accesses log₁).length = log₁.length := List.length_map _
  rw [accesses_append, accesses, accesses, List.map_cons, hread, ← accesses, ← accesses, ← hlen]
  exact getElem?_replies hfits hj

/-! ### One request of a call -/

theorem Channels.put_same (s : Channels) (ch : Fin 2) (fbuf : ℕ → UInt8) :
    s.put ch (s.handle ch, fbuf, s.outs ch) = s := by
  rw [Channels.put, Function.update_eq_self, Function.update_eq_self]

theorem Channels.put_put (s : Channels) (ch : Fin 2) (r r' : (Fin 4 → Fch Desc) × (ℕ → UInt8) × List FChOut) :
    (s.put ch r).put ch r' = s.put ch r' := by
  rw [Channels.put, Channels.put, Channels.put, Function.update_idem, Function.update_idem]

theorem Channels.put_handle (s : Channels) (ch : Fin 2)
    (r : (Fin 4 → Fch Desc) × (ℕ → UInt8) × List FChOut) : (s.put ch r).handle ch = r.1 :=
  Function.update_self ..

theorem Channels.put_outs (s : Channels) (ch : Fin 2)
    (r : (Fin 4 → Fch Desc) × (ℕ → UInt8) × List FChOut) : (s.put ch r).outs ch = r.2.2 :=
  Function.update_self ..

/-- One request on one drive: if it does this to the drive and answers so, it is explained. -/
theorem Explains.single {d : Fin 2 × Fin 4 → List UInt8} {s : Channels} {e : Entry} (drive : Fch Desc)
    (fbuf : ℕ → UInt8) (outs : List FChOut) (h : Stores d s) (hfair : e.Fair s.handle)
    (hholds : getInserted (s.handle e.ch) (driveNumber e.rq.status) = true →
      Holds (e.acc.after (d e.place)) drive)
    (hsame : SameDrive (s.handle e.ch (driveNumber e.rq.status)) drive)
    (hfit : getInserted (s.handle e.ch) (driveNumber e.rq.status) = true →
      e.acc.Fits (d e.place).length)
    (hsent : sent outs = sent (s.outs e.ch) ++ e.acc.answer (d e.place))
    (hstats : stats outs = stats (s.outs e.ch) ++ [statReqAck, e.code]) :
    Explains d [e] s
      (s.put e.ch (Function.update (s.handle e.ch) (driveNumber e.rq.status) drive, fbuf, outs)) where
  holds k hins := by
    have hbehind : allBehind d (accesses [e]) = Function.update d e.place (e.acc.after (d e.place)) :=
      allBehind_singleton ..
    obtain ⟨ch, n⟩ := k
    rw [hbehind, Channels.put]
    by_cases hch : ch = e.ch
    · subst hch
      by_cases hn : n = driveNumber e.rq.status
      · subst hn
        simp only [Function.update_self]
        rw [show (e.ch, driveNumber e.rq.status) = e.place from rfl, Function.update_self]
        exact hholds hins
      · have hne : (e.ch, n) ≠ e.place := fun heq => hn (congrArg Prod.snd heq)
        simp only [Function.update_self]
        rw [Function.update_of_ne hne, Function.update_of_ne hn]
        exact h _ hins
    · have hne : (ch, n) ≠ e.place := fun heq => hch (congrArg Prod.fst heq)
      simp only [Function.update_of_ne hch]
      rw [Function.update_of_ne hne]
      exact h _ hins
  same c n := by
    rw [Channels.put]
    by_cases hc : c = e.ch
    · subst hc
      by_cases hn : n = driveNumber e.rq.status
      · subst hn
        simp only [Function.update_self]
        exact hsame
      · simp only [Function.update_self, Function.update_of_ne hn]
        exact SameDrive.refl _
    · simp only [Function.update_of_ne hc]
      exact SameDrive.refl _
  data ch := by
    have hone : deliveredTo ch [e] (replies d (accesses [e]))
        = if e.ch = ch then e.acc.answer (d e.place) else [] := List.append_nil _
    rw [hone, Channels.put]
    by_cases hch : e.ch = ch
    · subst hch
      simp only [Function.update_self, if_true]
      exact hsent
    · simp only [Function.update_of_ne (Ne.symm hch), if_neg hch, List.append_nil]
  codes ch := by
    have hone : codesTo ch [e] = if e.ch = ch then [statReqAck, e.code] else [] := List.append_nil _
    rw [hone, Channels.put]
    by_cases hch : e.ch = ch
    · subst hch
      simp only [Function.update_self, if_true]
      exact hstats
    · simp only [Function.update_of_ne (Ne.symm hch), if_neg hch, List.append_nil]
  fair e' he' := by
    rw [List.mem_singleton.mp he']
    exact hfair
  fits e' he' hins := by
    obtain rfl := List.mem_singleton.mp he'
    exact hfit hins

/-- What a call makes of the requests it takes: they are the first of those presented, at most eight of
    them, and none only when none is asked for. -/
structure Call.Logged (c : Call) (l : List Entry) : Prop where
  requests : l.map Entry.rq = (List.range l.length).map c.rq
  waits : l.map Entry.stall = (List.range l.length).map c.stall
  channel : ∀ e ∈ l, e.ch = c.ch
  limit : l.length ≤ processLimit
  asked : l ≠ [] ↔ (c.rq 0).status &&& reqAct ≠ 0

/-- A call of the driver from request `k` on. -/
theorem process_explains (ch : Fin 2) (rq : ℕ → Request) (stall : ℕ → ℕ → Bool) :
    ∀ (goes k : ℕ) {d : Fin 2 × Fin 4 → List UInt8} {s : Channels} (fbuf : ℕ → UInt8), Stores d s →
      (∀ k, Inside d s.handle ch (rq k)) →
      ∃ log, Explains d log s (s.put ch (process rq stall goes k (s.handle ch) fbuf (s.outs ch))) ∧
        log.map Entry.rq = (List.range log.length).map (fun i => rq (k + i)) ∧
        log.map Entry.stall = (List.range log.length).map (fun i => stall (k + i)) ∧
        (∀ e ∈ log, e.ch = ch) ∧ log.length ≤ goes ∧ (0 < goes → log ≠ [])
  | 0, k, d, s, fbuf, h, _ => by
    refine ⟨[], ?_, rfl, rfl, fun _ he => absurd he List.not_mem_nil, le_refl _,
      fun hpos => absurd hpos (Nat.lt_irrefl 0)⟩
    rw [process, s.put_same]
    exact Explains.refl h
  | goes + 1, k, d, s, fbuf, h, hin => by
    rw [process]
    simp only
    by_cases hins : getInserted (s.handle ch) (driveNumber (rq k).status) = true
    · -- the request is served
      rw [if_neg (by rw [hins]; decide)]
      set t₀ : Transfer Desc := { pDrive := s.handle ch (driveNumber (rq k).status), fbuf := fbuf
                                  outs := s.outs ch, stopped := false } with ht₀
      obtain ⟨m, hm, hsent, hholds, hsame, hstopped, hall⟩ := request_does (rq k) (stall k)
        (t := t₀) (h (ch, driveNumber (rq k).status) hins) rfl (hin k hins)
      obtain ⟨code, hterm, hstats, hcode⟩ := request_code (rq k) (stall k) (t := t₀) rfl
      have hmem : m = (access (rq k)).size ↔ code = statAckOk := by
        rw [hcode, ← Bool.not_eq_true, hstopped]
        omega
      set t := request (rq k) (stall k) t₀ with ht
      have hone := Explains.single (e := ⟨ch, rq k, stall k, (access (rq k)).cut m, code⟩) _ t.fbuf t.outs h
        { part := ⟨m, rfl⟩, terminal := hterm
          done := fun hc => by
            show (access (rq k)).cut m = _
            rw [hmem.mpr hc, Access.cut_size]
          mounted := fun _ => hins
          prompt := fun hno _ hw => hmem.mp (hall hno hw) }
        (fun _ => hholds) hsame (fun _ => (hin k hins).cut m) hsent hstats
      by_cases hmore : (!t.stopped) = true ∧ (rq (k + 1)).status &&& reqAct ≠ 0
      · rw [if_pos hmore]
        generalize hs' : s.put ch (Function.update (s.handle ch) (driveNumber (rq k).status) t.pDrive, t.fbuf,
          t.outs) = s' at hone
        obtain ⟨log, hlog, hrqs, hstalls, hch, hlimit, -⟩ := process_explains ch rq stall goes (k + 1) t.fbuf
          (fun k' hk' => hone.holds k' ((hone.same _ _).inserted.symm.trans hk'))
          (fun i hi => by
            have hi' := (hone.same _ _).inserted.symm.trans hi
            rw [hone.length (k := (ch, driveNumber (rq i).status)) hi']
            exact hin i hi')
        have hput : s'.put ch (process rq stall goes (k + 1) (s'.handle ch) t.fbuf (s'.outs ch))
            = s.put ch (process rq stall goes (k + 1)
              (Function.update (s.handle ch) (driveNumber (rq k).status) t.pDrive) t.fbuf t.outs) := by
          rw [← hs', Channels.put_put, Channels.put_handle, Channels.put_outs]
        rw [hput] at hlog
        have hshift : ∀ {β : Type} (f : ℕ → β) (n : ℕ), (List.range (n + 1)).map (fun i => f (k + i))
            = f k :: (List.range n).map fun i => f (k + 1 + i) := by
          intro β f n
          rw [List.range_succ_eq_map, List.map_cons, List.map_map]
          refine congrArg _ (List.map_congr_left fun i _ => ?_)
          show f (k + (i + 1)) = _
          rw [Nat.add_right_comm, Nat.add_assoc]
        refine ⟨⟨ch, rq k, stall k, (access (rq k)).cut m, code⟩ :: log, hone.trans hlog, ?_, ?_, ?_, ?_,
          fun _ => List.cons_ne_nil _ _⟩
        · rw [List.map_cons, hrqs, List.length_cons, hshift rq]
        · rw [List.map_cons, hstalls, List.length_cons, hshift stall]
        · exact List.forall_mem_cons.mpr ⟨rfl, hch⟩
        · exact Nat.succ_le_succ hlimit
      · rw [if_neg hmore]
        exact ⟨_, hone, rfl, rfl, List.forall_mem_cons.mpr ⟨rfl, fun _ he => absurd he List.not_mem_nil⟩,
          Nat.succ_le_succ (Nat.zero_le _), fun _ => List.cons_ne_nil _ _⟩
    · -- there is nothing in the drive
      rw [if_pos (by rw [Bool.eq_false_of_not_eq_true hins]; rfl)]
      obtain ⟨hafter, hanswer⟩ := Access.cut_zero (d (ch, driveNumber (rq k).status)) (access (rq k))
      have hone := Explains.single (e := ⟨ch, rq k, stall k, (access (rq k)).cut 0, statAckAbortErr⟩)
        (s.handle ch (driveNumber (rq k).status)) fbuf
        (s.outs ch ++ [.stat statReqAck, .stat statAckAbortErr]) h
        { part := ⟨0, rfl⟩, terminal := Or.inr (Or.inr (Or.inr rfl))
          done := fun hc => absurd (show statAckAbortErr = statAckOk from hc) (by decide)
          mounted := fun hc => absurd (show statAckAbortErr = statAckOk from hc) (by decide)
          prompt := fun _ hi _ => absurd hi hins }
        (fun hi => absurd hi hins) (SameDrive.refl _) (fun hi => absurd hi hins)
        (by
          show _ = _ ++ ((access (rq k)).cut 0).answer (d (ch, driveNumber (rq k).status))
          rw [hanswer, sent_append]
          rfl)
        (stats_append _ _)
      simp only [Function.update_eq_self] at hone
      exact ⟨_, hone, rfl, rfl, List.forall_mem_cons.mpr ⟨rfl, fun _ he => absurd he List.not_mem_nil⟩,
        Nat.succ_le_succ (Nat.zero_le _), fun _ => List.cons_ne_nil _ _⟩

theorem fchProcess_explains {d : Fin 2 × Fin 4 → List UInt8} {s : Channels} (h : Stores d s) (c : Call)
    (hin : ∀ k, Inside d s.handle c.ch (c.rq k)) :
    ∃ log, Explains d log s (fchProcess s c) ∧ c.Logged log := by
  rw [fchProcess]
  by_cases hact : (c.rq 0).status &&& reqAct ≠ 0
  · rw [if_pos hact]
    obtain ⟨log, hlog, hrqs, hstalls, hch, hlimit, hsome⟩ :=
      process_explains c.ch c.rq c.stall processLimit 0 c.fbuf h hin
    simp only [Nat.zero_add] at hrqs hstalls
    exact ⟨log, hlog, hrqs, hstalls, hch, hlimit, fun _ => hact, fun _ => hsome (by decide)⟩
  · rw [if_neg hact]
    exact ⟨[], Explains.refl h, rfl, rfl, fun _ he => absurd he List.not_mem_nil, Nat.zero_le _,
      fun hne => absurd rfl hne, fun h => absurd h hact⟩

/-! ### The channels -/

theorem calls_explained {d : Fin 2 × Fin 4 → List UInt8} {s : Channels} (h : Stores d s)
    {calls : List Call} (hin : ∀ c ∈ calls, ∀ k, Inside d s.handle c.ch (c.rq k)) :
    ∃ logs, List.Forall₂ Call.Logged calls logs ∧
      Explains d logs.flatten s (calls.foldl fchProcess s) := by
  induction calls generalizing d s with
  | nil => exact ⟨[], .nil, Explains.refl h⟩
  | cons c calls ih =>
    rw [List.forall_mem_cons] at hin
    obtain ⟨log, hlog, hlogged⟩ := fchProcess_explains h c hin.1
    obtain ⟨logs, hlogs, hrest⟩ := ih (d := allBehind d (accesses log)) (s := fchProcess s c)
      (fun k hk => hlog.holds k ((hlog.same _ _).inserted.symm.trans hk))
      (fun c' hc' k hins => by
        have hins' := (hlog.same _ _).inserted.symm.trans hins
        rw [hlog.length (k := (c'.ch, driveNumber (c'.rq k).status)) hins']
        exact hin.2 c' hc' k hins')
    exact ⟨log :: logs, .cons hlogged hlogs, hlog.trans hrest⟩

/-- An image of one sector. -/
def sectorImage : File :=
  { data := List.replicate 512 0xE5, slack := fun _ => 0, cap := 512, csize := 512, readable := 512
    size_le := by rw [List.length_replicate], csize_pos := sector_pos }

attribute [local instance] twoChannels fourDrives in
/-- It is mounted in one of the drives, and the others are empty. -/
def sectorMounted : Channels :=
  { handle := fun ch n =>
      { status := if ch = 0 ∧ n = 0 then statInserted else 0, fSource := f_open sectorImage true
        pDesc := { file_size := 512 } }
    outs := fun _ => [] }

attribute [local instance] twoChannels in
/-- Two bytes are written at address 5, and three are read from address 4. -/
def editCall : Call :=
  { ch := 0
    rq := fun
      | 0 => { status := reqAct ||| 0x04, cmd := fun i => [0, 2, 0, 5].getD i 0, fifo := fun _ => 0x41 }
      | 1 => { status := reqAct, cmd := fun i => [0, 3, 0, 4].getD i 0, fifo := fun _ => 0 }
      | _ => { status := 0, cmd := fun _ => 0, fifo := fun _ => 0 }
    stall := fun _ _ => false, fbuf := fun _ => 0 }

end FileIO.Drv00
