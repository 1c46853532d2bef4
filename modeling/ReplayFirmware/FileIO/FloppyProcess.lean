import ReplayFirmware.FileIO.AdfWrite

/-! The floppy driver on both file channels.

    Whether the next write request is searched for a sync word or taken as a sector is remembered in
    two static variables of `FileIO_Drv01_Process`, one pair for all drives of both channels. A run
    of calls is compared with what each channel does on its own: they agree as long as every call
    finds in the statics what its own channel has left there, or resets them itself. -/

namespace FileIO.Drv01

/-! ### Calls -/

/-- The static variables: the state of a write, and the drive it is for. -/
structure Statics where
  write_state : UInt8
  write_drive : Fin 4
  deriving DecidableEq, Repr

/-- What a channel holds, and what has happened on it: the state changes of its writes, with the
    drive, and what went back to the core. -/
structure Chan where
  handle : Fin 4 → Drive
  trans : List (Fin 4 × UInt8 × UInt8)
  outs : List FChOut

/-- The variables of `FileIO_Drv01_Process` while it serves a channel. -/
structure Proc where
  chan : Chan
  statics : Statics
  fbuf : ℕ → UInt8

/-- A write request. -/
def writeRequest (p : Proc) (rq : Request) : Proc :=
  let drive_number := driveNumber rq.status
  let pDrive := p.chan.handle drive_number
  -- another drive is selected
  let write_state := if drive_number ≠ p.statics.write_drive then 0 else p.statics.write_state
  if pDrive.pDesc.format = .ADF then
    let (write_state', pDrive, outs) := adfWrite pDrive rq write_state
    { p with
      chan := {
        handle := Function.update p.chan.handle drive_number pDrive
        trans := p.chan.trans ++ [(drive_number, write_state, write_state')]
        outs := p.chan.outs ++ outs }
      statics := { write_state := write_state', write_drive := drive_number } }
  else { p with statics := { write_state := write_state, write_drive := drive_number } }

/-- A read request; it ends a write. -/
def readRequest (p : Proc) (rq : Request) : Proc :=
  let drive_number := driveNumber rq.status
  let pDrive := p.chan.handle drive_number
  let (pDrive, fbuf, outs) := match pDrive.pDesc.format with
    | .ADF => adfRead pDrive p.fbuf rq
    | .SCP => scpRead pDrive p.fbuf rq
    | .XXX => (pDrive, p.fbuf, [])
  { chan := { p.chan with
      handle := Function.update p.chan.handle drive_number pDrive
      outs := p.chan.outs ++ outs }
    statics := { p.statics with write_state := 0 }
    fbuf := fbuf }

/-- One request of a mounted drive. -/
def request (p : Proc) (rq : Request) : Proc :=
  if dir rq.status then writeRequest p rq else readRequest p rq

/-- `FileIO_Drv01_Process`, from request `k` of the channel on, with `goes` requests to go. -/
def process (rq : ℕ → Request) : ℕ → ℕ → Proc → Proc
  | 0, _, p => p
  | goes + 1, k, p =>
    if !getInserted p.chan.handle (driveNumber (rq k).status) then
      { p with chan := { p.chan with
          outs := p.chan.outs ++ [.stat statReqAck, .stat statAckAbortErr] } }
    else
      let p := request p (rq k)
      if (rq (k + 1)).status &&& reqAct ≠ 0 then process rq goes (k + 1) p else p

/-- One call: the channel, what its core presents in turn, and what the stack holds at `fbuf`. -/
structure Call where
  ch : Fin 2
  rq : ℕ → Request
  fbuf : ℕ → UInt8

/-- Both channels and the statics. -/
structure Floppy where
  chan : Fin 2 → Chan
  statics : Statics

attribute [local instance] fourDrives in
/-- The statics at power-up. -/
def Statics.init : Statics := { write_state := 0, write_drive := 0 }

def powerUp (chan : Fin 2 → Chan) : Floppy := { chan := chan, statics := Statics.init }

def Floppy.call (s : Floppy) (c : Call) : Floppy :=
  let p := process c.rq processLimit 0 { chan := s.chan c.ch, statics := s.statics, fbuf := c.fbuf }
  { chan := Function.update s.chan c.ch p.chan, statics := p.statics }

def Floppy.run (s : Floppy) (calls : List Call) : Floppy := calls.foldl Floppy.call s

/-- The calls of one channel. -/
def own (ch : Fin 2) (calls : List Call) : List Call := calls.filter fun c => c.ch = ch

/-! ### Statics a call cannot tell apart -/

/-- The state a write request works in, 0 for a request that resets it. -/
def Statics.seen (st : Statics) (status : UInt8) : UInt8 :=
  if dir status then
    if driveNumber status ≠ st.write_drive then 0 else st.write_state
  else 0

/-- Statics that differ at most in the drive of no write. -/
structure Statics.Agree (st st' : Statics) : Prop where
  state : st.write_state = st'.write_state
  drive : st.write_state ≠ 0 → st.write_drive = st'.write_drive

theorem Statics.Agree.refl (st : Statics) : st.Agree st := ⟨rfl, fun _ => rfl⟩

theorem Statics.Agree.seen_eq {st st' : Statics} (h : st.Agree st') (status : UInt8) :
    st.seen status = st'.seen status := by
  unfold Statics.seen
  by_cases h0 : st.write_state = 0
  · simp only [← h.state, h0, ite_self]
  · rw [← h.state, ← h.drive h0]

/-- The same channel and buffer, with statics that agree. -/
structure Proc.Agree (p q : Proc) : Prop where
  chan : p.chan = q.chan
  fbuf : p.fbuf = q.fbuf
  statics : p.statics.Agree q.statics

/-- A request depends on the statics through the state it sees. -/
theorem request_agree {p q : Proc} {rq : Request} (hchan : p.chan = q.chan) (hfbuf : p.fbuf = q.fbuf)
    (hseen : p.statics.seen rq.status = q.statics.seen rq.status) :
    (request p rq).Agree (request q rq) := by
  obtain ⟨chan, st, fbuf⟩ := p
  obtain ⟨chan', st', fbuf'⟩ := q
  obtain rfl : chan = chan' := hchan
  obtain rfl : fbuf = fbuf' := hfbuf
  unfold request
  by_cases hd : dir rq.status = true
  · simp only [Statics.seen, if_pos hd] at hseen
    rw [if_pos hd, if_pos hd, writeRequest, writeRequest]
    simp only [hseen]
    split
    · exact ⟨rfl, rfl, Statics.Agree.refl _⟩
    · exact ⟨rfl, rfl, Statics.Agree.refl _⟩
  · rw [if_neg hd, if_neg hd]
    exact ⟨rfl, rfl, rfl, fun h => absurd rfl h⟩

theorem process_agree (rq : ℕ → Request) : ∀ (goes k : ℕ) {p q : Proc}, p.Agree q →
    (process rq goes k p).Agree (process rq goes k q)
  | 0, _, _, _, h => h
  | goes + 1, k, p, q, h => by
    have hreq : (request p (rq k)).Agree (request q (rq k)) :=
      request_agree h.chan h.fbuf (h.statics.seen_eq _)
    rw [process, process, h.chan]
    simp only
    split
    · exact ⟨rfl, h.fbuf, h.statics⟩
    · split
      · exact process_agree rq goes (k + 1) hreq
      · exact hreq

/-- A call that finds its drive mounted agrees with one that sees the same state; a call that does
    not find it returns at once. -/
theorem process_seen (rq : ℕ → Request) (goes k : ℕ) {p q : Proc} (hchan : p.chan = q.chan)
    (hfbuf : p.fbuf = q.fbuf)
    (hseen : getInserted p.chan.handle (driveNumber (rq k).status) = true →
      p.statics.seen (rq k).status = q.statics.seen (rq k).status) :
    (process rq (goes + 1) k p).chan = (process rq (goes + 1) k q).chan ∧
      (getInserted p.chan.handle (driveNumber (rq k).status) = true →
        (process rq (goes + 1) k p).statics.Agree (process rq (goes + 1) k q).statics) ∧
      (getInserted p.chan.handle (driveNumber (rq k).status) = false →
        (process rq (goes + 1) k p).statics = p.statics ∧
        (process rq (goes + 1) k q).statics = q.statics) := by
  rw [process, process, ← hchan]
  by_cases hin : getInserted p.chan.handle (driveNumber (rq k).status) = true
  · have hreq : (request p (rq k)).Agree (request q (rq k)) := request_agree hchan hfbuf (hseen hin)
    simp only [hin, Bool.not_true, Bool.false_eq_true, if_false]
    split
    · have := process_agree rq goes (k + 1) hreq
      exact ⟨this.chan, fun _ => this.statics, fun h => absurd h (by decide)⟩
    · exact ⟨hreq.chan, fun _ => hreq.statics, fun h => absurd h (by decide)⟩
  · have hin : getInserted p.chan.handle (driveNumber (rq k).status) = false := by simpa using hin
    simp only [hin, Bool.not_false, if_true]
    exact ⟨trivial, fun h => absurd h (by decide), fun _ => ⟨trivial, trivial⟩⟩

/-! ### Runs -/

/-- Whether a call finds the drive of its first request mounted. -/
def served (s : Floppy) (c : Call) : Bool :=
  getInserted (s.chan c.ch).handle (driveNumber (c.rq 0).status)

/-- What each channel has left in the statics, after a call. -/
def leaves (s : Floppy) (left : Fin 2 → Statics) (c : Call) : Fin 2 → Statics :=
  if served s c then Function.update left c.ch (s.call c).statics else left

/-- Every call sees in the statics the state its own channel has left there. -/
def Undisturbed : Floppy → (Fin 2 → Statics) → List Call → Prop
  | _, _, [] => True
  | s, left, c :: calls =>
    (served s c = true → s.statics.seen (c.rq 0).status = (left c.ch).seen (c.rq 0).status) ∧
      Undisturbed (s.call c) (leaves s left c) calls

theorem Undisturbed.take : ∀ {s : Floppy} {left : Fin 2 → Statics} {calls : List Call},
    Undisturbed s left calls → ∀ n, Undisturbed s left (calls.take n)
  | _, _, _, _, 0 => trivial
  | _, _, [], _, _ + 1 => trivial
  | _, _, _ :: _, h, n + 1 => ⟨h.1, h.2.take n⟩

/-- A channel in the run of both, beside the run of its own calls. -/
structure Beside (s : Floppy) (left : Statics) (solo : Floppy) (ch : Fin 2) : Prop where
  chan : s.chan ch = solo.chan ch
  statics : left.Agree solo.statics

/-- A call keeps both channels beside their own runs, where only the run of its channel makes it. -/
theorem call_beside {s : Floppy} {left : Fin 2 → Statics} {solo : Fin 2 → Floppy} {c : Call}
    (h : ∀ ch, Beside s (left ch) (solo ch) ch)
    (hseen : served s c = true → s.statics.seen (c.rq 0).status = (left c.ch).seen (c.rq 0).status)
    (ch : Fin 2) :
    Beside (s.call c) (leaves s left c ch) (if c.ch = ch then (solo ch).call c else solo ch) ch := by
  by_cases hch : c.ch = ch
  · subst hch
    have hb := h c.ch
    obtain ⟨hchan, hserved, hunserved⟩ := process_seen c.rq 7 0
      (p := ⟨s.chan c.ch, s.statics, c.fbuf⟩)
      (q := ⟨(solo c.ch).chan c.ch, (solo c.ch).statics, c.fbuf⟩) hb.chan rfl
      (fun hin => (hseen hin).trans (hb.statics.seen_eq _))
    rw [if_pos rfl]
    refine ⟨?_, ?_⟩
    · simp only [Floppy.call, Function.update_self]
      exact hchan
    · rw [leaves]
      by_cases hin : served s c = true
      · rw [if_pos hin, Function.update_self]
        exact hserved hin
      · rw [if_neg hin]
        have hst : ((solo c.ch).call c).statics = (solo c.ch).statics :=
          (hunserved (by simpa [served] using hin)).2
        rw [hst]
        exact hb.statics
  · have hne : ch ≠ c.ch := fun h => hch h.symm
    have hb := h ch
    rw [if_neg hch]
    refine ⟨?_, ?_⟩
    · simp only [Floppy.call, Function.update_of_ne hne]
      exact hb.chan
    · rw [leaves]
      split
      · rw [Function.update_of_ne hne]
        exact hb.statics
      · exact hb.statics

theorem run_beside : ∀ {calls : List Call} {s : Floppy} {left : Fin 2 → Statics}
    {solo : Fin 2 → Floppy}, (∀ ch, Beside s (left ch) (solo ch) ch) → Undisturbed s left calls →
    ∀ ch, (s.run calls).chan ch = ((solo ch).run (own ch calls)).chan ch
  | [], _, _, _, h, _, ch => (h ch).chan
  | c :: calls, s, left, solo, h, hu, ch => by
    have ih := run_beside (call_beside h hu.1) hu.2 ch
    show ((s.call c).run calls).chan ch = _
    rw [ih, own, own, List.filter_cons]
    by_cases hch : c.ch = ch
    · simp only [hch, decide_true, if_true]
      rfl
    · simp only [hch, decide_false, if_false]
      rfl

/-- The state changes of one drive. -/
def transOf (chan : Chan) (drive : Fin 4) : List (Fin 4 × UInt8 × UInt8) :=
  chan.trans.filter fun t => t.1 = drive

/-- Each drive of each channel ends with the image, and has gone through the state changes, that the
    calls of its own channel alone would have brought about. -/
def Separate (chan : Fin 2 → Chan) (calls : List Call) : Prop :=
  ∀ ch drive,
    (((powerUp chan).run calls).chan ch |>.handle drive).fSource.data
        = (((powerUp chan).run (own ch calls)).chan ch |>.handle drive).fSource.data ∧
      transOf (((powerUp chan).run calls).chan ch) drive
        = transOf (((powerUp chan).run (own ch calls)).chan ch) drive

/-- In a run in which every call sees the state its own channel has left, the channels are separate
    at every point. -/
theorem separate_of_undisturbed (chan : Fin 2 → Chan) {calls : List Call}
    (h : Undisturbed (powerUp chan) (fun _ => Statics.init) calls) (n : ℕ) :
    Separate chan (calls.take n) := by
  intro ch drive
  have heq := @run_beside _ _ _ (fun _ => powerUp chan) (fun _ => ⟨rfl, Statics.Agree.refl _⟩)
    (h.take n) ch
  rw [heq]
  exact ⟨rfl, rfl⟩

/-- Four empty disks in a channel. -/
def blanks : Chan :=
  { handle := fun _ => { blank with status := statInserted }, trans := [], outs := [] }

/-- A call with one write request for drive 0: a single word, the sync word. -/
def syncCall (ch : Fin 2) : Call :=
  { ch := ch
    rq := fun k =>
      { status := if k = 0 then 0x0C else 0
        cmd := fun _ => 0
        fifo := fun i => if i = 0 then 0x44 else 0x89 }
    fbuf := fun _ => 0 }

/-- A call with one write request for drive 0: the sector of zeros. -/
def sectorCall (ch : Fin 2) : Call :=
  { ch := ch
    rq := fun k => if k = 0 then zeroSector else { zeroSector with status := 0 }
    fbuf := fun _ => 0 }

/-- The second channel looks for a sync word when the first has written its sector. -/
theorem separate_blanks :
    Separate (fun _ => blanks) [syncCall 0, sectorCall 0, syncCall 1] := by
  have h : Undisturbed (powerUp fun _ => blanks) (fun _ => Statics.init)
      [syncCall 0, sectorCall 0, syncCall 1] := by
    refine ⟨fun _ => rfl, fun _ => ?_, fun _ => ?_, trivial⟩
    · decide
    · decide
  exact separate_of_undisturbed (fun _ => blanks) h 3

/-- With a write of the first channel half done, a request of the second is not searched for its sync
    word. -/
theorem syncCalls_not_separate : ¬∀ chan calls, Separate chan calls := by
  intro h
  exact absurd (h (fun _ => blanks) [syncCall 0, syncCall 1] 1 0).2 (by decide)

/-! ### A disturbed call -/

/-- Requests add to the record of state changes. -/
theorem request_trans (p : Proc) (rq : Request) :
    ∃ more, (request p rq).chan.trans = p.chan.trans ++ more := by
  unfold request
  split
  · unfold writeRequest
    simp only
    split
    · exact ⟨_, rfl⟩
    · exact ⟨[], (List.append_nil _).symm⟩
  · exact ⟨[], (List.append_nil _).symm⟩

theorem process_trans (rq : ℕ → Request) : ∀ (goes k : ℕ) (p : Proc),
    ∃ more, (process rq goes k p).chan.trans = p.chan.trans ++ more
  | 0, _, _ => ⟨[], (List.append_nil _).symm⟩
  | goes + 1, k, p => by
    rw [process]
    simp only
    split
    · exact ⟨[], (List.append_nil _).symm⟩
    · obtain ⟨more, hmore⟩ := request_trans p (rq k)
      split
      · obtain ⟨more', hmore'⟩ := process_trans rq goes (k + 1) (request p (rq k))
        exact ⟨more ++ more', by rw [hmore', hmore, List.append_assoc]⟩
      · exact ⟨more, hmore⟩

/-- The first record of a call whose first request writes to an ADF image: the state it has seen. -/
theorem process_first (rq : ℕ → Request) (goes k : ℕ) {p : Proc}
    (hin : getInserted p.chan.handle (driveNumber (rq k).status) = true) (hdir : dir (rq k).status = true)
    (hformat : (p.chan.handle (driveNumber (rq k).status)).pDesc.format = .ADF) :
    ∃ write_state more, (process rq (goes + 1) k p).chan.trans = p.chan.trans
      ++ (driveNumber (rq k).status, p.statics.seen (rq k).status, write_state) :: more := by
  have hreq : ∃ write_state, (request p (rq k)).chan.trans = p.chan.trans
      ++ [(driveNumber (rq k).status, p.statics.seen (rq k).status, write_state)] := by
    simp only [request, if_pos hdir, writeRequest, if_pos hformat, Statics.seen]
    exact ⟨_, rfl⟩
  obtain ⟨write_state, hreq⟩ := hreq
  rw [process]
  simp only [hin, Bool.not_true, Bool.false_eq_true, if_false]
  split
  · obtain ⟨more, hmore⟩ := process_trans rq goes (k + 1) (request p (rq k))
    exact ⟨write_state, more, by rw [hmore, hreq, List.append_assoc]; rfl⟩
  · exact ⟨write_state, [], hreq⟩

/-- The first call that sees another state than its channel has left goes through other state changes
    than the call alone: the condition cannot be weakened for ADF images. -/
theorem call_differs {s solo : Floppy} {left : Statics} {c : Call} (hb : Beside s left solo c.ch)
    (hserved : served s c = true)
    (hformat : ((s.chan c.ch).handle (driveNumber (c.rq 0).status)).pDesc.format = .ADF)
    (hseen : s.statics.seen (c.rq 0).status ≠ left.seen (c.rq 0).status) :
    transOf ((s.call c).chan c.ch) (driveNumber (c.rq 0).status)
      ≠ transOf ((solo.call c).chan c.ch) (driveNumber (c.rq 0).status) := by
  have hdir : dir (c.rq 0).status = true := by
    by_contra h
    exact hseen (by rw [Statics.seen, Statics.seen, if_neg h, if_neg h])
  obtain ⟨ws, more, hjoint⟩ := process_first c.rq 7 0
    (p := ⟨s.chan c.ch, s.statics, c.fbuf⟩) hserved hdir hformat
  obtain ⟨ws', more', hsolo⟩ := process_first c.rq 7 0
    (p := ⟨solo.chan c.ch, solo.statics, c.fbuf⟩) (by rw [← hb.chan]; exact hserved) hdir
    (by rw [← hb.chan]; exact hformat)
  intro heq
  simp only [transOf, Floppy.call, Function.update_self] at heq
  rw [show processLimit = 7 + 1 from rfl, hjoint, hsolo, hb.chan, List.filter_append,
    List.filter_append, List.filter_cons, List.filter_cons] at heq
  simp only [decide_true, if_true] at heq
  have hhead := List.append_cancel_left heq
  simp only [List.cons.injEq, Prod.mk.injEq] at hhead
  exact hseen (hhead.1.2.1.trans (hb.statics.seen_eq _).symm)

end FileIO.Drv01
