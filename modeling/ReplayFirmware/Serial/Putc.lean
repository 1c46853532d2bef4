import Mathlib.Algebra.Order.Ring.Nat
import Mathlib.Data.List.Basic
import Mathlib.Tactic.Common

/-! The serial port's transmitter.

    `USART_Putc` puts a byte into a ring, and at the end of a line, at the end of the ring or at the barrier
    hands what is new to the DMA, which has a place for what it sends and one for what it sends next. The
    writer only waits for the second place. What keeps it off the bytes that are still being sent are the
    end of the ring and the barrier; while the barrier is at the start of the ring there is but one of them. -/

namespace Usart

def TXBUFLEN : ℕ := 128

/-- `USART_txbuf` with its indices, the PDC's registers, its pointers as indices too, and what has gone out
    on the line. What has been written, and what of it up to the last flush, is kept beside them. -/
structure State where
  txbuf : ℕ → UInt8
  txptr : ℕ
  wrptr : ℕ
  barrier : ℕ
  tpr : ℕ
  tcr : ℕ
  tnpr : ℕ
  tncr : ℕ
  txten : Bool
  sent : List UInt8
  written : List UInt8
  flushed : List UInt8

/-- The DMA goes on: a byte goes out, or the next registers are taken. -/
def tick (s : State) : State :=
  if s.txten = false then s
  else if s.tcr ≠ 0 then { s with sent := s.sent ++ [s.txbuf s.tpr], tpr := s.tpr + 1, tcr := s.tcr - 1 }
  else if s.tncr ≠ 0 then { s with tpr := s.tnpr, tcr := s.tncr, tncr := 0 }
  else s

def ticks : ℕ → State → State
  | 0, s => s
  | n + 1, s => ticks n (tick s)

/-- How far the DMA goes while `USART_Putc` waits, and then before it stores the byte, looks at the
    counters, and writes the next pointer and the next counter. -/
structure Progress where
  wait : ℕ
  store : ℕ
  check : ℕ
  next : ℕ
  count : ℕ

/-- `(TXBUFLEN + USART_wrptr - USART_txptr) & TXBUFMASK` -/
def length (s : State) : ℕ := (TXBUFLEN + s.wrptr - s.txptr) % TXBUFLEN

/-- The flush at the end of `USART_Putc`. -/
def flush (p : Progress) (s : State) : State :=
  if s.tcr = 0 ∧ s.tncr = 0 then
    { s with barrier := s.txptr, tpr := s.txptr, tcr := length s, txten := true, txptr := s.wrptr }
  else if s.tncr = 0 then
    let s := ticks p.next s
    let s := ticks p.count { s with tnpr := s.txptr }
    { s with tncr := length s, txptr := s.wrptr }
  else s

/-- The byte is stored. -/
def store (c : UInt8) (s : State) : State :=
  { s with
    txbuf := fun i => if i = s.wrptr then c else s.txbuf i
    wrptr := (s.wrptr + 1) % TXBUFLEN
    written := s.written ++ [c] }

/-- `USART_Putc`, `none` while it still waits. -/
def putc (c : UInt8) (p : Progress) (s : State) : Option State :=
  let s := ticks p.wait s
  if s.tncr ≠ 0 then none
  else
    let s := ticks p.check (store c (ticks p.store s))
    some (if c = 10 ∨ s.wrptr = 0 ∨ s.wrptr = s.barrier then { flush p s with flushed := s.written } else s)

def run : List (UInt8 × Progress) → State → Option State
  | [], s => some s
  | (c, p) :: calls, s => putc c p s >>= run calls

/-- As it starts. -/
def init (txbuf : ℕ → UInt8) : State := ⟨txbuf, 0, 0, 0, 0, 0, 0, 0, false, [], [], []⟩

/-! ### Nothing is lost -/

/-- `len` bytes of the ring. -/
def segment (txbuf : ℕ → UInt8) (start len : ℕ) : List UInt8 := (List.range' start len).map txbuf

/-- What the DMA has still to send. -/
def State.inFlight (s : State) : List UInt8 := segment s.txbuf s.tpr s.tcr ++ segment s.txbuf s.tnpr s.tncr

/-- What waits for the next flush. -/
def State.unflushed (s : State) : List UInt8 := segment s.txbuf s.txptr (s.wrptr - s.txptr)

/-- What was written up to the last flush has been sent or is about to be, in order, with no end of a line
    behind it, and once the DMA is done it has been sent. -/
structure Lossless (s : State) : Prop where
  sent : s.sent ++ s.inFlight = s.flushed
  written : s.flushed ++ s.unflushed = s.written
  lines : 10 ∉ s.unflushed
  done : ∃ n, ∀ m, n ≤ m → (ticks m s).sent = s.flushed

/-- Before a byte is stored: while the barrier is at the start of the ring, its place is not among those
    that are still to be sent, and it does not fill the ring. -/
def Keeps (s : State) : Prop :=
  s.barrier = 0 → (s.wrptr < s.tpr ∨ s.tpr + s.tcr ≤ s.wrptr) ∧ ¬(s.txptr = 0 ∧ s.wrptr + 1 = TXBUFLEN)

/-- Each call finds it so when it stores its byte. -/
def Kept : List (UInt8 × Progress) → State → Prop
  | [], _ => True
  | (c, p) :: calls, s => Keeps (ticks p.store (ticks p.wait s)) ∧ ∀ s', putc c p s = some s' → Kept calls s'

/-! ### The regions of the ring -/

theorem segment_zero (txbuf : ℕ → UInt8) (start : ℕ) : segment txbuf start 0 = [] := rfl

theorem segment_succ (txbuf : ℕ → UInt8) (start len : ℕ) :
    segment txbuf start (len + 1) = txbuf start :: segment txbuf (start + 1) len := by
  rw [segment, List.range'_succ, List.map_cons]
  rfl

theorem segment_concat (txbuf : ℕ → UInt8) (start len : ℕ) :
    segment txbuf start (len + 1) = segment txbuf start len ++ [txbuf (start + len)] := by
  rw [segment, List.range'_1_concat, List.map_append]
  rfl

/-- A byte stored outside of it leaves a region as it is. -/
theorem segment_store {txbuf : ℕ → UInt8} {start len place : ℕ} (c : UInt8)
    (h : len = 0 ∨ place < start ∨ start + len ≤ place) :
    segment (fun i => if i = place then c else txbuf i) start len = segment txbuf start len := by
  refine List.map_congr_left fun i hi => if_neg fun hf => ?_
  have hmem := List.mem_range'_1.mp hi
  omega

/-- One region ends where another starts, also over the end of the ring. -/
def Meets (stop start : ℕ) : Prop := stop = start ∨ stop = TXBUFLEN ∧ start = 0

/-- The regions follow each other, and none of them reaches over the barrier. The writer is at `w`, before
    its index is wrapped. -/
structure Inv (s : State) (w : ℕ) : Prop where
  order : s.txptr ≤ w
  bound : w ≤ TXBUFLEN
  inside : s.txptr < TXBUFLEN
  off : s.txten = false → s.tcr = 0 ∧ s.tncr = 0
  last : s.tcr ≠ 0 → s.tncr = 0 → Meets (s.tpr + s.tcr) s.txptr
  next : s.tcr ≠ 0 → s.tncr ≠ 0 → Meets (s.tpr + s.tcr) s.tnpr
  nextLast : s.tncr ≠ 0 → Meets (s.tnpr + s.tncr) s.txptr
  barrier : s.barrier ≠ 0 → (s.barrier ≤ s.tpr ∨ s.tpr + s.tcr ≤ s.barrier) ∧
    (s.tncr = 0 ∨ s.barrier ≤ s.tnpr ∨ s.tnpr + s.tncr ≤ s.barrier) ∧ (s.barrier ≤ s.txptr ∨ w ≤ s.barrier)
  sent : s.sent ++ s.inFlight = s.flushed
  written : s.flushed ++ segment s.txbuf s.txptr (w - s.txptr) = s.written

/-- What the DMA leaves alone. -/
structure Same (s t : State) : Prop where
  tnpr : t.tnpr = s.tnpr
  txten : t.txten = s.txten
  txbuf : t.txbuf = s.txbuf
  txptr : t.txptr = s.txptr
  wrptr : t.wrptr = s.wrptr
  barrier : t.barrier = s.barrier
  written : t.written = s.written
  flushed : t.flushed = s.flushed
  tncr : s.tncr = 0 → t.tncr = 0

theorem tick_same (s : State) : Same s (tick s) := by
  unfold tick
  split
  · exact ⟨rfl, rfl, rfl, rfl, rfl, rfl, rfl, rfl, id⟩
  · split
    · exact ⟨rfl, rfl, rfl, rfl, rfl, rfl, rfl, rfl, id⟩
    · split
      · exact ⟨rfl, rfl, rfl, rfl, rfl, rfl, rfl, rfl, fun _ => rfl⟩
      · exact ⟨rfl, rfl, rfl, rfl, rfl, rfl, rfl, rfl, id⟩

theorem ticks_same : ∀ (n : ℕ) (s : State), Same s (ticks n s)
  | 0, _ => ⟨rfl, rfl, rfl, rfl, rfl, rfl, rfl, rfl, id⟩
  | n + 1, s => by
    have hfirst := tick_same s
    have hrest := ticks_same n (tick s)
    exact ⟨hrest.tnpr.trans hfirst.tnpr, hrest.txten.trans hfirst.txten, hrest.txbuf.trans hfirst.txbuf,
      hrest.txptr.trans hfirst.txptr, hrest.wrptr.trans hfirst.wrptr, hrest.barrier.trans hfirst.barrier,
      hrest.written.trans hfirst.written, hrest.flushed.trans hfirst.flushed, fun h => hrest.tncr (hfirst.tncr h)⟩

theorem tick_inv {s : State} {w : ℕ} (h : Inv s w) : Inv (tick s) w := by
  unfold tick
  split
  · exact h
  · next hon =>
    split
    · next hsends =>
      refine ⟨h.order, h.bound, h.inside, fun hoff => absurd hoff hon, ?_, ?_, h.nextLast, ?_, ?_, h.written⟩
      · intro _ hnext
        have hlast := h.last hsends hnext
        show Meets (s.tpr + 1 + (s.tcr - 1)) s.txptr
        rwa [show s.tpr + 1 + (s.tcr - 1) = s.tpr + s.tcr by omega]
      · intro _ hnext
        have hnexts := h.next hsends hnext
        show Meets (s.tpr + 1 + (s.tcr - 1)) s.tnpr
        rwa [show s.tpr + 1 + (s.tcr - 1) = s.tpr + s.tcr by omega]
      · intro hbarrier
        obtain ⟨hcurrent, hrest⟩ := h.barrier hbarrier
        exact ⟨by show s.barrier ≤ s.tpr + 1 ∨ s.tpr + 1 + (s.tcr - 1) ≤ s.barrier; omega, hrest⟩
      · rw [← h.sent, State.inFlight, show s.tcr = s.tcr - 1 + 1 by omega, segment_succ, List.append_assoc]
        rfl
    · next hdone =>
      have hdone : s.tcr = 0 := not_not.mp hdone
      split
      · next hnext =>
        refine ⟨h.order, h.bound, h.inside, fun hoff => absurd hoff hon, fun _ _ => h.nextLast hnext,
          fun _ hf => absurd rfl hf, fun hf => absurd rfl hf, ?_, ?_, h.written⟩
        · intro hbarrier
          obtain ⟨-, hnexts, hrest⟩ := h.barrier hbarrier
          exact ⟨hnexts.resolve_left hnext, .inl rfl, hrest⟩
        · rw [← h.sent, State.inFlight, State.inFlight, hdone, segment_zero, List.nil_append]
          exact congrArg _ (List.append_nil _)
      · exact h

theorem ticks_inv {w : ℕ} : ∀ (n : ℕ) {s : State}, Inv s w → Inv (ticks n s) w
  | 0, _, h => h
  | n + 1, _, h => ticks_inv n (tick_inv h)

/-! ### A call -/

/-- Between two calls. -/
structure Idle (s : State) : Prop where
  inv : Inv s s.wrptr
  wraps : s.wrptr < TXBUFLEN
  barrier : s.wrptr = s.barrier → s.txptr = s.wrptr
  within : s.barrier < TXBUFLEN
  lines : 10 ∉ s.unflushed

theorem Idle.same {s t : State} (h : Idle s) (hst : Same s t) (hinv : Inv t s.wrptr) : Idle t := by
  refine ⟨hst.wrptr ▸ hinv, hst.wrptr ▸ h.wraps, ?_, hst.barrier ▸ h.within, ?_⟩
  · rw [hst.wrptr, hst.barrier, hst.txptr]
    exact h.barrier
  · rw [State.unflushed, hst.txbuf, hst.txptr, hst.wrptr]
    exact h.lines

theorem Idle.after {s : State} (h : Idle s) (n : ℕ) : Idle (ticks n s) :=
  h.same (ticks_same n s) (ticks_inv n h.inv)

/-- The place of a byte is not among those that are still to be sent. -/
theorem Idle.place_free {s : State} (h : Idle s) (hnext : s.tncr = 0) (hkeeps : Keeps s) :
    s.tcr = 0 ∨ s.wrptr < s.tpr ∨ s.tpr + s.tcr ≤ s.wrptr := by
  by_cases hdone : s.tcr = 0
  · exact .inl hdone
  · refine .inr ?_
    rcases h.inv.last hdone hnext with hstop | ⟨hstop, hstart⟩
    · exact .inr (hstop.trans_le h.inv.order)
    · by_cases hbarrier : s.barrier = 0
      · exact (hkeeps hbarrier).1
      · obtain ⟨hcurrent, -, hnew⟩ := h.inv.barrier hbarrier
        have hhit := h.barrier
        have hwithin := h.within
        omega

theorem Idle.not_full {s : State} (h : Idle s) (hkeeps : Keeps s) :
    ¬(s.txptr = 0 ∧ s.wrptr + 1 = TXBUFLEN) := by
  by_cases hbarrier : s.barrier = 0
  · exact (hkeeps hbarrier).2
  · obtain ⟨-, -, hnew⟩ := h.inv.barrier hbarrier
    have hhit := h.barrier
    have hwithin := h.within
    have htx : TXBUFLEN = 128 := rfl
    omega

theorem Idle.stored {s : State} (h : Idle s) (hnext : s.tncr = 0) (hkeeps : Keeps s) (c : UInt8) :
    Inv (store c s) (s.wrptr + 1) := by
  have hfree := h.place_free hnext hkeeps
  have horder := h.inv.order
  refine ⟨Nat.le_succ_of_le horder, h.wraps, h.inv.inside, h.inv.off, h.inv.last, h.inv.next, h.inv.nextLast,
    ?_, ?_, ?_⟩
  · intro hbarrier
    obtain ⟨hcurrent, hnexts, hnew⟩ := h.inv.barrier hbarrier
    have hhit := h.barrier
    exact ⟨hcurrent, hnexts, by show s.barrier ≤ s.txptr ∨ s.wrptr + 1 ≤ s.barrier; omega⟩
  · refine Eq.trans ?_ h.inv.sent
    exact congrArg _ (congrArg₂ _ (segment_store c hfree) (segment_store c (.inl hnext)))
  · show s.flushed ++ segment (fun i => if i = s.wrptr then c else s.txbuf i) s.txptr (s.wrptr + 1 - s.txptr) =
      s.written ++ [c]
    rw [Nat.succ_sub horder, segment_concat, segment_store c (.inr (.inr (by omega))), if_pos (by omega),
      ← List.append_assoc, h.inv.written]

/-- The bytes that were stored are counted, with the writer's index wrapped. -/
theorem length_eq {s : State} {w : ℕ} (hwrap : s.wrptr = w % TXBUFLEN) (hnew : s.txptr < w)
    (hbound : w ≤ TXBUFLEN) (hfits : ¬(s.txptr = 0 ∧ w = TXBUFLEN)) : length s = w - s.txptr := by
  rw [length, hwrap]
  unfold TXBUFLEN at *
  omega

theorem meets_wrap {w : ℕ} (h : w ≤ TXBUFLEN) : Meets w (w % TXBUFLEN) := by
  unfold Meets TXBUFLEN at *
  omega

/-- A flush of what was stored. -/
theorem Inv.flush {s : State} {w : ℕ} (h : Inv s w) (p : Progress) (hnext : s.tncr = 0) (hnew : s.txptr < w)
    (hfits : ¬(s.txptr = 0 ∧ w = TXBUFLEN)) (hwrap : s.wrptr = w % TXBUFLEN) (hwithin : s.barrier < TXBUFLEN) :
    Idle { Usart.flush p s with flushed := s.written } := by
  have hmod : w % TXBUFLEN < TXBUFLEN := Nat.mod_lt _ (by decide)
  unfold Usart.flush
  by_cases hdone : s.tcr = 0
  · rw [if_pos ⟨hdone, hnext⟩]
    refine ⟨⟨le_refl _, hwrap ▸ hmod.le, hwrap ▸ hmod, nofun, fun _ _ => ?_, fun _ hf => absurd hnext hf,
      fun hf => absurd hnext hf, fun _ => ⟨.inl (le_refl _), .inl hnext, Nat.le_total _ _⟩, ?_, ?_⟩,
      hwrap ▸ hmod, fun _ => rfl, h.inside, ?_⟩
    · show Meets (s.txptr + length s) s.wrptr
      rw [length_eq hwrap hnew h.bound hfits, hwrap, Nat.add_sub_cancel' h.order]
      exact meets_wrap h.bound
    · show s.sent ++ (segment s.txbuf s.txptr (length s) ++ segment s.txbuf s.tnpr s.tncr) = s.written
      have hsent := h.sent
      rw [State.inFlight, hdone, hnext, segment_zero, segment_zero, List.append_nil, List.append_nil] at hsent
      rw [length_eq hwrap hnew h.bound hfits, hnext, segment_zero, List.append_nil, hsent, h.written]
    · show s.written ++ segment _ _ (s.wrptr - s.wrptr) = s.written
      rw [Nat.sub_self, segment_zero, List.append_nil]
    · show 10 ∉ segment _ _ (s.wrptr - s.wrptr)
      rw [Nat.sub_self]
      exact List.not_mem_nil
  · rw [if_neg fun hf => hdone hf.1, if_pos hnext]
    have hon : s.txten = true := by
      by_contra hoff
      exact hdone (h.off (Bool.eq_false_iff.mpr hoff)).1
    have hfirst := ticks_same p.next s
    have hfirstInv := ticks_inv p.next h
    set s1 := ticks p.next s
    have hs1 := hfirst.tncr hnext
    have hpointed : Inv { s1 with tnpr := s1.txptr } w := by
      refine ⟨hfirstInv.order, hfirstInv.bound, hfirstInv.inside, hfirstInv.off, hfirstInv.last,
        fun _ hf => absurd hs1 hf, fun hf => absurd hs1 hf, fun hb => ?_, ?_, hfirstInv.written⟩
      · obtain ⟨hcurrent, -, hrest⟩ := hfirstInv.barrier hb
        exact ⟨hcurrent, .inl hs1, hrest⟩
      · have hsent := hfirstInv.sent
        rw [State.inFlight, hs1] at hsent ⊢
        exact hsent
    have hsecond := ticks_same p.count { s1 with tnpr := s1.txptr }
    have hinv := ticks_inv p.count hpointed
    dsimp only
    set s3 := ticks p.count { s1 with tnpr := s1.txptr }
    have hs3 : s3.tncr = 0 := hsecond.tncr hs1
    have hpointer : s3.tnpr = s3.txptr := hsecond.tnpr.trans hsecond.txptr.symm
    have htx : s3.txptr = s.txptr := hsecond.txptr.trans hfirst.txptr
    have hwr : s3.wrptr = w % TXBUFLEN := (hsecond.wrptr.trans hfirst.wrptr).trans hwrap
    have hbar : s3.barrier = s.barrier := hsecond.barrier.trans hfirst.barrier
    have hlen : length s3 = w - s3.txptr :=
      length_eq hwr (htx ▸ hnew) h.bound (htx ▸ hfits)
    have hwritten : s3.written = s.written := hsecond.written.trans hfirst.written
    refine ⟨⟨le_refl _, hwr ▸ hmod.le, hwr ▸ hmod, fun hoff => ?_, fun _ hf => ?_, fun hsends _ => ?_,
      fun _ => ?_, fun hb => ?_, ?_, ?_⟩, hwr ▸ hmod, fun _ => rfl, hbar ▸ hwithin, ?_⟩
    · exact absurd ((hsecond.txten.trans hfirst.txten).trans hon) (by rw [show s3.txten = false from hoff]; decide)
    · rw [show length s3 = 0 from hf] at hlen
      omega
    · show Meets (s3.tpr + s3.tcr) s3.tnpr
      rw [hpointer]
      exact hinv.last hsends hs3
    · show Meets (s3.tnpr + length s3) s3.wrptr
      rw [hpointer, hlen, hwr, Nat.add_sub_cancel' hinv.order]
      exact meets_wrap h.bound
    · obtain ⟨hcurrent, -, hrest⟩ := hinv.barrier hb
      refine ⟨hcurrent, .inr ?_, Nat.le_total _ _⟩
      show s3.barrier ≤ s3.tnpr ∨ s3.tnpr + length s3 ≤ s3.barrier
      rwa [hpointer, hlen, Nat.add_sub_cancel' hinv.order]
    · show s3.sent ++ (segment s3.txbuf s3.tpr s3.tcr ++ segment s3.txbuf s3.tnpr (length s3)) = s.written
      have hsent := hinv.sent
      rw [State.inFlight, hs3, segment_zero, List.append_nil] at hsent
      rw [hpointer, hlen, ← List.append_assoc, hsent, hinv.written, hwritten]
    · show s.written ++ segment _ _ (s3.wrptr - s3.wrptr) = s3.written
      rw [Nat.sub_self, segment_zero, List.append_nil, hwritten]
    · show 10 ∉ segment _ _ (s3.wrptr - s3.wrptr)
      rw [Nat.sub_self]
      exact List.not_mem_nil

theorem flush_written (p : Progress) (s : State) : (Usart.flush p s).written = s.written := by
  unfold Usart.flush
  split
  · rfl
  · split
    · exact (ticks_same _ _).written.trans (ticks_same _ _).written
    · rfl

/-- One call. -/
theorem Idle.called {s s' : State} (h : Idle s) {c : UInt8} {p : Progress}
    (hkeeps : Keeps (ticks p.store (ticks p.wait s))) (hput : putc c p s = some s') :
    Idle s' ∧ s'.written = s.written ++ [c] := by
  unfold Usart.putc at hput
  have hwait := h.after p.wait
  have hsame := ticks_same p.wait s
  set t := ticks p.wait s
  by_cases hbusy : t.tncr ≠ 0
  · rw [if_pos hbusy] at hput
    cases hput
  · rw [if_neg hbusy] at hput
    have hidle := hwait.after p.store
    have hsame' := ticks_same p.store t
    have hnext := hsame'.tncr (not_not.mp hbusy)
    dsimp only at hput
    set u := ticks p.store t
    have hstored := ticks_inv p.check (hidle.stored hnext hkeeps c)
    have hsame'' := ticks_same p.check (store c u)
    set v := ticks p.check (store c u)
    have hw : v.wrptr = (u.wrptr + 1) % TXBUFLEN := hsame''.wrptr
    have hwritten : v.written = s.written ++ [c] := by
      rw [hsame''.written]
      show u.written ++ [c] = _
      rw [hsame'.written, hsame.written]
    have hbar : v.barrier = u.barrier := hsame''.barrier
    have htx : v.txptr = u.txptr := hsame''.txptr
    obtain rfl := Option.some.inj hput
    split
    · refine ⟨hstored.flush p (hsame''.tncr hnext) ?_ ?_ hw (hbar ▸ hidle.within), ?_⟩
      · rw [htx]
        exact Nat.lt_succ_of_le hidle.inv.order
      · rw [htx]
        exact hidle.not_full hkeeps
      · exact (flush_written p v).trans hwritten
    · next hstays =>
      obtain ⟨hline, hstays⟩ := not_or.mp hstays
      obtain ⟨hend, hbarrier⟩ := not_or.mp hstays
      have hwrap : v.wrptr = u.wrptr + 1 := by
        have hlt := hidle.wraps
        rw [hw] at hend ⊢
        unfold TXBUFLEN at *
        omega
      refine ⟨⟨hwrap ▸ hstored, hw ▸ Nat.mod_lt _ (by decide), fun hf => absurd hf hbarrier,
        hbar ▸ hidle.within, ?_⟩, hwritten⟩
      rw [State.unflushed, hwrap, htx, hsame''.txbuf, Nat.succ_sub hidle.inv.order, segment_concat]
      show 10 ∉ segment (fun i => if i = u.wrptr then c else u.txbuf i) _ _ ++ [if _ then c else _]
      have horder := hidle.inv.order
      rw [segment_store c (.inr (.inr (by omega))), if_pos (by omega)]
      intro hmem
      rcases List.mem_append.mp hmem with hmem | hmem
      · exact hidle.lines hmem
      · exact hline (List.mem_singleton.mp hmem).symm

/-! ### Runs -/

/-- What the DMA has still to do. -/
def State.left (s : State) : ℕ := s.tcr + if s.tncr = 0 then 0 else s.tncr + 1

theorem left_tick {s : State} {w : ℕ} (h : Inv s w) : (tick s).left = s.left - 1 := by
  unfold tick
  split
  · next hoff =>
    obtain ⟨hdone, hnext⟩ := h.off hoff
    rw [State.left, hdone, if_pos hnext]
  · split
    · show s.tcr - 1 + (if s.tncr = 0 then 0 else s.tncr + 1) = s.left - 1
      rw [State.left]
      omega
    · next hdone =>
      split
      · next hnext =>
        show s.tncr + 0 = s.left - 1
        rw [State.left, if_neg hnext]
        omega
      · next hnext =>
        rw [State.left, not_not.mp hdone, if_pos (not_not.mp hnext)]

theorem left_ticks {w : ℕ} : ∀ (n : ℕ) {s : State}, Inv s w → (ticks n s).left = s.left - n
  | 0, _, _ => rfl
  | n + 1, s, h => by
    rw [ticks, left_ticks n (tick_inv h), left_tick h]
    omega

theorem Idle.lossless {s : State} (h : Idle s) : Lossless s := by
  refine ⟨h.inv.sent, h.inv.written, h.lines, s.left, fun m hm => ?_⟩
  have hleft := left_ticks m h.inv
  have hinv := ticks_inv m h.inv
  have hsent := hinv.sent
  rw [(ticks_same m s).flushed] at hsent
  rw [Nat.sub_eq_zero_of_le hm, State.left] at hleft
  have hnext : (ticks m s).tncr = 0 := by
    by_contra hf
    rw [if_neg hf] at hleft
    omega
  have hdone : (ticks m s).tcr = 0 := by omega
  rwa [State.inFlight, hdone, hnext, segment_zero, segment_zero, List.append_nil, List.append_nil] at hsent

theorem idle_init (txbuf : ℕ → UInt8) : Idle (init txbuf) :=
  have hzero : 0 < TXBUFLEN := by decide
  ⟨⟨le_refl _, Nat.zero_le _, hzero, fun _ => ⟨rfl, rfl⟩, fun hf => absurd rfl hf, fun hf => absurd rfl hf,
    fun hf => absurd rfl hf, fun hf => absurd rfl hf, rfl, rfl⟩, hzero, fun _ => rfl, hzero,
    List.not_mem_nil⟩

theorem run_idle : ∀ (calls : List (UInt8 × Progress)) {s t : State}, Idle s → Kept calls s →
    run calls s = some t → Idle t ∧ t.written = s.written ++ calls.map Prod.fst
  | [], s, t, h, _, hrun => by
    obtain rfl := Option.some.inj hrun
    exact ⟨h, (List.append_nil _).symm⟩
  | (c, p) :: calls, s, t, h, hkept, hrun => by
    obtain ⟨s', hput, hrest⟩ := Option.bind_eq_some_iff.mp hrun
    obtain ⟨hidle, hwritten⟩ := h.called hkept.1 hput
    obtain ⟨hidle', hwritten'⟩ := run_idle calls hidle (hkept.2 s' hput) hrest
    refine ⟨hidle', ?_⟩
    rw [hwritten', hwritten, List.append_assoc]
    rfl

/-- In every run in which each call finds it so, nothing is lost in any state that is reached. -/
theorem run_lossless (txbuf : ℕ → UInt8) (calls : List (UInt8 × Progress)) (s : State)
    (hkept : Kept calls (init txbuf)) (hrun : run calls (init txbuf) = some s) (n : ℕ) :
    Lossless (ticks n s) ∧ (ticks n s).written = calls.map Prod.fst := by
  obtain ⟨hidle, hwritten⟩ := run_idle calls (idle_init txbuf) hkept hrun
  exact ⟨(hidle.after n).lossless, (ticks_same n s).written.trans hwritten⟩

/-- A call while the DMA stands still. -/
def still : Progress := ⟨0, 0, 0, 0, 0⟩

/-- A line of one letter, while the DMA stands still, and then four steps of it. -/
theorem line_lossless : ∃ s, run [(72, still), (10, still)] (init fun _ => 0) = some s ∧
    Lossless (ticks 4 s) ∧ (ticks 4 s).written = [72, 10] := by
  have hkept : Kept [(72, still), (10, still)] (init fun _ => 0) := by
    refine ⟨fun _ => ⟨.inr (by decide), by decide⟩, fun s' hs' => ?_⟩
    obtain rfl := Option.some.inj hs'
    exact ⟨fun _ => ⟨.inr (by decide), by decide⟩, fun _ _ => trivial⟩
  exact ⟨_, rfl, run_lossless (fun _ => 0) [(72, still), (10, still)] _ hkept rfl 4⟩

/-- After 128 bytes that end no line the flush is of length 0, and nothing of them is sent. -/
theorem ring_lost : ¬∀ (txbuf : ℕ → UInt8) (calls : List (UInt8 × Progress)) (s : State),
    run calls (init txbuf) = some s → Lossless s := by
  intro hall
  have hrun : (run (List.replicate 128 (97, still)) (init fun _ => 0)).map
      (fun s => ((s.sent ++ s.inFlight).length, s.flushed.length)) = some (0, 128) := by decide +kernel
  obtain ⟨s, hs, hlen⟩ := Option.map_eq_some_iff.mp hrun
  have hlost := congrArg List.length (hall _ _ s hs).sent
  obtain ⟨hsent, hflushed⟩ := Prod.mk.inj hlen
  rw [hsent, hflushed] at hlost
  exact absurd hlost (by decide)

end Usart
