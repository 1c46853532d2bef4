import ReplayFirmware.Flash.Handlers
import ReplayFirmware.Flash.Lockstep
import ReplayFirmware.Lib.Paged

/-! The image an SREC file spells, and what the two handlers make of it.

    `Reading` is the file read without buffers: the data bytes at their addresses, 0xFF between them
    (`img`), and the same bytes with every header text laid over the page that was being filled when
    the header came (`seen`), which is what passes through the verifier's line buffer. Both handlers
    run in lockstep with `imageHandler` (`verify_lockstep`, `upload_lockstep`), so each is described
    by the reading of the file alone. -/

namespace Flash
open FatFs FileIO.MCh

/-! ### Readings -/

/-- What has been read of a file. `reset` is the number of bytes in whole pages at the end of the
    last header, `ended` is set by a termination record. -/
structure Reading where
  img : List UInt8
  seen : List UInt8
  reset : Option ℕ
  ended : Bool
  length_seen : seen.length = img.length

namespace Reading

/-- Nothing read yet. -/
def empty : Reading := { img := [], seen := [], reset := none, ended := false, length_seen := rfl }

/-- The number of bytes in whole pages. -/
def whole (a : Reading) : ℕ := a.img.length - a.img.length % 256

/-- One more byte of the image. -/
def push (a : Reading) (b : UInt8) : Reading :=
  { a with img := a.img ++ [b], seen := a.seen ++ [b], length_seen := by simp [a.length_seen] }

/-- A data byte behind a gap of `n` bytes. -/
def fill (a : Reading) : ℕ → UInt8 → Reading
  | 0, value => a.push value
  | n + 1, value => (a.push 0xFF).fill n value

/-- Byte `i` of a header text, over the page being filled. -/
def text (a : Reading) (i : ℕ) (value : UInt8) : Reading :=
  { a with seen := a.seen.set (a.whole + i) value, length_seen := by simp [a.length_seen] }

/-- What a pass over the file flushes: everything at a termination record, whole pages otherwise. -/
def flushed (a : Reading) (bs : List UInt8) : List UInt8 := if a.ended then bs else bs.take a.whole

end Reading

/-- The purpose of both handlers: the image, byte by byte. -/
def imageHandler : SRECHandler Reading := fun type base offset length value a =>
  if type = 0 then
    let a := a.text offset.toNat value
    if offset = length.toUInt32 - 1 then
      some (0, { a.text (offset.toNat + 1) 0 with reset := some a.whole })
    else some (0, a)
  else if type = 7 then some (0, { a with ended := true })
  else
    let addr := base + offset
    let next := appBase.toNat + a.img.length
    if addr.toNat < next then some (0xFF, a)
    else if addr = 0xFFFFFFFF then none
    else some (0, a.fill (addr.toNat - next) value)

/-- The reading of a file. -/
def reading (file : Option File) (line : Line) : Option (UInt8 × Reading) :=
  parseSRecords file (some imageHandler) line .empty

/-! ### Addresses and pages -/

theorem toNat_and_255 (x : UInt32) : (x &&& 0xFF).toNat = x.toNat % 256 := by
  rw [UInt32.toNat_and]
  exact Nat.and_two_pow_sub_one_eq_mod x.toNat 8

theorem and_255_eq_zero_iff (x : UInt32) : x &&& 0xFF = 0 ↔ x.toNat % 256 = 0 := by
  rw [← toNat_and_255, ← UInt32.toNat_inj]; rfl

theorem toNat_add_one {x : UInt32} (h : x ≠ 0xFFFFFFFF) : (x + 1).toNat = x.toNat + 1 := by
  have hne : x.toNat ≠ 0xFFFFFFFF := fun h' => h (UInt32.toNat_inj.mp h')
  have := x.toNat_lt
  rw [UInt32.toNat_add, show (1 : UInt32).toNat = 1 from rfl, Nat.mod_eq_of_lt (by omega)]

/-- The address in use is the one after the image read so far. -/
def AtEnd (s : Statics) (img : List UInt8) : Prop :=
  s.srecCurrentAddr.toNat = appBase.toNat + img.length

theorem AtEnd.mod {s : Statics} {img : List UInt8} (h : AtEnd s img) :
    s.srecCurrentAddr.toNat % 256 = img.length % 256 := by
  rw [h, show appBase.toNat = 256 * 4128 from rfl, Nat.mul_add_mod]

/-- The bytes in use behind a byte boundary are those of the incomplete page, or the whole page. -/
theorem AtEnd.validBytes {s : Statics} {img : List UInt8} (h : AtEnd s img) (hpos : img ≠ []) :
    s.validBytes.toNat = if img.length % 256 = 0 then 256 else img.length % 256 := by
  have hlen : 0 < img.length := List.length_pos_iff.mpr hpos
  have haddr : s.srecCurrentAddr.toNat = 0x102000 + img.length := h
  have hlt := s.srecCurrentAddr.toNat_lt
  have hpred : (s.srecCurrentAddr - 1).toNat = 0x102000 + (img.length - 1) := by
    have hle : (1 : UInt32) ≤ s.srecCurrentAddr := by
      rw [UInt32.le_iff_toNat_le]; show 1 ≤ _; omega
    rw [UInt32.toNat_sub_of_le _ _ hle]
    show _ - 1 = _
    omega
  have hand : ((s.srecCurrentAddr - 1) &&& 0xFF).toNat = (img.length - 1) % 256 := by
    rw [toNat_and_255, hpred]; omega
  rw [Statics.validBytes, UInt32.toNat_add, hand, show (1 : UInt32).toNat = 1 from rfl,
    Nat.mod_eq_of_lt (by omega)]
  split <;> omega

/-! ### The page buffer -/

/-- A flush sends the bytes in use on, and `P` keeps account of what has been sent. -/
structure Sink (flush : Statics → Statics) (P : Statics → List UInt8 → Prop) : Prop where
  addr : ∀ s, (flush s).srecCurrentAddr = s.srecCurrentAddr
  flush : ∀ {s out}, P s out → P (flush s) (out ++ s.line)
  frame : ∀ {s out} buf addr, P s out →
    P { s with srecLineBuffer := buf, srecCurrentAddr := addr } out

/-- The bytes `bs` have come in; those in whole pages have been sent on. -/
def Filling (P : Statics → List UInt8 → Prop) (s : Statics) (bs : List UInt8) : Prop :=
  ∃ out, AtEnd s bs ∧ Paged 256 s.srecLineBuffer out bs ∧ P s out

variable {flush : Statics → Statics} {P : Statics → List UInt8 → Prop}

theorem Sink.putByte (h : Sink flush P) {s : Statics} {bs : List UInt8} (hf : Filling P s bs)
    (b : UInt8) (hne : s.srecCurrentAddr ≠ 0xFFFFFFFF) :
    Filling P (putByte flush b s) (bs ++ [b]) ∧
      (Flash.putByte flush b s).srecCurrentAddr = s.srecCurrentAddr + 1 := by
  obtain ⟨out, hend, hpaged, hP⟩ := hf
  set s1 : Statics := { s with
    srecLineBuffer := Function.update s.srecLineBuffer (s.srecCurrentAddr &&& 0xFF).toNat b
    srecCurrentAddr := s.srecCurrentAddr + 1 } with hs1
  have hcell : (s.srecCurrentAddr &&& 0xFF).toNat = bs.length % 256 := by
    rw [toNat_and_255, hend.mod]
  have hend1 : AtEnd s1 (bs ++ [b]) := by
    show (s.srecCurrentAddr + 1).toNat = _
    rw [toNat_add_one hne, hend, List.length_append, List.length_singleton, Nat.add_assoc]
  have hP1 : P s1 out := h.frame _ _ hP
  have hput : Flash.putByte flush b s
      = if s1.srecCurrentAddr &&& 0xFF = 0 then (flush s1).clearLine else s1 := rfl
  have hbuf : s1.srecLineBuffer = Function.update s.srecLineBuffer (bs.length % 256) b := by
    rw [← hcell]
  have hmod : (bs ++ [b]).length % 256 = (bs.length % 256 + 1) % 256 := by
    rw [List.length_append, List.length_singleton]; omega
  rw [hput]
  by_cases hfull : s1.srecCurrentAddr &&& 0xFF = 0
  · -- the byte completed a page
    rw [if_pos hfull]
    rw [and_255_eq_zero_iff, hend1.mod] at hfull
    have hpage : bs.length % 256 + 1 = 256 := by omega
    refine ⟨⟨out ++ s1.line, ?_, ?_, h.frame _ _ (h.flush hP1)⟩, h.addr s1⟩
    · show (flush s1).srecCurrentAddr.toNat = _
      rw [h.addr]; exact hend1
    · have hvalid := hend1.validBytes (by simp)
      rw [if_pos hfull] at hvalid
      rw [Statics.line, hvalid, hbuf]
      exact hpaged.push_full b hpage _
  · rw [if_neg hfull]
    rw [and_255_eq_zero_iff, hend1.mod] at hfull
    refine ⟨⟨out, hend1, ?_, hP1⟩, rfl⟩
    rw [hbuf]
    exact hpaged.push b (by omega)

/-- The fill loop ends with the gap and the byte in the buffer. -/
theorem Sink.fillLoop (h : Sink flush P) {addr : UInt32} (hne : addr ≠ 0xFFFFFFFF)
    (value : UInt8) : ∀ (n fuel : ℕ) (s : Statics) (bs : List UInt8), Filling P s bs →
    addr.toNat = s.srecCurrentAddr.toNat + n → n + 1 < fuel →
    ∃ s', fillLoop flush addr value fuel s = some s' ∧
      Filling P s' (bs ++ (List.replicate n 0xFF ++ [value]))
  | 0, 0, _, _, _, _, hfuel => absurd hfuel (by omega)
  | 0, 1, _, _, _, _, hfuel => absurd hfuel (by omega)
  | 0, fuel + 2, s, bs, hf, haddr, _ => by
    obtain rfl : addr = s.srecCurrentAddr := UInt32.toNat_inj.mp (by omega)
    obtain ⟨hf1, hcur⟩ := h.putByte hf value hne
    have hpast : ¬ (Flash.putByte flush value s).srecCurrentAddr ≤ s.srecCurrentAddr := by
      rw [UInt32.le_iff_toNat_le, hcur, toNat_add_one hne]; omega
    refine ⟨Flash.putByte flush value s, ?_, by simpa using hf1⟩
    rw [Flash.fillLoop, if_pos (UInt32.le_refl _), if_pos rfl, Flash.fillLoop, if_neg hpast]
  | n + 1, 0, _, _, _, _, hfuel => absurd hfuel (by omega)
  | n + 1, fuel + 1, s, bs, hf, haddr, hfuel => by
    have hlt := addr.toNat_lt
    have hcurne : s.srecCurrentAddr ≠ 0xFFFFFFFF := by
      intro h'; rw [h', show (0xFFFFFFFF : UInt32).toNat = 4294967295 from rfl] at haddr; omega
    have haddrne : addr ≠ s.srecCurrentAddr := by rintro rfl; omega
    obtain ⟨hf1, hcur⟩ := h.putByte hf 0xFF hcurne
    obtain ⟨s', hs', hf'⟩ := h.fillLoop hne value n fuel (Flash.putByte flush 0xFF s) _ hf1
      (by rw [hcur, toNat_add_one hcurne]; omega) (by omega)
    refine ⟨s', ?_, ?_⟩
    · rw [Flash.fillLoop, if_pos (UInt32.le_iff_toNat_le.mpr (by omega)), if_neg haddrne, hs']
    · rwa [List.append_assoc, List.singleton_append, ← List.cons_append,
        ← List.replicate_succ] at hf'

/-- Filling up to the last address never ends. -/
theorem fillLoop_last (value : UInt8) : ∀ (fuel : ℕ) (s : Statics),
    fillLoop flush 0xFFFFFFFF value fuel s = none
  | 0, _ => rfl
  | fuel + 1, s => by
    have hle : s.srecCurrentAddr ≤ 0xFFFFFFFF := by
      rw [UInt32.le_iff_toNat_le]
      exact Nat.le_of_lt_succ s.srecCurrentAddr.toNat_lt
    rw [Flash.fillLoop, if_pos hle]
    exact fillLoop_last value fuel _

/-- At the end of the file the rest is sent on. -/
theorem Sink.flushRest (h : Sink flush P) {s : Statics} {bs : List UInt8} (hf : Filling P s bs) :
    P (flushRest flush s) bs := by
  obtain ⟨out, hend, hpaged, hP⟩ := hf
  unfold Flash.flushRest
  by_cases h0 : s.srecCurrentAddr &&& 0xFF = 0
  · rw [if_neg (not_not.mpr h0)]
    rw [and_255_eq_zero_iff, hend.mod] at h0
    rwa [← hpaged.out_eq h0]
  · rw [if_pos h0]
    rw [and_255_eq_zero_iff, hend.mod] at h0
    have hne : bs ≠ [] := by rintro rfl; exact h0 rfl
    have hvalid := hend.validBytes hne
    rw [if_neg h0] at hvalid
    have hline : out ++ s.line = bs := by rw [Statics.line, hvalid]; exact hpaged
    have := h.frame (fun _ => 0) (flush s).srecCurrentAddr (h.flush hP)
    rwa [hline] at this

theorem Sink.flushRest_atEnd (h : Sink flush P) {s : Statics} {bs : List UInt8}
    (hf : Filling P s bs) : AtEnd (Flash.flushRest flush s) bs := by
  have hend : AtEnd s bs := hf.choose_spec.1
  unfold Flash.flushRest
  split
  · show (flush s).srecCurrentAddr.toNat = _
    rw [h.addr]; exact hend
  · exact hend

/-- One data byte: refused below the address in use, else filled in. -/
theorem Sink.dataByte (h : Sink flush P) {s : Statics} {bs : List UInt8} (hf : Filling P s bs)
    (base offset : UInt32) (value : UInt8) :
    ((base + offset).toNat < appBase.toNat + bs.length →
        dataByte flush base offset value s = some (0xFF, s)) ∧
      (¬ (base + offset).toNat < appBase.toNat + bs.length → base + offset = 0xFFFFFFFF →
        Flash.dataByte flush base offset value s = none) ∧
      (¬ (base + offset).toNat < appBase.toNat + bs.length → base + offset ≠ 0xFFFFFFFF →
        ∃ s', Flash.dataByte flush base offset value s = some (0, s') ∧
          Filling P s' (bs ++ (List.replicate
            ((base + offset).toNat - (appBase.toNat + bs.length)) 0xFF ++ [value]))) := by
  have hend : s.srecCurrentAddr.toNat = appBase.toNat + bs.length := hf.choose_spec.1
  have hlt : base + offset < s.srecCurrentAddr ↔
      (base + offset).toNat < appBase.toNat + bs.length := by
    rw [UInt32.lt_iff_toNat_lt, hend]
  refine ⟨fun hlo => ?_, fun hhi hlast => ?_, fun hhi hne => ?_⟩
  · rw [Flash.dataByte, if_pos (hlt.mpr hlo)]
  · rw [Flash.dataByte, if_neg (mt hlt.mp hhi), hlast, fillLoop_last]; rfl
  · have := (base + offset).toNat_lt
    obtain ⟨s', hs', hf'⟩ := h.fillLoop hne value _ (2 ^ 32 + 1) s bs hf
      (show _ = _ + ((base + offset).toNat - (appBase.toNat + bs.length)) by omega) (by omega)
    exact ⟨s', by rw [Flash.dataByte, if_neg (mt hlt.mp hhi), hs']; rfl, hf'⟩

namespace Reading

theorem fill_img : ∀ (n : ℕ) (a : Reading) (v : UInt8),
    (a.fill n v).img = a.img ++ (List.replicate n 0xFF ++ [v])
  | 0, a, v => by simp [fill, push]
  | n + 1, a, v => by rw [fill, fill_img n]; simp [push, List.replicate_succ]

theorem length_fill (n : ℕ) (a : Reading) (v : UInt8) :
    (a.fill n v).img.length = a.img.length + n + 1 := by
  rw [fill_img]; simp [Nat.add_assoc]

theorem fill_seen : ∀ (n : ℕ) (a : Reading) (v : UInt8),
    (a.fill n v).seen = a.seen ++ (List.replicate n 0xFF ++ [v])
  | 0, a, v => by simp [fill, push]
  | n + 1, a, v => by rw [fill, fill_seen n]; simp [push, List.replicate_succ]

theorem fill_reset : ∀ (n : ℕ) (a : Reading) (v : UInt8), (a.fill n v).reset = a.reset
  | 0, _, _ => rfl
  | n + 1, a, v => by rw [fill, fill_reset n]; rfl

theorem fill_ended : ∀ (n : ℕ) (a : Reading) (v : UInt8), (a.fill n v).ended = a.ended
  | 0, _, _ => rfl
  | n + 1, a, v => by rw [fill, fill_ended n]; rfl

end Reading

/-! ### The verifier -/

theorem length_line (s : Statics) : s.line.length = s.validBytes.toNat := by
  simp [Statics.line]

theorem validBytes_le (s : Statics) : s.validBytes.toNat ≤ 256 := by
  have := toNat_and_255 (s.srecCurrentAddr - 1)
  rw [Statics.validBytes, UInt32.toNat_add, this]
  exact le_trans (Nat.mod_le _ _) (by
    have := Nat.mod_lt (s.srecCurrentAddr - 1).toNat (show 0 < 256 by omega)
    show _ + 1 ≤ _
    omega)

/-- Size and CRC account for the bytes since the last header, or go on from what an earlier pass
    left when there was none. -/
structure Tally (s₀ : Statics) (reset : Option ℕ) (s : Statics) (out : List UInt8) : Prop where
  fed : s.fed = out
  reset_le : reset.getD 0 ≤ out.length
  size : s.s_FlashSize
    = reset.elim s₀.s_FlashSize (fun _ => 0) + (out.length - reset.getD 0).toUInt32
  crc : s.crc = feedCrc32 (reset.elim s₀.crc fun _ => crcInit) (out.drop (reset.getD 0))
  kept : s.s_FlashCRC32 = s₀.s_FlashCRC32

theorem Tally.start (s : Statics) (hfed : s.fed = []) : Tally s none s [] :=
  ⟨hfed, Nat.zero_le _, by simp, rfl, rfl⟩

/-- `DumpToConsole` accounts for the bytes it takes. -/
theorem tally_sink (s₀ : Statics) (reset : Option ℕ) : Sink dumpToConsole (Tally s₀ reset) where
  addr _ := rfl
  frame _ _ h := ⟨h.fed, h.reset_le, h.size, h.crc, h.kept⟩
  flush {s out} h := by
    have hle := h.reset_le
    have hlen := length_line s
    refine ⟨by rw [← h.fed]; rfl, by rw [List.length_append]; omega, ?_, ?_, h.kept⟩
    · show s.s_FlashSize + s.validBytes = _
      rw [h.size, List.length_append,
        show out.length + s.line.length - reset.getD 0
          = out.length - reset.getD 0 + s.validBytes.toNat by omega]
      simp [UInt32.add_assoc]
    · show feedCrc32 s.crc s.line = _
      rw [h.crc, List.drop_append_of_le_length hle, feedCrc32_append]

/-- A pass of the verifier in progress. -/
def Verifying (s₀ s : Statics) (a : Reading) : Prop :=
  a.ended = false ∧ Filling (Tally s₀ a.reset) s a.seen

/-- A pass of the verifier after the termination record. -/
def Verified (s₀ s : Statics) (a : Reading) : Prop :=
  a.ended = true ∧ ∃ s1 base, AtEnd s1 a.seen ∧ Tally s₀ a.reset s1 a.seen ∧
    s = { s1 with s_FlashAddress := base, s_FlashCRC32 := ~~~s1.crc }

theorem Verifying.header {s₀ s : Statics} {a : Reading} (h : Verifying s₀ s a) (i : ℕ) (v : UInt8) :
    Verifying s₀ { s with srecLineBuffer := Function.update s.srecLineBuffer i v } (a.text i v) := by
  obtain ⟨hopen, out, hend, hpaged, hP⟩ := h
  refine ⟨hopen, out, ?_, ?_, (tally_sink s₀ a.reset).frame _ _ hP⟩
  · show s.srecCurrentAddr.toNat = _
    rw [hend, (a.text i v).length_seen, a.length_seen]; rfl
  · have := hpaged.poke i v
    rwa [a.length_seen] at this

/-- The last byte of a header restarts size and CRC, with the whole pages behind it. -/
theorem Verifying.restart {s₀ s : Statics} {a : Reading} (h : Verifying s₀ s a) :
    Verifying s₀ { s with s_FlashSize := 0, crc := crcInit } { a with reset := some a.whole } := by
  obtain ⟨hopen, out, hend, hpaged, hP⟩ := h
  have hout := hpaged.length_out
  rw [a.length_seen] at hout
  have hdrop : out.drop a.whole = [] := List.drop_eq_nil_of_le (le_of_eq hout)
  have hsub : out.length - a.whole = 0 := Nat.sub_eq_zero_of_le (le_of_eq hout)
  refine ⟨hopen, out, hend, hpaged, hP.fed, le_of_eq hout.symm, ?_, ?_, hP.kept⟩
  · show (0 : UInt32) = 0 + (out.length - a.whole).toUInt32
    rw [hsub]; rfl
  · show crcInit = feedCrc32 crcInit (out.drop a.whole)
    rw [hdrop, feedCrc32_nil]

theorem verify_lockstep (s₀ : Statics) :
    Lockstep verifyHandler imageHandler (Verifying s₀) (Verified s₀) where
  data type base i len v s a h7 h := by
    unfold verifyHandler imageHandler
    by_cases h0 : type = 0
    · simp only [if_pos h0]
      have h1 := h.header i.toNat v
      by_cases hlast : i = len.toUInt32 - 1
      · simp only [if_pos hlast]
        exact .some ⟨rfl, (h1.header (i.toNat + 1) 0).restart⟩
      · simp only [if_neg hlast]
        exact .some ⟨rfl, h1⟩
    · simp only [if_neg h0, if_neg h7]
      obtain ⟨hopen, hf⟩ := h
      obtain ⟨hlo, hlast, hfill⟩ := (tally_sink s₀ a.reset).dataByte hf base i v
      rw [a.length_seen] at hlo hlast hfill
      by_cases hlt : (base + i).toNat < appBase.toNat + a.img.length
      · rw [if_pos hlt, hlo hlt]
        exact .some ⟨rfl, hopen, hf⟩
      · rw [if_neg hlt]
        by_cases hmax : base + i = 0xFFFFFFFF
        · rw [if_pos hmax, hlast hlt hmax]
          exact .none
        · obtain ⟨s', hs', hf'⟩ := hfill hlt hmax
          rw [if_neg hmax, hs']
          refine .some ⟨rfl, ?_, ?_⟩
          · show (a.fill _ v).ended = false
            rw [Reading.fill_ended]; exact hopen
          · show Filling (Tally s₀ (a.fill _ v).reset) s' (a.fill _ v).seen
            rw [Reading.fill_reset, Reading.fill_seen]; exact hf'
  term base s a h := by
    obtain ⟨hopen, hf⟩ := h
    have hsink := tally_sink s₀ a.reset
    exact .some ⟨rfl, rfl, _, base, hsink.flushRest_atEnd hf, hsink.flushRest hf, rfl⟩

/-! ### The upload -/

/-- Transfers that follow one another in memory from `addr` on. -/
def Contiguous : UInt32 → List (UInt32 × List UInt8) → Prop
  | _, [] => True
  | addr, w :: ws => w.1 = addr ∧ Contiguous (addr + w.2.length.toUInt32) ws

theorem contiguous_append_singleton (base : UInt32) (bs : List UInt8) :
    ∀ (ws : List (UInt32 × List UInt8)) (addr : UInt32), Contiguous addr ws →
      base = addr + (ws.flatMap Prod.snd).length.toUInt32 → Contiguous addr (ws ++ [(base, bs)])
  | [], addr, _, hb => ⟨by simpa using hb, trivial⟩
  | w :: ws, addr, h, hb => by
    refine ⟨h.1, contiguous_append_singleton base bs ws _ h.2 ?_⟩
    rw [hb]
    simp [UInt32.add_assoc]

/-- The bytes `out` have gone to the DRAM, one transfer after another from `s₀.dramBaseAddr` on; what
    the verifier found stays. -/
structure Sent (s₀ s : Statics) (out : List UInt8) : Prop where
  sent : ∃ ws, s.dram.sent = s₀.dram.sent ++ ws ∧ Contiguous s₀.dramBaseAddr ws ∧
    ws.flatMap Prod.snd = out
  addr : s.dramBaseAddr = s₀.dramBaseAddr + out.length.toUInt32
  size : s.s_FlashSize = s₀.s_FlashSize
  crc : s.s_FlashCRC32 = s₀.s_FlashCRC32

theorem Sent.start (s : Statics) : Sent s s [] := ⟨⟨[], by simp, trivial, rfl⟩, by simp, rfl, rfl⟩

/-- `UploadToDRAM` sends the bytes on, whatever becomes of them. -/
theorem sent_sink (ch : Channel) (s₀ : Statics) : Sink (uploadToDRAM ch) (Sent s₀) where
  addr _ := rfl
  frame _ _ h := ⟨h.sent, h.addr, h.size, h.crc⟩
  flush {s out} h := by
    obtain ⟨⟨ws, hsent, hcont, hout⟩, haddr, hsize, hcrc⟩ := h
    have hlen := length_line s
    have htake : s.line.take memBufSize = s.line := by
      rw [List.take_of_length_le]
      have := validBytes_le s
      show _ ≤ 512
      omega
    refine ⟨⟨ws ++ [(s.dramBaseAddr, s.line)], ?_, ?_, by simp [hout]⟩, ?_, hsize, hcrc⟩
    · show s.dram.sent ++ [(s.dramBaseAddr, s.line.take memBufSize)] = _
      rw [htake, hsent, List.append_assoc]
    · exact contiguous_append_singleton _ _ ws _ hcont (by rw [hout, haddr])
    · show s.dramBaseAddr + s.validBytes = _
      rw [haddr, List.length_append, hlen]
      simp [UInt32.add_assoc]

/-- An upload in progress. -/
def Uploading (s₀ s : Statics) (a : Reading) : Prop :=
  a.ended = false ∧ Filling (Sent s₀) s a.img

/-- An upload after the termination record. -/
def Uploaded (s₀ s : Statics) (a : Reading) : Prop := a.ended = true ∧ Sent s₀ s a.img

theorem upload_lockstep (ch : Channel) (s₀ : Statics) :
    Lockstep (uploadHandler ch) imageHandler (Uploading s₀) (Uploaded s₀) where
  data type base i len v s a h7 h := by
    unfold uploadHandler imageHandler
    by_cases h0 : type = 0
    · simp only [if_pos h0]
      -- the text goes into `seen` alone
      by_cases hlast : i = len.toUInt32 - 1
      · rw [if_pos hlast]; exact .some ⟨rfl, h⟩
      · rw [if_neg hlast]; exact .some ⟨rfl, h⟩
    · simp only [if_neg h0, if_neg h7]
      obtain ⟨hopen, hf⟩ := h
      obtain ⟨hlo, hlast, hfill⟩ := (sent_sink ch s₀).dataByte hf base i v
      by_cases hlt : (base + i).toNat < appBase.toNat + a.img.length
      · rw [if_pos hlt, hlo hlt]
        exact .some ⟨rfl, hopen, hf⟩
      · rw [if_neg hlt]
        by_cases hmax : base + i = 0xFFFFFFFF
        · rw [if_pos hmax, hlast hlt hmax]
          exact .none
        · obtain ⟨s', hs', hf'⟩ := hfill hlt hmax
          rw [if_neg hmax, hs']
          refine .some ⟨rfl, ?_, ?_⟩
          · show (a.fill _ v).ended = false
            rw [Reading.fill_ended]; exact hopen
          · show Filling (Sent s₀) s' (a.fill _ v).img
            rw [Reading.fill_img]; exact hf'
  term base s a h := by
    obtain ⟨hopen, hf⟩ := h
    exact .some ⟨rfl, rfl, (sent_sink ch s₀).flushRest hf⟩

end Flash
