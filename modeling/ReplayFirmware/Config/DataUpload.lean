import ReplayFirmware.Config.Missing
import ReplayFirmware.FileIO.MCh

/-! `DATA` of `[UPLOAD]`: up to 16 bytes, the address that they go to, and how many they are.

    The list of the entries and the two buffers have their bounds here, and an access outside of them is
    no result. The number is compared with the number of entries less two, which is signed, and so a
    single entry of -1 passes for a list of bytes with an address and their number. -/

namespace Config.DataUpload
open Ini FileIO.MCh
open Ini.InPlace (ValueString)

/-! ### Accesses -/

/-- What is left: the value, by `ParseList`, the list of its entries, or a buffer. -/
inductive Fault where
  | value
  | list (i : ℤ)
  | buf (i : ℕ)
deriving DecidableEq

abbrev Access := Except Fault

/-- `valueList[i]`, where `i` is signed. -/
def entry (vs : List ValueEntry) (i : ℤ) : Access ValueEntry :=
  match vs[i.toNat]? with
  | some e => if 0 ≤ i then .ok e else .error (.list i)
  | none => .error (.list i)

/-- `uint8_t buf[16]` -/
structure Buf where
  bytes : List UInt8
  length_eq : bytes.length = 16

def Buf.set (buf : Buf) (i : ℕ) (x : UInt8) : Access Buf :=
  if i < 16 then .ok ⟨buf.bytes.set i x, by rw [List.length_set, buf.length_eq]⟩ else .error (.buf i)

/-- The loop that fills the buffer, `k` bytes from `i` on. -/
def fill (vs : List ValueEntry) : ℕ → ℕ → Buf → Access Buf
  | 0, _, buf => .ok buf
  | k + 1, i, buf => do
    let e ← entry vs i
    let buf ← buf.set i e.intval.toUInt8
    fill vs k (i + 1) buf

/-- What `FileIO_MCh_BufToMem` and `FileIO_MCh_MemToBuf` access of a buffer. -/
def span (size : UInt32) : Access ℕ :=
  if min size.toNat memBufSize ≤ 16 then .ok (min size.toNat memBufSize) else .error (.buf 16)

variable (ch : Channel)

/-- `FileIO_MCh_BufToMem(buf, base, size)` -/
def send (buf : Buf) (base size : UInt32) (m : Dram) : Access (UInt8 × Dram) := do
  let n ← span size
  return bufToMem ch (buf.bytes.take n) base m

/-- `FileIO_MCh_MemToBuf(buf, base, size)`; the answer is not looked at. -/
def receive (buf : Buf) (base size : UInt32) (m : Dram) : Access (List UInt8 × Dram) := do
  let n ← span size
  let (_, bs, m) := memToBuf ch (buf.bytes.take n) base m
  return (bs ++ buf.bytes.drop n, m)

/-- Bytes `0` to `k` of two buffers are compared. -/
def same (k : ℕ) (as bs : List UInt8) : Access Bool :=
  if k ≤ 16 then .ok (as.take k = bs.take k) else .error (.buf 16)

/-! ### The handler -/

/-- `_CFG_handle_UPLOAD_DATA` behind `ParseList`. -/
def handleEntries (verify_dl : UInt8) (buf tmpbuf : Buf) (vs : List ValueEntry) (m : Dram) :
    Access (UInt8 × Dram) := do
  let entries : ℤ := vs.length
  if entries ≤ 18 then
    let last ← entry vs (entries - 1)
    if entries - 2 = last.intval.toInt32.toInt then
      let buf ← fill vs (entries - 2).toNat 0 buf
      let base ← entry vs (entries - 2)
      let (rc, m) ← send ch buf base.intval last.intval m
      if rc ≠ 0 then return (1, m)
      else if verify_dl ≠ 0 then
        let (tmp, m) ← receive ch tmpbuf base.intval last.intval m
        let ok ← same (entries - 2).toNat tmp buf.bytes
        return (if ok then 0 else 1, m)
      else send ch buf base.intval last.intval m
    else return (1, m)
  else return (1, m)

/-- `_CFG_handle_UPLOAD_DATA`, with what the two buffers hold before. -/
def handleUploadData (spi_fpga_enabled verify_dl : UInt8) (buf tmpbuf : Buf) (v : ValueString)
    (b : ValueBuffer) (m : Dram) : Access (UInt8 × Dram) :=
  if spi_fpga_enabled = 0 then .ok (1, m)
  else
    match valueList v 32 b with
    | none => .error .value
    | some vs => handleEntries ch verify_dl buf tmpbuf vs m

/-! ### What is listed -/

/-- The bytes. -/
def listed (vs : List ValueEntry) : List UInt8 :=
  (vs.take (vs.length - 2)).map fun e => e.intval.toUInt8

/-- The number is that of the bytes, and they fit the buffer. -/
structure Matches (vs : List ValueEntry) (base last : ValueEntry) : Prop where
  least : 2 ≤ vs.length
  most : vs.length ≤ 18
  base_eq : vs[vs.length - 2]? = some base
  last_eq : vs[vs.length - 1]? = some last
  number : last.intval.toInt32.toInt = (vs.length : ℤ) - 2

/-- The bytes that are listed are in the memory, once or twice, and nothing else. -/
def Uploaded (vs : List ValueEntry) (base : UInt32) (m m' : Dram) : Prop :=
  (m'.sent = m.sent ++ [(base, listed vs)] ∨
      m'.sent = m.sent ++ [(base, listed vs), (base, listed vs)]) ∧
    (ch = .faithful → m'.mem = stored .faithful m.sent.length base (listed vs) m.mem)

/-- The handler stays in its bounds; it uploads the bytes that are listed, or it fails and uploads
    nothing when the number does not match. -/
def Sound (vs : List ValueEntry) (m : Dram) (r : Access (UInt8 × Dram)) : Prop :=
  ∃ rc m', r = .ok (rc, m') ∧
    (∀ base last, Matches vs base last → Uploaded ch vs base.intval m m') ∧
    ((¬∃ base last, Matches vs base last) → rc = 1 ∧ m' = m)

/-! ### In bounds -/

variable {ch : Channel} {vs : List ValueEntry} {base last : ValueEntry} {m : Dram}

theorem ok_bind {α β : Type} (a : α) (f : α → Access β) : (Except.ok a >>= f) = f a := rfl

theorem entry_eq {i : ℕ} {e : ValueEntry} (h : vs[i]? = some e) : entry vs i = .ok e := by
  rw [entry, Int.toNat_natCast, h]
  exact if_pos (Int.natCast_nonneg i)

/-- The buffer is filled from its front. -/
theorem fill_eq : ∀ {k i : ℕ} {buf : Buf}, i + k ≤ vs.length → i + k ≤ 16 →
    ∃ buf', fill vs k i buf = .ok buf' ∧ buf'.bytes.take (i + k) =
      buf.bytes.take i ++ ((vs.drop i).take k).map fun e => e.intval.toUInt8
  | 0, i, buf, _, _ => ⟨buf, rfl, by simp⟩
  | k + 1, i, buf, hvs, h16 => by
    have hget : vs[i]? = some vs[i] := List.getElem?_eq_getElem (by omega)
    have hset : buf.set i vs[i].intval.toUInt8 =
        .ok ⟨buf.bytes.set i vs[i].intval.toUInt8, by rw [List.length_set, buf.length_eq]⟩ :=
      if_pos (by omega)
    obtain ⟨buf', hfill, htake⟩ := @fill_eq k (i + 1)
      ⟨buf.bytes.set i vs[i].intval.toUInt8, by rw [List.length_set, buf.length_eq]⟩
      (by omega) (by omega)
    refine ⟨buf', ?_, ?_⟩
    · rw [fill, entry_eq hget]
      change (do let buf ← buf.set i _; _) = _
      rw [hset]
      exact hfill
    · have hlen := buf.length_eq
      rw [show i + (k + 1) = i + 1 + k by omega, htake, List.take_add_one,
        List.take_set_of_le (le_refl i),
        List.getElem?_set_self (by omega), List.drop_eq_getElem_cons (by omega : i < vs.length),
        List.take_succ_cons, List.map_cons, List.append_assoc]
      rfl

theorem span_eq {size : UInt32} (h : size.toNat ≤ 16) : span size = .ok size.toNat := by
  have hmin : min size.toNat memBufSize = size.toNat := Nat.min_eq_left (le_trans h (by decide))
  rw [span, hmin]
  exact if_pos h

theorem Matches.size (h : Matches vs base last) : last.intval.toNat = vs.length - 2 := by
  have hnum := h.number
  have hleast := h.least
  have hmost := h.most
  have hlt := last.intval.toNat_lt
  rw [show last.intval.toInt32.toInt = last.intval.toBitVec.toInt from rfl,
    BitVec.toInt_eq_toNat_cond, UInt32.toNat_toBitVec] at hnum
  split at hnum <;> omega

theorem length_listed : (listed vs).length = vs.length - 2 := by
  rw [listed, List.length_map, List.length_take]
  omega

theorem send_eq {buf : Buf} (h : Matches vs base last) (hbuf : buf.bytes.take (vs.length - 2) = listed vs)
    (m : Dram) : send ch buf base.intval last.intval m = .ok (bufToMem ch (listed vs) base.intval m) := by
  have hmost := h.most
  have hspan : span last.intval = .ok (vs.length - 2) := by
    rw [span_eq (by rw [h.size]; omega), h.size]
  rw [send, hspan, ← hbuf]
  rfl

theorem receive_eq {buf : Buf} (h : Matches vs base last) (m : Dram) :
    ∃ bs, receive ch buf base.intval last.intval m =
      .ok (bs, (memToBuf ch (buf.bytes.take (vs.length - 2)) base.intval m).2.2) := by
  have hmost := h.most
  have hspan : span last.intval = .ok (vs.length - 2) := by
    rw [span_eq (by rw [h.size]; omega), h.size]
  rw [receive, hspan]
  exact ⟨_, rfl⟩

theorem bufToMem_faithful (h : Matches vs base last) :
    (bufToMem .faithful (listed vs) base.intval m).2.mem =
    stored .faithful m.sent.length base.intval (listed vs) m.mem := by
  have hmost := h.most
  have htake : (listed vs).take memBufSize = listed vs :=
    List.take_of_length_le (by rw [length_listed, memBufSize]; omega)
  rw [bufToMem, htake]
  rfl

theorem stored_faithful_stored (n n' : ℕ) (base : UInt32) (bs : List UInt8) (mem : UInt32 → UInt8) :
    stored .faithful n base bs (stored .faithful n' base bs mem) = stored .faithful n' base bs mem := by
  funext a
  simp only [stored]
  split <;> rfl

/-! ### What comes out -/

theorem handleEntries_long {verify_dl : UInt8} {buf tmpbuf : Buf} (h : 18 < vs.length) :
    handleEntries ch verify_dl buf tmpbuf vs m = .ok (1, m) :=
  if_neg (by omega)

/-- The number of a list without entries is in front of it. -/
theorem handleEntries_nil {verify_dl : UInt8} {buf tmpbuf : Buf} :
    handleEntries ch verify_dl buf tmpbuf [] m = .error (.list (-1)) := rfl

/-- So is the address for a single entry, when it passes for a number of bytes. -/
theorem handleEntries_minusOne {verify_dl : UInt8} {buf tmpbuf : Buf} {e : ValueEntry}
    (h : e.intval = 0xFFFFFFFF) :
    handleEntries ch verify_dl buf tmpbuf [e] m = .error (.list (-1)) := by
  have hnum := (Config.Handlers.minusOne_iff e.intval).mpr h
  rw [handleEntries]
  change (if ((1 : ℕ) : ℤ) - 2 = e.intval.toInt32.toInt then _ else _) = _
  rw [if_pos hnum]
  rfl

theorem handleEntries_mismatch {verify_dl : UInt8} {buf tmpbuf : Buf} (hmost : vs.length ≤ 18)
    (hlast : vs[vs.length - 1]? = some last) (h : (vs.length : ℤ) - 2 ≠ last.intval.toInt32.toInt) :
    handleEntries ch verify_dl buf tmpbuf vs m = .ok (1, m) := by
  have hpos : 0 < vs.length := by
    by_contra hzero
    rw [List.getElem?_eq_none (by omega)] at hlast
    cases hlast
  have hentry : entry vs ((vs.length : ℤ) - 1) = .ok last := by
    rw [show (vs.length : ℤ) - 1 = ((vs.length - 1 : ℕ) : ℤ) by omega]
    exact entry_eq hlast
  rw [handleEntries]
  change (if (vs.length : ℤ) ≤ 18 then (do let last ← entry vs ((vs.length : ℤ) - 1); _) else _) = _
  rw [if_pos (by omega), hentry]
  exact if_neg h

theorem uploaded_once (h : Matches vs base last) :
    Uploaded ch vs base.intval m (bufToMem ch (listed vs) base.intval m).2 := by
  have hmost := h.most
  have htake : (listed vs).take memBufSize = listed vs :=
    List.take_of_length_le (by rw [length_listed, memBufSize]; omega)
  refine ⟨Or.inl (by rw [bufToMem_sent, htake]), fun hch => ?_⟩
  subst hch
  exact bufToMem_faithful h

theorem uploaded_twice (h : Matches vs base last) : Uploaded ch vs base.intval m
    (bufToMem ch (listed vs) base.intval (bufToMem ch (listed vs) base.intval m).2).2 := by
  have hmost := h.most
  have htake : (listed vs).take memBufSize = listed vs :=
    List.take_of_length_le (by rw [length_listed, memBufSize]; omega)
  refine ⟨Or.inr (by simp [htake]), fun hch => ?_⟩
  subst hch
  rw [bufToMem_faithful h, bufToMem_faithful h, stored_faithful_stored]

theorem handleEntries_matches (verify_dl : UInt8) (buf tmpbuf : Buf) (h : Matches vs base last) :
    ∃ rc m', handleEntries ch verify_dl buf tmpbuf vs m = .ok (rc, m') ∧
      Uploaded ch vs base.intval m m' := by
  have hleast := h.least
  have hmost := h.most
  obtain ⟨buf', hfill, htake⟩ := @fill_eq vs (vs.length - 2) 0 buf
    (by omega) (by omega)
  have hbuf : buf'.bytes.take (vs.length - 2) = listed vs := by
    rw [Nat.zero_add] at htake
    rw [htake, List.take_zero, List.nil_append, List.drop_zero]
    rfl
  obtain ⟨tmp, hreceive⟩ := @receive_eq ch vs base last tmpbuf h (bufToMem ch (listed vs) base.intval m).2
  have hlast : entry vs ((vs.length : ℤ) - 1) = .ok last := by
    rw [show (vs.length : ℤ) - 1 = ((vs.length - 1 : ℕ) : ℤ) by omega]
    exact entry_eq h.last_eq
  have hbase : entry vs ((vs.length : ℤ) - 2) = .ok base := by
    rw [show (vs.length : ℤ) - 2 = ((vs.length - 2 : ℕ) : ℤ) by omega]
    exact entry_eq h.base_eq
  have hsame : same (vs.length - 2) tmp buf'.bytes =
      .ok (decide (tmp.take (vs.length - 2) = buf'.bytes.take (vs.length - 2))) := if_pos (by omega)
  rw [handleEntries]
  simp only [if_pos (show (vs.length : ℤ) ≤ 18 by omega), hlast, hbase, ok_bind, if_pos h.number.symm,
    show ((vs.length : ℤ) - 2).toNat = vs.length - 2 by omega, hfill, send_eq h hbuf]
  split
  · exact ⟨_, _, rfl, uploaded_once h⟩
  · split
    · rw [hreceive, ok_bind]
      simp only [hsame, ok_bind]
      refine ⟨_, _, rfl, ?_⟩
      obtain ⟨hsent, hmem⟩ := @uploaded_once ch vs base last m h
      exact ⟨by rw [memToBuf_sent]; exact hsent, fun hch => by rw [memToBuf_mem]; exact hmem hch⟩
    · exact ⟨_, _, rfl, uploaded_twice h⟩

/-! ### All values -/

theorem handleEntries_sound_iff : (∀ ch verify_dl buf tmpbuf m,
    Sound ch vs m (handleEntries ch verify_dl buf tmpbuf vs m)) ↔
      vs ≠ [] ∧ ∀ e, vs = [e] → e.intval ≠ 0xFFFFFFFF := by
  constructor
  · intro h
    have hrun := h .faithful 0 ⟨List.replicate 16 0, by decide⟩ ⟨List.replicate 16 0, by decide⟩
      ⟨fun _ => 0, [], 0⟩
    obtain ⟨rc, m', heq, -⟩ := hrun
    refine ⟨?_, ?_⟩
    · rintro rfl
      rw [handleEntries_nil] at heq
      cases heq
    · rintro e rfl hminus
      rw [handleEntries_minusOne hminus] at heq
      cases heq
  · rintro ⟨hne, hone⟩ ch verify_dl buf tmpbuf m
    have hpos := List.length_pos_of_ne_nil hne
    by_cases hmatch : ∃ base last, Matches vs base last
    · obtain ⟨base, last, hmatch⟩ := hmatch
      obtain ⟨rc, m', heq, hup⟩ := @handleEntries_matches ch vs base last m verify_dl buf tmpbuf hmatch
      refine ⟨rc, m', heq, fun base' last' h' => ?_, fun hno => absurd ⟨base, last, hmatch⟩ hno⟩
      rwa [Option.some.inj (h'.base_eq.symm.trans hmatch.base_eq)]
    · refine ⟨1, m, ?_, fun base last h => absurd ⟨base, last, h⟩ hmatch, fun _ => ⟨rfl, rfl⟩⟩
      rcases Nat.lt_or_ge 18 vs.length with hlong | hshort
      · exact handleEntries_long hlong
      · have hlast : vs[vs.length - 1]? = some vs[vs.length - 1] := List.getElem?_eq_getElem (by omega)
        refine handleEntries_mismatch hshort hlast fun hnum => ?_
        rcases Nat.lt_or_ge vs.length 2 with hlt | htwo
        · obtain ⟨e, rfl⟩ := List.length_eq_one_iff.mp (by omega : vs.length = 1)
          exact hone e rfl ((Config.Handlers.minusOne_iff _).mp hnum)
        · exact hmatch ⟨_, _, htwo, hshort, List.getElem?_eq_getElem (by omega), hlast, hnum.symm⟩

theorem parseList_ne_nil {s : List UInt8} {n i : ℕ} {b b' : InPlace.Values} {es : List InPlace.ListEntry}
    (h : InPlace.parseList s (n + 1) i b = some (es, b')) : es ≠ [] := by
  rintro rfl
  simp only [InPlace.parseList, Option.bind_eq_bind, Option.bind_eq_some_iff] at h
  obtain ⟨found, -, start, -, fin, -, ⟨e, b₁⟩, -, h⟩ := h
  split at h
  · cases h
  · obtain ⟨c, -, h⟩ := Option.bind_eq_some_iff.mp h
    split at h
    · cases h
    · obtain ⟨⟨es, b₂⟩, -, h⟩ := Option.bind_eq_some_iff.mp h
      cases h

/-- Every value has an entry. -/
theorem valueList_ne_nil {v : ValueString} {n : ℕ} {b : ValueBuffer} {vs : List ValueEntry}
    (h : valueList v (n + 1) b = some vs) : vs ≠ [] := by
  obtain ⟨⟨es, b'⟩, hparse, rfl⟩ := Option.map_eq_some_iff.mp h
  intro hnil
  exact parseList_ne_nil hparse (List.map_eq_nil_iff.mp hnil)

/-- The value can be parsed, and it is not a single number of -1. -/
def Safe (v : ValueString) (b : ValueBuffer) : Prop :=
  ∃ vs, valueList v 32 b = some vs ∧ ∀ e, vs = [e] → e.intval ≠ 0xFFFFFFFF

/-- What the handler does with a value. -/
def SoundValue (v : ValueString) (b : ValueBuffer) : Prop :=
  ∀ ch spi_fpga_enabled verify_dl buf tmpbuf m, spi_fpga_enabled ≠ 0 →
    ∃ vs, valueList v 32 b = some vs ∧
      Sound ch vs m (handleUploadData ch spi_fpga_enabled verify_dl buf tmpbuf v b m)

theorem handleUploadData_eq {spi_fpga_enabled verify_dl : UInt8} {buf tmpbuf : Buf} {v : ValueString}
    {b : ValueBuffer} (hspi : spi_fpga_enabled ≠ 0) (hvs : valueList v 32 b = some vs) :
    handleUploadData ch spi_fpga_enabled verify_dl buf tmpbuf v b m =
      handleEntries ch verify_dl buf tmpbuf vs m := by
  rw [handleUploadData, if_neg hspi, hvs]

/-- `DATA` stays in its bounds, uploads what is listed and rejects a wrong number of bytes exactly when
    its value can be parsed and is not a single number of -1. -/
theorem soundValue_iff (v : ValueString) (b : ValueBuffer) : SoundValue v b ↔ Safe v b := by
  constructor
  · intro h
    obtain ⟨vs, hvs, -⟩ := h .faithful 1 0 ⟨List.replicate 16 0, by decide⟩
      ⟨List.replicate 16 0, by decide⟩ ⟨fun _ => 0, [], 0⟩ (by decide)
    refine ⟨vs, hvs, (handleEntries_sound_iff.mp fun ch verify_dl buf tmpbuf m => ?_).2⟩
    obtain ⟨vs', hvs', hsound⟩ := h ch 1 verify_dl buf tmpbuf m (by decide)
    obtain rfl := Option.some.inj (hvs.symm.trans hvs')
    rwa [handleUploadData_eq (by decide) hvs] at hsound
  · rintro ⟨vs, hvs, hone⟩ ch spi verify_dl buf tmpbuf m hspi
    refine ⟨vs, hvs, ?_⟩
    rw [handleUploadData_eq hspi hvs]
    exact handleEntries_sound_iff.mpr ⟨valueList_ne_nil hvs, hone⟩ ch verify_dl buf tmpbuf m

/-- `DATA = 0xFFFFFFFF` -/
def minusOne : ValueString := ⟨chars "0xFFFFFFFF", by decide, by decide⟩

/-- A single number of -1: its address is looked for in front of the list. -/
theorem minusOne_unsafe : ¬∀ (v : ValueString) (b : ValueBuffer), SoundValue v b := by
  intro h
  have hvs : valueList minusOne 32 InPlace.emptyBuffer = some [⟨some minusOne.chars, 0xFFFFFFFF⟩] := by
    decide +kernel
  obtain ⟨vs, hvs', rc, m', heq, -⟩ := h minusOne InPlace.emptyBuffer .faithful 1 0
    ⟨List.replicate 16 0, by decide⟩ ⟨List.replicate 16 0, by decide⟩ ⟨fun _ => 0, [], 0⟩ (by decide)
  rw [handleUploadData_eq (by decide) hvs, handleEntries_minusOne rfl] at heq
  cases heq

end Config.DataUpload
