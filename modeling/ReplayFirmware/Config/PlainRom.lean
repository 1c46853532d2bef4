import ReplayFirmware.FileIO.MChSent
import ReplayFirmware.Lib.Chunks
import ReplayFirmware.Lib.Writes
import Mathlib.Data.List.Range

/-! Plain ROM uploads.

    A file is sent again and again until the size is reached, each time as a whole or up to the size. The
    last time it is not cut to what is left, so a size that is no multiple of the file's own is exceeded;
    and an empty file never reaches a size at all. -/

namespace Config.UploadRom
open FatFs FileIO.MCh

/-! ### The upload -/

/-- A transfer that is asked for, and what is sent of it. -/
structure Transfer where
  base : UInt32
  size : UInt32
  sent : List UInt8
  deriving DecidableEq, Repr

/-- What a transfer puts where. -/
def Transfer.block (t : Transfer) : UInt32 → Option UInt8 := fun x => t.sent[(x - t.base).toNat]?

/-- The memory behind the transfers. -/
def memory (ts : List Transfer) (mem : UInt32 → UInt8) : UInt32 → UInt8 :=
  Writes.writeAll (ts.map Transfer.block) mem

/-- The FPGA during the uploads and the comparisons of a ROM, by their number. -/
structure Fpgas where
  upload : ℕ → Fpga
  verify : ℕ → Fpga

/-- One time the file: the return code, what is sent, and the file behind it. -/
def plainPass (fpgas : Fpgas) (verify : UInt8) (base upload_size : UInt32) (i : ℕ) (offset : UInt32)
    (fSource : FIL) : UInt8 × Transfer × FIL :=
  let (_, p, f) := fileToMem (fpgas.upload i) fSource (base + offset) upload_size 0
  let t : Transfer := ⟨base + offset, upload_size, p.bytes⟩
  if verify ≠ 0 then
    let (rc, _, f) := fileToMemVerify (fpgas.verify i) f (base + offset) upload_size 0
    (rc, t, f)
  else (0, t, f)

/-- The loop of the plain path; `none` when it has not ended. -/
def plainLoop (fpgas : Fpgas) (verify : UInt8) (base size filesize : UInt32) :
    ℕ → ℕ → UInt32 → UInt8 → FIL → Option (UInt8 × List Transfer)
  | 0, _, _, _, _ => none
  | fuel + 1, i, offset, rc, fSource =>
    if offset < size then
      let upload_size := if filesize < size then filesize else size
      let (rc, t, f) := plainPass fpgas verify base upload_size i offset fSource
      if rc ≠ 0 then some (rc, [t])
      else (plainLoop fpgas verify base size filesize fuel (i + 1) (offset + upload_size) rc f).map
        fun r => (r.1, t :: r.2)
    else some (rc, [])

/-- The plain path of `CFG_upload_rom`: the return code and the transfers. -/
def uploadPlain (fpgas : Fpgas) (fuel : ℕ) (file : File) (base size : UInt32) (verify : UInt8) :
    Option (UInt8 × List Transfer) :=
  let (_, fSource) := FF_Seek (f_open file false) 0
  let filesize := UInt32.ofNat (FF_Size fSource)
  let size := if size = 0 then (FF_BytesLeft fSource).toUInt32 else size
  plainLoop fpgas verify base size filesize fuel 0 0 1 fSource

/-! ### What it should do -/

/-- The size of a file, in 32 bits. -/
def filesize (file : File) : UInt32 := UInt32.ofNat file.data.length

/-- The size that is uploaded: that of the file when none is given. -/
def effective (file : File) (size : UInt32) : UInt32 := if size = 0 then filesize file else size

/-- A result is right: the memory holds the file from `base` on, again and again, up to the size; no
    transfer goes beyond that; and zero is returned only when all bytes were sent. -/
structure Right (file : File) (base size : UInt32) (r : UInt8 × List Transfer) : Prop where
  inside : ∀ mem k, k < size.toNat →
    some (memory r.2 mem (base + UInt32.ofNat k)) = file.data[k % file.data.length]?
  within : ∀ t ∈ r.2, (t.base - base).toNat + t.size.toNat ≤ size.toNat
  outside : ∀ mem x, size.toNat ≤ (x - base).toNat → memory r.2 mem x = mem x
  code : r.1 = 0 → (r.2.flatMap Transfer.sent).length = size.toNat

/-- The upload ends, and is right. -/
def Uploads (fpgas : Fpgas) (file : File) (base size : UInt32) (verify : UInt8) : Prop :=
  ∃ fuel r, uploadPlain fpgas fuel file base size verify = some r ∧
    Right file base (effective file size) r

/-- The bytes of one transfer. -/
def chunk (file : File) (size : UInt32) : UInt32 :=
  if filesize file < effective file size then filesize file else effective file size

/-- A size that can be uploaded, from a file that can be read, while nothing times out. -/
structure Uploadable (fpgas : Fpgas) (file : File) (size : UInt32) (verify : UInt8) : Prop where
  /-- the size is within the file, or a multiple of its size -/
  whole : effective file size ≤ filesize file ∨ (filesize file).toNat ∣ (effective file size).toNat
  /-- nothing for a file that is smaller than 4 GiB -/
  repeats : ∀ k < (effective file size).toNat,
    file.data[k % (filesize file).toNat]? = file.data[k % file.data.length]?
  readable : (chunk file size).toNat ≤ file.readable
  again : filesize file < effective file size →
    min file.data.length (wholeBlocks (chunk file size).toNat) ≤ file.readable
  timely : ∀ i, i * (chunk file size).toNat < (effective file size).toNat →
    InTime (fpgas.upload i) 0 (2 * waitsFor (chunk file size).toNat)
  compared : verify ≠ 0 → ∀ i, (i + 1) * (chunk file size).toNat < (effective file size).toNat →
    InTime (fpgas.verify i) 0 (waitsFor (chunk file size).toNat) ∧
      arrived (fpgas.verify i) 0 (chunk file size).toNat = file.data.take (chunk file size).toNat

/-! ### Passes -/

section Passes

variable (fpgas : Fpgas) (verify : UInt8) (file : File) (base : UInt32) (n : UInt32)

/-- The file in front of a pass. -/
def fileAt : ℕ → FIL
  | 0 => f_open file false
  | j + 1 => (plainPass fpgas verify base n j (UInt32.ofNat (j * n.toNat)) (fileAt j)).2.2

def passAt (j : ℕ) : UInt8 × Transfer × FIL :=
  plainPass fpgas verify base n j (UInt32.ofNat (j * n.toNat)) (fileAt fpgas verify file base n j)

/-- So many passes are made from pass `i` on, until the size is reached or a comparison fails. -/
structure Ends (size : UInt32) (i m : ℕ) : Prop where
  goes : ∀ j < m, UInt32.ofNat ((i + j) * n.toNat) < size
  zero : ∀ j, j + 1 < m → (passAt fpgas verify file base n (i + j)).1 = 0
  done : size ≤ UInt32.ofNat ((i + m) * n.toNat) ∨
    ∃ j, m = j + 1 ∧ (passAt fpgas verify file base n (i + j)).1 ≠ 0

/-- The return code behind them. -/
def codeAt (i m : ℕ) (rc : UInt8) : UInt8 :=
  if m = 0 then rc else (passAt fpgas verify file base n (i + m - 1)).1

def transfersAt (i m : ℕ) : List Transfer :=
  (List.range m).map fun j => (passAt fpgas verify file base n (i + j)).2.1

theorem offset_next (i : ℕ) : UInt32.ofNat (i * n.toNat) + n = UInt32.ofNat ((i + 1) * n.toNat) := by
  rw [Nat.succ_mul, UInt32.ofNat_add, UInt32.ofNat_toNat]

variable {fpgas verify file base n} {size fs : UInt32}

theorem Ends.cons {i m : ℕ} (hgo : UInt32.ofNat (i * n.toNat) < size)
    (hzero : (passAt fpgas verify file base n i).1 = 0)
    (h : Ends fpgas verify file base n size (i + 1) m) :
    Ends fpgas verify file base n size i (m + 1) := by
  have hshift : ∀ j, i + (j + 1) = i + 1 + j := fun j => by omega
  refine ⟨fun j hj => ?_, fun j hj => ?_, ?_⟩
  · cases j with
    | zero => exact hgo
    | succ j => rw [hshift]; exact h.goes j (by omega)
  · cases j with
    | zero => exact hzero
    | succ j => rw [hshift]; exact h.zero j (by omega)
  · rw [hshift]
    rcases h.done with hle | ⟨j, rfl, hne⟩
    · exact Or.inl hle
    · exact Or.inr ⟨j + 1, rfl, by rw [hshift]; exact hne⟩

theorem Ends.tail {i m : ℕ} (h : Ends fpgas verify file base n size i (m + 1))
    (hzero : (passAt fpgas verify file base n i).1 = 0) :
    Ends fpgas verify file base n size (i + 1) m := by
  have hshift : ∀ j, i + 1 + j = i + (j + 1) := fun j => by omega
  refine ⟨fun j hj => ?_, fun j hj => ?_, ?_⟩
  · rw [hshift]
    exact h.goes (j + 1) (by omega)
  · rw [hshift]
    exact h.zero (j + 1) (by omega)
  · rw [hshift]
    rcases h.done with hle | ⟨j, hj, hne⟩
    · exact Or.inl hle
    · cases j with
      | zero => exact absurd hzero hne
      | succ j => exact Or.inr ⟨j, by omega, by rw [hshift]; exact hne⟩

theorem transfersAt_cons (i m : ℕ) : transfersAt fpgas verify file base n i (m + 1) =
    (passAt fpgas verify file base n i).2.1 :: transfersAt fpgas verify file base n (i + 1) m := by
  rw [transfersAt, List.range_succ_eq_map, List.map_cons, List.map_map, transfersAt]
  refine congrArg _ (List.map_congr_left fun j _ => ?_)
  rw [Function.comp_apply, show i + j.succ = i + 1 + j by omega]

theorem codeAt_cons {i m : ℕ} {rc : UInt8} (h : (passAt fpgas verify file base n i).1 = rc)
    (rc' : UInt8) :
    codeAt fpgas verify file base n i (m + 1) rc' = codeAt fpgas verify file base n (i + 1) m rc := by
  rw [codeAt, codeAt, if_neg (Nat.succ_ne_zero m)]
  split
  · next h0 =>
    rw [h0]
    exact h
  · rw [show i + (m + 1) - 1 = i + 1 + m - 1 by omega]

/-- One round of the loop. -/
theorem plainLoop_succ (hn : (if fs < size then fs else size) = n) (fuel i : ℕ) (rc : UInt8) :
    plainLoop fpgas verify base size fs (fuel + 1) i (UInt32.ofNat (i * n.toNat)) rc
        (fileAt fpgas verify file base n i) =
      if UInt32.ofNat (i * n.toNat) < size then
        if (passAt fpgas verify file base n i).1 ≠ 0 then
          some ((passAt fpgas verify file base n i).1, [(passAt fpgas verify file base n i).2.1])
        else (plainLoop fpgas verify base size fs fuel (i + 1) (UInt32.ofNat ((i + 1) * n.toNat)) 0
          (fileAt fpgas verify file base n (i + 1))).map
            fun r => (r.1, (passAt fpgas verify file base n i).2.1 :: r.2)
      else some (rc, []) := by
  rw [plainLoop]
  refine if_congr Iff.rfl ?_ rfl
  simp only [hn, offset_next]
  change (if (passAt fpgas verify file base n i).1 ≠ 0 then _ else _) = _
  split
  · rfl
  · next h =>
    have hzero : (plainPass fpgas verify base n i (UInt32.ofNat (i * n.toNat))
        (fileAt fpgas verify file base n i)).1 = 0 := not_not.mp h
    rw [hzero]
    rfl

theorem plainLoop_ends (hn : (if fs < size then fs else size) = n) : ∀ (fuel i : ℕ) (rc : UInt8)
    (r : UInt8 × List Transfer),
    plainLoop fpgas verify base size fs fuel i (UInt32.ofNat (i * n.toNat)) rc
        (fileAt fpgas verify file base n i) = some r →
      ∃ m, Ends fpgas verify file base n size i m ∧
        r = (codeAt fpgas verify file base n i m rc, transfersAt fpgas verify file base n i m)
  | 0, _, _, _, h => by cases h
  | fuel + 1, i, rc, r, h => by
    rw [plainLoop_succ hn] at h
    split at h
    · next hgo =>
      split at h
      · next hne =>
        cases h
        exact ⟨1, ⟨fun j hj => by rwa [show i + j = i by omega], fun j hj => by omega,
          Or.inr ⟨0, rfl, hne⟩⟩, rfl⟩
      · next hzero =>
        obtain ⟨r', hrest, rfl⟩ := Option.map_eq_some_iff.mp h
        obtain ⟨m, hends, rfl⟩ := plainLoop_ends hn fuel (i + 1) 0 r' hrest
        refine ⟨m + 1, hends.cons hgo (not_not.mp hzero), ?_⟩
        rw [transfersAt_cons, codeAt_cons (not_not.mp hzero)]
    · next hstop =>
      cases h
      exact ⟨0, ⟨fun j hj => absurd hj (Nat.not_lt_zero j), fun j hj => by omega,
        Or.inl (UInt32.not_lt.mp hstop)⟩, rfl⟩

theorem ends_plainLoop (hn : (if fs < size then fs else size) = n) : ∀ (m i : ℕ) (rc : UInt8),
    Ends fpgas verify file base n size i m → ∃ fuel, plainLoop fpgas verify base size fs fuel i
      (UInt32.ofNat (i * n.toNat)) rc (fileAt fpgas verify file base n i) =
        some (codeAt fpgas verify file base n i m rc, transfersAt fpgas verify file base n i m)
  | 0, i, rc, h => by
    refine ⟨1, ?_⟩
    rw [plainLoop_succ hn, if_neg]
    · rfl
    · rcases h.done with hle | ⟨j, hj, -⟩
      · exact UInt32.not_lt.mpr hle
      · omega
  | m + 1, i, rc, h => by
    have hgo : UInt32.ofNat (i * n.toNat) < size := h.goes 0 (Nat.succ_pos m)
    by_cases hzero : (passAt fpgas verify file base n i).1 = 0
    · obtain ⟨fuel, hrest⟩ := ends_plainLoop hn m (i + 1) 0 (h.tail hzero)
      refine ⟨fuel + 1, ?_⟩
      rw [plainLoop_succ hn, if_pos hgo, if_neg (not_not.mpr hzero), hrest,
        transfersAt_cons, codeAt_cons hzero]
      rfl
    · obtain rfl : m = 0 := by
        by_contra hm
        exact hzero (h.zero 0 (by omega))
      refine ⟨1, ?_⟩
      rw [plainLoop_succ hn, if_pos hgo, if_pos hzero]
      rfl

/-! ### What a pass does -/

theorem passAt_transfer (j : ℕ) : (passAt fpgas verify file base n j).2.1 =
    ⟨base + UInt32.ofNat (j * n.toNat), n, sentBy (fpgas.upload j) (fileAt fpgas verify file base n j)
      (base + UInt32.ofNat (j * n.toNat)) n 0⟩ := by
  rw [passAt, plainPass]
  simp only
  split <;> rfl

/-- The file behind the upload of a pass. -/
def sentAt (fpgas : Fpgas) (verify : UInt8) (file : File) (base n : UInt32) (j : ℕ) : FIL :=
  (fileToMem (fpgas.upload j) (fileAt fpgas verify file base n j)
    (base + UInt32.ofNat (j * n.toNat)) n 0).2.2

theorem fileAt_succ (j : ℕ) : fileAt fpgas verify file base n (j + 1) =
    if verify ≠ 0 then (fileToMemVerify (fpgas.verify j) (sentAt fpgas verify file base n j)
      (base + UInt32.ofNat (j * n.toNat)) n 0).2.2 else sentAt fpgas verify file base n j := by
  rw [fileAt, plainPass]
  simp only
  split <;> rfl

theorem passAt_code (j : ℕ) : (passAt fpgas verify file base n j).1 =
    if verify ≠ 0 then (fileToMemVerify (fpgas.verify j) (sentAt fpgas verify file base n j)
      (base + UInt32.ofNat (j * n.toNat)) n 0).1 else 0 := by
  rw [passAt, plainPass]
  simp only
  split <;> rfl

theorem fileAt_open : ∀ j, OpenOn file (fileAt fpgas verify file base n j)
  | 0 => openOn_open file
  | j + 1 => by
    have hsent : OpenOn file (sentAt fpgas verify file base n j) := (fileToMem_file (fileAt_open j) ..).1
    rw [fileAt_succ]
    split
    · exact (fileToMemVerify_file hsent ..).1
    · exact hsent

theorem sentAt_open (j : ℕ) : OpenOn file (sentAt fpgas verify file base n j) :=
  (fileToMem_file (fileAt_open j) ..).1

/-- An object that is aborted stays so. -/
theorem fileAt_aborted {j : ℕ} (h : (sentAt fpgas verify file base n j).err = true) :
    (fileAt fpgas verify file base n (j + 1)).err = true := by
  rw [fileAt_succ]
  split
  · exact (fileToMemVerify_file (sentAt_open j) ..).2.1 h
  · exact h

theorem available_open {f : FIL} (h : OpenOn file f) (he : f.err = false) :
    available f 0 = min file.data.length file.readable := by
  rw [available, he, h.objsize, h.readable]
  rfl

/-- A file whose blocks can be read is not aborted by passes in time. -/
theorem fileAt_sound (hblocks : min file.data.length (wholeBlocks n.toNat) ≤ file.readable) :
    ∀ j, (∀ i < j, InTime (fpgas.upload i) 0 (2 * waitsFor n.toNat)) →
      (fileAt fpgas verify file base n j).err = false
  | 0, _ => rfl
  | j + 1, htime => by
    have he := fileAt_sound hblocks j fun i hi => htime i (by omega)
    have hopen := @fileAt_open fpgas verify file base n j
    obtain ⟨-, -, hiff⟩ := @fileToMem_file (fpgas.upload j) _ file hopen
      (base + UInt32.ofNat (j * n.toNat)) n 0
    have hzero : (0 : UInt32).toNat = 0 := rfl
    rw [hzero, Nat.zero_min, Nat.zero_add] at hiff
    have hsent : (sentAt fpgas verify file base n j).err = false := by
      rw [← Bool.not_eq_true, sentAt, hiff he (Nat.zero_le _) ((htime j (by omega)).mono ?_)]
      · omega
      · have hle : min n.toNat (available (fileAt fpgas verify file base n j) 0) ≤ n.toNat :=
          Nat.min_le_left ..
        rw [waitsFor, waitsFor]
        omega
    rw [fileAt_succ]
    split
    · refine (fileToMemVerify_file (sentAt_open j) ..).2.2 hsent ?_
      rw [hzero, Nat.zero_min, Nat.zero_add]
      exact hblocks
    · exact hsent

/-- A first pass in time shows whether the blocks can be read. -/
theorem sentAt_zero (htime : InTime (fpgas.upload 0) 0 (2 * waitsFor n.toNat)) :
    (sentAt fpgas verify file base n 0).err = true ↔
      file.readable < min file.data.length (wholeBlocks n.toNat) := by
  obtain ⟨-, -, hiff⟩ := @fileToMem_file (fpgas.upload 0) _ file (openOn_open file)
    (base + UInt32.ofNat (0 * n.toNat)) n 0
  have hzero : (0 : UInt32).toNat = 0 := rfl
  rw [hzero, Nat.zero_min, Nat.zero_add] at hiff
  refine hiff rfl (Nat.zero_le _) (htime.mono ?_)
  have hle : min n.toNat (available (f_open file false) 0) ≤ n.toNat := Nat.min_le_left ..
  rw [waitsFor, waitsFor]
  omega

/-! ### The memory -/

/-- Where the transfer of a pass puts its bytes. -/
theorem block_at {t : Transfer} {j k : ℕ} (hbase : t.base = base + UInt32.ofNat (j * n.toNat))
    (hlen : t.sent.length ≤ n.toNat) (hj : (j + 1) * n.toNat ≤ 2 ^ 32) (hk : k < 2 ^ 32) :
    t.block (base + UInt32.ofNat k) = if j * n.toNat ≤ k then t.sent[k - j * n.toNat]? else none := by
  have hb := base.toNat_lt
  rw [Nat.succ_mul] at hj
  rw [Transfer.block, hbase]
  have hdiff : (base + UInt32.ofNat k - (base + UInt32.ofNat (j * n.toNat))).toNat =
      (k + (2 ^ 32 - j * n.toNat)) % 2 ^ 32 := by
    simp only [UInt32.toNat_sub, UInt32.toNat_add, UInt32.toNat_ofNat']
    generalize j * n.toNat = o at *
    omega
  rw [hdiff]
  generalize j * n.toNat = o at *
  split
  · next hle =>
    congr 1
    omega
  · next hlt =>
    exact List.getElem?_eq_none (by omega)

theorem passAt_length (j : ℕ) : (passAt fpgas verify file base n j).2.1.sent.length ≤ n.toNat := by
  rw [passAt_transfer]
  obtain ⟨hwant, hle, -⟩ := @sentBy_eq (fpgas.upload j) _ (@fileAt_open fpgas verify file base n j).ok
    (base + UInt32.ofNat (j * n.toNat)) n 0
  rw [hwant] at hle
  exact le_trans hle (Nat.min_le_left ..)

/-- The memory behind `m` passes. -/
theorem memory_at (hn : 0 < n.toNat) (mem : UInt32 → UInt8) {k : ℕ} (hk : k < 2 ^ 32) : ∀ m : ℕ,
    m * n.toNat ≤ 2 ^ 32 → memory (transfersAt fpgas verify file base n 0 m) mem (base + UInt32.ofNat k) =
      if k / n.toNat < m then
        ((passAt fpgas verify file base n (k / n.toNat)).2.1.sent[k % n.toNat]?).getD
          (mem (base + UInt32.ofNat k))
      else mem (base + UInt32.ofNat k)
  | 0, _ => rfl
  | m + 1, hm => by
    have ih := memory_at hn mem hk m (le_trans (Nat.mul_le_mul_right _ (Nat.le_succ m)) hm)
    have hlen := @passAt_length fpgas verify file base n m
    have hblock := @block_at base n (passAt fpgas verify file base n m).2.1 m k
      (by rw [passAt_transfer]) hlen hm hk
    have hlast : memory (transfersAt fpgas verify file base n 0 (m + 1)) mem (base + UInt32.ofNat k) =
        ((passAt fpgas verify file base n m).2.1.block (base + UInt32.ofNat k)).getD
          (memory (transfersAt fpgas verify file base n 0 m) mem (base + UInt32.ofNat k)) := by
      simp only [memory, transfersAt, Nat.zero_add, List.range_succ, List.map_append, List.map_cons,
        List.map_nil, Writes.writeAll_concat]
    rw [hlast, hblock, ih]
    have hmod := Nat.div_add_mod k n.toNat
    have hlt := Nat.mod_lt k hn
    rcases Nat.lt_trichotomy (k / n.toNat) m with hless | heq | hmore
    · rw [if_neg, if_pos hless, if_pos (by omega), Option.getD_none]
      rw [Nat.not_le]
      exact (Nat.div_lt_iff_lt_mul hn).mp hless
    · rw [if_pos, if_neg (by omega), if_pos (by omega), heq]
      · congr 2
        rw [← heq, Nat.mul_comm]
        omega
      · rw [← heq]
        exact Nat.div_mul_le_self k _
    · rw [if_neg (show ¬k / n.toNat < m by omega), if_neg (show ¬k / n.toNat < m + 1 by omega)]
      have hbehind : n.toNat ≤ k - m * n.toNat := by
        have hle := (Nat.le_div_iff_mul_le hn).mp hmore
        rw [Nat.succ_mul] at hle
        omega
      split
      · rw [List.getElem?_eq_none (by omega), Option.getD_none]
      · rw [Option.getD_none]

/-- Every byte of a right upload is sent by the pass that it falls into. -/
theorem Right.covers {rc : UInt8} {m k : ℕ}
    (h : Right file base size (rc, transfersAt fpgas verify file base n 0 m)) (hn : 0 < n.toNat)
    (hm : m * n.toNat ≤ 2 ^ 32) (hk : k < size.toNat) :
    k / n.toNat < m ∧
      (passAt fpgas verify file base n (k / n.toNat)).2.1.sent[k % n.toNat]? =
        file.data[k % file.data.length]? ∧
      k % n.toNat < (passAt fpgas verify file base n (k / n.toNat)).2.1.sent.length := by
  have hlt := size.toNat_lt
  have hmem : ∀ mem,
      some (memory (transfersAt fpgas verify file base n 0 m) mem (base + UInt32.ofNat k)) =
      file.data[k % file.data.length]? := fun mem => h.inside mem k hk
  -- a byte that is not sent is the one from before
  have hsent : ∀ P : Prop, (P → ∀ mem, memory (transfersAt fpgas verify file base n 0 m) mem
      (base + UInt32.ofNat k) = mem (base + UInt32.ofNat k)) → ¬P := by
    intro P hkept hP
    have h0 := hmem fun _ => 0
    have h1 := hmem fun _ => 1
    rw [hkept hP] at h0 h1
    exact absurd (Option.some.inj (h0.trans h1.symm)) (by decide)
  have hpass : k / n.toNat < m := by
    by_contra hnot
    refine hsent True (fun _ mem => ?_) trivial
    rw [memory_at hn mem (by omega) m hm, if_neg hnot]
  have hbyte : k % n.toNat < (passAt fpgas verify file base n (k / n.toNat)).2.1.sent.length := by
    by_contra hnot
    refine hsent True (fun _ mem => ?_) trivial
    rw [memory_at hn mem (by omega) m hm, if_pos hpass, List.getElem?_eq_none (by omega),
      Option.getD_none]
  refine ⟨hpass, ?_, hbyte⟩
  have hat := hmem fun _ => 0
  rw [memory_at hn _ (by omega) m hm, if_pos hpass, List.getElem?_eq_getElem hbyte,
    Option.getD_some] at hat
  rw [List.getElem?_eq_getElem hbyte]
  exact hat

/-- The transfers of a right upload follow each other up to the size. -/
theorem Right.steps {rc : UInt8} {m : ℕ}
    (h : Right file base size (rc, transfersAt fpgas verify file base n 0 m)) : ∀ j < m,
      (j + 1) * n.toNat ≤ size.toNat := by
  have hlt := size.toNat_lt
  have hwithin : ∀ j < m, (UInt32.ofNat (j * n.toNat)).toNat + n.toNat ≤ size.toNat := by
    intro j hj
    have hmem : (passAt fpgas verify file base n j).2.1 ∈ transfersAt fpgas verify file base n 0 m := by
      refine List.mem_map.mpr ⟨j, List.mem_range.mpr hj, ?_⟩
      rw [Nat.zero_add]
    have hle := h.within _ hmem
    rw [passAt_transfer] at hle
    simp only at hle
    rwa [UInt32.add_comm base, UInt32.add_sub_cancel] at hle
  intro j
  induction j with
  | zero =>
    intro hj
    have hle := hwithin 0 hj
    rw [Nat.zero_add, Nat.one_mul]
    omega
  | succ j ih =>
    intro hj
    have hprev := ih (by omega)
    have hle := hwithin (j + 1) hj
    rw [UInt32.toNat_ofNat_of_lt' (show (j + 1) * n.toNat < 2 ^ 32 by omega)] at hle
    rw [Nat.succ_mul]
    exact hle

/-- So they are all complete, and reach it. -/
theorem Right.complete {rc : UInt8} {m : ℕ}
    (h : Right file base size (rc, transfersAt fpgas verify file base n 0 m)) (hn : 0 < n.toNat)
    (hsize : size ≠ 0) : m * n.toNat = size.toNat ∧ ∀ j < m,
      (passAt fpgas verify file base n j).2.1.sent.length = n.toNat := by
  have hlt := size.toNat_lt
  have hpos : 0 < size.toNat := by
    rw [Nat.pos_iff_ne_zero]
    exact fun h0 => hsize (UInt32.toNat_inj.mp h0)
  have hm : m * n.toNat ≤ size.toNat := by
    cases m with
    | zero =>
      rw [Nat.zero_mul]
      exact Nat.zero_le _
    | succ m => exact h.steps m (Nat.lt_succ_self m)
  refine ⟨?_, fun j hj => ?_⟩
  · have hlast := (h.covers hn (by omega) (show size.toNat - 1 < size.toNat by omega)).1
    rw [Nat.div_lt_iff_lt_mul hn] at hlast
    omega
  · by_contra hne
    have hshort := lt_of_le_of_ne (@passAt_length fpgas verify file base n j) hne
    have hstep := h.steps j hj
    rw [Nat.succ_mul] at hstep
    set len := (passAt fpgas verify file base n j).2.1.sent.length with hlen
    have hcover := h.covers hn (by omega) (show j * n.toNat + len < size.toNat by omega)
    rw [Nat.mul_comm j, Nat.mul_add_div hn, Nat.div_eq_of_lt hshort, Nat.add_zero, Nat.mul_add_mod,
      Nat.mod_eq_of_lt hshort] at hcover
    omega

end Passes

/-! ### The whole upload -/

variable {fpgas : Fpgas} {verify : UInt8} {file : File} {base size : UInt32}

theorem uploadPlain_eq (fuel : ℕ) : uploadPlain fpgas fuel file base size verify =
    plainLoop fpgas verify base (effective file size) (filesize file) fuel 0
      (UInt32.ofNat (0 * (chunk file size).toNat)) 1
      (fileAt fpgas verify file base (chunk file size) 0) := by
  rw [Nat.zero_mul]
  rfl

theorem filesize_le : (filesize file).toNat ≤ file.data.length := by
  rw [filesize, UInt32.toNat_ofNat']
  exact Nat.mod_le ..

theorem chunk_le : (chunk file size).toNat ≤ file.data.length ∧
    (chunk file size).toNat ≤ (effective file size).toNat := by
  have hle := @filesize_le file
  rw [chunk]
  split
  · next h => exact ⟨hle, Nat.le_of_lt (UInt32.lt_iff_toNat_lt.mp h)⟩
  · next h =>
    have hge := UInt32.le_iff_toNat_le.mp (UInt32.not_lt.mp h)
    exact ⟨by omega, le_refl _⟩

/-- A byte of the size in one copy of the file. -/
theorem mod_chunk {k : ℕ} (hk : k < (effective file size).toNat) :
    k % (chunk file size).toNat = k % (filesize file).toNat := by
  rw [chunk]
  split
  · rfl
  · next h =>
    have hge := UInt32.le_iff_toNat_le.mp (UInt32.not_lt.mp h)
    rw [Nat.mod_eq_of_lt hk, Nat.mod_eq_of_lt (by omega)]

theorem err_of_available {f : FIL} (h : 0 < available f 0) : f.err = false := by
  rw [available] at h
  split at h
  · omega
  · next he => exact Bool.not_eq_true _ ▸ he

/-- Passes without a byte never end. -/
theorem Ends.chunk_pos {n : UInt32} {m : ℕ} (h : Ends fpgas verify file base n size 0 m)
    (hsize : size ≠ 0) :
    0 < n.toNat := by
  rw [Nat.pos_iff_ne_zero]
  intro hn
  rcases h.done with hle | ⟨j, -, hne⟩
  · rw [hn, Nat.mul_zero] at hle
    have h0 := UInt32.le_iff_toNat_le.mp hle
    exact hsize (UInt32.toNat_inj.mp (Nat.le_zero.mp h0))
  · refine hne ?_
    rw [passAt_code]
    split
    · rw [fileToMemVerify_iff (sentAt_open _).ok, hn, Nat.zero_min]
      exact ⟨inTime_none 0, rfl⟩
    · rfl

/-- A right upload from a file that is not empty was possible. -/
theorem Right.uploadable {rc : UInt8} {m : ℕ} (hn : 0 < (chunk file size).toNat)
    (hsize : effective file size ≠ 0)
    (hends : Ends fpgas verify file base (chunk file size) (effective file size) 0 m)
    (h : Right file base (effective file size)
      (rc, transfersAt fpgas verify file base (chunk file size) 0 m)) :
    Uploadable fpgas file size verify := by
  obtain ⟨hmn, hfull⟩ := h.complete hn hsize
  have hlt := (effective file size).toNat_lt
  have hpos : 0 < m := by
    by_contra h0
    rw [show m = 0 by omega, Nat.zero_mul] at hmn
    exact hsize (UInt32.toNat_inj.mp hmn.symm)
  have hsent : ∀ j < m, (chunk file size).toNat ≤
      available (fileAt fpgas verify file base (chunk file size) j) 0 ∧
        InTime (fpgas.upload j) 0 (2 * waitsFor (chunk file size).toNat) := by
    intro j hj
    have hlen := hfull j hj
    rw [passAt_transfer] at hlen
    exact (sentBy_all_iff (fileAt_open j).ok ..).mp hlen
  have herr : ∀ j < m, (fileAt fpgas verify file base (chunk file size) j).err = false := by
    intro j hj
    exact err_of_available (lt_of_lt_of_le hn (hsent j hj).1)
  have hav : ∀ {f : FIL}, OpenOn file f → f.err = false →
      (chunk file size).toNat ≤ available f 0 := by
    intro f hf he
    rw [available_open hf he, ← available_open (fileAt_open 0) (herr 0 hpos)]
    exact (hsent 0 hpos).1
  have hmany : ∀ {i : ℕ}, i * (chunk file size).toNat < (effective file size).toNat → i < m := by
    intro i hi
    rw [← hmn] at hi
    exact Nat.lt_of_mul_lt_mul_right hi
  refine ⟨?_, fun k hk => ?_, ?_, fun hsmall => ?_, fun i hi => (hsent i (hmany hi)).2,
    fun hverify i hi => ?_⟩
  · rw [chunk] at hmn
    split at hmn
    · exact Or.inr ⟨m, by rw [Nat.mul_comm]; exact hmn.symm⟩
    · next hnot => exact Or.inl (UInt32.not_lt.mp hnot)
  · have hm : m * (chunk file size).toNat ≤ 2 ^ 32 := by omega
    obtain ⟨hpass, hbyte, -⟩ := h.covers hn hm hk
    rw [passAt_transfer] at hbyte
    rw [← hbyte, ← mod_chunk hk]
    simp only
    rw [sentBy_take (fileAt_open _).ok (hsent _ hpass).1 (hsent _ hpass).2, (fileAt_open _).data]
    rw [List.getElem?_take_of_lt (Nat.mod_lt k hn)]
    rfl
  · have h0 := (hsent 0 hpos).1
    rw [available_open (fileAt_open 0) (herr 0 hpos)] at h0
    omega
  · have hchunk : (chunk file size).toNat < (effective file size).toNat := by
      rw [chunk, if_pos hsmall]
      exact UInt32.lt_iff_toNat_lt.mp hsmall
    have h1 := herr 1 (hmany (by rwa [Nat.one_mul]))
    by_contra hnot
    rw [Nat.not_le] at hnot
    rw [fileAt_aborted ((sentAt_zero (hsent 0 hpos).2).mpr hnot)] at h1
    exact Bool.noConfusion h1
  · have hi' := hmany hi
    have hzero := hends.zero i hi'
    rw [Nat.zero_add, passAt_code, if_pos hverify] at hzero
    have hsound : (sentAt fpgas verify file base (chunk file size) i).err = false := by
      rw [← Bool.not_eq_true]
      intro he
      have h1 := herr (i + 1) hi'
      rw [fileAt_aborted he] at h1
      exact Bool.noConfusion h1
    have hle := hav (sentAt_open i) hsound
    have hiff := (fileToMemVerify_iff (sentAt_open i).ok ..).mp hzero
    have hz : (0 : UInt32).toNat = 0 := rfl
    rw [hz, Nat.min_eq_left hle, List.drop_zero, (sentAt_open i).data] at hiff
    exact hiff

theorem Uploadable.chunk_pos (h : Uploadable fpgas file size verify) (hsize : effective file size ≠ 0) :
    0 < (chunk file size).toNat := by
  have hpos : 0 < (effective file size).toNat := by
    rw [Nat.pos_iff_ne_zero]
    exact fun h0 => hsize (UInt32.toNat_inj.mp h0)
  rw [chunk]
  split
  · next hsmall =>
    rcases h.whole with hle | hdvd
    · exact absurd hsmall (UInt32.not_lt.mpr hle)
    · exact Nat.pos_of_dvd_of_pos hdvd hpos
  · exact hpos

theorem Uploadable.dvd (h : Uploadable fpgas file size verify) :
    (chunk file size).toNat ∣ (effective file size).toNat := by
  rw [chunk]
  split
  · next hsmall =>
    rcases h.whole with hle | hdvd
    · exact absurd hsmall (UInt32.not_lt.mpr hle)
    · exact hdvd
  · exact Nat.dvd_refl _

/-- Nothing goes wrong in the passes of a possible upload. -/
theorem Uploadable.sound (h : Uploadable fpgas file size verify) {j : ℕ}
    (hj : j * (chunk file size).toNat < (effective file size).toNat) :
    (fileAt fpgas verify file base (chunk file size) j).err = false := by
  cases j with
  | zero => rfl
  | succ j =>
    have hsmall : filesize file < effective file size := by
      by_contra hnot
      rw [chunk, if_neg hnot, Nat.succ_mul] at hj
      omega
    refine fileAt_sound (h.again hsmall) (j + 1) fun i hi => h.timely i ?_
    exact lt_of_le_of_lt (Nat.mul_le_mul_right _ (Nat.le_of_lt hi)) hj

theorem Uploadable.available (h : Uploadable fpgas file size verify) {f : FIL} (hf : OpenOn file f)
    (he : f.err = false) : (chunk file size).toNat ≤ available f 0 := by
  have hle := (@chunk_le file size).1
  have hread := h.readable
  rw [available_open hf he]
  omega

theorem Uploadable.sent (h : Uploadable fpgas file size verify) {j : ℕ}
    (hj : j * (chunk file size).toNat < (effective file size).toNat) :
    (passAt fpgas verify file base (chunk file size) j).2.1.sent =
      file.data.take (chunk file size).toNat := by
  rw [passAt_transfer]
  simp only
  rw [sentBy_take (fileAt_open j).ok (h.available (fileAt_open j) (h.sound hj)) (h.timely j hj),
    (fileAt_open j).data]
  rfl

/-- It comes to its end. -/
theorem Uploadable.ends (h : Uploadable fpgas file size verify) (hn : 0 < (chunk file size).toNat) {m : ℕ}
    (hm : m * (chunk file size).toNat = (effective file size).toNat) :
    Ends fpgas verify file base (chunk file size) (effective file size) 0 m := by
  have hlt := (effective file size).toNat_lt
  have hless : ∀ {j : ℕ}, j < m → j * (chunk file size).toNat < (effective file size).toNat := by
    intro j hj
    rw [← hm]
    exact Nat.mul_lt_mul_of_pos_right hj hn
  refine ⟨fun j hj => ?_, fun j hj => ?_, Or.inl ?_⟩
  · have hj' := hless hj
    rw [Nat.zero_add, UInt32.lt_iff_toNat_lt,
      UInt32.toNat_ofNat_of_lt' (show j * (chunk file size).toNat < 2 ^ 32 by omega)]
    exact hj'
  · rw [Nat.zero_add, passAt_code]
    split
    · next hverify =>
      have hj' := hless hj
      have hsound : (sentAt fpgas verify file base (chunk file size) j).err = false := by
        rw [← Bool.not_eq_true]
        intro he
        have h1 := @Uploadable.sound fpgas verify file base size h (j + 1) hj'
        rw [fileAt_aborted he] at h1
        exact Bool.noConfusion h1
      have hle := h.available (sentAt_open j) hsound
      have hz : (0 : UInt32).toNat = 0 := rfl
      rw [fileToMemVerify_iff (sentAt_open j).ok, hz, Nat.min_eq_left hle, List.drop_zero,
        (sentAt_open j).data]
      exact h.compared hverify j hj'
    · rfl
  · rw [Nat.zero_add, hm, UInt32.ofNat_toNat]
    exact UInt32.le_refl _

/-- What it leaves is right. -/
theorem Uploadable.right (h : Uploadable fpgas file size verify) (hn : 0 < (chunk file size).toNat)
    {m : ℕ}
    (hm : m * (chunk file size).toNat = (effective file size).toNat) (rc : UInt8) :
    Right file base (effective file size)
      (rc, transfersAt fpgas verify file base (chunk file size) 0 m) := by
  have hlt := (effective file size).toNat_lt
  have hfile := (@chunk_le file size).1
  have hsent : ∀ {j : ℕ}, j < m → (passAt fpgas verify file base (chunk file size) j).2.1.sent =
      file.data.take (chunk file size).toNat := by
    intro j hj
    refine h.sent ?_
    rw [← hm]
    exact Nat.mul_lt_mul_of_pos_right hj hn
  refine ⟨fun mem k hk => ?_, fun t ht => ?_, fun mem x hx => ?_, fun _ => ?_⟩
  · have hpass : k / (chunk file size).toNat < m := by
      rw [Nat.div_lt_iff_lt_mul hn, hm]
      exact hk
    have hmod := Nat.mod_lt k hn
    rw [memory_at hn mem (by omega) m (by omega), if_pos hpass, hsent hpass,
      List.getElem?_take_of_lt hmod, ← h.repeats k hk, ← mod_chunk hk,
      List.getElem?_eq_getElem (by omega), Option.getD_some]
  · obtain ⟨j, hj, rfl⟩ := List.mem_map.mp ht
    rw [List.mem_range] at hj
    have hle : (j + 1) * (chunk file size).toNat ≤ (effective file size).toNat := by
      rw [← hm]
      exact Nat.mul_le_mul_right _ hj
    rw [Nat.succ_mul] at hle
    rw [Nat.zero_add, passAt_transfer]
    simp only
    rw [UInt32.add_comm base, UInt32.add_sub_cancel,
      UInt32.toNat_ofNat_of_lt' (show j * (chunk file size).toNat < 2 ^ 32 by omega)]
    exact hle
  · have hx' : x = base + UInt32.ofNat (x - base).toNat := by
      rw [UInt32.ofNat_toNat, UInt32.add_comm, UInt32.sub_add_cancel]
    have hpass : ¬(x - base).toNat / (chunk file size).toNat < m := by
      rw [Nat.div_lt_iff_lt_mul hn, hm]
      omega
    rw [hx', memory_at hn mem (UInt32.toNat_lt _) m (by omega), if_neg hpass]
  · rw [transfersAt, List.flatMap_map]
    refine (Chunks.length_flatMap_range fun j hj => ?_).trans (by rw [Nat.mul_comm, hm])
    rw [Nat.zero_add, hsent hj, List.length_take]
    omega

/-- The plain upload of a file ends and leaves it in the memory, again and again up to the size and no
    further, exactly when there is nothing to upload, or the size is one that can be uploaded. -/
theorem uploads_iff (fpgas : Fpgas) (file : File) (base size : UInt32) (verify : UInt8) :
    Uploads fpgas file base size verify ↔
      effective file size = 0 ∨ Uploadable fpgas file size verify := by
  by_cases hsize : effective file size = 0
  · refine iff_of_true ⟨1, (1, []), ?_, ?_⟩ (Or.inl hsize)
    · rw [uploadPlain_eq, hsize]
      rfl
    · rw [hsize]
      exact ⟨fun _ k hk => absurd hk (Nat.not_lt_zero k), fun _ ht => absurd ht List.not_mem_nil,
        fun _ _ _ => rfl, fun h => absurd h (show ¬(1 : UInt8) = 0 by decide)⟩
  rw [or_iff_right hsize]
  constructor
  · rintro ⟨fuel, r, hrun, hright⟩
    rw [uploadPlain_eq] at hrun
    obtain ⟨m, hends, rfl⟩ := plainLoop_ends rfl fuel 0 1 r hrun
    exact hright.uploadable (hends.chunk_pos hsize) hsize hends
  · intro h
    have hn := h.chunk_pos hsize
    have hm := Nat.div_mul_cancel h.dvd
    obtain ⟨fuel, hrun⟩ := ends_plainLoop rfl _ 0 1 (@Uploadable.ends fpgas verify file base size h hn _ hm)
    exact ⟨fuel, _, (uploadPlain_eq fuel).trans hrun, h.right hn hm _⟩

/-- A file without a byte. -/
def emptyFile : File where
  data := []
  slack := fun _ => 0
  cap := 0
  csize := 512
  readable := 0
  size_le := le_refl _
  csize_pos := sector_pos

/-- A core that is never late and answers with zeros. -/
def idle : Fpgas := ⟨fun _ => prompt [], fun _ => prompt []⟩

/-- An empty file with a size of one: the upload does not come to its end. -/
theorem empty_hangs : ¬∀ (fpgas : Fpgas) (file : File) (base size : UInt32) (verify : UInt8),
    Uploads fpgas file base size verify := by
  intro h
  obtain ⟨fuel, r, hrun, -⟩ := h idle emptyFile 0 1 0
  rw [uploadPlain_eq] at hrun
  obtain ⟨m, hends, -⟩ := plainLoop_ends rfl fuel 0 1 r hrun
  exact absurd (hends.chunk_pos (by decide)) (by decide)

end Config.UploadRom
