import ReplayFirmware.Flash.Crc32
import Mathlib.Algebra.Order.Ring.Nat
import Mathlib.Data.List.Basic
import Mathlib.Data.UInt

/-! `rAppFlashUpdater`: two images in the DRAM, and the flash they are meant for.

    An image is written when its DRAM data has the configured checksum and the flash another one. Flashing
    goes in blocks of 512 bytes, and there is always one more block than the length has whole ones. An
    image with bad DRAM data is reported, and then counts as if it were in the flash already. -/

namespace FlashUpdater
open Flash (crcInit feedCrc32 crc32)

/-! ### The code -/

/-- What stands at each address. -/
abbrev Memory := UInt32 → UInt8

/-- `n` bytes from an address on. -/
def bytesAt (mem : Memory) (addr : UInt32) (n : ℕ) : List UInt8 :=
  (List.range n).map fun i => mem (addr + UInt32.ofNat i)

/-- `*(uint32_t*)addr` -/
def wordAt (mem : Memory) (addr : UInt32) : UInt32 :=
  (mem addr).toUInt32 ||| (mem (addr + 1)).toUInt32 <<< 8 ||| (mem (addr + 2)).toUInt32 <<< 16 |||
    (mem (addr + 3)).toUInt32 <<< 24

/-- `feed_crc32` over memory, with the register behind it. A null pointer with a length of all ones
    restarts it. -/
def feedMemory (mem : Memory) (crc address length : UInt32) : UInt32 × UInt32 :=
  let crc := if address = 0 ∧ length = 0xFFFFFFFF then crcInit
    else feedCrc32 crc (bytesAt mem address length.toNat)
  (crc, ~~~crc)

/-- `_get_block`: 512 bytes of the DRAM, in words of 4. -/
def getBlock (dram : Memory) (base : UInt32) : List (List UInt8) :=
  (List.range 128).map fun j => bytesAt dram (base + UInt32.ofNat (4 * j)) 4

/-- An image as the configuration block has it. -/
structure Image where
  base : UInt32
  length : UInt32
  sum : UInt32

/-- The images of the configuration block at 0xFFE00. -/
def bootImage (dram : Memory) : Image :=
  ⟨wordAt dram 0xFFE00, wordAt dram 0xFFE04, wordAt dram 0xFFE08⟩

def loaderImage (dram : Memory) : Image :=
  ⟨wordAt dram 0xFFE0C, wordAt dram 0xFFE10, wordAt dram 0xFFE14⟩

/-- How much of the flash is compared: what the headers in it say, if there are any. -/
def currentBootlength (mem : Memory) (bootlength : UInt32) : UInt32 :=
  if wordAt mem 0x100208 = 0xb007c0de then wordAt mem 0x10020c + 0x200 else bootlength

def currentLoaderlength (mem : Memory) (loaderlength : UInt32) : UInt32 :=
  if wordAt mem 0x102020 = 0x600dc0de then wordAt mem 0x102024 else loaderlength

/-- The words of a block, as long as `l < length`: `l`, the register and the sum. -/
def sumWords (length : ℕ) : List (List UInt8) → ℕ → UInt32 → UInt32 → ℕ × UInt32 × UInt32
  | [], l, crc, sum => (l, crc, sum)
  | word :: words, l, crc, sum =>
    if l < length then sumWords length words (l + 4) (feedCrc32 crc word) (~~~feedCrc32 crc word)
    else (l, crc, sum)

/-- The blocks of an image: so many are to come. -/
def sumBlocks (dram : Memory) (length : ℕ) : ℕ → UInt32 → ℕ → UInt32 → UInt32 → UInt32
  | 0, _, _, _, sum => sum
  | n + 1, code, l, crc, sum =>
    let r := sumWords length (getBlock dram code) l crc sum
    sumBlocks dram length n (code + 512) r.1 r.2.1 r.2.2

/-- `bsum` or `lsum`, the checksum of an image in the DRAM. -/
def dramSum (dram : Memory) (im : Image) : UInt32 :=
  sumBlocks dram im.length.toNat (im.length.toNat / 512 + 1) im.base 0 crcInit 0

/-- `bfsum` or `lfsum`, the checksum of the flash. -/
def flashSum (mem : Memory) (im : Image) (current : UInt32) : UInt32 :=
  (feedMemory mem crcInit im.base current).2

/-- `bok` or `lok` -/
def imageOk (dram mem : Memory) (im : Image) (current : UInt32) : Bool :=
  if im.sum ≠ dramSum dram im then true else flashSum mem im current = dramSum dram im

def bootOk (dram mem : Memory) : Bool :=
  imageOk dram mem (bootImage dram) (currentBootlength mem (bootImage dram).length)

def loaderOk (dram mem : Memory) : Bool :=
  imageOk dram mem (loaderImage dram) (currentLoaderlength mem (loaderImage dram).length)

/-- A page that is programmed: its place in the flash, and its data. -/
abbrev Page := UInt32 × List UInt8

/-- `flash`, with so many blocks to come: both halves of each. -/
def flashLoop (dram : Memory) : ℕ → UInt32 → List Page
  | 0, _ => []
  | n + 1, code =>
    let buf := (getBlock dram code).flatten
    (code &&& 0x3FF00, buf.take 256) :: ((code + 256) &&& 0x3FF00, buf.drop 256) ::
      flashLoop dram n (code + 256 + 256)

def flash (dram : Memory) (base size : UInt32) : List Page := flashLoop dram (size.toNat / 512 + 1) base

/-- The flash once a page is programmed. -/
def program (mem : Memory) (page : Page) : Memory := fun a =>
  if 0x100000 + page.1 ≤ a ∧ a < 0x100000 + page.1 + 256 then
    page.2.getD (a - (0x100000 + page.1)).toNat 0xFF
  else mem a

/-- One turn of `while (1)`: the flash at its start, whether flashing is started, whether `flash OK` is
    shown, and what is programmed. -/
structure Pass where
  mem : Memory
  started : Bool
  flashOk : Bool
  pages : List Page

def pass (dram mem : Memory) (started : Bool) : Pass where
  mem := mem
  started := started
  flashOk := bootOk dram mem && loaderOk dram mem
  pages :=
    if started && !(bootOk dram mem && loaderOk dram mem) then
      (if bootOk dram mem then [] else flash dram (bootImage dram).base (bootImage dram).length) ++
        if loaderOk dram mem then [] else flash dram (loaderImage dram).base (loaderImage dram).length
    else []

/-- The turns of a session with these keys; it ends with the reboot, or when no key comes any more. -/
def session (dram : Memory) : List UInt16 → Memory → List Pass
  | [], mem => [pass dram mem false]
  | key :: keys, mem =>
    if bootOk dram mem && loaderOk dram mem then [pass dram mem false]
    else if key = 114 then [pass dram mem false]
    else if key = 102 then
      pass dram mem true :: session dram keys ((pass dram mem true).pages.foldl program mem)
    else session dram keys mem

/-! ### The purpose -/

/-- A page of an image. -/
def pageAt (dram : Memory) (base : UInt32) (k : ℕ) : Page :=
  ((base + UInt32.ofNat (256 * k)) &&& 0x3FF00, bytesAt dram (base + UInt32.ofNat (256 * k)) 256)

/-- The pages of an image. -/
def imagePages (dram : Memory) (im : Image) : List Page :=
  (List.range ((im.length.toNat + 255) / 256)).map (pageAt dram im.base)

/-- The DRAM data has the configured checksum, taken over its words. -/
def Matched (dram : Memory) (im : Image) : Prop :=
  crc32 (bytesAt dram im.base (4 * ((im.length.toNat + 3) / 4))) = im.sum

/-- The flash has the configured checksum. -/
def Stored (mem : Memory) (im : Image) (current : UInt32) : Prop := flashSum mem im current = im.sum

def BootStored (dram mem : Memory) : Prop :=
  Stored mem (bootImage dram) (currentBootlength mem (bootImage dram).length)

def LoaderStored (dram mem : Memory) : Prop :=
  Stored mem (loaderImage dram) (currentLoaderlength mem (loaderImage dram).length)

/-- An image that the flash needs: its DRAM data is good, and the flash has another. -/
def BootNeeded (dram mem : Memory) : Prop := Matched dram (bootImage dram) ∧ ¬BootStored dram mem

def LoaderNeeded (dram mem : Memory) : Prop := Matched dram (loaderImage dram) ∧ ¬LoaderStored dram mem

open Classical in
/-- A turn programs just the pages of the images that are needed, once flashing is started, and shows
    `flash OK` only if both images are good and stored. -/
structure Keeps (dram : Memory) (p : Pass) : Prop where
  pages : p.pages = if p.started = true then
      (if BootNeeded dram p.mem then imagePages dram (bootImage dram) else []) ++
        if LoaderNeeded dram p.mem then imagePages dram (loaderImage dram) else []
    else []
  flashOk : p.flashOk = true → (Matched dram (bootImage dram) ∧ BootStored dram p.mem) ∧
    Matched dram (loaderImage dram) ∧ LoaderStored dram p.mem

/-- More than half of the last block is in use. -/
def Whole (im : Image) : Prop := 256 < im.length.toNat % 512

/-- When flashing is started, more than half of the last block of each needed image is in use; when no image
    is needed, the DRAM data of both is good. -/
structure Safe (dram : Memory) (p : Pass) : Prop where
  boot : p.started = true → BootNeeded dram p.mem → Whole (bootImage dram)
  loader : p.started = true → LoaderNeeded dram p.mem → Whole (loaderImage dram)
  good : ¬BootNeeded dram p.mem → ¬LoaderNeeded dram p.mem →
    Matched dram (bootImage dram) ∧ Matched dram (loaderImage dram)

/-! ### Blocks -/

variable {dram mem : Memory} {im : Image} {current : UInt32}

@[simp] theorem bytesAt_length (mem : Memory) (addr : UInt32) (n : ℕ) :
    (bytesAt mem addr n).length = n := by
  rw [bytesAt, List.length_map, List.length_range]

theorem bytesAt_append (mem : Memory) (addr : UInt32) (m n : ℕ) :
    bytesAt mem addr (m + n) = bytesAt mem addr m ++ bytesAt mem (addr + UInt32.ofNat m) n := by
  rw [bytesAt, List.range_add, List.map_append, List.map_map, bytesAt, bytesAt]
  refine congrArg _ (List.map_congr_left fun i _ => ?_)
  rw [Function.comp_apply, UInt32.ofNat_add, UInt32.add_assoc]

/-- The words are the bytes. -/
theorem words_flatten (dram : Memory) (base : UInt32) : ∀ n,
    ((List.range n).map fun j => bytesAt dram (base + UInt32.ofNat (4 * j)) 4).flatten =
      bytesAt dram base (4 * n)
  | 0 => rfl
  | n + 1 => by
    rw [List.range_succ, List.map_append, List.flatten_append, words_flatten dram base n, List.map_singleton,
      List.flatten_singleton, Nat.mul_succ, bytesAt_append]

theorem getBlock_length (dram : Memory) (base : UInt32) : (getBlock dram base).length = 128 := by
  rw [getBlock, List.length_map, List.length_range]

theorem getBlock_take (dram : Memory) (base : UInt32) {k : ℕ} (hk : k ≤ 128) :
    ((getBlock dram base).take k).flatten = bytesAt dram base (4 * k) := by
  rw [getBlock, ← List.map_take, List.take_range, Nat.min_eq_left hk, words_flatten]

theorem getBlock_flatten (dram : Memory) (base : UInt32) :
    (getBlock dram base).flatten = bytesAt dram base 512 :=
  words_flatten dram base 128

/-! ### The checksum -/

/-- How many words are summed before `length` is reached. -/
def wordsLeft (length l : ℕ) : ℕ := (length - l + 3) / 4

/-- The sum is that of the words up to the length. -/
theorem sumWords_eq (length : ℕ) : ∀ (words : List (List UInt8)) (l : ℕ) (crc : UInt32),
    sumWords length words l crc (~~~crc) =
      (l + 4 * min words.length (wordsLeft length l),
        feedCrc32 crc (words.take (wordsLeft length l)).flatten,
        ~~~feedCrc32 crc (words.take (wordsLeft length l)).flatten)
  | [], l, crc => by simp [sumWords]
  | word :: words, l, crc => by
    rw [sumWords]
    by_cases hl : l < length
    · have hleft : wordsLeft length l = wordsLeft length (l + 4) + 1 := by
        rw [wordsLeft, wordsLeft]
        omega
      rw [if_pos hl, sumWords_eq length words (l + 4), hleft, List.take_succ_cons, List.flatten_cons,
        Flash.feedCrc32_append, List.length_cons, Nat.add_min_add_right, Nat.mul_succ]
      simp only [Prod.mk.injEq, and_true]
      omega
    · have hleft : wordsLeft length l = 0 := by
        rw [wordsLeft]
        omega
      rw [if_neg hl, hleft, Nat.min_zero]
      rfl

theorem sumBlocks_eq (dram : Memory) (length : ℕ) : ∀ (n : ℕ) (code : UInt32) (l : ℕ) (crc : UInt32),
    sumBlocks dram length n code l crc (~~~crc) =
      ~~~feedCrc32 crc (bytesAt dram code (4 * min (128 * n) (wordsLeft length l)))
  | 0, code, l, crc => by rw [sumBlocks, Nat.mul_zero, Nat.zero_min]; rfl
  | n + 1, code, l, crc => by
    rw [sumBlocks, sumWords_eq, getBlock_length, sumBlocks_eq dram length n, ← Flash.feedCrc32_append]
    rcases Nat.lt_or_ge (wordsLeft length l) 128 with hlast | hfull
    · -- the length is reached in this block
      have hnext : wordsLeft length (l + 4 * min 128 (wordsLeft length l)) = 0 := by
        rw [wordsLeft] at hlast ⊢
        rw [wordsLeft]
        omega
      rw [hnext, Nat.min_zero, getBlock_take dram code hlast.le, Nat.min_eq_right (by omega)]
      exact congrArg (fun bs => ~~~feedCrc32 crc bs) (List.append_nil _)
    · have hnext : wordsLeft length (l + 4 * min 128 (wordsLeft length l)) = wordsLeft length l - 128 := by
        rw [Nat.min_eq_left hfull]
        rw [wordsLeft] at hfull ⊢
        rw [wordsLeft]
        omega
      have htotal : 4 * min (128 * (n + 1)) (wordsLeft length l) =
          512 + 4 * min (128 * n) (wordsLeft length l - 128) := by omega
      rw [hnext, List.take_of_length_le ((getBlock_length dram code).le.trans hfull), getBlock_flatten,
        htotal, bytesAt_append]
      rfl

/-- The checksum of the DRAM data is that of the words of the image. -/
theorem dramSum_eq (dram : Memory) (im : Image) :
    dramSum dram im = crc32 (bytesAt dram im.base (4 * ((im.length.toNat + 3) / 4))) := by
  have hleft : min (128 * (im.length.toNat / 512 + 1)) (wordsLeft im.length.toNat 0) =
      (im.length.toNat + 3) / 4 := by
    rw [wordsLeft]
    omega
  rw [← hleft]
  exact sumBlocks_eq dram im.length.toNat _ im.base 0 crcInit

/-- An image that is not needed counts as fine. -/
theorem imageOk_iff : imageOk dram mem im current = true ↔
    ¬(Matched dram im ∧ ¬Stored mem im current) := by
  rw [imageOk, dramSum_eq, Matched, Stored]
  by_cases hsum : im.sum = crc32 (bytesAt dram im.base (4 * ((im.length.toNat + 3) / 4)))
  · rw [if_neg (not_not.mpr hsum), ← hsum, decide_eq_true_eq]
    simp
  · rw [if_pos hsum]
    exact iff_of_true rfl fun h => hsum h.1.symm

theorem bootOk_iff : bootOk dram mem = true ↔ ¬BootNeeded dram mem := imageOk_iff

theorem loaderOk_iff : loaderOk dram mem = true ↔ ¬LoaderNeeded dram mem := imageOk_iff

/-! ### The pages -/

theorem pageAt_add (dram : Memory) (base : UInt32) (m k : ℕ) :
    pageAt dram (base + UInt32.ofNat (256 * m)) k = pageAt dram base (m + k) := by
  rw [pageAt, pageAt, Nat.mul_add, UInt32.ofNat_add, UInt32.add_assoc]

/-- Each block gives two pages. -/
theorem flashLoop_eq (dram : Memory) : ∀ (n : ℕ) (code : UInt32),
    flashLoop dram n code = (List.range (2 * n)).map (pageAt dram code)
  | 0, _ => rfl
  | n + 1, code => by
    have hbuf : (getBlock dram code).flatten = bytesAt dram code 256 ++ bytesAt dram (code + 256) 256 := by
      rw [getBlock_flatten]
      exact bytesAt_append dram code 256 256
    have hcode : code + 256 + 256 = code + UInt32.ofNat (256 * 2) := by rw [UInt32.add_assoc]; rfl
    have hfirst : pageAt dram code 0 = (code &&& 0x3FF00, bytesAt dram code 256) := by
      rw [pageAt, Nat.mul_zero, show UInt32.ofNat 0 = 0 from rfl, UInt32.add_zero]
    have hrest : (List.range (2 * (n + 1))).map (pageAt dram code) =
        pageAt dram code 0 :: pageAt dram code 1 ::
          (List.range (2 * n)).map fun k => pageAt dram code (2 + k) := by
      rw [Nat.mul_succ, Nat.add_comm, List.range_add, List.map_append, List.map_map]
      rfl
    have hshift : pageAt dram (code + UInt32.ofNat (256 * 2)) = fun k => pageAt dram code (2 + k) :=
      funext fun k => pageAt_add dram code 2 k
    rw [flashLoop, hcode, flashLoop_eq dram n, hshift, hrest, hfirst, hbuf,
      List.take_left' (bytesAt_length dram code 256), List.drop_left' (bytesAt_length dram code 256)]
    rfl

theorem flash_eq (dram : Memory) (im : Image) : flash dram im.base im.length =
    (List.range (2 * (im.length.toNat / 512 + 1))).map (pageAt dram im.base) := flashLoop_eq dram _ im.base

theorem imagePages_length_le (dram : Memory) (im : Image) :
    (imagePages dram im).length ≤ (flash dram im.base im.length).length := by
  rw [flash_eq, imagePages, List.length_map, List.length_map, List.length_range, List.length_range]
  omega

/-- One page too many is programmed unless more than half of the last block is in use, and two after a whole
    block. -/
theorem flash_length_iff (dram : Memory) (im : Image) :
    (flash dram im.base im.length).length = (imagePages dram im).length ↔ Whole im := by
  rw [flash_eq, imagePages, List.length_map, List.length_map, List.length_range, List.length_range, Whole]
  omega

theorem flash_eq_iff (dram : Memory) (im : Image) :
    flash dram im.base im.length = imagePages dram im ↔ Whole im := by
  refine ⟨fun h => (flash_length_iff dram im).mp (congrArg List.length h), fun h => ?_⟩
  have hlength := (flash_length_iff dram im).mpr h
  rw [flash_eq, imagePages, List.length_map, List.length_map, List.length_range, List.length_range] at hlength
  rw [flash_eq, imagePages, hlength]

/-! ### The turns -/

open Classical in
theorem programmed_length_le (c : Prop) (dram : Memory) (im : Image) :
    (if c then imagePages dram im else []).length ≤
      (if c then flash dram im.base im.length else []).length := by
  by_cases h : c
  · rw [if_pos h, if_pos h]
    exact imagePages_length_le dram im
  · rw [if_neg h, if_neg h]

open Classical in
theorem programmed_eq_iff (c : Prop) (dram : Memory) (im : Image) :
    (if c then flash dram im.base im.length else []) = (if c then imagePages dram im else []) ↔
      (c → Whole im) := by
  by_cases h : c
  · rw [if_pos h, if_pos h, flash_eq_iff]
    exact ⟨fun hwhole _ => hwhole, fun hwhole => hwhole h⟩
  · rw [if_neg h, if_neg h]
    exact iff_of_true rfl fun hc => absurd hc h

/-- Two lists that are not shorter than two others are joined to the same only if they are the same. -/
theorem append_eq_iff {α : Type} {as bs as' bs' : List α} (ha : as'.length ≤ as.length)
    (hb : bs'.length ≤ bs.length) : as ++ bs = as' ++ bs' ↔ as = as' ∧ bs = bs' := by
  refine ⟨fun h => ?_, fun h => by rw [h.1, h.2]⟩
  have hlength := congrArg List.length h
  rw [List.length_append, List.length_append] at hlength
  exact List.append_inj h (by omega)

open Classical in
theorem pass_pages (dram mem : Memory) (started : Bool) : (pass dram mem started).pages =
    if started = true then
      (if BootNeeded dram mem then flash dram (bootImage dram).base (bootImage dram).length else []) ++
        if LoaderNeeded dram mem then flash dram (loaderImage dram).base (loaderImage dram).length else []
    else [] := by
  have hboot := @bootOk_iff dram mem
  have hloader := @loaderOk_iff dram mem
  rw [pass]
  cases started with
  | false => rfl
  | true =>
    by_cases hb : BootNeeded dram mem <;> by_cases hl : LoaderNeeded dram mem <;>
      simp_all

open Classical in
theorem pages_iff (dram mem : Memory) (started : Bool) : (pass dram mem started).pages =
    (if started = true then
      (if BootNeeded dram mem then imagePages dram (bootImage dram) else []) ++
        if LoaderNeeded dram mem then imagePages dram (loaderImage dram) else []
    else []) ↔ (started = true → (BootNeeded dram mem → Whole (bootImage dram)) ∧
      (LoaderNeeded dram mem → Whole (loaderImage dram))) := by
  rw [pass_pages]
  cases started with
  | false => exact iff_of_true rfl fun h => absurd h Bool.false_ne_true
  | true =>
    rw [if_pos rfl, if_pos rfl,
      append_eq_iff (programmed_length_le _ dram _) (programmed_length_le _ dram _), programmed_eq_iff,
      programmed_eq_iff]
    exact ⟨fun h _ => h, fun h => h rfl⟩

theorem flashOk_iff {started : Bool} : (pass dram mem started).flashOk = true ↔
    ¬BootNeeded dram mem ∧ ¬LoaderNeeded dram mem := by
  rw [← bootOk_iff, ← loaderOk_iff, ← Bool.and_eq_true_iff]
  rfl

/-- A turn keeps what is expected just if it is safe. -/
theorem keeps_iff (dram mem : Memory) (started : Bool) :
    Keeps dram (pass dram mem started) ↔ Safe dram (pass dram mem started) := by
  constructor
  · intro h
    have hwhole := (pages_iff dram mem started).mp h.pages
    refine ⟨fun hs => (hwhole hs).1, fun hs => (hwhole hs).2, fun hb hl => ?_⟩
    have hboth := h.flashOk (flashOk_iff.mpr ⟨hb, hl⟩)
    exact ⟨hboth.1.1, hboth.2.1⟩
  · intro h
    refine ⟨(pages_iff dram mem started).mpr fun hs => ⟨h.boot hs, h.loader hs⟩, fun hok => ?_⟩
    obtain ⟨hb, hl⟩ := flashOk_iff.mp hok
    obtain ⟨hboot, hloader⟩ := h.good hb hl
    exact ⟨⟨hboot, not_not.mp fun hs => hb ⟨hboot, hs⟩⟩, hloader,
      not_not.mp fun hs => hl ⟨hloader, hs⟩⟩

theorem session_passes : ∀ (keys : List UInt16) (mem : Memory) {p : Pass}, p ∈ session dram keys mem →
    ∃ mem' started, p = pass dram mem' started
  | [], mem, _, hp => ⟨mem, false, List.mem_singleton.mp hp⟩
  | key :: keys, mem, p, hp => by
    rw [session] at hp
    split at hp
    · exact ⟨mem, false, List.mem_singleton.mp hp⟩
    split at hp
    · exact ⟨mem, false, List.mem_singleton.mp hp⟩
    split at hp
    · rcases List.mem_cons.mp hp with rfl | hp
      · exact ⟨mem, true, rfl⟩
      · exact session_passes keys _ hp
    · exact session_passes keys mem hp

/-- A session programs just the pages of the images that are needed, and shows `flash OK` only if both
    images are good and stored, just if its turns are safe. -/
theorem session_keeps_iff (dram : Memory) (keys : List UInt16) (mem : Memory) :
    (∀ p ∈ session dram keys mem, Keeps dram p) ↔ ∀ p ∈ session dram keys mem, Safe dram p := by
  refine forall₂_congr fun p hp => ?_
  obtain ⟨mem', started, rfl⟩ := session_passes keys mem hp
  exact keeps_iff dram mem' started

/-- Two images of four zeros at 0x100000, with a checksum of zero. -/
def badDram : Memory := fun a =>
  if a = 0xFFE02 ∨ a = 0xFFE0E then 0x10 else if a = 0xFFE04 ∨ a = 0xFFE10 then 4 else 0

theorem badDram_boot : ¬Matched badDram (bootImage badDram) := by
  rw [Matched]
  decide

theorem badDram_loader : ¬Matched badDram (loaderImage badDram) := by
  rw [Matched]
  decide

/-- They are reported, and then `flash OK` is shown. -/
theorem badDram_shown : ¬∀ (dram : Memory) (keys : List UInt16) (mem : Memory),
    ∀ p ∈ session dram keys mem, Keeps dram p := by
  intro hclaim
  have hkeeps := hclaim badDram [] (fun _ => 0) _ List.mem_cons_self
  have hok := (@flashOk_iff badDram (fun _ => 0) false).mpr
    ⟨fun h => badDram_boot h.1, fun h => badDram_loader h.1⟩
  exact badDram_boot (hkeeps.flashOk hok).1.1

end FlashUpdater
