import ReplayFirmware.Flash.Upload
import ReplayFirmware.Flash.Verdict
import Mathlib.Data.List.Nodup

/-! `FlashAndReset`: the image goes from the DRAM into the flash, page by page.

    The flash controller takes the page from ten bits of the address, so an address past the end of
    the flash names a page from its start again, where the boot ROM is. The loop has no bound of its
    own; whether it stays inside the application depends on the size it is given. -/

namespace Flash
open FatFs FileIO.MCh

/-- The page field of `MC_FCR` for a flash address. -/
def pageOf (base : UInt32) : ℕ := ((base &&& 0x3FF00) >>> 8).toNat

/-- A page's worth of the DRAM. -/
def pageAt (mem : UInt32 → UInt8) (addr : UInt32) : List UInt8 :=
  (List.range 256).map fun i => mem (addr + i.toUInt32)

/-- The page the DRAM holds at `addr` is zeroed. -/
def zeroPage (mem : UInt32 → UInt8) (addr : UInt32) : UInt32 → UInt8 := fun a =>
  if (a - addr).toNat < 256 then 0 else mem a

/-- The pages programmed in the first turns of the loop, with their contents. -/
def flashLoop : ℕ → UInt32 → UInt32 → UInt32 → (UInt32 → UInt8) → List (ℕ × List UInt8)
  | 0, _, _, _, _ => []
  | n + 1, base, addr, stop, mem =>
    if addr < stop then
      (pageOf base, pageAt mem addr) ::
        flashLoop n (base + 256) (addr + 256) stop (zeroPage mem addr)
    else []

/-- `FlashAndReset`, its first `n` turns. -/
def flashAndReset (n : ℕ) (base dram length : UInt32) (mem : UInt32 → UInt8) :
    List (ℕ × List UInt8) := flashLoop n base dram (dram + length) mem

/-- The flash address of a page. -/
def pageAddr (p : ℕ) : ℕ := 0x100000 + p * 256

/-- Only pages of the application are programmed, each at most once, and page `k` of the application
    with page `k` of the image. -/
structure FlashesApp (dram length : UInt32) (mem : UInt32 → UInt8) : Prop where
  inside : ∀ n p bs, (p, bs) ∈ flashAndReset n appBase dram length mem →
    0x102000 ≤ pageAddr p ∧ pageAddr p < 0x140000
  once : ∀ n, ((flashAndReset n appBase dram length mem).map Prod.fst).Nodup
  pages : ∀ k, k < (length.toNat + 255) / 256 → ∃ n p,
    (p, pageAt mem (dram + (k * 256).toUInt32)) ∈ flashAndReset n appBase dram length mem ∧
      pageAddr p = 0x102000 + k * 256

/-! ### The loop -/

/-- A page further on is untouched by the zeroing. -/
theorem pageAt_zeroPage (mem : UInt32 → UInt8) (addr : UInt32) {k : ℕ} (hk : 0 < k)
    (hlt : (k + 1) * 256 ≤ 2 ^ 32) :
    pageAt (zeroPage mem addr) (addr + (k * 256).toUInt32) = pageAt mem (addr + (k * 256).toUInt32) := by
  refine List.map_congr_left fun i hi => if_neg ?_
  have := List.mem_range.mp hi
  rw [UInt32.add_assoc, UInt32.add_comm addr, UInt32.add_sub_cancel, UInt32.toNat_add]
  simp only [Nat.toUInt32, UInt32.toNat_ofNat']
  omega

theorem mul_succ_toUInt32 (k : ℕ) : ((k + 1) * 256).toUInt32 = 256 + (k * 256).toUInt32 := by
  simp [Nat.add_mul, UInt32.add_comm]

theorem toNat_add_256 {x : UInt32} (h : x.toNat + 256 < 4294967296) : (x + 256).toNat = x.toNat + 256 := by
  have h256 : (256 : UInt32).toNat = 256 := by decide
  rw [UInt32.toNat_add, h256, Nat.mod_eq_of_lt h]

/-- Turn `k` programs the page `k` further on, with what the DRAM held there at the start. -/
theorem flashLoop_getElem? : ∀ (k n : ℕ) (base addr stop : UInt32) (mem : UInt32 → UInt8), k < n →
    addr.toNat + k * 256 < stop.toNat →
    (flashLoop n base addr stop mem)[k]?
      = some (pageOf (base + (k * 256).toUInt32), pageAt mem (addr + (k * 256).toUInt32))
  | _, 0, _, _, _, _, hn, _ => absurd hn (Nat.not_lt_zero _)
  | 0, n + 1, base, addr, stop, mem, _, hlt => by
    rw [flashLoop, if_pos (UInt32.lt_iff_toNat_lt.mpr (by omega))]
    simp
  | k + 1, n + 1, base, addr, stop, mem, hn, hlt => by
    have hstop : stop.toNat < 4294967296 := stop.toNat_lt
    have hnext : (addr + 256).toNat = addr.toNat + 256 := toNat_add_256 (by omega)
    rw [flashLoop, if_pos (UInt32.lt_iff_toNat_lt.mpr (by omega)), List.getElem?_cons_succ,
      flashLoop_getElem? k n _ _ _ _ (by omega) (by omega), UInt32.add_assoc, UInt32.add_assoc,
      ← mul_succ_toUInt32, pageAt_zeroPage mem addr (Nat.succ_pos k) (by omega)]

/-- The loop ends once the address has reached the end of the image. -/
theorem length_flashLoop_le : ∀ (k n : ℕ) (base addr stop : UInt32) (mem : UInt32 → UInt8),
    stop.toNat ≤ addr.toNat + k * 256 → addr.toNat + k * 256 < 4294967296 →
    (flashLoop n base addr stop mem).length ≤ k
  | _, 0, _, _, _, _, _, _ => Nat.zero_le _
  | 0, n + 1, base, addr, stop, mem, hle, _ => by
    rw [flashLoop, if_neg (by rw [UInt32.lt_iff_toNat_lt]; omega)]
    exact le_refl 0
  | k + 1, n + 1, base, addr, stop, mem, hle, hlt => by
    have hnext : (addr + 256).toNat = addr.toNat + 256 := toNat_add_256 (by omega)
    rw [flashLoop]
    split
    · rw [List.length_cons]
      exact Nat.succ_le_succ (length_flashLoop_le k n _ _ _ _ (by omega) (by omega))
    · exact Nat.zero_le _

theorem length_flashLoop_le_fuel : ∀ (n : ℕ) (base addr stop : UInt32) (mem : UInt32 → UInt8),
    (flashLoop n base addr stop mem).length ≤ n
  | 0, _, _, _, _ => le_refl 0
  | n + 1, base, addr, stop, mem => by
    rw [flashLoop]
    split
    · exact Nat.succ_le_succ (length_flashLoop_le_fuel n _ _ _ _)
    · exact Nat.zero_le _

/-- The page field of an address that is `k` pages into the application. -/
theorem pageOf_app {k : ℕ} (hk : k * 256 < 2 ^ 31) :
    pageOf (appBase + (k * 256).toUInt32) = (4128 + k) % 1024 := by
  have haddr : (appBase + (k * 256).toUInt32).toNat = (4128 + k) * 2 ^ 8 := by
    have happ : appBase.toNat = 256 * 4128 := by decide
    rw [UInt32.toNat_add, happ]
    simp only [Nat.toUInt32, UInt32.toNat_ofNat']
    omega
  have hmask : (0x3FF00 : UInt32).toNat >>> 8 = 2 ^ 10 - 1 := by decide
  rw [pageOf, UInt32.toNat_shiftRight, UInt32.toNat_and, haddr]
  show _ >>> 8 = _
  rw [Nat.shiftRight_and_distrib, hmask, Nat.and_two_pow_sub_one_eq_mod, Nat.shiftRight_eq_div_pow,
    Nat.mul_div_cancel _ (by omega)]

/-! ### Which sizes stay inside the application -/

theorem dramUpload_toNat : dramUpload.toNat = 4332544 := by decide

/-- An image of up to 992 pages: turn `k` programs page `k`, and there are no further turns. -/
theorem flashAndReset_small {length : UInt32} (hlen : length.toNat ≤ 0x3E000) (n : ℕ)
    (mem : UInt32 → UInt8) :
    flashAndReset n appBase dramUpload length mem
      = (List.range (min n ((length.toNat + 255) / 256))).map
          (fun k => (0x20 + k, pageAt mem (dramUpload + (k * 256).toUInt32))) := by
  have hup := dramUpload_toNat
  have hstop : (dramUpload + length).toNat = dramUpload.toNat + length.toNat := by
    rw [UInt32.toNat_add, Nat.mod_eq_of_lt (by omega)]
  have hend := length_flashLoop_le ((length.toNat + 255) / 256) n appBase dramUpload
    (dramUpload + length) mem (by omega) (by omega)
  apply List.ext_getElem?
  intro k
  by_cases hk : k < min n ((length.toNat + 255) / 256)
  · rw [flashAndReset, flashLoop_getElem? k n _ _ _ _ (by omega) (by omega), List.getElem?_map,
      List.getElem?_range hk, pageOf_app (by omega)]
    show some ((4128 + k) % 1024, _) = some (0x20 + k, _)
    rw [show (4128 + k) % 1024 = 0x20 + k by omega]
  · have hn : (flashLoop n appBase dramUpload (dramUpload + length) mem).length ≤ n :=
      length_flashLoop_le_fuel n _ _ _ _
    rw [List.getElem?_eq_none (by simp only [flashAndReset]; omega),
      List.getElem?_eq_none (by simp only [List.length_map, List.length_range]; omega)]

theorem flashesApp_of_le {length : UInt32} (hlen : length.toNat ≤ 0x3E000) (mem : UInt32 → UInt8) :
    FlashesApp dramUpload length mem where
  inside n p bs hmem := by
    rw [flashAndReset_small hlen, List.mem_map] at hmem
    obtain ⟨k, hk, heq⟩ := hmem
    have hk := List.mem_range.mp hk
    obtain ⟨rfl, _⟩ := Prod.mk.inj heq
    rw [pageAddr]
    omega
  once n := by
    rw [flashAndReset_small hlen, List.map_map]
    exact List.nodup_range.map fun i j hij => by
      have : 0x20 + i = 0x20 + j := hij
      omega
  pages k hk := by
    refine ⟨k + 1, 0x20 + k, ?_, by rw [pageAddr]; omega⟩
    rw [flashAndReset_small hlen, List.mem_map]
    exact ⟨k, List.mem_range.mpr (by omega), rfl⟩

/-- A larger image runs into the boot ROM, or is not flashed at all when its end in the DRAM wraps. -/
theorem le_of_flashesApp {length : UInt32} {mem : UInt32 → UInt8}
    (h : FlashesApp dramUpload length mem) : length.toNat ≤ 0x3E000 := by
  by_contra hgt
  have hup := dramUpload_toNat
  have hlt : length.toNat < 4294967296 := length.toNat_lt
  by_cases hwrap : dramUpload.toNat + length.toNat < 4294967296
  · -- turn 992 names page 0
    have hstop : (dramUpload + length).toNat = dramUpload.toNat + length.toNat := by
      rw [UInt32.toNat_add, Nat.mod_eq_of_lt hwrap]
    have hget := flashLoop_getElem? 992 993 appBase dramUpload (dramUpload + length) mem (by omega)
      (by omega)
    have hin := h.inside 993 _ _ (List.mem_of_getElem? hget)
    rw [pageOf_app (by omega), pageAddr] at hin
    omega
  · -- the first turn finds the address past the end
    have hstop : (dramUpload + length).toNat = dramUpload.toNat + length.toNat - 4294967296 := by
      rw [UInt32.toNat_add]; omega
    obtain ⟨n, p, hmem, _⟩ := h.pages 0 (by omega)
    have hempty := length_flashLoop_le 0 n appBase dramUpload (dramUpload + length) mem (by omega)
      (by omega)
    have := List.length_pos_of_mem hmem
    rw [flashAndReset] at this
    omega

/-! ### Verified files -/

/-- A verified file is flashed into the application and nowhere else, whatever the DRAM holds. -/
def FlashesAppOnly (flash : UInt32 → UInt8) (file : Option File) (line : Line) (s : Statics) : Prop :=
  ∀ crcs s', verifySRecords file flash line s = some (1, crcs, s') →
    ∀ mem, FlashesApp dramUpload s'.s_FlashSize mem

/-- Flashing a verified file stays inside the application exactly when the size the verifier counts,
    from its last header on or on top of an earlier pass, is at most 248 KB. -/
theorem flashesAppOnly_iff (flash : UInt32 → UInt8) (file : Option File) (line : Line)
    (s : Statics) :
    FlashesAppOnly flash file line s ↔
      ∀ a, reading file line = some (0, a) → (a.flashSize s).toNat ≤ 0x3E000 := by
  obtain ⟨hpass, hacc⟩ := verifySRecords_account file flash line s
  constructor
  · intro h a ha
    obtain ⟨crcs, s', hv⟩ := hpass a ha
    obtain ⟨a', ha', _, _, hsize, _⟩ := hacc crcs s' hv
    obtain rfl : a = a' := by simpa using ha.symm.trans ha'
    rw [← hsize]
    exact le_of_flashesApp (h crcs s' hv fun _ => 0)
  · intro h crcs s' hv mem
    obtain ⟨a, ha, _, _, hsize, _⟩ := hacc crcs s' hv
    have hle := h a ha
    rw [← hsize] at hle
    exact flashesApp_of_le hle mem

/-- A header, and one byte right behind the end of the flash. -/
def farByteFile : File := textFile "S004000041BA\nS30600140000AA3B\nS70500102000CA\n"

/-- The parser's line buffer for each line of the file. -/
def farLine1 : Line := Line.put (fun _ => 0) ("S004000041BA\n".toList.map fun c => c.toNat.toUInt8)

def farLine2 : Line := farLine1.put ("S30600140000AA3B\n".toList.map fun c => c.toNat.toUInt8)

def farLine3 : Line := farLine2.put ("S70500102000CA\n".toList.map fun c => c.toNat.toUInt8)

/-- Its data byte, for a handler that has seen only the header, leaves a gap of 248 KB. -/
theorem farByte_read (a : Reading) (ha : a.img = []) :
    imageHandler 3 0x140000 0 1 0xAA a = some (0, a.fill 253952 0xAA) := by
  have hge : ¬ ((0x140000 : UInt32) + 0).toNat < appBase.toNat + a.img.length := by
    rw [ha]; decide
  have hgap : ((0x140000 : UInt32) + 0).toNat - (appBase.toNat + a.img.length) = 253952 := by
    rw [ha]; decide
  have hlast : (0x140000 : UInt32) + 0 ≠ 0xFFFFFFFF := by decide
  unfold imageHandler
  rw [if_neg (by decide), if_neg (by decide)]
  simp only [if_neg hge, if_neg hlast, hgap]

theorem farFile_term (a : Reading) : Ends imageHandler farLine3 a { a with ended := true } :=
  ⟨{ type := 7, addr := 0x102000, data := [], refused := false, sumOk := true
     data_of_refused := by decide, data_of_term := by decide },
    a, rfl, rfl, ⟨rfl, rfl, rfl⟩, rfl⟩

/-- The reading of the file: the gap, and the byte behind it. -/
theorem farByteFile_reading : ∃ a, reading (some farByteFile) (fun _ => 0) = some (0, a) ∧
    a.reset = some 0 ∧ a.ended = true ∧ a.img.length = 253953 := by
  let a1 : Reading := { Reading.empty with reset := some 0 }
  obtain ⟨a2, ha2⟩ : ∃ a2, a2 = a1.fill 253952 0xAA := ⟨_, rfl⟩
  have hheader : Good imageHandler farLine1 .empty a1 :=
    .inr ⟨{ type := 0, addr := 0, data := [0x41], refused := false, sumOk := true
            data_of_refused := by decide, data_of_term := by decide },
      rfl, by decide, rfl, rfl, rfl⟩
  have hdata : Good imageHandler farLine2 a1 a2 := by
    refine .inr ⟨{ type := 3, addr := 0x140000, data := [0xAA], refused := false, sumOk := true
                   data_of_refused := by decide, data_of_term := by decide },
      rfl, by decide, rfl, rfl, ?_⟩
    show offer imageHandler 3 0x140000 1 0 [0xAA] a1 = _
    rw [offer, farByte_read a1 rfl, ← ha2]
    rfl
  refine ⟨{ a2 with ended := true }, parseSRecords_of_accepted ⟨farByteFile, imageHandler, rfl, rfl,
    .more hheader (.more hdata (.ends (farFile_term a2)))⟩, ?_, rfl, ?_⟩
  · show a2.reset = some 0
    rw [ha2, Reading.fill_reset]
  · show a2.img.length = _
    rw [ha2, Reading.length_fill]
    decide

/-- The file is verified, and its last page lands on page 0 of the boot ROM. -/
theorem farByteFile_overruns :
    ¬ FlashesAppOnly (fun _ => 0) (some farByteFile) (fun _ => 0) .boot := by
  intro h
  obtain ⟨hpass, hacc⟩ := verifySRecords_account (some farByteFile) (fun _ => 0) (fun _ => 0) .boot
  obtain ⟨a, ha, hreset, hended, hlen⟩ := farByteFile_reading
  obtain ⟨crcs, s', hv⟩ := hpass a ha
  obtain ⟨a', ha', _, _, hsize, _⟩ := hacc crcs s' hv
  obtain rfl : a = a' := by simpa using ha.symm.trans ha'
  have hle := le_of_flashesApp (h crcs s' hv fun _ => 0)
  have hcount : (a.flashSize .boot) = 253953 := by
    rw [Reading.flashSize, Reading.flushed, hended, if_pos rfl, a.length_seen, hlen, hreset]
    decide
  rw [hsize, hcount] at hle
  exact absurd hle (by decide)

end Flash
