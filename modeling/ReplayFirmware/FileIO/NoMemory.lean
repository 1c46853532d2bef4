import ReplayFirmware.FatFs.MkDirTree
import ReplayFirmware.FileIO.Slots
import ReplayFirmware.Heap.Sbrk

/-! Opening and inserting when memory has run out.

    File objects have a heap of their own: `ff_sbrk` gives its array away once and as a whole. When no
    object can be had, `f_open` sees that it has none; but `FF_Open` frees the object of every file that it
    has not opened, also the one that is not there, and the free list takes the header in front of address
    0 for a block. Descriptors come from `calloc`, and a driver that gets none says so. -/

namespace NoMemory
open FreeList Circle Coalesce
open FatFs (Fresult FfError mapError)
open FileIO (statReadonly statInserted)
open FileIO.Slots (special fileDisplayName known maxDisplayFilename)

/-! ### The code -/

/-- `sizeof(FIL)` -/
def sizeofFIL : ℕ := 592

/-- The bytes of `ff_heap`. -/
def ffHeapBytes : ℕ := 4096

/-- `ff_sbrk`, with its static `init` -/
def ffSbrk (ff_heap : ℕ) (init : Bool) (increment : ℕ) : ℕ × Bool :=
  if init then (noMemory, true)
  else if ffHeapBytes < increment then (noMemory, false)
  else (ff_heap, true)

/-- The heap of the file objects, and whether a header was used that stands in front of NULL. -/
structure Objects where
  context : Context Bool
  null : Bool

def ffMalloc (fuel : ℕ) (h : Objects) (size : ℕ) : Option (ℕ × Objects) :=
  (alloc fuel h.context size).map fun r => (r.1, { h with context := r.2 })

def ffFree (fuel : ℕ) (h : Objects) (ptr : ℕ) : Option Objects :=
  (free fuel h.context ptr).map fun c => { context := c, null := h.null || decide (ptr = 0) }

/-- `f_open`, which looks at its object first; `volume` is what it comes to with one, by the mode. -/
def f_open (volume : UInt8 → Fresult) (fp : ℕ) (mode : UInt8) : Fresult :=
  if fp = 0 then .invalidObject else volume mode

/-- `FF_MODE_READ` -/
def ffModeRead : UInt8 := 0x01

/-- `FF_MODE_WRITE` -/
def ffModeWrite : UInt8 := 0x02

/-- The mode of `f_open` for one of `FF_Open`. -/
def openMode (Mode : UInt8) : UInt8 :=
  (if Mode &&& ffModeRead ≠ 0 then 0x01 else 0) ||| (if Mode &&& ffModeWrite ≠ 0 then 0x02 else 0) |||
    (if Mode &&& 0x04 ≠ 0 then 0x30 else 0) ||| (if Mode &&& 0x08 ≠ 0 then 0x08 else 0) |||
    (if Mode &&& 0x10 ≠ 0 then 0x08 else 0)

/-- `FF_Open`: the file, the error beside `FF_OPEN`, and the heap. -/
def FF_Open (fuel : ℕ) (volume : UInt8 → Fresult) (h : Objects) (Mode : UInt8) :
    Option (ℕ × FfError × Objects) :=
  (ffMalloc fuel h sizeofFIL).bind fun r =>
    let result := f_open volume r.1 (openMode Mode)
    if result ≠ .ok then (ffFree fuel r.2 r.1).map fun h => (0, mapError result, h)
    else some (r.1, mapError result, r.2)

/-- What `FF_Close` does to the heap. -/
def FF_Close (fuel : ℕ) (h : Objects) (pFile : ℕ) : Option Objects :=
  if pFile ≠ 0 then ffFree fuel h pFile else some h

/-- `fch_t` -/
structure Fch where
  status : UInt8
  fSource : ℕ
  pDesc : ℕ
  name : List UInt8

/-- The sizes of the descriptors. -/
structure DescSizes where
  size : UInt8 → ℕ
  pos : ∀ driver, 0 < size driver
  le : ∀ driver, size driver ≤ 0xFFFFFFF0

/-- What `f_open` comes to, and what a driver makes of the status with a descriptor, none when it refuses
    the image. -/
structure Answers where
  volume : UInt8 → Fresult
  init : UInt8 → ℕ → ℕ → Option UInt8

variable {β : Type}

/-- Both heaps. -/
structure Heaps (β : Type) where
  files : Objects
  descs : Context β

/-- The file is opened for reading and writing, or else for reading: the status with it. A special path
    opens nothing. -/
def openSource (fuel : ℕ) (a : Answers) (path : List UInt8) (h : Objects) : Option (UInt8 × ℕ × Objects) :=
  if special path ≠ [] then some (0, 0, h)
  else (FF_Open fuel a.volume h (ffModeRead ||| ffModeWrite)).bind fun r =>
    if r.1 ≠ 0 then some (0, r.1, r.2.2)
    else (FF_Open fuel a.volume r.2.2 ffModeRead).map fun r => (statReadonly, r.1, r.2.2)

/-- `FileIO_DrvXX_InsertInit`: the descriptor, the status if the image is taken, and the heap. -/
def insertInit (fuel : ℕ) (sizes : DescSizes) (a : Answers) (driver status : UInt8) (fSource : ℕ)
    (c : Context β) : Option (ℕ × Option UInt8 × Context β) :=
  if known driver then
    (calloc fuel c 1 (sizes.size driver)).map fun r =>
      (r.1, if r.1 = 0 then none else a.init status fSource r.1, r.2)
  else some (0, none, c)

/-- `FileIO_FCh_Insert` -/
def insert (fuel : ℕ) (sizes : DescSizes) (a : Answers) (driver : UInt8) (path : List UInt8)
    (s : Heaps β) : Option (Fch × Heaps β) :=
  (openSource fuel a path s.files).bind fun r =>
    if special path = [] ∧ r.2.1 = 0 then some (⟨r.1, 0, 0, []⟩, ⟨r.2.2, s.descs⟩)
    else (insertInit fuel sizes a driver r.1 r.2.1 s.descs).bind fun t =>
      match t.2.1 with
      | some status => some
        (⟨status ||| statInserted, r.2.1, t.1, fileDisplayName maxDisplayFilename path⟩, ⟨r.2.2, t.2.2⟩)
      | none =>
        (FF_Close fuel r.2.2 r.2.1).bind fun files =>
          (if t.1 ≠ 0 then free fuel t.2.2 t.1 else some t.2.2).map fun descs =>
            (⟨r.1, r.2.1, t.1, []⟩, ⟨files, descs⟩)

/-! ### What is expected -/

/-- Where that which has been given of `ff_heap` ends. -/
def ffEnd (ff_heap : ℕ) (init : Bool) : ℕ := if init then ff_heap + ffHeapBytes else ff_heap

/-- The heap of the objects is in order. -/
structure Orderly (ff_heap : ℕ) (c : Context Bool) (S : Finset ℕ) (live : List ℕ) : Prop where
  sbrkFunc : c.sbrkFunc = some (ffSbrk ff_heap)
  fits : ff_heap + ffHeapBytes < 4294967296
  sound : Sound (ffEnd ff_heap) (start c) S live

/-- The free list satisfies its invariant. -/
def Intact (ff_heap : ℕ) (c : Context Bool) : Prop := ∃ S live, Orderly ff_heap c S live

/-- A file object can be had: `ff_heap` has not been given yet, or there is a free block that holds one. -/
def Spare (c : Context Bool) (S : Finset ℕ) : Prop :=
  c.brk = false ∨ ∃ x ∈ S, blocksFor sizeofFIL ≤ ((start c).mem x).numBlocks

/-- The allocation of a file object returns NULL. -/
def NoObject (c : Context Bool) : Prop := ∃ fuel c', alloc fuel c sizeofFIL = some (0, c')

/-- The allocation of a descriptor returns NULL. -/
def NoDescriptor (sizes : DescSizes) (driver : UInt8) (c : Context β) : Prop :=
  known driver = true ∧ ∃ fuel c', calloc fuel c 1 (sizes.size driver) = some (0, c')

/-- `FF_Open` without an object returns NULL with an error, uses no header in front of NULL, and leaves the
    free list as it must be. -/
def OpenSurvives (ff_heap : ℕ) (volume : UInt8 → Fresult) (Mode : UInt8) (c : Context Bool) : Prop :=
  NoObject c → ∃ fuel r, FF_Open fuel volume ⟨c, false⟩ Mode = some r ∧ r.1 = 0 ∧ r.2.1 ≠ .none ∧
    r.2.2.null = false ∧ Intact ff_heap r.2.2.context

/-- An insert ends with the slot not inserted, uses no header in front of NULL, and leaves both free lists as
    they must be. -/
def InsertSurvives (ff_heap : ℕ) (bound : β → ℕ) (sizes : DescSizes) (a : Answers) (driver : UInt8)
    (path : List UInt8) (s : Heaps β) : Prop :=
  ∃ fuel r, insert fuel sizes a driver path s = some r ∧ r.1.status &&& statInserted = 0 ∧
    r.2.files.null = false ∧ Intact ff_heap r.2.files.context ∧
    ∃ S live, Sound bound (start r.2.descs) S live

/-! ### The search -/

variable {ff_heap n : ℕ} {c c' : Context Bool} {S : Finset ℕ} {live : List ℕ}

theorem blocksFor_fil : blocksFor sizeofFIL = 75 := by decide

theorem ffEnd_le (ff_heap : ℕ) (init : Bool) : ffEnd ff_heap init ≤ ff_heap + ffHeapBytes := by
  rw [ffEnd]
  split <;> omega

/-- Once the array has been given, nothing is. -/
theorem ask_refused {addBlocks : ℕ} : ∀ {fuel divider : ℕ} {r : ℕ × ℕ × Bool},
    askMemory (ffSbrk ff_heap) n addBlocks fuel divider true = some r → r.1 = noMemory
  | 0, _, _, h => nomatch h
  | fuel + 1, divider, r, h => by
    rw [askMemory] at h
    simp only [ffSbrk, if_true] at h
    split at h
    · exact ask_refused h
    · rw [← Option.some.inj h]

/-- The array is given as a whole, for half of what is asked for at first. -/
theorem ask_given (hfits : ff_heap + ffHeapBytes < 4294967296) : ∀ {fuel : ℕ} {r : ℕ × ℕ × Bool},
    askMemory (ffSbrk ff_heap) (blocksFor sizeofFIL) 1024 fuel 1 false = some r →
      r = (ff_heap, ffHeapBytes, true)
  | 0, _, h => nomatch h
  | 1, _, h => nomatch h
  | fuel + 2, r, h => by
    have hne : ¬(ff_heap = noMemory ∧ wrap (1024 / wrap (1 + 1) * headerSize) ≥
        wrap (blocksFor sizeofFIL * headerSize)) := by
      rw [noMemory]
      rw [ffHeapBytes] at hfits
      omega
    have hfirst : ffSbrk ff_heap false (wrap (1024 / 1 * headerSize)) = (noMemory, false) := rfl
    have hsecond : ffSbrk ff_heap false (wrap (1024 / wrap (1 + 1) * headerSize)) = (ff_heap, true) := rfl
    rw [askMemory, hfirst] at h
    simp only at h
    rw [if_pos (by decide), askMemory, hsecond] at h
    simp only at h
    rw [if_neg hne] at h
    exact (Option.some.inj h).symm

/-- Where all blocks are too small and the array has been given, there is none. -/
theorem search_none (hs : c.sbrkFunc = some (ffSbrk ff_heap)) (hbrk : c.brk = true)
    (hl : Linked S fun x => (c.mem x).nextPtr) (hsmall : ∀ x ∈ S, (c.mem x).numBlocks < n) :
    ∀ {fuel prevPtr p : ℕ} {r : ℕ × Context Bool}, p ∈ S → search n fuel c prevPtr p = some r → r.1 = 0
  | 0, _, _, _, _, h => nomatch h
  | fuel + 1, prevPtr, p, r, hp, h => by
    have hfits : ¬n ≤ (c.mem p).numBlocks := Nat.not_le.mpr (hsmall p hp)
    by_cases hround : p = c.freeList
    · subst hround
      rw [search_round hfits hs, Option.bind_eq_some_iff] at h
      obtain ⟨q, hask, h⟩ := h
      rw [hbrk] at hask
      rw [if_pos (ask_refused hask)] at h
      rw [← Option.some.inj h]
    · rw [search_next hfits hround] at h
      exact search_none hs hbrk hl hsmall (hl.mem hp) h

/-- The search does not exchange the break. -/
theorem search_sbrkFunc {β : Type} : ∀ {fuel prevPtr p : ℕ} {c : Context β} {r : ℕ × Context β},
    search n fuel c prevPtr p = some r → r.2.sbrkFunc = c.sbrkFunc
  | 0, _, _, _, _, h => nomatch h
  | fuel + 1, prevPtr, p, c, r, h => by
    by_cases hfits : n ≤ (c.mem p).numBlocks
    · rw [search_fits hfits] at h
      rw [← Option.some.inj h]
      exact (taken_brk n c prevPtr p).2
    by_cases hround : p = c.freeList
    · subst hround
      cases hs : c.sbrkFunc with
      | none =>
        rw [search_refused hfits hs] at h
        rw [← Option.some.inj h, hs]
      | some f =>
        rw [search_round hfits hs, Option.bind_eq_some_iff] at h
        obtain ⟨q, -, h⟩ := h
        split at h
        · rw [← Option.some.inj h]
          exact hs
        · rw [Option.bind_eq_some_iff] at h
          obtain ⟨c₁, hfree, h⟩ := h
          exact (search_sbrkFunc h).trans ((free_brk hfree).2.trans hs)
    · rw [search_next hfits hround] at h
      exact search_sbrkFunc h

/-- Where a block holds the request, the search returns one. -/
theorem search_some {β : Type} {bound : β → ℕ} {c : Context β} (hn : 0 < n) (h : Sound bound c S live)
    (hfound : ∃ x ∈ S, n ≤ (c.mem x).numBlocks) :
    ∀ {fuel prevPtr p : ℕ} {r : ℕ × Context β}, prevPtr ∈ S → (c.mem prevPtr).nextPtr = p →
      (∀ x ∈ S, Between c.freeList x p → (c.mem x).numBlocks < n) →
        search n fuel c prevPtr p = some r → r.1 ≠ 0
  | 0, _, _, _, _, _, _, hr => nomatch hr
  | fuel + 1, prevPtr, p, r, hprev, hnext, hseen, hr => by
    have hl := h.heap.spaced.linked
    have hp : p ∈ S := hnext ▸ hl.mem hprev
    by_cases hfits : n ≤ (c.mem p).numBlocks
    · rw [search_fits hfits] at hr
      rw [← Option.some.inj hr]
      exact taken_ne_zero h hn hprev hnext hfits
    by_cases hround : p = c.freeList
    · -- all the way around without it
      obtain ⟨x, hx, hle⟩ := hfound
      by_cases hxp : x = p
      · exact absurd (hxp ▸ hle) hfits
      · rw [← hround] at hseen
        exact absurd hle (Nat.not_le.mpr (hseen x hx (between_self hxp)))
    · rw [search_next hfits hround] at hr
      refine search_some hn h hfound hp rfl (fun x hx hbetween => ?_) hr
      rcases (hl p hp).between_step hx hbetween with hx' | rfl
      · exact hseen x hx hx'
      · exact Nat.lt_of_not_le hfits

/-- After memory has been added, the search begins anew. -/
theorem search_counted {β : Type} {bound : β → ℕ} {c₁ : Context β} {bytes : ℕ} (hn : 0 < n)
    (h : Sound bound (counted c₁ bytes) S live) (hfound : ∃ x ∈ S, n ≤ (c₁.mem x).numBlocks) :
    (∃ fuel r, search n fuel (counted c₁ bytes) c₁.freeList (c₁.mem c₁.freeList).nextPtr = some r) ∧
      ∀ {fuel : ℕ} {r : ℕ × Context β},
        search n fuel (counted c₁ bytes) c₁.freeList (c₁.mem c₁.freeList).nextPtr = some r → r.1 ≠ 0 := by
  have hl := h.heap.spaced.linked
  have hfree := h.heap.freeList_mem
  refine ⟨search_found hl hfree hfound, fun hr => ?_⟩
  exact search_some hn h hfound hfree rfl (fun x hx hb => absurd hb ((hl _ hfree).not_between hx)) hr

/-! ### The heap of the objects -/

theorem start_of_ne {β : Type} {c : Context β} (h : c.freeList ≠ 0) : start c = c := if_neg h

theorem alloc_mono {β : Type} {c : Context β} {fuel more size : ℕ} {r : ℕ × Context β}
    (h : alloc fuel c size = some r) (hle : fuel ≤ more) : alloc more c size = some r := search_mono h hle

theorem Orderly.start_sbrkFunc (h : Orderly ff_heap c S live) : (start c).sbrkFunc = some (ffSbrk ff_heap) :=
  FreeList.start_sbrkFunc.trans h.sbrkFunc

/-- The array becomes a free block. -/
theorem Orderly.given (h : Orderly ff_heap c S live) (hbrk : c.brk = false) {fuel : ℕ} {c₁ : Context Bool}
    (hask : askMemory (ffSbrk ff_heap) (blocksFor sizeofFIL) 1024 fuel 1 false =
      some (ff_heap, ffHeapBytes, true))
    (hfree : free fuel (added (start c) ff_heap ffHeapBytes true) (advance ff_heap 1) = some c₁) :
    ∃ S', Sound (ffEnd ff_heap) (counted c₁ ffHeapBytes) S' live ∧
      ∃ x ∈ S', blocksFor sizeofFIL ≤ (c₁.mem x).numBlocks := by
  have hfits := h.fits
  have hne : ff_heap ≠ noMemory := by
    rw [noMemory]
    rw [ffHeapBytes] at hfits
    omega
  rw [← hbrk, ← @start_brk _ c] at hask
  obtain ⟨S', hsound, -, -, -, -, x, hx, hsize⟩ :=
    h.sound.grow h.start_sbrkFunc hask hne (by decide) hfree
  refine ⟨S', hsound, x, hx, ?_⟩
  rw [FreeList.sizeOf, ffHeapBytes, headerSize] at hsize
  rw [blocksFor_fil]
  omega

theorem Orderly.search_given (h : Orderly ff_heap c S live) (hbrk : c.brk = false)
    (hsmall : ∀ x ∈ S, ((start c).mem x).numBlocks < blocksFor sizeofFIL) :
    ∀ {fuel prevPtr p : ℕ} {r : ℕ × Context Bool}, p ∈ S →
      search (blocksFor sizeofFIL) fuel (start c) prevPtr p = some r → r.1 ≠ 0
  | 0, _, _, _, _, hr => nomatch hr
  | fuel + 1, prevPtr, p, r, hp, hr => by
    have hl := h.sound.heap.spaced.linked
    have hfits : ¬blocksFor sizeofFIL ≤ ((start c).mem p).numBlocks := Nat.not_le.mpr (hsmall p hp)
    by_cases hround : p = (start c).freeList
    · subst hround
      rw [search_round hfits h.start_sbrkFunc, Option.bind_eq_some_iff] at hr
      obtain ⟨q, hask, hr⟩ := hr
      rw [start_brk, hbrk] at hask
      obtain rfl := ask_given h.fits hask
      split at hr
      · next hq =>
        have hfits := h.fits
        rw [noMemory] at hq
        rw [ffHeapBytes] at hfits
        omega
      rw [Option.bind_eq_some_iff] at hr
      obtain ⟨c₁, hfree, hr⟩ := hr
      obtain ⟨S', hsound, hfound⟩ := h.given hbrk hask hfree
      exact (search_counted (blocksFor_pos _) hsound hfound).2 hr
    · rw [search_next hfits hround] at hr
      exact h.search_given hbrk hsmall (hl.mem hp) hr

/-- An allocation of a file object ends. -/
theorem Orderly.object_ends (h : Orderly ff_heap c S live) : ∃ fuel r, alloc fuel c sizeofFIL = some r := by
  have hl := h.sound.heap.spaced.linked
  have hp := hl.mem h.sound.heap.freeList_mem
  obtain ⟨k, hk⟩ := hl.reach h.sound.heap.freeList_mem _ hp
  refine search_walk hl (fun prevPtr _ => ?_) k _ _ hp hk fun x hx hb =>
    absurd hb ((hl _ h.sound.heap.freeList_mem).not_between hx)
  by_cases hfits : blocksFor sizeofFIL ≤ ((start c).mem (start c).freeList).numBlocks
  · exact ⟨1, _, search_fits hfits⟩
  obtain ⟨fuel, q, hask⟩ := @askMemory_ends _ (ffSbrk ff_heap) (blocksFor sizeofFIL) 1024 (by decide)
    (by decide) (by decide) 1024 1 (start c).brk rfl
  cases hbrk : c.brk with
  | true =>
    refine ⟨fuel + 1, (0, { start c with brk := q.2.2 }), ?_⟩
    rw [search_round hfits h.start_sbrkFunc, if_pos (by decide), hask, Option.bind_some]
    rw [start_brk, hbrk] at hask
    exact if_pos (ask_refused hask)
  | false =>
    have hgiven := hask
    rw [start_brk, hbrk] at hgiven
    obtain rfl := ask_given h.fits hgiven
    have hne : ff_heap ≠ noMemory := by
      have hfits := h.fits
      rw [noMemory]
      rw [ffHeapBytes] at hfits
      omega
    obtain ⟨-, hmod, hown⟩ := askMemory_owned (h.sound.areas _ h.start_sbrkFunc) hask
    obtain ⟨hge, hown⟩ := hown hne (by decide)
    obtain ⟨fuel₂, c₁, hfree⟩ := (h.sound.heap.grow hge hmod hown _).free_ends List.mem_cons_self
    obtain ⟨S', hsound, hfound⟩ := h.given hbrk (askMemory_mono hgiven (Nat.le_max_left fuel fuel₂))
      (free_mono hfree (Nat.le_max_right fuel fuel₂))
    obtain ⟨fuel₃, r, hr⟩ := (search_counted (blocksFor_pos _) hsound hfound).1
    refine ⟨max (max fuel fuel₂) fuel₃ + 1, r, ?_⟩
    rw [search_round hfits h.start_sbrkFunc, if_pos (by decide), askMemory_mono hask (by omega)]
    simp only [Option.bind_some]
    rw [if_neg hne, show free _ (added (start c) ff_heap ffHeapBytes true) (advance ff_heap 1) = some c₁ from
      free_mono hfree (by omega), Option.bind_some]
    exact search_mono hr (by omega)

theorem Orderly.small (h : ¬Spare c S) : c.brk = true ∧
    ∀ x ∈ S, ((start c).mem x).numBlocks < blocksFor sizeofFIL := by
  rw [Spare, not_or, Bool.not_eq_false] at h
  exact ⟨h.1, fun x hx => Nat.lt_of_not_le fun hle => h.2 ⟨x, hx, hle⟩⟩

/-- Where there is none to be had, the object is NULL. -/
theorem Orderly.alloc_none (h : Orderly ff_heap c S live) (hs : ¬Spare c S) {fuel : ℕ} {r : ℕ × Context Bool}
    (halloc : alloc fuel c sizeofFIL = some r) : r.1 = 0 := by
  obtain ⟨hbrk, hsmall⟩ := Orderly.small hs
  have hl := h.sound.heap.spaced.linked
  exact search_none h.start_sbrkFunc (start_brk.trans hbrk) hl hsmall (hl.mem h.sound.heap.freeList_mem) halloc

theorem Orderly.alloc_some (h : Orderly ff_heap c S live) (hs : Spare c S) {fuel : ℕ} {r : ℕ × Context Bool}
    (halloc : alloc fuel c sizeofFIL = some r) : r.1 ≠ 0 := by
  have hl := h.sound.heap.spaced.linked
  have hfree := h.sound.heap.freeList_mem
  by_cases hfound : ∃ x ∈ S, blocksFor sizeofFIL ≤ ((start c).mem x).numBlocks
  · exact search_some (blocksFor_pos _) h.sound hfound hfree rfl
      (fun x hx hb => absurd hb ((hl _ hfree).not_between hx)) halloc
  · exact h.search_given (hs.resolve_right hfound)
      (fun x hx => Nat.lt_of_not_le fun hle => hfound ⟨x, hx, hle⟩) (hl.mem hfree) halloc

/-- The allocation of an object fails exactly when there is none to be had. -/
theorem Orderly.noObject_iff (h : Orderly ff_heap c S live) : NoObject c ↔ ¬Spare c S := by
  constructor
  · rintro ⟨fuel, c', halloc⟩ hs
    exact h.alloc_some hs halloc rfl
  · intro hs
    obtain ⟨fuel, ⟨p, c'⟩, halloc⟩ := h.object_ends
    obtain rfl : p = 0 := h.alloc_none hs halloc
    exact ⟨fuel, c', halloc⟩

/-- A new object is a live block. -/
theorem Orderly.alloc_live (h : Orderly ff_heap c S live) {fuel p : ℕ}
    (halloc : alloc fuel c sizeofFIL = some (p, c')) (hp : p ≠ 0) :
    ∃ S' b, p = advance b 1 ∧ blocksFor sizeofFIL ≤ (c'.mem b).numBlocks ∧ c'.freeList ≠ 0 ∧
      Orderly ff_heap c' S' (b :: live) := by
  have hserved := alloc_served h.sound (room_of_size (by decide) (by decide) _) (by decide) halloc
  rw [Served, if_neg hp] at hserved
  obtain ⟨S', b, hb, hsize, hsound⟩ := hserved
  have hne := hsound.heap.freeList_pos
  refine ⟨S', b, hb, ?_, hne, ?_, h.fits, ?_⟩
  · rw [FreeList.sizeOf, sizeofFIL, headerSize] at hsize
    rw [blocksFor_fil]
    omega
  · exact (search_sbrkFunc halloc).trans h.start_sbrkFunc
  · rw [start_of_ne hne]
    exact hsound

/-- An object that is given back can be had again. -/
theorem Orderly.freed {b : ℕ} (h : Orderly ff_heap c S (b :: live)) (hne : c.freeList ≠ 0) {fuel : ℕ}
    (hfree : free fuel c (advance b 1) = some c') : ∃ S', Orderly ff_heap c' S' live ∧
      (blocksFor sizeofFIL ≤ (c.mem b).numBlocks → Spare c' S') := by
  have hsound := h.sound
  rw [start_of_ne hne] at hsound
  obtain ⟨S', hheap, -, -, ⟨x, hx, hpiece⟩, mem, freeList, rfl⟩ :=
    hsound.heap.free List.mem_cons_self hfree
  rw [List.erase_cons_head] at hheap
  have hne' := hheap.freeList_pos
  refine ⟨S', ⟨h.sbrkFunc, h.fits, ?_⟩, fun hsize => Or.inr ⟨x, hx, ?_⟩⟩
  · rw [start_of_ne hne']
    exact ⟨hheap, hsound.size_le, hsound.areas⟩
  · rw [start_of_ne hne']
    rw [FreeList.sizeOf, FreeList.sizeOf, headerSize] at hpiece
    exact hsize.trans (Nat.le_of_mul_le_mul_right hpiece (by decide))

/-! ### `FF_Open` -/

variable {fuel more : ℕ} {h : Objects}

theorem ffFree_mono {ptr : ℕ} {r : Objects} (hrun : ffFree fuel h ptr = some r) (hle : fuel ≤ more) :
    ffFree more h ptr = some r := by
  rw [ffFree, Option.map_eq_some_iff] at hrun ⊢
  obtain ⟨c, hfree, rfl⟩ := hrun
  exact ⟨c, free_mono hfree hle, rfl⟩

theorem ffMalloc_mono {size : ℕ} {r : ℕ × Objects} (hrun : ffMalloc fuel h size = some r) (hle : fuel ≤ more) :
    ffMalloc more h size = some r := by
  rw [ffMalloc, Option.map_eq_some_iff] at hrun ⊢
  obtain ⟨q, halloc, rfl⟩ := hrun
  exact ⟨q, alloc_mono halloc hle, rfl⟩

theorem FF_Open_mono {volume : UInt8 → Fresult} {Mode : UInt8} {r : ℕ × FfError × Objects}
    (hrun : FF_Open fuel volume h Mode = some r) (hle : fuel ≤ more) : FF_Open more volume h Mode = some r := by
  rw [FF_Open, Option.bind_eq_some_iff] at hrun ⊢
  obtain ⟨q, halloc, hrun⟩ := hrun
  refine ⟨q, ffMalloc_mono halloc hle, ?_⟩
  simp only at hrun ⊢
  split at hrun
  · next hresult =>
    rw [Option.map_eq_some_iff] at hrun
    obtain ⟨h', hfree, rfl⟩ := hrun
    rw [if_pos hresult, ffFree_mono hfree hle, Option.map_some]
  · next hresult => rw [if_neg hresult, hrun]

theorem FF_Close_mono {ptr : ℕ} {r : Objects} (hrun : FF_Close fuel h ptr = some r) (hle : fuel ≤ more) :
    FF_Close more h ptr = some r := by
  rw [FF_Close] at hrun ⊢
  split at hrun
  · next hptr => rw [if_pos hptr, ffFree_mono hrun hle]
  · next hptr => rw [if_neg hptr, hrun]

/-- What has been done cannot be undone. -/
theorem ffFree_null {ptr : ℕ} {r : Objects} (hrun : ffFree fuel h ptr = some r) :
    (h.null = true → r.null = true) ∧ (ptr = 0 → r.null = true) ∧ (h.null = false → ptr ≠ 0 → r.null = false) := by
  rw [ffFree, Option.map_eq_some_iff] at hrun
  obtain ⟨c, -, rfl⟩ := hrun
  refine ⟨fun hn => ?_, fun hptr => ?_, fun hn hptr => ?_⟩
  · rw [hn, Bool.true_or]
  · rw [decide_eq_true hptr, Bool.or_true]
  · rw [hn, decide_eq_false hptr, Bool.or_false]

theorem ffMalloc_null {size : ℕ} {r : ℕ × Objects} (hrun : ffMalloc fuel h size = some r) :
    r.2.null = h.null := by
  rw [ffMalloc, Option.map_eq_some_iff] at hrun
  obtain ⟨q, -, rfl⟩ := hrun
  rfl

theorem FF_Open_null {volume : UInt8 → Fresult} {Mode : UInt8} {r : ℕ × FfError × Objects}
    (hrun : FF_Open fuel volume h Mode = some r) (hn : h.null = true) : r.2.2.null = true := by
  rw [FF_Open, Option.bind_eq_some_iff] at hrun
  obtain ⟨q, halloc, hrun⟩ := hrun
  rw [← ffMalloc_null halloc] at hn
  simp only at hrun
  split at hrun
  · rw [Option.map_eq_some_iff] at hrun
    obtain ⟨h', hfree, rfl⟩ := hrun
    exact (ffFree_null hfree).1 hn
  · rw [← Option.some.inj hrun]
    exact hn

theorem FF_Close_null {ptr : ℕ} {r : Objects} (hrun : FF_Close fuel h ptr = some r) (hn : h.null = true) :
    r.null = true := by
  rw [FF_Close] at hrun
  split at hrun
  · exact (ffFree_null hrun).1 hn
  · rw [← Option.some.inj hrun]
    exact hn

/-- Without an object the header in front of NULL is used. -/
theorem Orderly.FF_Open_none (ho : Orderly ff_heap h.context S live) (hs : ¬Spare h.context S)
    {volume : UInt8 → Fresult} {Mode : UInt8} {r : ℕ × FfError × Objects}
    (hrun : FF_Open fuel volume h Mode = some r) : r.2.2.null = true := by
  rw [FF_Open, Option.bind_eq_some_iff] at hrun
  obtain ⟨q, halloc, hrun⟩ := hrun
  rw [ffMalloc, Option.map_eq_some_iff] at halloc
  obtain ⟨t, halloc, rfl⟩ := halloc
  have hnone := ho.alloc_none hs halloc
  simp only [f_open, if_pos hnone] at hrun
  rw [if_pos (by decide), Option.map_eq_some_iff] at hrun
  obtain ⟨h', hfree, rfl⟩ := hrun
  exact (ffFree_null hfree).2.1 hnone

/-- The heap after a call that may have opened a file: the object is a live block, or there is none. -/
def Held (ff_heap : ℕ) (live : List ℕ) (p : ℕ) (h : Objects) : Prop :=
  h.null = false ∧ ((p = 0 ∧ ∃ S, Orderly ff_heap h.context S live) ∨
    p ≠ 0 ∧ ∃ S b, p = advance b 1 ∧ h.context.freeList ≠ 0 ∧ Orderly ff_heap h.context S (b :: live))

/-- With an object, the file is opened or the object is given back. -/
theorem Orderly.FF_Open_had (ho : Orderly ff_heap c S live) (hs : Spare c S) (volume : UInt8 → Fresult)
    (Mode : UInt8) : ∃ fuel r, FF_Open fuel volume ⟨c, false⟩ Mode = some r ∧
      Held ff_heap live r.1 r.2.2 ∧ (r.1 = 0 → ∃ S', Orderly ff_heap r.2.2.context S' live ∧
        Spare r.2.2.context S') := by
  obtain ⟨fuel, ⟨p, c'⟩, halloc⟩ := ho.object_ends
  have hp : p ≠ 0 := ho.alloc_some hs halloc
  obtain ⟨S', b, hb, hsize, hne, hlive⟩ := ho.alloc_live halloc hp
  have hmalloc : ∀ {more}, fuel ≤ more → ffMalloc more ⟨c, false⟩ sizeofFIL = some (p, ⟨c', false⟩) :=
    fun hle => ffMalloc_mono (by rw [ffMalloc, halloc, Option.map_some]) hle
  by_cases hresult : volume (openMode Mode) = .ok
  · refine ⟨fuel, (p, mapError .ok, ⟨c', false⟩), ?_, ⟨rfl, Or.inr ⟨hp, S', b, hb, hne, hlive⟩⟩,
      fun h0 => absurd h0 hp⟩
    rw [FF_Open, hmalloc (le_refl _), Option.bind_some]
    simp only [f_open, if_neg hp, hresult]
    exact if_neg (fun hne => hne rfl)
  · have hsound := hlive.sound
    rw [start_of_ne hne] at hsound
    obtain ⟨fuel₂, c'', hfree⟩ := hsound.heap.free_ends List.mem_cons_self
    obtain ⟨S'', hback, hspare⟩ := hlive.freed hne hfree
    have hclear : ffFree (max fuel fuel₂) ⟨c', false⟩ p = some ⟨c'', false⟩ := by
      rw [ffFree, hb, free_mono hfree (Nat.le_max_right _ _), Option.map_some, ← hb, decide_eq_false hp]
      rfl
    refine ⟨max fuel fuel₂, (0, mapError (volume (openMode Mode)), ⟨c'', false⟩), ?_,
      ⟨rfl, Or.inl ⟨rfl, S'', hback⟩⟩, fun _ => ⟨S'', hback, hspare hsize⟩⟩
    rw [FF_Open, hmalloc (Nat.le_max_left _ _), Option.bind_some]
    simp only [f_open, if_neg hp]
    rw [if_pos hresult, hclear, Option.map_some]

/-! ### `FileIO_FCh_Insert` -/

variable {sizes : DescSizes} {a : Answers} {driver : UInt8} {path : List UInt8}

theorem openSource_mono {r : UInt8 × ℕ × Objects} (hrun : openSource fuel a path h = some r)
    (hle : fuel ≤ more) : openSource more a path h = some r := by
  rw [openSource] at hrun ⊢
  split at hrun
  · next hspecial => rw [if_pos hspecial, hrun]
  · next hspecial =>
    rw [Option.bind_eq_some_iff] at hrun
    obtain ⟨q, hopen, hrun⟩ := hrun
    rw [if_neg hspecial, FF_Open_mono hopen hle, Option.bind_some]
    split at hrun
    · next hfile => rw [if_pos hfile, hrun]
    · next hfile =>
      rw [Option.map_eq_some_iff] at hrun
      obtain ⟨t, hagain, rfl⟩ := hrun
      rw [if_neg hfile, FF_Open_mono hagain hle, Option.map_some]

theorem openSource_status {r : UInt8 × ℕ × Objects} (hrun : openSource fuel a path h = some r) :
    r.1 &&& statInserted = 0 := by
  have hnone : (0 : UInt8) &&& statInserted = 0 := by decide
  rw [openSource] at hrun
  split at hrun
  · rw [← Option.some.inj hrun]
    exact hnone
  · rw [Option.bind_eq_some_iff] at hrun
    obtain ⟨q, -, hrun⟩ := hrun
    split at hrun
    · rw [← Option.some.inj hrun]
      exact hnone
    · rw [Option.map_eq_some_iff] at hrun
      obtain ⟨t, -, rfl⟩ := hrun
      show statReadonly &&& statInserted = 0
      decide

theorem Orderly.openSource_none (ho : Orderly ff_heap h.context S live) (hs : ¬Spare h.context S)
    (hspecial : special path = []) {r : UInt8 × ℕ × Objects} (hrun : openSource fuel a path h = some r) :
    r.2.2.null = true := by
  rw [openSource, if_neg (not_not.mpr hspecial), Option.bind_eq_some_iff] at hrun
  obtain ⟨q, hopen, hrun⟩ := hrun
  have hnull := ho.FF_Open_none hs hopen
  split at hrun
  · rw [← Option.some.inj hrun]
    exact hnull
  · rw [Option.map_eq_some_iff] at hrun
    obtain ⟨t, hagain, rfl⟩ := hrun
    exact FF_Open_null hagain hnull

theorem Orderly.openSource_had (ho : Orderly ff_heap c S live) (hs : special path ≠ [] ∨ Spare c S)
    (a : Answers) : ∃ fuel r, openSource fuel a path ⟨c, false⟩ = some r ∧ Held ff_heap live r.2.1 r.2.2 := by
  by_cases hspecial : special path ≠ []
  · exact ⟨0, (0, 0, ⟨c, false⟩), if_pos hspecial, rfl, Or.inl ⟨rfl, S, ho⟩⟩
  obtain ⟨fuel, r, hopen, hheld, hback⟩ :=
    ho.FF_Open_had (hs.resolve_left hspecial) a.volume (ffModeRead ||| ffModeWrite)
  by_cases hfile : r.1 ≠ 0
  · refine ⟨fuel, (0, r.1, r.2.2), ?_, hheld⟩
    rw [openSource, if_neg hspecial, hopen, Option.bind_some]
    exact if_pos hfile
  · obtain ⟨S', horderly, hspare⟩ := hback (not_not.mp hfile)
    obtain ⟨p, e, ⟨c', null⟩⟩ := r
    obtain ⟨rfl, -⟩ := hheld
    obtain ⟨fuel₂, t, hagain, hheld, -⟩ := horderly.FF_Open_had hspare a.volume ffModeRead
    refine ⟨max fuel fuel₂, (statReadonly, t.1, t.2.2), ?_, hheld⟩
    rw [openSource, if_neg hspecial, FF_Open_mono hopen (Nat.le_max_left _ _), Option.bind_some]
    simp only
    rw [if_neg hfile, FF_Open_mono hagain (Nat.le_max_right _ _), Option.map_some]

/-- A file that has been opened can be closed. -/
theorem Held.close {p : ℕ} (hheld : Held ff_heap live p h) :
    ∃ fuel h', FF_Close fuel h p = some h' ∧ h'.null = false ∧ Intact ff_heap h'.context := by
  obtain ⟨hnull, ⟨rfl, S, ho⟩ | ⟨hp, S, b, rfl, hne, hlive⟩⟩ := hheld
  · exact ⟨0, h, if_neg (not_not.mpr rfl), hnull, S, live, ho⟩
  · have hsound := hlive.sound
    rw [start_of_ne hne] at hsound
    obtain ⟨fuel, c', hfree⟩ := hsound.heap.free_ends List.mem_cons_self
    obtain ⟨S', hback, -⟩ := hlive.freed hne hfree
    have hclose : ffFree fuel h (advance b 1) = some ⟨c', h.null || decide (advance b 1 = 0)⟩ := by
      rw [ffFree, hfree, Option.map_some]
    exact ⟨fuel, _, (if_pos hp).trans hclose, (ffFree_null hclose).2.2 hnull hp, S', live, hback⟩

theorem calloc_mono {β : Type} {c : Context β} {num size : ℕ} {r : ℕ × Context β}
    (hrun : calloc fuel c num size = some r) (hle : fuel ≤ more) : calloc more c num size = some r := by
  rw [calloc, Option.map_eq_some_iff] at hrun ⊢
  obtain ⟨q, halloc, hrun⟩ := hrun
  exact ⟨q, alloc_mono halloc hle, hrun⟩

/-- A driver that gets no descriptor refuses. -/
theorem insertInit_none {c c' : Context β} (hknown : known driver = true)
    (hcalloc : calloc fuel c 1 (sizes.size driver) = some (0, c')) (hle : fuel ≤ more) (status : UInt8)
    (fSource : ℕ) : insertInit more sizes a driver status fSource c = some (0, none, c') := by
  rw [insertInit, if_pos hknown, calloc_mono hcalloc hle, Option.map_some]
  rfl

/-- Without an object, an insert uses the header in front of NULL. -/
theorem Orderly.insert_none {s : Heaps β} (ho : Orderly ff_heap s.files.context S live)
    (hs : ¬Spare s.files.context S) (hspecial : special path = []) {r : Fch × Heaps β}
    (hrun : insert fuel sizes a driver path s = some r) : r.2.files.null = true := by
  rw [insert, Option.bind_eq_some_iff] at hrun
  obtain ⟨q, hopen, hrun⟩ := hrun
  have hnull := ho.openSource_none hs hspecial hopen
  split at hrun
  · rw [← Option.some.inj hrun]
    exact hnull
  · rw [Option.bind_eq_some_iff] at hrun
    obtain ⟨t, -, hrun⟩ := hrun
    split at hrun
    · rw [← Option.some.inj hrun]
      exact hnull
    · rw [Option.bind_eq_some_iff] at hrun
      obtain ⟨files, hclose, hrun⟩ := hrun
      rw [Option.map_eq_some_iff] at hrun
      obtain ⟨descs, -, rfl⟩ := hrun
      exact FF_Close_null hclose hnull

/-- With an object and without a descriptor, an insert gives back what it has. -/
theorem Orderly.insert_had {bound : β → ℕ} {descs : Context β} (ho : Orderly ff_heap c S live)
    (hs : special path ≠ [] ∨ Spare c S) {S₂ : Finset ℕ} {live₂ : List ℕ}
    (hdescs : Sound bound (start descs) S₂ live₂) (hnone : NoDescriptor sizes driver descs) :
    InsertSurvives ff_heap bound sizes a driver path ⟨⟨c, false⟩, descs⟩ := by
  obtain ⟨hknown, fuel₂, descs', hcalloc⟩ := hnone
  obtain ⟨fuel, q, hopen, hheld⟩ := ho.openSource_had hs a
  obtain ⟨fuel₃, files, hclose, hclear, hintact⟩ := hheld.close
  have hstatus := openSource_status hopen
  by_cases hgone : special path = [] ∧ q.2.1 = 0
  · refine ⟨fuel, (⟨q.1, 0, 0, []⟩, ⟨q.2.2, descs⟩), ?_, hstatus, hheld.1, ?_, S₂, live₂, hdescs⟩
    · rw [insert, hopen, Option.bind_some, if_pos hgone]
    · obtain ⟨-, ⟨-, S', horderly⟩ | ⟨hp, -⟩⟩ := hheld
      · exact ⟨S', live, horderly⟩
      · exact absurd hgone.2 hp
  · have hserved := calloc_served hdescs (by rw [Nat.one_mul]; exact sizes.pos driver)
      (by rw [Nat.one_mul]; exact sizes.le driver) hcalloc
    rw [Served, if_pos rfl] at hserved
    obtain ⟨S', hsound, -⟩ := hserved
    refine ⟨max fuel (max fuel₂ fuel₃), (⟨q.1, q.2.1, 0, []⟩, ⟨files, descs'⟩), ?_, hstatus, hclear, hintact,
      S', live₂, ?_⟩
    · rw [insert, openSource_mono hopen (by omega), Option.bind_some, if_neg hgone,
        insertInit_none hknown hcalloc (by omega), Option.bind_some]
      simp only
      rw [FF_Close_mono hclose (by omega), Option.bind_some]
      rfl
    · rwa [start_of_ne hsound.heap.freeList_pos]

/-! ### From the start on -/

/-- The array lies at a word, apart from the context. -/
theorem ffSbrk_areas {root : ℕ} (hal : ff_heap % headerAlign = 0) (hpos : 0 < ff_heap)
    (hlt : ff_heap + ffHeapBytes < 4294967296)
    (hapart : ff_heap + ffHeapBytes ≤ root - 8 ∨ root + 12 ≤ ff_heap) :
    Areas root (ffSbrk ff_heap) (ffEnd ff_heap) := by
  have hgiven : ∀ {init n}, (ffSbrk ff_heap init n).1 ≠ noMemory → init = false ∧ n ≤ ffHeapBytes ∧
      ffSbrk ff_heap init n = (ff_heap, true) := by
    intro init n h
    rw [ffSbrk] at h ⊢
    cases init with
    | true => exact absurd rfl h
    | false =>
      rw [if_neg Bool.false_ne_true] at h ⊢
      by_cases hn : ffHeapBytes < n
      · rw [if_pos hn] at h
        exact absurd rfl h
      · exact ⟨rfl, Nat.le_of_not_lt hn, if_neg hn⟩
  exact
    { grows := fun init n => by
        cases init with
        | true => exact le_refl _
        | false =>
          rw [ffSbrk, if_neg Bool.false_ne_true]
          split
          · exact le_refl _
          · exact Nat.le_add_right _ _
      increasing := fun init n h => by
        obtain ⟨rfl, hn, heq⟩ := hgiven h
        rw [heq]
        exact ⟨le_refl _, Nat.add_le_add_left hn _⟩
      aligned := fun init n h => by
        obtain ⟨-, -, heq⟩ := hgiven h
        rw [heq]
        exact hal
      nonnull := fun init n h => by
        obtain ⟨-, -, heq⟩ := hgiven h
        rw [heq]
        exact hpos
      fits := fun init n h => by
        obtain ⟨-, hn, heq⟩ := hgiven h
        rw [heq]
        show ff_heap + n < 4294967296
        omega
      apart := fun init n h => by
        obtain ⟨-, hn, heq⟩ := hgiven h
        rw [heq]
        show ff_heap + n ≤ root - 8 ∨ root + 12 ≤ ff_heap
        omega }

/-- Nothing has been opened yet. -/
def unopened (ff_heap root : ℕ) (mem : ℕ → Header) : Objects where
  context :=
    { sbrkFunc := some (ffSbrk ff_heap), heapSize := 0, root := root, freeList := 0, mem := mem, brk := false }
  null := false

theorem unopened_orderly {root : ℕ} (mem : ℕ → Header) (hroot : 8 ≤ root ∧ root + 12 ≤ 4294967296)
    (hareas : Areas root (ffSbrk ff_heap) (ffEnd ff_heap)) (hfits : ff_heap + ffHeapBytes < 4294967296) :
    Orderly ff_heap (unopened ff_heap root mem).context {root} [] where
  sbrkFunc := rfl
  fits := hfits
  sound := Fresh.start
    { freeList := rfl
      heapSize := rfl
      live := rfl
      root_fits := hroot
      areas := fun sbrkFunc hs => by
        obtain rfl := Option.some.inj hs
        exact hareas }

/-- Files are opened one after the other. -/
def openFiles (fuel : ℕ) (volume : UInt8 → Fresult) : List UInt8 → Objects → Option Objects
  | [], h => some h
  | Mode :: modes, h => (FF_Open fuel volume h Mode).bind fun r => openFiles fuel volume modes r.2.2

theorem openFiles_null {volume : UInt8 → Fresult} : ∀ {modes : List UInt8} {h h' : Objects},
    openFiles fuel volume modes h = some h' → h.null = true → h'.null = true
  | [], h, h', hrun, hn => by
    rw [← Option.some.inj hrun]
    exact hn
  | Mode :: modes, h, h', hrun, hn => by
    rw [openFiles, Option.bind_eq_some_iff] at hrun
    obtain ⟨r, hopen, hrun⟩ := hrun
    exact openFiles_null hrun (FF_Open_null hopen hn)

/-- An `FF_Open` that uses no header in front of NULL leaves the heap in order. -/
theorem FF_Open_intact {volume : UInt8 → Fresult} {Mode : UInt8} {r : ℕ × FfError × Objects}
    (hi : Intact ff_heap h.context) (hrun : FF_Open fuel volume h Mode = some r) (hn : r.2.2.null = false) :
    Intact ff_heap r.2.2.context := by
  obtain ⟨S, live, ho⟩ := hi
  rw [FF_Open, Option.bind_eq_some_iff] at hrun
  obtain ⟨q, hmalloc, hrun⟩ := hrun
  rw [ffMalloc, Option.map_eq_some_iff] at hmalloc
  obtain ⟨t, halloc, rfl⟩ := hmalloc
  obtain ⟨p, c'⟩ := t
  simp only at hrun
  split at hrun
  · rw [Option.map_eq_some_iff] at hrun
    obtain ⟨h', hfree, rfl⟩ := hrun
    have hp : p ≠ 0 := by
      intro hp
      rw [(ffFree_null hfree).2.1 hp] at hn
      exact absurd hn (by decide)
    obtain ⟨S', b, rfl, -, hne, hlive⟩ := ho.alloc_live halloc hp
    rw [ffFree, Option.map_eq_some_iff] at hfree
    obtain ⟨c'', hfree, rfl⟩ := hfree
    obtain ⟨S'', hback, -⟩ := hlive.freed hne hfree
    exact ⟨S'', live, hback⟩
  · next hresult =>
    have hp : p ≠ 0 := by
      intro hp
      rw [f_open, if_pos hp] at hresult
      exact hresult (by decide)
    obtain ⟨S', b, -, -, -, hlive⟩ := ho.alloc_live halloc hp
    rw [← Option.some.inj hrun]
    exact ⟨S', b :: live, hlive⟩

theorem openFiles_intact {volume : UInt8 → Fresult} : ∀ {modes : List UInt8} {h h' : Objects},
    Intact ff_heap h.context → openFiles fuel volume modes h = some h' → h'.null = false →
      Intact ff_heap h'.context
  | [], h, h', hi, hrun, _ => by
    rw [← Option.some.inj hrun]
    exact hi
  | Mode :: modes, h, h', hi, hrun, hn => by
    rw [openFiles, Option.bind_eq_some_iff] at hrun
    obtain ⟨r, hopen, hrun⟩ := hrun
    have hclear : r.2.2.null = false := by
      by_contra hnull
      rw [openFiles_null hrun (eq_true_of_ne_false hnull)] at hn
      exact absurd hn (by decide)
    exact openFiles_intact (FF_Open_intact hi hopen hclear) hrun hn

theorem unopened_intact : Intact 0x00201000 (unopened 0x00201000 0x00203000 fun _ => ⟨0, 0⟩).context :=
  ⟨_, _, unopened_orderly _ (by decide) (ffSbrk_areas (by decide) (by decide) (by decide) (by decide)) (by decide)⟩

/-! ### What survives -/

/-- What an allocation that fails does: an `FF_Open` survives it never, and an insert if what it does not
    get is a descriptor; the object for its file, where the path names one, must be there. -/
theorem failure_survived_iff {bound : β → ℕ} {descs : Context β} {S₂ : Finset ℕ} {live₂ : List ℕ}
    (ho : Orderly ff_heap c S live) (hdescs : Sound bound (start descs) S₂ live₂) (sizes : DescSizes)
    (a : Answers) :
    (∀ volume Mode, OpenSurvives ff_heap volume Mode c ↔ Spare c S) ∧
      ∀ driver path, (special path = [] ∧ NoObject c ∨ NoDescriptor sizes driver descs) →
        (InsertSurvives ff_heap bound sizes a driver path ⟨⟨c, false⟩, descs⟩ ↔
          special path ≠ [] ∨ Spare c S) := by
  refine ⟨fun volume Mode => ⟨fun hopen => ?_, fun hs hno => absurd hs (ho.noObject_iff.mp hno)⟩,
    fun driver path hfail => ⟨fun hinsert => ?_, fun hs => ?_⟩⟩
  · by_contra hs
    obtain ⟨fuel, r, hrun, -, -, hnull, -⟩ := hopen (ho.noObject_iff.mpr hs)
    rw [ho.FF_Open_none hs hrun] at hnull
    exact absurd hnull (by decide)
  · by_contra hs
    rw [not_or, not_not] at hs
    obtain ⟨fuel, r, hrun, -, hnull, -⟩ := hinsert
    rw [Orderly.insert_none ho hs.2 hs.1 hrun] at hnull
    exact absurd hnull (by decide)
  · refine ho.insert_had hs hdescs (hfail.resolve_left fun hno => ?_)
    rcases hs with hspecial | hspare
    · exact hspecial hno.1
    · exact ho.noObject_iff.mp hno.2 hspare

/-- Memory for descriptors has run out; the file is closed again. -/
theorem no_descriptor : InsertSurvives 0x00201000 id ⟨fun _ => 100, fun _ => by decide, fun _ => by decide⟩
    ⟨fun _ => .ok, fun _ _ _ => none⟩ 0 [0x41]
    ⟨unopened 0x00201000 0x00203000 fun _ => ⟨0, 0⟩, { (unused 0).context with brk := 65536 }⟩ := by
  have hfull : FreeList.Fresh id { (unused 0).context with brk := 65536 } [] :=
    ⟨rfl, rfl, rfl, (unused_fresh 0).root_fits, (unused_fresh 0).areas⟩
  have hnone : ((calloc 99 { (unused 0).context with brk := 65536 } 1 100).map Prod.fst) = some 0 := by
    decide +kernel
  obtain ⟨⟨p, c'⟩, hcalloc, rfl⟩ := Option.map_eq_some_iff.mp hnone
  have ho := unopened_orderly (fun _ => ⟨0, 0⟩) (by decide)
    (@ffSbrk_areas 0x00201000 0x00203000 (by decide) (by decide) (by decide) (by decide)) (by decide)
  exact ((failure_survived_iff ho hfull.start _ _).2 0 [0x41] (Or.inr ⟨by decide, 99, c', hcalloc⟩)).mpr
    (Or.inr (Or.inl rfl))

/-- Six files are open; for the seventh there is no object. -/
theorem seventh_file : ∃ h, openFiles 20 (fun _ => .ok) (List.replicate 6 ffModeRead)
      (unopened 0x00201000 0x00203000 fun _ => ⟨0, 0⟩) = some h ∧ h.null = false ∧
    Intact 0x00201000 h.context ∧ NoObject h.context ∧
    ¬OpenSurvives 0x00201000 (fun _ => .ok) ffModeRead h.context := by
  have hrun : ((openFiles 20 (fun _ => .ok) (List.replicate 6 ffModeRead)
      (unopened 0x00201000 0x00203000 fun _ => ⟨0, 0⟩)).map fun h =>
        (h.null, (alloc 20 h.context sizeofFIL).map Prod.fst)) = some (false, some 0) := by decide +kernel
  obtain ⟨h, hopen, hres⟩ := Option.map_eq_some_iff.mp hrun
  obtain ⟨hnull, halloc⟩ := Prod.mk.inj hres
  obtain ⟨⟨p, c'⟩, halloc, rfl⟩ := Option.map_eq_some_iff.mp halloc
  have hno : NoObject h.context := ⟨20, c', halloc⟩
  have hintact := openFiles_intact unopened_intact hopen hnull
  refine ⟨h, hopen, hnull, hintact, hno, fun hsurvives => ?_⟩
  obtain ⟨S, live, ho⟩ := hintact
  obtain ⟨fuel, r, hagain, -, -, hclear, -⟩ := hsurvives hno
  rw [Orderly.FF_Open_none (h := ⟨h.context, false⟩) ho (ho.noObject_iff.mp hno) hagain] at hclear
  exact absurd hclear (by decide)

end NoMemory
