import ReplayFirmware.Heap.Program

/-! What `malloc` and `calloc` give: the bytes that were asked for, or nothing.

    Sizes near the top of the address space wrap where they are rounded up, and so does the product of
    `calloc`: the block that is returned is then too small. -/

namespace FreeList
open Circle Coalesce

variable {β : Type} {bound : β → ℕ} {c c' : Context β} {S : Finset ℕ} {live : List ℕ}

/-! ### `calloc` -/

/-- A word of memory after `memset(ptr, 0, len)`. Its first byte is the lowest. -/
def clearWord (ptr len a word : ℕ) : ℕ :=
  let off := wrap (a + 4294967296 - ptr)
  if off < len then word / 256 ^ min (len - off) 4 * 256 ^ min (len - off) 4 else word

/-- `memset(ptr, 0, len)` -/
def memset0 (mem : ℕ → Header) (ptr len : ℕ) : ℕ → Header := fun x =>
  { nextPtr := clearWord ptr len x (mem x).nextPtr
    numBlocks := clearWord ptr len (wrap (x + 4)) (mem x).numBlocks }

/-- `calloc` -/
def calloc (fuel : ℕ) (context : Context β) (num size : ℕ) : Option (ℕ × Context β) :=
  let len := wrap (num * size)
  (alloc fuel context len).map fun (p, context) =>
    if p ≠ 0 then (p, { context with mem := memset0 context.mem p len }) else (p, context)

/-! ### What is asked for -/

/-- A new block with this many bytes behind its header; or nothing, and the heap as it was, but for
    memory that is added to the free list. -/
def Served (bound : β → ℕ) (bytes : ℕ) (c : Context β) (S : Finset ℕ) (live : List ℕ) (ptr : ℕ)
    (c' : Context β) : Prop :=
  if ptr = 0 then ∃ S', Sound bound c' S' live ∧ Grown (bound c.brk) c.mem c'.mem S S'
  else ∃ S' b, ptr = advance b 1 ∧ bytes + headerSize ≤ sizeOf c'.mem b ∧ Sound bound c' S' (b :: live)

/-- A call gives what was asked for with every heap, whatever memory there is. -/
def Serves (call : {β : Type} → ℕ → Context β → Option (ℕ × Context β)) (bytes : ℕ) : Prop :=
  ∀ (β : Type) (bound : β → ℕ) (c c' : Context β) (S : Finset ℕ) (live : List ℕ) (fuel ptr : ℕ),
    Sound bound (start c) S live → call fuel c = some (ptr, c') → Served bound bytes (start c) S live ptr c'

theorem blocksFor_eq (size : ℕ) (h : size ≤ 0xFFFFFFF8) : blocksFor size = (size + 7) / 8 + 1 := by
  rw [blocksFor, wrap, headerSize]
  omega

/-- Rounded up, a size that does not wrap is not less. -/
theorem blocksFor_bytes {size : ℕ} (h : size ≤ 0xFFFFFFF8) :
    size + headerSize ≤ blocksFor size * headerSize := by
  rw [blocksFor_eq _ h, headerSize]
  omega

theorem ptr_ne_zero {b : ℕ} (h : b + 8 < 4294967296) : advance b 1 ≠ 0 := by
  rw [advance, wrap, headerSize]
  omega

/-- An allocation that never moves the break by nothing gives what it was asked for. -/
theorem alloc_served {size fuel ptr : ℕ} (h : Sound bound (start c) S live)
    (hroom : Room (blocksFor size) (start c) (0 < (blocks (start c).mem S).total)) (hsize : size ≤ 0xFFFFFFF8)
    (hrun : alloc fuel c size = some (ptr, c')) : Served bound size (start c) S live ptr c' := by
  obtain ⟨S', ⟨rfl, hsound, hgrown⟩ | ⟨b, rfl, hfits, hbytes, hsound⟩⟩ :=
    h.alloc (blocksFor_pos size) hroom hrun
  · rw [Served, if_pos rfl]
    exact ⟨S', hsound, hgrown⟩
  · rw [Served, if_neg (ptr_ne_zero hfits)]
    exact ⟨S', b, rfl, by rw [hbytes]; exact blocksFor_bytes hsize, hsound⟩

/-- Two headers or more, and less than all of memory. -/
theorem room_of_size {size : ℕ} (hpos : 0 < size) (hsize : size ≤ 0xFFFFFFF0) (free : Prop) :
    Room (blocksFor size) c free := by
  have heq := blocksFor_eq size (by omega)
  exact fun _ _ => Or.inr ⟨by omega, fun hone => absurd hone (by omega)⟩

/-! ### The zeros of `calloc` -/

/-- What lies behind the cleared bytes, or before them, is not changed. -/
theorem memset0_other {mem : ℕ → Header} {ptr len x : ℕ} (hptr : ptr + len ≤ 4294967296)
    (hx : x + 8 ≤ 4294967296) (h : x + 8 ≤ ptr ∨ ptr + len ≤ x) : memset0 mem ptr len x = mem x := by
  have hword : ∀ a, a < 4294967296 → (a < ptr ∨ ptr + len ≤ a) → ∀ word, clearWord ptr len a word = word := by
    intro a ha hout word
    refine if_neg ?_
    rw [wrap]
    omega
  have hsecond : wrap (x + 4) = x + 4 := Nat.mod_eq_of_lt (by omega)
  rw [memset0, hsecond, hword x (by omega) (by omega), hword (x + 4) (by omega) (by omega)]

/-- The zeros are written into the block. -/
theorem Sound.memset0 {b len : ℕ} (h : Sound bound c S (b :: live)) (hlen : len + headerSize ≤ sizeOf c.mem b) :
    Sound bound { c with mem := memset0 c.mem (advance b 1) len } S (b :: live) ∧
      FreeList.memset0 c.mem (advance b 1) len b = c.mem b := by
  have hown := h.heap.live_owned b List.mem_cons_self
  have hfits := hown.fits
  have hptr : advance b 1 = b + 8 := Nat.mod_eq_of_lt (by rw [headerSize] at hlen ⊢; omega)
  rw [headerSize] at hlen
  have hmem : ∀ x, x + 8 ≤ 4294967296 → (x + 8 ≤ b + 8 ∨ b + sizeOf c.mem b ≤ x) →
      FreeList.memset0 c.mem (advance b 1) len x = c.mem x := by
    intro x hx hout
    rw [hptr]
    exact memset0_other (by omega) hx (by omega)
  have hsame := hmem b (by omega) (.inl le_rfl)
  refine ⟨⟨h.heap.payload (fun x hx => ?_) (fun x hx => ?_), h.size_le, h.areas⟩, hsame⟩
  · by_cases hroot : x = c.root
    · have hapart := hown.apart
      have hroot' := h.heap.root_fits
      exact hmem x (by omega) (by omega)
    · have hnode := h.heap.owned x hx hroot
      have hpos := hnode.pos
      have hclear := h.heap.clear_of hx List.mem_cons_self
      have hxfits := hnode.fits
      have hsize : sizeOf c.mem x = (c.mem x).numBlocks * 8 := rfl
      exact hmem x (by omega) (by omega)
  · rcases List.mem_cons.mp hx with rfl | hlive
    · exact hsame
    · have hother := h.heap.live_owned x hx
      have hpos := hother.pos
      have hfits' := hother.fits
      have hapart := (List.pairwise_cons.mp h.heap.live_apart).1 x hlive
      have hsize : sizeOf c.mem x = (c.mem x).numBlocks * 8 := rfl
      exact hmem x (by omega) (by omega)

theorem calloc_served {num size fuel ptr : ℕ} (h : Sound bound (start c) S live) (hpos : 0 < num * size)
    (hsize : num * size ≤ 0xFFFFFFF0) (hrun : calloc fuel c num size = some (ptr, c')) :
    Served bound (num * size) (start c) S live ptr c' := by
  have hlen : wrap (num * size) = num * size := Nat.mod_eq_of_lt (by omega)
  rw [calloc, hlen, Option.map_eq_some_iff] at hrun
  obtain ⟨⟨p, c₁⟩, halloc, hres⟩ := hrun
  have hserved := alloc_served h (room_of_size hpos hsize _) (by omega) halloc
  by_cases hp : p = 0
  · simp only [hp, ne_eq, not_true, if_false, Prod.mk.injEq] at hres
    obtain ⟨rfl, rfl⟩ := hres
    rwa [hp] at hserved
  · simp only [if_pos hp, Prod.mk.injEq] at hres
    obtain ⟨rfl, rfl⟩ := hres
    rw [Served, if_neg hp] at hserved ⊢
    obtain ⟨S', b, rfl, hbytes, hsound⟩ := hserved
    obtain ⟨hsound', hsame⟩ := hsound.memset0 hbytes
    refine ⟨S', b, rfl, ?_, hsound'⟩
    have hsize' : sizeOf (FreeList.memset0 c₁.mem (advance b 1) (num * size)) b = sizeOf c₁.mem b := by
      rw [sizeOf, hsame, sizeOf]
    exact hbytes.trans hsize'.symm.le

/-! ### What no heap can give -/

/-- A block lies between address 8 and the top of memory, beside the context. -/
theorem Owned.size_le {root top b n : ℕ} (h : Owned root top b n) (hroot : 8 ≤ root ∧ root + 12 ≤ 4294967296)
    (hn : n % headerSize = 0) : n + 24 ≤ 4294967296 := by
  have h1 := h.pos
  have h2 := h.fits
  have h3 := h.apart
  have h4 := h.aligned
  have h5 := h.nonnull
  rw [headerAlign] at h4
  rw [headerSize] at hn
  omega

/-- A pointer is returned for few enough bytes only. -/
theorem Served.le {bytes ptr : ℕ} (h : Served bound bytes c S live ptr c') (hptr : ptr ≠ 0) :
    bytes ≤ 0xFFFFFFE0 := by
  rw [Served, if_neg hptr] at h
  obtain ⟨S', b, -, hbytes, hsound⟩ := h
  have hle := (hsound.heap.live_owned b List.mem_cons_self).size_le hsound.heap.root_fits
    (Nat.mul_mod_left _ _)
  rw [headerSize] at hbytes
  omega

/-- Pointer 8 would be a block at address 0. -/
theorem not_served_eight {bytes : ℕ} : ¬Served bound bytes c S live 8 c' := by
  intro h
  rw [Served, if_neg (by decide)] at h
  obtain ⟨S', b, hptr, -, hsound⟩ := h
  have hfits := hsound.heap.ptr_fits List.mem_cons_self
  have hpos := (hsound.heap.live_owned b List.mem_cons_self).nonnull
  rw [advance, wrap, headerSize] at hptr
  omega

/-! ### Heaps to try -/

/-- A heap with one free block. -/
def single (numBlocks : ℕ) : Context Unit where
  sbrkFunc := none
  heapSize := numBlocks * headerSize
  root := 8
  freeList := 8
  mem := Function.update (Function.update (fun _ => { nextPtr := 0, numBlocks := 0 }) 8
    { nextPtr := 20, numBlocks := 0 }) 20 { nextPtr := 8, numBlocks := numBlocks }
  brk := ()

theorem single_sound {n : ℕ} (hpos : 0 < n) (hn : n + 3 ≤ 536870912) :
    Sound (fun _ => 20 + n * headerSize) (start (single n)) {8, 20} [] := by
  have hsize : sizeOf (single n).mem 20 = n * 8 := rfl
  have hroot : sizeOf (single n).mem 8 = 0 := rfl
  have hmem : ∀ x, x ∈ ({8, 20} : Finset ℕ) → x = 8 ∨ x = 20 := fun x hx => by simpa using hx
  have hnext8 : Next ({8, 20} : Finset ℕ) 8 20 := ⟨by decide, .inl ⟨by decide, by decide⟩⟩
  have hnext20 : Next ({8, 20} : Finset ℕ) 20 8 := ⟨by decide, .inr ⟨by decide, by decide⟩⟩
  have hapart : 8 + 0 ≤ 20 ∧ (8 + 0 = 20 → 8 ∈ (∅ : Finset ℕ)) := by decide
  refine ⟨?_, Nat.le_add_left _ _, fun f hf => nomatch hf⟩
  exact
    { root_mem := Finset.mem_insert_self 8 {20}
      root_empty := rfl
      root_fits := (by decide : 8 ≤ 8 ∧ 8 + 12 ≤ 4294967296)
      freeList_mem := Finset.mem_insert_self 8 {20}
      spaced := by
        refine ⟨fun x hx => ?_, fun x hx y hy hxy => ?_⟩
        · rcases hmem x hx with rfl | rfl
          · exact hnext8
          · exact hnext20
        · rcases hmem x hx with rfl | rfl <;> rcases hmem y hy with rfl | rfl
          · omega
          · exact hapart
          · omega
          · omega
      owned := fun x hx hne => by
        rcases hmem x hx with rfl | rfl
        · exact absurd rfl hne
        · show Owned 8 _ 20 (sizeOf (single n).mem 20)
          rw [hsize]
          exact ⟨by omega, by decide, by decide, le_rfl, by omega, .inr (by decide)⟩
      live_owned := fun b hb => absurd hb List.not_mem_nil
      clear := fun b hb => absurd hb List.not_mem_nil
      live_apart := List.Pairwise.nil
      adds_up := by
        show ∑ x ∈ {8, 20}, sizeOf (single n).mem x + 0 = n * headerSize
        rw [Finset.sum_insert (by decide), Finset.sum_singleton, hroot, hsize, headerSize]
        omega }

theorem single_alloc (size : ℕ) :
    ∃ c', alloc 1 (single (blocksFor size)) size = some (28, c') := by
  have hfits : ((single (blocksFor size)).mem 20).numBlocks = blocksFor size := rfl
  rw [alloc, show start (single (blocksFor size)) = single (blocksFor size) from rfl,
    show ((single (blocksFor size)).mem (single (blocksFor size)).freeList).nextPtr = 20 from rfl, search]
  simp only [hfits, ge_iff_le, le_refl, if_true]
  exact ⟨_, rfl⟩

/-- A heap without memory that could be had: the break is at the end. -/
def exhausted : Context ℕ := { (unused 1).context with brk := 65528 }

theorem exhausted_sound : Sound id (start exhausted) {8200} [] :=
  Fresh.start (c := exhausted) ⟨rfl, rfl, rfl, (unused_fresh 1).root_fits, (unused_fresh 1).areas⟩

theorem exhausted_alloc : ∃ c', alloc 1100 exhausted 0 = some (8, c') := by
  have hptr : (alloc 1100 exhausted 0).map Prod.fst = some 8 := by decide +kernel
  obtain ⟨⟨p, c'⟩, hrun, rfl⟩ := Option.map_eq_some_iff.mp hptr
  exact ⟨c', hrun⟩

/-- All of memory is taken for nothing. -/
theorem overflow_alloc {size : ℕ} (hsize : 0xFFFFFFF1 ≤ size) (hle : size ≤ 0xFFFFFFF8) :
    ∃ c', alloc 9 (unused 536870912).context size = some (8, c') := by
  have hn : blocksFor size = 536870912 := by
    rw [blocksFor_eq _ hle]
    omega
  have hptr : (search 536870912 9 (start (unused 536870912).context) 8200 8200).map Prod.fst = some 8 := by
    decide
  obtain ⟨⟨p, c'⟩, hrun, rfl⟩ := Option.map_eq_some_iff.mp hptr
  refine ⟨c', ?_⟩
  rw [alloc, hn]
  exact hrun

/-! ### For which sizes -/

/-- But for the sizes that only just fit the address space, some heap returns a pointer. -/
theorem alloc_returns (size : ℕ) (hsize : size ≤ 0xFFFFFFFF)
    (hout : ¬(0xFFFFFFE0 < size ∧ size ≤ 0xFFFFFFF0)) :
    ∃ (β : Type) (bound : β → ℕ) (c c' : Context β) (S : Finset ℕ) (live : List ℕ) (fuel ptr : ℕ),
      Sound bound (start c) S live ∧ alloc fuel c size = some (ptr, c') ∧ ptr ≠ 0 := by
  by_cases hover : 0xFFFFFFF1 ≤ size ∧ size ≤ 0xFFFFFFF8
  · obtain ⟨c', hrun⟩ := overflow_alloc hover.1 hover.2
    exact ⟨ℕ, id, (unused 536870912).context, c', _, _, 9, 8, (unused_fresh 536870912).start, hrun, by decide⟩
  · obtain ⟨c', hrun⟩ := single_alloc size
    refine ⟨Unit, _, single (blocksFor size), c', _, _, 1, 28, single_sound (blocksFor_pos size) ?_, hrun,
      by decide⟩
    rw [blocksFor, wrap, headerSize]
    omega

/-- `FreeList_Alloc` gives what is asked for with every heap, for all sizes but 0 and those that need all
    of memory. -/
theorem alloc_serves_iff {size : ℕ} (hsize : size ≤ 0xFFFFFFFF) :
    Serves (fun fuel c => alloc fuel c size) size ↔ 0 < size ∧ size ≤ 0xFFFFFFF0 := by
  constructor
  · intro h
    refine ⟨Nat.pos_of_ne_zero ?_, Nat.le_of_not_lt fun hlarge => ?_⟩
    · rintro rfl
      obtain ⟨c', hrun⟩ := exhausted_alloc
      exact not_served_eight (h ℕ id exhausted c' _ _ 1100 8 exhausted_sound hrun)
    · obtain ⟨β, bound, c, c', S, live, fuel, ptr, hsound, hrun, hptr⟩ := alloc_returns _ hsize (by omega)
      have := (h β bound c c' S live fuel ptr hsound hrun).le hptr
      omega
  · rintro ⟨hpos, hle⟩ β bound c c' S live fuel ptr hsound hrun
    exact alloc_served hsound (room_of_size hpos hle _) (by omega) hrun

/-- So does `calloc`, where the product does not wrap; where it does, it has to be so large that there
    is nothing to return. -/
theorem calloc_serves_iff {num size : ℕ} :
    Serves (fun fuel c => calloc fuel c num size) (num * size) ↔
      (0 < num * size ∧ num * size ≤ 0xFFFFFFF0) ∨
        (0xFFFFFFFF < num * size ∧ 0xFFFFFFE0 < wrap (num * size) ∧ wrap (num * size) ≤ 0xFFFFFFF0) := by
  have hlt : wrap (num * size) < 4294967296 := Nat.mod_lt _ (by decide)
  have hreturns : ∀ {β : Type} {fuel ptr : ℕ} {c c' : Context β},
      alloc fuel c (wrap (num * size)) = some (ptr, c') → ∃ c'', calloc fuel c num size = some (ptr, c'') := by
    intro β fuel ptr c c' hrun
    unfold calloc
    simp only [hrun, Option.map_some]
    by_cases hptr : ptr = 0
    · rw [if_neg (not_not_intro hptr)]
      exact ⟨_, rfl⟩
    · rw [if_pos hptr]
      exact ⟨_, rfl⟩
  constructor
  · intro h
    by_cases hzero : num * size = 0
    · obtain ⟨c', hrun⟩ := exhausted_alloc
      obtain ⟨c'', hrun'⟩ := hreturns (c := exhausted) (by rw [hzero]; exact hrun)
      exact absurd (h ℕ id exhausted c'' _ _ 1100 8 exhausted_sound hrun') not_served_eight
    by_contra hcond
    obtain ⟨β, bound, c, c', S, live, fuel, ptr, hsound, hrun, hptr⟩ :=
      alloc_returns (wrap (num * size)) (by omega) (fun hin => hcond (by
        by_cases hwrap : num * size < 4294967296
        · rw [wrap, Nat.mod_eq_of_lt hwrap] at hin
          exact .inl ⟨by omega, by omega⟩
        · exact .inr ⟨by omega, hin⟩))
    obtain ⟨c'', hrun'⟩ := hreturns hrun
    have hle := (h β bound c c'' S live fuel ptr hsound hrun').le hptr
    exact hcond (.inl ⟨by omega, by omega⟩)
  · rintro (⟨hpos, hle⟩ | ⟨-, hlarge, hle⟩) β bound c c' S live fuel ptr hsound hrun
    · exact calloc_served hsound hpos hle hrun
    · simp only [calloc, Option.map_eq_some_iff] at hrun
      obtain ⟨⟨p, c₁⟩, halloc, hres⟩ := hrun
      have hserved := alloc_served hsound (room_of_size (by omega) hle _) (by omega) halloc
      have hp : p = 0 := by
        by_contra hp
        have := hserved.le hp
        omega
      simp only [hp, ne_eq, not_true, if_false, Prod.mk.injEq] at hres
      obtain ⟨rfl, rfl⟩ := hres
      rw [Served, if_pos hp] at hserved
      rwa [Served, if_pos rfl]

/-- What `FreeList_Alloc` and `calloc` give: with every heap for the sizes above; and for any size that
    is not rounded up to nothing, with each heap that never has to move its break by nothing. -/
theorem allocs_serve (num size : UInt32) :
    (Serves (fun fuel c => alloc fuel c size.toNat) size.toNat ↔
      0 < size.toNat ∧ size.toNat ≤ 0xFFFFFFF0) ∧
    (Serves (fun fuel c => calloc fuel c num.toNat size.toNat) (num.toNat * size.toNat) ↔
      (0 < num.toNat * size.toNat ∧ num.toNat * size.toNat ≤ 0xFFFFFFF0) ∨
        (0xFFFFFFFF < num.toNat * size.toNat ∧ 0xFFFFFFE0 < wrap (num.toNat * size.toNat) ∧
          wrap (num.toNat * size.toNat) ≤ 0xFFFFFFF0)) ∧
    (size.toNat ≤ 0xFFFFFFF8 → ∀ (β : Type) (bound : β → ℕ) (c c' : Context β) (S : Finset ℕ)
      (live : List ℕ) (fuel ptr : ℕ), Sound bound (start c) S live →
      Room (blocksFor size.toNat) (start c) (0 < (blocks (start c).mem S).total) →
      alloc fuel c size.toNat = some (ptr, c') → Served bound size.toNat (start c) S live ptr c') :=
  ⟨alloc_serves_iff (Nat.le_of_lt_succ size.toNat_lt), calloc_serves_iff,
    fun hle _ _ _ _ _ _ _ _ hsound hroom hrun => alloc_served hsound hroom hle hrun⟩

/-- A size near the top of the address space is given a block without a byte. -/
theorem top_unserved : ¬∀ size : UInt32, Serves (fun fuel c => alloc fuel c size.toNat) size.toNat := by
  intro h
  obtain ⟨c', hrun⟩ := single_alloc 0xFFFFFFFC
  have hserved := h 0xFFFFFFFC Unit _ _ c' _ _ 1 28 (single_sound (blocksFor_pos 0xFFFFFFFC) (by decide)) hrun
  exact absurd (hserved.le (by decide)) (by decide)

end FreeList
