import ReplayFirmware.Heap.Alloc
import Mathlib.Algebra.Order.Ring.Nat

/-! Programs that allocate and free: the heap stays in order through every run of them, as long as the
    break is never moved by nothing. -/

namespace FreeList
open Circle Coalesce

variable {β : Type} {bound : β → ℕ}

/-- The heap with its nodes, in order, accounting for all that it has got. -/
structure Sound (bound : β → ℕ) (c : Context β) (S : Finset ℕ) (live : List ℕ) : Prop where
  heap : Heap (bound c.brk) c S live c.heapSize
  size_le : c.heapSize ≤ bound c.brk
  areas : ∀ sbrkFunc, c.sbrkFunc = some sbrkFunc → Areas c.root sbrkFunc bound

/-- The search for `n` headers never moves the break by nothing: that is refused, or `n` headers are less
    than all of memory, and for a single one there is a free block, or some memory is still to be had. -/
def Room (n : ℕ) (c : Context β) (free : Prop) : Prop :=
  ∀ sbrkFunc, c.sbrkFunc = some sbrkFunc → (∀ brk, (sbrkFunc brk 0).1 = noMemory) ∨
    n < 536870912 ∧ (n = 1 → free ∨ Granted sbrkFunc requests c.brk)

variable {c : Context β} {S : Finset ℕ} {live : List ℕ} {p : ℕ}

/-- Once all nodes have been seen to be empty, no block is free. -/
theorem total_eq_zero {mem : ℕ → Header} {start : ℕ} (hstart : (mem start).numBlocks < 1)
    (hseen : ∀ x ∈ S, Between start x start → (mem x).numBlocks < 1) : (blocks mem S).total = 0 := by
  refine Finset.sum_eq_zero fun x hx => ?_
  have hx0 : (mem x).numBlocks < 1 := by
    by_cases hxs : x = start
    · rw [hxs]
      exact hstart
    · exact hseen x hx (between_self hxs)
  show (mem x).numBlocks * headerSize = 0
  rw [Nat.lt_one_iff.mp hx0, Nat.zero_mul]

/-- The bound of the heap may move up. -/
theorem Heap.mono {top top' total : ℕ} (h : Heap top c S live total) (hle : top ≤ top') {brk : β} :
    Heap top' { c with brk := brk } S live total :=
  ⟨h.root_mem, h.root_empty, h.root_fits, h.freeList_mem, h.spaced,
    fun p hp hpr => (h.owned p hp hpr).mono hle, fun b hb => (h.live_owned b hb).mono hle, h.clear,
    h.live_apart, h.adds_up⟩

/-- An area that the break gives becomes part of the free list. -/
theorem Sound.grow (h : Sound bound c S live) {sbrkFunc : β → ℕ → ℕ × β}
    (hs : c.sbrkFunc = some sbrkFunc) {n addBlocks fuel addBytes q : ℕ} {brk : β} {c' : Context β}
    (hask : askMemory sbrkFunc n addBlocks fuel 1 c.brk = some (q, addBytes, brk))
    (hq : q ≠ noMemory) (hpos : 0 < addBytes)
    (hfree : FreeList.free fuel
      { c with
        mem := Function.update c.mem q { nextPtr := 0, numBlocks := addBytes / headerSize }
        brk := brk } (advance q 1) = some c') :
    ∃ S', Sound bound { c' with heapSize := wrap (c'.heapSize + addBytes) } S' live ∧
      0 < (blocks c'.mem S').total ∧ c'.sbrkFunc = c.sbrkFunc ∧ c'.brk = brk ∧
      Grown (bound c.brk) c.mem c'.mem S S' ∧ ∃ b ∈ S', addBytes ≤ sizeOf c'.mem b := by
  obtain ⟨hle, hmod, hown⟩ := askMemory_owned (h.areas _ hs) hask
  obtain ⟨hge, hown⟩ := hown hq hpos
  have hgrown := h.heap.grow hge hmod hown brk
  obtain ⟨S', hheap, htotal, hfreed, hpiece, mem, freeList, rfl⟩ := hgrown.free List.mem_cons_self hfree
  have hsize := hown.fits
  have hbelow := hown.below
  have hwrap : wrap (c.heapSize + addBytes) = c.heapSize + addBytes := by
    have := h.size_le
    rw [wrap]
    omega
  refine ⟨S', ⟨?_, ?_, h.areas⟩, ?_, rfl, rfl, ?_, ?_⟩
  · simp only [hwrap]
    rw [List.erase_cons_head] at hheap
    exact ⟨hheap.root_mem, hheap.root_empty, hheap.root_fits, hheap.freeList_mem, hheap.spaced,
      hheap.owned, hheap.live_owned, hheap.clear, hheap.live_apart, hheap.adds_up⟩
  · show wrap (c.heapSize + addBytes) ≤ bound brk
    have := h.size_le
    omega
  · have hposq := (hgrown.live_owned q List.mem_cons_self).pos
    omega
  · have hnew := hgrown.not_mem List.mem_cons_self
    exact ((Grown.write hnew _).trans hfreed le_rfl).mono hge
  · obtain ⟨x, hx, hle⟩ := hpiece
    refine ⟨x, hx, ?_⟩
    have hsizeq : sizeOf (Function.update c.mem q { nextPtr := 0, numBlocks := addBytes / headerSize }) q =
        addBytes := by
      rw [sizeOf, Function.update_self, Nat.div_mul_cancel (Nat.dvd_of_mod_eq_zero hmod)]
    exact hsizeq.symm.le.trans hle

/-- Where the search has seen all nodes, the break is moved by something. -/
theorem asked_pos {n : ℕ} (hn : 0 < n) (hroom : Room n c (0 < (blocks c.mem S).total))
    {sbrkFunc : β → ℕ → ℕ × β} (hs : c.sbrkFunc = some sbrkFunc)
    (hsmall : (c.mem c.freeList).numBlocks < n)
    (hseen : ∀ x ∈ S, Between c.freeList x c.freeList → (c.mem x).numBlocks < n) {fuel q addBytes : ℕ} {brk : β}
    (hask : askMemory sbrkFunc n (if n < 1024 then 1024 else n) fuel 1 c.brk = some (q, addBytes, brk))
    (hq : q ≠ noMemory) : 0 < addBytes := by
  rcases hroom sbrkFunc hs with hrefused | ⟨hlt, hone⟩
  · exact askMemory_refused hrefused hask hq
  by_cases hn1 : n = 1
  · subst hn1
    have hzero := total_eq_zero hsmall hseen
    have hgranted := (hone rfl).resolve_left (by omega)
    exact askMemory_granted (k := 1024) (Nat.le_refl 1) rfl hgranted hask
  · exact askMemory_pos (by omega) (by split <;> omega) (by split <;> omega)
      (Nat.le_refl 1) (Or.inl rfl) hask

/-- The search returns a block of `n` headers, or none; then the free list may only have grown. -/
theorem search_sound {n : ℕ} (hn : 0 < n) : ∀ {fuel : ℕ} {c c' : Context β} {S : Finset ℕ} {prevPtr p ptr : ℕ},
    Sound bound c S live → Room n c (0 < (blocks c.mem S).total) → prevPtr ∈ S →
    (c.mem prevPtr).nextPtr = p →
    (∀ x ∈ S, Between c.freeList x p → (c.mem x).numBlocks < n) →
    search n fuel c prevPtr p = some (ptr, c') →
    ∃ S', (ptr = 0 ∧ Sound bound c' S' live ∧ Grown (bound c.brk) c.mem c'.mem S S') ∨
      ∃ b, ptr = advance b 1 ∧ b + 8 < 4294967296 ∧ sizeOf c'.mem b = n * headerSize ∧
        Sound bound c' S' (b :: live)
  | fuel + 1, c, c', S, prevPtr, p, ptr, h, hroom, hprev, hnext, hseen, hrun => by
    have hp : p ∈ S := hnext ▸ h.heap.spaced.linked.mem hprev
    rw [search] at hrun
    simp only at hrun
    split at hrun
    · next hfits =>
      have hpr := h.heap.mem_of_size hn hfits
      split at hrun
      · next hsize =>
        -- a block of the right size
        rw [Option.some.injEq, Prod.mk.injEq] at hrun
        obtain ⟨rfl, rfl⟩ := hrun
        have hheap := h.heap.takeOut hprev hnext hpr
        refine ⟨_, Or.inr ⟨p, rfl, hheap.ptr_fits List.mem_cons_self, ?_, hheap, h.size_le, h.areas⟩⟩
        simp only [sizeOf, Function.update_apply, ← hsize]
        split
        · next heq => rw [heq]
        · rfl
      · -- a larger one
        rw [Option.some.injEq, Prod.mk.injEq] at hrun
        obtain ⟨rfl, rfl⟩ := hrun
        have hheap := h.heap.cutOff hp hn (by omega) hprev
        refine ⟨_, Or.inr ⟨cutAt c.mem p n, ?_, hheap.ptr_fits List.mem_cons_self, ?_, hheap, h.size_le,
          h.areas⟩⟩
        · rw [advance_cut (h.heap.fits hp)]
        · exact (congrFun (cut_size (h.heap.fits hp) n) _).trans (Function.update_self _ _ _)
    · next hsmall =>
      split at hrun
      · next hround =>
        -- all the way around
        split at hrun
        · rw [Option.some.injEq, Prod.mk.injEq] at hrun
          obtain ⟨rfl, rfl⟩ := hrun
          exact ⟨S, Or.inl ⟨rfl, h, Grown.refl _ _ _⟩⟩
        · next sbrkFunc hs =>
          split at hrun
          · cases hrun
          · next q addBytes brk hask =>
            have hle := (askMemory_owned (h.areas _ hs) hask).1
            split at hrun
            · rw [Option.some.injEq, Prod.mk.injEq] at hrun
              obtain ⟨rfl, rfl⟩ := hrun
              exact ⟨S, Or.inl ⟨rfl, ⟨h.heap.mono hle, h.size_le.trans hle, h.areas⟩, Grown.refl _ _ _⟩⟩
            · next hq =>
              have hpos : 0 < addBytes := by
                subst hround
                exact asked_pos hn hroom hs (Nat.not_le.mp hsmall) hseen hask hq
              split at hrun
              · cases hrun
              · next c₁ hfree =>
                obtain ⟨S', hsound, htotal, hsame, hbrk, hgrown, -⟩ := h.grow hs hask hq hpos hfree
                obtain ⟨S'', hres⟩ := search_sound hn hsound
                  (fun f hf => (hroom f (hsame ▸ hf)).imp_right fun hroom =>
                    ⟨hroom.1, fun _ => Or.inl htotal⟩)
                  hsound.heap.freeList_mem rfl
                  (fun x hx hbetween => absurd hbetween
                    ((hsound.heap.spaced.linked _ hsound.heap.freeList_mem).not_between hx)) hrun
                refine ⟨S'', hres.imp_left fun hnone => ⟨hnone.1, hnone.2.1, ?_⟩⟩
                refine hgrown.trans hnone.2.2 ?_
                show bound c.brk ≤ bound c₁.brk
                rw [hbrk]
                exact hle
      · next hround =>
        refine search_sound hn h hroom hp rfl (fun x hx hbetween => ?_) hrun
        rcases (h.heap.spaced.linked p hp).between_step hx hbetween with hx' | rfl
        · exact hseen x hx hx'
        · omega

/-! ### Runs -/

/-- Nothing has been allocated yet. -/
structure Fresh (bound : β → ℕ) (c : Context β) (live : List ℕ) : Prop where
  freeList : c.freeList = 0
  heapSize : c.heapSize = 0
  live : live = []
  root_fits : 8 ≤ c.root ∧ c.root + 12 ≤ 4294967296
  areas : ∀ sbrkFunc, c.sbrkFunc = some sbrkFunc → Areas c.root sbrkFunc bound

/-- The first call finds the root alone. -/
theorem Fresh.start (h : Fresh bound c live) : Sound bound (start c) {c.root} live := by
  rw [FreeList.start, if_pos h.freeList, h.live]
  have hsize : sizeOf (Function.update c.mem c.root { nextPtr := c.root, numBlocks := 0 }) c.root = 0 := by
    rw [sizeOf, Function.update_self, Nat.zero_mul]
  refine ⟨?_, ?_, h.areas⟩
  · exact
      { root_mem := Finset.mem_singleton_self _
        root_empty := by
          show (Function.update c.mem c.root _ c.root).numBlocks = 0
          rw [Function.update_self]
        root_fits := h.root_fits
        freeList_mem := Finset.mem_singleton_self _
        spaced := by
          refine ⟨fun x hx => ?_, fun x hx y hy hxy => ?_⟩
          · obtain rfl := Finset.mem_singleton.mp hx
            refine ⟨?_, Or.inr ⟨?_, fun y hy => ?_⟩⟩
            · show (Function.update c.mem c.root _ c.root).nextPtr ∈ _
              rw [Function.update_self]
              exact Finset.mem_singleton_self _
            · show (Function.update c.mem c.root _ c.root).nextPtr ≤ _
              rw [Function.update_self]
            · obtain rfl := Finset.mem_singleton.mp hy
              refine ⟨?_, le_refl _⟩
              show (Function.update c.mem c.root _ c.root).nextPtr ≤ _
              rw [Function.update_self]
          · rw [Finset.mem_singleton.mp hx, Finset.mem_singleton.mp hy] at hxy
            exact absurd hxy (lt_irrefl _)
        owned := fun p hp hpr => absurd (Finset.mem_singleton.mp hp) hpr
        live_owned := fun b hb => absurd hb List.not_mem_nil
        clear := fun b hb => absurd hb List.not_mem_nil
        live_apart := List.Pairwise.nil
        adds_up := by
          show ∑ x ∈ {c.root}, sizeOf _ x + 0 = c.heapSize
          rw [Finset.sum_singleton, hsize, h.heapSize] }
  · show c.heapSize ≤ _
    rw [h.heapSize]
    exact Nat.zero_le _

/-- Before the first call, or with the heap in order. -/
def InOrder (bound : β → ℕ) (s : Program β) : Prop :=
  Fresh bound s.context s.live ∨ ∃ S, s.context.freeList ≠ 0 ∧ Sound bound s.context S s.live

/-- The condition on an operation: an allocation must not move the break by nothing. -/
def Op.Covered (s : Program β) : Op → Prop
  | .alloc size => Room (blocksFor size.toNat) s.context
      (s.context.freeList ≠ 0 ∧ (s.context.mem s.context.root).nextPtr ≠ s.context.root)
  | _ => True

/-- Every operation of a run meets it. -/
def Covered (fuel : ℕ) : List Op → Program β → Prop
  | [], _ => True
  | op :: ops, s => op.Covered s ∧ ∀ s', op.apply fuel s = some s' → Covered fuel ops s'

theorem blocksFor_pos (size : ℕ) : 0 < blocksFor size := Nat.succ_pos _

theorem Heap.freeList_pos {top total : ℕ} (h : Heap top c S live total) : c.freeList ≠ 0 := by
  by_cases hroot : c.freeList = c.root
  · have := h.root_fits
    omega
  · have := (h.owned _ h.freeList_mem hroot).nonnull
    omega

/-- Where the root points to another node, a block is free. -/
theorem Sound.total_pos (h : Sound bound c S live) (hne : (c.mem c.root).nextPtr ≠ c.root) :
    0 < (blocks c.mem S).total := by
  have hq : (c.mem c.root).nextPtr ∈ S := h.heap.spaced.linked.mem h.heap.root_mem
  have hpos := (h.heap.owned _ hq hne).pos
  exact lt_of_lt_of_le hpos (Finset.single_le_sum (fun _ _ => Nat.zero_le _) hq)

/-- `FreeList_Alloc` returns a new live block, or none. -/
theorem Sound.alloc (h : Sound bound c S live) {n fuel ptr : ℕ} {c' : Context β} (hn : 0 < n)
    (hroom : Room n c (0 < (blocks c.mem S).total))
    (hrun : search n fuel c c.freeList (c.mem c.freeList).nextPtr = some (ptr, c')) :
    ∃ S', (ptr = 0 ∧ Sound bound c' S' live ∧ Grown (bound c.brk) c.mem c'.mem S S') ∨
      ∃ b, ptr = advance b 1 ∧ b + 8 < 4294967296 ∧ sizeOf c'.mem b = n * headerSize ∧
        Sound bound c' S' (b :: live) := by
  refine search_sound hn h hroom h.heap.freeList_mem rfl (fun x hx hbetween => ?_) hrun
  exact absurd hbetween ((h.heap.spaced.linked _ h.heap.freeList_mem).not_between hx)

theorem InOrder.alloc {s s' : Program β} {size : UInt32} {fuel : ℕ} (h : InOrder bound s)
    (hc : (Op.alloc size).Covered s) (hrun : (Op.alloc size).apply fuel s = some s') :
    InOrder bound s' := by
  rw [Op.apply, Option.map_eq_some_iff] at hrun
  obtain ⟨⟨ptr, c'⟩, halloc, rfl⟩ := hrun
  obtain ⟨S, hsound, hroom⟩ : ∃ S, Sound bound (start s.context) S s.live ∧
      Room (blocksFor size.toNat) (start s.context) (0 < (blocks (start s.context).mem S).total) := by
    rcases h with hfresh | ⟨S, hne, hsound⟩
    · refine ⟨_, hfresh.start, fun sbrkFunc hs => ?_⟩
      rw [start, if_pos hfresh.freeList] at hs ⊢
      refine (hc sbrkFunc hs).imp_right fun ⟨hlt, hone⟩ => ⟨hlt, fun h1 => Or.inr ?_⟩
      exact (hone h1).resolve_left fun hfree => hfree.1 hfresh.freeList
    · rw [start, if_neg hne]
      refine ⟨S, hsound, fun sbrkFunc hs => ?_⟩
      refine (hc sbrkFunc hs).imp_right fun ⟨hlt, hone⟩ => ⟨hlt, fun h1 => ?_⟩
      exact (hone h1).imp_left fun hfree => hsound.total_pos hfree.2
  obtain ⟨S', hnone | ⟨b, rfl, hfits, -, hsome⟩⟩ := hsound.alloc (blocksFor_pos _) hroom halloc
  · obtain ⟨rfl, hsound', -⟩ := hnone
    exact Or.inr ⟨S', hsound'.heap.freeList_pos, hsound'⟩
  · refine Or.inr ⟨S', hsome.heap.freeList_pos, ?_⟩
    have hb : 0 < b := (hsome.heap.live_owned b List.mem_cons_self).nonnull
    have hptr : advance b 1 ≠ 0 := by
      rw [advance, wrap, headerSize]
      omega
    simp only [if_neg hptr, header_of_ptr hfits]
    exact hsome

theorem InOrder.free {s s' : Program β} {ptr fuel : ℕ} (h : InOrder bound s)
    (hrun : (Op.free ptr).apply fuel s = some s') : InOrder bound s' := by
  rw [Op.apply] at hrun
  split at hrun
  · next hlive =>
    rw [Option.map_eq_some_iff] at hrun
    obtain ⟨c', hfree, rfl⟩ := hrun
    rcases h with hfresh | ⟨S, -, hsound⟩
    · rw [hfresh.live] at hlive
      exact absurd hlive List.not_mem_nil
    · have hfits := hsound.heap.ptr_fits hlive
      rw [FreeList.free, ← header_of_ptr hfits] at hfree
      obtain ⟨S', hheap, -, -, -, mem, freeList, rfl⟩ := hsound.heap.free hlive hfree
      exact Or.inr ⟨S', hheap.freeList_pos, hheap, hsound.size_le, hsound.areas⟩
  · rw [← Option.some.inj hrun]
    exact h

/-- Writing into memory that is neither a node nor a live header changes nothing. -/
theorem Heap.payload {top total : ℕ} {mem : ℕ → Header} (h : Heap top c S live total)
    (hS : ∀ x ∈ S, mem x = c.mem x) (hlive : ∀ x ∈ live, mem x = c.mem x) :
    Heap top { c with mem := mem } S live total := by
  have hsizeS : ∀ x ∈ S, sizeOf mem x = sizeOf c.mem x := fun x hx => by rw [sizeOf, hS x hx, sizeOf]
  have hsize : ∀ d ∈ live, sizeOf mem d = sizeOf c.mem d := fun d hd => by rw [sizeOf, hlive d hd, sizeOf]
  have hagree : Agree (blocks c.mem S) (blocks mem S) :=
    ⟨rfl, fun x hx => congrArg Header.nextPtr (hS x hx), hsizeS⟩
  exact
    { root_mem := h.root_mem
      root_empty := (congrArg Header.numBlocks (hS _ h.root_mem)).trans h.root_empty
      root_fits := h.root_fits
      freeList_mem := h.freeList_mem
      spaced := h.spaced.congr hagree
      owned := fun x hx hxr => by
        rw [hsizeS x hx]
        exact h.owned x hx hxr
      live_owned := fun d hd => by
        rw [hsize d hd]
        exact h.live_owned d hd
      clear := fun d hd => by
        rw [hsize d hd]
        exact (h.clear d hd).congr hagree
      live_apart := h.live_apart.imp_of_mem fun ha hd had => by
        rw [hsize _ ha, hsize _ hd]
        exact had
      adds_up := by
        rw [hagree.total, List.map_congr_left hsize]
        exact h.adds_up }

theorem Heap.store {top total a : ℕ} (h : Heap top c S live total) (words : Header) (haS : a ∉ S)
    (halive : a ∉ live) :
    Heap top { c with mem := Function.update c.mem a words } S live total :=
  h.payload (fun x hx => Function.update_of_ne (show x ≠ a from fun heq => haS (heq ▸ hx)) _ _)
    fun x hx => Function.update_of_ne (show x ≠ a from fun heq => halive (heq ▸ hx)) _ _

theorem InOrder.store {s s' : Program β} {ptr k fuel : ℕ} {words : Header} (h : InOrder bound s)
    (hrun : (Op.store ptr k words).apply fuel s = some s') : InOrder bound s' := by
  rw [Op.apply] at hrun
  simp only at hrun
  split at hrun
  · next hlive =>
    obtain ⟨hlive, hk⟩ := hlive
    obtain rfl := Option.some.inj hrun
    rcases h with hfresh | ⟨S, hne, hsound⟩
    · rw [hfresh.live] at hlive
      exact absurd hlive List.not_mem_nil
    · obtain ⟨b, hb⟩ : ∃ b, b = wrap (ptr + 4294967296 - headerSize) := ⟨_, rfl⟩
      rw [← hb] at hlive hk
      have hown := hsound.heap.live_owned b hlive
      have hfits := hown.fits
      have hsz : sizeOf s.context.mem b = (s.context.mem b).numBlocks * 8 := rfl
      have haddr : advance ptr k = b + 8 * (k + 1) := by
        rw [hb] at hfits hk hsz ⊢
        simp only [advance, wrap, headerSize] at hfits hk hsz ⊢
        omega
      rw [haddr]
      refine Or.inr ⟨S, hne, hsound.heap.store words (fun hS => ?_) (fun hd => ?_), hsound.size_le,
        hsound.areas⟩
      · have := hsound.heap.clear_of hS hlive
        omega
      · have hpos := (hsound.heap.live_owned _ hd).pos
        have hne : b + 8 * (k + 1) ≠ b := by omega
        have := (hsound.heap.live_others hlive ((List.mem_erase_of_ne hne).mpr hd)).2.2
        omega
  · rw [← Option.some.inj hrun]
    exact h

/-- What one operation does keeps the heap in order. -/
theorem InOrder.apply {s s' : Program β} {op : Op} {fuel : ℕ} (h : InOrder bound s)
    (hc : op.Covered s) (hrun : op.apply fuel s = some s') : InOrder bound s' := by
  cases op with
  | alloc size => exact h.alloc hc hrun
  | free ptr => exact h.free hrun
  | store ptr k words => exact h.store hrun

theorem InOrder.run {fuel : ℕ} : ∀ {ops : List Op} {s s' : Program β}, InOrder bound s →
    Covered fuel ops s → run fuel ops s = some s' → InOrder bound s'
  | [], s, s', h, _, hrun => by
    rw [← Option.some.inj hrun]
    exact h
  | op :: ops, s, s', h, hc, hrun => by
    rw [FreeList.run, Option.bind_eq_some_iff] at hrun
    obtain ⟨s₁, happly, hrun⟩ := hrun
    exact InOrder.run (h.apply hc.1 happly) (hc.2 s₁ happly) hrun

/-! ### What a program may rely on -/

/-- The free list is one circle through the root, in the order of addresses and without blocks that
    overlap or touch; the live blocks overlap neither it nor each other; and all of them together are
    what the heap has got. -/
structure Account (c : Context β) (nodes live : List ℕ) : Prop where
  circular : nodes.map (fun p => (c.mem p).nextPtr) = nodes.rotate 1
  ordered : nodes.Pairwise (· < ·)
  root_mem : c.root ∈ nodes
  root_empty : (c.mem c.root).numBlocks = 0
  freeList_mem : c.freeList ∈ nodes
  nonempty : ∀ p ∈ nodes, p ≠ c.root → 0 < sizeOf c.mem p
  apart : nodes.Pairwise fun p q => p + sizeOf c.mem p < q
  live_nonempty : ∀ b ∈ live, 0 < sizeOf c.mem b
  live_clear : ∀ b ∈ live, ∀ p ∈ nodes, p + sizeOf c.mem p ≤ b ∨ b + sizeOf c.mem b ≤ p
  live_apart : live.Pairwise fun a b => a + sizeOf c.mem a ≤ b ∨ b + sizeOf c.mem b ≤ a
  adds_up : (nodes.map (sizeOf c.mem)).sum + (live.map (sizeOf c.mem)).sum = c.heapSize

/-- All is accounted for; before the first call there is nothing yet. -/
def Accounted (s : Program β) : Prop :=
  s.context.freeList = 0 ∧ s.live = [] ∧ s.context.heapSize = 0 ∨
    ∃ nodes, Account s.context nodes s.live

theorem Heap.account {top : ℕ} (h : Heap top c S live c.heapSize) : Account c S.sort live := by
  have hmem : ∀ {x}, x ∈ S.sort → x ∈ S := (Finset.mem_sort _).mp
  exact
    { circular := h.spaced.linked.map_sort
      ordered := S.sortedLT_sort.pairwise
      root_mem := (Finset.mem_sort _).mpr h.root_mem
      root_empty := h.root_empty
      freeList_mem := (Finset.mem_sort _).mpr h.freeList_mem
      nonempty := fun p hp hpr => (h.owned p (hmem hp) hpr).pos
      apart := S.sortedLT_sort.pairwise.imp_of_mem fun hp hq hpq => by
        obtain ⟨hle, htouch⟩ := h.spaced.apart _ (hmem hp) _ (hmem hq) hpq
        exact lt_of_le_of_ne hle fun heq => Finset.notMem_empty _ (htouch heq)
      live_nonempty := fun b hb => (h.live_owned b hb).pos
      live_clear := fun b hb p hp => h.clear b hb p (hmem hp)
      live_apart := h.live_apart
      adds_up := by
        have hsum : (S.sort.map (sizeOf c.mem)).sum = (blocks c.mem S).total := by
          rw [← List.sum_toFinset _ (S.sort_nodup _), Finset.sort_toFinset]
          rfl
        rw [hsum]
        exact h.adds_up }

theorem InOrder.accounted {s : Program β} (h : InOrder bound s) : Accounted s := by
  rcases h with hfresh | ⟨S, -, hsound⟩
  · exact Or.inl ⟨hfresh.freeList, hfresh.live, hfresh.heapSize⟩
  · exact Or.inr ⟨S.sort, hsound.heap.account⟩

/-- Whatever a program does with a fresh heap, all stays accounted for. -/
theorem run_accounted {fuel : ℕ} {ops : List Op} {s s' : Program β} (h : Fresh bound s.context s.live)
    (hc : Covered fuel ops s) (hrun : run fuel ops s = some s') : Accounted s' :=
  ((show InOrder bound s from Or.inl h).run hc hrun).accounted

/-- Two headers or more, and less than all of memory. -/
def Op.Ordinary : Op → Prop
  | .alloc size => 1 < blocksFor size.toNat ∧ blocksFor size.toNat < 536870912
  | _ => True

/-- Such requests are covered in any state. -/
theorem covered_of_ordinary {fuel : ℕ} : ∀ {ops : List Op} {s : Program β},
    (∀ op ∈ ops, op.Ordinary) → Covered fuel ops s
  | [], _, _ => trivial
  | op :: ops, s, h => by
    refine ⟨?_, fun s' _ => covered_of_ordinary fun op hop => h op (List.mem_cons_of_mem _ hop)⟩
    have hop := h op List.mem_cons_self
    cases op with
    | alloc size => exact fun _ _ => Or.inr ⟨hop.2, fun hone => absurd hone (ne_of_gt hop.1)⟩
    | free ptr => trivial
    | store ptr k words => trivial

/-- A break in front of free memory, at a multiple of the header size. -/
def bump (root top : ℕ) (brk n : ℕ) : ℕ × ℕ :=
  if brk % headerSize = 0 ∧ root + 12 ≤ brk ∧ brk + n < top then (brk, brk + n) else (noMemory, brk)

theorem bump_areas {root top : ℕ} (htop : top ≤ 4294967296) : Areas root (bump root top) id where
  grows brk n := by
    rw [bump]
    split
    · exact Nat.le_add_right _ _
    · exact le_refl _
  increasing brk n := by
    rw [bump]
    split
    · exact fun _ => ⟨le_refl _, le_refl _⟩
    · exact fun h => absurd rfl h
  aligned brk n := by
    rw [bump]
    split
    · next h =>
      have h8 := h.1
      rw [headerSize] at h8
      exact fun _ => by rw [headerAlign]; omega
    · exact fun h => absurd rfl h
  nonnull brk n := by
    rw [bump]
    split
    · next h => exact fun _ => by omega
    · exact fun h => absurd rfl h
  fits brk n := by
    rw [bump]
    split
    · next h => exact fun _ => by omega
    · exact fun h => absurd rfl h
  apart brk n := by
    rw [bump]
    split
    · next h => exact fun _ => Or.inr h.2.1
    · exact fun h => absurd rfl h

/-- A heap that has not been used yet; address 0 holds what `numBlocks` says. -/
def unused (numBlocks : ℕ) : Program ℕ where
  context :=
    { sbrkFunc := some (bump 8200 65536)
      heapSize := 0
      root := 8200
      freeList := 0
      mem := Function.update (fun _ => { nextPtr := 0, numBlocks := 0 }) 0 { nextPtr := 0, numBlocks := numBlocks }
      brk := 16384 }
  live := []

theorem unused_fresh (numBlocks : ℕ) : Fresh id (unused numBlocks).context (unused numBlocks).live where
  freeList := rfl
  heapSize := rfl
  live := rfl
  root_fits := (by decide : 8 ≤ 8200 ∧ 8200 + 12 ≤ 4294967296)
  areas sbrkFunc hs := by
    obtain rfl := Option.some.inj hs
    exact bump_areas (by decide)

/-- Two blocks, of which the first is written to and given back. -/
def someOps : List Op :=
  [.alloc 10, .alloc 100, .store 24560 1 { nextPtr := 7, numBlocks := 7 }, .free 24560, .alloc 30]

instance : DecidablePred Op.Ordinary
  | .alloc _ => inferInstanceAs (Decidable (_ ∧ _))
  | .free _ => inferInstanceAs (Decidable True)
  | .store _ _ _ => inferInstanceAs (Decidable True)

theorem someOps_accounted : Accounted ((run 9 someOps (unused 0)).get (by decide +kernel)) :=
  run_accounted (unused_fresh 0) (covered_of_ordinary (by decide)) (Option.some_get _).symm

/-- Where the size of the request is taken for nothing, the break is moved by nothing. -/
theorem overflow_unaccounted : Fresh id (unused 536870912).context (unused 536870912).live ∧
    ∃ s', run 9 [.alloc 0xFFFFFFF8] (unused 536870912) = some s' ∧ ¬ Accounted s' := by
  refine ⟨unused_fresh _, _, (Option.some_get (by decide)).symm, ?_⟩
  rintro (⟨hnull, -⟩ | ⟨nodes, h⟩)
  · exact absurd hnull (by decide)
  · have hsum := h.adds_up
    have hsize : sizeOf ((run 9 [.alloc 0xFFFFFFF8] (unused 536870912)).get
        (by decide)).context.mem 0 = 4294967296 := by decide
    rw [show Program.live _ = [0] by decide, show Context.heapSize _ = 0 by decide,
      List.map_singleton, List.sum_singleton, hsize] at hsum
    omega

end FreeList
