import ReplayFirmware.Heap.Invariant

/-! Allocation keeps the heap in order: a block is taken out whole or cut from the end of a larger one,
    and memory that the break gives is freed first. -/

namespace FreeList
open Circle Coalesce

variable {β : Type} {top total : ℕ} {c : Context β} {S : Finset ℕ} {live : List ℕ} {p b : ℕ}

/-! ### Taking a block -/

theorem Heap.mem_of_size (h : Heap top c S live total) {n : ℕ} (hn : 0 < n)
    (hp : n ≤ (c.mem p).numBlocks) : p ≠ c.root := by
  rintro rfl
  rw [h.root_empty] at hp
  omega

/-- A free block and the live ones lie clear of each other. -/
theorem Heap.clear_of (h : Heap top c S live total) (hp : p ∈ S) (hb : b ∈ live) :
    p + sizeOf c.mem p ≤ b ∨ b + sizeOf c.mem b ≤ p := h.clear b hb p hp

/-- A block that fits is taken out of the list. -/
theorem Heap.takeOut (h : Heap top c S live total) {prevPtr : ℕ} (hprev : prevPtr ∈ S)
    (hp : (c.mem prevPtr).nextPtr = p) (hpr : p ≠ c.root) :
    Heap top
      { c with
        mem := Function.update c.mem prevPtr { c.mem prevPtr with nextPtr := (c.mem p).nextPtr }
        freeList := prevPtr }
      (S.erase p) (p :: live) total := by
  subst hp
  have hpS : (c.mem prevPtr).nextPtr ∈ S := h.spaced.linked.mem hprev
  have hne : (c.mem prevPtr).nextPtr ≠ prevPtr := fun heq => by
    have hnext := h.spaced.linked prevPtr hprev
    rw [show (blocks c.mem S).next prevPtr = prevPtr from heq] at hnext
    exact hpr (heq.trans (hnext.alone h.root_mem).symm)
  have hsize : sizeOf (Function.update c.mem prevPtr
      { c.mem prevPtr with nextPtr := (c.mem (c.mem prevPtr).nextPtr).nextPtr }) = sizeOf c.mem := by
    funext x
    by_cases hx : x = prevPtr
    · subst hx
      simp only [sizeOf, Function.update_self]
    · simp only [sizeOf, Function.update_of_ne hx]
  have hblocks : blocks (Function.update c.mem prevPtr
      { c.mem prevPtr with nextPtr := (c.mem (c.mem prevPtr).nextPtr).nextPtr })
        (S.erase (c.mem prevPtr).nextPtr) = (blocks c.mem S).unlink prevPtr := by
    rw [blocks, hsize]
    refine congrArg (Blocks.mk _ · _) ?_
    funext x
    by_cases hx : x = prevPtr
    · subst hx
      simp only [blocks, Function.update_self]
    · simp only [blocks, Function.update_of_ne hx]
  have hown := h.owned _ hpS hpr
  exact
    { root_mem := Finset.mem_erase.mpr ⟨hpr.symm, h.root_mem⟩
      root_empty := (Nat.mul_eq_zero.mp ((congrFun hsize c.root).trans h.root_size)).resolve_right
        (by decide)
      root_fits := h.root_fits
      freeList_mem := Finset.mem_erase.mpr ⟨hne.symm, hprev⟩
      spaced := by
        rw [hblocks]
        exact h.spaced.unlink hprev hne
      owned := fun x hx hxr => by
        rw [hsize]
        exact h.owned x (Finset.mem_of_mem_erase hx) hxr
      live_owned := fun d hd => by
        rw [hsize]
        rcases List.mem_cons.mp hd with rfl | hd
        · exact hown
        · exact h.live_owned d hd
      clear := fun d hd => by
        rw [hsize, hblocks]
        rcases List.mem_cons.mp hd with rfl | hd
        · exact h.spaced.clear_unlink hpS
        · exact (h.clear d hd).unlink
      live_apart := by
        rw [hsize]
        exact List.pairwise_cons.mpr ⟨fun d hd => h.clear_of hpS hd, h.live_apart⟩
      adds_up := by
        have hsum := Blocks.total_unlink (B := blocks c.mem S) hpS
        have := h.adds_up
        rw [hblocks, hsize, List.map_cons, List.sum_cons]
        have hsz : (blocks c.mem S).size ((blocks c.mem S).next prevPtr)
          = sizeOf c.mem (c.mem prevPtr).nextPtr := rfl
        omega }

/-- Memory after the last `n` headers of a block have become a block of their own. -/
def cut (mem : ℕ → Header) (p n : ℕ) : ℕ → Header :=
  let rest := (mem p).numBlocks - n
  let mem := Function.update mem p { mem p with numBlocks := rest }
  let p := advance p rest
  Function.update mem p { mem p with numBlocks := n }

/-- Where that block starts. -/
def cutAt (mem : ℕ → Header) (p n : ℕ) : ℕ := p + ((mem p).numBlocks - n) * headerSize

theorem advance_cut {mem : ℕ → Header} (h : p + sizeOf mem p < 4294967296) (n : ℕ) :
    advance p ((mem p).numBlocks - n) = cutAt mem p n := by
  rw [sizeOf, headerSize] at h
  refine Nat.mod_eq_of_lt ?_
  rw [headerSize]
  omega

theorem cut_next (mem : ℕ → Header) (p n x : ℕ) : (cut mem p n x).nextPtr = (mem x).nextPtr := by
  rw [cut]
  simp only [Function.update_apply]
  split
  · next hx =>
    subst hx
    split
    · next hx => rw [hx]
    · rfl
  · split
    · next hx => rw [hx]
    · rfl

theorem cut_size {mem : ℕ → Header} (h : p + sizeOf mem p < 4294967296) (n : ℕ) :
    sizeOf (cut mem p n) = Function.update
      (Function.update (sizeOf mem) p (((mem p).numBlocks - n) * headerSize)) (cutAt mem p n)
        (n * headerSize) := by
  funext x
  rw [cut, advance_cut h]
  simp only [sizeOf, Function.update_apply]
  split
  · rfl
  · split
    · rfl
    · rfl

/-- The end of a larger block is cut off. -/
theorem Heap.cutOff (h : Heap top c S live total) (hp : p ∈ S) {n : ℕ} (hn : 0 < n)
    (hlt : n < (c.mem p).numBlocks) {freeList : ℕ} (hfree : freeList ∈ S) :
    Heap top { c with mem := cut c.mem p n, freeList := freeList } S (cutAt c.mem p n :: live) total := by
  have hpr : p ≠ c.root := h.mem_of_size hn (le_of_lt hlt)
  have hown := h.owned p hp hpr
  have hfits := h.fits hp
  have hstop : (blocks c.mem S).stop p = p + sizeOf c.mem p := rfl
  have hsz : sizeOf c.mem p = (c.mem p).numBlocks * 8 := rfl
  have hat : cutAt c.mem p n = p + ((c.mem p).numBlocks - n) * 8 := rfl
  have hsplit : cutAt c.mem p n + n * 8 = p + sizeOf c.mem p := by omega
  have hcutS : cutAt c.mem p n ∉ S := fun hmem => by
    have := (h.spaced.apart p hp _ hmem (by omega)).1
    omega
  have hne : p ≠ cutAt c.mem p n := fun heq => hcutS (heq ▸ hp)
  have hcutlive : ∀ d ∈ live, d ≠ cutAt c.mem p n ∧ d ≠ p := fun d hd => by
    have hclear := h.clear_of hp hd
    have hpos := (h.live_owned d hd).pos
    exact ⟨by omega, by omega⟩
  have hsize := cut_size hfits n
  have hsizeS : ∀ x ∈ S, sizeOf (cut c.mem p n) x
      = Function.update (sizeOf c.mem) p (((c.mem p).numBlocks - n) * headerSize) x := fun x hx => by
    have hx' : x ≠ cutAt c.mem p n := fun heq => hcutS (heq ▸ hx)
    rw [hsize, Function.update_of_ne hx']
  have hsizelive : ∀ d ∈ live, sizeOf (cut c.mem p n) d = sizeOf c.mem d := fun d hd => by
    rw [hsize, Function.update_of_ne (hcutlive d hd).1, Function.update_of_ne (hcutlive d hd).2]
  have hsizecut : sizeOf (cut c.mem p n) (cutAt c.mem p n) = n * 8 := by
    rw [hsize, Function.update_self]
    rfl
  have hagree : Agree ((blocks c.mem S).shrink p (((c.mem p).numBlocks - n) * headerSize))
      (blocks (cut c.mem p n) S) := ⟨rfl, fun x _ => cut_next c.mem p n x, hsizeS⟩
  have hle : ((c.mem p).numBlocks - n) * headerSize < (blocks c.mem S).size p := by
    show ((c.mem p).numBlocks - n) * 8 < sizeOf c.mem p
    omega
  have hhead : Owned c.root top p (((c.mem p).numBlocks - n) * headerSize) := by
    obtain ⟨hpos, hal, hnonnull, hbelow, hfits, hapart⟩ := hown
    rw [headerSize]
    exact ⟨by omega, hal, hnonnull, by omega, by omega, by omega⟩
  have htail : Owned c.root top (cutAt c.mem p n) (n * 8) := by
    obtain ⟨hpos, hal, hnonnull, hbelow, hfits, hapart⟩ := hown
    rw [headerAlign] at hal
    exact ⟨by omega, by rw [headerAlign]; omega, by omega, by omega, by omega, by omega⟩
  exact
    { root_mem := h.root_mem
      root_empty := by
        have hroot := hsizeS c.root h.root_mem
        rw [Function.update_of_ne hpr.symm, h.root_size] at hroot
        exact (Nat.mul_eq_zero.mp hroot).resolve_right (by decide)
      root_fits := h.root_fits
      freeList_mem := hfree
      spaced := (h.spaced.shrink (le_of_lt hle)).congr hagree
      owned := fun x hx hxr => by
        rw [hsizeS x hx]
        by_cases hxp : x = p
        · subst hxp
          rw [Function.update_self]
          exact hhead
        · rw [Function.update_of_ne hxp]
          exact h.owned x hx hxr
      live_owned := fun d hd => by
        rcases List.mem_cons.mp hd with rfl | hd
        · rw [hsizecut]
          exact htail
        · rw [hsizelive d hd]
          exact h.live_owned d hd
      clear := fun d hd => by
        rcases List.mem_cons.mp hd with rfl | hd
        · rw [hsizecut, hsplit]
          exact (h.spaced.clear_shrink hp hle).congr hagree
        · rw [hsizelive d hd]
          exact ((h.clear d hd).shrink (le_of_lt hle)).congr hagree
      live_apart := by
        refine List.pairwise_cons.mpr ⟨fun d hd => ?_, h.live_apart.imp_of_mem fun ha hd had => ?_⟩
        · rw [hsizecut, hsizelive d hd, hsplit]
          have := h.clear_of hp hd
          omega
        · rw [hsizelive _ ha, hsizelive _ hd]
          exact had
      adds_up := by
        have hsum := Blocks.total_shrink (B := blocks c.mem S)
          (n := ((c.mem p).numBlocks - n) * headerSize) hp
        have hbp : (blocks c.mem S).size p = sizeOf c.mem p := rfl
        have := h.adds_up
        rw [hagree.total, List.map_cons, List.sum_cons, hsizecut, List.map_congr_left hsizelive]
        rw [hbp, headerSize] at hsum
        rw [headerSize]
        omega }

/-! ### More memory -/

/-- What a program may expect of `sbrkFunc`: it refuses, or it gives an area of the size asked for,
    aligned for headers, above all areas before it, and apart from the context. -/
structure Areas (root : ℕ) (sbrkFunc : β → ℕ → ℕ × β) (bound : β → ℕ) : Prop where
  grows : ∀ brk n, bound brk ≤ bound (sbrkFunc brk n).2
  increasing : ∀ brk n, (sbrkFunc brk n).1 ≠ noMemory →
    bound brk ≤ (sbrkFunc brk n).1 ∧ (sbrkFunc brk n).1 + n ≤ bound (sbrkFunc brk n).2
  aligned : ∀ brk n, (sbrkFunc brk n).1 ≠ noMemory → (sbrkFunc brk n).1 % headerAlign = 0
  nonnull : ∀ brk n, (sbrkFunc brk n).1 ≠ noMemory → 0 < (sbrkFunc brk n).1
  fits : ∀ brk n, (sbrkFunc brk n).1 ≠ noMemory → (sbrkFunc brk n).1 + n < 4294967296
  apart : ∀ brk n, (sbrkFunc brk n).1 ≠ noMemory →
    (sbrkFunc brk n).1 + n ≤ root - 8 ∨ root + 12 ≤ (sbrkFunc brk n).1

/-- One of the requests is granted, where they are made one after the other. -/
def Granted (sbrkFunc : β → ℕ → ℕ × β) : List ℕ → β → Prop
  | [], _ => False
  | n :: ns, brk => (sbrkFunc brk n).1 ≠ noMemory ∨ Granted sbrkFunc ns (sbrkFunc brk n).2

/-- What is asked for when there is not even a block of one header, down to one header. -/
def requests : List ℕ := (List.range' 1 1024).map fun divider => 1024 / divider * headerSize

variable {sbrkFunc : β → ℕ → ℕ × β} {bound : β → ℕ}

theorem wrap_mul_mod (n : ℕ) : wrap (n * headerSize) % headerSize = 0 := by
  rw [wrap, headerSize]
  omega

/-- An area that is given is one that the heap can own. -/
theorem askMemory_owned {root n addBlocks : ℕ} (ha : Areas root sbrkFunc bound) :
    ∀ {fuel divider : ℕ} {brk brk' : β} {p addBytes : ℕ},
      askMemory sbrkFunc n addBlocks fuel divider brk = some (p, addBytes, brk') →
        bound brk ≤ bound brk' ∧ addBytes % headerSize = 0 ∧ (p ≠ noMemory → 0 < addBytes →
          bound brk ≤ p ∧ Owned root (bound brk') p addBytes)
  | fuel + 1, divider, brk, brk', p, addBytes, h => by
    rw [askMemory] at h
    simp only at h
    split at h
    · obtain ⟨hle, hmod, hown⟩ := askMemory_owned ha h
      have hgrow := ha.grows brk (wrap (addBlocks / divider * headerSize))
      refine ⟨hgrow.trans hle, hmod, fun hp hpos => ?_⟩
      obtain ⟨hge, hown⟩ := hown hp hpos
      exact ⟨hgrow.trans hge, hown⟩
    · simp only [Option.some.injEq, Prod.mk.injEq] at h
      obtain ⟨rfl, rfl, rfl⟩ := h
      refine ⟨ha.grows _ _, wrap_mul_mod _, fun hp hpos => ?_⟩
      obtain ⟨hge, hle⟩ := ha.increasing _ _ hp
      exact ⟨hge, hpos, ha.aligned _ _ hp, ha.nonnull _ _ hp, hle, ha.fits _ _ hp, ha.apart _ _ hp⟩

/-- Where nothing is not to be had, what is given is something. -/
theorem askMemory_refused (hr : ∀ brk, (sbrkFunc brk 0).1 = noMemory) {n addBlocks : ℕ} :
    ∀ {fuel divider : ℕ} {brk brk' : β} {p addBytes : ℕ},
      askMemory sbrkFunc n addBlocks fuel divider brk = some (p, addBytes, brk') →
        p ≠ noMemory → 0 < addBytes
  | fuel + 1, divider, brk, brk', p, addBytes, h, hp => by
    rw [askMemory] at h
    simp only at h
    split at h
    · exact askMemory_refused hr h hp
    · simp only [Option.some.injEq, Prod.mk.injEq] at h
      obtain ⟨rfl, rfl, -⟩ := h
      refine Nat.pos_of_ne_zero fun hzero => hp ?_
      rw [hzero]
      exact hr brk

/-- For two headers or more, what is asked for is never nothing. -/
theorem askMemory_pos {n addBlocks : ℕ} (hn : 2 ≤ n) (hle : n ≤ addBlocks) (hlt : addBlocks < 536870912) :
    ∀ {fuel divider : ℕ} {brk brk' : β} {p addBytes : ℕ}, 1 ≤ divider →
      (divider = 1 ∨ n ≤ addBlocks / (divider - 1)) →
      askMemory sbrkFunc n addBlocks fuel divider brk = some (p, addBytes, brk') → 0 < addBytes
  | fuel + 1, divider, brk, brk', p, addBytes, hd, hprev, h => by
    have hdle : divider ≤ addBlocks := by
      rcases Nat.eq_or_lt_of_le hd with hone | hmore
      · omega
      · have hdiv := hprev.resolve_left (by omega)
        have := (Nat.le_div_iff_mul_le (by omega)).mp (hn.trans hdiv)
        omega
    have hpos : 0 < addBlocks / divider := Nat.div_pos hdle hd
    have hquot : addBlocks / divider ≤ addBlocks := Nat.div_le_self _ _
    have hbytes : wrap (addBlocks / divider * headerSize) = addBlocks / divider * 8 := by
      rw [wrap, headerSize]
      omega
    rw [askMemory, hbytes] at h
    simp only at h
    split at h
    · next hmore =>
      have hask : wrap (n * headerSize) = n * 8 := by
        rw [wrap, headerSize]
        omega
      rw [hask] at hmore
      have hwrap : wrap (divider + 1) = divider + 1 := by
        rw [wrap]
        omega
      rw [hwrap] at h
      exact askMemory_pos hn hle hlt (by omega) (Or.inr (by rw [Nat.add_sub_cancel]; omega)) h
    · simp only [Option.some.injEq, Prod.mk.injEq] at h
      obtain ⟨-, rfl, -⟩ := h
      omega

/-- For one header it is not nothing where one of the requests before is granted. -/
theorem askMemory_granted : ∀ {k fuel divider : ℕ} {brk brk' : β} {p addBytes : ℕ}, 1 ≤ divider →
    divider + k = 1025 →
    Granted sbrkFunc ((List.range' divider k).map fun divider => 1024 / divider * headerSize) brk →
    askMemory sbrkFunc 1 1024 fuel divider brk = some (p, addBytes, brk') → 0 < addBytes
  | 0, _, _, _, _, _, _, _, _, hg, _ => absurd hg id
  | k + 1, fuel + 1, divider, brk, brk', p, addBytes, hd, hk, hg, h => by
    have hpos : 0 < 1024 / divider := Nat.div_pos (by omega) hd
    have hquot : 1024 / divider ≤ 1024 := Nat.div_le_self _ _
    have hbytes : wrap (1024 / divider * headerSize) = 1024 / divider * headerSize := by
      rw [wrap, headerSize]
      omega
    rw [List.range'_succ, List.map_cons, Granted] at hg
    rw [askMemory, hbytes] at h
    simp only at h
    split at h
    · next hmore =>
      have hwrap : wrap (divider + 1) = divider + 1 := by
        rw [wrap]
        omega
      rw [hwrap] at h
      rcases hg with hg | hg
      · exact absurd hmore.1 hg
      · exact askMemory_granted (by omega) (by omega) hg h
    · simp only [Option.some.injEq, Prod.mk.injEq] at h
      obtain ⟨-, rfl, -⟩ := h
      rw [headerSize]
      omega

/-- A new area is a block of its own until it is freed. -/
theorem Heap.grow (h : Heap top c S live total) {top' q n : ℕ} (htop : top ≤ q)
    (hn : n % headerSize = 0) (hq : Owned c.root top' q n) (brk : β) :
    Heap top'
      { c with
        mem := Function.update c.mem q { nextPtr := 0, numBlocks := n / headerSize }
        brk := brk }
      S (q :: live) (total + n) := by
  have hle : top ≤ top' := by
    have := hq.below
    omega
  have hqS : ∀ x ∈ S, x ≠ q ∧ (x + sizeOf c.mem x ≤ q ∨ q + n ≤ x) := fun x hx => by
    by_cases hxr : x = c.root
    · subst hxr
      have h1 := hq.apart
      have h2 := h.root_fits
      have h3 := h.root_size
      exact ⟨hq.ne_root.symm, by omega⟩
    · have hown := h.owned x hx hxr
      have h1 := hown.below
      have h2 := hown.pos
      exact ⟨by omega, Or.inl (by omega)⟩
  have hqlive : ∀ d ∈ live, d ≠ q ∧ d + sizeOf c.mem d ≤ q := fun d hd => by
    have hown := h.live_owned d hd
    have h1 := hown.below
    have h2 := hown.pos
    exact ⟨by omega, by omega⟩
  have hsize : ∀ x, x ≠ q → sizeOf (Function.update c.mem q
      { nextPtr := 0, numBlocks := n / headerSize }) x = sizeOf c.mem x := fun x hx => by
    rw [sizeOf, Function.update_of_ne hx, sizeOf]
  have hsizeq : sizeOf (Function.update c.mem q
      { nextPtr := 0, numBlocks := n / headerSize }) q = n := by
    rw [sizeOf, Function.update_self]
    exact Nat.div_mul_cancel (Nat.dvd_of_mod_eq_zero hn)
  have hagree : Agree (blocks c.mem S)
      (blocks (Function.update c.mem q { nextPtr := 0, numBlocks := n / headerSize }) S) := by
    refine ⟨rfl, fun x hx => ?_, fun x hx => hsize x (hqS x hx).1⟩
    show (Function.update c.mem q _ x).nextPtr = _
    rw [Function.update_of_ne (hqS x hx).1]
    rfl
  exact
    { root_mem := h.root_mem
      root_empty := by
        show (Function.update c.mem q _ c.root).numBlocks = 0
        rw [Function.update_of_ne hq.ne_root.symm]
        exact h.root_empty
      root_fits := h.root_fits
      freeList_mem := h.freeList_mem
      spaced := h.spaced.congr hagree
      owned := fun x hx hxr => by
        rw [hsize x (hqS x hx).1]
        exact (h.owned x hx hxr).mono hle
      live_owned := fun d hd => by
        rcases List.mem_cons.mp hd with rfl | hd
        · rw [hsizeq]
          exact hq
        · rw [hsize d (hqlive d hd).1]
          exact (h.live_owned d hd).mono hle
      clear := fun d hd => by
        rcases List.mem_cons.mp hd with rfl | hd
        · rw [hsizeq]
          intro x hx
          rw [hagree.stop hx]
          exact (hqS x hx).2
        · rw [hsize d (hqlive d hd).1]
          exact (h.clear d hd).congr hagree
      live_apart := by
        refine List.pairwise_cons.mpr ⟨fun d hd => ?_, h.live_apart.imp_of_mem fun ha hd had => ?_⟩
        · rw [hsizeq, hsize d (hqlive d hd).1]
          exact Or.inr (hqlive d hd).2
        · rw [hsize _ (hqlive _ ha).1, hsize _ (hqlive _ hd).1]
          exact had
      adds_up := by
        have := h.adds_up
        rw [hagree.total, List.map_cons, List.sum_cons, hsizeq,
          List.map_congr_left fun d hd => hsize d (hqlive d hd).1]
        omega }

end FreeList
