import ReplayFirmware.Heap.FreeList
import ReplayFirmware.Lib.Coalesce
import Mathlib.Algebra.Order.Ring.Nat

/-! What holds of the heap between calls.

    The free blocks and the root are a circular list in the order of their addresses, without blocks
    that touch; live blocks lie clear of them and of each other; and free and live blocks add up to what
    the break was moved by. -/

namespace FreeList
open Circle Coalesce

variable {β : Type}

/-- The size of a block in bytes. -/
def sizeOf (mem : ℕ → Header) (p : ℕ) : ℕ := (mem p).numBlocks * headerSize

/-- The free list as memory has it. -/
def blocks (mem : ℕ → Header) (S : Finset ℕ) : Blocks :=
  { nodes := S, next := fun p => (mem p).nextPtr, size := sizeOf mem }

/-- Free memory is added from an address on, and below it nothing is written but the free list. -/
structure Grown (lo : ℕ) (mem mem' : ℕ → Header) (S S' : Finset ℕ) : Prop where
  nodes : ∀ x ∈ S', x ∈ S ∨ lo ≤ x
  kept : ∀ a, (blocks mem S).Has a → (blocks mem' S').Has a
  added : ∀ a, (blocks mem' S').Has a → (blocks mem S).Has a ∨ lo ≤ a
  rest : ∀ x, x ∉ S → x < lo → mem' x = mem x

theorem Grown.refl (lo : ℕ) (mem : ℕ → Header) (S : Finset ℕ) : Grown lo mem mem S S :=
  ⟨fun _ => .inl, fun _ => id, fun _ => .inl, fun _ _ _ => rfl⟩

theorem Grown.trans {lo lo' : ℕ} {mem mem' mem'' : ℕ → Header} {S S' S'' : Finset ℕ}
    (h : Grown lo mem mem' S S') (h' : Grown lo' mem' mem'' S' S'') (hle : lo ≤ lo') :
    Grown lo mem mem'' S S'' where
  nodes x hx := (h'.nodes x hx).elim (h.nodes x) fun hlo => .inr (hle.trans hlo)
  kept a ha := h'.kept a (h.kept a ha)
  added a ha := (h'.added a ha).elim (h.added a) fun hlo => .inr (hle.trans hlo)
  rest x hx hlt := by
    have hx' : x ∉ S' := fun hf => (h.nodes x hf).elim hx (Nat.not_le.mpr hlt)
    rw [h'.rest x hx' (Nat.lt_of_lt_of_le hlt hle), h.rest x hx hlt]

theorem Grown.mono {lo lo' : ℕ} {mem mem' : ℕ → Header} {S S' : Finset ℕ} (h : Grown lo mem mem' S S')
    (hle : lo' ≤ lo) : Grown lo' mem mem' S S' where
  nodes x hx := (h.nodes x hx).imp_right hle.trans
  kept := h.kept
  added a ha := (h.added a ha).imp_right hle.trans
  rest x hx hlt := h.rest x hx (Nat.lt_of_lt_of_le hlt hle)

/-- A write outside the free list. -/
theorem Grown.write {lo : ℕ} {mem : ℕ → Header} {S : Finset ℕ} (hlo : lo ∉ S) (words : Header) :
    Grown lo mem (Function.update mem lo words) S S := by
  have hagree : Agree (blocks mem S) (blocks (Function.update mem lo words) S) := by
    have hne : ∀ x ∈ S, x ≠ lo := fun x hx heq => hlo (heq ▸ hx)
    refine ⟨rfl, fun x hx => ?_, fun x hx => ?_⟩
    · simp only [blocks, Function.update_of_ne (hne x hx)]
    · simp only [blocks, sizeOf, Function.update_of_ne (hne x hx)]
  exact
    { nodes := fun x hx => .inl hx
      kept := fun a ha => (hagree.has a).mpr ha
      added := fun a ha => .inl ((hagree.has a).mp ha)
      rest := fun x _ hlt => Function.update_of_ne (Nat.ne_of_lt hlt) _ _ }

/-- A piece of memory that the heap can own: aligned, below `top`, and clear of the context. -/
structure Owned (root top p size : ℕ) : Prop where
  pos : 0 < size
  aligned : p % headerAlign = 0
  nonnull : 0 < p
  below : p + size ≤ top
  fits : p + size < 4294967296
  apart : p + size ≤ root - 8 ∨ root + 12 ≤ p

/-- The heap: the nodes of the free list, the live blocks, and what they add up to. -/
structure Heap (top : ℕ) (c : Context β) (S : Finset ℕ) (live : List ℕ) (total : ℕ) : Prop where
  root_mem : c.root ∈ S
  root_empty : (c.mem c.root).numBlocks = 0
  root_fits : 8 ≤ c.root ∧ c.root + 12 ≤ 4294967296
  freeList_mem : c.freeList ∈ S
  spaced : Spaced ∅ (blocks c.mem S)
  owned : ∀ p ∈ S, p ≠ c.root → Owned c.root top p (sizeOf c.mem p)
  live_owned : ∀ b ∈ live, Owned c.root top b (sizeOf c.mem b)
  clear : ∀ b ∈ live, Clear (blocks c.mem S) b (b + sizeOf c.mem b)
  live_apart : live.Pairwise fun a b => a + sizeOf c.mem a ≤ b ∨ b + sizeOf c.mem b ≤ a
  adds_up : (blocks c.mem S).total + (live.map (sizeOf c.mem)).sum = total

variable {top total : ℕ} {c : Context β} {S : Finset ℕ} {live : List ℕ} {p b : ℕ}

theorem Owned.ne_root {root size : ℕ} (h : Owned root top p size) : p ≠ root := by
  have h1 := h.apart
  have h2 := h.pos
  omega

theorem Owned.stop_ne_root {root size : ℕ} (h : Owned root top p size) (hroot : 8 ≤ root) :
    p + size ≠ root := by
  have h1 := h.apart
  have h2 := h.pos
  omega

/-- Two pieces side by side are one. -/
theorem Owned.append {root size size' : ℕ} (h : Owned root top p size)
    (h' : Owned root top (p + size) size') : Owned root top p (size + size') := by
  have h1 := h.apart
  have h2 := h'.apart
  have h3 := h'.pos
  have h4 := h'.below
  have h5 := h'.fits
  exact ⟨by omega, h.aligned, h.nonnull, by omega, by omega, by omega⟩

theorem Owned.mono {root size top' : ℕ} (h : Owned root top p size) (hle : top ≤ top') :
    Owned root top' p size :=
  ⟨h.pos, h.aligned, h.nonnull, h.below.trans hle, h.fits, h.apart⟩

theorem Heap.not_mem (h : Heap top c S live total) (hb : b ∈ live) : b ∉ S := by
  intro hmem
  have hclear := h.clear b hb b hmem
  have hpos := (h.live_owned b hb).pos
  rw [Blocks.stop, blocks] at hclear
  simp only at hclear
  omega

theorem Heap.root_size (h : Heap top c S live total) : sizeOf c.mem c.root = 0 := by
  rw [sizeOf, h.root_empty, Nat.zero_mul]

/-- Pointers to the end of a block do not wrap. -/
theorem advance_stop {mem : ℕ → Header} (h : p + sizeOf mem p < 4294967296) :
    advance p (mem p).numBlocks = p + sizeOf mem p := Nat.mod_eq_of_lt h

theorem Heap.fits (h : Heap top c S live total) (hp : p ∈ S) : p + sizeOf c.mem p < 4294967296 := by
  by_cases hroot : p = c.root
  · rw [hroot, h.root_size]
    have := h.root_fits
    omega
  · exact (h.owned p hp hroot).fits

/-- The pointer that a program holds, and the header in front of it. -/
theorem header_of_ptr (h : b + 8 < 4294967296) :
    wrap (advance b 1 + 4294967296 - headerSize) = b := by
  show ((b + 1 * 8) % 4294967296 + 4294967296 - 8) % 4294967296 = b
  omega

/-! ### The place of a freed block -/

theorem findPlace_between {mem : ℕ → Header} (hl : Linked S fun p => (mem p).nextPtr) :
    ∀ {fuel start : ℕ}, start ∈ S → findPlace mem b fuel start = some p →
      p ∈ S ∧ Between p b (mem p).nextPtr
  | fuel + 1, start, hs, h => by
    rw [findPlace] at h
    split at h
    · next hin =>
      obtain rfl := Option.some.inj h
      exact ⟨hs, Or.inl hin⟩
    · split at h
      · next hseam =>
        obtain rfl := Option.some.inj h
        exact ⟨hs, Or.inr hseam⟩
      · exact findPlace_between hl (hl.mem hs) h

/-! ### What the writes of `FreeList_Free` do -/

/-- What the writes rely on: the block is no node, and the blocks at hand do not wrap. -/
structure Freeing (mem : ℕ → Header) (p b : ℕ) : Prop where
  ne : p ≠ b
  pos : 0 < sizeOf mem b
  fits : b + sizeOf mem b < 4294967296
  fits_prev : p + sizeOf mem p < 4294967296
  next : b + sizeOf mem b = (mem p).nextPtr → (mem p).nextPtr ≠ p ∧
    (mem p).nextPtr + sizeOf mem (mem p).nextPtr < 4294967296

/-- The block is linked in, and joined with the one behind it. -/
def linked (mem : ℕ → Header) (S : Finset ℕ) (p b : ℕ) : Blocks := ((blocks mem S).link p b).join b

variable {mem : ℕ → Header}

theorem link_next (h : Freeing mem p b) : ((blocks mem S).link p b).next b = (mem p).nextPtr := by
  rw [Blocks.link, blocks]
  simp only [Function.update_of_ne h.ne.symm, Function.update_self]

theorem Freeing.next_ne (h : Freeing mem p b) (htouch : b + sizeOf mem b = (mem p).nextPtr) :
    (mem p).nextPtr ≠ b := by
  have := h.pos
  omega

theorem joinNext_next (h : Freeing mem p b) :
    Function.update (fun x => (joinNext mem p b x).nextPtr) p b = (linked mem S p b).next := by
  have hpb := h.ne
  have hstop : ((blocks mem S).link p b).stop b = b + sizeOf mem b := rfl
  rw [linked, Blocks.join, hstop, link_next h, joinNext, advance_stop h.fits]
  by_cases htouch : b + sizeOf mem b = (mem p).nextPtr
  · have hqp := (h.next htouch).1
    have hqb := h.next_ne htouch
    rw [if_pos htouch, if_pos htouch, Blocks.take, link_next h]
    funext x
    by_cases hxp : x = p
    · subst hxp
      simp only [Blocks.link, Function.update_self, Function.update_of_ne hpb]
    · by_cases hxb : x = b
      · subst hxb
        simp only [Blocks.link, blocks, Function.update_self, Function.update_of_ne hxp,
          Function.update_of_ne hqp, Function.update_of_ne hqb]
      · simp only [Blocks.link, blocks, Function.update_of_ne hxp, Function.update_of_ne hxb]
  · rw [if_neg htouch, if_neg htouch]
    funext x
    by_cases hxp : x = p
    · subst hxp
      simp only [Blocks.link, Function.update_self]
    · by_cases hxb : x = b
      · subst hxb
        simp only [Blocks.link, blocks, Function.update_self, Function.update_of_ne hxp]
      · simp only [Blocks.link, blocks, Function.update_of_ne hxp, Function.update_of_ne hxb]

theorem joinNext_size (h : Freeing mem p b) :
    sizeOf (joinNext mem p b) = (linked mem S p b).size := by
  have hstop : ((blocks mem S).link p b).stop b = b + sizeOf mem b := rfl
  rw [linked, Blocks.join, hstop, link_next h, joinNext, advance_stop h.fits]
  by_cases htouch : b + sizeOf mem b = (mem p).nextPtr
  · rw [if_pos htouch, if_pos htouch, Blocks.take, link_next h]
    funext x
    by_cases hxb : x = b
    · subst hxb
      have hfits := (h.next htouch).2
      simp only [Blocks.link, blocks, sizeOf, Function.update_self, headerSize, wrap] at hfits htouch ⊢
      omega
    · simp only [Blocks.link, blocks, sizeOf, Function.update_of_ne hxb]
  · rw [if_neg htouch, if_neg htouch]
    funext x
    by_cases hxb : x = b
    · subst hxb
      simp only [Blocks.link, blocks, sizeOf, Function.update_self]
    · simp only [Blocks.link, blocks, sizeOf, Function.update_of_ne hxb]

theorem linked_size_prev (h : Freeing mem p b) : (linked mem S p b).size p = sizeOf mem p := by
  rw [← joinNext_size h, joinNext]
  simp only
  split
  · simp only [sizeOf, Function.update_of_ne h.ne]
  · simp only [sizeOf, Function.update_of_ne h.ne]

theorem joinNext_prev (h : Freeing mem p b) : joinNext mem p b p = mem p := by
  rw [joinNext]
  simp only
  split
  · rw [Function.update_of_ne h.ne]
  · rw [Function.update_of_ne h.ne]

/-- `FreeList_Free` links the block in and joins it on both sides. -/
theorem joinPrev_blocks (h : Freeing mem p b)
    (hfits : b + (linked mem S p b).size b < 4294967296) :
    blocks (joinPrev (joinNext mem p b) p b) ((linked mem S p b).join p).nodes
      = (linked mem S p b).join p := by
  have hnext : (linked mem S p b).next p = b := by
    rw [← joinNext_next h, Function.update_self]
  have hsize := linked_size_prev (S := S) h
  have hmem := joinNext_prev h
  rw [Blocks.join, Blocks.stop, hnext, hsize, joinPrev, hmem, advance_stop h.fits_prev]
  by_cases htouch : p + sizeOf mem p = b
  · rw [if_pos htouch, if_pos htouch, Blocks.take, hnext, hsize, blocks, Blocks.mk.injEq]
    refine ⟨rfl, ?_, ?_⟩
    · rw [← joinNext_next h]
      funext x
      by_cases hxp : x = p
      · subst hxp
        simp only [Function.update_self, Function.update_of_ne h.ne.symm]
      · simp only [Function.update_of_ne hxp]
    · rw [← joinNext_size h] at hfits ⊢
      funext x
      by_cases hxp : x = p
      · subst hxp
        simp only [sizeOf, Function.update_self, headerSize, wrap] at hfits htouch ⊢
        omega
      · simp only [sizeOf, Function.update_of_ne hxp]
  · rw [if_neg htouch, if_neg htouch]
    have hn : (fun x => (Function.update (joinNext mem p b) p { mem p with nextPtr := b } x).nextPtr)
        = (linked mem S p b).next := by
      rw [← joinNext_next h]
      funext x
      by_cases hxp : x = p
      · subst hxp
        simp only [Function.update_self]
      · simp only [Function.update_of_ne hxp]
    have hs : sizeOf (Function.update (joinNext mem p b) p { mem p with nextPtr := b })
        = (linked mem S p b).size := by
      rw [← joinNext_size h]
      funext x
      by_cases hxp : x = p
      · subst hxp
        simp only [sizeOf, Function.update_self, hmem]
      · simp only [sizeOf, Function.update_of_ne hxp]
    exact congrArg₂ (Blocks.mk (linked mem S p b).nodes) hn hs

theorem joinPrev_other (mem : ℕ → Header) {x : ℕ} (hxp : x ≠ p) (hxb : x ≠ b) :
    joinPrev (joinNext mem p b) p b x = mem x := by
  have hn : joinNext mem p b x = mem x := by
    rw [joinNext]
    simp only
    split
    · rw [Function.update_of_ne hxb]
    · rw [Function.update_of_ne hxb]
  rw [joinPrev]
  split
  · rw [Function.update_of_ne hxp, hn]
  · rw [Function.update_of_ne hxp, hn]

/-! ### The root among the blocks -/

/-- The root is one of the nodes, and all others are memory that the heap owns. -/
structure Rooted (root top : ℕ) (B : Blocks) : Prop where
  root_mem : root ∈ B.nodes
  root_size : B.size root = 0
  owned : ∀ x ∈ B.nodes, x ≠ root → Owned root top x (B.size x)

variable {root : ℕ} {B : Blocks}

theorem Rooted.link (h : Rooted root top B) (hb : Owned root top b (B.size b)) :
    Rooted root top (B.link p b) := by
  refine ⟨Finset.mem_insert_of_mem h.root_mem, h.root_size, fun x hx hne => ?_⟩
  rcases Finset.mem_insert.mp hx with rfl | hxS
  · exact hb
  · exact h.owned x hxS hne

theorem Rooted.join (h : Rooted root top B) (hl : Linked B.nodes B.next) {x : ℕ} (hx : x ∈ B.nodes)
    (hne : B.stop x = B.next x → x ≠ root ∧ B.next x ≠ root) : Rooted root top (B.join x) := by
  rw [Blocks.join]
  by_cases htouch : B.stop x = B.next x
  · rw [if_pos htouch]
    obtain ⟨hxr, hqr⟩ := hne htouch
    have hxo := h.owned x hx hxr
    have hqo := h.owned _ (hl.mem hx) hqr
    refine ⟨Finset.mem_erase.mpr ⟨hqr.symm, h.root_mem⟩, ?_, fun y hy hyr => ?_⟩
    · rw [Blocks.take]
      simp only [Function.update_of_ne hxr.symm]
      exact h.root_size
    · obtain ⟨-, hyS⟩ := Finset.mem_erase.mp hy
      rw [Blocks.take]
      by_cases hyx : y = x
      · subst hyx
        simp only [Function.update_self]
        rw [← htouch] at hqo ⊢
        exact hxo.append hqo
      · simp only [Function.update_of_ne hyx]
        exact h.owned y hyS hyr
  · rw [if_neg htouch]
    exact h

/-! ### Freeing a block -/

theorem Heap.ptr_fits (h : Heap top c S live total) (hb : b ∈ live) : b + 8 < 4294967296 := by
  have hpos := (h.live_owned b hb).pos
  have hfits := (h.live_owned b hb).fits
  rw [sizeOf, headerSize] at hpos hfits
  omega

/-- The block at hand and its place are as the writes want them. -/
theorem Heap.freeing (h : Heap top c S live total) (hb : b ∈ live) (hp : p ∈ S) :
    Freeing c.mem p b := by
  have hown := h.live_owned b hb
  refine ⟨fun heq => h.not_mem hb (heq ▸ hp), hown.pos, hown.fits, h.fits hp, fun htouch => ⟨?_, ?_⟩⟩
  · -- only the root can be alone
    intro hqp
    have hnext := h.spaced.linked p hp
    rw [show (blocks c.mem S).next p = p from hqp] at hnext
    have hroot := hnext.alone h.root_mem
    exact hown.stop_ne_root h.root_fits.1 (by rw [htouch, hqp, hroot])
  · exact h.fits (h.spaced.linked.mem hp)

/-- Other live blocks lie clear of it. -/
theorem Heap.live_others (h : Heap top c S live total) (hb : b ∈ live) {d : ℕ}
    (hd : d ∈ live.erase b) : d ∈ live ∧ d ≠ b ∧
      (b + sizeOf c.mem b ≤ d ∨ d + sizeOf c.mem d ≤ b) := by
  have hdl := List.mem_of_mem_erase hd
  have hperm := (List.perm_cons_erase hb).pairwise h.live_apart fun hab => hab.symm
  have hbd := (List.pairwise_cons.mp hperm).1 d hd
  have hpos := (h.live_owned d hdl).pos
  have hpos' := (h.live_owned b hb).pos
  refine ⟨hdl, ?_, hbd⟩
  rintro rfl
  omega

/-- The block linked in and joined with the one behind it. -/
theorem Heap.linked (h : Heap top c S live total) (hb : b ∈ live) (hp : p ∈ S)
    (hbetween : Between p b (c.mem p).nextPtr) :
    Spaced (({p, b} : Finset ℕ).erase b) (linked c.mem S p b) ∧
      Rooted c.root top (linked c.mem S p b) ∧
      (linked c.mem S p b).total = sizeOf c.mem b + (blocks c.mem S).total ∧
      p ∈ (linked c.mem S p b).nodes ∧ b ∈ (linked c.mem S p b).nodes ∧
      ∀ d ∈ live.erase b, Clear (linked c.mem S p b) d (d + sizeOf c.mem d) := by
  have hf := h.freeing hb hp
  have hown := h.live_owned b hb
  have hnext := link_next (S := S) hf
  have hspaced : Spaced {p, b} ((blocks c.mem S).link p b) :=
    h.spaced.link hp hbetween (h.clear b hb) hown.pos
  have hrooted : Rooted c.root top ((blocks c.mem S).link p b) :=
    Rooted.link ⟨h.root_mem, h.root_size, h.owned⟩ hown
  have hmem : b ∈ ((blocks c.mem S).link p b).nodes := Finset.mem_insert_self b S
  have hpmem : p ∈ ((blocks c.mem S).link p b).nodes := Finset.mem_insert_of_mem hp
  have hstop : ((blocks c.mem S).link p b).stop b = b + sizeOf c.mem b := rfl
  refine ⟨hspaced.join hmem fun htouch => ?_, hrooted.join hspaced.linked hmem fun htouch => ?_, ?_,
    ?_, ?_, fun d hd => ?_⟩
  · rw [hstop, hnext] at htouch
    rw [hnext]
    refine ⟨hown.pos, fun hin => ?_⟩
    rcases Finset.mem_insert.mp hin with heq | heq
    · exact (hf.next htouch).1 heq
    · exact hf.next_ne htouch (Finset.mem_singleton.mp heq)
  · rw [hstop] at htouch
    exact ⟨hown.ne_root, by rw [← htouch]; exact hown.stop_ne_root h.root_fits.1⟩
  · rw [FreeList.linked, Blocks.total_join hspaced.linked hmem fun _ => hown.pos,
      Blocks.total_link (h.not_mem hb)]
    rfl
  · rw [FreeList.linked, Blocks.join, hstop, hnext]
    split
    · next htouch =>
      exact Finset.mem_erase.mpr ⟨by rw [hnext]; exact ((hf.next htouch).1).symm, hpmem⟩
    · exact hpmem
  · rw [FreeList.linked, Blocks.join, hstop, hnext]
    split
    · next htouch =>
      exact Finset.mem_erase.mpr ⟨by rw [hnext]; exact (hf.next_ne htouch).symm, hmem⟩
    · exact hmem
  · obtain ⟨hdl, -, hbd⟩ := h.live_others hb hd
    have hclear : Clear ((blocks c.mem S).link p b) d (d + sizeOf c.mem d) :=
      (h.clear d hdl).link hbd
    exact hclear.join hmem hspaced.linked (Nat.lt_add_of_pos_right (h.live_owned d hdl).pos)

/-- The block is what the free list gains. -/
theorem Heap.linked_grown (h : Heap top c S live total) (hb : b ∈ live) (hp : p ∈ S)
    (hbetween : Between p b (c.mem p).nextPtr)
    (hblocks : blocks (joinPrev (joinNext c.mem p b) p b) ((FreeList.linked c.mem S p b).join p).nodes =
      (FreeList.linked c.mem S p b).join p)
    (hjoin : ∀ a, ((FreeList.linked c.mem S p b).join p).Has a ↔ (FreeList.linked c.mem S p b).Has a) :
    Grown b c.mem (joinPrev (joinNext c.mem p b) p b) S ((FreeList.linked c.mem S p b).join p).nodes ∧
      ∀ a, b ≤ a → a < b + sizeOf c.mem b →
        (blocks (joinPrev (joinNext c.mem p b) p b) ((FreeList.linked c.mem S p b).join p).nodes).Has a := by
  have hmem : b ∈ ((blocks c.mem S).link p b).nodes := Finset.mem_insert_self b S
  have hspaced : Spaced {p, b} ((blocks c.mem S).link p b) :=
    h.spaced.link hp hbetween (h.clear b hb) (h.live_owned b hb).pos
  have hlinked : ∀ a, (FreeList.linked c.mem S p b).Has a ↔ ((blocks c.mem S).link p b).Has a := fun a =>
    Blocks.has_join hmem hspaced.linked fun _ => (h.live_owned b hb).pos
  refine ⟨⟨fun x hx => ?_, fun a ha => ?_, fun a ha => ?_, fun x hx hlt => ?_⟩, fun a hle hlt => ?_⟩
  · rcases Finset.mem_insert.mp (Blocks.join_nodes (Blocks.join_nodes hx)) with rfl | hxS
    · exact .inr le_rfl
    · exact .inl hxS
  · rw [hblocks, hjoin, hlinked]
    exact ha.link
  · rw [hblocks, hjoin, hlinked] at ha
    exact (Blocks.has_link ha).imp_right fun hin => hin.1
  · exact joinPrev_other c.mem (fun heq => hx (heq ▸ hp)) (Nat.ne_of_lt hlt)
  · rw [hblocks, hjoin, hlinked]
    exact Blocks.has_new hle hlt

/-- `FreeList_Free` gives a live block back. -/
theorem Heap.free (h : Heap top c S live total) (hb : b ∈ live) {fuel : ℕ} {c' : Context β}
    (hrun : FreeList.free fuel c (advance b 1) = some c') :
    ∃ S', Heap top c' S' (live.erase b) total ∧
      (blocks c'.mem S').total = sizeOf c.mem b + (blocks c.mem S).total ∧
      Grown b c.mem c'.mem S S' ∧ (∃ x ∈ S', sizeOf c.mem b ≤ sizeOf c'.mem x) ∧
      ∃ mem freeList, c' = { c with mem := mem, freeList := freeList } := by
  rw [FreeList.free, header_of_ptr (h.ptr_fits hb), Option.map_eq_some_iff] at hrun
  obtain ⟨p, hplace, rfl⟩ := hrun
  obtain ⟨hp, hbetween⟩ := findPlace_between h.spaced.linked h.freeList_mem hplace
  obtain ⟨hspaced, hrooted, htotal, hpmem, hbmem, hclear⟩ := h.linked hb hp hbetween
  have hf := h.freeing hb hp
  have hown := h.live_owned b hb
  have hbr := hown.ne_root
  have hnext : (FreeList.linked c.mem S p b).next p = b := by
    rw [← joinNext_next hf, Function.update_self]
  have hsize := linked_size_prev (S := S) hf
  have hstop : (FreeList.linked c.mem S p b).stop p = p + sizeOf c.mem p := by
    rw [Blocks.stop, hsize]
  -- joined with the block before it, which is not the root
  have hpr : p + sizeOf c.mem p = b → p ≠ c.root := by
    rintro htouch rfl
    rw [h.root_size] at htouch
    exact hf.ne htouch
  have hpos : (FreeList.linked c.mem S p b).stop p = (FreeList.linked c.mem S p b).next p →
      0 < (FreeList.linked c.mem S p b).size p := by
    rw [hstop, hnext, hsize]
    exact fun htouch => (h.owned p hp (hpr htouch)).pos
  have hspaced' := hspaced.join hpmem fun htouch => ⟨hpos htouch, by
    rw [hnext]
    exact Finset.notMem_erase b _⟩
  have hrooted' := hrooted.join hspaced.linked hpmem fun htouch => by
    rw [hstop, hnext] at htouch
    rw [hnext]
    exact ⟨hpr htouch, hbr⟩
  have htotal' := Blocks.total_join hspaced.linked hpmem hpos
  have hempty : (({p, b} : Finset ℕ).erase b).erase p = ∅ := by grind
  have hblocks := joinPrev_blocks hf (hrooted.owned b hbmem hbr).fits
  have hsizes : ∀ d ∈ live.erase b,
      sizeOf (joinPrev (joinNext c.mem p b) p b) d = sizeOf c.mem d := by
    intro d hd
    obtain ⟨hdl, hdb, -⟩ := h.live_others hb hd
    have hdp : d ≠ p := fun heq => h.not_mem hdl (heq ▸ hp)
    rw [sizeOf, joinPrev_other c.mem hdp hdb, sizeOf]
  have hsize' := congrArg Blocks.size hblocks
  obtain ⟨hgrown, hgain⟩ := h.linked_grown hb hp hbetween hblocks fun a =>
    Blocks.has_join hpmem hspaced.linked hpos
  have hspaced₂ : Spaced ∅ (blocks (joinPrev (joinNext c.mem p b) p b)
      ((FreeList.linked c.mem S p b).join p).nodes) := by
    rw [hblocks, ← hempty]
    exact hspaced'
  have hpiece : ∃ x ∈ ((FreeList.linked c.mem S p b).join p).nodes,
      sizeOf c.mem b ≤ sizeOf (joinPrev (joinNext c.mem p b) p b) x := by
    obtain ⟨x, hx, hle, hstop⟩ := hspaced₂.has_piece (Nat.lt_add_of_pos_right hown.pos) hgain
    refine ⟨x, hx, ?_⟩
    rw [Blocks.stop, blocks] at hstop
    simp only at hstop
    omega
  refine ⟨((FreeList.linked c.mem S p b).join p).nodes, ?_, ?_, hgrown, hpiece, _, _, rfl⟩
  · exact
      { root_mem := hrooted'.root_mem
        root_empty := by
          have hroot := (congrFun hsize' c.root).trans hrooted'.root_size
          exact (Nat.mul_eq_zero.mp hroot).resolve_right (by decide)
        root_fits := h.root_fits
        freeList_mem := by
          rw [Blocks.join]
          split
          · exact Finset.mem_erase.mpr ⟨by rw [hnext]; exact hf.ne, hpmem⟩
          · exact hpmem
        spaced := hspaced₂
        owned := fun x hx hxr => by
          rw [show sizeOf _ x = _ from congrFun hsize' x]
          exact hrooted'.owned x hx hxr
        live_owned := fun d hd => by
          rw [hsizes d hd]
          exact h.live_owned d (h.live_others hb hd).1
        clear := fun d hd => by
          rw [hblocks, hsizes d hd]
          exact (hclear d hd).join hpmem hspaced.linked
            (Nat.lt_add_of_pos_right (h.live_owned d (h.live_others hb hd).1).pos)
        live_apart := by
          refine (h.live_apart.sublist List.erase_sublist).imp_of_mem fun ha hd had => ?_
          rw [hsizes _ ha, hsizes _ hd]
          exact had
        adds_up := by
          have hsum := List.sum_map_erase (sizeOf c.mem) hb
          rw [hblocks, htotal', htotal, List.map_congr_left hsizes]
          have := h.adds_up
          omega }
  · rw [hblocks, htotal', htotal]

end FreeList
