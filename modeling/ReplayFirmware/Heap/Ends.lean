import ReplayFirmware.Heap.Serves

/-! Whether an allocation comes to an end.

    Every time that the search has gone all the way around, the break takes something from what is left
    of memory, as long as it is not moved by nothing. -/

namespace FreeList
open Circle Coalesce

variable {β : Type} {bound left brkAt : β → ℕ} {c c' : Context β} {S : Finset ℕ} {live : List ℕ}
  {sbrkFunc : β → ℕ → ℕ × β} {p b : ℕ} {mem : ℕ → Header}

/-! ### The search, case by case -/

/-- What the search returns with a block that fits. -/
def taken (n : ℕ) (c : Context β) (prevPtr p : ℕ) : ℕ × Context β :=
  if (c.mem p).numBlocks = n then
    (advance p 1,
      { c with
        mem := Function.update c.mem prevPtr { c.mem prevPtr with nextPtr := (c.mem p).nextPtr }
        freeList := prevPtr })
  else
    (advance (advance p ((c.mem p).numBlocks - n)) 1, { c with mem := cut c.mem p n, freeList := prevPtr })

theorem search_fits {n fuel prevPtr : ℕ} (hfits : n ≤ (c.mem p).numBlocks) :
    search n (fuel + 1) c prevPtr p = some (taken n c prevPtr p) := by
  rw [search, taken]
  simp only
  rw [if_pos hfits]
  by_cases hsize : (c.mem p).numBlocks = n
  · rw [if_pos hsize, if_pos hsize]
  · rw [if_neg hsize, if_neg hsize]
    rfl

theorem search_next {n fuel prevPtr : ℕ} (hsmall : ¬n ≤ (c.mem p).numBlocks) (hp : p ≠ c.freeList) :
    search n (fuel + 1) c prevPtr p = search n fuel c p (c.mem p).nextPtr := by
  rw [search]
  simp only
  rw [if_neg hsmall, if_neg hp]

theorem search_refused {n fuel prevPtr : ℕ} (hsmall : ¬n ≤ (c.mem c.freeList).numBlocks)
    (hs : c.sbrkFunc = none) : search n (fuel + 1) c prevPtr c.freeList = some (0, c) := by
  rw [search]
  simp only
  rw [if_neg hsmall, if_pos trivial]
  split
  · rfl
  · next f hf =>
    rw [hs] at hf
    cases hf

/-- What the search does with an area that the break has given. -/
def added (c : Context β) (q addBytes : ℕ) (brk : β) : Context β :=
  { c with
    mem := Function.update c.mem q { nextPtr := 0, numBlocks := addBytes / headerSize }
    brk := brk }

def counted (c : Context β) (addBytes : ℕ) : Context β := { c with heapSize := wrap (c.heapSize + addBytes) }

theorem search_round {n fuel prevPtr : ℕ} (hsmall : ¬n ≤ (c.mem c.freeList).numBlocks)
    (hs : c.sbrkFunc = some sbrkFunc) : search n (fuel + 1) c prevPtr c.freeList =
      (askMemory sbrkFunc n (if n < 1024 then 1024 else n) fuel 1 c.brk).bind fun r =>
        if r.1 = noMemory then some (0, { c with brk := r.2.2 })
        else (free fuel (added c r.1 r.2.1 r.2.2) (advance r.1 1)).bind fun c₁ =>
          search n fuel (counted c₁ r.2.1) c₁.freeList (c₁.mem c₁.freeList).nextPtr := by
  rw [search]
  simp only
  rw [if_neg hsmall, if_pos trivial]
  split
  · next hnone =>
    rw [hs] at hnone
    cases hnone
  next f hf =>
    obtain rfl : sbrkFunc = f := Option.some.inj (hs.symm.trans hf)
    cases askMemory sbrkFunc n (if n < 1024 then 1024 else n) fuel 1 c.brk with
    | none => rfl
    | some r =>
      obtain ⟨q, addBytes, brk⟩ := r
      simp only [Option.bind_some]
      by_cases hq : q = noMemory
      · rw [if_pos hq, if_pos hq]
      · rw [if_neg hq, if_neg hq]
        cases hfree : free fuel (added c q addBytes brk) (advance q 1) with
        | none =>
          rw [added] at hfree
          simp only [hfree, Option.bind_none]
        | some c₁ =>
          rw [added] at hfree
          simp only [hfree, Option.bind_some, counted]

/-! ### More fuel -/

theorem findPlace_succ : ∀ {fuel p r : ℕ}, findPlace mem b fuel p = some r →
    findPlace mem b (fuel + 1) p = some r
  | fuel + 1, p, r, h => by
    rw [findPlace] at h ⊢
    split at h
    · next hin => rw [if_pos hin, h]
    · next hin =>
      rw [if_neg hin]
      split at h
      · next hseam => rw [if_pos hseam, h]
      · next hseam => rw [if_neg hseam, findPlace_succ h]

theorem askMemory_succ {n addBlocks : ℕ} : ∀ {fuel divider : ℕ} {brk : β} {r : ℕ × ℕ × β},
    askMemory sbrkFunc n addBlocks fuel divider brk = some r →
      askMemory sbrkFunc n addBlocks (fuel + 1) divider brk = some r
  | fuel + 1, divider, brk, r, h => by
    rw [askMemory] at h ⊢
    simp only at h ⊢
    split at h
    · next hmore => rw [if_pos hmore, askMemory_succ h]
    · next hmore => rw [if_neg hmore, h]

theorem free_succ {fuel ptr : ℕ} (h : free fuel c ptr = some c') : free (fuel + 1) c ptr = some c' := by
  rw [free, Option.map_eq_some_iff] at h ⊢
  obtain ⟨p, hplace, hc'⟩ := h
  exact ⟨p, findPlace_succ hplace, hc'⟩

theorem search_succ {n : ℕ} : ∀ {fuel : ℕ} {c : Context β} {prevPtr p : ℕ} {r : ℕ × Context β},
    search n fuel c prevPtr p = some r → search n (fuel + 1) c prevPtr p = some r
  | fuel + 1, c, prevPtr, p, r, h => by
    by_cases hfits : n ≤ (c.mem p).numBlocks
    · rw [search_fits hfits] at h ⊢
      exact h
    by_cases hround : p = c.freeList
    · subst hround
      cases hs : c.sbrkFunc with
      | none =>
        rw [search_refused hfits hs] at h ⊢
        exact h
      | some sbrkFunc =>
        rw [search_round hfits hs, Option.bind_eq_some_iff] at h ⊢
        obtain ⟨⟨q, addBytes, brk⟩, hask, hrest⟩ := h
        refine ⟨_, askMemory_succ hask, ?_⟩
        split at hrest
        · next hq => rw [if_pos hq, hrest]
        next hq =>
          rw [Option.bind_eq_some_iff] at hrest
          obtain ⟨c₁, hfree, hrest⟩ := hrest
          rw [if_neg hq, Option.bind_eq_some_iff]
          exact ⟨c₁, free_succ hfree, search_succ hrest⟩
    · rw [search_next hfits hround] at h ⊢
      exact search_succ h

/-- A run that ends with some fuel ends with more. -/
theorem mono_of_succ {γ : Type} {f : ℕ → Option γ} (hsucc : ∀ fuel r, f fuel = some r → f (fuel + 1) = some r)
    {fuel : ℕ} {r : γ} (h : f fuel = some r) {more : ℕ} (hle : fuel ≤ more) : f more = some r := by
  induction more, hle using Nat.le_induction with
  | base => exact h
  | succ more _ ih => exact hsucc more r ih

theorem askMemory_mono {n addBlocks fuel more divider : ℕ} {brk : β} {r : ℕ × ℕ × β}
    (h : askMemory sbrkFunc n addBlocks fuel divider brk = some r) (hle : fuel ≤ more) :
    askMemory sbrkFunc n addBlocks more divider brk = some r :=
  mono_of_succ (f := fun fuel => askMemory sbrkFunc n addBlocks fuel divider brk) (fun _ _ => askMemory_succ) h hle

theorem free_mono {fuel more ptr : ℕ} (h : free fuel c ptr = some c') (hle : fuel ≤ more) :
    free more c ptr = some c' :=
  mono_of_succ (f := fun fuel => free fuel c ptr) (fun _ _ => free_succ) h hle

theorem search_mono {n fuel more prevPtr : ℕ} {r : ℕ × Context β} (h : search n fuel c prevPtr p = some r)
    (hle : fuel ≤ more) : search n more c prevPtr p = some r :=
  mono_of_succ (f := fun fuel => search n fuel c prevPtr p) (fun _ _ => search_succ) h hle

/-! ### The place of a freed block -/

theorem findPlace_reaches : ∀ {k start p : ℕ}, (fun x => (mem x).nextPtr)^[k] start = p →
    Between p b (mem p).nextPtr → ∃ fuel r, findPlace mem b fuel start = some r
  | 0, start, p, hk, hb => by
    obtain rfl : start = p := hk
    refine ⟨1, start, ?_⟩
    rw [findPlace]
    split
    · rfl
    · next hout => rw [if_pos (hb.resolve_left hout)]
  | k + 1, start, p, hk, hb => by
    obtain ⟨fuel, r, hr⟩ := @findPlace_reaches k (mem start).nextPtr p hk hb
    refine ⟨fuel + 1, ?_⟩
    rw [findPlace]
    split
    · exact ⟨start, rfl⟩
    · split
      · exact ⟨start, rfl⟩
      · exact ⟨r, hr⟩

/-- `FreeList_Free` ends for a live block. -/
theorem Heap.free_ends {top total : ℕ} (h : Heap top c S live total) (hb : b ∈ live) :
    ∃ fuel c', FreeList.free fuel c (advance b 1) = some c' := by
  obtain ⟨p, hp, hbetween⟩ := h.spaced.linked.exists_between ⟨_, h.root_mem⟩ (h.not_mem hb)
  obtain ⟨k, hk⟩ := h.spaced.linked.reach hp c.freeList h.freeList_mem
  obtain ⟨fuel, r, hr⟩ := findPlace_reaches hk hbetween
  refine ⟨fuel, { c with mem := joinPrev (joinNext c.mem r b) r b, freeList := r }, ?_⟩
  rw [FreeList.free, header_of_ptr (h.ptr_fits hb), hr, Option.map_some]

/-! ### More memory -/

/-- A break over a finite memory: requests of whole headers are granted as long as they fit what is
    left, one for nothing with the break; others are refused. -/
structure Finite (sbrkFunc : β → ℕ → ℕ × β) (brkAt left : β → ℕ) : Prop where
  brk_ne : ∀ brk, brkAt brk ≠ noMemory
  granted : ∀ brk n, n % headerSize = 0 → n ≤ left brk → (sbrkFunc brk n).1 = brkAt brk ∧
    brkAt (sbrkFunc brk n).2 = brkAt brk + n ∧ left (sbrkFunc brk n).2 + n = left brk
  refused : ∀ brk n, left brk < n → sbrkFunc brk n = (noMemory, brk)

/-- What is refused leaves all that was left, what is given takes it away. -/
theorem askMemory_left (hfin : Finite sbrkFunc brkAt left) {n addBlocks : ℕ} :
    ∀ {fuel divider : ℕ} {brk brk' : β} {q addBytes : ℕ},
      askMemory sbrkFunc n addBlocks fuel divider brk = some (q, addBytes, brk') → q ≠ noMemory →
        left brk' + addBytes = left brk
  | fuel + 1, divider, brk, brk', q, addBytes, h, hq => by
    rw [askMemory] at h
    simp only at h
    have hmod := wrap_mul_mod (addBlocks / divider)
    by_cases hfits : wrap (addBlocks / divider * headerSize) ≤ left brk
    · obtain ⟨hbrk, -, hleft⟩ := hfin.granted brk _ hmod hfits
      rw [if_neg fun hf => hfin.brk_ne brk (hbrk ▸ hf.1), Option.some.injEq, Prod.mk.injEq, Prod.mk.injEq] at h
      obtain ⟨-, rfl, rfl⟩ := h
      exact hleft
    · have hrefused := hfin.refused brk _ (Nat.lt_of_not_le hfits)
      rw [hrefused] at h
      split at h
      · exact askMemory_left hfin h hq
      · rw [Option.some.injEq, Prod.mk.injEq] at h
        exact absurd h.1.symm hq

/-- The loop ends when it asks for less than is needed. -/
theorem askMemory_ends {n addBlocks : ℕ} (hn : 0 < n) (hlt : n < 536870912) (hadd : addBlocks < 536870912) :
    ∀ (k divider : ℕ) (brk : β), divider + k = addBlocks + 1 →
      ∃ fuel r, askMemory sbrkFunc n addBlocks fuel divider brk = some r
  | 0, divider, brk, hk => by
    have hzero : addBlocks / divider = 0 := Nat.div_eq_of_lt (by omega)
    have hneed : wrap (n * headerSize) = n * 8 := Nat.mod_eq_of_lt (by rw [headerSize]; omega)
    refine ⟨1, ((sbrkFunc brk 0).1, 0, (sbrkFunc brk 0).2), ?_⟩
    rw [askMemory, hzero, hneed, Nat.zero_mul, show wrap 0 = 0 from rfl]
    exact if_neg fun hf => absurd hf.2 (by omega)
  | k + 1, divider, brk, hk => by
    have hwrap : wrap (divider + 1) = divider + 1 := Nat.mod_eq_of_lt (by omega)
    obtain ⟨fuel, r, hr⟩ := askMemory_ends hn hlt hadd k (divider + 1)
      (sbrkFunc brk (wrap (addBlocks / divider * headerSize))).2 (by omega)
    refine ⟨fuel + 1, ?_⟩
    rw [askMemory]
    simp only
    split
    · rw [hwrap]
      exact ⟨r, hr⟩
    · exact ⟨_, rfl⟩

/-! ### The search ends -/

/-- The walk over the list comes to its start again, if nothing ends it before. -/
theorem search_walk {n : ℕ} (hl : Linked S fun x => (c.mem x).nextPtr)
    (hround : ∀ prevPtr, (∀ x ∈ S, Between c.freeList x c.freeList → (c.mem x).numBlocks < n) →
      ∃ fuel r, search n fuel c prevPtr c.freeList = some r) :
    ∀ (k prevPtr p : ℕ), p ∈ S → (fun x => (c.mem x).nextPtr)^[k] p = c.freeList →
      (∀ x ∈ S, Between c.freeList x p → (c.mem x).numBlocks < n) →
        ∃ fuel r, search n fuel c prevPtr p = some r
  | k, prevPtr, p, hp, hk, hseen => by
    by_cases hstart : p = c.freeList
    · subst hstart
      exact hround prevPtr hseen
    by_cases hfits : n ≤ (c.mem p).numBlocks
    · exact ⟨1, _, search_fits hfits⟩
    cases k with
    | zero => exact absurd hk hstart
    | succ k =>
      obtain ⟨fuel, r, hr⟩ := search_walk hl hround k p (c.mem p).nextPtr (hl.mem hp) hk fun x hx hb => by
        rcases (hl p hp).between_step hx hb with hx' | rfl
        · exact hseen x hx hx'
        · exact Nat.lt_of_not_le hfits
      exact ⟨fuel + 1, r, by rw [search_next hfits hstart, hr]⟩

/-- With a finite memory the search ends, where it never moves the break by nothing. -/
theorem search_ends (hfin : Finite sbrkFunc brkAt left) {n : ℕ} (hn : 0 < n) (hlt : n < 536870912) :
    ∀ (room : ℕ) {c : Context β} {S : Finset ℕ}, Sound bound c S live → c.sbrkFunc = some sbrkFunc →
      left c.brk = room → Room n c (0 < (blocks c.mem S).total) →
        ∃ fuel r, search n fuel c c.freeList (c.mem c.freeList).nextPtr = some r := by
  intro room
  induction room using Nat.strong_induction_on with
  | _ room ih =>
    intro c S h hs hleft hroom
    have hl := h.heap.spaced.linked
    have hp := hl.mem h.heap.freeList_mem
    obtain ⟨k, hk⟩ := hl.reach h.heap.freeList_mem _ hp
    refine search_walk hl (fun prevPtr hseen => ?_) k _ _ hp hk fun x hx hb =>
      absurd hb ((hl _ h.heap.freeList_mem).not_between hx)
    by_cases hfits : n ≤ (c.mem c.freeList).numBlocks
    · exact ⟨1, _, search_fits hfits⟩
    obtain ⟨fuel₁, ⟨q, addBytes, brk⟩, hask⟩ := @askMemory_ends _ sbrkFunc _ _ hn hlt
      (show (if n < 1024 then 1024 else n) < 536870912 by split <;> omega) (if n < 1024 then 1024 else n) 1 c.brk
      (Nat.add_comm _ _)
    by_cases hq : q = noMemory
    · refine ⟨fuel₁ + 1, (0, { c with brk := brk }), ?_⟩
      rw [search_round hfits hs, hask]
      exact if_pos hq
    have hpos := asked_pos hn hroom hs (Nat.lt_of_not_le hfits) hseen hask hq
    obtain ⟨hle, hmod, hown⟩ := askMemory_owned (h.areas _ hs) hask
    obtain ⟨hge, hown⟩ := hown hq hpos
    have hgrown := h.heap.grow hge hmod hown brk
    obtain ⟨fuel₂, c₁, hfree⟩ := hgrown.free_ends List.mem_cons_self
    obtain ⟨S', hsound, htotal, hsame, hbrk, -⟩ := h.grow hs (askMemory_mono hask (Nat.le_max_left fuel₁ fuel₂))
      hq hpos (free_mono hfree (Nat.le_max_right fuel₁ fuel₂))
    have hless : left c₁.brk < room := by
      have := askMemory_left hfin hask hq
      rw [hbrk]
      omega
    obtain ⟨fuel₃, r, hr⟩ := ih _ hless hsound (hsame.trans hs) rfl fun f hf =>
      (hroom f (hsame ▸ hf)).imp_right fun hroom => ⟨hroom.1, fun _ => .inl htotal⟩
    refine ⟨max (max fuel₁ fuel₂) fuel₃ + 1, r, ?_⟩
    rw [search_round hfits hs, askMemory_mono hask (by omega)]
    simp only [Option.bind_some]
    rw [if_neg hq, show free _ (added c q addBytes brk) (advance q 1) = some c₁ from
      free_mono hfree (by omega), Option.bind_some]
    exact search_mono hr (by omega)

/-! ### For which sizes -/

/-- A call with this heap comes to an end. -/
def EndsIn (c : Context β) (size : ℕ) : Prop := ∃ fuel r, alloc fuel c size = some r

/-- It does so with every heap, over every finite memory. -/
def Ends (size : ℕ) : Prop :=
  ∀ (β : Type) (sbrkFunc : β → ℕ → ℕ × β) (bound brkAt left : β → ℕ) (c : Context β) (S : Finset ℕ)
    (live : List ℕ), Finite sbrkFunc brkAt left → c.sbrkFunc = some sbrkFunc → Sound bound (start c) S live →
      EndsIn c size

theorem start_sbrkFunc : (start c).sbrkFunc = c.sbrkFunc := by
  rw [start]
  split <;> rfl

theorem start_brk : (start c).brk = c.brk := by
  rw [start]
  split <;> rfl

theorem Sound.ends (h : Sound bound (start c) S live) (hfin : Finite sbrkFunc brkAt left)
    (hs : c.sbrkFunc = some sbrkFunc) {size : ℕ} (hlt : blocksFor size < 536870912)
    (hroom : Room (blocksFor size) (start c) (0 < (blocks (start c).mem S).total)) : EndsIn c size :=
  search_ends hfin (blocksFor_pos size) hlt _ h (start_sbrkFunc.trans hs) rfl hroom

/-- Some request is granted, if one of them fits what is left. -/
theorem Finite.grants (hfin : Finite sbrkFunc brkAt left) : ∀ (ns : List ℕ) (brk : β),
    (∀ n ∈ ns, n % headerSize = 0) → (∃ n ∈ ns, n ≤ left brk) → Granted sbrkFunc ns brk
  | [], _, _, hsome => by
    obtain ⟨n, hn, -⟩ := hsome
    cases hn
  | n :: ns, brk, hmod, hsome => by
    by_cases hfits : n ≤ left brk
    · refine .inl ?_
      rw [(hfin.granted brk n (hmod n List.mem_cons_self) hfits).1]
      exact hfin.brk_ne brk
    · refine .inr ?_
      rw [hfin.refused brk n (Nat.lt_of_not_le hfits)]
      refine hfin.grants ns brk (fun m hm => hmod m (List.mem_cons_of_mem _ hm)) ?_
      obtain ⟨m, hm, hle⟩ := hsome
      rcases List.mem_cons.mp hm with rfl | hm
      · exact absurd hle hfits
      · exact ⟨m, hm, hle⟩

theorem requests_mod : ∀ n ∈ requests, n % headerSize = 0 := by
  intro n hn
  obtain ⟨divider, -, rfl⟩ := List.mem_map.mp hn
  exact Nat.mul_mod_left _ _

theorem header_mem_requests : 8 ∈ requests :=
  List.mem_map.mpr ⟨1024, List.mem_range'_1.mpr ⟨by decide, by decide⟩, rfl⟩

/-- A single header is to be had while a block is free, or one more fits. -/
theorem room_of_left (hfin : Finite sbrkFunc brkAt left) (hs : c.sbrkFunc = some sbrkFunc) {n : ℕ}
    (hlt : n < 536870912) {free : Prop} (h : free ∨ 8 ≤ left c.brk) : Room n c free := by
  intro f hf
  obtain rfl : sbrkFunc = f := Option.some.inj (hs.symm.trans hf)
  exact .inr ⟨hlt, fun _ => h.imp_right fun hle => hfin.grants _ _ requests_mod ⟨8, header_mem_requests, hle⟩⟩

/-! ### A heap with which it does not end -/

/-- Nothing is left: only the break itself is given. -/
def noneLeft (brk : Unit) (n : ℕ) : ℕ × Unit := if n = 0 then (16384, brk) else (noMemory, brk)

/-- Nothing is free either. Address 0 holds a pointer to the break. -/
def full : Context Unit where
  sbrkFunc := some noneLeft
  heapSize := 0
  root := 8200
  freeList := 0
  mem := fun x => if x = 0 then { nextPtr := 16384, numBlocks := 0 } else { nextPtr := 0, numBlocks := 0 }
  brk := ()

theorem noneLeft_finite : Finite noneLeft (fun _ => 16384) fun _ => 0 where
  brk_ne _ := by decide
  granted brk n _ hn := by
    obtain rfl := Nat.le_zero.mp hn
    exact ⟨rfl, rfl, rfl⟩
  refused brk n hn := if_neg (Nat.ne_of_gt hn)

theorem noneLeft_areas : Areas 8200 noneLeft fun _ => 16384 := by
  have hgiven : ∀ brk n, (noneLeft brk n).1 ≠ noMemory → n = 0 ∧ (noneLeft brk n).1 = 16384 := by
    intro brk n h
    by_cases hn : n = 0
    · exact ⟨hn, by rw [noneLeft, if_pos hn]⟩
    · exact absurd (by rw [noneLeft, if_neg hn]) h
  exact
    { grows := fun _ _ => le_rfl
      increasing := fun brk n h => by
        obtain ⟨rfl, hptr⟩ := hgiven brk n h
        rw [hptr]
        exact ⟨le_rfl, le_rfl⟩
      aligned := fun brk n h => by
        rw [(hgiven brk n h).2]
        rfl
      nonnull := fun brk n h => by
        rw [(hgiven brk n h).2]
        decide
      fits := fun brk n h => by
        obtain ⟨rfl, hptr⟩ := hgiven brk n h
        rw [hptr]
        decide
      apart := fun brk n h => by
        rw [(hgiven brk n h).2]
        exact .inr (by decide) }

theorem full_sound : Sound (fun _ => 16384) (start full) {8200} [] := by
  refine Fresh.start (c := full) ⟨rfl, rfl, rfl, (by decide : 8 ≤ 8200 ∧ 8200 + 12 ≤ 4294967296), fun f hf => ?_⟩
  obtain rfl := Option.some.inj hf
  exact noneLeft_areas

/-- A list that runs into itself beside the freed block has no place for it. -/
theorem findPlace_stuck {root : ℕ} (hroot : (mem root).nextPtr = b) (hb : (mem b).nextPtr = 0)
    (hzero : (mem 0).nextPtr = b) (hlt : root < b) : ∀ fuel p, p = root ∨ p = b ∨ p = 0 →
      findPlace mem b fuel p = none
  | 0, _, _ => rfl
  | fuel + 1, p, hp => by
    have ih := findPlace_stuck hroot hb hzero hlt fuel
    rw [findPlace]
    rcases hp with rfl | rfl | rfl
    · rw [hroot, if_neg (by omega), if_neg (by omega)]
      exact ih b (.inr (.inl rfl))
    · rw [hb, if_neg (by omega), if_neg (by omega)]
      exact ih 0 (.inr (.inr rfl))
    · rw [hzero, if_neg (by omega), if_neg (by omega)]
      exact ih b (.inr (.inl rfl))

/-- The break is given for nothing, however the loop comes to ask for it. -/
theorem noneLeft_ask {n addBlocks fuel : ℕ} {r : ℕ × ℕ × Unit}
    (hlast : askMemory noneLeft n addBlocks 1100 1 () = some (16384, 0, ()))
    (h : askMemory noneLeft n addBlocks fuel 1 () = some r) : r = (16384, 0, ()) :=
  Option.some.inj ((askMemory_mono h (Nat.le_max_left fuel 1100)).symm.trans
    (askMemory_mono hlast (Nat.le_max_right fuel 1100)))

/-- The heap once the break is in its list, as an empty block. -/
def broken : Context Unit :=
  let c := added (start full) 16384 0 ()
  { c with mem := joinPrev (joinNext c.mem 8200 16384) 8200 16384, freeList := 8200 }

theorem broken_free {fuel : ℕ} {c₁ : Context Unit}
    (h : free fuel (added (start full) 16384 0 ()) (advance 16384 1) = some c₁) : c₁ = broken := by
  have hplace : findPlace (added (start full) 16384 0 ()).mem 16384 1 8200 = some 8200 := by decide
  have hfree : free 1 (added (start full) 16384 0 ()) (advance 16384 1) = some broken := by
    rw [free, show wrap (advance 16384 1 + 4294967296 - headerSize) = 16384 by decide,
      show (added (start full) 16384 0 ()).freeList = 8200 from rfl, hplace]
    rfl
  exact Option.some.inj ((free_mono h (Nat.le_max_left fuel 1)).symm.trans
    (free_mono hfree (Nat.le_max_right fuel 1)))

theorem broken_mem : broken.mem 8200 = { nextPtr := 16384, numBlocks := 0 } ∧
    broken.mem 16384 = { nextPtr := 8200, numBlocks := 0 } ∧
    broken.mem 0 = { nextPtr := 16384, numBlocks := 0 } := by decide

/-- Taking the same break again cuts the list where it is needed. -/
theorem broken_stuck (fuel : ℕ) (c₁ : Context Unit) :
    free fuel (added (counted broken 0) 16384 0 ()) (advance 16384 1) ≠ some c₁ := by
  intro h
  rw [free, Option.map_eq_some_iff] at h
  obtain ⟨p, hplace, -⟩ := h
  obtain ⟨hroot, -, hzero⟩ := broken_mem
  have hother : ∀ x, x ≠ 16384 → (added (counted broken 0) 16384 0 ()).mem x = broken.mem x := fun x hx =>
    Function.update_of_ne hx _ _
  have hroot' : ((added (counted broken 0) 16384 0 ()).mem 8200).nextPtr = 16384 := by
    rw [hother 8200 (by decide), hroot]
  have hstuck := findPlace_stuck hroot'
    (congrArg Header.nextPtr (Function.update_self 16384 _ (counted broken 0).mem))
    (by rw [hother 0 (by decide), hzero]) (by decide) fuel 8200 (.inl rfl)
  rw [show wrap (advance 16384 1 + 4294967296 - headerSize) = 16384 by decide,
    show (added (counted broken 0) 16384 0 ()).freeList = 8200 from rfl, hstuck] at hplace
  cases hplace

theorem full_never {n : ℕ} (hn : 0 < n)
    (hlast : askMemory noneLeft n (if n < 1024 then 1024 else n) 1100 1 () = some (16384, 0, ())) (fuel : ℕ) :
    search n fuel (start full) 8200 8200 = none := by
  have hempty : ∀ {m : Header}, m.numBlocks = 0 → ¬n ≤ m.numBlocks := fun hm hf => by omega
  rw [Option.eq_none_iff_forall_ne_some]
  intro r hrun
  cases fuel with
  | zero => cases hrun
  | succ fuel =>
    rw [show search n (fuel + 1) (start full) 8200 8200 =
        search n (fuel + 1) (start full) 8200 (start full).freeList from rfl,
      search_round (hempty rfl) (show (start full).sbrkFunc = some noneLeft from rfl),
      Option.bind_eq_some_iff] at hrun
    obtain ⟨r₁, hask, hrun⟩ := hrun
    obtain rfl := noneLeft_ask hlast hask
    rw [if_neg (by decide), Option.bind_eq_some_iff] at hrun
    obtain ⟨c₁, hfree, hrun⟩ := hrun
    obtain rfl := broken_free hfree
    obtain ⟨hroot, hbreak, -⟩ := broken_mem
    -- past the empty block, the search comes to the root again
    have hsecond : search n fuel (counted broken 0) 8200 16384 = some r := by
      rw [← hrun, show broken.freeList = 8200 from rfl, hroot]
    cases fuel with
    | zero => cases hsecond
    | succ fuel =>
      rw [search_next (hempty (by rw [show (counted broken 0).mem = broken.mem from rfl, hbreak])) (by decide),
        show ((counted broken 0).mem 16384).nextPtr = 8200 from congrArg Header.nextPtr hbreak] at hsecond
      cases fuel with
      | zero => cases hsecond
      | succ fuel =>
        rw [show search n (fuel + 1) (counted broken 0) 16384 8200 =
            search n (fuel + 1) (counted broken 0) 16384 (counted broken 0).freeList from rfl,
          search_round (c := counted broken 0) (hempty (congrArg Header.numBlocks hroot))
            (show (counted broken 0).sbrkFunc = some noneLeft from rfl), Option.bind_eq_some_iff] at hsecond
        obtain ⟨r₂, hask, hsecond⟩ := hsecond
        obtain rfl := noneLeft_ask hlast hask
        rw [if_neg (by decide), Option.bind_eq_some_iff] at hsecond
        obtain ⟨c₂, hfree, -⟩ := hsecond
        exact broken_stuck fuel c₂ hfree

/-- The sizes that are taken for one header, or for all of memory. -/
theorem full_not_endsIn {size : ℕ} (hsize : size = 0 ∨ 0xFFFFFFF1 ≤ size) (hle : size ≤ 0xFFFFFFFF) :
    ¬EndsIn full size := by
  rintro ⟨fuel, r, hrun⟩
  have hone : askMemory noneLeft 1 1024 1100 1 () = some (16384, 0, ()) := by decide +kernel
  have hall : askMemory noneLeft 536870912 536870912 1100 1 () = some (16384, 0, ()) := by decide
  have hn : blocksFor size = 1 ∨ blocksFor size = 536870912 := by
    rw [blocksFor, wrap, headerSize]
    omega
  rw [alloc, show (start full).freeList = 8200 from rfl,
    show ((start full).mem 8200).nextPtr = 8200 by decide] at hrun
  have hnever : search (blocksFor size) fuel (start full) 8200 8200 = none := by
    rcases hn with hn | hn
    · rw [hn]
      exact full_never (by decide) hone fuel
    · rw [hn]
      exact full_never (by decide) hall fuel
  rw [hnever] at hrun
  cases hrun

/-- `FreeList_Alloc` comes to an end with every heap and every finite memory, for all sizes but 0 and
    those that need all of memory; for one header it does as long as a block is free or one more fits. -/
theorem alloc_ends (size : UInt32) :
    (Ends size.toNat ↔ 0 < size.toNat ∧ size.toNat ≤ 0xFFFFFFF0) ∧
    (blocksFor size.toNat = 1 → ∀ (β : Type) (sbrkFunc : β → ℕ → ℕ × β) (bound brkAt left : β → ℕ)
      (c : Context β) (S : Finset ℕ) (live : List ℕ), Finite sbrkFunc brkAt left →
      c.sbrkFunc = some sbrkFunc → Sound bound (start c) S live →
      0 < (blocks (start c).mem S).total ∨ 8 ≤ left c.brk → EndsIn c size.toNat) := by
  have hle : size.toNat ≤ 0xFFFFFFFF := Nat.le_of_lt_succ size.toNat_lt
  refine ⟨⟨fun h => ?_, fun h => ?_⟩, fun hone => ?_⟩
  · by_contra hout
    exact full_not_endsIn (by omega) hle
      (h Unit noneLeft _ _ _ full _ _ noneLeft_finite rfl full_sound)
  · intro β sbrkFunc bound brkAt left c S live hfin hs hsound
    have hn : blocksFor size.toNat < 536870912 := by
      rw [blocksFor_eq _ (by omega)]
      omega
    exact hsound.ends hfin hs hn (room_of_size h.1 h.2 _)
  · intro β sbrkFunc bound brkAt left c S live hfin hs hsound hleft
    refine hsound.ends hfin hs (by omega) (room_of_left hfin (start_sbrkFunc.trans hs) (by omega) ?_)
    rwa [start_brk]

/-- With nothing left, the search for a block without a byte goes on for ever. -/
theorem zero_never_ends : ¬∀ size : UInt32, Ends size.toNat := fun h =>
  full_not_endsIn (.inl rfl) (by decide) (h 0 Unit noneLeft _ _ _ full _ _ noneLeft_finite rfl full_sound)

end FreeList
