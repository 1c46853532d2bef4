import ReplayFirmware.Heap.Ends

/-! The heap of the firmware on top of `_sbrk_r`, which has no sanity checks.

    What it is asked for it gives, from `end` on and without a look at the stack. So the blocks end where
    the heap does, and the heap ends wherever the requests take it. -/

namespace FreeList
open Circle Coalesce

/-! ### `_sbrk_r` -/

/-- The end of the heap: `heap_ptr`, or the linker's `end` before the first call. -/
def heapEnd (endAddr heap_ptr : ℕ) : ℕ := if heap_ptr = 0 then endAddr else heap_ptr

/-- `_sbrk_r` -/
def sbrkR (endAddr heap_ptr nbytes : ℕ) : ℕ × ℕ :=
  (heapEnd endAddr heap_ptr, wrap (heapEnd endAddr heap_ptr + nbytes))

/-- The same with a check that the address space is not left. -/
def sbrkWithin (endAddr heap_ptr nbytes : ℕ) : ℕ × ℕ :=
  let base := heapEnd endAddr heap_ptr
  if base % headerAlign = 0 ∧ endAddr ≤ base ∧ base + nbytes < 4294967296 then (base, base + nbytes)
  else (noMemory, heap_ptr)

/-- The memory that a search for `n` headers asks for. -/
def request (n : ℕ) : ℕ := (if n < 1024 then 1024 else n) * headerSize

theorem request_pos (n : ℕ) : 0 < request n := Nat.mul_pos (by split <;> omega) (by decide)

/-- The end of the heap is at a word, and not below `end`. -/
def Placed (endAddr heap_ptr : ℕ) : Prop :=
  heapEnd endAddr heap_ptr % headerAlign = 0 ∧ endAddr ≤ heapEnd endAddr heap_ptr

variable {endAddr : ℕ} {c c' : Context ℕ} {S : Finset ℕ} {live : List ℕ} {p n : ℕ}

theorem heapEnd_pos {a : ℕ} (h : 0 < a) : heapEnd endAddr a = a := if_neg (Nat.ne_of_gt h)

theorem sbrkWithin_cases (endAddr hp n : ℕ) :
    (heapEnd endAddr hp % headerAlign = 0 ∧ endAddr ≤ heapEnd endAddr hp ∧ heapEnd endAddr hp + n < 4294967296 ∧
      sbrkWithin endAddr hp n = (heapEnd endAddr hp, heapEnd endAddr hp + n)) ∨
      sbrkWithin endAddr hp n = (noMemory, hp) := by
  unfold sbrkWithin
  simp only
  split
  · next hok => exact .inl ⟨hok.1, hok.2.1, hok.2.2, rfl⟩
  · exact .inr rfl

/-- With the check it meets what the heap relies on. -/
theorem sbrkWithin_areas {root : ℕ} (hend : 0 < endAddr) (hroot : root + 12 ≤ endAddr) :
    Areas root (sbrkWithin endAddr) (heapEnd endAddr) := by
  have hnew : ∀ {hp n}, endAddr ≤ heapEnd endAddr hp →
      heapEnd endAddr (heapEnd endAddr hp + n) = heapEnd endAddr hp + n := fun hle => heapEnd_pos (by omega)
  have hgiven : ∀ {hp n}, (sbrkWithin endAddr hp n).1 ≠ noMemory →
      heapEnd endAddr hp % headerAlign = 0 ∧ endAddr ≤ heapEnd endAddr hp ∧
        heapEnd endAddr hp + n < 4294967296 ∧
        sbrkWithin endAddr hp n = (heapEnd endAddr hp, heapEnd endAddr hp + n) := fun {hp n} h =>
    (sbrkWithin_cases endAddr hp n).resolve_right fun hf => h (congrArg Prod.fst hf)
  exact
    { grows := fun hp n => by
        rcases sbrkWithin_cases endAddr hp n with ⟨-, hle, -, heq⟩ | heq
        · rw [heq, hnew hle]
          exact Nat.le_add_right _ _
        · rw [heq]
      increasing := fun hp n h => by
        obtain ⟨-, hle, -, heq⟩ := hgiven h
        rw [heq, hnew hle]
        exact ⟨le_rfl, le_rfl⟩
      aligned := fun hp n h => by
        obtain ⟨hal, -, -, heq⟩ := hgiven h
        rw [heq]
        exact hal
      nonnull := fun hp n h => by
        obtain ⟨-, hle, -, heq⟩ := hgiven h
        rw [heq]
        exact Nat.lt_of_lt_of_le hend hle
      fits := fun hp n h => by
        obtain ⟨-, -, hfits, heq⟩ := hgiven h
        rw [heq]
        exact hfits
      apart := fun hp n h => by
        obtain ⟨-, hle, -, heq⟩ := hgiven h
        rw [heq]
        exact .inr (hroot.trans hle) }

/-! ### With and without the check -/

/-- The heap over the break with the check. -/
def guarded (endAddr : ℕ) (c : Context ℕ) : Context ℕ := { c with sbrkFunc := some (sbrkWithin endAddr) }

theorem taken_guarded (n : ℕ) (c : Context ℕ) (prevPtr p : ℕ) :
    taken n (guarded endAddr c) prevPtr p = ((taken n c prevPtr p).1, guarded endAddr (taken n c prevPtr p).2) := by
  unfold taken
  rw [show (guarded endAddr c).mem = c.mem from rfl]
  split <;> rfl

theorem taken_brk {β : Type} (n : ℕ) (c : Context β) (prevPtr p : ℕ) :
    (taken n c prevPtr p).2.brk = c.brk ∧ (taken n c prevPtr p).2.sbrkFunc = c.sbrkFunc := by
  unfold taken
  split <;> exact ⟨rfl, rfl⟩

theorem free_guarded (endAddr fuel : ℕ) (c : Context ℕ) (ptr : ℕ) :
    free fuel (guarded endAddr c) ptr = (free fuel c ptr).map (guarded endAddr) := by
  unfold free
  rw [Option.map_map]
  rfl

theorem free_brk {β : Type} {c c' : Context β} {fuel ptr : ℕ} (h : free fuel c ptr = some c') :
    c'.brk = c.brk ∧ c'.sbrkFunc = c.sbrkFunc := by
  rw [free, Option.map_eq_some_iff] at h
  obtain ⟨-, -, rfl⟩ := h
  exact ⟨rfl, rfl⟩

/-- A pointer that is returned is not NULL. -/
theorem taken_ne_zero {β : Type} {bound : β → ℕ} {c : Context β} (h : Sound bound c S live) {prevPtr : ℕ}
    (hn : 0 < n) (hprev : prevPtr ∈ S) (hnext : (c.mem prevPtr).nextPtr = p) (hfits : n ≤ (c.mem p).numBlocks) :
    (taken n c prevPtr p).1 ≠ 0 := by
  have hp : p ∈ S := hnext ▸ h.heap.spaced.linked.mem hprev
  unfold taken
  split
  · exact ptr_ne_zero ((h.heap.takeOut hprev hnext (h.heap.mem_of_size hn hfits)).ptr_fits List.mem_cons_self)
  · next hsize =>
    have hcut := (h.heap.cutOff hp hn (by omega) hprev).ptr_fits List.mem_cons_self
    rw [advance_cut (h.heap.fits hp)]
    exact ptr_ne_zero hcut

/-- What fits the address space is given at once, with the check and without. -/
theorem askMemory_within {hp : ℕ} (hplaced : Placed endAddr hp)
    (hfits : heapEnd endAddr hp + request n < 4294967296) (fuel : ℕ) :
    askMemory (sbrkR endAddr) n (if n < 1024 then 1024 else n) (fuel + 1) 1 hp =
        some (heapEnd endAddr hp, request n, heapEnd endAddr hp + request n) ∧
      askMemory (sbrkWithin endAddr) n (if n < 1024 then 1024 else n) (fuel + 1) 1 hp =
        some (heapEnd endAddr hp, request n, heapEnd endAddr hp + request n) := by
  have hbytes : wrap ((if n < 1024 then 1024 else n) / 1 * headerSize) = request n := by
    rw [Nat.div_one]
    exact Nat.mod_eq_of_lt (Nat.lt_of_le_of_lt (Nat.le_add_left _ _) hfits)
  have hpos := request_pos n
  have hne : heapEnd endAddr hp ≠ noMemory := by
    rw [noMemory]
    omega
  refine ⟨?_, ?_⟩
  · have hgive : sbrkR endAddr hp (request n) = (heapEnd endAddr hp, heapEnd endAddr hp + request n) := by
      rw [sbrkR, wrap, Nat.mod_eq_of_lt hfits]
    rw [askMemory, hbytes, hgive]
    exact if_neg fun hf => hne hf.1
  · have hgive : sbrkWithin endAddr hp (request n) = (heapEnd endAddr hp, heapEnd endAddr hp + request n) :=
      if_pos ⟨hplaced.1, hplaced.2, hfits⟩
    rw [askMemory, hbytes, hgive]
    exact if_neg fun hf => hne hf.1

/-- What is free for `n` headers, or can be asked for. -/
def Supply (endAddr : ℕ) (c : Context ℕ) (S : Finset ℕ) (n : ℕ) : Prop :=
  (∃ x ∈ S, n ≤ (c.mem x).numBlocks) ∨ heapEnd endAddr c.brk + request n < 4294967296

/-- The context is that of `malloc`, with its heap in order. -/
structure Running (endAddr : ℕ) (c : Context ℕ) (S : Finset ℕ) (live : List ℕ) : Prop where
  sbrkFunc : c.sbrkFunc = some (sbrkR endAddr)
  sound : Sound (heapEnd endAddr) (guarded endAddr c) S live
  placed : Placed endAddr c.brk

/-- A block that has been added for the request holds it. -/
theorem Running.grow (h : Running endAddr c S live) {fuel : ℕ}
    (hfits : heapEnd endAddr c.brk + request n < 4294967296)
    (hfree : free (fuel + 1) (added c (heapEnd endAddr c.brk) (request n) (heapEnd endAddr c.brk + request n))
      (advance (heapEnd endAddr c.brk) 1) = some c') :
    ∃ S', Running endAddr (counted c' (request n)) S' live ∧ (∃ x ∈ S', n ≤ (c'.mem x).numBlocks) ∧
      c'.brk = heapEnd endAddr c.brk + request n := by
  have hask := (askMemory_within (n := n) h.placed hfits fuel).2
  have hmod : request n % headerSize = 0 := Nat.mul_mod_left _ _
  have hle : n * headerSize ≤ request n := Nat.mul_le_mul_right _ (by split <;> omega)
  have hpos := request_pos n
  have hne : heapEnd endAddr c.brk ≠ noMemory := by
    rw [noMemory]
    omega
  have hguarded : free (fuel + 1) (added (guarded endAddr c) (heapEnd endAddr c.brk) (request n)
      (heapEnd endAddr c.brk + request n)) (advance (heapEnd endAddr c.brk) 1) = some (guarded endAddr c') := by
    have hcomm := free_guarded endAddr (fuel + 1)
      (added c (heapEnd endAddr c.brk) (request n) (heapEnd endAddr c.brk + request n))
      (advance (heapEnd endAddr c.brk) 1)
    rw [hfree, Option.map_some] at hcomm
    exact hcomm
  obtain ⟨S', hsound, -, -, hbrk, -, x, hx, hsize⟩ := h.sound.grow rfl hask hne hpos hguarded
  have hbrk' : c'.brk = heapEnd endAddr c.brk + request n := hbrk
  refine ⟨S', ⟨(free_brk hfree).2.trans h.sbrkFunc, hsound, ?_⟩, ⟨x, hx, ?_⟩, hbrk'⟩
  · have hplaced := h.placed
    have hnew : heapEnd endAddr (heapEnd endAddr c.brk + request n) = heapEnd endAddr c.brk + request n :=
      heapEnd_pos (by omega)
    rw [Placed, show (counted c' (request n)).brk = c'.brk from rfl, hbrk', hnew]
    rw [Placed] at hplaced
    rw [headerSize] at hmod
    rw [headerAlign] at hplaced ⊢
    omega
  · have hsize' : request n ≤ (c'.mem x).numBlocks * headerSize := hsize
    exact Nat.le_of_mul_le_mul_right (hle.trans hsize') (by decide)

/-- Where the request can be met, the search goes as with the check; it returns a pointer, and moves the
    break once at most. -/
theorem search_within (hn : 0 < n) : ∀ {fuel : ℕ} {c : Context ℕ} {S : Finset ℕ}
    {prevPtr p : ℕ}, Running endAddr c S live → prevPtr ∈ S → (c.mem prevPtr).nextPtr = p →
    (∀ x ∈ S, Between c.freeList x p → (c.mem x).numBlocks < n) → Supply endAddr c S n →
    search n fuel (guarded endAddr c) prevPtr p =
        (search n fuel c prevPtr p).map (fun r => (r.1, guarded endAddr r.2)) ∧
      ∀ r, search n fuel c prevPtr p = some r → r.1 ≠ 0 ∧ r.2.sbrkFunc = some (sbrkR endAddr) ∧
        ((∃ x ∈ S, n ≤ (c.mem x).numBlocks) ∧ r.2.brk = c.brk ∨
          (∀ x ∈ S, (c.mem x).numBlocks < n) ∧ r.2.brk = heapEnd endAddr c.brk + request n)
  | 0, _, _, _, _, _, _, _, _, _ => ⟨rfl, fun _ hr => nomatch hr⟩
  | fuel + 1, c, S, prevPtr, p, h, hprev, hnext, hseen, hsupply => by
    have hl := h.sound.heap.spaced.linked
    have hp : p ∈ S := hnext ▸ hl.mem hprev
    by_cases hfits : n ≤ (c.mem p).numBlocks
    · rw [search_fits hfits, search_fits (c := guarded endAddr c) hfits, taken_guarded]
      refine ⟨rfl, fun r hr => ?_⟩
      obtain rfl := Option.some.inj hr
      have hne := taken_ne_zero h.sound hn hprev hnext hfits
      rw [taken_guarded] at hne
      obtain ⟨hbrk, hs⟩ := taken_brk n c prevPtr p
      exact ⟨hne, hs.trans h.sbrkFunc, .inl ⟨⟨p, hp, hfits⟩, hbrk⟩⟩
    by_cases hround : p = c.freeList
    · have hnone : ∀ x ∈ S, (c.mem x).numBlocks < n := by
        intro x hx
        by_cases hxp : x = p
        · rw [hxp]
          exact Nat.lt_of_not_le hfits
        · refine hseen x hx ?_
          rw [← hround]
          exact between_self hxp
      have hspace : heapEnd endAddr c.brk + request n < 4294967296 :=
        hsupply.resolve_left fun ⟨x, hx, hf⟩ => absurd (hnone x hx) (Nat.not_lt.mpr hf)
      subst hround
      rw [search_round hfits h.sbrkFunc,
        show search n (fuel + 1) (guarded endAddr c) prevPtr c.freeList =
          search n (fuel + 1) (guarded endAddr c) prevPtr (guarded endAddr c).freeList from rfl,
        search_round (c := guarded endAddr c) hfits rfl]
      cases fuel with
      | zero => exact ⟨rfl, fun _ hr => nomatch hr⟩
      | succ fuel =>
        have hne : heapEnd endAddr c.brk ≠ noMemory := by
          have hpos := request_pos n
          rw [noMemory]
          omega
        obtain ⟨hask, hask'⟩ := askMemory_within (n := n) h.placed hspace fuel
        rw [hask, show (guarded endAddr c).brk = c.brk from rfl, hask']
        simp only [Option.bind_some]
        rw [if_neg hne, if_neg hne,
          show added (guarded endAddr c) (heapEnd endAddr c.brk) (request n)
              (heapEnd endAddr c.brk + request n) =
            guarded endAddr (added c (heapEnd endAddr c.brk) (request n) (heapEnd endAddr c.brk + request n))
            from rfl, free_guarded]
        cases hfree : free (fuel + 1) (added c (heapEnd endAddr c.brk) (request n)
            (heapEnd endAddr c.brk + request n)) (advance (heapEnd endAddr c.brk) 1) with
        | none => exact ⟨rfl, fun _ hr => nomatch hr⟩
        | some c₁ =>
          obtain ⟨S', hrunning, hfound, hbrk⟩ := h.grow hspace hfree
          have hfree₁ := hrunning.sound.heap.freeList_mem
          obtain ⟨heq, hres⟩ := @search_within hn (fuel + 1) _ _ _ _ hrunning hfree₁ rfl
            (fun x hx hb => absurd hb ((hrunning.sound.heap.spaced.linked _ hfree₁).not_between hx))
            (.inl hfound)
          refine ⟨heq, fun r hr => ?_⟩
          obtain ⟨hne', hs, hbrk'⟩ := hres r hr
          refine ⟨hne', hs, .inr ⟨hnone, ?_⟩⟩
          rcases hbrk' with ⟨-, hsame⟩ | ⟨hf, -⟩
          · rw [hsame]
            exact hbrk
          · obtain ⟨x, hx, hle⟩ := hfound
            exact absurd (hf x hx) (Nat.not_lt.mpr hle)
    · rw [search_next hfits hround, search_next (c := guarded endAddr c) hfits hround]
      refine search_within hn h hp rfl (fun x hx hbetween => ?_) hsupply
      rcases (hl p hp).between_step hx hbetween with hx' | rfl
      · exact hseen x hx hx'
      · exact Nat.lt_of_not_le hfits

/-- Where a block is free that fits, the search comes to it. -/
theorem search_found {β : Type} {c : Context β} (hl : Linked S fun x => (c.mem x).nextPtr)
    (hfree : c.freeList ∈ S) (hfound : ∃ x ∈ S, n ≤ (c.mem x).numBlocks) :
    ∃ fuel r, search n fuel c c.freeList (c.mem c.freeList).nextPtr = some r := by
  have hp := hl.mem hfree
  obtain ⟨k, hk⟩ := hl.reach hfree _ hp
  refine search_walk hl (fun prevPtr hseen => ?_) k _ _ hp hk fun x hx hb => absurd hb ((hl _ hfree).not_between hx)
  refine ⟨1, _, search_fits ?_⟩
  obtain ⟨x, hx, hle⟩ := hfound
  by_cases hstart : x = c.freeList
  · rwa [← hstart]
  · exact absurd (hseen x hx (between_self hstart)) (Nat.not_lt.mpr hle)

/-- A request that can be met is met. -/
theorem Running.ends (h : Running endAddr c S live) (hsupply : Supply endAddr c S n) :
    ∃ fuel r, search n fuel c c.freeList (c.mem c.freeList).nextPtr = some r := by
  have hl : Linked S fun x => (c.mem x).nextPtr := h.sound.heap.spaced.linked
  have hfree : c.freeList ∈ S := h.sound.heap.freeList_mem
  by_cases hfound : ∃ x ∈ S, n ≤ (c.mem x).numBlocks
  · exact search_found hl hfree hfound
  have hspace := hsupply.resolve_left hfound
  have hp := hl.mem hfree
  obtain ⟨k, hk⟩ := hl.reach hfree _ hp
  refine search_walk hl (fun prevPtr _ => ?_) k _ _ hp hk fun x hx hb => absurd hb ((hl _ hfree).not_between hx)
  have hfits : ¬n ≤ (c.mem c.freeList).numBlocks := fun hf => hfound ⟨_, hfree, hf⟩
  have hpos := request_pos n
  have hne : heapEnd endAddr c.brk ≠ noMemory := by
    rw [noMemory]
    omega
  have hmod : request n % headerSize = 0 := Nat.mul_mod_left _ _
  have hask := (askMemory_within (n := n) h.placed hspace 0).2
  obtain ⟨hle, -, hown⟩ := askMemory_owned (h.sound.areas _ rfl) hask
  obtain ⟨hge, hown⟩ := hown hne hpos
  obtain ⟨fuel, c₁, hguarded⟩ := (h.sound.heap.grow hge hmod hown _).free_ends List.mem_cons_self
  obtain ⟨c₁, hfree₁, -⟩ := Option.map_eq_some_iff.mp ((free_guarded endAddr fuel
    (added c (heapEnd endAddr c.brk) (request n) (heapEnd endAddr c.brk + request n)) _).symm.trans hguarded)
  obtain ⟨S', hrunning, hfound', -⟩ := h.grow hspace (free_mono hfree₁ (Nat.le_succ fuel))
  obtain ⟨fuel', r, hr⟩ := search_found (c := counted c₁ (request n))
    hrunning.sound.heap.spaced.linked hrunning.sound.heap.freeList_mem hfound'
  refine ⟨max fuel fuel' + 1 + 1, r, ?_⟩
  rw [search_round hfits h.sbrkFunc, (askMemory_within h.placed hspace (max fuel fuel')).1]
  simp only [Option.bind_some]
  rw [if_neg hne, free_mono hfree₁ (Nat.le_succ_of_le (Nat.le_max_left fuel fuel')), Option.bind_some]
  exact search_mono hr (Nat.le_succ_of_le (Nat.le_max_right fuel fuel'))

/-! ### Runs -/

/-- Nothing has been allocated yet; the context lies below `end`. -/
def boot (endAddr root : ℕ) (mem : ℕ → Header) : Program ℕ where
  context :=
    { sbrkFunc := some (sbrkR endAddr), heapSize := 0, root := root, freeList := 0, mem := mem, brk := 0 }
  live := []

def Program.guarded (endAddr : ℕ) (s : Program ℕ) : Program ℕ :=
  { s with context := FreeList.guarded endAddr s.context }

/-- An allocation may ask for what the address space has. -/
def Op.Within (endAddr : ℕ) (s : Program ℕ) : Op → Prop
  | .alloc size => heapEnd endAddr s.context.brk + request (blocksFor size.toNat) < 4294967296
  | _ => True

def Within (endAddr fuel : ℕ) : List Op → Program ℕ → Prop
  | [], _ => True
  | op :: ops, s => op.Within endAddr s ∧ ∀ s', op.apply fuel s = some s' → Within endAddr fuel ops s'

/-- The heap is in order over the break with the check, which is where the other one is. -/
structure Kept (endAddr : ℕ) (s : Program ℕ) : Prop where
  order : InOrder (heapEnd endAddr) (s.guarded endAddr)
  sbrkFunc : s.context.sbrkFunc = some (sbrkR endAddr)
  placed : Placed endAddr s.context.brk

variable {s s' : Program ℕ} {fuel : ℕ}

theorem start_guarded (c : Context ℕ) : start (guarded endAddr c) = guarded endAddr (start c) := by
  unfold start
  rw [show (guarded endAddr c).freeList = c.freeList from rfl]
  split <;> rfl

theorem Kept.running (h : Kept endAddr s) : ∃ S, Running endAddr (start s.context) S s.live := by
  obtain ⟨S, hsound⟩ : ∃ S, Sound (heapEnd endAddr) (start (guarded endAddr s.context)) S s.live := by
    rcases h.order with hfresh | ⟨S, hne, hsound⟩
    · exact ⟨_, hfresh.start⟩
    · refine ⟨S, ?_⟩
      rw [start, if_neg (show ¬(guarded endAddr s.context).freeList = 0 from hne)]
      exact hsound
  rw [start_guarded] at hsound
  exact ⟨S, start_sbrkFunc.trans h.sbrkFunc, hsound, by rw [start_brk]; exact h.placed⟩

/-- An allocation that finds room for its request goes as with the check. -/
theorem Kept.alloc (h : Kept endAddr s) (fuel : ℕ) {size : ℕ}
    (hwithin : heapEnd endAddr s.context.brk + request (blocksFor size) < 4294967296) :
    FreeList.alloc fuel (guarded endAddr s.context) size =
        (FreeList.alloc fuel s.context size).map (fun r => (r.1, guarded endAddr r.2)) ∧
      ∀ r, FreeList.alloc fuel s.context size = some r → r.1 ≠ 0 ∧ r.2.sbrkFunc = some (sbrkR endAddr) ∧
        (r.2.brk = s.context.brk ∨ r.2.brk = heapEnd endAddr s.context.brk + request (blocksFor size)) := by
  obtain ⟨S, hrunning⟩ := h.running
  have hfree := hrunning.sound.heap.freeList_mem
  obtain ⟨heq, hres⟩ := @search_within _ _ _ (blocksFor_pos size) fuel _ _ _ _ hrunning hfree rfl
    (fun x hx hb => absurd hb ((hrunning.sound.heap.spaced.linked _ hfree).not_between hx))
    (.inr (by rw [start_brk]; exact hwithin))
  refine ⟨?_, fun r hr => ?_⟩
  · rw [FreeList.alloc, start_guarded]
    exact heq
  · obtain ⟨hne, hs, hbrk⟩ := hres r hr
    rw [start_brk] at hbrk
    exact ⟨hne, hs, hbrk.imp And.right And.right⟩

/-- The first request of the loop is for all that is wanted. -/
theorem covered_within (hplaced : Placed endAddr s.context.brk) {size : UInt32}
    (hwithin : heapEnd endAddr s.context.brk + request (blocksFor size.toNat) < 4294967296) :
    (Op.alloc size).Covered (s.guarded endAddr) := by
  have hle : blocksFor size.toNat * headerSize ≤ request (blocksFor size.toNat) :=
    Nat.mul_le_mul_right _ (by split <;> omega)
  rw [headerSize] at hle
  intro f hf
  obtain rfl := Option.some.inj hf
  refine .inr ⟨by omega, fun hone => .inr ?_⟩
  rw [hone] at hwithin
  rw [requests, List.range'_succ, List.map_cons]
  refine .inl ?_
  have hgive : sbrkWithin endAddr s.context.brk (1024 / 1 * headerSize) =
      (heapEnd endAddr s.context.brk, heapEnd endAddr s.context.brk + 1024 / 1 * headerSize) :=
    if_pos ⟨hplaced.1, hplaced.2, hwithin⟩
  rw [show (s.guarded endAddr).context.brk = s.context.brk from rfl, hgive, noMemory]
  have hpos := request_pos 1
  omega

/-- Nothing but an allocation has to do with the break. -/
theorem apply_guarded (fuel : ℕ) (op : Op) (s : Program ℕ) (hop : ∀ size, op ≠ .alloc size) :
    op.apply fuel (s.guarded endAddr) = (op.apply fuel s).map (Program.guarded endAddr) := by
  cases op with
  | alloc size => exact absurd rfl (hop size)
  | free ptr =>
    show (if _ ∈ s.live then _ else _) = _
    rw [Op.apply]
    by_cases hlive : wrap (ptr + 4294967296 - headerSize) ∈ s.live
    · rw [if_pos hlive, if_pos hlive, show (s.guarded endAddr).context = guarded endAddr s.context from rfl,
        free_guarded, Option.map_map, Option.map_map]
      rfl
    · rw [if_neg hlive, if_neg hlive]
      rfl
  | store ptr k words =>
    show (if _ ∈ s.live ∧ k + 1 < (s.context.mem _).numBlocks then _ else _) = _
    rw [Op.apply]
    simp only
    split <;> rfl

theorem apply_brk {op : Op} (hop : ∀ size, op ≠ .alloc size) (hrun : op.apply fuel s = some s') :
    s'.context.brk = s.context.brk ∧ s'.context.sbrkFunc = s.context.sbrkFunc := by
  cases op with
  | alloc size => exact absurd rfl (hop size)
  | free ptr =>
    rw [Op.apply] at hrun
    split at hrun
    · rw [Option.map_eq_some_iff] at hrun
      obtain ⟨c, hfree, rfl⟩ := hrun
      exact free_brk hfree
    · rw [← Option.some.inj hrun]
      exact ⟨rfl, rfl⟩
  | store ptr k words =>
    rw [Op.apply] at hrun
    simp only at hrun
    split at hrun
    · rw [← Option.some.inj hrun]
      exact ⟨rfl, rfl⟩
    · rw [← Option.some.inj hrun]
      exact ⟨rfl, rfl⟩

theorem Kept.apply (h : Kept endAddr s) {op : Op} (hwithin : op.Within endAddr s)
    (hrun : op.apply fuel s = some s') : Kept endAddr s' := by
  cases op with
  | alloc size =>
    obtain ⟨heq, hres⟩ := h.alloc fuel hwithin
    rw [Op.apply, Option.map_eq_some_iff] at hrun
    obtain ⟨⟨ptr, c⟩, halloc, rfl⟩ := hrun
    obtain ⟨-, hs, hbrk⟩ := hres _ halloc
    have hrun' : (Op.alloc size).apply fuel (s.guarded endAddr) = some (Program.guarded endAddr
        ⟨c, if ptr = 0 then s.live else wrap (ptr + 4294967296 - headerSize) :: s.live⟩) := by
      rw [Op.apply, show (s.guarded endAddr).context = guarded endAddr s.context from rfl, heq, halloc]
      rfl
    refine ⟨h.order.alloc (covered_within h.placed hwithin) hrun', hs, ?_⟩
    rcases hbrk with hbrk | hbrk
    · rw [hbrk]
      exact h.placed
    · have hplaced := h.placed
      have hpos := request_pos (blocksFor size.toNat)
      have hmod : request (blocksFor size.toNat) % headerSize = 0 := Nat.mul_mod_left _ _
      have hnew : heapEnd endAddr (heapEnd endAddr s.context.brk + request (blocksFor size.toNat)) =
          heapEnd endAddr s.context.brk + request (blocksFor size.toNat) := heapEnd_pos (by omega)
      rw [hbrk, Placed, hnew]
      rw [Placed] at hplaced
      rw [headerSize] at hmod
      rw [headerAlign] at hplaced ⊢
      omega
  | free ptr =>
    have hrun' : (Op.free ptr).apply fuel (s.guarded endAddr) = some (s'.guarded endAddr) := by
      rw [apply_guarded fuel _ s fun _ => Op.noConfusion, hrun]
      rfl
    obtain ⟨hbrk, hs⟩ := apply_brk (fun _ => Op.noConfusion) hrun
    exact ⟨h.order.free hrun', hs.trans h.sbrkFunc, by rw [hbrk]; exact h.placed⟩
  | store ptr k words =>
    have hrun' : (Op.store ptr k words).apply fuel (s.guarded endAddr) = some (s'.guarded endAddr) := by
      rw [apply_guarded fuel _ s fun _ => Op.noConfusion, hrun]
      rfl
    obtain ⟨hbrk, hs⟩ := apply_brk (fun _ => Op.noConfusion) hrun
    exact ⟨h.order.store hrun', hs.trans h.sbrkFunc, by rw [hbrk]; exact h.placed⟩

theorem Kept.run : ∀ {ops : List Op} {s s' : Program ℕ}, Kept endAddr s → Within endAddr fuel ops s →
    FreeList.run fuel ops s = some s' → Kept endAddr s'
  | [], s, s', h, _, hrun => by
    rw [← Option.some.inj hrun]
    exact h
  | op :: ops, s, s', h, hw, hrun => by
    rw [FreeList.run, Option.bind_eq_some_iff] at hrun
    obtain ⟨s₁, happly, hrun⟩ := hrun
    exact Kept.run (h.apply hw.1 happly) (hw.2 s₁ happly) hrun

theorem boot_kept {root : ℕ} (mem : ℕ → Header) (hal : endAddr % headerAlign = 0)
    (hroot : 8 ≤ root ∧ root + 12 ≤ endAddr) (hlt : endAddr ≤ 4294967296) : Kept endAddr (boot endAddr root mem) where
  order := by
    refine .inl ⟨rfl, rfl, rfl, ⟨hroot.1, hroot.2.trans hlt⟩, fun f hf => ?_⟩
    obtain rfl := Option.some.inj hf
    exact sbrkWithin_areas (by omega) hroot.2
  sbrkFunc := rfl
  placed := ⟨hal, le_rfl⟩

end FreeList
