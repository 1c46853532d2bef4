import ReplayFirmware.Config.Lines

/-! Files under two memories. Two parses come out the same exactly when the file is settled: a mask that
    is not set makes one memory refuse what another accepts, and a field that is never set stays what it
    was. -/

namespace Config

variable {m₁ m₂ : Malloc} {s₁ s₂ : Status} {a : Marks}

/-! ### Masks and values -/

/-- No field of the menu is left to the memory. -/
theorem Marked.set (h : Marked m₁ m₂ a s₁ s₂) (ha : a.settled = true) :
    (∀ i, MaskSet s₁ s₂ i) ∧ ∀ o, (s₁.options o).conf_value = (s₂.options o).conf_value := by
  rw [Marks.settled, Marks.leaveOption, Marks.leaveItem, Bool.and_eq_true, Bool.and_eq_true] at ha
  obtain ⟨⟨hwhole, hitem⟩, hoption⟩ := ha
  refine ⟨fun i => ?_, fun o => ?_⟩
  · by_cases hcur : s₁.menu_item_act = some i
    · have hmark := h.item
      cases hit : a.item with
      | none => rw [hit] at hmark; exact absurd (hcur.symm.trans hmark) (Option.some_ne_none i)
      | some it =>
        rw [hit] at hmark hitem
        obtain ⟨j, -, hj, -, -, -, hmask⟩ := hmark
        obtain rfl : j = i := Option.some.inj (hj.symm.trans hcur)
        exact hmask.set hitem
    · exact h.behind.masks hwhole i hcur
  · by_cases hcur : s₁.item_opt_act = some o
    · have hmark := h.option
      cases hop : a.option with
      | none => rw [hop] at hmark; exact absurd (hcur.symm.trans hmark) (Option.some_ne_none o)
      | some op =>
        rw [hop] at hmark hoption
        obtain ⟨j, hj, -, -, hvalue⟩ := hmark
        obtain rfl : j = o := Option.some.inj (hj.symm.trans hcur)
        rw [show op.valued = true from hoption] at hvalue
        exact hvalue
    · exact h.behind.values hwhole o hcur

/-- A field of the menu is what the two memories held. -/
theorem Marked.unset (h : Marked m₁ m₂ a s₁ s₂) (ha : a.settled = false) :
    (∃ i, MaskIs m₁ m₂ s₁ s₂ i none) ∨ ∃ o, ValueIs m₁ m₂ s₁ s₂ o false := by
  rw [Marks.settled, Marks.leaveOption, Marks.leaveItem, Bool.and_eq_false_iff,
    Bool.and_eq_false_iff] at ha
  rcases ha with (hwhole | hitem) | hoption
  · rcases h.behind.broken hwhole with ⟨i, -, -, hraw⟩ | ⟨o, -, -, hraw⟩
    · exact .inl ⟨i, hraw⟩
    · exact .inr ⟨o, hraw⟩
  · have hmark := h.item
    cases hit : a.item with
    | none => rw [hit] at hitem; cases hitem
    | some it =>
      rw [hit] at hmark hitem
      obtain ⟨i, -, -, -, -, -, hmask⟩ := hmark
      have hnone : it.mask = none := Option.not_isSome_iff_eq_none.mp (by simpa using hitem)
      exact .inl ⟨i, hnone ▸ hmask⟩
  · have hmark := h.option
    cases hop : a.option with
    | none => rw [hop] at hoption; cases hoption
    | some op =>
      rw [hop] at hmark hoption
      obtain ⟨o, -, -, -, hvalue⟩ := hmark
      exact .inr ⟨o, (show op.valued = false from hoption) ▸ hvalue⟩

/-! ### The words -/

/-- The items and options that the words are made of are the same. -/
theorem updateItem_congr (h : Alike s₁ s₂) (hm : ∀ i, MaskSet s₁ s₂ i)
    (hv : ∀ o, (s₁.options o).conf_value = (s₂.options o).conf_value) (i : ℕ)
    (bits : UInt32 × UInt32) : updateItem s₁ i bits = updateItem s₂ i bits := by
  have haction : (s₁.items i).action_name 0 = 0 ↔ (s₂.items i).action_name 0 = 0 :=
    Chars.first_congr (by decide) (h.items i).action
  rw [updateItem, updateItem]
  simp only [(h.items i).selected, (hm i).1, (hm i).2, hv, ne_eq, haction]

theorem updateItems_congr (h : Alike s₁ s₂) (hm : ∀ i, MaskSet s₁ s₂ i)
    (hv : ∀ o, (s₁.options o).conf_value = (s₂.options o).conf_value) :
    ∀ (fuel : ℕ) (p : Ptr) (bits : UInt32 × UInt32),
      updateItems s₁ fuel p bits = updateItems s₂ fuel p bits
  | _, none, _ => by rw [updateItems, updateItems]
  | 0, some _, _ => rfl
  | fuel + 1, some i, bits => by
    rw [updateItems, updateItems, updateItem_congr h hm hv, (h.items i).next,
      updateItems_congr h hm hv]

theorem updateMenus_congr (h : Alike s₁ s₂) (hm : ∀ i, MaskSet s₁ s₂ i)
    (hv : ∀ o, (s₁.options o).conf_value = (s₂.options o).conf_value) :
    ∀ (fuel : ℕ) (p : Ptr) (bits : UInt32 × UInt32),
      updateMenus s₁ fuel p bits = updateMenus s₂ fuel p bits
  | _, none, _ => by rw [updateMenus, updateMenus]
  | 0, some _, _ => rfl
  | fuel + 1, some m, bits => by
    rw [updateMenus, updateMenus, h.blocks, (h.menus m).list, (h.menus m).next,
      updateItems_congr h hm hv, funext (updateMenus_congr h hm hv fuel (s₂.menus m).next)]

theorem updateBits_congr (h : Alike s₁ s₂) (hm : ∀ i, MaskSet s₁ s₂ i)
    (hv : ∀ o, (s₁.options o).conf_value = (s₂.options o).conf_value) :
    updateBits s₁ = updateBits s₂ := by
  rw [updateBits, updateBits, h.blocks, h.menu_top, h.config_s, h.config_d, updateMenus_congr h hm hv]

/-! ### Whole files -/

/-- A settled file comes out the same. -/
theorem run_same (hg₁ : Grants m₁) (hg₂ : Grants m₂) : ∀ {ds : List Directive} {a : Marks}
    {s₁ s₂ : Status}, Settled ds a = true → a.HasItem → Marked m₁ m₂ a s₁ s₂ →
    SameOutcome (run m₁ ds s₁) (run m₂ ds s₂)
  | [], a, s₁, s₂, hs, _, h => by
    obtain ⟨hmasks, hvalues⟩ := h.set hs
    exact ⟨rfl, ⟨h.alike, fun i => (hmasks i).1, hvalues⟩,
      fun _ => updateBits_congr h.alike hmasks hvalues⟩
  | d :: ds, a, s₁, s₂, hs, hp, h => by
    have hmeets := handle_meets hg₁ hg₂ h hp d
    have hnext := mark_hasItem hp d
    rw [Settled] at hs
    rw [run, run]
    cases hfate : d.mark a with
    | done a' =>
      rw [hfate] at hmeets hnext hs
      obtain ⟨t₁, t₂, hd₁, hd₂, ht⟩ := hmeets
      rw [hd₁, hd₂]
      exact run_same hg₁ hg₂ hs hnext ht
    | refused a' =>
      rw [hfate] at hmeets hs
      obtain ⟨t₁, t₂, hd₁, hd₂, ht⟩ := hmeets
      obtain ⟨hmasks, hvalues⟩ := ht.set hs
      rw [hd₁, hd₂]
      exact ⟨rfl, ⟨ht.alike, fun i => (hmasks i).1, hvalues⟩, fun hnil => absurd hnil (List.cons_ne_nil d ds)⟩
    | null =>
      rw [hfate] at hmeets
      rw [hmeets.1, hmeets.2]
      trivial
    | unset =>
      rw [hfate] at hs
      cases hs

/-- A memory with the same byte everywhere. -/
def filled (word : UInt32) : Malloc := fun _ => some
  { menu := ⟨none, none, fun _ => 0, none⟩
    item := ⟨none, none, fun _ => 0, none, none, word, 0, fun _ => 0, 0⟩
    option := ⟨none, none, fun _ => 0, word⟩ }

theorem filled_grants (word : UInt32) : Grants (filled word) := fun _ => ⟨_, rfl⟩

theorem run_rest : ∀ {ds rest : List Directive} {s s' : Status}, run m₁ ds s = some (rest, s') →
    rest.length ≤ ds.length
  | [], _, _, _, h => by
    cases h
    exact Nat.le_refl _
  | d :: ds, rest, s, s', h => by
    rw [run] at h
    split at h
    · cases h
    · split at h
      · exact Nat.le_succ_of_le (run_rest h)
      · cases h
        exact Nat.le_refl _

/-- A field that is not set differs between zeros and ones. -/
theorem Marked.not_sameMenu (h : Marked (filled 0) (filled 0xffffffff) a s₁ s₂)
    (ha : a.settled = false) : ¬ SameMenu s₁ s₂ := by
  intro hsame
  rcases h.unset ha with ⟨i, r₁, r₂, hr₁, hr₂, hm₁, hm₂⟩ | ⟨o, r₁, r₂, hr₁, hr₂, hv₁, hv₂⟩
  · cases hr₁
    cases hr₂
    have heq := hsame.masks i
    rw [hm₁, hm₂] at heq
    exact absurd heq (by decide)
  · cases hr₁
    cases hr₂
    have heq := hsame.values o
    rw [hv₁, hv₂] at heq
    exact absurd heq (by decide)

/-- A file that is not settled comes out differently with zeros and with ones. -/
theorem run_differs : ∀ {ds : List Directive} {a : Marks} {s₁ s₂ : Status}, Settled ds a = false →
    a.HasItem → Marked (filled 0) (filled 0xffffffff) a s₁ s₂ →
    ¬ SameOutcome (run (filled 0) ds s₁) (run (filled 0xffffffff) ds s₂)
  | [], a, s₁, s₂, hs, _, h => fun hsame => h.not_sameMenu hs hsame.2.1
  | d :: ds, a, s₁, s₂, hs, hp, h => by
    have hmeets := handle_meets (filled_grants 0) (filled_grants 0xffffffff) h hp d
    have hnext := mark_hasItem hp d
    rw [Settled] at hs
    rw [run, run]
    cases hfate : d.mark a with
    | done a' =>
      rw [hfate] at hmeets hnext hs
      obtain ⟨t₁, t₂, hd₁, hd₂, ht⟩ := hmeets
      rw [hd₁, hd₂]
      exact run_differs hs hnext ht
    | refused a' =>
      rw [hfate] at hmeets hs
      obtain ⟨t₁, t₂, hd₁, hd₂, ht⟩ := hmeets
      rw [hd₁, hd₂]
      exact fun hsame => ht.not_sameMenu hs hsame.2.1
    | null =>
      rw [hfate] at hs
      cases hs
    | unset =>
      rw [hfate] at hmeets
      obtain ⟨i, r₁, r₂, t₁, t₂, v, hv, hr₁, hr₂, hd₁, hd₂⟩ := hmeets
      cases hr₁
      cases hr₂
      -- zeros refuse the line, ones accept it
      have hzeros : (0 : UInt32) &&& v ≠ v := by
        rw [UInt32.zero_and]
        exact hv.symm
      have hones : ¬ (0xffffffff : UInt32) &&& v ≠ v := by
        rw [show (0xffffffff : UInt32) = -1 by decide, UInt32.neg_one_and]
        exact not_not.mpr rfl
      have h₁ : handle (filled 0) s₁ d = some (1, t₁) := hd₁.trans (by rw [if_pos hzeros])
      have h₂ : handle (filled 0xffffffff) s₂ d = some (0, t₂) := hd₂.trans (by rw [if_neg hones])
      rw [h₁, h₂]
      change ¬ SameOutcome (some (d :: ds, t₁)) (run (filled 0xffffffff) ds t₂)
      cases hrun : run (filled 0xffffffff) ds t₂ with
      | none => exact id
      | some p =>
        rintro ⟨heq, -⟩
        have hle := run_rest hrun
        rw [← heq] at hle
        exact absurd hle (Nat.not_succ_le_self _)

theorem start_marked (blocks : ℕ) (records : Status) :
    Marked m₁ m₂ noMarks (start blocks records) (start blocks records) where
  alike := ⟨rfl, rfl, rfl, rfl, rfl, rfl, rfl, rfl, fun _ => ⟨rfl, rfl, rfl, fun _ _ => rfl⟩,
    fun _ => ⟨rfl, rfl, rfl, rfl, rfl, rfl⟩, fun _ => ⟨rfl, rfl, rfl⟩⟩
  anchored := ⟨fun h => absurd rfl h, nofun, nofun⟩
  item := rfl
  option := rfl
  behind := ⟨fun _ _ _ => ⟨rfl, rfl⟩, fun _ _ _ => rfl, nofun⟩

/-- The parse of a file depends on the file alone exactly when the file is settled. -/
theorem parse_deterministic_iff (blocks : ℕ) (records : Status) (ds : List Directive) :
    (∀ m₁ m₂, Grants m₁ → Grants m₂ →
      SameOutcome (run m₁ ds (start blocks records)) (run m₂ ds (start blocks records))) ↔
    Settled ds noMarks = true := by
  constructor
  · intro hall
    by_contra hs
    exact run_differs (Bool.eq_false_iff.mpr hs) (fun _ => rfl) (start_marked blocks records)
      (hall _ _ (filled_grants 0) (filled_grants 0xffffffff))
  · intro hs m₁ m₂ hg₁ hg₂
    exact run_same hg₁ hg₂ hs (fun _ => rfl) (start_marked blocks records)

example : Settled [.title [value "Video" 0], .item [value "Mode" 0, value "1" 1, value "D" 13],
    .option [value "PAL" 0, value "0" 0], .option [value "NTSC" 0, value "1" 1]] noMarks = true := by
  decide

/-- An `OPTION` of an item that is an action: zeros refuse it, ones accept it. -/
theorem action_option_differs : ¬ ∀ m₁ m₂, Grants m₁ → Grants m₂ →
    SameOutcome
      (run m₁ [.title [value "Video" 0], .item [value "Mode" 0, value "reset" 0],
        .option [value "PAL" 0, value "1" 1]] (start 0 powerUp))
      (run m₂ [.title [value "Video" 0], .item [value "Mode" 0, value "reset" 0],
        .option [value "PAL" 0, value "1" 1]] (start 0 powerUp)) := by
  intro hall
  have hsame := hall _ _ (filled_grants 0) (filled_grants 0xffffffff)
  exact absurd hsame.1 (by decide)

end Config
