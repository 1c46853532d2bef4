import Mathlib.Algebra.Order.Ring.Nat
import Mathlib.Data.List.Basic
import Mathlib.Data.Nat.Notation
import Mathlib.Tactic.Common

/-! Directory trees: slots of entries in their order, some of them free.

    A path of names leads to a directory; one directory may be changed where it stands, and an entry
    be freed. What a change does to the entries, to a path into the tree and to a property of all of it
    follows from what it does to the one directory. -/

namespace DirTree

/-- The slots of a directory: free, with a file, or with a directory, its own data and what it holds. -/
inductive Slots (N A : Type) where
  | nil
  | gone (rest : Slots N A)
  | file (n : N) (rest : Slots N A)
  | dir (n : N) (a : A) (sub rest : Slots N A)
  deriving DecidableEq

variable {N A : Type}

/-- What stands under a name. -/
inductive Entry (N A : Type) where
  | file
  | dir (a : A) (sub : Slots N A)

/-- The entries of all directories. -/
def live : Slots N A → ℕ
  | .nil => 0
  | .gone rest => live rest
  | .file _ rest => live rest + 1
  | .dir _ _ sub rest => live sub + live rest + 1

/-- The data of all directories. -/
def dirs : Slots N A → List A
  | .nil => []
  | .gone rest => dirs rest
  | .file _ rest => dirs rest
  | .dir _ a sub rest => a :: (dirs sub ++ dirs rest)

/-- The slots from slot `k` on. -/
def slotsFrom : ℕ → Slots N A → Slots N A
  | 0, s => s
  | _ + 1, .nil => .nil
  | k + 1, .gone rest => slotsFrom k rest
  | k + 1, .file _ rest => slotsFrom k rest
  | k + 1, .dir _ _ _ rest => slotsFrom k rest

/-- The free slots in front. -/
def skip : Slots N A → ℕ
  | .nil => 0
  | .gone rest => skip rest + 1
  | .file _ _ => 0
  | .dir _ _ _ _ => 0

/-- The first entry. -/
def first : Slots N A → Option (N × Entry N A)
  | .nil => none
  | .gone rest => first rest
  | .file n _ => some (n, .file)
  | .dir n a sub _ => some (n, .dir a sub)

theorem slotsFrom_skip : ∀ {k : ℕ} {s : Slots N A}, k ≤ skip s →
    first (slotsFrom k s) = first s ∧ k + skip (slotsFrom k s) = skip s
  | 0, s, _ => ⟨rfl, Nat.zero_add _⟩
  | k + 1, .gone rest, h => by
    obtain ⟨hfirst, hskip⟩ := slotsFrom_skip (Nat.le_of_succ_le_succ h)
    refine ⟨hfirst, ?_⟩
    rw [slotsFrom, skip, ← hskip]
    omega
  | k + 1, .nil, h => absurd h (Nat.not_succ_le_zero k)
  | k + 1, .file _ _, h => absurd h (Nat.not_succ_le_zero k)
  | k + 1, .dir _ _ _ _, h => absurd h (Nat.not_succ_le_zero k)

theorem live_of_first : ∀ {s : Slots N A}, first s = none → live s = 0
  | .nil, _ => rfl
  | .gone rest, h => live_of_first (s := rest) h

variable [DecidableEq N]

/-- The entry of a name, the first one. -/
def entry (n : N) : Slots N A → Option (Entry N A)
  | .nil => none
  | .gone rest => entry n rest
  | .file m rest => if m = n then some .file else entry n rest
  | .dir m a sub rest => if m = n then some (.dir a sub) else entry n rest

/-- The slot of a name is freed. -/
def erase (n : N) : Slots N A → Slots N A
  | .nil => .nil
  | .gone rest => .gone (erase n rest)
  | .file m rest => if m = n then .gone rest else .file m (erase n rest)
  | .dir m a sub rest => if m = n then .gone rest else .dir m a sub (erase n rest)

/-- The directory of a name is changed. -/
def adjust (n : N) (f : Slots N A → Slots N A) : Slots N A → Slots N A
  | .nil => .nil
  | .gone rest => .gone (adjust n f rest)
  | .file m rest => if m = n then .file m rest else .file m (adjust n f rest)
  | .dir m a sub rest => if m = n then .dir m a (f sub) rest else .dir m a sub (adjust n f rest)

/-- The directory that a path leads to. -/
def dirAt : List N → A × Slots N A → Option (A × Slots N A)
  | [], d => some d
  | n :: path, d =>
    match entry n d.2 with
    | some (.dir a sub) => dirAt path (a, sub)
    | _ => none

/-- The directory that a path leads to is changed. -/
def adjustAt : List N → (Slots N A → Slots N A) → Slots N A → Slots N A
  | [], f => f
  | n :: path, f => adjust n (adjustAt path f)

/-- The entry that a path leads to is freed, with all that it holds. -/
def unlink : List N → Slots N A → Slots N A
  | [], s => s
  | [n], s => erase n s
  | n :: m :: path, s => adjust n (unlink (m :: path)) s

theorem unlink_concat (n : N) : ∀ path : List N, (unlink (path ++ [n]) : Slots N A → Slots N A) =
    adjustAt path (erase n)
  | [] => rfl
  | [m] => rfl
  | m :: k :: path => by
    change adjust m (unlink (k :: path ++ [n])) = _
    rw [unlink_concat n (k :: path)]
    rfl

/-! ### One directory -/

theorem entry_of_first {n : N} {e : Entry N A} : ∀ {s : Slots N A}, first s = some (n, e) →
    entry n s = some e
  | .gone rest, h => by
    rw [entry]
    exact entry_of_first (s := rest) h
  | .file m rest, h => by
    obtain ⟨rfl, rfl⟩ := Prod.mk.inj (Option.some.inj h)
    rw [entry, if_pos rfl]
  | .dir m a sub rest, h => by
    obtain ⟨rfl, rfl⟩ := Prod.mk.inj (Option.some.inj h)
    rw [entry, if_pos rfl]

/-- Behind the entry that is freed, the free slots in front reach at least to it. -/
theorem skip_erase {n : N} {e : Entry N A} : ∀ {s : Slots N A}, first s = some (n, e) →
    skip s + 1 ≤ skip (erase n s)
  | .gone rest, h => Nat.succ_le_succ (skip_erase (s := rest) h)
  | .file m rest, h => by
    obtain ⟨rfl, -⟩ := Prod.mk.inj (Option.some.inj h)
    rw [erase, if_pos rfl]
    exact Nat.succ_le_succ (Nat.zero_le _)
  | .dir m a sub rest, h => by
    obtain ⟨rfl, -⟩ := Prod.mk.inj (Option.some.inj h)
    rw [erase, if_pos rfl]
    exact Nat.succ_le_succ (Nat.zero_le _)

theorem entry_adjust {n : N} {f : Slots N A → Slots N A} {a : A} {sub : Slots N A} :
    ∀ {s : Slots N A}, entry n s = some (.dir a sub) → entry n (adjust n f s) = some (.dir a (f sub))
  | .gone rest, h => by
    rw [adjust, entry]
    exact entry_adjust (s := rest) h
  | .file m rest, h => by
    rw [entry] at h
    by_cases hm : m = n
    · rw [if_pos hm] at h
      cases h
    · rw [if_neg hm] at h
      rw [adjust, if_neg hm, entry, if_neg hm]
      exact entry_adjust h
  | .dir m b t rest, h => by
    rw [entry] at h
    by_cases hm : m = n
    · rw [if_pos hm] at h
      cases h
      rw [adjust, if_pos hm, entry, if_pos hm]
    · rw [if_neg hm] at h
      rw [adjust, if_neg hm, entry, if_neg hm]
      exact entry_adjust h

/-- Nothing is left of a change in a directory that is freed. -/
theorem erase_adjust (n : N) (f : Slots N A → Slots N A) : ∀ s : Slots N A,
    erase n (adjust n f s) = erase n s
  | .nil => rfl
  | .gone rest => congrArg Slots.gone (erase_adjust n f rest)
  | .file m rest => by
    by_cases hm : m = n
    · rw [adjust, if_pos hm]
    · rw [adjust, if_neg hm, erase, if_neg hm, erase_adjust n f rest, erase, if_neg hm]
  | .dir m a sub rest => by
    by_cases hm : m = n
    · rw [adjust, if_pos hm, erase, if_pos hm, erase, if_pos hm]
    · rw [adjust, if_neg hm, erase, if_neg hm, erase_adjust n f rest, erase, if_neg hm]

theorem adjust_adjust (n : N) (f g : Slots N A → Slots N A) : ∀ s : Slots N A,
    adjust n f (adjust n g s) = adjust n (f ∘ g) s
  | .nil => rfl
  | .gone rest => congrArg Slots.gone (adjust_adjust n f g rest)
  | .file m rest => by
    by_cases hm : m = n
    · rw [adjust, if_pos hm, adjust, if_pos hm, adjust, if_pos hm]
    · rw [adjust, if_neg hm, adjust, if_neg hm, adjust_adjust n f g rest, adjust, if_neg hm]
  | .dir m a sub rest => by
    by_cases hm : m = n
    · rw [adjust, if_pos hm, adjust, if_pos hm, adjust, if_pos hm]
      rfl
    · rw [adjust, if_neg hm, adjust, if_neg hm, adjust_adjust n f g rest, adjust, if_neg hm]

theorem adjust_same {n : N} {f : Slots N A → Slots N A} {a : A} {sub : Slots N A} (hf : f sub = sub) :
    ∀ {s : Slots N A}, entry n s = some (.dir a sub) → adjust n f s = s
  | .gone rest, h => congrArg Slots.gone (adjust_same hf (s := rest) h)
  | .file m rest, h => by
    rw [entry] at h
    by_cases hm : m = n
    · rw [adjust, if_pos hm]
    · rw [if_neg hm] at h
      rw [adjust, if_neg hm, adjust_same hf h]
  | .dir m b t rest, h => by
    rw [entry] at h
    by_cases hm : m = n
    · rw [if_pos hm] at h
      cases h
      rw [adjust, if_pos hm, hf]
    · rw [if_neg hm] at h
      rw [adjust, if_neg hm, adjust_same hf h]

theorem live_erase {n : N} {e : Entry N A} : ∀ {s : Slots N A}, entry n s = some e →
    live (erase n s) < live s
  | .gone rest, h => live_erase (s := rest) h
  | .file m rest, h => by
    rw [entry] at h
    by_cases hm : m = n
    · rw [erase, if_pos hm, live, live]
      omega
    · rw [if_neg hm] at h
      rw [erase, if_neg hm, live, live]
      exact Nat.succ_lt_succ (live_erase h)
  | .dir m a sub rest, h => by
    rw [entry] at h
    by_cases hm : m = n
    · rw [erase, if_pos hm, live, live]
      omega
    · rw [if_neg hm] at h
      have := live_erase h
      rw [erase, if_neg hm, live, live]
      omega

theorem live_adjust {n : N} {f : Slots N A → Slots N A} {a : A} {sub : Slots N A}
    (hf : live (f sub) < live sub) : ∀ {s : Slots N A}, entry n s = some (.dir a sub) →
    live (adjust n f s) < live s
  | .gone rest, h => live_adjust hf (s := rest) h
  | .file m rest, h => by
    rw [entry] at h
    by_cases hm : m = n
    · rw [if_pos hm] at h
      cases h
    · rw [if_neg hm] at h
      rw [adjust, if_neg hm, live, live]
      exact Nat.succ_lt_succ (live_adjust hf h)
  | .dir m b t rest, h => by
    rw [entry] at h
    by_cases hm : m = n
    · rw [if_pos hm] at h
      cases h
      rw [adjust, if_pos hm, live, live]
      omega
    · rw [if_neg hm] at h
      have := live_adjust hf h
      rw [adjust, if_neg hm, live, live]
      omega

theorem live_of_entry {n : N} {a : A} {sub : Slots N A} : ∀ {s : Slots N A},
    entry n s = some (.dir a sub) → live sub < live s
  | .gone rest, h => live_of_entry (s := rest) h
  | .file m rest, h => by
    rw [entry] at h
    by_cases hm : m = n
    · rw [if_pos hm] at h
      cases h
    · rw [if_neg hm] at h
      exact Nat.lt_succ_of_lt (live_of_entry h)
  | .dir m b t rest, h => by
    rw [entry] at h
    by_cases hm : m = n
    · rw [if_pos hm] at h
      cases h
      rw [live]
      omega
    · rw [if_neg hm] at h
      have := live_of_entry h
      rw [live]
      omega

theorem dirs_of_entry {n : N} {a : A} {sub : Slots N A} : ∀ {s : Slots N A},
    entry n s = some (.dir a sub) → List.Sublist (a :: dirs sub) (dirs s)
  | .gone rest, h => dirs_of_entry (s := rest) h
  | .file m rest, h => by
    rw [entry] at h
    by_cases hm : m = n
    · rw [if_pos hm] at h
      cases h
    · rw [if_neg hm] at h
      exact dirs_of_entry (s := rest) h
  | .dir m b t rest, h => by
    rw [entry] at h
    by_cases hm : m = n
    · rw [if_pos hm] at h
      cases h
      exact (List.sublist_append_left (dirs sub) (dirs rest)).cons_cons a
    · rw [if_neg hm] at h
      exact ((dirs_of_entry h).trans (List.sublist_append_right _ _)).cons b

theorem dirs_erase (n : N) : ∀ s : Slots N A, List.Sublist (dirs (erase n s)) (dirs s)
  | .nil => List.Sublist.slnil
  | .gone rest => dirs_erase n rest
  | .file m rest => by
    by_cases hm : m = n
    · rw [erase, if_pos hm]
      exact List.Sublist.refl _
    · rw [erase, if_neg hm]
      exact dirs_erase n rest
  | .dir m a sub rest => by
    by_cases hm : m = n
    · rw [erase, if_pos hm]
      exact (List.sublist_append_right (dirs sub) (dirs rest)).cons a
    · rw [erase, if_neg hm]
      exact (((List.Sublist.refl _).append (dirs_erase n rest))).cons_cons a

theorem dirs_adjust (n : N) {f : Slots N A → Slots N A}
    (hf : ∀ s, List.Sublist (dirs (f s)) (dirs s)) : ∀ s : Slots N A,
    List.Sublist (dirs (adjust n f s)) (dirs s)
  | .nil => List.Sublist.slnil
  | .gone rest => dirs_adjust n hf rest
  | .file m rest => by
    by_cases hm : m = n
    · rw [adjust, if_pos hm]
    · rw [adjust, if_neg hm]
      exact dirs_adjust n hf rest
  | .dir m a sub rest => by
    by_cases hm : m = n
    · rw [adjust, if_pos hm]
      exact ((hf sub).append (List.Sublist.refl _)).cons_cons a
    · rw [adjust, if_neg hm]
      exact ((List.Sublist.refl _).append (dirs_adjust n hf rest)).cons_cons a

/-! ### Along a path -/

theorem dirAt_cons {n : N} {path : List N} {d e : A × Slots N A} (h : dirAt (n :: path) d = some e) :
    ∃ a sub, entry n d.2 = some (.dir a sub) ∧ dirAt path (a, sub) = some e := by
  rw [dirAt] at h
  split at h
  · exact ⟨_, _, ‹_›, h⟩
  · cases h

theorem dirAt_append : ∀ (p q : List N) (d : A × Slots N A),
    dirAt (p ++ q) d = (dirAt p d).bind (dirAt q)
  | [], _, _ => rfl
  | n :: p, q, d => by
    rw [List.cons_append, dirAt, dirAt]
    split
    · exact dirAt_append p q _
    · rfl

theorem dirAt_concat {p : List N} {n : N} {d : A × Slots N A} {a : A} {sub : Slots N A} :
    dirAt (p ++ [n]) d = some (a, sub) ↔ ∃ e, dirAt p d = some e ∧ entry n e.2 = some (.dir a sub) := by
  rw [dirAt_append, Option.bind_eq_some_iff]
  refine exists_congr fun e => and_congr_right fun _ => ⟨fun h => ?_, fun h => ?_⟩
  · obtain ⟨b, t, hentry, hnil⟩ := dirAt_cons h
    cases hnil
    exact hentry
  · rw [dirAt, h]
    rfl

theorem dirAt_adjustAt {f : Slots N A → Slots N A} : ∀ {path : List N} {d : A × Slots N A} {a : A}
    {sub : Slots N A}, dirAt path d = some (a, sub) → dirAt path (d.1, adjustAt path f d.2) = some (a, f sub)
  | [], d, a, sub, h => by
    cases h
    rfl
  | n :: path, d, a, sub, h => by
    obtain ⟨b, t, hentry, hpath⟩ := dirAt_cons h
    rw [dirAt, adjustAt, entry_adjust hentry]
    exact dirAt_adjustAt (d := (b, t)) hpath

theorem adjustAt_adjustAt (f g : Slots N A → Slots N A) : ∀ (path : List N) (s : Slots N A),
    adjustAt path f (adjustAt path g s) = adjustAt path (f ∘ g) s
  | [], _ => rfl
  | n :: path, s => by
    rw [adjustAt, adjustAt, adjustAt, adjust_adjust]
    refine congrArg (fun h => adjust n h s) (funext fun t => ?_)
    exact adjustAt_adjustAt f g path t

theorem adjustAt_append (f : Slots N A → Slots N A) : ∀ p q : List N,
    adjustAt (p ++ q) f = adjustAt p (adjustAt q f)
  | [], _ => rfl
  | n :: p, q => congrArg (adjust n) (adjustAt_append f p q)

theorem adjustAt_same {f : Slots N A → Slots N A} : ∀ {path : List N} {d : A × Slots N A} {a : A}
    {sub : Slots N A}, dirAt path d = some (a, sub) → f sub = sub → adjustAt path f d.2 = d.2
  | [], d, a, sub, h, hf => by
    cases h
    exact hf
  | n :: path, d, a, sub, h, hf => by
    obtain ⟨b, t, hentry, hpath⟩ := dirAt_cons h
    exact adjust_same (adjustAt_same (d := (b, t)) hpath hf) hentry

/-- A path below a directory is freed in that directory. -/
theorem unlink_append (p q : List N) (hq : q ≠ []) :
    (unlink (p ++ q) : Slots N A → Slots N A) = adjustAt p (unlink q) := by
  obtain ⟨q, n, rfl⟩ : ∃ q' n, q = q' ++ [n] := ⟨_, _, (List.dropLast_append_getLast hq).symm⟩
  rw [← List.append_assoc, unlink_concat, unlink_concat, adjustAt_append]

/-- Nothing is left of a change in a directory that is unlinked. -/
theorem unlink_adjustAt {path : List N} (hne : path ≠ []) (f : Slots N A → Slots N A) (s : Slots N A) :
    unlink path (adjustAt path f s) = unlink path s := by
  obtain ⟨p, n, rfl⟩ : ∃ p n, path = p ++ [n] := ⟨_, _, (List.dropLast_append_getLast hne).symm⟩
  rw [unlink_concat, adjustAt_append, adjustAt_adjustAt]
  refine congrArg (fun h => adjustAt p h s) (funext fun t => ?_)
  exact erase_adjust n f t

theorem live_adjustAt {f : Slots N A → Slots N A} : ∀ {path : List N} {d : A × Slots N A} {a : A}
    {sub : Slots N A}, dirAt path d = some (a, sub) → live (f sub) < live sub →
    live (adjustAt path f d.2) < live d.2
  | [], d, a, sub, h, hf => by
    cases h
    exact hf
  | n :: path, d, a, sub, h, hf => by
    obtain ⟨b, t, hentry, hpath⟩ := dirAt_cons h
    exact live_adjust (live_adjustAt (d := (b, t)) hpath hf) hentry

theorem dirs_unlink : ∀ (path : List N) (s : Slots N A), List.Sublist (dirs (unlink path s)) (dirs s)
  | [], _ => List.Sublist.refl _
  | [n], s => dirs_erase n s
  | n :: m :: path, s => dirs_adjust n (fun t => dirs_unlink (m :: path) t) s

theorem dirs_of_dirAt : ∀ {path : List N} {d : A × Slots N A} {a : A} {sub : Slots N A}, path ≠ [] →
    dirAt path d = some (a, sub) → List.Sublist (a :: dirs sub) (dirs d.2)
  | [n], d, a, sub, _, h => by
    obtain ⟨b, t, hentry, hpath⟩ := dirAt_cons h
    cases hpath
    exact dirs_of_entry hentry
  | n :: m :: path, d, a, sub, _, h => by
    obtain ⟨b, t, hentry, hpath⟩ := dirAt_cons h
    exact (dirs_of_dirAt (d := (b, t)) (List.cons_ne_nil m path) hpath).trans
      ((List.sublist_cons_self b (dirs t)).trans (dirs_of_entry hentry))

end DirTree
