import ReplayFirmware.Lib.DirTree
import ReplayFirmware.FatFs.MkDirTree
import Mathlib.Data.List.Induction

/-! `FF_RmDirTree`: a directory goes with all that is below it.

    There is no stack. A turn of the loop removes a file, or goes down into a directory, or, at the end
    of one, unlinks it if it is the one entered last and starts again from the top. Which directory has
    ended is told by `DIR.clust`, the cluster that is being read: it is the one where the directory
    starts only as long as the reading has not gone on into another cluster. -/

namespace FatFs.RmDirTree
open DirTree

/-! ### The volume -/

/-- The bytes of a name: some, and none of them ends a string or separates names. -/
def proper (n : List UInt8) : Bool := !n.isEmpty && n.all fun c => c != 0 && !isSeparator c

abbrev Name := {n : List UInt8 // proper n = true}

/-- The cluster where a directory starts, and the one where its reading ends. An entry that is unlinked
    leaves a free slot, so neither moves. -/
structure Clusters where
  first : ℕ
  last : ℕ
  deriving DecidableEq

/-- Neither directory starts in a cluster of the other. -/
structure Apart (a b : Clusters) : Prop where
  first_first : a.first ≠ b.first
  first_last : a.first ≠ b.last
  last_first : a.last ≠ b.first

/-- Directories have clusters of their own, and no cluster is number 0. -/
structure Separate (l : List Clusters) : Prop where
  apart : l.Pairwise Apart
  nonzero : ∀ c ∈ l, c.first ≠ 0 ∧ c.last ≠ 0

theorem Separate.sublist {l l' : List Clusters} (h : Separate l) (hl : List.Sublist l' l) : Separate l' :=
  ⟨h.apart.sublist hl, fun c hc => h.nonzero c (hl.subset hc)⟩

/-- What is on the card. -/
structure Volume where
  root : Clusters
  slots : Slots Name Clusters
  separate : Separate (dirs slots)

theorem Volume.separate_unlink (v : Volume) (path : List Name) :
    Separate (dirs (DirTree.unlink path v.slots)) := v.separate.sublist (dirs_unlink path v.slots)

/-- The volume without an entry and all below it. -/
def Volume.unlink (v : Volume) (path : List Name) : Volume :=
  ⟨v.root, DirTree.unlink path v.slots, v.separate_unlink path⟩

/-- The directory that a path leads to. -/
def Volume.dirAt (v : Volume) (path : List Name) : Option (Clusters × Slots Name Clusters) :=
  DirTree.dirAt path (v.root, v.slots)

theorem Volume.ext_slots {v v' : Volume} (hr : v.root = v'.root) (hs : v.slots = v'.slots) : v = v' := by
  cases v
  cases v'
  cases hr
  cases hs
  rfl

/-- A segment of a path, if it names something. -/
def named (n : List UInt8) : List Name := if h : proper n = true then [⟨n, h⟩] else []

def componentsFrom : List UInt8 → List UInt8 → List Name
  | n, [] => named n
  | n, c :: rest =>
    if isSeparator c = true then named n ++ componentsFrom [] rest else componentsFrom (n ++ [c]) rest

/-- The names of a path. -/
def components (path : List UInt8) : List Name := componentsFrom [] path

/-! ### What FatFs is called for

    A call fails as `fault` has it for the calls one after the other, or is served. -/

structure Fat where
  volume : Volume
  calls : ℕ

/-- `DIR` -/
structure Dir where
  path : List Name
  pos : ℕ
  clust : ℕ

variable (fault : ℕ → Fresult)

def f_opendir (path : List UInt8) (fat : Fat) : Except Fresult Dir × Fat :=
  if fault fat.calls = .ok then
    match fat.volume.dirAt (components path) with
    | some d => (.ok ⟨components path, 0, d.1.first⟩, { fat with calls := fat.calls + 1 })
    | none => (.error .noPath, { fat with calls := fat.calls + 1 })
  else (.error (fault fat.calls), { fat with calls := fat.calls + 1 })

/-- The next entry and whether it is a directory, or none; at the end the cluster is the last one. -/
def f_readdir (dir : Dir) (fat : Fat) : Except Fresult (Option (Name × Bool) × Dir) × Fat :=
  if fault fat.calls = .ok then
    match fat.volume.dirAt dir.path with
    | none => (.error .invalidObject, { fat with calls := fat.calls + 1 })
    | some d =>
      let rest := slotsFrom dir.pos d.2
      let next := { dir with pos := dir.pos + skip rest + 1 }
      match first rest with
      | none => (.ok (none, { dir with clust := d.1.last }), { fat with calls := fat.calls + 1 })
      | some (n, .file) => (.ok (some (n, false), next), { fat with calls := fat.calls + 1 })
      | some (n, .dir _ _) => (.ok (some (n, true), next), { fat with calls := fat.calls + 1 })
  else (.error (fault fat.calls), { fat with calls := fat.calls + 1 })

/-- What an entry says to its being unlinked: a directory has to be empty. -/
def unlinked : Entry Name Clusters → Fresult
  | .file => .ok
  | .dir _ sub => if (first sub).isNone then .ok else .denied

def f_unlink (path : List UInt8) (fat : Fat) : Fresult × Fat :=
  if fault fat.calls = .ok then
    match (components path).getLast? with
    | none => (.invalidName, { fat with calls := fat.calls + 1 })
    | some n =>
      match fat.volume.dirAt (components path).dropLast with
      | none => (.noPath, { fat with calls := fat.calls + 1 })
      | some d =>
        match entry n d.2 with
        | none => (.noFile, { fat with calls := fat.calls + 1 })
        | some e =>
          if unlinked e = .ok then (.ok, ⟨fat.volume.unlink (components path), fat.calls + 1⟩)
          else (unlinked e, { fat with calls := fat.calls + 1 })
  else (fault fat.calls, { fat with calls := fat.calls + 1 })

/-! ### The function -/

/-- How it ends: with what it returns, or `p` is written past its end. -/
inductive End where
  | returns (err : FfError) (fat : Fat)
  | overflow

/-- Its variables; `p` is the string in the buffer. -/
structure Walk where
  fat : Fat
  p : List UInt8
  index : ℕ
  dir : Dir
  leaf : ℕ

/-- "if the current dir was not the root we restart and try again" -/
def restart (path : List UInt8) (w : Walk) : Walk ⊕ End :=
  match f_opendir fault path w.fat with
  | (.error ret, fat) => .inr (.returns (mapError ret) fat)
  | (.ok dir, fat) => .inl { w with fat := fat, p := path, index := path.length, dir := dir }

/-- One turn of the loop. -/
def turn (path : List UInt8) (root : ℕ) (w : Walk) : Walk ⊕ End :=
  match f_readdir fault w.dir w.fat with
  | (.error ret, fat) => .inr (.returns (mapError ret) fat)
  | (.ok (none, dir), fat) =>
    -- `f_closedir` answers nothing that is asked for
    let unlink := if w.leaf = dir.clust ∨ root = dir.clust then f_unlink fault (w.p.take w.index) fat
      else (.ok, fat)
    if unlink.1 ≠ .ok then .inr (.returns (mapError unlink.1) unlink.2)
    else if root ≠ dir.clust then restart fault path { w with fat := unlink.2 }
    else .inr (.returns .none unlink.2)
  | (.ok (some (n, isDir), dir), fat) =>
    let p := w.p.take w.index ++ 47 :: n.val
    if FF_MAX_PATH < p.length + 1 then .inr .overflow
    else if isDir then
      match f_opendir fault p fat with
      | (.error ret, fat) => .inr (.returns (mapError ret) fat)
      | (.ok sub, fat) => .inl ⟨fat, p, p.length, sub, sub.clust⟩
    else
      let unlink := f_unlink fault p fat
      if unlink.1 ≠ .ok then .inr (.returns (mapError unlink.1) unlink.2)
      else .inl ⟨unlink.2, p, w.index, dir, w.leaf⟩

/-- The loop, as far as `turns` turns lead. -/
def loop (path : List UInt8) (root : ℕ) : ℕ → Walk → Option End
  | 0, _ => none
  | turns + 1, w =>
    match turn fault path root w with
    | .inl w => loop path root turns w
    | .inr e => some e

def FF_RmDirTree (path : List UInt8) (turns : ℕ) (v : Volume) : Option End :=
  match f_opendir fault path ⟨v, 0⟩ with
  | (.error ret, fat) => some (.returns (mapError ret) fat)
  | (.ok dir, fat) =>
    if FF_MAX_PATH < path.length + 1 then some .overflow
    else loop fault path dir.clust turns ⟨fat, path, path.length, dir, 0⟩

/-! ### What is asked of it -/

/-- The tree is gone and nothing else, unless a call failed: then it ended there, with that error. -/
def Removed (v : Volume) (path : List UInt8) (err : FfError) (fat : Fat) : Prop :=
  (∀ k < fat.calls, fault k = .ok) ∧ err = .none ∧ fat.volume = v.unlink (components path) ∨
  ∃ k, fat.calls = k + 1 ∧ (∀ j < k, fault j = .ok) ∧ fault k ≠ .ok ∧ err = mapError (fault k)

/-- Whatever the calls answer, it ends, and the tree is removed. -/
def Removes (v : Volume) (path : List UInt8) : Prop :=
  ∀ fault : ℕ → Fresult, ∃ turns err fat,
    FF_RmDirTree fault path turns v = some (.returns err fat) ∧ Removed fault v path err fat

/-- A path stands in the buffer with its terminator. -/
def Fits (path : List UInt8) : Prop := path.length < FF_MAX_PATH

/-- The paths of all entries fit, and no directory is longer than one cluster. -/
def Walkable : List UInt8 → Slots Name Clusters → Prop
  | _, .nil => True
  | p, .gone rest => Walkable p rest
  | p, .file n rest => Fits (p ++ 47 :: n.val) ∧ Walkable p rest
  | p, .dir n c sub rest =>
    (Fits (p ++ 47 :: n.val) ∧ c.first = c.last ∧ Walkable (p ++ 47 :: n.val) sub) ∧ Walkable p rest

/-! ### Paths -/

theorem componentsFrom_slash (rest : List UInt8) : ∀ p n : List UInt8,
    componentsFrom n (p ++ 47 :: rest) = componentsFrom n p ++ componentsFrom [] rest
  | [], _ => rfl
  | c :: p, n => by
    rw [List.cons_append, componentsFrom, componentsFrom]
    by_cases hc : isSeparator c = true
    · rw [if_pos hc, if_pos hc, componentsFrom_slash rest p, List.append_assoc]
    · rw [if_neg hc, if_neg hc, componentsFrom_slash rest p]

theorem componentsFrom_name : ∀ m n : List UInt8, (∀ c ∈ m, isSeparator c = false) →
    componentsFrom n m = named (n ++ m)
  | [], n, _ => by rw [List.append_nil, componentsFrom]
  | c :: m, n, h => by
    have hc : ¬isSeparator c = true := Bool.not_eq_true _ ▸ h c List.mem_cons_self
    rw [componentsFrom, if_neg hc, componentsFrom_name m _ fun d hd => h d (List.mem_cons_of_mem c hd),
      List.append_assoc]
    rfl

theorem Name.not_separator (n : Name) : ∀ c ∈ n.val, isSeparator c = false := by
  intro c hc
  have h := List.all_eq_true.mp (Bool.and_eq_true _ _ ▸ n.property).2 c hc
  exact Bool.not_eq_true' _ ▸ (Bool.and_eq_true _ _ ▸ h).2

theorem components_concat (p : List UInt8) (n : Name) :
    components (p ++ 47 :: n.val) = components p ++ [n] := by
  rw [components, componentsFrom_slash, componentsFrom_name n.val [] n.not_separator, List.nil_append,
    named, dif_pos n.property]
  rfl

/-- The string for what a path of names leads to, below a path. -/
def pathOf (p : List UInt8) (ds : List Name) : List UInt8 := ds.foldl (fun p n => p ++ 47 :: n.val) p

theorem pathOf_concat (p : List UInt8) (ds : List Name) (n : Name) :
    pathOf p (ds ++ [n]) = pathOf p ds ++ 47 :: n.val := by
  rw [pathOf, List.foldl_append]
  rfl

theorem components_pathOf (p : List UInt8) (ds : List Name) :
    components (pathOf p ds) = components p ++ ds := by
  induction ds using List.reverseRecOn with
  | nil => exact (List.append_nil _).symm
  | append_singleton ds n ih => rw [pathOf_concat, components_concat, ih, List.append_assoc]

/-! ### The condition, entry by entry -/

/-- What the condition asks of one entry. -/
def EntryWalkable (p : List UInt8) (n : Name) : Entry Name Clusters → Prop
  | .file => Fits (p ++ 47 :: n.val)
  | .dir c sub => Fits (p ++ 47 :: n.val) ∧ c.first = c.last ∧ Walkable (p ++ 47 :: n.val) sub

theorem walkable_empty {p : List UInt8} : ∀ {s : Slots Name Clusters}, first s = none → Walkable p s
  | .nil, _ => trivial
  | .gone rest, h => walkable_empty (s := rest) h

theorem walkable_erase {p : List UInt8} {n : Name} {e : Entry Name Clusters} :
    ∀ {s : Slots Name Clusters}, entry n s = some e →
      (Walkable p s ↔ EntryWalkable p n e ∧ Walkable p (erase n s))
  | .gone rest, h => walkable_erase (s := rest) h
  | .file m rest, h => by
    rw [entry] at h
    by_cases hm : m = n
    · rw [if_pos hm] at h
      obtain rfl := Option.some.inj h
      rw [erase, if_pos hm, Walkable, Walkable, EntryWalkable, hm]
    · rw [if_neg hm] at h
      rw [erase, if_neg hm, Walkable, Walkable, walkable_erase h]
      exact and_left_comm
  | .dir m c sub rest, h => by
    rw [entry] at h
    by_cases hm : m = n
    · rw [if_pos hm] at h
      obtain rfl := Option.some.inj h
      rw [erase, if_pos hm, Walkable, Walkable, EntryWalkable, hm]
    · rw [if_neg hm] at h
      rw [erase, if_neg hm, Walkable, Walkable, walkable_erase h]
      exact and_left_comm

theorem walkable_adjust {p : List UInt8} {n : Name} {c : Clusters} {sub : Slots Name Clusters}
    {f : Slots Name Clusters → Slots Name Clusters}
    (hf : Walkable (p ++ 47 :: n.val) sub ↔ Walkable (p ++ 47 :: n.val) (f sub)) :
    ∀ {s : Slots Name Clusters}, entry n s = some (.dir c sub) →
      (Walkable p s ↔ Walkable p (adjust n f s))
  | .gone rest, h => walkable_adjust hf (s := rest) h
  | .file m rest, h => by
    rw [entry] at h
    by_cases hm : m = n
    · rw [if_pos hm] at h
      cases h
    · rw [if_neg hm] at h
      rw [adjust, if_neg hm, Walkable, Walkable, walkable_adjust hf h]
  | .dir m b t rest, h => by
    rw [entry] at h
    by_cases hm : m = n
    · rw [if_pos hm] at h
      cases h
      rw [adjust, if_pos hm, Walkable, Walkable, hm, hf]
    · rw [if_neg hm] at h
      rw [adjust, if_neg hm, Walkable, Walkable, walkable_adjust hf h]

/-- What a change means for the condition is what it means in the directory that is changed. -/
theorem walkable_adjustAt {f : Slots Name Clusters → Slots Name Clusters} :
    ∀ {ds : List Name} {p : List UInt8} {d : Clusters × Slots Name Clusters} {c : Clusters}
      {sub : Slots Name Clusters}, DirTree.dirAt ds d = some (c, sub) →
      (Walkable (pathOf p ds) sub ↔ Walkable (pathOf p ds) (f sub)) →
      (Walkable p d.2 ↔ Walkable p (adjustAt ds f d.2))
  | [], p, d, c, sub, h, hf => by
    cases h
    exact hf
  | n :: ds, p, d, c, sub, h, hf => by
    obtain ⟨b, t, hentry, hds⟩ := dirAt_cons h
    exact walkable_adjust (walkable_adjustAt (d := (b, t)) hds hf) hentry

theorem walkable_entry {p : List UInt8} {n : Name} {e : Entry Name Clusters} {s : Slots Name Clusters}
    (h : entry n s = some e) (hw : Walkable p s) : EntryWalkable p n e := ((walkable_erase h).mp hw).1

theorem walkable_dirAt : ∀ {ds : List Name} {p : List UInt8} {d : Clusters × Slots Name Clusters}
    {c : Clusters} {sub : Slots Name Clusters}, DirTree.dirAt ds d = some (c, sub) → Walkable p d.2 →
    Walkable (pathOf p ds) sub ∧ (d.1.first = d.1.last → c.first = c.last)
  | [], p, d, c, sub, h, hw => by
    cases h
    exact ⟨hw, id⟩
  | n :: ds, p, d, c, sub, h, hw => by
    obtain ⟨b, t, hentry, hds⟩ := dirAt_cons h
    obtain ⟨-, hb, ht⟩ := walkable_entry hentry hw
    obtain ⟨hsub, hc⟩ := walkable_dirAt (p := p ++ 47 :: n.val) (d := (b, t)) hds ht
    exact ⟨hsub, fun _ => hc hb⟩

/-! ### The calls -/

variable {fault}

theorem f_opendir_failed (path : List UInt8) {fat : Fat} (h : fault fat.calls ≠ .ok) :
    f_opendir fault path fat = (.error (fault fat.calls), { fat with calls := fat.calls + 1 }) := by
  rw [f_opendir, if_neg h]

theorem f_opendir_served {path : List UInt8} {fat : Fat} {c : Clusters} {sub : Slots Name Clusters}
    (h : fault fat.calls = .ok) (hd : fat.volume.dirAt (components path) = some (c, sub)) :
    f_opendir fault path fat =
      (.ok ⟨components path, 0, c.first⟩, { fat with calls := fat.calls + 1 }) := by
  rw [f_opendir, if_pos h, hd]

theorem f_readdir_failed (dir : Dir) {fat : Fat} (h : fault fat.calls ≠ .ok) :
    f_readdir fault dir fat = (.error (fault fat.calls), { fat with calls := fat.calls + 1 }) := by
  rw [f_readdir, if_neg h]

section
variable {dir : Dir} {fat : Fat} {c : Clusters} {sub : Slots Name Clusters}

theorem f_readdir_end (h : fault fat.calls = .ok) (hd : fat.volume.dirAt dir.path = some (c, sub))
    (hpos : dir.pos ≤ skip sub) (hfirst : first sub = none) : f_readdir fault dir fat =
      (.ok (none, { dir with clust := c.last }), { fat with calls := fat.calls + 1 }) := by
  rw [f_readdir, if_pos h, hd]
  simp only [(slotsFrom_skip hpos).1, hfirst]

theorem f_readdir_file {n : Name} (h : fault fat.calls = .ok)
    (hd : fat.volume.dirAt dir.path = some (c, sub)) (hpos : dir.pos ≤ skip sub)
    (hfirst : first sub = some (n, .file)) : f_readdir fault dir fat =
      (.ok (some (n, false), { dir with pos := skip sub + 1 }), { fat with calls := fat.calls + 1 }) := by
  rw [f_readdir, if_pos h, hd]
  simp only [(slotsFrom_skip hpos).1, (slotsFrom_skip hpos).2, hfirst]

theorem f_readdir_dir {n : Name} {b : Clusters} {t : Slots Name Clusters} (h : fault fat.calls = .ok)
    (hd : fat.volume.dirAt dir.path = some (c, sub)) (hpos : dir.pos ≤ skip sub)
    (hfirst : first sub = some (n, .dir b t)) : f_readdir fault dir fat =
      (.ok (some (n, true), { dir with pos := skip sub + 1 }), { fat with calls := fat.calls + 1 }) := by
  rw [f_readdir, if_pos h, hd]
  simp only [(slotsFrom_skip hpos).1, (slotsFrom_skip hpos).2, hfirst]

end

theorem f_unlink_failed (path : List UInt8) {fat : Fat} (h : fault fat.calls ≠ .ok) :
    f_unlink fault path fat = (fault fat.calls, { fat with calls := fat.calls + 1 }) := by
  rw [f_unlink, if_neg h]

theorem f_unlink_served {path : List UInt8} {fat : Fat} {p : List Name} {n : Name}
    {d : Clusters × Slots Name Clusters} {e : Entry Name Clusters} (h : fault fat.calls = .ok)
    (hpath : components path = p ++ [n]) (hd : fat.volume.dirAt p = some d)
    (he : entry n d.2 = some e) (hok : unlinked e = .ok) : f_unlink fault path fat =
      (.ok, ⟨fat.volume.unlink (components path), fat.calls + 1⟩) := by
  have hlast : (components path).getLast? = some n := by rw [hpath, List.getLast?_concat]
  have hinit : (components path).dropLast = p := by rw [hpath, List.dropLast_concat]
  rw [f_unlink, if_pos h, hlast, hinit]
  simp only [hd, he, if_pos hok]

/-- An empty directory is unlinked. -/
theorem f_unlink_dir {path : List UInt8} {fat : Fat} {c : Clusters} {sub : Slots Name Clusters}
    (h : fault fat.calls = .ok) (hne : components path ≠ [])
    (hd : fat.volume.dirAt (components path) = some (c, sub)) (hempty : first sub = none) :
    f_unlink fault path fat = (.ok, ⟨fat.volume.unlink (components path), fat.calls + 1⟩) := by
  obtain ⟨p, n, hpath⟩ : ∃ p n, components path = p ++ [n] :=
    ⟨_, _, (List.dropLast_append_getLast hne).symm⟩
  obtain ⟨e, hp, hentry⟩ := dirAt_concat.mp (hpath ▸ hd)
  refine f_unlink_served h hpath hp hentry ?_
  rw [unlinked, hempty]
  rfl

/-! ### On the way -/

/-- The path names a directory of the volume that is not its root directory. -/
structure Names (v : Volume) (path : List UInt8) (c₀ : Clusters) (sub₀ : Slots Name Clusters) : Prop where
  ne : components path ≠ []
  here : v.dirAt (components path) = some (c₀, sub₀)

/-- The volume is the one at the start, but for what the directory holds. -/
structure On (v : Volume) (path : List UInt8) (t : Slots Name Clusters) (fat : Fat) : Prop where
  root : fat.volume.root = v.root
  slots : fat.volume.slots = adjustAt (components path) (fun _ => t) v.slots

variable {v : Volume} {path : List UInt8} {c₀ : Clusters} {sub₀ t : Slots Name Clusters} {fat : Fat}

theorem On.start (hn : Names v path c₀ sub₀) (calls : ℕ) : On v path sub₀ ⟨v, calls⟩ where
  root := rfl
  slots := (adjustAt_same (d := (v.root, v.slots)) hn.here rfl).symm

theorem On.called (h : On v path t fat) (calls : ℕ) : On v path t { fat with calls := calls } :=
  ⟨h.root, h.slots⟩

theorem On.dirAt (h : On v path t fat) (hn : Names v path c₀ sub₀) (ds : List Name) :
    fat.volume.dirAt (components path ++ ds) = DirTree.dirAt ds (c₀, t) := by
  have hv := dirAt_adjustAt (f := fun _ => t) (d := (v.root, v.slots)) hn.here
  rw [Volume.dirAt, h.root, h.slots, dirAt_append, hv]
  rfl

theorem On.unlink (h : On v path t fat) {ds : List Name} (hne : ds ≠ []) (calls : ℕ) :
    On v path (DirTree.unlink ds t) ⟨fat.volume.unlink (components path ++ ds), calls⟩ where
  root := h.root
  slots := by
    change DirTree.unlink _ fat.volume.slots = _
    rw [h.slots, unlink_append _ _ hne, adjustAt_adjustAt]
    rfl

/-- Nothing but the directory was touched. -/
theorem On.unlink_all (h : On v path t fat) (hne : components path ≠ []) :
    fat.volume.unlink (components path) = v.unlink (components path) := by
  refine Volume.ext_slots h.root ?_
  change DirTree.unlink _ fat.volume.slots = DirTree.unlink _ v.slots
  rw [h.slots, unlink_adjustAt hne]

/-- The calls from `a` on, up to `b`, are served. -/
def Served (fault : ℕ → Fresult) (a b : ℕ) : Prop := ∀ j, a ≤ j → j < b → fault j = .ok

theorem served_one {a : ℕ} (h : fault a = .ok) : Served fault a (a + 1) := by
  intro j ha hb
  rw [Nat.le_antisymm (Nat.le_of_lt_succ hb) ha]
  exact h

theorem Served.trans {a b c : ℕ} (h : Served fault a b) (h' : Served fault b c) : Served fault a c := by
  intro j ha hc
  by_cases hb : j < b
  · exact h j ha hb
  · exact h' j (Nat.le_of_not_lt hb) hc

/-- The directory `ds` below the top is being read; `t` is what is left below the top. -/
structure Walking (v : Volume) (path : List UInt8) (c₀ : Clusters) (sub₀ : Slots Name Clusters)
    (w : Walk) (t : Slots Name Clusters) (ds : List Name) (c : Clusters) (sub : Slots Name Clusters) :
    Prop where
  on : On v path t w.fat
  here : DirTree.dirAt ds (c₀, t) = some (c, sub)
  dir : w.dir.path = components path ++ ds
  swept : w.dir.pos ≤ skip sub
  text : w.p.take w.index = pathOf path ds
  index : w.index = (pathOf path ds).length
  fits : Fits (pathOf path ds)
  leaf : ds ≠ [] → w.leaf = c.first
  known : w.leaf = 0 ∨ ∃ d ∈ dirs sub₀, w.leaf = d.first
  dirs : List.Sublist (dirs t) (dirs sub₀)

/-- What a turn can do. -/
inductive Turned (fault : ℕ → Fresult) (v : Volume) (path : List UInt8) (c₀ : Clusters)
    (sub₀ : Slots Name Clusters) (w : Walk) (t : Slots Name Clusters) (c : Clusters)
    (sub : Slots Name Clusters) : Walk ⊕ End → Prop where
  | failed (k : ℕ) (fat : Fat) (le : w.fat.calls ≤ k) (calls : fat.calls = k + 1)
    (served : Served fault w.fat.calls k) (fails : fault k ≠ .ok) :
    Turned fault v path c₀ sub₀ w t c sub (.inr (.returns (mapError (fault k)) fat))
  | overflow (long : ¬Walkable path t) : Turned fault v path c₀ sub₀ w t c sub (.inr .overflow)
  | done (fat : Fat) (single : c₀.first = c₀.last) (empty : first t = none)
    (volume : fat.volume = v.unlink (components path)) (served : Served fault w.fat.calls fat.calls) :
    Turned fault v path c₀ sub₀ w t c sub (.inr (.returns .none fat))
  | again (w' : Walk) (t' : Slots Name Clusters) (ds' : List Name) (c' : Clusters)
    (sub' : Slots Name Clusters) (walking : Walking v path c₀ sub₀ w' t' ds' c' sub')
    (walkable : Walkable path t ↔ Walkable path t')
    (less : c.first = c.last → live t' < live t ∨ t' = t ∧ live sub' < live sub)
    (served : Served fault w.fat.calls w'.fat.calls) :
    Turned fault v path c₀ sub₀ w t c sub (.inl w')

section
variable {w : Walk} {ds : List Name} {c : Clusters} {sub : Slots Name Clusters}

theorem Names.separate (hn : Names v path c₀ sub₀) : Separate (c₀ :: DirTree.dirs sub₀) :=
  v.separate.sublist (dirs_of_dirAt (d := (v.root, v.slots)) hn.ne hn.here)

theorem Walking.mem (h : Walking v path c₀ sub₀ w t ds c sub) (hds : ds ≠ []) : c ∈ DirTree.dirs sub₀ :=
  h.dirs.subset ((dirs_of_dirAt (d := (c₀, t)) hds h.here).subset List.mem_cons_self)

theorem Walking.top (h : Walking v path c₀ sub₀ w t [] c sub) : c = c₀ ∧ sub = t := by
  have := Option.some.inj h.here
  exact ⟨(congrArg Prod.fst this).symm, (congrArg Prod.snd this).symm⟩

/-- The end of a directory is the end of the top just if it is the top, and ends where it starts. -/
theorem Walking.root_iff (h : Walking v path c₀ sub₀ w t ds c sub) (hn : Names v path c₀ sub₀) :
    c₀.first = c.last ↔ ds = [] ∧ c.first = c.last := by
  by_cases hds : ds = []
  · cases hds
    rw [h.top.1]
    exact (and_iff_right rfl).symm
  · have hapart := List.rel_of_pairwise_cons hn.separate.apart (h.mem hds)
    exact iff_of_false hapart.first_last fun hc => hds hc.1

/-- A directory is taken for one to unlink just if it ends where it starts. -/
theorem Walking.unlinks_iff (h : Walking v path c₀ sub₀ w t ds c sub) (hn : Names v path c₀ sub₀) :
    (w.leaf = c.last ∨ c₀.first = c.last) ↔ c.first = c.last := by
  rw [h.root_iff hn]
  by_cases hds : ds = []
  · cases hds
    obtain ⟨rfl, rfl⟩ := h.top
    have hleaf : w.leaf ≠ c.last := by
      rcases h.known with h0 | ⟨d, hd, hleaf⟩
      · rw [h0]
        exact (hn.separate.nonzero c List.mem_cons_self).2.symm
      · rw [hleaf]
        exact (List.rel_of_pairwise_cons hn.separate.apart hd).last_first.symm
    rw [or_iff_right hleaf]
    exact and_iff_right rfl
  · rw [h.leaf hds]
    exact or_iff_left fun hc => hds hc.1

theorem Walking.volume_here (h : Walking v path c₀ sub₀ w t ds c sub) (hn : Names v path c₀ sub₀)
    (calls : ℕ) : ({ w.fat with calls := calls } : Fat).volume.dirAt w.dir.path = some (c, sub) := by
  rw [h.dir]
  exact (h.on.dirAt hn ds).trans h.here

theorem components_text (h : Walking v path c₀ sub₀ w t ds c sub) :
    components (w.p.take w.index) = components path ++ ds := by
  rw [h.text, components_pathOf]

/-- From the top again, with what is left there. -/
theorem restart_turned (hn : Names v path c₀ sub₀) (hfits : Fits path) {w₁ : Walk}
    {t₁ : Slots Name Clusters} (hon : On v path t₁ w₁.fat)
    (hknown : w₁.leaf = 0 ∨ ∃ d ∈ DirTree.dirs sub₀, w₁.leaf = d.first)
    (hdirs : List.Sublist (DirTree.dirs t₁) (DirTree.dirs sub₀))
    (hle : w.fat.calls ≤ w₁.fat.calls) (hserved : Served fault w.fat.calls w₁.fat.calls)
    (hwalkable : Walkable path t ↔ Walkable path t₁) (hless : c.first = c.last → live t₁ < live t) :
    Turned fault v path c₀ sub₀ w t c sub (restart fault path w₁) := by
  rw [restart]
  by_cases h : fault w₁.fat.calls = .ok
  · have hd := hon.dirAt hn []
    rw [List.append_nil] at hd
    rw [f_opendir_served h hd]
    refine .again _ t₁ [] c₀ t₁ ?_ hwalkable (fun hc => Or.inl (hless hc))
      (hserved.trans (served_one h))
    exact {
      on := hon.called _
      here := rfl
      dir := (List.append_nil _).symm
      swept := Nat.zero_le _
      text := List.take_length
      index := rfl
      fits := hfits
      leaf := fun hne => absurd rfl hne
      known := hknown
      dirs := hdirs }
  · rw [f_opendir_failed path h]
    exact .failed _ _ hle rfl hserved h

/-- What is left when an entry below the directory being read is freed. -/
theorem Walking.live_erase (h : Walking v path c₀ sub₀ w t ds c sub) {n : Name}
    {e : Entry Name Clusters} (he : entry n sub = some e) : live (DirTree.unlink (ds ++ [n]) t) < live t := by
  rw [unlink_concat]
  exact live_adjustAt (d := (c₀, t)) h.here (DirTree.live_erase he)

theorem Walking.walkable_unlink (h : Walking v path c₀ sub₀ w t ds c sub) {n : Name}
    {e : Entry Name Clusters} (he : entry n sub = some e)
    (hok : EntryWalkable (pathOf path ds) n e) :
    Walkable path t ↔ Walkable path (DirTree.unlink (ds ++ [n]) t) := by
  rw [unlink_concat]
  refine walkable_adjustAt (d := (c₀, t)) h.here ?_
  rw [walkable_erase he]
  exact and_iff_right hok

/-- The end of a directory. -/
theorem turned_end (h : Walking v path c₀ sub₀ w t ds c sub) (hn : Names v path c₀ sub₀)
    (hfits : Fits path) (hempty : first sub = none) :
    Turned fault v path c₀ sub₀ w t c sub (turn fault path c₀.first w) := by
  rw [turn]
  by_cases h0 : fault w.fat.calls = .ok
  · rw [f_readdir_end h0 (h.volume_here hn _) h.swept hempty]
    dsimp only
    by_cases hc : c.first = c.last
    · rw [if_pos ((h.unlinks_iff hn).mpr hc)]
      by_cases h1 : fault (w.fat.calls + 1) = .ok
      · have hd := h.volume_here hn (w.fat.calls + 1)
        rw [h.dir, ← components_text h] at hd
        have hne : components (w.p.take w.index) ≠ [] := by
          rw [components_text h]
          exact List.append_ne_nil_of_left_ne_nil hn.ne ds
        rw [f_unlink_dir h1 hne hd hempty]
        simp only [ne_eq, not_true_eq_false, if_false]
        have hserved := (served_one h0).trans (served_one h1)
        by_cases hds : ds = []
        · subst hds
          obtain ⟨rfl, rfl⟩ := h.top
          rw [if_neg (not_not_intro hc)]
          refine .done _ hc hempty ?_ hserved
          rw [components_text h, List.append_nil]
          exact (h.on.called (w.fat.calls + 1)).unlink_all hn.ne
        · rw [if_pos fun hroot => hds ((h.root_iff hn).mp hroot).1, components_text h]
          -- the directory is an entry of the one above it
          obtain ⟨qs, n, rfl⟩ : ∃ qs n, ds = qs ++ [n] := ⟨_, _, (List.dropLast_append_getLast hds).symm⟩
          obtain ⟨e, hqs, hentry⟩ := dirAt_concat.mp h.here
          have hok : EntryWalkable (pathOf path qs) n (.dir c sub) := by
            refine ⟨?_, hc, walkable_empty hempty⟩
            rw [← pathOf_concat]
            exact h.fits
          refine restart_turned hn hfits ((h.on.called _).unlink hds _) h.known
            ((dirs_unlink _ t).trans h.dirs) (Nat.le_add_right _ 2) hserved ?_ fun _ => ?_
          · rw [unlink_concat]
            refine walkable_adjustAt (d := (c₀, t)) hqs ?_
            rw [walkable_erase hentry]
            exact and_iff_right hok
          · rw [unlink_concat]
            exact live_adjustAt (d := (c₀, t)) hqs (DirTree.live_erase hentry)
      · rw [f_unlink_failed _ h1]
        dsimp only
        rw [if_pos h1]
        exact .failed _ _ (Nat.le_succ _) rfl (served_one h0) h1
    · rw [if_neg fun hu => hc ((h.unlinks_iff hn).mp hu)]
      simp only [ne_eq, not_true_eq_false, if_false]
      rw [if_pos fun hroot => hc ((h.root_iff hn).mp hroot).2]
      exact restart_turned hn hfits (h.on.called _) h.known h.dirs (Nat.le_succ _) (served_one h0) Iff.rfl
        fun hc' => absurd hc' hc
  · rw [f_readdir_failed _ h0]
    exact .failed _ _ (le_refl _) rfl (fun j ha hb => absurd hb (Nat.not_lt_of_le ha)) h0

/-- An entry that the buffer does not hold. -/
theorem Walking.overflow (h : Walking v path c₀ sub₀ w t ds c sub) {n : Name} {e : Entry Name Clusters}
    (he : entry n sub = some e) (hlong : ¬Fits (pathOf path ds ++ 47 :: n.val)) : ¬Walkable path t := by
  intro hw
  have hsub := (walkable_dirAt (d := (c₀, t)) h.here hw).1
  refine hlong ?_
  cases e with
  | file => exact walkable_entry he hsub
  | dir b s => exact (walkable_entry he hsub).1

/-- A file. -/
theorem turned_file (h : Walking v path c₀ sub₀ w t ds c sub) (hn : Names v path c₀ sub₀) {n : Name}
    (hfirst : first sub = some (n, .file)) :
    Turned fault v path c₀ sub₀ w t c sub (turn fault path c₀.first w) := by
  have hentry := entry_of_first hfirst
  rw [turn]
  by_cases h0 : fault w.fat.calls = .ok
  · rw [f_readdir_file h0 (h.volume_here hn _) h.swept hfirst]
    dsimp only
    rw [h.text]
    by_cases hlong : FF_MAX_PATH < (pathOf path ds ++ 47 :: n.val).length + 1
    · rw [if_pos hlong]
      exact .overflow (h.overflow hentry fun hf => by rw [Fits] at hf; omega)
    · have hf : Fits (pathOf path ds ++ 47 :: n.val) := by
        rw [Fits]
        omega
      rw [if_neg hlong]
      by_cases h1 : fault (w.fat.calls + 1) = .ok
      · have hcomp : components (pathOf path ds ++ 47 :: n.val) = (components path ++ ds) ++ [n] := by
          rw [components_concat, components_pathOf]
        have hd := h.volume_here hn (w.fat.calls + 1)
        rw [h.dir] at hd
        rw [f_unlink_served h1 hcomp hd hentry rfl, hcomp, List.append_assoc]
        simp only [ne_eq, not_true_eq_false, if_false]
        refine .again _ (DirTree.unlink (ds ++ [n]) t) ds c (erase n sub) ?_ (h.walkable_unlink hentry hf)
          (fun _ => Or.inl (h.live_erase hentry)) ((served_one h0).trans (served_one h1))
        exact {
          on := (h.on.called _).unlink (List.concat_ne_nil _ _) _
          here := by
            rw [unlink_concat]
            exact dirAt_adjustAt (d := (c₀, t)) h.here
          dir := h.dir
          swept := skip_erase hfirst
          text := by rw [h.index, List.take_left]
          index := h.index
          fits := h.fits
          leaf := h.leaf
          known := h.known
          dirs := (dirs_unlink _ t).trans h.dirs }
      · rw [f_unlink_failed _ h1]
        dsimp only
        rw [if_pos h1]
        exact .failed _ _ (Nat.le_succ _) rfl (served_one h0) h1
  · rw [f_readdir_failed _ h0]
    exact .failed _ _ (le_refl _) rfl (fun j ha hb => absurd hb (Nat.not_lt_of_le ha)) h0

/-- A directory below the one being read. -/
theorem turned_dir (h : Walking v path c₀ sub₀ w t ds c sub) (hn : Names v path c₀ sub₀) {n : Name}
    {b : Clusters} {s : Slots Name Clusters} (hfirst : first sub = some (n, .dir b s)) :
    Turned fault v path c₀ sub₀ w t c sub (turn fault path c₀.first w) := by
  have hentry := entry_of_first hfirst
  rw [turn]
  by_cases h0 : fault w.fat.calls = .ok
  · rw [f_readdir_dir h0 (h.volume_here hn _) h.swept hfirst]
    dsimp only
    rw [h.text]
    by_cases hlong : FF_MAX_PATH < (pathOf path ds ++ 47 :: n.val).length + 1
    · rw [if_pos hlong]
      exact .overflow (h.overflow hentry fun hf => by rw [Fits] at hf; omega)
    · have hf : Fits (pathOf path ds ++ 47 :: n.val) := by
        rw [Fits]
        omega
      rw [if_neg hlong, if_pos rfl]
      have hhere : DirTree.dirAt (ds ++ [n]) (c₀, t) = some (b, s) := dirAt_concat.mpr ⟨_, h.here, hentry⟩
      by_cases h1 : fault (w.fat.calls + 1) = .ok
      · have hcomp : components (pathOf path ds ++ 47 :: n.val) = components path ++ (ds ++ [n]) := by
          rw [components_concat, components_pathOf, List.append_assoc]
        have hd := ((h.on.called (w.fat.calls + 1)).dirAt hn (ds ++ [n])).trans hhere
        rw [← hcomp] at hd
        rw [f_opendir_served h1 hd]
        refine .again _ t (ds ++ [n]) b s ?_ Iff.rfl (fun _ => Or.inr ⟨rfl, live_of_entry hentry⟩)
          ((served_one h0).trans (served_one h1))
        exact {
          on := h.on.called _
          here := hhere
          dir := hcomp
          swept := Nat.zero_le _
          text := by rw [List.take_length, pathOf_concat]
          index := by rw [pathOf_concat]
          fits := by rwa [pathOf_concat]
          leaf := fun _ => rfl
          known := Or.inr ⟨b, h.dirs.subset ((dirs_of_dirAt (d := (c₀, t)) (List.concat_ne_nil _ _)
            hhere).subset List.mem_cons_self), rfl⟩
          dirs := h.dirs }
      · rw [f_opendir_failed _ h1]
        exact .failed _ _ (Nat.le_succ _) rfl (served_one h0) h1
  · rw [f_readdir_failed _ h0]
    exact .failed _ _ (le_refl _) rfl (fun j ha hb => absurd hb (Nat.not_lt_of_le ha)) h0

theorem turned (h : Walking v path c₀ sub₀ w t ds c sub) (hn : Names v path c₀ sub₀) (hfits : Fits path) :
    Turned fault v path c₀ sub₀ w t c sub (turn fault path c₀.first w) := by
  cases hfirst : first sub with
  | none => exact turned_end h hn hfits hfirst
  | some entry =>
    obtain ⟨n, e⟩ := entry
    cases e with
    | file => exact turned_file h hn hfirst
    | dir b s => exact turned_dir h hn hfirst

/-! ### The whole walk -/

/-- What the rest of the walk returns, when the calls so far were served. -/
theorem loop_ends (hn : Names v path c₀ sub₀) (hfits : Fits path) (hsingle : c₀.first = c₀.last)
    (w : Walk) (t : Slots Name Clusters) (ds : List Name) (c : Clusters) (sub : Slots Name Clusters)
    (h : Walking v path c₀ sub₀ w t ds c sub) (hw : Walkable path t)
    (hserved : Served fault 0 w.fat.calls) : ∃ turns err fat,
      loop fault path c₀.first turns w = some (.returns err fat) ∧ Removed fault v path err fat := by
  have hc := (walkable_dirAt (d := (c₀, t)) h.here hw).2 hsingle
  have hturned : Turned fault v path c₀ sub₀ w t c sub (turn fault path c₀.first w) := turned h hn hfits
  generalize hr : turn fault path c₀.first w = r at hturned
  cases hturned with
  | failed k fat le calls served fails =>
    refine ⟨1, _, fat, by rw [loop, hr], Or.inr ⟨k, calls, fun j hj => ?_, fails, rfl⟩⟩
    exact hserved.trans served j (Nat.zero_le j) hj
  | overflow long => exact absurd hw long
  | done fat single empty volume served =>
    refine ⟨1, .none, fat, by rw [loop, hr], Or.inl ⟨fun j hj => ?_, rfl, volume⟩⟩
    exact hserved.trans served j (Nat.zero_le j) hj
  | again w' t' ds' c' sub' walking walkable less served =>
    have hless := less hc
    obtain ⟨turns, err, fat, hloop, hremoved⟩ := loop_ends hn hfits hsingle w' t' ds' c' sub' walking
      (walkable.mp hw) (hserved.trans served)
    exact ⟨turns + 1, err, fat, by rw [loop, hr]; exact hloop, hremoved⟩
termination_by (live t, live sub)
decreasing_by
  rcases hless with ht | ⟨ht, hsub⟩
  · exact Prod.Lex.left _ _ ht
  · rw [ht]
    exact Prod.Lex.right _ hsub

/-- A walk without a failing call has removed only entries that fit, from directories of one cluster. -/
theorem loop_walkable (hn : Names v path c₀ sub₀) (hfits : Fits path) (hok : ∀ k, fault k = .ok) :
    ∀ (turns : ℕ) (w : Walk) (t : Slots Name Clusters) (ds : List Name) (c : Clusters)
      (sub : Slots Name Clusters) (err : FfError) (fat : Fat), Walking v path c₀ sub₀ w t ds c sub →
      loop fault path c₀.first turns w = some (.returns err fat) →
      c₀.first = c₀.last ∧ Walkable path t
  | turns + 1, w, t, ds, c, sub, err, fat, h, hloop => by
    have hturned : Turned fault v path c₀ sub₀ w t c sub (turn fault path c₀.first w) := turned h hn hfits
    rw [loop] at hloop
    generalize turn fault path c₀.first w = r at hturned hloop
    cases hturned with
    | failed k fat le calls served fails => exact absurd (hok k) fails
    | overflow long => cases hloop
    | done fat single empty volume served => exact ⟨single, walkable_empty empty⟩
    | again w' t' ds' c' sub' walking walkable less served =>
      rw [walkable]
      exact loop_walkable hn hfits hok turns w' t' ds' c' sub' err fat walking hloop

end

theorem Walking.start (hn : Names v path c₀ sub₀) (hfits : Fits path) :
    Walking v path c₀ sub₀ ⟨⟨v, 1⟩, path, path.length, ⟨components path, 0, c₀.first⟩, 0⟩
      sub₀ [] c₀ sub₀ where
  on := On.start hn 1
  here := rfl
  dir := (List.append_nil _).symm
  swept := Nat.zero_le _
  text := List.take_length
  index := rfl
  fits := hfits
  leaf := fun hne => absurd rfl hne
  known := Or.inl rfl
  dirs := List.Sublist.refl _

theorem removes_of_walkable (hn : Names v path c₀ sub₀) (hfits : Fits path) (hsingle : c₀.first = c₀.last)
    (hw : Walkable path sub₀) : Removes v path := by
  intro fault
  by_cases h0 : fault 0 = .ok
  · obtain ⟨turns, err, fat, hloop, hremoved⟩ := loop_ends hn hfits hsingle _ sub₀ [] c₀ sub₀
      (Walking.start hn hfits) hw (served_one h0)
    refine ⟨turns, err, fat, ?_, hremoved⟩
    rw [FF_RmDirTree, f_opendir_served h0 hn.here]
    dsimp only
    rw [if_neg fun hlong => Nat.not_lt_of_le (Nat.le_of_lt_succ hlong) hfits]
    exact hloop
  · refine ⟨0, _, _, by rw [FF_RmDirTree, f_opendir_failed path h0], Or.inr ⟨0, rfl, ?_, h0, rfl⟩⟩
    exact fun j hj => absurd hj (Nat.not_lt_zero j)

theorem walkable_of_removes (hn : Names v path c₀ sub₀) (h : Removes v path) :
    Fits path ∧ c₀.first = c₀.last ∧ Walkable path sub₀ := by
  obtain ⟨turns, err, fat, hrun, -⟩ := h fun _ => .ok
  rw [FF_RmDirTree, f_opendir_served rfl hn.here] at hrun
  dsimp only at hrun
  by_cases hlong : FF_MAX_PATH < path.length + 1
  · rw [if_pos hlong] at hrun
    cases hrun
  · have hfits : Fits path := Nat.lt_of_succ_le (Nat.le_of_not_lt hlong)
    rw [if_neg hlong] at hrun
    exact ⟨hfits, loop_walkable hn hfits (fun _ => rfl) turns _ sub₀ [] c₀ sub₀ err fat
      (Walking.start hn hfits) hrun⟩

/-- A directory is removed with all below it, whatever fails, just if every path in it fits the buffer
    and no directory is longer than one cluster. -/
theorem FF_RmDirTree_removes_iff (hn : Names v path c₀ sub₀) :
    Removes v path ↔ Fits path ∧ c₀.first = c₀.last ∧ Walkable path sub₀ :=
  ⟨walkable_of_removes hn, fun h => removes_of_walkable hn h.1 h.2.1 h.2.2⟩

theorem proper_a : proper [97] = true := by decide

def nameA : Name := ⟨[97], proper_a⟩

/-- "a/a", a file in a directory of one cluster. -/
def nested : Slots Name Clusters := .dir nameA ⟨3, 3⟩ (.file nameA .nil) .nil

theorem nested_separate : Separate (dirs nested) where
  apart := List.pairwise_singleton _ _
  nonzero := List.forall_mem_singleton.mpr ⟨by decide, by decide⟩

theorem nested_removed : Removes ⟨⟨2, 2⟩, nested, nested_separate⟩ [47, 97] := by
  have hn : Names ⟨⟨2, 2⟩, nested, nested_separate⟩ [47, 97] ⟨3, 3⟩ (.file nameA .nil) :=
    ⟨by decide, rfl⟩
  refine (FF_RmDirTree_removes_iff hn).mpr ⟨?_, rfl, ?_, trivial⟩
  · rw [Fits]
    decide
  · rw [Fits]
    decide

/-- Sixteen entries of "a" are unlinked: with the two dot entries they filled a cluster of one sector,
    and the reading ends in the next. -/
def emptied : Slots Name Clusters := .dir nameA ⟨3, 4⟩ (Nat.repeat .gone 16 .nil) .nil

theorem emptied_separate : Separate (dirs emptied) where
  apart := List.pairwise_singleton _ _
  nonzero := List.forall_mem_singleton.mpr ⟨by decide, by decide⟩

theorem emptied_stays : ¬∀ (v : Volume) (path : List UInt8) (c₀ : Clusters)
    (sub₀ : Slots Name Clusters), Names v path c₀ sub₀ → Removes v path := by
  intro h
  have hn : Names ⟨⟨2, 2⟩, emptied, emptied_separate⟩ [47, 97] ⟨3, 4⟩ (Nat.repeat .gone 16 .nil) :=
    ⟨by decide, rfl⟩
  exact absurd (walkable_of_removes hn (h _ _ _ _ hn)).2.1 (by decide)

end FatFs.RmDirTree
