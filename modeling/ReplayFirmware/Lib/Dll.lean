import Mathlib.Data.List.Basic
import Mathlib.Data.List.Nodup
import Mathlib.Tactic.Common

/-! Doubly linked lists, as what two link functions say about a list of nodes.

    A segment has a node in front of it and a node behind it, or nothing. A list is a segment with
    nothing on either side, from its top on. -/

namespace Dll

variable {α : Type*} {next last next' last' : α → Option α}

/-- Following `next` from a pointer on visits these nodes and ends. -/
inductive Forward (next : α → Option α) : Option α → List α → Prop
  | nil : Forward next none []
  | cons {a : α} {l : List α} : Forward next (next a) l → Forward next (some a) (a :: l)

/-- The nodes of a segment are linked both ways, to `p` in front of it and `n` behind it. -/
def Seg (next last : α → Option α) : Option α → List α → Option α → Prop
  | _, [], _ => True
  | p, a :: l, n => last a = p ∧ next a = l.head?.or n ∧ Seg next last (some a) l n

/-- A list from `top` on; no node is in it twice. -/
structure Linked (next last : α → Option α) (top : Option α) (l : List α) : Prop where
  top_eq : top = l.head?
  seg : Seg next last none l none
  nodup : l.Nodup

/-! ### Following the links -/

/-- There is one list of nodes at most. -/
theorem Forward.unique : ∀ {l l' : List α} {top : Option α}, Forward next top l →
    Forward next top l' → l = l'
  | [], _, _, .nil, h => by
    cases h
    rfl
  | a :: l, _, _, .cons h, h' => by
    cases h' with
    | cons h' => exact congrArg _ (h.unique h')

theorem Seg.forward : ∀ {p : Option α} {l : List α}, Seg next last p l none →
    Forward next l.head? l
  | _, [], _ => .nil
  | _, a :: l, ⟨_, hnext, h⟩ => by
    refine .cons ?_
    rw [hnext, Option.or_none]
    exact h.forward

theorem Linked.forward {top : Option α} {l : List α} (h : Linked next last top l) :
    Forward next top l := by
  rw [h.top_eq]
  exact h.seg.forward

/-! ### Segments -/

theorem seg_append : ∀ {p n : Option α} {l₁ l₂ : List α},
    Seg next last p (l₁ ++ l₂) n ↔
      Seg next last p l₁ (l₂.head?.or n) ∧ Seg next last (l₁.getLast?.or p) l₂ n
  | p, n, [], l₂ => by simp [Seg]
  | p, n, a :: l₁, l₂ => by
    have hlast : (a :: l₁).getLast?.or p = l₁.getLast?.or (some a) := by
      rw [List.getLast?_cons]
      cases l₁.getLast? <;> rfl
    have hhead : (l₁ ++ l₂).head?.or n = l₁.head?.or (l₂.head?.or n) := by
      cases l₁ <;> rfl
    rw [List.cons_append, Seg, Seg, hlast, hhead, seg_append]
    tauto

/-- Links outside of a segment do not matter. -/
theorem Seg.congr : ∀ {l : List α} {p n : Option α}, Seg next last p l n →
    (∀ a ∈ l, next' a = next a ∧ last' a = last a) → Seg next' last' p l n
  | [], _, _, _, _ => trivial
  | a :: l, _, _, ⟨hlast, hnext, h⟩, hl => by
    rw [List.forall_mem_cons] at hl
    exact ⟨hl.1.2.trans hlast, hl.1.1.trans hnext, h.congr hl.2⟩

theorem Linked.congr {top : Option α} {l : List α} (h : Linked next last top l)
    (hl : ∀ a ∈ l, next' a = next a ∧ last' a = last a) : Linked next' last' top l :=
  ⟨h.top_eq, h.seg.congr hl, h.nodup⟩

/-! ### A node at the end -/

/-- The empty list, with a first node. -/
theorem Linked.first {a : α} (hnext : next a = none) (hlast : last a = none) :
    Linked next last (some a) [a] :=
  ⟨rfl, ⟨hlast, hnext, trivial⟩, List.nodup_singleton a⟩

/-- A fresh node is linked behind the last one. -/
theorem Linked.snoc {top : Option α} {l : List α} {t a : α} (h : Linked next last top (l ++ [t]))
    (ha : a ∉ l ++ [t]) (htnext : next' t = some a) (htlast : last' t = last t)
    (hnext : next' a = none) (hlast : last' a = some t)
    (hl : ∀ b ∈ l, next' b = next b ∧ last' b = last b) :
    Linked next' last' top (l ++ [t] ++ [a]) := by
  obtain ⟨hseg, htail⟩ := seg_append.mp h.seg
  refine ⟨?_, ?_, ?_⟩
  · rw [h.top_eq]
    cases l <;> rfl
  · rw [List.append_assoc, seg_append]
    exact ⟨hseg.congr hl, htlast.trans htail.1, htnext, by simpa using hlast, hnext, trivial⟩
  · exact List.nodup_append.mpr ⟨h.nodup, List.nodup_singleton a,
      fun b hb c hc hbc => ha (by rw [List.mem_singleton.mp hc] at hbc; exact hbc ▸ hb)⟩

/-! ### The links of a node -/

/-- A node has its neighbours in its links. -/
theorem Linked.node {top : Option α} {l₁ l₂ : List α} {a : α}
    (h : Linked next last top (l₁ ++ a :: l₂)) : last a = l₁.getLast? ∧ next a = l₂.head? := by
  obtain ⟨-, hlast, hnext, -⟩ := seg_append.mp h.seg
  rw [Option.or_none] at hlast hnext
  exact ⟨hlast, hnext⟩

/-! ### The place of a link -/

/-- Where a pointer to a node is kept: at the top, or in the node in front. -/
inductive Link (α : Type*) where
  | top
  | next (a : α)
deriving DecidableEq

/-- The link that points behind these nodes. -/
def behind (l : List α) : Link α :=
  match l.getLast? with
  | none => .top
  | some a => .next a

def Link.get (k : Link α) (top : Option α) (next : α → Option α) : Option α :=
  match k with
  | .top => top
  | .next a => next a

section
variable [DecidableEq α] (k : Link α) (p : Option α)

def Link.setTop (top : Option α) : Option α :=
  match k with
  | .top => p
  | .next _ => top

def Link.setNext (next : α → Option α) : α → Option α :=
  match k with
  | .top => next
  | .next a => Function.update next a p

end

theorem behind_snoc (l : List α) (a : α) : behind (l ++ [a]) = .next a := by
  rw [behind, List.getLast?_concat]

theorem behind_append (l₁ : List α) {l₂ : List α} (h : l₂ ≠ []) : behind (l₁ ++ l₂) = behind l₂ := by
  rcases List.eq_nil_or_concat' l₂ with rfl | ⟨l, a, rfl⟩
  · exact absurd rfl h
  · rw [← List.append_assoc, behind_snoc, behind_snoc]

theorem Linked.get_behind {top : Option α} {l₁ l₂ : List α} (h : Linked next last top (l₁ ++ l₂)) :
    (behind l₁).get top next = l₂.head? := by
  rcases List.eq_nil_or_concat' l₁ with rfl | ⟨l, a, rfl⟩
  · exact h.top_eq
  · rw [behind_snoc, Link.get]
    rw [List.append_assoc] at h
    exact h.node.2

/-- The link behind some nodes is in no other node. -/
theorem setNext_behind_of_notMem [DecidableEq α] {l : List α} {a : α} (ha : a ∉ l) (p : Option α)
    (next : α → Option α) : (behind l).setNext p next a = next a := by
  rcases List.eq_nil_or_concat' l with rfl | ⟨l, b, rfl⟩
  · rfl
  · rw [behind_snoc, Link.setNext, Function.update_of_ne]
    exact fun he => ha (he ▸ by simp)

theorem Link.setNext_congr [DecidableEq α] (k : Link α) (p : Option α) {a : α}
    (h : next' a = next a) : k.setNext p next' a = k.setNext p next a := by
  cases k with
  | top => exact h
  | next b =>
    rw [Link.setNext, Link.setNext, Function.update_apply, Function.update_apply, h]

/-- The nodes up to a link that is set. -/
theorem Seg.setNext_behind [DecidableEq α] {l : List α} {q n : Option α} (h : Seg next last q l n)
    (hl : l.Nodup) (p : Option α) : Seg ((behind l).setNext p next) last q l p := by
  rcases List.eq_nil_or_concat' l with rfl | ⟨l, b, rfl⟩
  · trivial
  · obtain ⟨hfront, hb⟩ := seg_append.mp h
    rw [behind_snoc, Link.setNext, seg_append]
    have hne : ∀ a ∈ l, a ≠ b := fun a ha he =>
      List.disjoint_of_nodup_append hl ha (List.mem_singleton.mpr he)
    refine ⟨hfront.congr fun a ha => ⟨Function.update_of_ne (hne a ha) .., rfl⟩, ?_⟩
    exact ⟨hb.1, Function.update_self .., trivial⟩

/-- What is behind some nodes is replaced by another segment. -/
theorem Linked.setBehind [DecidableEq α] {top : Option α} {l₁ l₂ : List α}
    (h : Linked next last top (l₁ ++ l₂)) (l₃ : List α) (hlast : ∀ a ∈ l₁, last' a = last a)
    (hnext : ∀ a ∈ l₁, next' a = (behind l₁).setNext l₃.head? next a)
    (h₃ : Seg next' last' l₁.getLast? l₃ none) (hnodup : (l₁ ++ l₃).Nodup) :
    Linked next' last' ((behind l₁).setTop l₃.head? top) (l₁ ++ l₃) := by
  refine ⟨?_, seg_append.mpr ⟨?_, by rwa [Option.or_none]⟩, hnodup⟩
  · rcases List.eq_nil_or_concat' l₁ with rfl | ⟨l, a, rfl⟩
    · rfl
    · rw [behind_snoc, Link.setTop, h.top_eq]
      cases l <;> rfl
  · rw [Option.or_none]
    exact ((seg_append.mp h.seg).1.setNext_behind hnodup.of_append_left _).congr
      fun a ha => ⟨hnext a ha, hlast a ha⟩

/-- A node in front of another one is taken out. -/
theorem Linked.unlink [DecidableEq α] {top : Option α} {l₁ l₂ : List α} {a b : α}
    (h : Linked next last top (l₁ ++ a :: b :: l₂)) :
    Linked ((behind l₁).setNext (some b) next) (Function.update last b (last a))
      ((behind l₁).setTop (some b) top) (l₁ ++ b :: l₂) := by
  have hnodup : (l₁ ++ b :: l₂).Nodup :=
    h.nodup.sublist ((List.sublist_cons_self a _).append_left l₁)
  have hbl : ∀ c ∈ l₁, c ≠ b := fun c hc he =>
    List.disjoint_of_nodup_append hnodup hc (he ▸ List.mem_cons_self ..)
  refine h.setBehind (b :: l₂) (fun c hc => Function.update_of_ne (hbl c hc) ..) (fun _ _ => rfl) ?_
    hnodup
  obtain ⟨-, halast, -, -, hbnext, htail⟩ := seg_append.mp h.seg
  have hl₁ : ∀ c ∈ b :: l₂, c ∉ l₁ := fun c hc hc₁ => List.disjoint_of_nodup_append hnodup hc₁ hc
  refine ⟨?_, ?_, htail.congr fun c hc => ⟨?_, ?_⟩⟩
  · rw [Function.update_self, halast, Option.or_none]
  · rw [setNext_behind_of_notMem (hl₁ b (List.mem_cons_self ..)), hbnext]
  · exact setNext_behind_of_notMem (hl₁ c (List.mem_cons_of_mem _ hc)) ..
  · refine Function.update_of_ne (fun he => ?_) ..
    exact (List.nodup_cons.mp hnodup.of_append_right).1 (he ▸ hc)

/-- A node is put in front of another one. -/
theorem Linked.insert [DecidableEq α] {top : Option α} {l₁ l₂ : List α} {a b : α}
    (h : Linked next last top (l₁ ++ b :: l₂)) (ha : a ∉ l₁ ++ b :: l₂) :
    Linked ((behind l₁).setNext (some a) (Function.update next a (some b)))
      (Function.update (Function.update last a (last b)) b (some a))
      ((behind l₁).setTop (some a) top) (l₁ ++ a :: b :: l₂) := by
  have hl₁ : ∀ c ∈ b :: l₂, c ∉ l₁ := fun c hc hc₁ => List.disjoint_of_nodup_append h.nodup hc₁ hc
  have hab : a ≠ b := fun he => ha (he ▸ by simp)
  have hal : ∀ c ∈ l₁ ++ b :: l₂, c ≠ a := fun c hc he => ha (he ▸ hc)
  have hfront : ∀ c ∈ l₁, c ≠ a ∧ c ≠ b := fun c hc =>
    ⟨hal c (List.mem_append_left _ hc), fun he => hl₁ b (List.mem_cons_self ..) (he ▸ hc)⟩
  obtain ⟨-, hblast, hbnext, htail⟩ := seg_append.mp h.seg
  refine h.setBehind (a :: b :: l₂) (fun c hc => ?_) (fun c hc => ?_) ?_ ?_
  · rw [Function.update_of_ne (hfront c hc).2, Function.update_of_ne (hfront c hc).1]
  · exact Link.setNext_congr _ _ (Function.update_of_ne (hfront c hc).1 ..)
  refine ⟨?_, ?_, ?_, ?_, ?_⟩
  · rw [Function.update_of_ne hab, Function.update_self, hblast, Option.or_none]
  · rw [setNext_behind_of_notMem (fun hm => ha (List.mem_append_left _ hm)), Function.update_self]
    rfl
  · exact Function.update_self ..
  · rw [setNext_behind_of_notMem (hl₁ b (List.mem_cons_self ..)), Function.update_of_ne hab.symm,
      hbnext]
  · refine htail.congr fun c hc => ⟨?_, ?_⟩
    · rw [setNext_behind_of_notMem (hl₁ c (List.mem_cons_of_mem _ hc)),
        Function.update_of_ne (hal c (by simp [hc]))]
    · have hcb : c ≠ b := fun he => (List.nodup_cons.mp h.nodup.of_append_right).1 (he ▸ hc)
      rw [Function.update_of_ne hcb, Function.update_of_ne (hal c (by simp [hc]))]
  · exact List.nodup_middle.mpr (List.nodup_cons.mpr ⟨ha, h.nodup⟩)

end Dll
