import Mathlib.Data.List.Basic
import Mathlib.Data.Nat.Notation
import Mathlib.Logic.Function.Basic

/-! The allocator of `freelist.c`.

    Memory is a circular list of free blocks, each with a header in front; sizes count headers. A request
    is cut from the end of the first block that is large enough, and when there is none, the break is
    moved. Pointers and sizes are numbers below `2 ^ 32`, and arithmetic wraps. -/

namespace FreeList

/-- `FreeList_Header`, as in release builds. -/
structure Header where
  nextPtr : ℕ
  numBlocks : ℕ
  deriving DecidableEq

/-- `size_t` and pointer arithmetic -/
def wrap (n : ℕ) : ℕ := n % 4294967296

/-- `sizeof(FreeList_Header)` -/
def headerSize : ℕ := 8

/-- The alignment of a header is that of its words. -/
def headerAlign : ℕ := 4

/-- `p + n`, for a pointer to headers. -/
def advance (p n : ℕ) : ℕ := wrap (p + n * headerSize)

/-- `(FreeList_Header*) -1` -/
def noMemory : ℕ := 0xFFFFFFFF

/-- `FreeList_Context`, at the address `root - 8`, with all memory and what `sbrkFunc` keeps. Headers
    stand at their addresses in memory, `context->root` at `root`. -/
structure Context (β : Type) where
  sbrkFunc : Option (β → ℕ → ℕ × β)
  heapSize : ℕ
  root : ℕ
  freeList : ℕ
  mem : ℕ → Header
  brk : β

variable {β : Type}

/-! ### `FreeList_Free` -/

/-- The loop of `FreeList_Free`: the block behind which the freed one belongs. -/
def findPlace (mem : ℕ → Header) (blockPtr : ℕ) : ℕ → ℕ → Option ℕ
  | 0, _ => none
  | fuel + 1, p =>
    let nextPtr := (mem p).nextPtr
    if p < blockPtr ∧ blockPtr < nextPtr then some p
    else if p ≥ nextPtr ∧ (p < blockPtr ∨ blockPtr < nextPtr) then some p
    else findPlace mem blockPtr fuel nextPtr

/-- The freed block takes in the one behind it, or points to it. -/
def joinNext (mem : ℕ → Header) (p blockPtr : ℕ) : ℕ → Header :=
  let nextPtr := (mem p).nextPtr
  if advance blockPtr (mem blockPtr).numBlocks = nextPtr then
    Function.update mem blockPtr
      { nextPtr := (mem nextPtr).nextPtr
        numBlocks := wrap ((mem blockPtr).numBlocks + (mem nextPtr).numBlocks) }
  else Function.update mem blockPtr { mem blockPtr with nextPtr := nextPtr }

/-- The block before it takes it in, or points to it. -/
def joinPrev (mem : ℕ → Header) (p blockPtr : ℕ) : ℕ → Header :=
  if advance p (mem p).numBlocks = blockPtr then
    Function.update mem p
      { nextPtr := (mem blockPtr).nextPtr
        numBlocks := wrap ((mem p).numBlocks + (mem blockPtr).numBlocks) }
  else Function.update mem p { mem p with nextPtr := blockPtr }

/-- `FreeList_Free`; `none` when its loop does not end. -/
def free (fuel : ℕ) (context : Context β) (ptr : ℕ) : Option (Context β) :=
  let blockPtr := wrap (ptr + 4294967296 - headerSize)
  (findPlace context.mem blockPtr fuel context.freeList).map fun p =>
    { context with mem := joinPrev (joinNext context.mem p blockPtr) p blockPtr, freeList := p }

/-! ### `FreeList_Alloc` -/

/-- `numBlocks` of a request -/
def blocksFor (size : ℕ) : ℕ := wrap (size + headerSize - 1) / headerSize + 1

/-- The loop around `sbrkFunc`, which asks for less and less: the pointer, and how much was asked for. -/
def askMemory (sbrkFunc : β → ℕ → ℕ × β) (numBlocks addBlocks : ℕ) :
    ℕ → ℕ → β → Option (ℕ × ℕ × β)
  | 0, _, _ => none
  | fuel + 1, divider, brk =>
    let addBytes := wrap (addBlocks / divider * headerSize)
    let (p, brk) := sbrkFunc brk addBytes
    if p = noMemory ∧ addBytes ≥ wrap (numBlocks * headerSize) then
      askMemory sbrkFunc numBlocks addBlocks fuel (wrap (divider + 1)) brk
    else some (p, addBytes, brk)

/-- The search of `FreeList_Alloc`: the pointer that it returns; `none` when it does not end. -/
def search (numBlocks : ℕ) : ℕ → Context β → ℕ → ℕ → Option (ℕ × Context β)
  | 0, _, _, _ => none
  | fuel + 1, context, prevPtr, p =>
    let mem := context.mem
    if (mem p).numBlocks ≥ numBlocks then
      if (mem p).numBlocks = numBlocks then
        some (advance p 1,
          { context with
            mem := Function.update mem prevPtr { mem prevPtr with nextPtr := (mem p).nextPtr }
            freeList := prevPtr })
      else
        let rest := (mem p).numBlocks - numBlocks
        let mem := Function.update mem p { mem p with numBlocks := rest }
        let p := advance p rest
        some (advance p 1,
          { context with
            mem := Function.update mem p { mem p with numBlocks := numBlocks }
            freeList := prevPtr })
    else if p = context.freeList then
      let addBlocks := if numBlocks < 1024 then 1024 else numBlocks
      match context.sbrkFunc with
      | none => some (0, context)
      | some sbrkFunc =>
        match askMemory sbrkFunc numBlocks addBlocks fuel 1 context.brk with
        | none => none
        | some (p, addBytes, brk) =>
          if p = noMemory then some (0, { context with brk := brk })
          else
            let mem := Function.update mem p { nextPtr := 0, numBlocks := addBytes / headerSize }
            match free fuel { context with mem := mem, brk := brk } (advance p 1) with
            | none => none
            | some context =>
              let context := { context with heapSize := wrap (context.heapSize + addBytes) }
              let p := context.freeList
              search numBlocks fuel context p (context.mem p).nextPtr
    else search numBlocks fuel context p (mem p).nextPtr

/-- The first call makes the list of the root alone. -/
def start (context : Context β) : Context β :=
  if context.freeList = 0 then
    { context with
      mem := Function.update context.mem context.root { nextPtr := context.root, numBlocks := 0 }
      freeList := context.root }
  else context

/-- `FreeList_Alloc` -/
def alloc (fuel : ℕ) (context : Context β) (size : ℕ) : Option (ℕ × Context β) :=
  let context := start context
  search (blocksFor size) fuel context context.freeList (context.mem context.freeList).nextPtr

/-! ### Programs -/

/-- What a program does with the heap: it allocates, frees what is live, and writes into it, a header's
    worth at a time. -/
inductive Op where
  | alloc (size : UInt32)
  | free (ptr : ℕ)
  | store (ptr k : ℕ) (words : Header)

/-- The heap, and the live blocks with their headers. -/
structure Program (β : Type) where
  context : Context β
  live : List ℕ

/-- One operation; `none` when the call does not return. -/
def Op.apply (fuel : ℕ) (s : Program β) : Op → Option (Program β)
  | .alloc size =>
    (FreeList.alloc fuel s.context size.toNat).map fun (ptr, context) =>
      { context := context, live := if ptr = 0 then s.live else wrap (ptr + 4294967296 - headerSize) :: s.live }
  | .free ptr =>
    let block := wrap (ptr + 4294967296 - headerSize)
    if block ∈ s.live then
      (FreeList.free fuel s.context ptr).map fun context =>
        { context := context, live := s.live.erase block }
    else some s
  | .store ptr k words =>
    let block := wrap (ptr + 4294967296 - headerSize)
    if block ∈ s.live ∧ k + 1 < (s.context.mem block).numBlocks then
      let mem := Function.update s.context.mem (advance ptr k) words
      some { s with context := { s.context with mem := mem } }
    else some s

def run (fuel : ℕ) : List Op → Program β → Option (Program β)
  | [], s => some s
  | op :: ops, s => (op.apply fuel s).bind (run fuel ops)

end FreeList
