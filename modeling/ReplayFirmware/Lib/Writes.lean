import Mathlib.Data.List.Basic

/-! Memories that are written in blocks, one after the other.

    A block says for every address what it puts there, if anything; a later block wins. -/

namespace Writes

variable {α β : Type*}

def write (w : α → Option β) (mem : α → β) : α → β := fun x => (w x).getD (mem x)

/-- The memory behind the blocks. -/
def writeAll (ws : List (α → Option β)) (mem : α → β) : α → β := ws.foldl (fun mem w => write w mem) mem

theorem writeAll_append (as bs : List (α → Option β)) (mem : α → β) :
    writeAll (as ++ bs) mem = writeAll bs (writeAll as mem) := List.foldl_append ..

/-- Behind one more block there is what it puts, and else what was there. -/
theorem writeAll_concat (ws : List (α → Option β)) (w : α → Option β) (mem : α → β) (x : α) :
    writeAll (ws ++ [w]) mem x = (w x).getD (writeAll ws mem x) := by
  rw [writeAll_append]
  rfl

end Writes
