import CorpusStats.Weight
/-!
# CorpusStats.Cell

A **cell** holds one weight. Writing into it by `swap` or `add` answers what it held
before, so a caller can tell a first write from a later one.
-/

namespace CorpusStats

/-- One weight that is read, overwritten and added to. -/
structure Cell (α : Type) where
  value : α
  deriving Repr

namespace Cell

variable {α : Type}

def empty [Weight α] : Cell α := ⟨0⟩

def store (value : α) (_ : Cell α) : Cell α := ⟨value⟩

/-- Overwrite the value and answer the one before. -/
def swap (value : α) (c : Cell α) : α × Cell α := (c.value, ⟨value⟩)

/-- Add to the value and answer the one before. -/
def add [Weight α] (delta : α) (c : Cell α) : α × Cell α := (c.value, ⟨c.value + delta⟩)

end Cell

end CorpusStats
