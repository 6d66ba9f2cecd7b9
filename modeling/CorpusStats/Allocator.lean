/-!
# CorpusStats.Allocator

Hands out the slot numbers `0, 1, 2, …` below a capacity, each once. Once all are out
it stays full; asking again changes nothing.
-/

namespace CorpusStats

/-- A counter of slots handed out. -/
structure Allocator where
  capacity : Nat
  /-- How many have been handed out, which is also the next one. -/
  used : Nat
  used_le : used ≤ capacity
  deriving Repr, DecidableEq

namespace Allocator

/-- An allocator that has handed out nothing. -/
def ofCapacity (capacity : Nat) : Allocator := ⟨capacity, 0, Nat.zero_le _⟩

/-- The next slot, and the allocator once it is handed out. -/
def take? (a : Allocator) : Option (Nat × Allocator) :=
  if h : a.used < a.capacity then some (a.used, ⟨a.capacity, a.used + 1, h⟩) else none

def reset (a : Allocator) : Allocator := ofCapacity a.capacity

def isEmpty (a : Allocator) : Bool := a.used == 0

theorem take?_eq_none_iff (a : Allocator) : a.take? = none ↔ a.used = a.capacity := by
  have := a.used_le
  unfold take?
  split <;> simp <;> omega

theorem take?_eq_some {a b : Allocator} {slot : Nat} (h : a.take? = some (slot, b)) :
    slot = a.used ∧ b.used = a.used + 1 ∧ b.capacity = a.capacity := by
  unfold take? at h
  split at h
  · cases h
    exact ⟨rfl, rfl, rfl⟩
  · cases h

end Allocator

end CorpusStats
