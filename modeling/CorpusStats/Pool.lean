import CorpusStats.Allocator
import CorpusStats.Index
import CorpusStats.Row
/-!
# CorpusStats.Pool

A **pool** is an arena of rows, an allocator of its slots, and an index from content
key to slot. Rows are named by their slot and never move.

* Asking for a key that is new takes the next slot and fills the row there; asking
  again answers the same slot. Slots are therefore numbered in the order in which
  their keys are first asked for.
* The arena is there from the beginning: a slot beyond the allocated ones has the
  default row. Words use this, since a word has a marginal count and a class whether
  or not its name was ever registered.
* A full pool leaves the key marked in its index, so that the request keeps failing.
-/

namespace CorpusStats

/-- An arena of rows that are found through content keys. -/
structure Pool (ρ : Type) where
  /-- The name used in failures. -/
  name : String
  /-- One row per slot, allocated or not. -/
  rows : Array ρ
  /-- Which slots are in use. -/
  allocator : Allocator
  /-- From content key to slot. -/
  index : Index
  rows_size : rows.size = allocator.capacity
  deriving Repr

namespace Pool

variable {ρ : Type}

/-- An empty pool, unless it would have no slots or more slots than its index. -/
def ofCapacity [Inhabited ρ] (name : String) (capacity indexCapacity : Nat) :
    Except Error (Pool ρ) := do
  if capacity = 0 ∨ indexCapacity < capacity then
    throw (.config (.poolOutOfRange name capacity indexCapacity))
  let index ← Index.ofCapacity name indexCapacity
  return ⟨name, Array.replicate capacity default, .ofCapacity capacity, index,
    Array.size_replicate⟩

variable (p : Pool ρ)

def capacity : Nat := p.allocator.capacity

def used : Nat := p.allocator.used

theorem used_le_capacity : p.used ≤ p.capacity := p.allocator.used_le

theorem used_le_size : p.used ≤ p.rows.size := p.rows_size ▸ p.allocator.used_le

def isEmpty : Bool := p.allocator.isEmpty

def slots : List Nat := List.range p.used

/-- The rows in use, in the order of their slots. -/
def liveRows : List ρ := (p.rows.extract 0 p.used).toList

/-- The row of a slot, allocated or not. -/
def row? (slot : Nat) : Option ρ := p.rows[slot]?

/-- The slot of a key, if it has one. -/
def lookup (key : UInt64) : Option UInt32 :=
  let slot := p.index.lookup key
  if slot = Index.unset then none else some slot

/-- Accept a slot that is in use. -/
def check (slot : UInt32) : Except Error Nat :=
  if slot.toNat < p.used then .ok slot.toNat
  else .error (.malformed (.slotOutOfRange p.name slot.toNat p.used))

/-- Accept an id within the arena, in use or not. -/
def checkId (id : UInt32) : Except Error Nat :=
  if id.toNat < p.capacity then .ok id.toNat
  else .error (.malformed (.idBeyond p.name id.toNat p.capacity))

/-! ### Writing -/

/-- Change the row of a slot; a slot beyond the arena is left alone. -/
def modify (slot : Nat) (f : ρ → ρ) : Pool ρ → Pool ρ
  | ⟨name, rows, allocator, index, h⟩ =>
    ⟨name, rows.modify slot f, allocator, index, by rw [Array.size_modify]; exact h⟩

/-- Change the row of a slot of the arena. -/
def modify? (slot : Nat) (f : ρ → ρ) : Option (Pool ρ) :=
  if slot < p.rows.size then some (p.modify slot f) else none

/-- Run a stage of the index alone. -/
def onIndex {β : Type} (act : Stage Index β) : Stage (Pool ρ) β
  | ⟨name, rows, allocator, index, h⟩ =>
    match act index with
    | .ok b index => .ok b ⟨name, rows, allocator, index, h⟩
    | .error e index => .error e ⟨name, rows, allocator, index, h⟩

/-- The slot of a key. A new key takes the next slot, where `fill` changes the row.
Answers whether the key was new. -/
def findOrCreate (key : UInt64) (fill : ρ → ρ) : Stage (Pool ρ) (UInt32 × Bool)
  | ⟨name, rows, allocator, index, h⟩ =>
    match hTake : allocator.take? with
    | some (slot, allocator') =>
      match index.findOrCreate key (.ok slot.toUInt32) with
      | .ok (found, true) index =>
        .ok (found, true) ⟨name, rows.modify slot fill, allocator', index, by
          rw [Array.size_modify, h, (Allocator.take?_eq_some hTake).2.2]⟩
      | .ok (found, false) index => .ok (found, false) ⟨name, rows, allocator, index, h⟩
      | .error e index => .error e ⟨name, rows, allocator, index, h⟩
    | none =>
      onIndex (Index.findOrCreate key (.error (.overflow name allocator.capacity)))
        ⟨name, rows, allocator, index, h⟩

/-- Forget every key and keep the rows. -/
def clearIndex : Pool ρ → Pool ρ
  | ⟨name, rows, allocator, index, h⟩ => ⟨name, rows, allocator, index.clear, h⟩

/-- Empty the pool: rows, slots and keys. -/
def reset [Inhabited ρ] : Pool ρ :=
  ⟨p.name, Array.replicate p.capacity default, p.allocator.reset, p.index.clear,
    Array.size_replicate⟩

/-! ### What writing keeps -/

@[simp] theorem used_modify (slot : Nat) (f : ρ → ρ) : (p.modify slot f).used = p.used := rfl

@[simp] theorem capacity_modify (slot : Nat) (f : ρ → ρ) :
    (p.modify slot f).capacity = p.capacity := rfl

@[simp] theorem index_modify (slot : Nat) (f : ρ → ρ) : (p.modify slot f).index = p.index := rfl

/-- Changing a row changes no other row. -/
theorem row?_modify (slot slot' : Nat) (f : ρ → ρ) :
    (p.modify slot f).row? slot' =
      if slot = slot' then (p.row? slot').map f else p.row? slot' := by
  show (p.rows.modify slot f)[slot']? = _
  rw [Array.getElem?_modify]
  rfl

/-- A slot in use has a row. -/
theorem row?_isSome_of_lt_used {slot : Nat} (h : slot < p.used) : (p.row? slot).isSome := by
  have := p.used_le_size
  simp [row?, show slot < p.rows.size by omega]

end Pool

/-! ### The four pools of a store -/

/-- The pool of words. A word's id is its slot. -/
abbrev WordPool (α : Type) := Pool (WordRow α)

/-- The pool of pairs. -/
abbrev PairPool (α : Type) := Pool (PairRow α)

/-- The pool of sections. -/
abbrev SectionPool (α : Type) := Pool (SectionRow α)

/-- The pool of candidates. -/
abbrev CandidatePool (α : Type) := Pool (CandidateRow α)

namespace WordPool

variable {α : Type}

/-- The class of a word: the word itself if it has none or is beyond the arena. -/
def classOf (words : WordPool α) (word : UInt32) : UInt32 :=
  match words.row? word.toNat with
  | some row => if row.classId = noClass then word else row.classId
  | none => word

/-- The marginal count of a word: nothing beyond the arena. -/
def marginal [Weight α] (words : WordPool α) (word : UInt32) : α :=
  match words.row? word.toNat with
  | some row => row.count
  | none => 0

end WordPool

end CorpusStats
