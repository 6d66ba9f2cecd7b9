import CorpusStats.Key
import CorpusStats.Stage
import CorpusStats.Weight
/-!
# CorpusStats.Index

A map of fixed capacity from 64-bit keys to 32-bit values, by **open addressing**.

* A key's **home** is its remainder by the capacity. A probe visits the slots from the
  home on, wrapping at the end, and stops at the slot that holds the key or at the
  first vacant one. All operations are read off the result of that one probe.
* Erasing a key leaves its slot **erased**: probes for other keys pass over it, and no
  key ever takes it again. Only `clear` makes slots vacant.
* Values are raw words. Two of them have a meaning of their own: `unset` (also the
  answer of a look-up that finds nothing) and `exhausted`, the mark left on a key whose
  creation failed, so that the same request fails again instead of succeeding half-way.
* Capacities are powers of two. That is checked when an index is made; nothing below
  depends on it, since the remainder is taken of the key itself.
-/

namespace CorpusStats

/-- One slot of an index. -/
inductive Slot
  /-- No key was ever put here. -/
  | vacant
  /-- The key that was here has been erased. -/
  | erased
  | held (key : UInt64) (value : UInt32)
  deriving Repr, DecidableEq, Inhabited

namespace Slot

/-- The key and value of a slot that holds one. -/
def entry? : Slot → Option (UInt64 × UInt32)
  | held key value => some (key, value)
  | vacant | erased => none

end Slot

/-- A fixed-capacity map from keys to values. -/
structure Index where
  /-- The name used in overflow errors. -/
  name : String
  /-- The slots, as many as the capacity. -/
  slots : Array Slot
  slots_pos : 0 < slots.size
  deriving Repr, DecidableEq

/-- Where a probe in an index of `capacity` slots stopped. -/
inductive Probe (capacity : Nat)
  /-- The key is in this slot, with this value. -/
  | found (slot : Fin capacity) (value : UInt32)
  /-- The key is absent, and this is the slot it would take. -/
  | absent (slot : Fin capacity)
  /-- The key is absent and no slot is vacant. -/
  | full
  deriving Repr, DecidableEq

namespace Index

/-- The value of a key that has none yet, and the answer when a key is absent. -/
def unset : UInt32 := 0xFFFFFFFF

/-- The value of a key whose creation failed. -/
def exhausted : UInt32 := 0xFFFFFFFE

def vacantOf (name : String) (n : Nat) (h : 0 < n) : Index :=
  ⟨name, Array.replicate n .vacant, by simpa using h⟩

/-- A new index, if the capacity is a power of two. -/
def ofCapacity (name : String) (capacity : Nat) : Except Error Index :=
  if h : capacity.isPowerOfTwo then .ok (vacantOf name capacity (Nat.pos_of_isPowerOfTwo h))
  else .error (.config (.notPowerOfTwo name capacity))

variable (ix : Index)

abbrev capacity : Nat := ix.slots.size

theorem capacity_pos : 0 < ix.capacity := ix.slots_pos

def overflow : Error := .overflow ix.name ix.capacity

/-! ### Probing -/

/-- The slot at which a probe for `key` starts. -/
def home (key : UInt64) : Fin ix.capacity := ⟨key.toNat % ix.capacity, Nat.mod_lt _ ix.capacity_pos⟩

/-- The slot a probe visits after slot `i`. -/
def next (i : Fin ix.capacity) : Fin ix.capacity :=
  ⟨(i + 1) % ix.capacity, Nat.mod_lt _ ix.capacity_pos⟩

/-- Visit at most `steps` slots from `i` on. -/
def probeFrom (key : UInt64) : (steps : Nat) → (i : Fin ix.capacity) → Probe ix.capacity
  | 0, _ => .full
  | steps + 1, i =>
    match ix.slots[i] with
    | .vacant => .absent i
    | .erased => probeFrom key steps (ix.next i)
    | .held k value => if k = key then .found i value else probeFrom key steps (ix.next i)

/-- Look for a key, visiting every slot at most once. -/
def probe (key : UInt64) : Probe ix.capacity := ix.probeFrom key ix.capacity (ix.home key)

def put (i : Fin ix.capacity) (slot : Slot) : Index :=
  ⟨ix.name, ix.slots.set i slot, by simpa using ix.slots_pos⟩

/-! ### Reading -/

/-- The raw value of a key that can be stored, whatever it means. -/
def raw? (key : UInt64) : Option UInt32 :=
  match ix.probe key with
  | .found _ value => some value
  | .absent _ | .full => none

/-- The value of a key, or `unset` if it is absent or its creation failed. -/
def lookup (key : UInt64) : UInt32 :=
  match ix.raw? (Key.storable key) with
  | some value => if value = exhausted then unset else value
  | none => unset

/-- Every key with its raw value, in the order of the slots. -/
def entries : List (UInt64 × UInt32) := ix.slots.toList.filterMap Slot.entry?

def size : Nat := ix.slots.foldl (fun n slot => if slot.entry?.isSome then n + 1 else n) 0

def isEmpty : Bool := ix.size == 0

/-- The part of the slots that hold a key. -/
def load {α : Type} [Weight α] : α :=
  Weight.ofTotal ix.size.toUInt64 / Weight.ofTotal ix.capacity.toUInt64

/-! ### Writing -/

/-- Replace the raw value of a key, which is `unset` if the key is new, and answer the
old one. -/
def replace (key : UInt64) (f : UInt32 → UInt32) : Stage Index UInt32 := fun ix =>
  let key := Key.storable key
  match ix.probe key with
  | .found i value => .ok value (ix.put i (.held key (f value)))
  | .absent i => .ok unset (ix.put i (.held key (f unset)))
  | .full => .error ix.overflow ix

def insert (key : UInt64) (value : UInt32) : Stage Index Unit := do
  let _ ← replace key fun _ => value

/-- Set the value of a key and answer the old one: the new head of a chain and the link
it carries. -/
def pushFront (key : UInt64) (value : UInt32) : Stage Index UInt32 := replace key fun _ => value

/-- The successor of a counter. A counter starts at one and stops below the two values
that have a meaning of their own. -/
def countUp (value : UInt32) : UInt32 :=
  if value = unset then 1 else min (value + 1) (exhausted - 1)

/-- Take the value of a key as a counter, add one, and answer the new count. -/
def increment (key : UInt64) : Stage Index UInt32 := do
  return countUp (← replace key countUp)

/-- The value of a key, creating it if the key is absent. Answers whether it did. If
the creation fails the key is marked, and every later request for it is an overflow of
the index. -/
def findOrCreate (key : UInt64) (create : Except Error UInt32) : Stage Index (UInt32 × Bool) :=
  fun ix =>
    let key := Key.storable key
    match ix.probe key with
    | .found _ value =>
      if value = unset then .error (.invalidState (.unpublished ix.name)) ix
      else if value = exhausted then .error ix.overflow ix
      else .ok (value, false) ix
    | .absent i =>
      match create with
      | .ok value => .ok (value, true) (ix.put i (.held key value))
      | .error e => .error e (ix.put i (.held key exhausted))
    | .full => .error ix.overflow ix

/-- Erase a key. Answers whether it was there. -/
def erase (key : UInt64) : Bool × Index :=
  match ix.probe (Key.storable key) with
  | .found i _ => (true, ix.put i .erased)
  | .absent _ | .full => (false, ix)

/-- Make every slot vacant, erased ones too. -/
def clear : Index := vacantOf ix.name ix.capacity ix.capacity_pos

/-! ### What writing keeps -/

@[simp] theorem capacity_put (i : Fin ix.capacity) (s : Slot) :
    (ix.put i s).capacity = ix.capacity := by
  simp [capacity, put]

@[simp] theorem capacity_vacantOf (name : String) (n : Nat) (h : 0 < n) :
    (vacantOf name n h).capacity = n := by
  simp [capacity, vacantOf]

@[simp] theorem capacity_clear : ix.clear.capacity = ix.capacity := by
  simp [clear]

end Index

end CorpusStats
