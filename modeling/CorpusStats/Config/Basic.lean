import CorpusStats.Batch.Locator
import CorpusStats.Error
import CorpusStats.Index
/-!
# CorpusStats.Config.Basic

How large an engine is and how it works. All pools and indexes are sized once, when the
engine is made, so these numbers decide how large a corpus it can take in.

* Sizes are 64-bit words and sums of sizes wrap, as words do.
* An index should have at least twice the slots of its pool. `Capacities.forPools` takes
  the next power of two; beyond the largest one that is a word, it has no slots.
* Nothing is checked until `validate`, which reports the first fault in a fixed order:
  words, pairs, sections, disjuncts, candidates, then the window.
-/

namespace CorpusStats

/-- The largest pool whose slot numbers leave the reserved values free. -/
def maxPoolCapacity : UInt64 := 0xFFFFFFFD

/-- The sizes of pools and indexes. -/
structure Capacities where
  wordPool : UInt64
  wordIndex : UInt64
  pairPool : UInt64
  pairIndex : UInt64
  sectionPool : UInt64
  sectionIndex : UInt64
  disjunctIndex : UInt64
  candidatePool : UInt64
  candidateIndex : UInt64
  deriving Repr, DecidableEq

/-- How stages choose the way in which they find sentences. -/
inductive LocatorPolicy
  | linear
  | binary
  /-- Halve in batches with more sentences than a threshold. -/
  | auto
  deriving Repr, DecidableEq

namespace LocatorPolicy

/-- The name of a policy in files. -/
def name : LocatorPolicy → String
  | linear => "Linear"
  | binary => "BinarySearch"
  | auto => "Auto"

def ofName? (name : String) : Option LocatorPolicy :=
  [linear, binary, auto].find? (·.name = name)

@[simp] theorem ofName?_name (p : LocatorPolicy) : ofName? p.name = some p := by
  cases p <;> decide

/-- The locator for a batch of this many sentences. -/
def locator (policy : LocatorPolicy) (threshold : UInt64) (sentences : Nat) : Locator :=
  match policy with
  | linear => .linear
  | binary => .binary
  | auto => if threshold.toNat < sentences then .binary else .linear

end LocatorPolicy

/-- How an engine works. -/
structure ComputeSettings where
  /-- Workers; zero asks for one per core. -/
  threads : UInt64
  policy : LocatorPolicy
  /-- The number of sentences above which `LocatorPolicy.auto` halves. -/
  threshold : UInt64
  /-- How far apart two words of a pair may stand. -/
  window : UInt32
  deriving Repr, DecidableEq

/-- Everything an engine is made from. -/
structure Config where
  capacities : Capacities
  compute : ComputeSettings
  deriving Repr, DecidableEq

/-! ### Sizes -/

/-- The least power of two that is at least `n`, and at least one. -/
def powerAbove (n : Nat) : Nat := if n ≤ 1 then 1 else 1 <<< ((n - 1).log2 + 1)

/-- The number of index slots for a pool: the least power of two that is at least twice
the pool, as a word. Twice a pool stops at the largest word. -/
def indexFor (pool : UInt64) : UInt64 :=
  (powerAbove (min (2 * pool.toNat) (UInt64.size - 1))).toUInt64

theorem le_powerAbove (n : Nat) : n ≤ powerAbove n := by
  unfold powerAbove
  split
  · assumption
  · have := Nat.lt_log2_self (n := n - 1)
    rw [Nat.one_shiftLeft]
    omega

theorem powerAbove_isPowerOfTwo (n : Nat) : (powerAbove n).isPowerOfTwo := by
  unfold powerAbove
  split
  · exact Nat.isPowerOfTwo_one
  · exact ⟨_, Nat.one_shiftLeft _⟩

namespace Capacities

/-- Pools of these sizes, with an index of the usual size for each. -/
def forPools (words pairs sections candidates : UInt64) : Capacities where
  wordPool := words
  wordIndex := indexFor words
  pairPool := pairs
  pairIndex := indexFor pairs
  sectionPool := sections
  sectionIndex := indexFor sections
  disjunctIndex := indexFor sections
  candidatePool := candidates
  candidateIndex := indexFor candidates

/-- The sizes for a large corpus. -/
def standard : Capacities where
  wordPool := 131072
  wordIndex := 262144
  pairPool := 4194304
  pairIndex := 8388608
  sectionPool := 1048576
  sectionIndex := 2097152
  disjunctIndex := 2097152
  candidatePool := 524288
  candidateIndex := 1048576

/-- The bytes of one index slot: a key and a value. -/
def indexSlotBytes : UInt64 := 12

/-- The bytes of all pools and indexes, as a word. -/
def memoryBytes (c : Capacities) : UInt64 :=
  c.wordPool * 28 + c.wordIndex * indexSlotBytes
    + c.pairPool * 28 + c.pairIndex * indexSlotBytes
    + c.sectionPool * 24 + c.sectionIndex * indexSlotBytes
    + c.disjunctIndex * indexSlotBytes
    + c.candidatePool * 24 + c.candidateIndex * indexSlotBytes

/-- The first fault of a pool with its index. -/
def poolFault? (name : String) (pool index : UInt64) : Option ConfigFault :=
  if pool = 0 then some (.poolEmpty name)
  else if maxPoolCapacity < pool then
    some (.poolTooLarge name pool.toNat maxPoolCapacity.toNat)
  else if ¬ index.toNat.isPowerOfTwo then some (.indexNotPowerOfTwo name index.toNat)
  else if index < pool then some (.indexTooSmall name index.toNat pool.toNat)
  else none

/-- The pools and indexes that belong together, in the order in which they are checked. -/
def pools (c : Capacities) : List (String × UInt64 × UInt64) :=
  [("word", c.wordPool, c.wordIndex), ("pair", c.pairPool, c.pairIndex),
   ("section", c.sectionPool, c.sectionIndex), ("disjunct", c.sectionPool, c.disjunctIndex),
   ("candidate", c.candidatePool, c.candidateIndex)]

def fault? (c : Capacities) : Option ConfigFault :=
  c.pools.findSome? fun (name, pool, index) => poolFault? name pool index

end Capacities

namespace ComputeSettings

def standard : ComputeSettings where
  threads := 0
  policy := .auto
  threshold := 64
  window := 6

end ComputeSettings

namespace Config

/-- The configuration for a large corpus. -/
def standard : Config := ⟨.standard, .standard⟩

/-- A configuration for tests and small corpora. -/
def small : Config := ⟨.forPools 1024 16384 4096 4096, .standard⟩

def fault? (c : Config) : Option ConfigFault :=
  c.capacities.fault?.or (if c.compute.window = 0 then some .windowZero else none)

/-- Accept a configuration that an engine can be made from. -/
def validate (c : Config) : Except Error Unit :=
  match c.fault? with
  | none => .ok ()
  | some fault => .error (.config fault)

end Config

end CorpusStats
