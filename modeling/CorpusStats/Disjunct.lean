import CorpusStats.Key
/-!
# CorpusStats.Disjunct

What a word is linked to in a parse.

* A **connector** is a neighbour and the side it sits on, packed into one word: the
  neighbour above, the side in the lowest bit.
* A **disjunct** is the multiset of a word's connectors. It is named by a hash of the
  connectors in a fixed order, so it does not depend on the order of the edges.
* A **section** is a word with one of its disjuncts; its key salts the disjunct with a
  multiple of the word, so one disjunct on two words has two keys.
-/

namespace CorpusStats

/-- The side of a word on which a neighbour sits. -/
inductive Side
  | left
  | right
  deriving Repr, DecidableEq

namespace Side

/-- The side of `neighbour` as seen from `position`. -/
def of (position neighbour : UInt32) : Side :=
  if position < neighbour then right else left

/-- The lowest bit of a connector. -/
def bit : Side → UInt64
  | left => 0
  | right => 1

end Side

/-- A neighbour and its side in one word. -/
abbrev Connector := UInt64

namespace Connector

/-- The connector to a neighbouring word on a side. -/
def of (neighbour : UInt32) (side : Side) : Connector :=
  neighbour.toUInt64 <<< 1 ||| side.bit

/-- Left connectors come before right ones, and then smaller words before larger. -/
def le (c d : Connector) : Bool :=
  c &&& 1 < d &&& 1 || (c &&& 1 == d &&& 1 && c >>> 1 ≤ d >>> 1)

end Connector

namespace Disjunct

/-- The most connectors that a position may have. -/
def maxConnectors : Nat := 64

/-- Connectors in the order in which a disjunct is hashed. -/
def arrange (connectors : List Connector) : List Connector := connectors.mergeSort Connector.le

/-- The state of the disjunct hash before the first connector. -/
def seed : UInt64 := 0xCBF29CE484222325

/-- The multiplier of the disjunct hash. -/
def factor : UInt64 := 0x100000001B3

/-- Hash connectors in the order given, reserved keys included. -/
def fold (connectors : List Connector) : UInt64 :=
  connectors.foldl (fun state c => (state ^^^ c) * factor) seed

/-- The name of the disjunct with these connectors. -/
def hash (connectors : List Connector) : UInt64 := Key.storable (fold (arrange connectors))

theorem arrange_perm (connectors : List Connector) : (arrange connectors).Perm connectors :=
  List.mergeSort_perm connectors Connector.le

end Disjunct

namespace Key

/-- The multiplier that spreads words over the keys of sections. -/
def sectionSalt : UInt64 := 0x9E3779B97F4A7C15

/-- The key of the section of a word and a disjunct. -/
def ofSection (word : UInt32) (disjunct : UInt64) : UInt64 :=
  storable (disjunct ^^^ word.toUInt64 * sectionSalt)

end Key

end CorpusStats
