import CorpusStats.Batch.Sentences
import CorpusStats.Disjunct
/-!
# CorpusStats.Batch.Parses

A **batch of parses**: sentences and, for each, a list of edges between its positions.

* The two ends of all edges are kept in two arrays; each sentence names the range of
  edges it owns. Ranges need not be in order, may overlap and may leave edges out.
* An edge joins two different positions of its sentence, and no position touches more
  than `Disjunct.maxConnectors` of them. Both are checked when a batch is made and are
  part of the type.
* Positions in edges count from the start of their sentence.
-/

namespace CorpusStats

/-- An edge of a parse: the positions it joins. -/
abbrev Edge := UInt32 × UInt32

namespace Edge

/-- The other end of an edge, if it touches a position. -/
def otherEnd? (position : UInt32) (e : Edge) : Option UInt32 :=
  if e.1 = position then some e.2 else if e.2 = position then some e.1 else none

/-- The fault of an edge in a sentence of the given length. -/
def fault? (sentence : Nat) (length : UInt32) (e : Edge) : Option BatchFault :=
  if length ≤ e.1 ∨ length ≤ e.2 then
    some (.edgeOutside e.1.toNat e.2.toNat sentence length.toNat)
  else if e.1 = e.2 then some (.selfEdge e.1.toNat sentence)
  else none

end Edge

namespace Parses

/-- How many edge ends are at a position. -/
def degree (edges : List Edge) (position : UInt32) : Nat :=
  edges.countP (fun e => e.1 = position) + edges.countP fun e => e.2 = position

/-- The first position below `length` that touches too many edges. -/
def crowded? (edges : List Edge) (length : UInt32) : Option Nat :=
  (List.range length.toNat).find? fun position =>
    Disjunct.maxConnectors < degree edges position.toUInt32

/-- The edges of a range of the edge arrays. -/
def edgesBetween (firsts seconds : Array UInt32) (start stop : Nat) : List Edge :=
  (firsts.extract start stop).toList.zip (seconds.extract start stop).toList

/-- The first fault of the edges of one sentence. -/
def sentenceFault? (firsts seconds : Array UInt32) (sentence : Nat) (length offset count : UInt32) :
    Option BatchFault :=
  let stop := offset.toNat + count.toNat
  if firsts.size < stop then some (.edgeRangeBeyond sentence offset.toNat stop firsts.size)
  else
    let edges := edgesBetween firsts seconds offset.toNat stop
    match edges.findSome? (Edge.fault? sentence length) with
    | some fault => some fault
    | none =>
      (crowded? edges length).map (.crowdedPosition · sentence Disjunct.maxConnectors)

/-- The first reason why arrays give no parses of the sentences. -/
def fault? (b : Sentences) (firsts seconds offsets counts : Array UInt32) : Option BatchFault :=
  if firsts.size ≠ seconds.size then some (.edgeEnds firsts.size seconds.size)
  else if offsets.size ≠ b.count ∨ counts.size ≠ b.count then
    some (.edgeRanges offsets.size counts.size b.count)
  else
    (List.range b.count).findSome? fun s =>
      sentenceFault? firsts seconds s (b.length s) (offsets.getD s 0) (counts.getD s 0)

end Parses

/-- A batch of sentences with the edges of their parses. -/
structure Parses where
  sentences : Sentences
  firsts : Array UInt32
  seconds : Array UInt32
  /-- Where the edges of each sentence start. -/
  offsets : Array UInt32
  /-- How many edges each sentence has. -/
  counts : Array UInt32
  sound : Parses.fault? sentences firsts seconds offsets counts = none
  deriving Repr, DecidableEq

namespace Parses

/-- The parses with these edge arrays, if they fit the sentences. -/
def ofArrays (sentences : Sentences) (firsts seconds offsets counts : Array UInt32) :
    Except Error Parses :=
  match h : fault? sentences firsts seconds offsets counts with
  | none => .ok ⟨sentences, firsts, seconds, offsets, counts, h⟩
  | some fault => .error (.malformed fault)

/-- The parses with these sentences and one list of edges for each. -/
def ofLists (sentences : List (List UInt32)) (edges : List (List Edge)) : Except Error Parses := do
  if sentences.length ≠ edges.length then
    throw (.malformed (.edgeLists sentences.length edges.length))
  let b ← Sentences.ofLists sentences
  ofArrays b (edges.flatten.map (·.1)).toArray (edges.flatten.map (·.2)).toArray
    (startsFrom 0 edges).toArray (edges.map (·.length.toUInt32)).toArray

variable (b : Parses)

def edges (s : Nat) : List Edge :=
  let offset := (b.offsets.getD s 0).toNat
  edgesBetween b.firsts b.seconds offset (offset + (b.counts.getD s 0).toNat)

/-- The edges of every sentence, in order. -/
def toLists : List (List Edge) := (List.range b.sentences.count).map b.edges

/-- The connectors of a position of a sentence, in the order of the edges. -/
def connectors (s : Nat) (position : UInt32) : List Connector :=
  let words := b.sentences.sentence s
  (b.edges s).filterMap fun e =>
    (e.otherEnd? position).bind fun other =>
      words[other.toNat]?.map fun word => Connector.of word (Side.of position other)

theorem ofArrays_eq_ok_iff {sentences : Sentences} {firsts seconds offsets counts : Array UInt32}
    {b : Parses} :
    ofArrays sentences firsts seconds offsets counts = .ok b ↔
      b.sentences = sentences ∧ b.firsts = firsts ∧ b.seconds = seconds ∧
        b.offsets = offsets ∧ b.counts = counts := by
  constructor
  · intro h
    unfold ofArrays at h
    split at h
    · cases h; exact ⟨rfl, rfl, rfl, rfl, rfl⟩
    · cases h
  · rintro ⟨rfl, rfl, rfl, rfl, rfl⟩
    unfold ofArrays
    split
    · rfl
    · rename_i h
      rw [b.sound] at h
      cases h

end Parses

end CorpusStats
