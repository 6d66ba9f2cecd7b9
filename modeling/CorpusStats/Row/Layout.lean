import CorpusStats.Row
/-!
# CorpusStats.Row.Layout

Rows as bytes, for hosts that take them as raw memory. Fields follow each other in order,
wide ones first, the low byte of each first; every row fills a multiple of eight bytes,
if need be with zeros at the end. Weights are written as their 64 bits.
-/

namespace CorpusStats

/-- The `width` low bytes of a number, the lowest first. -/
def littleEndian : (width : Nat) → Nat → List UInt8
  | 0, _ => []
  | width + 1, n => n.toUInt8 :: littleEndian width (n / 256)

@[simp] theorem length_littleEndian (width n : Nat) : (littleEndian width n).length = width := by
  induction width generalizing n with
  | zero => rfl
  | succ width ih => simp [littleEndian, ih]

/-- A field of eight bytes. -/
def wide (n : UInt64) : List UInt8 := littleEndian 8 n.toNat

/-- A field of four bytes. -/
def narrow (n : UInt32) : List UInt8 := littleEndian 4 n.toNat

/-- Four bytes at the end of a row whose fields do not fill it. -/
def padding : List UInt8 := narrow 0

namespace WordRow

def bytes (r : WordRow Float) : List UInt8 :=
  wide r.nameHash ++ wide r.count.toBits ++ narrow r.classId ++ padding

@[simp] theorem length_bytes (r : WordRow Float) : r.bytes.length = 24 := by
  simp [bytes, wide, narrow, padding]

end WordRow

namespace PairRow

def bytes (r : PairRow Float) : List UInt8 :=
  wide r.count.toBits ++ wide r.score.toBits ++ narrow r.wordA ++ narrow r.wordB
    ++ narrow r.flags ++ padding

@[simp] theorem length_bytes (r : PairRow Float) : r.bytes.length = 32 := by
  simp [bytes, wide, narrow, padding]

end PairRow

namespace ScoredPair

def bytes (r : ScoredPair Float) : List UInt8 :=
  wide r.count.toBits ++ wide r.score.toBits ++ wide r.marginalA.toBits ++ wide r.marginalB.toBits
    ++ narrow r.wordA ++ narrow r.wordB ++ narrow r.flags ++ padding

@[simp] theorem length_bytes (r : ScoredPair Float) : r.bytes.length = 48 := by
  simp [bytes, wide, narrow, padding]

end ScoredPair

namespace SectionRow

def bytes (r : SectionRow Float) : List UInt8 :=
  wide r.disjunct ++ wide r.count.toBits ++ narrow r.word ++ padding

@[simp] theorem length_bytes (r : SectionRow Float) : r.bytes.length = 24 := by
  simp [bytes, wide, narrow, padding]

end SectionRow

namespace CandidateRow

def bytes (r : CandidateRow Float) : List UInt8 :=
  wide r.dot.toBits ++ wide r.cosine.toBits ++ narrow r.wordA ++ narrow r.wordB

@[simp] theorem length_bytes (r : CandidateRow Float) : r.bytes.length = 24 := by
  simp [bytes, wide, narrow]

end CandidateRow

namespace PairHit

def bytes (r : PairHit Float) : List UInt8 := wide r.score.toBits ++ narrow r.pair ++ padding

@[simp] theorem length_bytes (r : PairHit Float) : r.bytes.length = 16 := by
  simp [bytes, wide, narrow, padding]

end PairHit

namespace CandidateHit

def bytes (r : CandidateHit Float) : List UInt8 :=
  wide r.cosine.toBits ++ narrow r.wordA ++ narrow r.wordB

@[simp] theorem length_bytes (r : CandidateHit Float) : r.bytes.length = 16 := by
  simp [bytes, wide, narrow]

end CandidateHit

end CorpusStats
