import CorpusStats.Bounded
import CorpusStats.Tally.Basic
/-!
# CorpusStats.Similarity

How alike two words are, from the sections they have. A word is a vector over disjuncts,
weighted by the counts of its sections, and the similarity of two words is the cosine of
the angle between them. The pass has four stages over the sections with count:

1. **Norms**: each section adds the square of its count to the norm of its word.
2. **Chains**: sections with the same disjunct are linked into one chain, newest first.
   The index of disjuncts holds the newest section, `next` the link of each.
3. **Products**: each section walks the chain of its disjunct and adds the product of
   the two counts to the candidate of its word with every **larger** word it meets, so
   each pair of words is met from one side only.
4. **Cosines**: the product divided by the root of the product of the norms, or zero.

The links of a chain are followed as a walk (`Similarity.walk`). They come to an end if
chains are built once after a reset. Links that lead back are walked until as many sections
were visited as there are: by then every section on the way was met, so a failure that
such a walk can run into has come up, and one that ran into none is reported as endless.
-/

namespace CorpusStats

/-- What the pass over all sections found. -/
structure SimilarityReport where
  /-- Sections in chains. -/
  chained : Nat
  /-- Disjuncts with a chain. -/
  disjuncts : Nat
  candidates : Nat
  deriving Repr, DecidableEq

/-- The working state of the similarity pass. -/
structure Similarity (α : Type) where
  /-- The squared length of every word's vector. -/
  norms : Array α
  /-- From disjunct to the first section of its chain. -/
  heads : Index
  /-- From section to the one after it in its chain. -/
  next : Array UInt32
  /-- The pairs of words that share a disjunct. -/
  candidates : CandidatePool α
  deriving Repr

namespace CandidatePool

variable {α : Type} [Weight α]

/-- Add to the product of two words, creating their candidate if it is new. The words
are in order already. -/
def addProduct (a b : UInt32) (product : α) : Stage (CandidatePool α) Unit := fun candidates =>
  match Pool.findOrCreate (WordPair.of a b).key
      (fun row : CandidateRow α => { row with wordA := a, wordB := b }) candidates with
  | .ok (slot, _) candidates =>
    .ok () (candidates.modify slot.toNat fun row => { row with dot := row.dot + product })
  | .error e candidates => .error e candidates

end CandidatePool

namespace Similarity

variable {α β : Type} [Weight α]

/-- The state before any pass: no norms, no chains, no candidates. -/
def ofCapacities (words sections disjuncts candidates candidateIndex : Nat) :
    Except Error (Similarity α) := do
  let heads ← Index.ofCapacity "disjunct index" disjuncts
  let candidates ← Pool.ofCapacity "candidate" candidates candidateIndex
  return ⟨Array.replicate words 0, heads, Array.replicate sections Index.unset, candidates⟩

/-- Forget every earlier pass. -/
def reset (w : Similarity α) : Similarity α :=
  ⟨Array.replicate w.norms.size 0, w.heads.clear, Array.replicate w.next.size Index.unset,
    w.candidates.reset⟩

/-- The squared length of a word's vector: nothing beyond the words that have one. -/
def normSquared (w : Similarity α) (word : UInt32) : α := w.norms.getD word.toNat 0

/-- The number of disjuncts with a chain. -/
def disjuncts (w : Similarity α) : Nat := w.heads.size

/-! ### Chains -/

/-- A walk along the links of sections. -/
structure Walk where
  /-- The sections visited, in order. -/
  visited : List Nat
  /-- Whether the links came to an end. -/
  ended : Bool
  deriving Repr, DecidableEq

omit [Weight α] in
/-- The walk from `cursor` on, cut off after `steps` sections. -/
def walkFrom (w : Similarity α) : (steps : Nat) → (cursor : UInt32) → Walk
  | steps, cursor =>
    if cursor = Index.unset then ⟨[], true⟩
    else
      match steps with
      | 0 => ⟨[], false⟩
      | steps + 1 =>
        let rest := walkFrom w steps (w.next.getD cursor.toNat Index.unset)
        ⟨cursor.toNat :: rest.visited, rest.ended⟩

omit [Weight α] in
/-- The walk along the chain of a disjunct, newest section first. -/
def walk (w : Similarity α) (disjunct : UInt64) : Walk :=
  w.walkFrom w.next.size (w.heads.lookup disjunct)

/-! ### Steps -/

/-- The row of a section with count. -/
def liveRow? (sections : SectionPool α) (slot : Nat) : Option (SectionRow α) :=
  (sections.row? slot).filter SectionRow.isLive

/-- Add the square of a section's count to the norm of its word. -/
def addNorm (sections : SectionPool α) (slot : Nat) : Stage (Similarity α) Unit
  | ⟨norms, heads, next, candidates⟩ =>
    match liveRow? sections slot with
    | none => .ok () ⟨norms, heads, next, candidates⟩
    | some row =>
      if row.word.toNat < norms.size then
        .ok () ⟨norms.modify row.word.toNat (· + row.count * row.count), heads, next, candidates⟩
      else
        .error (.malformed (.sectionWordBeyond row.word.toNat norms.size))
          ⟨norms, heads, next, candidates⟩

/-- Put a section in front of the chain of its disjunct. Answers whether it has count. -/
def link (sections : SectionPool α) (slot : Nat) : Stage (Similarity α) Bool
  | ⟨norms, heads, next, candidates⟩ =>
    match liveRow? sections slot with
    | none => .ok false ⟨norms, heads, next, candidates⟩
    | some row =>
      match Index.pushFront row.disjunct slot.toUInt32 heads with
      | .ok previous heads =>
        .ok true ⟨norms, heads, next.setIfInBounds slot previous, candidates⟩
      | .error e heads => .error e ⟨norms, heads, next, candidates⟩

/-- Run a stage of the candidates alone. -/
def onCandidates (act : Stage (CandidatePool α) β) : Stage (Similarity α) β
  | ⟨norms, heads, next, candidates⟩ =>
    match act candidates with
    | .ok b candidates => .ok b ⟨norms, heads, next, candidates⟩
    | .error e candidates => .error e ⟨norms, heads, next, candidates⟩

/-- Add the product of the counts of two sections to the candidate of their words, if
the second has a larger word. -/
def meet (sections : SectionPool α) (row : SectionRow α) (other : Nat) :
    Stage (Similarity α) Unit :=
  match sections.row? other with
  | none => pure ()
  | some row' =>
    if row.word < row'.word then
      onCandidates (CandidatePool.addProduct row.word row'.word (row.count * row'.count))
    else pure ()

/-- Let a section meet the sections of its chain, in order, up to the first failure. -/
def addProducts (sections : SectionPool α) (slot : Nat) : Stage (Similarity α) Unit := fun w =>
  match liveRow? sections slot with
  | none => .ok () w
  | some row =>
    let walk := w.walk row.disjunct
    match walk.visited.forM (meet sections row) w with
    | .ok () w => if walk.ended then .ok () w else .error (.invalidState (.endlessChain slot)) w
    | .error e w => .error e w

/-- The cosine of two words with this product. -/
def cosineOf (dot normA normB : α) : α :=
  if 0 < normA ∧ 0 < normB then dot / Weight.sqrt (normA * normB) else 0

/-! ### Stages -/

def computeNorms (sections : SectionPool α) : Stage (Logged (Similarity α)) Unit := do
  let _ ← dispatch sections.slots (addNorm sections)

/-- Link the sections into chains, and answer how many have count. -/
def buildChains (sections : SectionPool α) : Stage (Logged (Similarity α)) Nat := do
  let linked ← dispatch sections.slots (link sections)
  return linked.countP id

/-- Add up the products of the words that share disjuncts. -/
def computeProducts (sections : SectionPool α) : Stage (Logged (Similarity α)) Unit := do
  let _ ← dispatch sections.slots (addProducts sections)

def computeCosines (s : Logged (Similarity α)) : Logged (Similarity α) :=
  sweep s.state.candidates.slots (fun (⟨norms, heads, next, candidates⟩ : Similarity α) slot =>
    let norm (word : UInt32) : α := norms.getD word.toNat 0
    ⟨norms, heads, next, candidates.modify slot fun row =>
      { row with cosine := cosineOf row.dot (norm row.wordA) (norm row.wordB) }⟩) s

/-- Forget every earlier pass and run all four stages. -/
def run (sections : SectionPool α) : Stage (Logged (Similarity α)) SimilarityReport := do
  modify fun ⟨w, log⟩ => ⟨w.reset, log⟩
  computeNorms sections
  let chained ← buildChains sections
  computeProducts sections
  modify computeCosines
  let w := (← get).state
  return { chained, disjuncts := w.disjuncts, candidates := w.candidates.used }

/-! ### Filtering -/

/-- The candidates with a cosine above the threshold, in the order of their slots. -/
def hits (threshold : α) (w : Similarity α) : List (CandidateHit α) :=
  (w.candidates.liveRows.filter fun row => threshold < row.cosine).map fun row =>
    ⟨row.cosine, row.wordA, row.wordB⟩

/-- At most `limit` of the candidates with a cosine above the threshold. -/
def filterCandidates (threshold : α) (limit : Nat) (w : Similarity α) : Bounded (CandidateHit α) :=
  (Bounded.ofLimit limit w.candidates.used).pushAll (w.hits threshold)

end Similarity

end CorpusStats
