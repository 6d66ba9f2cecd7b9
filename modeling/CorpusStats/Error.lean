/-!
# CorpusStats.Error

The failures of the library, as **causes**: what went wrong and the numbers that
show it. The wording lives in one place (`Error.message`), so statements about
failures never mention text.

* `ConfigFault`: sizes and settings that cannot work.
* `BatchFault`: host input that does not describe a valid batch, or that names a
  slot or an id the store does not have.
* `StateFault`: a structure found in a state that no sequence of stages leaves
  behind. The operations are total, so they say so instead of waiting forever.
* `Error.overflow`: a pool or an index has no room left. It is kept apart from the
  other causes because the dispatch log counts it.

Every kind of failure that hosts describe in their own words has a `stated` case.
-/

namespace CorpusStats

/-- Sizes or settings that cannot work. -/
inductive ConfigFault
  | notPowerOfTwo (index : String) (capacity : Nat)
  | poolOutOfRange (pool : String) (capacity index : Nat)
  | poolEmpty (pool : String)
  | poolTooLarge (pool : String) (capacity limit : Nat)
  | indexNotPowerOfTwo (pool : String) (index : Nat)
  | indexTooSmall (pool : String) (index capacity : Nat)
  | windowZero
  | stated (text : String)
  deriving Repr, DecidableEq

/-- Host input that does not describe a valid batch, or that names what the store
does not have. -/
inductive BatchFault
  | offsetsAndLengths (offsets lengths : Nat)
  | tooManyPositions
  | sentenceStart (sentence start stop : Nat)
  | coverage (covered words : Nat)
  | edgeEnds (starts stops : Nat)
  | edgeRanges (offsets counts sentences : Nat)
  | edgeRangeBeyond (sentence start stop edges : Nat)
  | edgeOutside (first second sentence length : Nat)
  | selfEdge (position sentence : Nat)
  | crowdedPosition (position sentence limit : Nat)
  | edgeLists (sentences lists : Nat)
  | wordsAndClasses (words classes : Nat)
  | reassigned (word : Nat)
  | lengthsDiffer (stage : String) (first second : Nat)
  | slotOutOfRange (pool : String) (slot live : Nat)
  | idBeyond (pool : String) (id capacity : Nat)
  | wordBeyond (id capacity : Nat)
  | sectionWordBeyond (word capacity : Nat)
  | unowned (position : Nat)
  | crowded (position limit : Nat)
  | stated (text : String)
  deriving Repr, DecidableEq

/-- A structure in a state that no sequence of stages leaves behind. -/
inductive StateFault
  | unpublished (index : String)
  | endlessChain (slot : Nat)
  | stated (text : String)
  deriving Repr, DecidableEq

/-- A failure of a stage or of a constructor. -/
inductive Error
  | config (fault : ConfigFault)
  | overflow (name : String) (capacity : Nat)
  | malformed (fault : BatchFault)
  | compute (text : String)
  | io (text : String)
  | serialization (text : String)
  | invalidState (fault : StateFault)
  deriving Repr, DecidableEq

namespace ConfigFault

/-- The wording of a configuration fault. -/
def message : ConfigFault → String
  | notPowerOfTwo index capacity => s!"{index} capacity {capacity} is not a power of two"
  | poolOutOfRange pool capacity index =>
    s!"{pool} pool capacity {capacity} must be in 1..={index}"
  | poolEmpty pool => s!"{pool} pool capacity is zero"
  | poolTooLarge pool capacity limit => s!"{pool} pool capacity {capacity} exceeds {limit}"
  | indexNotPowerOfTwo pool index => s!"{pool} index capacity {index} is not a power of two"
  | indexTooSmall pool index capacity =>
    s!"{pool} index capacity {index} is smaller than its pool ({capacity})"
  | windowZero => "window must be at least 1"
  | stated text => text

end ConfigFault

namespace BatchFault

/-- The wording of a batch fault. -/
def message : BatchFault → String
  | offsetsAndLengths offsets lengths => s!"{offsets} sentence offsets but {lengths} lengths"
  | tooManyPositions => "batch exceeds u32 positions"
  | sentenceStart sentence start stop =>
    s!"sentence {sentence} starts at {start} but previous sentence ends at {stop}"
  | coverage covered words => s!"sentences cover {covered} words but batch has {words}"
  | edgeEnds starts stops => s!"{starts} edge starts but {stops} edge ends"
  | edgeRanges offsets counts sentences =>
    s!"edge ranges given for {offsets}/{counts} sentences, batch has {sentences}"
  | edgeRangeBeyond sentence start stop edges =>
    s!"sentence {sentence} edges {start}..{stop} exceed {edges} edges"
  | edgeOutside first second sentence length =>
    s!"edge ({first}, {second}) outside sentence {sentence} of length {length}"
  | selfEdge position sentence => s!"self-edge at position {position} in sentence {sentence}"
  | crowdedPosition position sentence limit =>
    s!"position {position} in sentence {sentence} has more than {limit} connectors"
  | edgeLists sentences lists => s!"{sentences} sentences but {lists} edge lists"
  | wordsAndClasses words classes => s!"{words} words but {classes} class ids"
  | reassigned word => s!"word {word} assigned more than once"
  | lengthsDiffer stage first second => s!"{stage}: input lengths {first} and {second} differ"
  | slotOutOfRange pool slot live => s!"{pool} slot {slot} out of range ({live} live)"
  | idBeyond pool id capacity => s!"{pool} id {id} beyond capacity {capacity}"
  | wordBeyond id capacity => s!"word id {id} beyond word capacity {capacity}"
  | sectionWordBeyond word capacity => s!"section word {word} beyond word capacity {capacity}"
  | unowned position => s!"position {position} belongs to no sentence"
  | crowded position limit => s!"position {position} has more than {limit} connectors"
  | stated text => text

end BatchFault

namespace StateFault

/-- The wording of a state fault. -/
def message : StateFault → String
  | unpublished index => s!"{index} holds a key without a value"
  | endlessChain slot => s!"disjunct chain at section {slot} does not end"
  | stated text => text

end StateFault

namespace Error

/-- The wording of a failure: its kind, then its cause. -/
def message : Error → String
  | config fault => s!"Configuration error: {fault.message}"
  | overflow name capacity => s!"Capacity overflow in {name}: capacity {capacity} exhausted"
  | malformed fault => s!"Malformed batch: {fault.message}"
  | compute text => s!"Compute error: {text}"
  | io text => s!"IO error: {text}"
  | serialization text => s!"Serialization error: {text}"
  | invalidState fault => s!"Invalid state: {fault.message}"

/-- Whether a pool or an index ran out of room. -/
def isOverflow : Error → Bool
  | overflow _ _ => true
  | _ => false

@[simp] theorem isOverflow_iff (e : Error) :
    e.isOverflow = true ↔ ∃ name capacity, e = overflow name capacity := by
  cases e <;> simp [isOverflow]

end Error

end CorpusStats
