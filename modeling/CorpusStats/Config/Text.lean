import CorpusStats.Config.Basic
import CorpusStats.Json.Value
/-!
# CorpusStats.Config.Text

Configurations as JSON texts: two records, the capacities and the settings.

* `toText` writes the fields in their order, indented.
* `ofText` reads what the format allows: members in any order, unknown members, records
  as arrays of their fields, and a policy as its name or as an object from its name to
  nothing. Every field has to be there once and to be in range.
* Where a text comes from and goes to is the host's business: `load` takes what reading
  a file gave, `save` takes the writing.
-/

namespace CorpusStats

open Json (Value)

/-! ### Printing -/

def Capacities.toJson (c : Capacities) : Value :=
  .ofFields [
    ("word_pool", .ofNat c.wordPool.toNat),
    ("word_index", .ofNat c.wordIndex.toNat),
    ("pair_pool", .ofNat c.pairPool.toNat),
    ("pair_index", .ofNat c.pairIndex.toNat),
    ("section_pool", .ofNat c.sectionPool.toNat),
    ("section_index", .ofNat c.sectionIndex.toNat),
    ("disjunct_index", .ofNat c.disjunctIndex.toNat),
    ("candidate_pool", .ofNat c.candidatePool.toNat),
    ("candidate_index", .ofNat c.candidateIndex.toNat)]

def ComputeSettings.toJson (c : ComputeSettings) : Value :=
  .ofFields [
    ("threads", .ofNat c.threads.toNat),
    ("counting_strategy", .ofPlain c.policy.name),
    ("binary_search_threshold", .ofNat c.threshold.toNat),
    ("window", .ofNat c.window.toNat)]

/-- A configuration as a record of records. -/
def Config.toJson (c : Config) : Value :=
  .ofFields [("capacity", c.capacities.toJson), ("compute", c.compute.toJson)]

/-- A configuration as the content of a file. -/
def Config.toText (c : Config) : String := c.toJson.toText

/-! ### Reading -/

def Json.Value.word64? (v : Value) : Option UInt64 := (v.natBelow? UInt64.size).map (·.toUInt64)

def Json.Value.word32? (v : Value) : Option UInt32 := (v.natBelow? UInt32.size).map (·.toUInt32)

def Capacities.ofJson? (v : Value) : Option Capacities := do
  let fields ← v.fields? ["word_pool", "word_index", "pair_pool", "pair_index", "section_pool",
    "section_index", "disjunct_index", "candidate_pool", "candidate_index"]
  match ← fields.mapM Json.Value.word64? with
  | [wordPool, wordIndex, pairPool, pairIndex, sectionPool, sectionIndex, disjunctIndex,
      candidatePool, candidateIndex] =>
    return { wordPool, wordIndex, pairPool, pairIndex, sectionPool, sectionIndex, disjunctIndex,
             candidatePool, candidateIndex }
  | _ => none

def LocatorPolicy.ofJson? : Value → Option LocatorPolicy
  | .string body => (Json.unescape? body).bind ofName?
  | .object [(key, .null)] => (Json.unescape? key).bind ofName?
  | _ => none

def ComputeSettings.ofJson? (v : Value) : Option ComputeSettings := do
  match ← v.fields? ["threads", "counting_strategy", "binary_search_threshold", "window"] with
  | [threads, policy, threshold, window] =>
    return { threads := ← threads.word64?, policy := ← LocatorPolicy.ofJson? policy,
             threshold := ← threshold.word64?, window := ← window.word32? }
  | _ => none

/-- The configuration that a record of records gives. -/
def Config.ofJson? (v : Value) : Option Config := do
  match ← v.fields? ["capacity", "compute"] with
  | [capacities, compute] =>
    return ⟨← Capacities.ofJson? capacities, ← ComputeSettings.ofJson? compute⟩
  | _ => none

namespace Config

/-- The configuration that a text gives, checked or not. -/
def ofText? (text : String) : Option Config := (Value.ofText text).bind ofJson?

/-- The configuration in a file that was read, or not. -/
def load (content : Except String String) : Except Error Config :=
  match content with
  | .error reason => .error (.io reason)
  | .ok text =>
    match ofText? text with
    | none => .error (.serialization "not a configuration")
    | some c => do
      c.validate
      return c

/-- Write a configuration through `write`, which may fail. -/
def save (write : String → Except String Unit) (c : Config) : Except Error Unit :=
  (write c.toText).mapError .io

end Config

end CorpusStats
