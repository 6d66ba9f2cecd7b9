import CorpusStats.Config.Basic
/-!
# CorpusStats.Config.Environment

Configurations from environment variables. A variable that is not set, or whose value
cannot be read, leaves the usual setting in place; indexes follow the sizes of pools.

Numbers are written in decimal digits, with an optional plus sign in front, and have to
be in range. The policy is read in any mix of upper and lower case. Lowering the letters
of ASCII is enough for that: no other letter has a lower case spelling inside one of the
three words.
-/

namespace CorpusStats

/-- The number that a text spells in decimal, if it is below a limit. -/
def decimalBelow? (limit : Nat) (text : String) : Option Nat :=
  let digits := match text.toList with
    | '+' :: rest => rest
    | cs => cs
  let n := Nat.ofDigitChars 10 digits 0
  if digits ≠ [] ∧ digits.all Char.isDigit ∧ n < limit then some n else none

namespace LocatorPolicy

/-- The policy that a variable names. -/
def ofSetting? (text : String) : Option LocatorPolicy :=
  match text.toLower with
  | "linear" => some linear
  | "binary" => some binary
  | "auto" => some auto
  | _ => none

end LocatorPolicy

namespace Config

/-- The configuration that a set of variables describes. -/
def ofEnvironment (value? : String → Option String) : Config :=
  let word64 (named : String) (usual : UInt64) : UInt64 :=
    match (value? named).bind (decimalBelow? UInt64.size) with
    | some n => n.toUInt64
    | none => usual
  let usual := Capacities.standard
  let settings := ComputeSettings.standard
  { capacities := .forPools
      (word64 "LEXIS_WORD_CAPACITY" usual.wordPool)
      (word64 "LEXIS_PAIR_CAPACITY" usual.pairPool)
      (word64 "LEXIS_SECTION_CAPACITY" usual.sectionPool)
      (word64 "LEXIS_CANDIDATE_CAPACITY" usual.candidatePool)
    compute :=
      { settings with
        threads := word64 "LEXIS_THREADS" settings.threads
        policy := ((value? "LEXIS_COUNTING").bind LocatorPolicy.ofSetting?).getD settings.policy
        window := match (value? "LEXIS_WINDOW").bind (decimalBelow? UInt32.size) with
          | some n => n.toUInt32
          | none => settings.window } }

end Config

end CorpusStats
