import CorpusStats.Error
/-!
# CorpusStats.Batch.Classes

A **class assignment**: words with the class each of them joins. A word appears at most
once, so the assignment is a partial function and its order does not matter.
-/

namespace CorpusStats

/-- The first word that appears in a list after an earlier copy of it, or in `seen`. -/
def repeated? (seen : List UInt32) : List UInt32 → Option UInt32
  | [] => none
  | word :: rest => if word ∈ seen then some word else repeated? (word :: seen) rest

/-- Nothing is repeated exactly in lists without copies. -/
theorem repeated?_eq_none_iff (seen words : List UInt32) :
    repeated? seen words = none ↔ words.Nodup ∧ ∀ word ∈ words, word ∉ seen := by
  induction words generalizing seen with
  | nil => simp [repeated?]
  | cons word rest ih =>
    unfold repeated?
    split
    · simp_all
    · rw [ih]
      simp only [List.nodup_cons, List.mem_cons, not_or]
      constructor
      · rintro ⟨hrest, hseen⟩
        refine ⟨⟨fun h => (hseen word h).1 rfl, hrest⟩, ?_⟩
        rintro w (rfl | h)
        · assumption
        · exact (hseen w h).2
      · rintro ⟨⟨hword, hrest⟩, hseen⟩
        exact ⟨hrest, fun w h => ⟨fun e => hword (e ▸ h), hseen w (.inr h)⟩⟩

/-- Words with the classes they join. -/
structure ClassMap where
  entries : List (UInt32 × UInt32)
  distinct : (entries.map Prod.fst).Nodup
  deriving Repr, DecidableEq

namespace ClassMap

/-- The assignment with these entries, if no word appears twice. -/
def ofPairs (entries : List (UInt32 × UInt32)) : Except Error ClassMap :=
  match h : repeated? [] (entries.map Prod.fst) with
  | none => .ok ⟨entries, ((repeated?_eq_none_iff _ _).mp h).1⟩
  | some word => .error (.malformed (.reassigned word.toNat))

/-- The assignment that gives each word the class at the same place. -/
def ofLists (words classes : List UInt32) : Except Error ClassMap :=
  if words.length ≠ classes.length then
    .error (.malformed (.wordsAndClasses words.length classes.length))
  else ofPairs (words.zip classes)

variable (m : ClassMap)

def words : List UInt32 := m.entries.map Prod.fst

/-- The classes of the words, in the same order. -/
def classes : List UInt32 := m.entries.map Prod.snd

def size : Nat := m.entries.length

def isEmpty : Bool := m.entries.isEmpty

end ClassMap

end CorpusStats
