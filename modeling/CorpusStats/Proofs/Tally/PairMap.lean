import CorpusStats.Engine.Call
import CorpusStats.Proofs.Batch.Window
/-!
# CorpusStats.Proofs.Tally.PairMap

What the pairs of a tally are **for**: a finite map from pairs of words to counts, and a class
for every word. Slots, keys and rows without count do not appear here.

* A batch adds one to a pair for every place where it occurs (`PairMap.observe_apply`).
* Folding gives a pair the counts of all pairs that become it (`PairMap.fold_apply`). A pair
  that moves and whose words fall into one class gives its count to nobody; a word paired
  with itself that stays where it is keeps its count.
* Folding is additive in the counts (`foldCounts` is a homomorphism), which is why it can be
  done row by row and pair by pair alike.
-/

namespace CorpusStats

namespace WordPair

/-- The classes of the words of a pair, in order. -/
def relabel (cls : UInt32 → UInt32) (p : WordPair) : WordPair := .of (cls p.first) (cls p.second)

/-- Whether a word of the pair is in another class than its own. -/
def Moves (cls : UInt32 → UInt32) (p : WordPair) : Prop :=
  cls p.first ≠ p.first ∨ cls p.second ≠ p.second

/-- Whether the pair moves and its words fall into one class. -/
def Vanishes (cls : UInt32 → UInt32) (p : WordPair) : Prop :=
  p.Moves cls ∧ cls p.first = cls p.second

instance (cls : UInt32 → UInt32) (p : WordPair) : Decidable (p.Moves cls) :=
  inferInstanceAs (Decidable (_ ∨ _))

instance (cls : UInt32 → UInt32) (p : WordPair) : Decidable (p.Vanishes cls) :=
  inferInstanceAs (Decidable (_ ∧ _))

theorem relabel_of_not_moves {cls : UInt32 → UInt32} {p : WordPair} (h : ¬ p.Moves cls) :
    p.relabel cls = p := by
  rw [Moves, not_or, not_not, not_not] at h
  rw [relabel, h.1, h.2, of_first_second]

theorem of_first_eq_second_iff {a b : UInt32} : (of a b).first = (of a b).second ↔ a = b := by
  unfold of
  split <;> simp [eq_comm]

theorem vanishes_iff {cls : UInt32 → UInt32} {p : WordPair} :
    p.Vanishes cls ↔ p.Moves cls ∧ (p.relabel cls).first = (p.relabel cls).second := by
  rw [Vanishes, relabel, of_first_eq_second_iff]

theorem second_of (a b : UInt32) : (of a b).second = a ∨ (of a b).second = b := by
  unfold of
  split
  · exact .inr rfl
  · exact .inl rfl

end WordPair

/-- Give the count of every pair to the pair it becomes, unless it vanishes. -/
noncomputable def foldCounts {M : Type} [AddCommMonoid M] (cls : UInt32 → UInt32) :
    (WordPair →₀ M) →+ (WordPair →₀ M) :=
  Finsupp.liftAddHom fun p => if p.Vanishes cls then 0 else Finsupp.singleAddHom (p.relabel cls)

theorem foldCounts_single {M : Type} [AddCommMonoid M] (cls : UInt32 → UInt32) (p : WordPair)
    (n : M) : foldCounts cls (.single p n)
      = if p.Vanishes cls then 0 else .single (p.relabel cls) n := by
  rw [foldCounts, Finsupp.liftAddHom_apply_single]
  split <;> rfl

/-- Pairs of words with their counts, and the class of every word. -/
structure PairMap where
  counts : WordPair →₀ ℕ
  cls : UInt32 → UInt32

namespace PairMap

/-- Nothing was counted, and every word is a class of its own. -/
noncomputable def empty : PairMap := ⟨0, id⟩

/-- Count pairs, each as often as it is listed. -/
noncomputable def observe (pairs : List WordPair) (m : PairMap) : PairMap :=
  { m with counts := m.counts + (pairs.map fun p => Finsupp.single p 1).sum }

def assign (entries : List (UInt32 × UInt32)) (m : PairMap) : PairMap :=
  { m with cls := entries.foldl (fun cls (word, c) => Function.update cls word c) m.cls }

/-- Replace the words of all pairs by their classes. -/
noncomputable def fold (m : PairMap) : PairMap := { m with counts := foldCounts m.cls m.counts }

/-- What a call does to the pairs. -/
noncomputable def step {α : Type} (m : PairMap) : Call α → PairMap
  | .countSentences batch window => m.observe (batch.windowPairs window.toNat)
  | .assignClasses classes => m.assign classes.entries
  | .fold => m.fold
  | .reset => empty
  | _ => m

/-- What a list of calls does to the pairs. -/
noncomputable def run {α : Type} (calls : List (Call α)) (m : PairMap) : PairMap :=
  calls.foldl (fun m call => m.step call) m

/-! ### What the operations say about one pair -/

theorem observe_apply (pairs : List WordPair) (m : PairMap) (p : WordPair) :
    (m.observe pairs).counts p = m.counts p + pairs.count p := by
  have hcount : (pairs.map fun q => Finsupp.single q 1).sum p = pairs.count p := by
    induction pairs with
    | nil => rfl
    | cons q pairs ih =>
      rw [List.map_cons, List.sum_cons, Finsupp.add_apply, ih, List.count_cons,
        Finsupp.single_apply, Nat.add_comm]
      simp only [beq_iff_eq]
  rw [observe, Finsupp.add_apply, hcount]

@[simp] theorem observe_nil (m : PairMap) : m.observe [] = m := by
  simp [observe]

theorem observe_append (pairs pairs' : List WordPair) (m : PairMap) :
    m.observe (pairs ++ pairs') = (m.observe pairs).observe pairs' := by
  simp only [observe, List.map_append, List.sum_append, add_assoc]

/-- A pair has the counts of all pairs that become it. -/
theorem fold_apply (m : PairMap) (p : WordPair) :
    m.fold.counts p
      = ∑ q ∈ m.counts.support with ¬ q.Vanishes m.cls ∧ q.relabel m.cls = p, m.counts q := by
  rw [Finset.sum_filter, fold, foldCounts, Finsupp.liftAddHom_apply, Finsupp.sum,
    Finsupp.finsetSum_apply]
  refine Finset.sum_congr rfl fun q _ => ?_
  by_cases hvanishes : q.Vanishes m.cls
  · rw [if_pos hvanishes, if_neg fun h => h.1 hvanishes]
    rfl
  · rw [if_neg hvanishes]
    by_cases hrelabel : q.relabel m.cls = p
    · rw [if_pos ⟨hvanishes, hrelabel⟩, Finsupp.singleAddHom_apply, hrelabel,
        Finsupp.single_eq_same]
    · rw [if_neg fun h => hrelabel h.2, Finsupp.singleAddHom_apply,
        Finsupp.single_eq_of_ne (Ne.symm hrelabel)]

end PairMap

end CorpusStats
