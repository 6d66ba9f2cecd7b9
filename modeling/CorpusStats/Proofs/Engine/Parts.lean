import CorpusStats.Proofs.Engine.Batches
import CorpusStats.Proofs.Tally.Pairs
/-!
# CorpusStats.Proofs.Engine.Parts

Which part of the store a call works on. Only folding and resetting work on all of it; every
other call works on the tally and leaves the sections and the similarity pass
(`Call.WorksOnTally`), or leaves the tally (`Call.LeavesTally`). What is shown of one part over
runs has a case for every call on that part, and one case for all the others.

The pairs have invariants of several kinds. Calls that ask for pairs and write them at most
(`Call.OnlyWritesPairs`) keep what asking and writing keep (`Engine.pairs_write`). Scoring is the one
other call that does not rebuild their index (`Call.KeepsIndex`), so such calls keep all that
persists (`Engine.pairs_perform`), and all calls do if rewriting the pairs keeps it too
(`Engine.pairs_keep`).
-/

namespace CorpusStats

open Stage

variable {α : Type}

/-- Whether a call works on the words, the pairs and the total alone. -/
def Call.WorksOnTally : Call α → Prop
  | .internWords _ | .pairSlots _ _ | .countPairs _ | .countSentences _ _ => True
  | .score _ | .scoreStats _ | .filterPairs _ _ => True
  | .assignClasses _ | .foldPairs | .reindexPairs | .rebuildTotals => True
  | .loadPairs _ _ | .loadWords _ _ | .setTotal _ => True
  | _ => False

/-- Whether a call works on the sections or the similarity pass alone. -/
def Call.LeavesTally : Call α → Prop
  | .sectionSlots _ _ | .countSections _ | .extractSections _ | .foldSections => True
  | .computeSimilarity | .filterCandidates _ _ | .loadSections _ _ => True
  | _ => False

/-- Whether a call writes the counts of words at most. -/
def Call.OnlyCountsWords : Call α → Prop
  | .internWords _ | .assignClasses _ | .reset => False
  | _ => True

/-- Whether a call leaves the index of pairs as it is, but for new pairs. -/
def Call.KeepsIndex : Call α → Prop
  | .foldPairs | .reindexPairs | .fold | .reset => False
  | _ => True

/-- Whether a call asks for pairs and writes them at most. -/
def Call.OnlyWritesPairs : Call α → Prop
  | .score _ => False
  | .foldPairs | .reindexPairs | .fold | .reset => False
  | _ => True

/-- Whether a call asks for pairs of words in `P` only, apart from those of a batch. -/
def Call.AsksForPairsOf (P : UInt32 → Prop) : Call α → Prop
  | .pairSlots as bs => (∀ a ∈ as, P a) ∧ ∀ b ∈ bs, P b
  | _ => True

theorem Call.asksForPairsOf_of_forall {P : UInt32 → Prop} (h : ∀ word, P word) (call : Call α) :
    call.AsksForPairsOf P := by
  cases call with
  | pairSlots as bs => exact ⟨fun a _ => h a, fun b _ => h b⟩
  | _ => trivial

namespace Engine

variable [Weight α] {call : Call α}

theorem keeps_tally {P : Tally α → Prop} (hcall : call.LeavesTally) :
    Keeps (fun e : Engine α => P e.store.tally) (perform call) := by
  cases call with
  | sectionSlots words disjuncts => exact (keeps_onSections _).map
  | countSections slots => exact (keeps_onSections _).map
  | extractSections batch =>
    refine Keeps.map (.bind .get fun e => .bind (.lift _) fun _ => .bind .get fun e' => ?_)
    exact .bind (keeps_onSections _) fun _ => .bind .get fun _ => .pure _
  | foldSections => exact Keeps.map fun _ he => he
  | computeSimilarity => exact (keeps_onSimilarity _).map
  | filterCandidates threshold limit => exact (keeps_onSimilarity _).map
  | loadSections slots counts => exact Keeps.map (.bind (.lift _) fun _ => keeps_onSections _)
  | _ => cases hcall

theorem keeps_rest {Q : SectionPool α → Similarity α → Prop} (hcall : call.WorksOnTally) :
    Keeps (fun e : Engine α => Q e.store.sections e.store.similarity) (perform call) := by
  cases call with
  | internWords keys => exact (keeps_rest_onTally _).map
  | pairSlots as bs => exact (keeps_rest_onTally _).map
  | countPairs slots => exact (keeps_rest_onTally _).map
  | countSentences batch window =>
    refine Keeps.map (.bind .get fun e => .bind (.lift _) fun _ => .bind .get fun e' => ?_)
    exact .bind (keeps_rest_onTally _) fun _ => .bind .get fun _ => .pure _
  | score mode => exact Keeps.map (.bind .get fun e => keeps_rest_onTally _)
  | scoreStats threshold => exact (keeps_rest_onTally _).map
  | filterPairs threshold limit => exact (keeps_rest_onTally _).map
  | assignClasses classes => exact (keeps_rest_onTally _).map
  | foldPairs => exact (keeps_rest_onTally _).map
  | reindexPairs => exact (keeps_rest_onTally _).map
  | rebuildTotals => exact (keeps_rest_onTally _).map
  | loadPairs slots counts => exact Keeps.map (.bind (.lift _) fun _ => keeps_rest_onTallyState _)
  | loadWords ids counts => exact Keeps.map (.bind (.lift _) fun _ => keeps_rest_onTallyState _)
  | setTotal total => exact (keeps_rest_onTallyState _).map
  | _ => cases hcall

/-! ### Pairs -/

section Pairs

variable {P : UInt32 → Prop} {Q : PairPool α → Prop}

/-- Calls that ask for pairs and write them at most keep what asking and writing keep, if the words
that they name are in `P` and those of the arena are. -/
theorem pairs_write (hQ : PairPool.KeptByWriting P Q) (hcall : call.OnlyWritesPairs)
    (hasks : call.AsksForPairsOf P) {e : Engine α}
    (hwords : ∀ word, word.toNat < e.store.tally.words.capacity → P word)
    (h : Q e.store.tally.pairs) : Q (outcome (perform call) e).2.store.tally.pairs := by
  have hkept (hkeeps : Keeps (fun e : Engine α => Q e.store.tally.pairs) (perform call)) :
      Q (outcome (perform call) e).2.store.tally.pairs := hkeeps e h
  cases call with
  | score | foldPairs | reindexPairs | fold | reset => cases hcall
  | pairSlots as bs =>
    refine hkept (keeps_onTally (P := fun t => Q t.pairs) ?_).map
    exact hQ.keptByObserving.pairSlots hasks.1 hasks.2
  | countPairs slots =>
    refine hkept (keeps_onTally (P := fun t => Q t.pairs) ?_).map
    exact hQ.keptByObserving.countSlots slots
  | countSentences batch window =>
    rw [perform, outcome_map, countSentences_eq_onStore, outcome_onStore, Store.state_onBatch]
    -- the batch is counted only if its words are words of the arena
    cases hcheck : checkWords e.store.tally.words batch with
    | error error => exact h
    | ok _ =>
      have hbatch word (hword : word ∈ batch.words) : P word :=
        hwords word (lt_of_checkWords hcheck word hword)
      refine Store.keeps_tally_onTally (P := fun t => Q t.pairs) ?_ e.store h
      exact hQ.keptByObserving.countSentences hbatch window .linear
  | scoreStats threshold =>
    exact hkept (keeps_onTally (P := fun t => Q t.pairs) (.modifyGet fun _ hs => hs)).map
  | filterPairs threshold limit =>
    exact hkept (keeps_onTally (P := fun t => Q t.pairs) (.modifyGet fun _ hs => hs)).map
  | loadPairs slots counts =>
    refine hkept (Keeps.map (.bind (.lift _) fun _ =>
      keeps_onTallyState (P := fun t => Q t.pairs) (.forM fun entry _ => ?_)))
    exact Tally.keeps_pairs_onPairs (hQ.loadCount entry.1 entry.2)
  -- stages of the words
  | internWords keys =>
    refine hkept (keeps_onTally (P := fun t => Q t.pairs) ?_).map
    exact .dispatch fun key _ => Tally.keeps_pairs_onWords _
  | assignClasses classes =>
    refine hkept (keeps_onTally (P := fun t => Q t.pairs) ?_).map
    exact .bind (.dispatch fun entry _ => Tally.keeps_pairs_onWords _) fun _ => .pure _
  | rebuildTotals =>
    exact hkept (keeps_onTally (P := fun t => Q t.pairs) Tally.keeps_pairs_rebuildTotals).map
  | loadWords ids counts =>
    refine hkept (Keeps.map (.bind (.lift _) fun _ =>
      keeps_onTallyState (P := fun t => Q t.pairs) (.forM fun entry _ => ?_)))
    exact Tally.keeps_pairs_onWords _
  | setTotal total =>
    refine hkept (keeps_onTallyState (P := fun t => Q t.pairs) fun t ht => ?_).map
    exact ht
  | _ => exact hkept (keeps_tally (P := fun t => Q t.pairs) trivial)

/-- Calls that do not rebuild the index of pairs keep what persists, if the words that they name
are in `P` and those of the arena are. -/
theorem pairs_perform (hQ : PairPool.Persists P Q) (hcall : call.KeepsIndex)
    (hasks : call.AsksForPairsOf P) {e : Engine α}
    (hwords : ∀ word, word.toNat < e.store.tally.words.capacity → P word)
    (h : Q e.store.tally.pairs) : Q (outcome (perform call) e).2.store.tally.pairs := by
  have hwrites (hcall : call.OnlyWritesPairs) :
      Q (outcome (perform call) e).2.store.tally.pairs :=
    pairs_write hQ.toKeptByWriting hcall hasks hwords h
  cases call with
  | foldPairs | reindexPairs | fold | reset => cases hcall
  | score mode =>
    refine Keeps.map (.bind .get fun e => keeps_onTally (P := fun t => Q t.pairs) ?_) e h
    exact .modifyGet fun s hs => hQ.score mode _ hs
  | _ => exact hwrites trivial

/-- Every call keeps what persists and is kept by the three ways in which the pairs are rewritten:
folding with the words as they are, rebuilding the index, and emptying the pool. -/
theorem pairs_keep (hQ : PairPool.Persists P Q) (hasks : call.AsksForPairsOf P) {e : Engine α}
    (hwords : ∀ word, word.toNat < e.store.tally.words.capacity → P word)
    (hfold : ∀ pairs pairs', Pool.Mapped pairs pairs' (PairRow.folded e.store.tally.words) →
      Q pairs → Q pairs')
    (hreindex : Keeps (fun s : Logged (Tally α) => Q s.state.pairs) Tally.reindexPairs)
    (hreset : ∀ pairs, Q pairs → Q pairs.reset) (h : Q e.store.tally.pairs) :
    Q (outcome (perform call) e).2.store.tally.pairs := by
  have hkept (hcall : call.KeepsIndex) : Q (outcome (perform call) e).2.store.tally.pairs :=
    pairs_perform hQ hcall hasks hwords h
  have hfolded : Q (Tally.foldPairs ⟨e.store.tally, e.store.log⟩).2.state.pairs := by
    obtain ⟨pairs', hstate, hmapped⟩ := Tally.exists_mapped_foldPairs ⟨e.store.tally, e.store.log⟩
    rw [hstate]
    exact hfold _ pairs' hmapped h
  cases call with
  | foldPairs => exact hfolded
  | reindexPairs =>
    rw [perform, outcome_map, reindexPairs, outcome_onStore, Store.outcome_onTally]
    exact hreindex ⟨e.store.tally, e.store.log⟩ h
  | fold =>
    rw [perform, outcome_map, fold, outcome_onStore, Store.tally_fold]
    exact hreindex _ hfolded
  | reset => exact hreset _ h
  | _ => exact hkept trivial

end Pairs

end Engine

end CorpusStats
