import CorpusStats.Proofs.Engine.Splitting
import CorpusStats.Proofs.Engine.TwoSteps
import CorpusStats.Proofs.Tally.Reordering
/-!
# CorpusStats.Proofs.Engine.Reordering

The order of the sentences of a batch makes no difference
(`Engine.sentence_order_makes_no_difference`). A batch is a loop over the pairs of its sentences, so
sentences in another order are pairs in another order. Which of the new pairs takes which slot depends
on the order, and so does the place of its key in the index.
-/

namespace CorpusStats

open Stage

variable {α : Type} [Weight α]

namespace Engine

/-- Two engines that a call left of `e` differ in the slots of new pairs, and in their logs, at
most. -/
structure SameButNewSlots (e s s' : Engine α) : Prop where
  tally : e.store.tally.SameButNewSlots s.store.tally s'.store.tally
  config_eq : s'.config = s.config
  sections_eq : s'.store.sections = s.store.sections
  similarity_eq : s'.store.similarity = s.store.similarity

omit [Weight α] in
/-- Words of the arena make pairs with keys of their own. -/
theorem tellsApart_windowPairs {words : WordPool α} (hwords : words.HasRoom) {b : Sentences}
    (hb : ∀ word ∈ b.words, word.toNat < words.capacity) (window : ℕ) :
    Tally.TellsApart (b.windowPairs window) := by
  intro p hp
  rw [Sentences.windowPairs_eq_map] at hp
  obtain ⟨⟨s, i, j⟩, hplace, rfl⟩ := List.mem_map.mp hp
  obtain ⟨hs, hij, -, hj⟩ := Sentences.mem_near.mp hplace
  have hfirst : (b.pairAt (s, i, j)).first.toNat < words.capacity :=
    (WordPair.of_mem (P := fun word => word.toNat < words.capacity)
      (hb _ (Sentences.wordAt_mem_words hs (hij.trans hj))) (hb _ (Sentences.wordAt_mem_words hs hj))).1
  exact (hfirst.trans_le hwords.capacity_le).trans (by decide)

/-- **The order of sentences makes no difference.** After every run, failed calls and folds that leave
the index of pairs out of date among them, lists of the same sentences make batches that are both
counted or both not. If they are, the reports agree, and so do the total, the marginal counts and
every slot that was there before. The new slots hold the same pairs, each once and with the same
count, and some permutation of these slots turns the rows and the look-ups of one result into those
of the other. -/
theorem sentence_order_makes_no_difference {config : Config} {e : Engine α}
    (he : ofConfig config = .ok e) (calls : List (Call α)) (window : UInt32)
    {X Y : List (List UInt32)} (hperm : X.Perm Y) (htakes : (run calls e).Takes X) :
    ∃ b b', Sentences.ofLists X = .ok b ∧ Sentences.ofLists Y = .ok b'
      ∧ ((∃ report s, countSentences b window (run calls e) = .ok report s)
        ↔ ∃ report s, countSentences b' window (run calls e) = .ok report s)
      ∧ ∀ report s report' s', countSentences b window (run calls e) = .ok report s →
        countSentences b' window (run calls e) = .ok report' s' →
        report' = report ∧ (run calls e).SameButNewSlots s s' := by
  have htakes' : (run calls e).Takes Y :=
    ⟨fun sentence hsentence => htakes.word_lt sentence (hperm.mem_iff.mpr hsentence),
      hperm.flatten.length_eq ▸ htakes.fits⟩
  obtain ⟨b, hb⟩ := Sentences.exists_ofLists htakes.fits
  obtain ⟨b', hb'⟩ := Sentences.exists_ofLists htakes'.fits
  have hwords := htakes.word_lt_of_ofLists hb
  have hpairs : (b.windowPairs window.toNat).Perm (b'.windowPairs window.toNat) := by
    rw [Sentences.windowPairs_ofLists hb, Sentences.windowPairs_ofLists hb']
    exact hperm.flatMap_right _
  have hroom := hasRoom_run he calls
  have hsmall := tellsApart_windowPairs hroom.words hwords window.toNat
  have hsmall' := tellsApart_windowPairs hroom.words (htakes'.word_lt_of_ofLists hb') window.toNat
  obtain ⟨log, hcount⟩ := countSentences_eq_ok_iff hwords window
  obtain ⟨log', hcount'⟩ := countSentences_eq_ok_iff (htakes'.word_lt_of_ofLists hb') window
  refine ⟨b, b', hb, hb', ?_, fun report s report' s' hrun hrun' => ?_⟩
  · have hadmits : Tally.Admits (run calls e).store.tally (b.windowPairs window.toNat)
        ↔ Tally.Admits (run calls e).store.tally (b'.windowPairs window.toNat) :=
      ⟨fun h => h.perm hpairs, fun h => h.perm hpairs.symm⟩
    rw [← Tally.forM_observePair_iff hroom.pairs hsmall,
      ← Tally.forM_observePair_iff hroom.pairs hsmall'] at hadmits
    simpa [hcount, hcount'] using hadmits
  · obtain ⟨tally, hloop, rfl, rfl⟩ := (hcount _ _).mp hrun
    obtain ⟨tally', hloop', rfl, rfl⟩ := (hcount' _ _).mp hrun'
    have hsame := (Tally.counted_of_forM hroom.pairs hsmall hloop).sameButNewSlots hroom.pairs hsmall
      (Tally.counted_of_forM hroom.pairs hsmall' hloop') hpairs
    obtain ⟨σ, hrenumbered⟩ := hsame.renumbered
    refine ⟨?_, hsame, rfl, rfl, rfl⟩
    rw [hpairs.length_eq, hsame.total_eq, hrenumbered.used_eq]

/-- The pair in slot 0 was folded, and the index still leads there with its old words. The new pairs
take the slots behind it in the order of the sentences. -/
theorem sentence_order_makes_no_difference_folded :
    let calls : List (Call ℚ) := [.pairSlots [0] [1], .countPairs [0],
      .assignClasses ⟨[(1, 2)], by decide⟩, .foldPairs]
    ∃ (e s s' : Engine ℚ) (b b' : Sentences) (report : CountReport), ofConfig .tiny = .ok e
      ∧ Sentences.ofLists [[0, 1, 2], [3, 1]] = .ok b
      ∧ Sentences.ofLists [[3, 1], [0, 1, 2]] = .ok b'
      ∧ countSentences b 1 (run calls e) = .ok report s
      ∧ countSentences b' 1 (run calls e) = .ok report s'
      ∧ s.store.tally.pairs.liveRows = [⟨2, 0, 0, 2, 1⟩, ⟨1, 0, 1, 2, 1⟩, ⟨1, 0, 1, 3, 1⟩]
      ∧ s.lookupPair 1 3 = some 2 ∧ s'.lookupPair 1 3 = some 1
      ∧ (run calls e).SameButNewSlots s s' := by
  intro calls
  let b : Sentences := ⟨#[0, 1, 2, 3, 1], #[0, 3], #[3, 2], by decide⟩
  let b' : Sentences := ⟨#[3, 1, 0, 1, 2], #[0, 2], #[2, 3], by decide⟩
  obtain ⟨e, he, hcapacity, hanswer, hrows, hlookup, hlookup'⟩ := exists_ofConfig_of_mem .tiny
    (P := fun e : Engine ℚ => (run calls e).store.tally.words.capacity = 4
      ∧ (outcome (countSentences b 1) (run calls e)).1 = .ok ⟨3, 4, 3⟩
      ∧ (outcome (countSentences b 1) (run calls e)).2.store.tally.pairs.liveRows
        = [⟨2, 0, 0, 2, 1⟩, ⟨1, 0, 1, 2, 1⟩, ⟨1, 0, 1, 3, 1⟩]
      ∧ (outcome (countSentences b 1) (run calls e)).2.lookupPair 1 3 = some 2
      ∧ (outcome (countSentences b' 1) (run calls e)).2.lookupPair 1 3 = some 1)
    (by decide +kernel)
  obtain ⟨c, c', hb, hb', hiff, hsame⟩ := sentence_order_makes_no_difference he calls 1
    (X := [[0, 1, 2], [3, 1]]) (Y := [[3, 1], [0, 1, 2]]) (by decide)
    ⟨by simp [hcapacity], by simp [maxPositions]⟩
  obtain rfl : b = c := Except.ok.inj ((show _ = .ok b by decide).symm.trans hb)
  obtain rfl : b' = c' := Except.ok.inj ((show _ = .ok b' by decide).symm.trans hb')
  have hrun : countSentences b 1 (run calls e)
      = .ok ⟨3, 4, 3⟩ (outcome (countSentences b 1) (run calls e)).2 :=
    eq_ok_of_outcome hanswer
  obtain ⟨report, s', hrun'⟩ := hiff.mp ⟨_, _, hrun⟩
  obtain ⟨rfl, hnew⟩ := hsame _ _ _ _ hrun hrun'
  rw [outcome_of_ok hrun'] at hlookup'
  exact ⟨e, _, s', b, b', _, he, hb, hb', hrun, hrun', hrows, hlookup, hlookup', hnew⟩

end Engine

end CorpusStats
