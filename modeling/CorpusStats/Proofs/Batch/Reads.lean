import CorpusStats.Proofs.Batch.Sections
/-!
# CorpusStats.Proofs.Batch.Reads

What the stages read at a position of a batch is there.

A stage that works on a flat position looks up its sentence, the words of the sentence, and the
edges of the sentence with the words at their ends, and adds and subtracts 32-bit positions to do so.
Batches are checked when they are made, so no number is beyond its array and no sum wraps
(`Sentences.ReadsAt`, `Parses.ReadsAt`), and every position has a sentence (`exists_readsAt`).
-/

namespace CorpusStats

namespace Sentences

/-- Sentence `s` has position `i`, and what is read there to count its pairs is there. -/
structure ReadsAt (b : Sentences) (i s : ℕ) : Prop where
  start_lt : s < b.offsets.size
  length_lt : s < b.lengths.size
  start_le : (b.start s).toNat ≤ i
  lt_stop : i < (b.stop s).toNat
  /-- The position after the last one of the sentence does not wrap. -/
  stop_eq : (b.stop s).toNat = (b.start s).toNat + (b.length s).toNat
  stop_le : (b.stop s).toNat ≤ b.words.size
  /-- Neither does the position after this one. -/
  next_eq : (i.toUInt32 + 1).toNat = i + 1
  /-- The words that the position is paired with are words of the sentence. -/
  lastPartner_lt : ∀ window, (b.lastPartner s window i.toUInt32).toNat < (b.stop s).toNat

variable {b : Sentences} {i : ℕ}

/-- Every position has a sentence, and all that is read there is there. -/
theorem exists_readsAt (hi : i < b.totalWords) (locator : Locator) :
    ∃ s, locator.locate b i.toUInt32 = some s ∧ b.ReadsAt i s := by
  rw [← bound_count] at hi
  obtain ⟨s, hs, j, hj, rfl⟩ := exists_bound_add le_rfl hi
  have hstart := toNat_start hs
  have hstop := (toNat_stop hs).trans (bound_succ hs)
  have hle := bound_le_totalWords (b := b) (s := s + 1) hs
  refine ⟨s, locate_bound_add hs hj locator, hs, b.lengths_size ▸ hs, ?_, ?_, ?_, ?_,
    toNat_position_add_one hs hj, fun window => ?_⟩
  · omega
  · omega
  · rw [hstop, hstart]
  · rwa [toNat_stop hs]
  · rw [toNat_lastPartner hs hj]
    omega

end Sentences

namespace Parses

variable {b : Parses} {i s : ℕ}

/-- The edges of every sentence are a range of the edge arrays. -/
theorem range_edges_le (hs : s < b.sentences.count) :
    s < b.offsets.size ∧ s < b.counts.size ∧ b.firsts.size = b.seconds.size
      ∧ (b.offsets.getD s 0).toNat + (b.counts.getD s 0).toNat ≤ b.firsts.size := by
  have hsound := b.sound
  unfold fault? at hsound
  split at hsound
  · cases hsound
  · rename_i hends
    split at hsound
    · cases hsound
    · rename_i hranges
      obtain ⟨hoffsets, hcounts⟩ := not_or.mp hranges
      have hsentence := List.findSome?_eq_none_iff.mp hsound s (List.mem_range.mpr hs)
      unfold sentenceFault? at hsentence
      dsimp only at hsentence
      split at hsentence
      · cases hsentence
      · rename_i hrange
        exact ⟨(not_not.mp hoffsets).symm ▸ hs, (not_not.mp hcounts).symm ▸ hs, not_not.mp hends,
          not_lt.mp hrange⟩

/-- Sentence `s` has position `i`, and what is read there to find its section is there. -/
structure ReadsAt (b : Parses) (i s : ℕ) : Prop extends Sentences.ReadsAt b.sentences i s where
  offset_lt : s < b.offsets.size
  count_lt : s < b.counts.size
  firsts_le : (b.offsets.getD s 0).toNat + (b.counts.getD s 0).toNat ≤ b.firsts.size
  seconds_le : (b.offsets.getD s 0).toNat + (b.counts.getD s 0).toNat ≤ b.seconds.size
  /-- The position within the sentence does not wrap. -/
  relative_eq : (i.toUInt32 - b.sentences.start s).toNat = i - (b.sentences.start s).toNat
  /-- Edges join words of the sentence. -/
  ends_lt : ∀ edge ∈ b.edges s, edge.1.toNat < (b.sentences.sentence s).size
    ∧ edge.2.toNat < (b.sentences.sentence s).size
  /-- No position has more connectors than there is room for. -/
  connectors_le : (b.connectors s (i.toUInt32 - b.sentences.start s)).length
    ≤ Disjunct.maxConnectors

theorem exists_readsAt (hi : i < b.sentences.totalWords) (locator : Locator) :
    ∃ s, locator.locate b.sentences i.toUInt32 = some s ∧ b.ReadsAt i s := by
  obtain ⟨s, hlocate, hreads⟩ := Sentences.exists_readsAt hi locator
  have hs : s < b.sentences.count := hreads.start_lt
  obtain ⟨hoffset, hcount, hends, hrange⟩ := range_edges_le (b := b) hs
  have hposition : i.toUInt32.toNat = i := Sentences.toNat_toUInt32_of_lt hi
  have hrelative : (i.toUInt32 - b.sentences.start s).toNat
      = i - (b.sentences.start s).toNat := by
    rw [UInt32.toNat_sub_of_le _ _ (UInt32.le_iff_toNat_le.mpr ?_), hposition]
    rw [hposition]
    exact hreads.start_le
  have hsize : (b.sentences.sentence s).size = (b.sentences.length s).toNat := by
    rw [← Array.length_toList, Sentences.length_toList_sentence hs]
  refine ⟨s, hlocate, hreads, hoffset, hcount, hrange, hends ▸ hrange, hrelative,
    fun edge hedge => ?_, length_connectors_le hs ?_⟩
  · rw [hsize, ← UInt32.lt_iff_toNat_lt, ← UInt32.lt_iff_toNat_lt]
    exact lt_of_mem_edges hs hedge
  · have hlt := hreads.lt_stop
    have hle := hreads.start_le
    rw [hreads.stop_eq] at hlt
    rw [UInt32.lt_iff_toNat_lt, hrelative]
    omega

end Parses

end CorpusStats
