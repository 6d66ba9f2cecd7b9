import CorpusStats.Proofs.Batch.Lists
/-!
# CorpusStats.Proofs.Batch.RoundTrip

Batches and the lists they are made from.

* Batches of sentences are exactly the tilings, and they are read back from their own sentences
  (`Sentences.batches_are_tilings`).
* A batch of parses always has the sentences it was made from. It has their edges as long as there
  are at most `maxPositions` of them (`Parses.parses_read_back`). The words of a batch are counted
  before it is made, the edges are not: with more of them, starts and lengths of edge lists are cut
  to 32 bits, and a batch is made with other edges (`Parses.edges_lost_beyond_positions`).
-/

namespace CorpusStats

namespace Sentences

variable {b : Sentences} {X : List (List UInt32)}

/-- The first sentences of a batch are the words up to their end. -/
theorem flatMap_sentence {n : ℕ} (hn : n ≤ b.count) :
    (List.range n).flatMap (fun s => (b.sentence s).toList) = b.words.toList.take (b.bound n) := by
  induction n with
  | zero => rfl
  | succ n ih =>
    rw [List.range_succ, List.flatMap_append, ih (Nat.le_of_succ_le hn), List.flatMap_singleton,
      toList_sentence hn, bound_succ hn, List.take_add]

theorem flatten_toLists (b : Sentences) : b.toLists.flatten = b.words.toList := by
  rw [toLists, ← List.flatMap_def, flatMap_sentence le_rfl, bound_count]
  exact List.take_length

theorem length_toLists (b : Sentences) : b.toLists.length = b.count := by simp [toLists]

theorem getElem_toLists {s : ℕ} (hs : s < b.toLists.length) :
    b.toLists[s] = (b.sentence s).toList := by
  simp [toLists]

theorem lengthBefore_toLists {s : ℕ} (hs : s ≤ b.count) :
    lengthBefore b.toLists s = b.bound s := by
  induction s with
  | zero => rfl
  | succ s ih =>
    have hlt : s < b.toLists.length := b.length_toLists.symm ▸ hs
    rw [bound_succ hs, ← ih (Nat.le_of_succ_le hs), lengthBefore, lengthBefore,
      ← List.take_concat_get' _ _ hlt, List.map_append, List.sum_append, getElem_toLists hlt]
    simp [length_toList_sentence hs]

theorem startsFrom_toLists (b : Sentences) : startsFrom 0 b.toLists = b.offsets.toList := by
  refine List.ext_getElem (by simp [length_toLists, count]) fun s hs hs' => ?_
  have hlt : s < b.toLists.length := by simpa using hs
  have hcount : s < b.count := b.length_toLists ▸ hlt
  have hget := getElem?_startsFrom hlt 0
  rw [Nat.zero_add, lengthBefore_toLists hcount.le, ← toNat_start hcount] at hget
  rw [(List.getElem?_eq_some_iff.mp hget).2, Array.getElem_toList, start,
    Array.getD_eq_getD_getElem?, Array.getElem?_eq_getElem hcount]
  exact UInt32.ofNat_toNat

theorem lengths_toLists (b : Sentences) :
    b.toLists.map (·.length.toUInt32) = b.lengths.toList := by
  refine List.ext_getElem (by simp [length_toLists, lengths_size]) fun s hs hs' => ?_
  have hlt : s < b.toLists.length := by simpa using hs
  have hlengths : s < b.lengths.size := by simpa using hs'
  rw [List.getElem_map, getElem_toLists hlt, length_toList_sentence (b.length_toLists ▸ hlt),
    Array.getElem_toList, length, Array.getD_eq_getD_getElem?, Array.getElem?_eq_getElem hlengths]
  exact UInt32.ofNat_toNat

/-- The sentences of a batch make the batch. -/
theorem ofLists_toLists (b : Sentences) : ofLists b.toLists = .ok b :=
  ofLists_eq_ok_iff.mpr ⟨by rw [flatten_toLists], by rw [startsFrom_toLists],
    by rw [lengths_toLists]⟩

theorem exists_ofArrays_iff {words offsets lengths : Array UInt32} :
    (∃ b, ofArrays words offsets lengths = .ok b) ↔ Tiles words offsets lengths := by
  rw [← fault?_eq_none_iff]
  constructor
  · intro h
    obtain ⟨b, hb⟩ := h
    obtain ⟨rfl, rfl, rfl⟩ := ofArrays_eq_ok_iff.mp hb
    exact b.tiled
  · intro h
    exact ⟨⟨_, _, _, h⟩, ofArrays_eq_ok_iff.mpr ⟨rfl, rfl, rfl⟩⟩

theorem ofLists_of_not_fits (h : maxPositions < X.flatten.length) :
    ofLists X = .error (.malformed .tooManyPositions) := by
  have hfault : fault? X.flatten.toArray (startsFrom 0 X).toArray
      (X.map (·.length.toUInt32)).toArray = some .tooManyPositions := by
    rw [fault?, if_neg (by simp), if_pos (by simpa using h)]
  unfold ofLists ofArrays
  split
  · rename_i hnone
    rw [hfault] at hnone
    cases hnone
  · rename_i fault hsome
    rw [hfault, Option.some_inj] at hsome
    rw [hsome]

/-- **Batches of sentences are exactly the tilings.** Arrays make a batch exactly if they describe a
tiling of the words. The sentences of a batch, one behind the other, are its words, and the batch
is made again from them. Lists make a batch with these lists as its sentences, unless they have too
many words together. -/
theorem batches_are_tilings :
    (∀ words offsets lengths : Array UInt32,
        (∃ b, ofArrays words offsets lengths = .ok b) ↔ Tiles words offsets lengths)
      ∧ (∀ (words offsets lengths : Array UInt32) (b : Sentences),
        ofArrays words offsets lengths = .ok b →
          (List.range b.count).flatMap (fun s => (b.sentence s).toList) = words.toList
            ∧ ofLists ((List.range b.count).map fun s => (b.sentence s).toList) = .ok b)
      ∧ ∀ X : List (List UInt32),
        (ofLists X = .error (.malformed .tooManyPositions) ↔ maxPositions < X.flatten.length)
          ∧ (X.flatten.length ≤ maxPositions → ∃ b, ofLists X = .ok b ∧ b.count = X.length
            ∧ ∀ s (hs : s < X.length), (b.sentence s).toList = X[s]) := by
  refine ⟨fun _ _ _ => exists_ofArrays_iff, fun words offsets lengths b hb => ⟨?_, ?_⟩,
    fun X => ⟨⟨fun herror => ?_, ofLists_of_not_fits⟩, fun hfits => ?_⟩⟩
  · rw [flatMap_sentence le_rfl, bound_count, ← (ofArrays_eq_ok_iff.mp hb).1]
    exact List.take_length
  · exact b.ofLists_toLists
  · by_contra hfits
    obtain ⟨b, hb⟩ := exists_ofLists (not_lt.mp hfits)
    rw [hb] at herror
    cases herror
  · obtain ⟨b, hb⟩ := exists_ofLists hfits
    exact ⟨b, hb, count_ofLists hb, fun s hs => sentence_ofLists hb hs⟩

/-- Empty sentences at the front, between others and at the end. -/
theorem batches_are_tilings_empty_sentences : ∃ b : Sentences,
    ofArrays #[7, 8, 9] #[0, 0, 2, 2, 3] #[0, 2, 0, 1, 0] = .ok b
      ∧ (List.range b.count).flatMap (fun s => (b.sentence s).toList) = [7, 8, 9]
      ∧ ∃ b', ofLists [[], [7, 8], [], [9], []] = .ok b' ∧ b'.count = 5 ∧ ∀ s (hs : s < 5),
        (b'.sentence s).toList = ([[], [7, 8], [], [9], []] : List (List UInt32))[s] := by
  have htiles : Tiles #[7, 8, 9] #[0, 0, 2, 2, 3] #[0, 2, 0, 1, 0] :=
    fault?_eq_none_iff.mp (by decide)
  obtain ⟨b, hb⟩ := (batches_are_tilings.1 _ _ _).mpr htiles
  exact ⟨b, hb, (batches_are_tilings.2.1 _ _ _ b hb).1,
    (batches_are_tilings.2.2 [[], [7, 8], [], [9], []]).2 (by decide)⟩

end Sentences

namespace Parses

variable {b : Parses} {sentences : List (List UInt32)} {edges : List (List Edge)}

/-- The edges join two different positions of the sentence each, and no position is an end of too
many of them. -/
structure Joins (sentence : List UInt32) (edges : List Edge) : Prop where
  inside : ∀ e ∈ edges, e.1.toNat < sentence.length ∧ e.2.toNat < sentence.length
  distinct : ∀ e ∈ edges, e.1 ≠ e.2
  degree_le : ∀ position, degree edges position ≤ Disjunct.maxConnectors

/-- No edge ends behind the sentence, so only positions of the sentence are asked for. -/
theorem crowded?_eq_none_iff {length : UInt32} {edges : List Edge}
    (hinside : ∀ e ∈ edges, e.1 < length ∧ e.2 < length) :
    crowded? edges length = none
      ↔ ∀ position, degree edges position ≤ Disjunct.maxConnectors := by
  rw [crowded?, List.find?_eq_none]
  simp only [List.mem_range, decide_eq_true_iff, not_lt]
  constructor
  · intro h position
    rcases lt_or_ge position.toNat length.toNat with hlt | hge
    · simpa using h position.toNat hlt
    · have hnone : ∀ e ∈ edges, e.1 ≠ position ∧ e.2 ≠ position := by
        intro e he
        have hlt := hinside e he
        rw [UInt32.lt_iff_toNat_lt, UInt32.lt_iff_toNat_lt] at hlt
        constructor
        · rintro rfl
          omega
        · rintro rfl
          omega
      have hdegree : degree edges position = 0 := by
        rw [degree, Nat.add_eq_zero_iff, List.countP_eq_zero, List.countP_eq_zero]
        exact ⟨fun e he => by simpa using (hnone e he).1, fun e he => by simpa using (hnone e he).2⟩
      omega
  · intro h position _
    exact h position.toUInt32

theorem isSound_iff_joins {sentence : List UInt32} (hfits : sentence.length ≤ maxPositions)
    {edges : List Edge} : IsSound sentence.length.toUInt32 edges ↔ Joins sentence edges := by
  have hmax : maxPositions < UInt32.size := by decide
  have hlength : sentence.length.toUInt32.toNat = sentence.length :=
    UInt32.toNat_ofNat_of_lt' (by omega)
  have hlt (position : UInt32) :
      position < sentence.length.toUInt32 ↔ position.toNat < sentence.length := by
    rw [UInt32.lt_iff_toNat_lt, hlength]
  constructor
  · intro h
    have hinside : ∀ e ∈ edges,
        e.1 < sentence.length.toUInt32 ∧ e.2 < sentence.length.toUInt32 :=
      fun e he => ⟨(h.1 e he).1, (h.1 e he).2.1⟩
    exact ⟨fun e he => (hinside e he).imp (hlt _).mp (hlt _).mp, fun e he => (h.1 e he).2.2,
      (crowded?_eq_none_iff hinside).mp h.2⟩
  · intro h
    have hinside : ∀ e ∈ edges,
        e.1 < sentence.length.toUInt32 ∧ e.2 < sentence.length.toUInt32 :=
      fun e he => (h.inside e he).imp (hlt _).mpr (hlt _).mpr
    exact ⟨fun e he => ⟨(hinside e he).1, (hinside e he).2, h.distinct e he⟩,
      (crowded?_eq_none_iff hinside).mpr h.degree_le⟩

theorem exists_ofLists_iff_joins : (∃ b, ofLists sentences edges = .ok b) ↔
    sentences.length = edges.length ∧ sentences.flatten.length ≤ maxPositions
      ∧ ∀ s (hs : s < sentences.length), Joins sentences[s] (keptEdges edges s) := by
  rw [exists_ofLists_iff]
  refine and_congr_right fun _ => and_congr_right fun hfits => forall₂_congr fun s hs => ?_
  refine isSound_iff_joins (le_trans ?_ hfits)
  exact (List.sublist_flatten_of_mem (List.getElem_mem hs)).length_le

/-- **Parses are read back**, edges as far as they are kept. Lists of words and lists of edges make
a batch exactly if there are as many lists of each, the words fit, and the edges that are kept for a
sentence join positions of it. The batch has these sentences, and for each of them the edges
that are kept. If there are at most `maxPositions` edges, every list of edges is kept as it is. -/
theorem parses_read_back (sentences : List (List UInt32)) (edges : List (List Edge)) :
    ((∃ b, ofLists sentences edges = .ok b) ↔ sentences.length = edges.length
        ∧ sentences.flatten.length ≤ maxPositions
        ∧ ∀ s (hs : s < sentences.length), Joins sentences[s] (keptEdges edges s))
      ∧ (∀ b, ofLists sentences edges = .ok b → b.sentences.count = sentences.length
        ∧ ∀ s (hs : s < sentences.length), (b.sentences.sentence s).toList = sentences[s]
          ∧ b.edges s = keptEdges edges s)
      ∧ (edges.flatten.length ≤ maxPositions →
        ∀ s (hs : s < edges.length), keptEdges edges s = edges[s]) := by
  refine ⟨exists_ofLists_iff_joins, fun b hb => ?_, fun hedges s hs => ?_⟩
  · obtain ⟨hlength, hsentences, -⟩ := ofLists_eq_ok_iff.mp hb
    exact ⟨Sentences.count_ofLists hsentences, fun s hs =>
      ⟨Sentences.sentence_ofLists hsentences hs, edges_ofLists hb (hlength ▸ hs)⟩⟩
  · exact keptEdges_eq hs ((lengthBefore_add_le hs).trans hedges)

theorem parses_read_back_two_sentences : ∃ b : Parses,
    ofLists [[10, 20, 30], [40, 50]] [[(0, 1), (1, 2)], [(1, 0)]] = .ok b
      ∧ (b.sentences.sentence 1).toList = [40, 50] ∧ b.edges 1 = [(1, 0)] := by
  have h := parses_read_back [[10, 20, 30], [40, 50]] [[(0, 1), (1, 2)], [(1, 0)]]
  have hkept := h.2.2 (by decide)
  obtain ⟨b, hb⟩ : ∃ b : Parses,
    ofLists [[10, 20, 30], [40, 50]] [[(0, 1), (1, 2)], [(1, 0)]] = .ok b := ⟨_, rfl⟩
  obtain ⟨hsentence, hedges⟩ := (h.2.1 b hb).2 1 (by decide)
  exact ⟨b, hb, hsentence, hedges.trans (hkept 1 (by decide))⟩

/-- If the first of two lists is as long as there are words of 32 bits, nothing is kept for it, and
for the second list its own first edge is. -/
theorem keptEdges_of_wrapping {l : List Edge} (hl : l.length = UInt32.size) (e : Edge) :
    keptEdges [l, [e]] 0 = [] ∧ keptEdges [l, [e]] 1 = l.take 1 := by
  have hpos : 1 ≤ l.length := hl ▸ by decide
  simp [keptEdges, lengthBefore, hl, List.take_append_of_le_length hpos]

theorem degree_le (edges : List Edge) (position : UInt32) :
    degree edges position ≤ 2 * edges.length := by
  have hfirst := edges.countP_le_length (p := fun e => e.1 = position)
  have hsecond := edges.countP_le_length (p := fun e => e.2 = position)
  rw [degree]
  omega

theorem exists_ofLists_of_wrapping {l : List Edge} (hl : l.length = UInt32.size)
    (hhead : l.take 1 = [(0, 1)]) : ∃ b : Parses,
    ofLists [[10, 20], [30, 40]] [l, [(1, 0)]] = .ok b ∧ b.edges 0 = [] ∧ b.edges 1 = [(0, 1)] := by
  obtain ⟨hfirst, hsecond⟩ := keptEdges_of_wrapping hl (1, 0)
  rw [hhead] at hsecond
  have hempty : Joins [10, 20] [] :=
    ⟨by simp, by simp, fun position => (degree_le [] position).trans (by decide)⟩
  have hmoved : Joins [30, 40] [(0, 1)] :=
    ⟨by simp, by simp, fun position => (degree_le [(0, 1)] position).trans (by decide)⟩
  have hjoins : ∀ s (hs : s < [[10, 20], [30, 40]].length),
      Joins [[10, 20], [30, 40]][s] (keptEdges [l, [(1, 0)]] s) := by
    intro s hs
    obtain rfl | rfl : s = 0 ∨ s = 1 := by
      have : s < 2 := hs
      omega
    · rwa [hfirst]
    · rwa [hsecond]
  obtain ⟨b, hb⟩ : ∃ b, ofLists [[10, 20], [30, 40]] [l, [(1, 0)]] = .ok b :=
    exists_ofLists_iff_joins.mpr ⟨rfl, by decide, hjoins⟩
  exact ⟨b, hb, (edges_ofLists hb Nat.two_pos).trans hfirst,
    (edges_ofLists hb Nat.one_lt_two).trans hsecond⟩

/-- With `2 ^ 32` edges for one sentence and one for the next, a batch is made in which the first
sentence has no edges, and the second has one of the first instead of its own. -/
theorem edges_lost_beyond_positions : ∃ b : Parses,
    ofLists [[10, 20], [30, 40]] [List.replicate (2 ^ 32) (0, 1), [(1, 0)]] = .ok b
      ∧ b.edges 0 = [] ∧ b.edges 1 = [(0, 1)] :=
  exists_ofLists_of_wrapping List.length_replicate List.take_replicate

end Parses

end CorpusStats
