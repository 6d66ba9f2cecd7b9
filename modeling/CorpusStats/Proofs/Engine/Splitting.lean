import CorpusStats.Proofs.Batch.Lists
import CorpusStats.Proofs.Engine.Refusals
import CorpusStats.Proofs.Loops
/-!
# CorpusStats.Proofs.Engine.Splitting

Splitting a corpus into batches makes no difference (`Engine.splitting_makes_no_difference`).

A batch is a loop over the pairs, or the sections, of its sentences, and those are found sentence by
sentence. So the loop of a batch is the loop of its first sentences followed by the loop of the
others, and it stops where one of them stops. Nothing is asked of the engine: its indexes may be
out of date or full.
-/

namespace CorpusStats

open Stage

variable {α β : Type}

namespace Engine

/-- On this engine both stages give the same answer or fail alike, and what they leave differs in the
log at most. -/
def SameEffect (act act' : Stage (Engine α) β) (e : Engine α) : Prop :=
  (outcome act e).1 = (outcome act' e).1 ∧ SameButLog (outcome act e).2 (outcome act' e).2

/-- Sentences that an engine takes in one batch: words of its arena, and not too many. -/
structure Takes (e : Engine α) (sentences : List (List UInt32)) : Prop where
  word_lt : ∀ sentence ∈ sentences, ∀ word ∈ sentence, word.toNat < e.store.tally.words.capacity
  fits : sentences.flatten.length ≤ maxPositions

theorem Takes.of_sublist {e : Engine α} {X Y : List (List UInt32)} (h : e.Takes Y)
    (hX : X.Sublist Y) : e.Takes X where
  word_lt sentence hsentence := h.word_lt sentence (hX.subset hsentence)
  fits := hX.flatten.length_le.trans h.fits

theorem Takes.word_lt_of_ofLists {e : Engine α} {X : List (List UInt32)} (h : e.Takes X)
    {b : Sentences} (hb : Sentences.ofLists X = .ok b) :
    ∀ word ∈ b.words, word.toNat < e.store.tally.words.capacity := by
  intro word hword
  rw [Sentences.words_ofLists hb, List.mem_toArray, List.mem_flatten] at hword
  obtain ⟨sentence, hsentence, hword⟩ := hword
  exact h.word_lt sentence hsentence word hword

variable [Weight α]

/-- Count two batches one after the other, and report what that did together. -/
def countInTurn (first second : Sentences) (window : UInt32) : Stage (Engine α) CountReport := do
  let done ← countSentences first window
  let report ← countSentences second window
  return { report with events := done.events + report.events }

/-- Extract two batches one after the other, and report what that did together. -/
def extractInTurn (first second : Parses) : Stage (Engine α) (ExtractReport × ℕ) := do
  let (done, _) ← extractSections first
  let (report, sections) ← extractSections second
  return (⟨done.observed + report.observed, done.created + report.created⟩, sections)

/-! ### Counting -/

/-- Observing pairs adds no word to the arena. -/
theorem keeps_capacity_observePair (n : ℕ) (p : WordPair) :
    Keeps (fun t : Tally α => t.words.capacity = n) (Tally.observePair p) := by
  refine .bind (fun t ht => ?_) fun slot => ?_
  · rw [Tally.outcome_onPairs]
    exact ht
  · intro t ht
    obtain ⟨words, pairs, total⟩ := t
    unfold outcome Tally.observe
    dsimp only
    cases Tally.endsOf words pairs slot.1.toNat <;> exact ht

theorem Takes.of_observed {e : Engine α} {X : List (List UInt32)} (h : e.Takes X)
    (pairs : List WordPair) (log : Log) :
    Takes (e.putTally (outcome (pairs.forM Tally.observePair) e.store.tally).2 log) X where
  word_lt := by
    have hcapacity := Keeps.forM
      (fun p (_ : p ∈ pairs) => keeps_capacity_observePair e.store.tally.words.capacity p)
      e.store.tally rfl
    intro sentence hsentence word hword
    exact (h.word_lt sentence hsentence word hword).trans_eq hcapacity.symm
  fits := h.fits

/-- The pairs of a batch of sentences are those of its first sentences and those of the others. -/
theorem count_append {e : Engine α} {X Y : List (List UInt32)} (h : e.Takes (X ++ Y))
    (window : UInt32) {b first second : Sentences} (hb : Sentences.ofLists (X ++ Y) = .ok b)
    (hfirst : Sentences.ofLists X = .ok first) (hsecond : Sentences.ofLists Y = .ok second) :
    SameEffect (countSentences b window) (countInTurn first second window) e := by
  have hX := h.of_sublist (List.sublist_append_left X Y)
  have hY := h.of_sublist (List.sublist_append_right X Y)
  have hpairs : b.windowPairs window.toNat
      = first.windowPairs window.toNat ++ second.windowPairs window.toNat := by
    rw [Sentences.windowPairs_ofLists hb, Sentences.windowPairs_ofLists hfirst,
      Sentences.windowPairs_ofLists hsecond, List.flatMap_append]
  obtain ⟨log, hcount⟩ := outcome_countSentences (h.word_lt_of_ofLists hb) window
  obtain ⟨log₁, hcount₁⟩ := outcome_countSentences (hX.word_lt_of_ofLists hfirst) window
  obtain ⟨log₂, hcount₂⟩ := outcome_countSentences
    ((hY.of_observed (first.windowPairs window.toNat) log₁).word_lt_of_ofLists hsecond) window
  have hloop := outcome_forM_append (first.windowPairs window.toNat)
    (second.windowPairs window.toNat) Tally.observePair e.store.tally
  rw [← hpairs] at hloop
  rw [SameEffect, hcount, hloop, countInTurn, outcome_bind, hcount₁]
  rcases hdone : outcome ((first.windowPairs window.toNat).forM Tally.observePair) e.store.tally with
    ⟨err | _, t⟩
  · exact ⟨rfl, log₁, rfl⟩
  · rw [hdone, tally_putTally, putTally_putTally] at hcount₂
    dsimp only [Except.map]
    rw [outcome_bind, hcount₂]
    rcases outcome ((second.windowPairs window.toNat).forM Tally.observePair) t with ⟨err | _, t'⟩
    · exact ⟨rfl, log₂, rfl⟩
    · rw [hpairs, List.length_append]
      exact ⟨rfl, log₂, rfl⟩

/-! ### Extracting -/

theorem extract_append {e : Engine α} {X Y : List (List UInt32 × List Edge)}
    (h : e.Takes ((X ++ Y).map Prod.fst))
    (hedges : ((X ++ Y).map Prod.snd).flatten.length ≤ maxPositions) {b first second : Parses}
    (hb : Parses.ofParsed (X ++ Y) = .ok b) (hfirst : Parses.ofParsed X = .ok first)
    (hsecond : Parses.ofParsed Y = .ok second) :
    SameEffect (extractSections b) (extractInTurn first second) e := by
  have hX : X.Sublist (X ++ Y) := List.sublist_append_left X Y
  have hY : Y.Sublist (X ++ Y) := List.sublist_append_right X Y
  have hsections : b.sections = first.sections ++ second.sections := by
    rw [Parses.sections_ofParsed hb hedges,
      Parses.sections_ofParsed hfirst ((hX.map _).flatten.length_le.trans hedges),
      Parses.sections_ofParsed hsecond ((hY.map _).flatten.length_le.trans hedges),
      List.flatMap_append]
  obtain ⟨log, hcount⟩ :=
    outcome_extractSections (h.word_lt_of_ofLists (Parses.sentences_ofParsed hb))
  obtain ⟨log₁, hcount₁⟩ := outcome_extractSections
    ((h.of_sublist (hX.map _)).word_lt_of_ofLists (Parses.sentences_ofParsed hfirst))
  have hloop := outcome_mapM_append first.sections second.sections SectionPool.countSection
    e.store.sections
  rw [← hsections] at hloop
  rw [SameEffect, hcount, hloop, extractInTurn, outcome_bind, hcount₁]
  rcases outcome (first.sections.mapM SectionPool.countSection) e.store.sections with
    ⟨err | created, sections⟩
  · exact ⟨rfl, log₁, rfl⟩
  · obtain ⟨log₂, hcount₂⟩ := outcome_extractSections (e := e.putSections sections log₁)
      ((h.of_sublist (hY.map _)).word_lt_of_ofLists (Parses.sentences_ofParsed hsecond))
    dsimp only [Except.map]
    rw [outcome_map, outcome_bind, hcount₂, sections_putSections, putSections_putSections]
    rcases outcome (second.sections.mapM SectionPool.countSection) sections with
      ⟨err | created', sections'⟩
    · exact ⟨rfl, log₂, rfl⟩
    · dsimp only [Except.map]
      rw [List.length_append, List.countP_append]
      exact ⟨rfl, log₂, rfl⟩

/-- **Splitting a corpus makes no difference.** Whatever the state of the engine is, counting the
sentences of two lists in one batch has the effect of counting those of the first list and then,
if that answers, those of the second: the same slots, counts, marginal counts, flags, indexes and
total, the same failure if there is one, and as many events together. Parses of two lists make one
batch exactly if they make two, and extracting their sections has the same effect in one batch or
in two, sections seen and sections created adding up. -/
theorem splitting_makes_no_difference (e : Engine α) :
    (∀ (window : UInt32) (X Y : List (List UInt32)), e.Takes (X ++ Y) →
      ∃ b first second, Sentences.ofLists (X ++ Y) = .ok b
        ∧ Sentences.ofLists X = .ok first ∧ Sentences.ofLists Y = .ok second
        ∧ SameEffect (countSentences b window) (countInTurn first second window) e)
      ∧ ∀ X Y : List (List UInt32 × List Edge), e.Takes ((X ++ Y).map Prod.fst) →
        ((X ++ Y).map Prod.snd).flatten.length ≤ maxPositions →
        ((∃ b, Parses.ofParsed (X ++ Y) = .ok b)
            ↔ (∃ first, Parses.ofParsed X = .ok first) ∧ ∃ second, Parses.ofParsed Y = .ok second)
          ∧ ∀ b first second, Parses.ofParsed (X ++ Y) = .ok b → Parses.ofParsed X = .ok first →
            Parses.ofParsed Y = .ok second →
            SameEffect (extractSections b) (extractInTurn first second) e := by
  constructor
  · intro window X Y h
    obtain ⟨b, hb⟩ := Sentences.exists_ofLists h.fits
    obtain ⟨first, hfirst⟩ :=
      Sentences.exists_ofLists (h.of_sublist (List.sublist_append_left X Y)).fits
    obtain ⟨second, hsecond⟩ :=
      Sentences.exists_ofLists (h.of_sublist (List.sublist_append_right X Y)).fits
    exact ⟨b, first, second, hb, hfirst, hsecond, count_append h window hb hfirst hsecond⟩
  · intro X Y h hedges
    have hX : X.Sublist (X ++ Y) := List.sublist_append_left X Y
    have hY : Y.Sublist (X ++ Y) := List.sublist_append_right X Y
    refine ⟨?_, fun b first second hb hfirst hsecond =>
      extract_append h hedges hb hfirst hsecond⟩
    rw [Parses.exists_ofParsed_iff h.fits hedges,
      Parses.exists_ofParsed_iff (h.of_sublist (hX.map _)).fits
        ((hX.map _).flatten.length_le.trans hedges),
      Parses.exists_ofParsed_iff (h.of_sublist (hY.map _)).fits
        ((hY.map _).flatten.length_le.trans hedges),
      List.forall_mem_append]

/-- The second list has more new pairs than there are slots left, so the one batch fails where the
second of the two does, and leaves the pairs that were made until then. Parses are extracted alike. -/
theorem splitting_makes_no_difference_overflow :
    ∃ (e : Engine ℚ) (b first second : Sentences), ofConfig .tiny = .ok e
      ∧ Sentences.ofLists ([[0, 1, 2]] ++ [[3, 0], [], [3, 1]]) = .ok b
      ∧ Sentences.ofLists [[0, 1, 2]] = .ok first
      ∧ Sentences.ofLists [[3, 0], [], [3, 1]] = .ok second
      ∧ (outcome (countSentences b 2) e).1 = .error (.overflow "pair" 4)
      ∧ (outcome (countInTurn first second 2) e).2.store.tally.pairs.liveRows
        = [⟨1, 0, 0, 1, 1⟩, ⟨1, 0, 0, 2, 1⟩, ⟨1, 0, 1, 2, 1⟩, ⟨1, 0, 0, 3, 1⟩]
      ∧ SameEffect (countSentences b 2) (countInTurn first second 2) e
      ∧ ∃ parses first second,
        Parses.ofParsed ([([0, 1], [(0, 1)])] ++ [([], []), ([2, 3], [(1, 0)])]) = .ok parses
        ∧ Parses.ofParsed [([0, 1], [(0, 1)])] = .ok first
        ∧ Parses.ofParsed [([], []), ([2, 3], [(1, 0)])] = .ok second
        ∧ SameEffect (extractSections parses) (extractInTurn first second) e := by
  let b : Sentences := ⟨#[0, 1, 2, 3, 0, 3, 1], #[0, 3, 5, 5], #[3, 2, 0, 2], by decide⟩
  let first : Sentences := ⟨#[0, 1, 2], #[0], #[3], by decide⟩
  let second : Sentences := ⟨#[3, 0, 3, 1], #[0, 2, 2], #[2, 0, 2], by decide⟩
  obtain ⟨e, he, hcapacity, hfails, hrows⟩ := exists_ofConfig_of_mem .tiny (P := fun e : Engine ℚ =>
    e.store.tally.words.capacity = 4
      ∧ (outcome (countSentences b 2) e).1 = .error (.overflow "pair" 4)
      ∧ (outcome (countInTurn first second 2) e).2.store.tally.pairs.liveRows
        = [⟨1, 0, 0, 1, 1⟩, ⟨1, 0, 0, 2, 1⟩, ⟨1, 0, 1, 2, 1⟩, ⟨1, 0, 0, 3, 1⟩]) (by decide +kernel)
  have htakes : e.Takes ([[0, 1, 2]] ++ [[3, 0], [], [3, 1]]) :=
    ⟨by simp [hcapacity], by simp [maxPositions]⟩
  obtain ⟨b', first', second', hb, hfirst, hsecond, hsame⟩ :=
    (splitting_makes_no_difference e).1 2 _ _ htakes
  obtain rfl : b = b' := Except.ok.inj ((show _ = .ok b by decide).symm.trans hb)
  obtain rfl : first = first' := Except.ok.inj ((show _ = .ok first by decide).symm.trans hfirst)
  obtain rfl : second = second' :=
    Except.ok.inj ((show _ = .ok second by decide).symm.trans hsecond)
  have hparsed := (splitting_makes_no_difference e).2 [([0, 1], [(0, 1)])]
    [([], []), ([2, 3], [(1, 0)])] ⟨by simp [hcapacity], by simp [maxPositions]⟩
    (by simp [maxPositions])
  obtain ⟨first', hfirst'⟩ : ∃ first, Parses.ofParsed [([0, 1], [(0, 1)])] = .ok first := ⟨_, rfl⟩
  obtain ⟨second', hsecond'⟩ : ∃ second,
      Parses.ofParsed [([], []), ([2, 3], [(1, 0)])] = .ok second := ⟨_, rfl⟩
  obtain ⟨parses, hparses⟩ := hparsed.1.mpr ⟨⟨first', hfirst'⟩, second', hsecond'⟩
  exact ⟨e, b, first, second, he, hb, hfirst, hsecond, hfails, hrows, hsame, parses, first', second',
    hparses, hfirst', hsecond', hparsed.2 _ _ _ hparses hfirst' hsecond'⟩

end Engine

end CorpusStats
