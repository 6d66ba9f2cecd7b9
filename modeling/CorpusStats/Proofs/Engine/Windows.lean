import CorpusStats.Proofs.Engine.Coherence
import CorpusStats.Proofs.Tally.Observed
/-!
# CorpusStats.Proofs.Engine.Windows

What counting a batch does to an engine whose index of pairs agrees with its rows
(`Engine.CountsBatch`): it counts the pair of words of every place where two positions of one
sentence are close enough, and nothing else. Exact counts grow by the number of such places
(`Engine.CountsBatch.countOf_eq_add`).
-/

namespace CorpusStats

open Stage

variable {α : Type}

/-- Places where a word stands first or second are the ends that it is. -/
theorem Sentences.sum_ends (b : Sentences) (word : UInt32) (places : List (ℕ × ℕ × ℕ)) :
    ((places.map b.pairAt).map (WordPair.ends · word.toNat)).sum
      = (places.countP fun place => b.wordAt place.1 place.2.1 = word)
        + places.countP fun place => b.wordAt place.1 place.2.2 = word := by
  induction places with
  | nil => rfl
  | cons place places ih =>
    rw [List.map_cons, List.map_cons, List.sum_cons, ih, pairAt, WordPair.ends_of, List.countP_cons,
      List.countP_cons]
    simp only [decide_eq_true_iff]
    omega

variable [Weight α]

namespace Engine

/-- `e'` is `e` after the pairs of a batch were counted. -/
structure CountsBatch (e : Engine α) (b : Sentences) (window : UInt32) (report : CountReport)
    (e' : Engine α) : Prop where
  /-- An event is a place where two positions of one sentence are at most `window` apart. -/
  events_eq : report.events = Set.ncard {place : ℕ × ℕ × ℕ | place.1 < b.count
    ∧ place.2.1 < place.2.2 ∧ place.2.2 ≤ place.2.1 + window.toNat
    ∧ place.2.2 < (b.length place.1).toNat}
  report_eq : report = ⟨report.events, e'.store.tally.total, e'.store.tally.pairs.used⟩
  total_eq : e'.store.tally.total = e.store.tally.total + report.events.toUInt64
  /-- The count of a pair grows by the places where its words stand. -/
  count_eq : ∀ p, e'.store.tally.pairs.countOf p
    = addOnes ((b.near window.toNat).countP fun place => b.pairAt place = p)
      (e.store.tally.pairs.countOf p)
  /-- The count of a word grows by the places where it stands first and those where it stands
  second, and nothing else changes of its row. -/
  word_eq : ∀ word : UInt32, e'.store.tally.words.row? word.toNat
    = (e.store.tally.words.row? word.toNat).map (WordRow.gained
      (((b.near window.toNat).countP fun place => b.wordAt place.1 place.2.1 = word)
        + (b.near window.toNat).countP fun place => b.wordAt place.1 place.2.2 = word))
  /-- The row of a slot is counted, and its score out of date, if its pair is found in the slot and
  stands somewhere. Nothing else changes of it. -/
  row_eq : ∀ (slot : ℕ) row, e.store.tally.pairs.liveRows[slot]? = some row →
    e'.store.tally.pairs.liveRows[slot]? = some (row.observed
      (if (e.lookupPair row.wordA row.wordB).map UInt32.toNat = some slot then
        (b.near window.toNat).countP fun place => b.pairAt place = row.words
      else 0))
  lookup_eq : ∀ (p : WordPair) slot, e.lookupPair p.first p.second = some slot →
    e'.lookupPair p.first p.second = some slot
  used_eq : e'.store.tally.pairs.used = e.store.tally.pairs.used
    + (e.store.tally.pairs.newPairs ((b.near window.toNat).map b.pairAt)).length
  /-- New pairs take the next slots, in the order of the first places where they stand. -/
  new_row : ∀ (n : ℕ) p,
    (e.store.tally.pairs.newPairs ((b.near window.toNat).map b.pairAt))[n]? = some p →
    ∃ slot, e'.lookupPair p.first p.second = some slot
      ∧ slot.toNat = e.store.tally.pairs.used + n
      ∧ e'.store.tally.pairs.liveRows[slot.toNat]? = some (PairRow.observed
        ((b.near window.toNat).countP fun place => b.pairAt place = p)
        ⟨0, 0, p.first, p.second, 0⟩)
  rest : e'.config = e.config ∧ e'.store.sections = e.store.sections
    ∧ e'.store.similarity = e.store.similarity
    ∧ e'.store.tally.words.allocator = e.store.tally.words.allocator
    ∧ e'.store.tally.words.index = e.store.tally.words.index

theorem countsBatch_of_perform {e e' : Engine α} {b : Sentences} {window : UInt32}
    {report : CountReport}
    (hpairs : PairPool.Coherent (fun _ => True) e.store.tally.pairs)
    (hwords : e.store.tally.words.capacity ≤ maxPoolCapacity.toNat)
    (h : perform (.countSentences b window) e = .ok (.counted report) e') :
    e.CountsBatch b window report e' := by
  obtain ⟨_, hrun, heq⟩ := map_eq_ok_iff.mp h
  cases heq
  obtain ⟨hbatch, s, hcount, hreport, rfl⟩ := countSentences_eq_ok hrun
  obtain ⟨hevents, hobserved⟩ := Tally.observed_of_countSentences hpairs hwords hbatch hcount
  have hplaces (p : WordPair) : ((b.near window.toNat).map b.pairAt).count p
      = (b.near window.toNat).countP fun place => b.pairAt place = p := by
    rw [List.count, List.countP_map]
    rfl
  constructor
  case events_eq => rw [hevents, Sentences.length_near]
  case report_eq => exact hreport
  case total_eq => rw [hevents, ← List.length_map b.pairAt, hobserved.total_eq]
  case count_eq =>
    intro p
    rw [← hplaces, hobserved.countOf_eq hpairs]
  case word_eq =>
    intro word
    rw [← b.sum_ends, hobserved.words_eq, Tally.row?_spread]
  case row_eq =>
    intro slot row hrow
    rw [← hplaces]
    exact hobserved.row_of_old hpairs hrow
  case lookup_eq =>
    intro p slot hslot
    rw [lookupPair, p.of_first_second] at hslot ⊢
    exact hobserved.lookup_of_found hpairs hslot
  case used_eq =>
    rw [hobserved.visited.used_eq, hobserved.newKeys_eq hpairs, List.length_map]
  case new_row =>
    intro n p hp
    rw [← hplaces, lookupPair, p.of_first_second]
    exact hobserved.row_of_new hpairs hp
  case rest =>
    obtain ⟨-, hallocator, hindex⟩ :=
      Tally.spread_rest ((b.near window.toNat).map b.pairAt) e.store.tally.words
    rw [← hobserved.words_eq] at hallocator hindex
    exact ⟨rfl, rfl, rfl, hallocator, hindex⟩

/-- **Counting a batch counts the pairs that stand close together.** After every run in which
folding pairs is directly followed by rebuilding their index, failed calls among them, counting a
batch that is accepted adds one to the pair of words of every place where two positions of one
sentence are at most `window` apart, to both of its words and to the total. Pairs that stand
somewhere are marked as out of date, and new ones take the next slots in the order in which they
first stand somewhere. Nothing else changes. -/
theorem windows_counted {config : Config} {e e' : Engine α} (he : ofConfig config = .ok e)
    {calls : List (Call α)} (hfolds : Call.FoldsFollowed calls) {b : Sentences} {window : UInt32}
    {report : CountReport}
    (h : perform (.countSentences b window) (run calls e) = .ok (.counted report) e') :
    (run calls e).CountsBatch b window report e' := by
  have hpairs := coherent_of_ofConfig (P := fun _ => True) (fun _ _ => trivial) he hfolds
    fun call _ => Call.asksForPairsOf_of_forall (fun _ => trivial) call
  have hwords := wordsNumbered_run (wordsNumbered_of_ofConfig he) calls
  exact countsBatch_of_perform hpairs hwords.2.capacity_le h

/-- A batch with empty sentences and repeated words, and a pair that a fold moved. -/
theorem windows_counted_moved :
    let calls : List (Call ℚ) := [.pairSlots [3] [1], .countPairs [0],
      .assignClasses ⟨[(3, 2)], by decide⟩, .fold]
    let b : Sentences := ⟨#[1, 2, 1, 1, 2], #[0, 0, 4, 4], #[0, 4, 0, 1], by decide⟩
    ∃ e e' : Engine ℚ, ofConfig .tiny = .ok e
      ∧ perform (.countSentences b 2) (run calls e) = .ok (.counted ⟨5, 6, 2⟩) e'
      ∧ (run calls e).store.tally.pairs.liveRows = [⟨1, 0, 1, 2, 1⟩]
      ∧ e'.store.tally.pairs.liveRows = [⟨4, 0, 1, 2, 1⟩, ⟨2, 0, 1, 1, 1⟩]
      ∧ (run calls e).CountsBatch b 2 ⟨5, 6, 2⟩ e' := by
  intro calls b
  obtain ⟨e, he, hreport, hbefore, hafter⟩ :=
    exists_ofConfig_of_mem .tiny (P := fun e : Engine ℚ =>
      (outcome (countSentences b 2) (run calls e)).1.toOption = some ⟨5, 6, 2⟩
        ∧ (run calls e).store.tally.pairs.liveRows = [⟨1, 0, 1, 2, 1⟩]
        ∧ (outcome (countSentences b 2) (run calls e)).2.store.tally.pairs.liveRows
          = [⟨4, 0, 1, 2, 1⟩, ⟨2, 0, 1, 1, 1⟩]) (by decide +kernel)
  have hrun : perform (.countSentences b 2) (run calls e) = _ :=
    map_eq_ok_of_toOption Answer.counted hreport
  refine ⟨e, _, he, hrun, hbefore, hafter, ?_⟩
  exact windows_counted he (by simp [calls, Call.FoldsFollowed]) hrun

/-! ### Exact counts -/

section Exact

variable {β : Type} [Field β] [LinearOrder β] [FloorSemiring β] [RootLog β] {e e' : Engine β}
  {b : Sentences} {window : UInt32} {report : CountReport}

/-- Where counts are exact, that of a pair grows by the number of places where its words stand. -/
theorem CountsBatch.countOf_eq_add (h : e.CountsBatch b window report e') (p : WordPair) :
    e'.store.tally.pairs.countOf p = e.store.tally.pairs.countOf p
      + ((b.near window.toNat).countP fun place => b.pairAt place = p : ℕ) := by
  rw [h.count_eq, addOnes_eq_add]

/-- That of a word grows by the number of places where it stands first or second. -/
theorem CountsBatch.row?_eq_add (h : e.CountsBatch b window report e') {word : UInt32}
    {row : WordRow β} (hrow : e.store.tally.words.row? word.toNat = some row) :
    e'.store.tally.words.row? word.toNat = some { row with
      count := row.count
        + ((b.near window.toNat).countP fun place => b.wordAt place.1 place.2.1 = word : ℕ)
        + ((b.near window.toNat).countP fun place => b.wordAt place.1 place.2.2 = word : ℕ) } := by
  rw [h.word_eq, hrow, Option.map_some, WordRow.gained, addOnes_eq_add, Nat.cast_add, add_assoc]

end Exact

end Engine

end CorpusStats
