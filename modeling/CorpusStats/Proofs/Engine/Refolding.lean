import CorpusStats.Proofs.Engine.Logs
import CorpusStats.Proofs.Engine.Room
import CorpusStats.Proofs.Tally.Refolding
/-!
# CorpusStats.Proofs.Engine.Refolding

Folding is idempotent wherever taking classes is.

What a fold leaves is a state of its own (`Store.Folded`): the words of pairs with a count and of
sections are their own classes, and the index of pairs has been rebuilt. Every fold ends in such a
state if the class of a class is the class itself (`Store.exists_fold_folded`), and a fold that
starts in one changes nothing but the log (`Store.Folded.fold_eq`). For engines that a host can
reach, this is `Engine.fold_fold`.
-/

namespace CorpusStats

open Stage

variable {α : Type}

/-- The class of every class is the class itself. -/
def WordPool.ClassesSettled (words : WordPool α) : Prop :=
  ∀ word, WordPool.classOf words (WordPool.classOf words word) = WordPool.classOf words word

/-- Only the words of the arena have to be asked. -/
theorem WordPool.classesSettled_iff {words : WordPool α} : ClassesSettled words ↔
    ∀ slot < words.rows.size, classOf words (classOf words slot.toUInt32)
      = classOf words slot.toUInt32 := by
  refine ⟨fun h slot _ => h slot.toUInt32, fun h word => ?_⟩
  by_cases hword : word.toNat < words.rows.size
  · have hsettled := h word.toNat hword
    rwa [Nat.toUInt32_eq, UInt32.ofNat_toNat] at hsettled
  · have hclass : classOf words word = word := by
      rw [classOf, Pool.row?, Array.getElem?_eq_none (not_lt.mp hword)]
    rw [hclass, hclass]

instance (words : WordPool α) : Decidable (WordPool.ClassesSettled words) :=
  decidable_of_iff _ WordPool.classesSettled_iff.symm

variable [Weight α]

/-- There is nothing left to fold. -/
structure Store.Folded (s : Store α) : Prop where
  pairs : ∀ row ∈ s.tally.pairs.liveRows, row.moved? s.tally.words = none
  sections : ∀ row ∈ s.sections.liveRows, WordPool.classOf s.tally.words row.word = row.word
  /-- The index of pairs was rebuilt, from rows that had room. -/
  rebuilt : ∃ start : PairPool α, start.Intact ∧ PairPool.Filed start start.used s.tally.pairs

namespace Store

variable [ComparesWithZero α] {s : Store α}

/-- A fold of what is folded changes nothing but the log. -/
theorem Folded.fold_eq (h : s.Folded) : ∃ log, fold s = .ok {} (s.putLog log) := by
  obtain ⟨start, hintact, hfiled⟩ := h.rebuilt
  have hpairs := Tally.foldPairs_of_fixed (s := ⟨s.tally, s.log⟩) h.pairs
  have hindex : Tally.reindexPairs (Tally.foldPairs ⟨s.tally, s.log⟩).2 = .ok 0
      ⟨s.tally, (s.log.start s.tally.pairs.used).start s.tally.pairs.used⟩ := by
    rw [hpairs]
    exact Tally.reindexPairs_of_filed hfiled hintact.capacity_le hintact.capacity_le_index
  rw [fold_of_reindexPairs hindex, hpairs, SectionPool.foldWords_of_fixed h.sections]
  exact ⟨_, rfl⟩

/-- A fold answers, and leaves nothing to fold. -/
theorem exists_fold_folded (hpairs : s.tally.pairs.Intact)
    (hclasses : WordPool.ClassesSettled s.tally.words) :
    ∃ report s', fold s = .ok report s' ∧ s'.Folded := by
  let folded := (Tally.foldPairs ⟨s.tally, s.log⟩).2
  obtain ⟨pairs, hstate, hmapped⟩ := Tally.exists_mapped_foldPairs ⟨s.tally, s.log⟩
  have hwords : folded.state.words = s.tally.words := congrArg (·.words) hstate
  have hrows : folded.state.pairs = pairs := congrArg (·.pairs) hstate
  have hintact : folded.state.pairs.Intact := Tally.intact_foldPairs hpairs
  obtain ⟨merged, l, hrun, hkept, -, -, hfiled, -⟩ :=
    Tally.exists_filed (s := folded) hintact.capacity_le hintact.capacity_le_index
  rw [hwords] at hkept
  refine ⟨_, _, fold_of_reindexPairs hrun, ⟨?_, ?_, _, hintact, hfiled⟩⟩
  · intro row hrow
    obtain ⟨slot, hslot⟩ := List.mem_iff_getElem?.mp hrow
    rw [hfiled.liveRows_getElem?, hrows, hmapped.liveRows_eq, List.getElem?_map] at hslot
    obtain ⟨_, hold, rfl⟩ := Option.map_eq_some_iff.mp hslot
    obtain ⟨old, -, rfl⟩ := Option.map_eq_some_iff.mp hold
    dsimp only
    rw [hkept]
    exact PairRow.moved?_settle (PairRow.moved?_folded hclasses old)
  · intro row hrow
    rw [(SectionPool.mapped_foldWords l.state.words _).liveRows_eq] at hrow
    obtain ⟨old, -, rfl⟩ := List.mem_map.mp hrow
    dsimp only
    rw [hkept]
    exact hclasses old.word

end Store

namespace Engine

/-- Wherever the class of a class is the class itself, a fold answers, and folding a second time
reports that nothing changed and leaves the engine as it is, but for the log: pairs and sections
with whatever count, rows without count, the indexes slot by slot. -/
theorem fold_fold [ComparesWithZero α] {config : Config} {e : Engine α}
    (he : ofConfig config = .ok e) (calls : List (Call α))
    (hclasses : WordPool.ClassesSettled (run calls e).store.tally.words) :
    ∃ report e', perform .fold (run calls e) = .ok (.folded report) e'
      ∧ ∃ log, perform .fold e'
        = .ok (.folded { changed := 0, eliminated := 0, merged := 0, sections := 0 })
          (e'.putLog log) := by
  obtain ⟨report, s', hfold, hfolded⟩ := Store.exists_fold_folded (intact_run he calls) hclasses
  obtain ⟨log, hagain⟩ := hfolded.fold_eq
  exact ⟨report, _, map_eq_ok_iff.mpr ⟨report, onStore_eq_ok_iff.mpr ⟨s', hfold, rfl⟩, rfl⟩,
    log, map_eq_ok_iff.mpr ⟨{}, onStore_eq_ok_iff.mpr ⟨_, hagain, rfl⟩, rfl⟩⟩

/-- The first fold merges a pair into one whose count compares with nothing, and eliminates another.
A pair without count keeps a word that has moved. -/
theorem fold_fold_nan :
    let calls : List (Call NanRat) := [.pairSlots [0, 0, 1, 9] [2, 1, 2, 2],
      .loadPairs [0, 1, 2, 3] [.nan, .number 2, .number 1, .number (-1)],
      .sectionSlots [2, 9] [5, 5], .assignClasses ⟨[(2, 1)], by decide⟩]
    ∃ e e' : Engine NanRat, ofConfig .tiny = .ok e
      ∧ WordPool.ClassesSettled (run calls e).store.tally.words
      ∧ perform .fold (run calls e) = .ok (.folded ⟨2, 1, 1, 1⟩) e'
      ∧ (e'.store.tally.pairs.liveRows.map fun row => (row.words, row.count))
        = [(.of 0 1, .nan), (.of 0 1, 0), (.of 1 1, 0), (.of 2 9, .number (-1))]
      ∧ ∃ log, perform .fold e' = .ok (.folded ⟨0, 0, 0, 0⟩) (e'.putLog log) := by
  intro calls
  obtain ⟨e, he, hclasses, hreport, hrows⟩ := exists_ofConfig_of_mem .tiny
    (P := fun e : Engine NanRat => WordPool.ClassesSettled (run calls e).store.tally.words
      ∧ (outcome fold (run calls e)).1.toOption = some ⟨2, 1, 1, 1⟩
      ∧ ((outcome fold (run calls e)).2.store.tally.pairs.liveRows.map
          fun row => (row.words, row.count))
        = [(.of 0 1, .nan), (.of 0 1, 0), (.of 1 1, 0), (.of 2 9, .number (-1))])
    (by decide +kernel)
  have hfold : perform .fold (run calls e) = _ := map_eq_ok_of_toOption Answer.folded hreport
  obtain ⟨report, e', hfold', hagain⟩ := fold_fold he calls hclasses
  rw [hfold] at hfold'
  cases hfold'
  exact ⟨e, _, he, hclasses, hfold, hrows, hagain⟩

end Engine

end CorpusStats
