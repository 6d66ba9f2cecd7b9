import CorpusStats.Proofs.Key
import CorpusStats.Proofs.Pool
import CorpusStats.Tally.Folding
import CorpusStats.Tally.Score
/-!
# CorpusStats.Proofs.Tally.Sweeps

The stages of a tally that go over all pairs, whatever the weights are: a sweep changes every
row once, rebuilding the index is one pass over the rows, and so is recomputing the books.
-/

namespace CorpusStats

variable {α : Type} [Weight α]

namespace Tally

omit [Weight α] in
/-- A sweep over the pairs changes their rows, and leaves the words and the total. -/
theorem state_sweep_pairs (s : Logged (Tally α)) (f : WordPool α → PairRow α → PairRow α) :
    (sweep (List.range s.state.pairs.used) (fun (⟨words, pairs, total⟩ : Tally α) slot =>
        ⟨words, pairs.modify slot (f words), total⟩) s).state
      = ⟨s.state.words, (List.range s.state.pairs.used).foldl
          (fun pairs slot => pairs.modify slot (f s.state.words)) s.state.pairs, s.state.total⟩ := by
  obtain ⟨⟨words, pairs, total⟩, log⟩ := s
  exact List.foldl_hom (fun pairs => (⟨words, pairs, total⟩ : Tally α)) fun _ _ => rfl

theorem exists_mapped_sweep (s : Logged (Tally α)) (f : WordPool α → PairRow α → PairRow α) :
    ∃ pairs', (sweep (List.range s.state.pairs.used) (fun (⟨words, pairs, total⟩ : Tally α) slot =>
        ⟨words, pairs.modify slot (f words), total⟩) s).state
          = ⟨s.state.words, pairs', s.state.total⟩
      ∧ Pool.Mapped s.state.pairs pairs' (f s.state.words) :=
  ⟨_, state_sweep_pairs s f, s.state.pairs.mapped_foldl_modify (f s.state.words)⟩

theorem exists_mapped_foldPairs (s : Logged (Tally α)) :
    ∃ pairs', (foldPairs s).2.state = ⟨s.state.words, pairs', s.state.total⟩
      ∧ Pool.Mapped s.state.pairs pairs' (PairRow.folded s.state.words) :=
  exists_mapped_sweep s PairRow.folded

/-- Scoring changes the rows of the pairs, in all but their counts and words. -/
theorem exists_mapped_score (mode : ScoreMode) (n : α) (s : Logged (Tally α)) :
    ∃ pairs' f, (score mode n s).2.state = ⟨s.state.words, pairs', s.state.total⟩
      ∧ Pool.Mapped s.state.pairs pairs' f ∧ (∀ row, (f row).count = row.count)
      ∧ ∀ row, (f row).wordA = row.wordA ∧ (f row).wordB = row.wordB := by
  cases mode with
  | all =>
    obtain ⟨pairs', hstate, hmapped⟩ := exists_mapped_sweep s fun words => PairRow.rescore words n
    exact ⟨pairs', _, hstate, hmapped, fun _ => rfl, fun _ => ⟨rfl, rfl⟩⟩
  | dirty =>
    obtain ⟨pairs', hstate, hmapped⟩ := exists_mapped_sweep s fun words => PairRow.refresh words n
    refine ⟨pairs', _, hstate, hmapped, fun row => ?_, fun row => ?_⟩
    · unfold PairRow.refresh
      split <;> rfl
    · unfold PairRow.refresh
      split <;> exact ⟨rfl, rfl⟩

/-- Rebuilding the index is one pass over the pairs with the index cleared. -/
theorem reindexPairs_eq (s : Logged (Tally α)) :
    reindexPairs s = ((do
      let merged ← dispatch (List.range s.state.pairs.used) fun slot => onPairs (reindexPair slot)
      return merged.countP id) : Stage (Logged (Tally α)) ℕ)
      ⟨⟨s.state.words, s.state.pairs.clearIndex, s.state.total⟩, s.log⟩ := rfl

theorem reindexPairs_eq_ok_iff {s s' : Logged (Tally α)} {n : ℕ} :
    reindexPairs s = .ok n s' ↔ ∃ merged,
      dispatch (List.range s.state.pairs.used) (fun slot => onPairs (reindexPair slot))
        ⟨⟨s.state.words, s.state.pairs.clearIndex, s.state.total⟩, s.log⟩ = .ok merged s'
      ∧ n = merged.countP id := by
  rw [reindexPairs_eq, Stage.bind_eq_ok_iff]
  constructor
  · intro h
    obtain ⟨merged, s₁, hdispatch, hpure⟩ := h
    cases hpure
    exact ⟨merged, hdispatch, rfl⟩
  · intro h
    obtain ⟨merged, hdispatch, rfl⟩ := h
    exact ⟨merged, s', hdispatch, rfl⟩

/-- Everything that entering a pair in the index can do: pass over a pair without count, give
the pair its key, or hand its count to the pair that has the key. It fails only if the index has
no room. -/
theorem reindexPair_cases {pairs : PairPool α} (hsound : pairs.index.Sound) {slot : ℕ}
    {row : PairRow α} (hrow : pairs.row? slot = some row)
    (howner : ∀ owner, pairs.index.raw? row.words.key = some owner →
      owner.toNat < maxPoolCapacity.toNat) :
    (row.isSpent = true ∧ reindexPair slot pairs = .ok false pairs)
      ∨ row.isSpent = false
        ∧ ((∃ index, pairs.index.raw? row.words.key = none
            ∧ Index.Written pairs.index index row.words.key (some slot.toUInt32)
            ∧ index.vacancies + 1 = pairs.index.vacancies
            ∧ reindexPair slot pairs
              = .ok false ⟨pairs.name, pairs.rows, pairs.allocator, index, pairs.rows_size⟩)
          ∨ (∃ owner, pairs.index.raw? row.words.key = some owner
            ∧ reindexPair slot pairs = .ok true (merge slot owner.toNat row.count pairs))
          ∨ (pairs.index.vacancies = 0
            ∧ reindexPair slot pairs = .error pairs.index.overflow pairs)) := by
  have hkey := WordPair.storable_key row.words
  simp only [reindexPair, hrow]
  by_cases hspent : row.isSpent = true
  · exact .inl ⟨hspent, by rw [if_pos hspent]⟩
  · refine .inr ⟨Bool.not_eq_true _ ▸ hspent, ?_⟩
    simp only [if_neg hspent]
    cases hraw : pairs.index.raw? row.words.key with
    | none =>
      rcases hsound.findOrCreate_of_none (hkey.symm ▸ hraw) (.ok slot.toUInt32) with
        ⟨hzero, hfull⟩ | ⟨index, hw, hvacancies, hok⟩
      · exact .inr (.inr ⟨hzero, by simp only [Pool.onIndex, hfull]⟩)
      · rw [hkey] at hw
        exact .inl ⟨index, rfl, hw, hvacancies, by simp only [Pool.onIndex, hok]⟩
    | some owner =>
      -- what the index finds is a slot, so it is neither unset nor exhausted
      obtain ⟨hunset, hexhausted⟩ := Index.not_reserved (howner owner hraw)
      have hfind := hsound.findOrCreate_of_some (hkey.symm ▸ hraw) (.ok slot.toUInt32)
      rw [if_neg hunset, if_neg hexhausted] at hfind
      exact .inr (.inl ⟨owner, rfl, by simp only [Pool.onIndex, hfind]⟩)

/-- Everything that adding a pair to the marginal counts can do: it is passed over for its count,
its ends are counted, or they are refused. -/
theorem spreadCount_cases (slot : ℕ) (t : Tally α) :
    ((∀ row, t.pairs.row? slot = some row → row.isSpent = true) ∧ spreadCount slot t = .ok none t)
      ∨ ∃ row, t.pairs.row? slot = some row ∧ row.isSpent = false
        ∧ ((∃ ends, endsOf t.words t.pairs slot = .ok ends ∧ spreadCount slot t
            = .ok (some row.count) { t with words := addToEnds row.count ends t.words })
          ∨ ∃ e, endsOf t.words t.pairs slot = .error e ∧ spreadCount slot t = .error e t) := by
  obtain ⟨words, pairs, total⟩ := t
  unfold spreadCount
  dsimp only
  cases hrow : pairs.row? slot with
  | none => exact .inl ⟨fun _ => by rintro ⟨⟩, rfl⟩
  | some row =>
    dsimp only
    cases hspent : row.isSpent with
    | true => exact .inl ⟨fun row' hrow' => Option.some.inj hrow' ▸ hspent, rfl⟩
    | false =>
      refine .inr ⟨row, rfl, hspent, ?_⟩
      cases endsOf words pairs slot with
      | ok ends => exact .inl ⟨ends, rfl, rfl⟩
      | error e => exact .inr ⟨e, rfl, rfl⟩

/-! ### Recomputing the books -/

/-- The sum of the counts that were answered. -/
def countSum (counts : List (Option α)) : α := (counts.filterMap id).foldl (· + ·) 0

theorem countSum_concat_none (counts : List (Option α)) :
    countSum (counts ++ [none]) = countSum counts := by
  simp [countSum]

theorem countSum_concat_some (counts : List (Option α)) (count : α) :
    countSum (counts ++ [some count]) = countSum counts + count := by
  simp [countSum]

def clearCounts (t : Tally α) : Tally α :=
  (List.range t.words.capacity).foldl (fun ⟨words, pairs, total⟩ id =>
    ⟨words.modify id fun row => { row with count := 0 }, pairs, total⟩) t

/-- What has the pairs and the arena of another tally. -/
structure SameEnds (t₀ t : Tally α) : Prop where
  pairs_eq : t.pairs = t₀.pairs
  name_eq : t.words.name = t₀.words.name
  capacity_eq : t.words.capacity = t₀.words.capacity

theorem sameEnds_clearCounts (t : Tally α) : SameEnds t t.clearCounts := by
  refine foldl_range_induction (P := fun _ t' => SameEnds t t') ⟨rfl, rfl, rfl⟩ fun _ t' _ h => ?_
  obtain ⟨words, pairs, total⟩ := t'
  exact ⟨h.pairs_eq, h.name_eq, h.capacity_eq⟩

/-- Recomputing the books is one pass over the pairs with the marginal counts cleared. -/
theorem rebuildTotals_eq (s : Logged (Tally α)) :
    rebuildTotals s =
      match dispatch (List.range s.state.pairs.used) spreadCount
        ⟨s.state.clearCounts, s.log.start (List.range s.state.words.capacity).length⟩ with
      | .ok counts s' => .ok (Weight.toTotal (countSum counts))
          ⟨⟨s'.state.words, s'.state.pairs, Weight.toTotal (countSum counts)⟩, s'.log⟩
      | .error e s' => .error e s' := by
  rw [← s.state.sameEnds_clearCounts.pairs_eq]
  have hrun : rebuildTotals s = ((do
      let counts ← dispatch (List.range s.state.clearCounts.pairs.used) spreadCount
      return countSum counts) >>= fun mass => (do
        modify fun s' => ⟨⟨s'.state.words, s'.state.pairs, Weight.toTotal mass⟩, s'.log⟩
        return Weight.toTotal mass) : Stage (Logged (Tally α)) UInt64)
      ⟨s.state.clearCounts, s.log.start (List.range s.state.words.capacity).length⟩ := rfl
  rw [hrun]
  simp only [bind, EStateM.bind]
  cases dispatch (List.range s.state.clearCounts.pairs.used) spreadCount
    ⟨s.state.clearCounts, s.log.start (List.range s.state.words.capacity).length⟩ <;> rfl

end Tally

end CorpusStats
