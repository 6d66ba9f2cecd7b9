import CorpusStats.Proofs.Tally.Indexed
import CorpusStats.Proofs.Tally.Totals
/-!
# CorpusStats.Proofs.Tally.Tracks

A tally **tracks** a map of pairs (`Tally.Tracks`): its rows with a count are the pairs of the
map with their counts, its index finds exactly these rows, and its words have the classes of
the map.

Counting an occurrence either finds the row of its pair or opens a new one; rows that were
folded away are not found again (`Tracks.observeWords`). Scores and marginal counts are no
part of the map, so stages that write only these keep what the tally tracks.
-/

namespace CorpusStats

variable {α : Type}

/-- The words of an arena have these classes, which are words of the arena too. -/
structure Classified (words : WordPool α) (cls : UInt32 → UInt32) : Prop where
  capacity_le : words.capacity ≤ maxPoolCapacity.toNat
  classOf_eq : ∀ word, WordPool.classOf words word = cls word
  /-- A class is a word of the arena. -/
  cls_lt : ∀ word, word.toNat < words.capacity → (cls word).toNat < words.capacity

namespace Classified

variable {words : WordPool α} {cls : UInt32 → UInt32}

theorem modify_of_eq (h : Classified words cls) (slot : ℕ) {f : WordRow α → WordRow α}
    (hf : ∀ row, (f row).classId = row.classId) : Classified (words.modify slot f) cls := by
  refine ⟨h.capacity_le, fun word => ?_, h.cls_lt⟩
  rw [← h.classOf_eq, WordPool.classOf, WordPool.classOf, Pool.row?_modify]
  by_cases hslot : slot = word.toNat
  · rw [if_pos hslot]
    cases words.row? word.toNat with
    | none => rfl
    | some row =>
      simp only [Option.map_some, hf]
  · rw [if_neg hslot]

theorem addToEnds [Weight α] (h : Classified words cls) (count : α) (ends : ℕ × ℕ) :
    Classified (Tally.addToEnds count ends words) cls := by
  have hfirst : Classified (words.modify ends.1 fun row => { row with count := row.count + count })
      cls := h.modify_of_eq ends.1 fun _ => rfl
  exact hfirst.modify_of_eq ends.2 fun _ => rfl

theorem of_blank [Weight α] (h : words.Blank) (hle : words.capacity ≤ maxPoolCapacity.toNat) :
    Classified words id := by
  refine ⟨hle, fun word => ?_, fun _ hword => hword⟩
  unfold WordPool.classOf
  split
  · rename_i row hrow
    rw [h.row_eq _ row hrow]
    rfl
  · rfl

theorem assign (h : Classified words cls) {word c : UInt32} (hword : word.toNat < words.capacity)
    (hc : c.toNat < words.capacity) :
    Classified (words.modify word.toNat fun row => { row with classId := c })
      (Function.update cls word c) := by
  -- the arena leaves the number free that stands for no class
  have hnot : c ≠ noClass := by
    rintro rfl
    have hle := h.capacity_le
    rw [show noClass.toNat = 2 ^ 32 - 1 from rfl] at hc
    rw [show maxPoolCapacity.toNat = 2 ^ 32 - 3 from rfl] at hle
    omega
  refine ⟨h.capacity_le, fun w => ?_, fun w hw => ?_⟩
  · rw [WordPool.classOf, Pool.row?_modify]
    by_cases heq : word = w
    · subst heq
      have hsize : word.toNat < words.rows.size := words.rows_size ▸ hword
      rw [if_pos rfl, Function.update_self, Pool.row?, Array.getElem?_eq_getElem hsize]
      exact if_neg hnot
    · rw [if_neg (fun hn => heq (UInt32.toNat_inj.mp hn)), Function.update_of_ne (Ne.symm heq)]
      exact h.classOf_eq w
  · by_cases heq : w = word
    · rw [heq, Function.update_self]
      exact hc
    · rw [Function.update_of_ne heq]
      exact h.cls_lt w hw

end Classified

variable [Field α] [LinearOrder α] [FloorSemiring α] [RootLog α]

namespace Tally

/-- The tally holds the pairs of a map with their counts, and its classes. -/
structure Tracks (t : Tally α) (m : PairMap) : Prop where
  classified : Classified t.words m.cls
  capacity_le : t.pairs.capacity ≤ maxPoolCapacity.toNat
  tidy : t.pairs.Tidy
  /-- Rows with a count have the words of a pair. -/
  proper : ∀ row ∈ t.pairs.liveRows, row.Proper t.words.capacity
  /-- The index finds exactly the rows with a count. -/
  indexed : Indexed t.pairs.index t.pairs.liveRows t.pairs.used
  mass_eq : pairMass t.pairs.liveRows = castCounts m.counts

variable {words words' : WordPool α} {pairs pairs' : PairPool α} {total total' : UInt64}
  {m : PairMap}

theorem tracks_of_blank (hwords : words.Blank) (hpairs : pairs.Blank)
    (hcapacity : words.capacity ≤ maxPoolCapacity.toNat)
    (hcapacity' : pairs.capacity ≤ maxPoolCapacity.toNat) :
    Tracks ⟨words, pairs, total⟩ .empty := by
  have hrows := hpairs.liveRows_eq
  refine ⟨.of_blank hwords hcapacity, hcapacity', hpairs.tidy, ?_, ?_, ?_⟩
  · simp [hrows]
  · show Indexed pairs.index pairs.liveRows pairs.used
    rw [hpairs.used_eq]
    exact .of_raw?_eq_none hpairs.sound hpairs.raw?_eq _
  · simp [hrows, pairMass, PairMap.empty]

theorem Tracks.reset {t : Tally α} (h : t.Tracks m) : t.reset.Tracks .empty :=
  tracks_of_blank t.words.blank_reset t.pairs.blank_reset h.classified.capacity_le h.capacity_le

/-- The words may change in all but their classes. -/
theorem Tracks.congr_words (h : Tracks ⟨words, pairs, total⟩ m) {cls : UInt32 → UInt32}
    (hwords : Classified words' cls) (hcapacity : words'.capacity = words.capacity) :
    Tracks ⟨words', pairs, total'⟩ { m with cls } := by
  refine ⟨hwords, h.capacity_le, h.tidy, fun row hmem => ?_, h.indexed, h.mass_eq⟩
  show row.Proper words'.capacity
  rw [hcapacity]
  exact h.proper row hmem

/-- Rows may change in all but their counts and words. -/
theorem Tracks.map_pairs (h : Tracks ⟨words, pairs, total⟩ m) {f : PairRow α → PairRow α}
    (hmapped : Pool.Mapped pairs pairs' f) (hcount : ∀ row, (f row).count = row.count)
    (hends : ∀ row, (f row).wordA = row.wordA ∧ (f row).wordB = row.wordB) :
    Tracks ⟨words, pairs', total⟩ m := by
  have hwords row : (f row).words = row.words := by
    rw [PairRow.words, (hends row).1, (hends row).2, PairRow.words]
  obtain ⟨-, hcapacity, hused, hindex, hrows, htidy⟩ := hmapped
  refine ⟨h.classified, ?_, htidy h.tidy, fun row hmem => ?_, ?_, ?_⟩
  · show pairs'.capacity ≤ _
    rw [hcapacity]
    exact h.capacity_le
  · change row ∈ pairs'.liveRows at hmem
    rw [hrows] at hmem
    obtain ⟨old, hold, rfl⟩ := List.mem_map.mp hmem
    obtain ⟨k, hk, hbounds⟩ := h.proper old hold
    refine ⟨k, by rw [hcount, hk], fun hne => ?_⟩
    rw [(hends old).1, (hends old).2]
    exact hbounds (hcount old ▸ hne)
  · show Indexed pairs'.index pairs'.liveRows pairs'.used
    rw [hindex, hrows, hused]
    refine h.indexed.congr_rows (List.length_map _) fun slot row row' _ hrow hrow' => ?_
    rw [List.getElem?_map, hrow] at hrow'
    cases hrow'
    exact ⟨congrArg WordPair.key (hwords row), by rw [hcount]⟩
  · show pairMass pairs'.liveRows = _
    rw [← h.mass_eq, hrows, pairMass, pairMass, List.map_map]
    congr 1
    refine List.map_congr_left fun row _ => ?_
    rw [Function.comp_apply, hwords, hcount]

omit [LinearOrder α] [FloorSemiring α] [RootLog α] in
theorem castCounts_observe_single (m : PairMap) (p : WordPair) :
    (castCounts (m.observe [p]).counts : WordPair →₀ α)
      = castCounts m.counts + Finsupp.single p 1 := by
  simp [PairMap.observe, castCounts_single]

variable [IsStrictOrderedRing α]

omit [RootLog α] in
theorem countOnce_ne_zero {n : ℕ} {row : PairRow α} (h : row.Proper n) :
    row.count + 1 ≠ 0 := by
  obtain ⟨k, hk, -⟩ := h
  rw [hk]
  positivity

/-- An occurrence of a pair that has a row. -/
theorem Tracks.count_old (h : Tracks ⟨words, pairs, total⟩ m) (hwords : Classified words' m.cls)
    (hcapacity : words'.capacity = words.capacity) {slot : ℕ} {row : PairRow α}
    (hrow : pairs.liveRows[slot]? = some row) (hcount : row.count ≠ 0) :
    Tracks ⟨words', pairs.modify slot countOnce, total'⟩ (m.observe [row.words]) := by
  obtain ⟨-, hle, htidy, hproper, hindexed, hmass⟩ := h
  have hslot : slot < pairs.used := Pool.lt_used_of_liveRows hrow
  refine ⟨hwords, hle, Pool.tidy_modify htidy hslot _, fun row' hmem => ?_, ?_, ?_⟩
  · show row'.Proper words'.capacity
    rw [hcapacity]
    rw [Pool.liveRows_modify] at hmem
    rcases mem_modify_cases hmem with hold | ⟨old, hold, rfl⟩
    · exact hproper row' hold
    · rw [hrow] at hold
      cases hold
      obtain ⟨k, hk, hends⟩ := hproper row (List.mem_of_getElem? hrow)
      exact ⟨k + 1, by simp [countOnce, PairRow.markDirty, hk], fun _ => hends hcount⟩
  · show Indexed pairs.index (pairs.modify slot countOnce).liveRows pairs.used
    rw [Pool.liveRows_modify]
    refine hindexed.congr_rows (List.length_modify _ _ _) fun i old new _ hold hnew => ?_
    rw [List.getElem?_modify, hold] at hnew
    cases hnew
    dsimp only
    by_cases hi : slot = i
    · subst hi
      rw [hrow] at hold
      cases hold
      rw [if_pos rfl]
      refine ⟨rfl, iff_of_true ?_ hcount⟩
      exact countOnce_ne_zero (hproper row (List.mem_of_getElem? hrow))
    · rw [if_neg hi]
      exact ⟨rfl, Iff.rfl⟩
  · show pairMass (pairs.modify slot countOnce).liveRows = _
    rw [Pool.liveRows_modify, castCounts_observe_single, ← hmass]
    have hsum := pairMass_modify pairs.liveRows hrow countOnce
    rw [show (countOnce row).words = row.words from rfl,
      show (countOnce row).count = row.count + 1 from rfl, Finsupp.single_add, ← add_assoc,
      add_right_comm] at hsum
    exact add_right_cancel hsum

omit [IsStrictOrderedRing α] in
/-- The first occurrence of a pair that has no row. -/
theorem Tracks.count_new (h : Tracks ⟨words, pairs, total⟩ m) (hwords : Classified words' m.cls)
    (hcapacity : words'.capacity = words.capacity) {p : WordPair}
    (hp : p.second.toNat < words.capacity) (hraw : pairs.index.raw? p.key = none)
    (hroom : pairs.used < pairs.capacity)
    (hcreated : Pool.Created pairs pairs' p.key fun row =>
      { row with wordA := p.first, wordB := p.second }) :
    Tracks ⟨words', pairs'.modify pairs.used countOnce, total'⟩ (m.observe [p]) := by
  obtain ⟨-, hle, htidy, hproper, hindexed, hmass⟩ := h
  have hused : pairs'.used = pairs.used + 1 := hcreated.used_eq
  have hrows : (pairs'.modify pairs.used countOnce).liveRows
      = pairs.liveRows ++ [countOnce ⟨0, 0, p.first, p.second, 0⟩] := by
    rw [Pool.liveRows_modify, hcreated.liveRows_eq, ← Pool.length_liveRows, modify_concat_length]
    rfl
  have hnewWords : (countOnce (α := α) ⟨0, 0, p.first, p.second, 0⟩).words = p := p.of_first_second
  have hnewCount : (countOnce (α := α) ⟨0, 0, p.first, p.second, 0⟩).count = 1 := zero_add 1
  have hslot : pairs.used.toUInt32.toNat = pairs.used :=
    Index.toNat_toUInt32 (hroom.trans_le hle)
  refine ⟨hwords, ?_, ?_, fun row hmem => ?_, ?_, ?_⟩
  · show pairs'.capacity ≤ _
    rw [hcreated.capacity_eq]
    exact hle
  · exact Pool.tidy_modify hcreated.tidy (by omega) _
  · show row.Proper words'.capacity
    rw [hcapacity]
    rw [hrows] at hmem
    rcases List.mem_append.mp hmem with hold | hnew
    · exact hproper row hold
    · rw [List.mem_singleton.mp hnew]
      exact ⟨1, by rw [hnewCount, Nat.cast_one], fun _ => ⟨p.first_le_second, hp⟩⟩
  · show Indexed pairs'.index (pairs'.modify pairs.used countOnce).liveRows pairs'.used
    rw [hrows, hused]
    have hlast : (pairs.liveRows ++ [countOnce (α := α) ⟨0, 0, p.first, p.second, 0⟩])[pairs.used]?
        = some (countOnce ⟨0, 0, p.first, p.second, 0⟩) := by
      rw [← Pool.length_liveRows, List.getElem?_concat_length]
    have hgrown := hindexed.append (countOnce (α := α) ⟨0, 0, p.first, p.second, 0⟩)
      (Pool.length_liveRows pairs).ge
    refine hgrown.enter hlast (by rw [hnewCount]; exact one_ne_zero) ?_ hslot ?_
    · rw [hnewWords]
      exact hraw
    · rw [hnewWords]
      exact WordPair.storable_key p ▸ hcreated.written
  · show pairMass (pairs'.modify pairs.used countOnce).liveRows = _
    rw [hrows, pairMass_concat, hnewWords, hnewCount, castCounts_observe_single]
    exact congrArg (· + Finsupp.single p 1) hmass

/-- An occurrence of two words is counted for their pair. -/
theorem Tracks.observeWords {t t' : Tally α} (h : t.Tracks m) {a b : UInt32}
    (ha : a.toNat < t.words.capacity) (hb : b.toNat < t.words.capacity)
    (hrun : Tally.observeWords a b t = .ok () t') :
    t'.Tracks (m.observe [.of a b]) ∧ t'.words.capacity = t.words.capacity := by
  obtain ⟨words, pairs, total⟩ := t
  have hsecond : (WordPair.of a b).second.toNat < words.capacity := by
    rcases WordPair.second_of a b with heq | heq
    · rw [heq]
      exact ha
    · rw [heq]
      exact hb
  have hkey : Key.storable (WordPair.of a b).key = (WordPair.of a b).key :=
    WordPair.storable_key _
  obtain ⟨⟨slot, created⟩, ⟨words₁, pairs₁, total₁⟩, hslot, hobserve⟩ :=
    Stage.bind_eq_ok_iff.mp hrun
  obtain ⟨ends, -, rfl⟩ := observe_eq_ok_iff.mp hobserve
  rcases Pool.findOrCreate_cases h.indexed.sound h.tidy (WordPair.of a b).key
      (fun row : PairRow α => { row with
        wordA := (WordPair.of a b).first, wordB := (WordPair.of a b).second }) with
    ⟨slot', hraw, -, -, hfind⟩ | ⟨pairs', hraw, hroom, hfind, hcreated⟩ | ⟨e, pairs', hfind, -⟩
  · simp only [onPairs, PairPool.slotOf, hfind] at hslot
    cases hslot
    rw [hkey] at hraw
    obtain ⟨-, row, hrow, hcount, hwordsKey⟩ := h.indexed.live _ slot hraw
    -- the key leads to a row with a count, and among those it stands for one pair
    have hpair : row.words = .of a b :=
      (h.proper row (List.mem_of_getElem? hrow)).words_eq_of_key_eq h.classified.capacity_le
        hcount hsecond hwordsKey
    rw [← hpair]
    exact ⟨h.count_old (h.classified.addToEnds 1 ends) rfl hrow hcount, rfl⟩
  · simp only [onPairs, PairPool.slotOf, hfind] at hslot
    cases hslot
    rw [hkey] at hraw
    rw [Index.toNat_toUInt32 (hroom.trans_le h.capacity_le)]
    exact ⟨h.count_new (h.classified.addToEnds 1 ends) rfl hsecond hraw hroom hcreated, rfl⟩
  · simp only [onPairs, PairPool.slotOf, hfind] at hslot
    cases hslot

/-! ### Batches -/

/-- A batch is counted for the pairs of its sentences, whichever locator is used. -/
theorem Tracks.countSentences {s s' : Logged (Tally α)} (h : s.state.Tracks m) {b : Sentences}
    {window : UInt32} {locator : Locator}
    (hbatch : ∀ word ∈ b.words, word.toNat < s.state.words.capacity) {n : ℕ}
    (hrun : Tally.countSentences b window locator s = .ok n s') :
    s'.state.Tracks (m.observe (b.windowPairs window.toNat)) := by
  have hall := countSentences_ok_induction (R := fun ps t =>
    t.Tracks (m.observe ps) ∧ t.words.capacity = s.state.words.capacity) ?_ ⟨by simpa using h, rfl⟩ hrun
  · exact hall.2.1
  · intro ps word partner t t' hword hpartner htracked hstep
    obtain ⟨htracks, hcapacity⟩ := htracked
    obtain ⟨htracks', hcapacity'⟩ := htracks.observeWords (hcapacity ▸ hbatch word hword)
      (hcapacity ▸ hbatch partner hpartner) hstep
    rw [PairMap.observe_append]
    exact ⟨htracks', hcapacity'.trans hcapacity⟩

/-! ### Classes, scores and totals -/

omit [IsStrictOrderedRing α] in
/-- Words join the classes that are written, in order. -/
theorem Tracks.assignClasses {s s' : Logged (Tally α)} (h : s.state.Tracks m) {classes : ClassMap}
    (hrun : Tally.assignClasses classes s = .ok () s') :
    s'.state.Tracks (m.assign classes.entries) := by
  obtain ⟨answers, s₁, hdispatch, hpure⟩ := Stage.bind_eq_ok_iff.mp hrun
  cases hpure
  obtain ⟨hloop, -⟩ := dispatch_eq_ok_iff.mp hdispatch
  refine mapM_ok_induction (P := fun done _ t => t.Tracks (m.assign done)) hloop h ?_
  intro done entry rest _ t _ t' _ htracks hstep
  obtain ⟨word, c⟩ := entry
  obtain ⟨words, pairs, total⟩ := t
  have hassign : (m.assign (done ++ [(word, c)]))
      = { m.assign done with cls := Function.update (m.assign done).cls word c } := by
    simp [PairMap.assign]
  rw [hassign]
  by_cases hword : word.toNat < words.capacity
  · by_cases hc : c.toNat < words.capacity
    · simp only [onWords, WordPool.assign, Pool.checkId, if_pos hword, if_pos hc, bind, Except.bind,
        pure, Except.pure] at hstep
      cases hstep
      exact htracks.congr_words (htracks.classified.assign hword hc) rfl
    · simp only [onWords, WordPool.assign, Pool.checkId, if_pos hword, if_neg hc, bind,
        Except.bind] at hstep
      cases hstep
  · simp only [onWords, WordPool.assign, Pool.checkId, if_neg hword, bind, Except.bind] at hstep
    cases hstep

omit [IsStrictOrderedRing α] in
theorem Tracks.score {s : Logged (Tally α)} (h : s.state.Tracks m) (mode : ScoreMode) (n : α) :
    (Tally.score mode n s).2.state.Tracks m := by
  obtain ⟨pairs', f, hstate, hmapped, hcount, hends⟩ := exists_mapped_score mode n s
  rw [hstate]
  exact h.map_pairs hmapped hcount hends

omit [IsStrictOrderedRing α] in
/-- Marginal counts and the total are no part of the map. -/
theorem Tracks.rebuildTotals {s s' : Logged (Tally α)} (h : s.state.Tracks m) {total : UInt64}
    (hrun : Tally.rebuildTotals s = .ok total s') : s'.state.Tracks m := by
  have hclear : s.state.clearCounts.Tracks m := by
    refine foldl_range_induction (P := fun _ (t : Tally α) => t.Tracks m) h ?_
    intro k t _ htracks
    obtain ⟨words, pairs, total⟩ := t
    exact htracks.congr_words (htracks.classified.modify_of_eq k fun _ => rfl) rfl
  -- a refused pair ends the pass, but only after other marginal counts were written
  have hspread (slot : ℕ) : Stage.Keeps (fun t : Tally α => t.Tracks m) (spreadCount slot) := by
    intro t htracks
    rcases spreadCount_cases slot t with
      ⟨-, hrun⟩ | ⟨row, -, -, ⟨ends, -, hrun⟩ | ⟨e, -, hrun⟩⟩
    · rwa [Stage.outcome_of_ok hrun]
    · rw [Stage.outcome_of_ok hrun]
      exact htracks.congr_words (htracks.classified.addToEnds _ ends) rfl
    · rwa [Stage.outcome_of_error hrun]
  rw [rebuildTotals_eq] at hrun
  split at hrun
  · rename_i counts s₁ hdispatch
    cases hrun
    have htracks := (Stage.Keeps.dispatch fun slot _ => hspread slot).ok hclear hdispatch
    exact htracks.congr_words htracks.classified rfl
  · cases hrun

end Tally

end CorpusStats
