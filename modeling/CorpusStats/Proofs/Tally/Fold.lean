import CorpusStats.Proofs.Tally.Tracks
/-!
# CorpusStats.Proofs.Tally.Fold

Folding words into classes, in place, is folding the map of pairs.

* **Rows**: `foldPairs` changes every row as folding changes its pair (`single_folded`), so
  the counts of pairs are those of the folded map at once, though one pair may be in several
  rows, and the index is out of date.
* **Index**: `reindexPairs` goes over the rows in order. After `k` rows the index is complete
  for these, none of their pairs has two rows with a count, and the counts of pairs have not
  changed (`Reindexed`): a merge moves a count between two rows of one pair.
* **Report**: every merge takes one row with a count away, so the number of merges is what is
  missing from the rows that moved or stayed to the pairs of the folded map.
-/

namespace CorpusStats

variable {α : Type} [Field α] [LinearOrder α] [FloorSemiring α] [RootLog α]

/-! ### Merging rows -/

/-- A row with another count on top of its own. -/
def PairRow.give (count : α) (row : PairRow α) : PairRow α :=
  { row with count := row.count + count }.markDirty

/-- The rows after row `k` gave its count to its owner. -/
def mergeRows (rows : List (PairRow α)) (k owner : ℕ) (count : α) : List (PairRow α) :=
  (rows.modify owner (PairRow.give count)).modify k PairRow.retire

section Merge

variable {rows : List (PairRow α)} {k owner n : ℕ} {row owned : PairRow α}

omit [RootLog α] in
theorem give_ne_zero (hproper : row.Proper n) (hproper' : owned.Proper n)
    (hcount' : owned.count ≠ 0) : (owned.give row.count).count ≠ 0 := by
  obtain ⟨i, hi, -⟩ := hproper
  obtain ⟨j, hj, -⟩ := hproper'
  show owned.count + row.count ≠ 0
  rw [hj, Nat.cast_ne_zero] at hcount'
  rw [hi, hj, ← Nat.cast_add, Nat.cast_ne_zero]
  omega

/-- A merge within one pair leaves the counts of pairs. -/
theorem pairMass_mergeRows (hrow : rows[k]? = some row) (howned : rows[owner]? = some owned)
    (howner : owner < k) (hwords : owned.words = row.words) :
    pairMass (mergeRows rows k owner row.count) = pairMass rows := by
  have hsum := sum_map_modify_modify howned hrow howner.ne (PairRow.give row.count) PairRow.retire
    fun row => Finsupp.single row.words row.count
  rw [show (owned.give row.count).words = row.words from hwords,
    show (owned.give row.count).count = owned.count + row.count from rfl,
    show row.retire.count = 0 from rfl, hwords, Finsupp.single_zero, add_zero,
    Finsupp.single_add] at hsum
  refine add_right_cancel (b := Finsupp.single row.words row.count) (add_right_cancel
    (b := Finsupp.single row.words owned.count) ?_)
  rw [pairMass, mergeRows, hsum, pairMass]
  abel

/-- A merge takes one row with a count away. -/
theorem liveSum_mergeRows (hproper : ∀ row ∈ rows, row.Proper n) (hrow : rows[k]? = some row)
    (howned : rows[owner]? = some owned) (howner : owner < k) (hcount : row.count ≠ 0)
    (hcount' : owned.count ≠ 0) :
    liveSum (fun _ => 1) (mergeRows rows k owner row.count) + 1
      = liveSum (fun _ => 1) rows := by
  have hgive := give_ne_zero (hproper row (List.mem_of_getElem? hrow))
    (hproper owned (List.mem_of_getElem? howned)) hcount'
  have hsum := sum_map_modify_modify howned hrow howner.ne (PairRow.give row.count) PairRow.retire
    fun row => if row.count = 0 then 0 else 1
  rw [if_neg hcount, if_neg hcount', if_pos (show row.retire.count = 0 from rfl),
    if_neg hgive] at hsum
  rw [liveSum, liveSum, mergeRows]
  omega

theorem proper_mergeRows (hproper : ∀ row ∈ rows, row.Proper n) (hrow : rows[k]? = some row)
    (howned : rows[owner]? = some owned) (hcount' : owned.count ≠ 0) :
    ∀ row' ∈ mergeRows rows k owner row.count, row'.Proper n := by
  intro row' hmem
  rcases mem_modify_cases hmem with hmem | ⟨old, -, rfl⟩
  · rcases mem_modify_cases hmem with hold | ⟨old, hold, rfl⟩
    · exact hproper row' hold
    · rw [howned] at hold
      cases hold
      obtain ⟨i, hi, -⟩ := hproper row (List.mem_of_getElem? hrow)
      obtain ⟨j, hj, hends⟩ := hproper owned (List.mem_of_getElem? howned)
      exact ⟨j + i, by simp [PairRow.give, PairRow.markDirty, hi, hj], fun _ => hends hcount'⟩
  · exact ⟨0, Nat.cast_zero.symm, fun hne => absurd rfl hne⟩

/-- After a merge the index is complete for one row more. -/
theorem Indexed.mergeRows {ix : Index} (h : Indexed ix rows k)
    (hproper : ∀ row ∈ rows, row.Proper n) (hrow : rows[k]? = some row)
    (howned : rows[owner]? = some owned) (howner : owner < k) (hcount' : owned.count ≠ 0) :
    Indexed ix (mergeRows rows k owner row.count) (k + 1) := by
  have hgive := give_ne_zero (hproper row (List.mem_of_getElem? hrow))
    (hproper owned (List.mem_of_getElem? howned)) hcount'
  have hretired : (CorpusStats.mergeRows rows k owner row.count)[k]? = some row.retire := by
    rw [CorpusStats.mergeRows, List.getElem?_modify_eq, List.getElem?_modify_ne _ _ howner.ne, hrow]
    rfl
  refine (h.congr_rows (by rw [CorpusStats.mergeRows, List.length_modify, List.length_modify])
    fun slot old new hslot hold hnew => ?_).skip hretired (not_not_intro rfl)
  rw [CorpusStats.mergeRows, List.getElem?_modify_ne _ _ hslot.ne'] at hnew
  by_cases heq : owner = slot
  · subst heq
    rw [howned] at hold
    cases hold
    rw [List.getElem?_modify_eq, howned] at hnew
    cases hnew
    exact ⟨rfl, iff_of_true hgive hcount'⟩
  · rw [List.getElem?_modify_ne _ _ heq, hold] at hnew
    cases hnew
    exact ⟨rfl, Iff.rfl⟩

end Merge

/-! ### Folding rows -/

variable [IsStrictOrderedRing α]

namespace PairRow

variable {words : WordPool α} {cls : UInt32 → UInt32} {row : PairRow α}

theorem Proper.isSpent_iff {n : ℕ} (h : row.Proper n) : row.isSpent = true ↔ row.count = 0 := by
  obtain ⟨k, hk, -⟩ := h
  rw [isSpent, decide_eq_true_iff, hk]
  constructor
  · intro hle
    exact le_antisymm hle k.cast_nonneg
  · intro hzero
    exact hzero.le

/-- A row moves if it has a count and its pair moves. -/
theorem Proper.moved?_eq (h : row.Proper words.capacity) (hc : Classified words cls) :
    row.moved? words
      = if row.count ≠ 0 ∧ row.words.Moves cls then some (row.words.relabel cls) else none := by
  rw [moved?, hc.classOf_eq, hc.classOf_eq]
  by_cases hcount : row.count = 0
  · rw [if_pos (.inl (h.isSpent_iff.mpr hcount)), if_neg fun hand => hand.1 hcount]
  · obtain ⟨hfirst, hsecond⟩ := h.words_eq hcount
    have hmoves : row.words.Moves cls
        ↔ ¬ (cls row.wordA = row.wordA ∧ cls row.wordB = row.wordB) := by
      rw [WordPair.Moves, hfirst, hsecond, not_and_or]
    by_cases hstay : cls row.wordA = row.wordA ∧ cls row.wordB = row.wordB
    · rw [if_pos (.inr hstay), if_neg fun hand => hmoves.mp hand.2 hstay]
    · rw [if_neg, if_pos ⟨hcount, hmoves.mpr hstay⟩, WordPair.relabel, hfirst, hsecond]
      intro hstays
      rcases hstays with hspent | hboth
      · exact hcount (h.isSpent_iff.mp hspent)
      · exact hstay hboth

theorem Proper.folded_cases (h : row.Proper words.capacity) (hc : Classified words cls) :
    ((row.count = 0 ∨ ¬ row.words.Moves cls) ∧ row.folded words = row)
      ∨ (row.count ≠ 0 ∧ row.words.Vanishes cls ∧ (row.folded words).count = 0)
      ∨ (row.count ≠ 0 ∧ row.words.Moves cls ∧ ¬ row.words.Vanishes cls
        ∧ (row.folded words).count = row.count
        ∧ (row.folded words).wordA = (row.words.relabel cls).first
        ∧ (row.folded words).wordB = (row.words.relabel cls).second) := by
  rw [folded, h.moved?_eq hc]
  by_cases hmoves : row.count ≠ 0 ∧ row.words.Moves cls
  · rw [if_pos hmoves]
    have hvanishes : (row.words.relabel cls).first = (row.words.relabel cls).second
        ↔ row.words.Vanishes cls := by
      rw [WordPair.vanishes_iff, and_iff_right hmoves.2]
    dsimp only
    by_cases heq : row.words.Vanishes cls
    · rw [if_pos (hvanishes.mpr heq)]
      exact .inr (.inl ⟨hmoves.1, heq, rfl⟩)
    · rw [if_neg (hvanishes.not.mpr heq)]
      exact .inr (.inr ⟨hmoves.1, hmoves.2, heq, rfl, rfl, rfl⟩)
  · rw [if_neg hmoves]
    exact .inl ⟨by tauto, rfl⟩

/-- A folded row is proper again: classes are words of the arena. -/
theorem Proper.folded (h : row.Proper words.capacity) (hc : Classified words cls) :
    (row.folded words).Proper words.capacity := by
  rcases h.folded_cases hc with ⟨-, heq⟩ | ⟨-, -, hzero⟩ | ⟨hne, -, -, hcount, hA, hB⟩
  · rwa [heq]
  · exact ⟨0, by rw [hzero, Nat.cast_zero], fun hne => absurd hzero hne⟩
  · have hsecond := h.second_lt hne
    have hfirst := lt_of_le_of_lt (UInt32.le_iff_toNat_le.mp row.words.first_le_second) hsecond
    obtain ⟨k, hk, -⟩ := h
    refine ⟨k, by rw [hcount, hk], fun _ => ?_⟩
    rw [hA, hB]
    refine ⟨(row.words.relabel cls).first_le_second, ?_⟩
    rcases WordPair.second_of (cls row.words.first) (cls row.words.second) with heq | heq
    · rw [WordPair.relabel, heq]
      exact hc.cls_lt _ hfirst
    · rw [WordPair.relabel, heq]
      exact hc.cls_lt _ hsecond

theorem Proper.single_folded (h : row.Proper words.capacity) (hc : Classified words cls) :
    (Finsupp.single (row.folded words).words (row.folded words).count : WordPair →₀ α)
      = foldCounts cls (.single row.words row.count) := by
  rw [foldCounts_single]
  rcases h.folded_cases hc with ⟨hstay, heq⟩ | ⟨-, hvanishes, hzero⟩ | ⟨-, -, hkept, hcount, hA, hB⟩
  · rw [heq]
    rcases hstay with hzero | hmoves
    · rw [hzero, Finsupp.single_zero, Finsupp.single_zero, ite_self]
    · rw [if_neg fun hvanishes : row.words.Vanishes cls => hmoves hvanishes.1,
        WordPair.relabel_of_not_moves hmoves]
  · rw [if_pos hvanishes, hzero, Finsupp.single_zero]
  · rw [if_neg hkept, hcount, PairRow.words, hA, hB, WordPair.of_first_second]

end PairRow

theorem pairMass_map_folded {words : WordPool α} {cls : UInt32 → UInt32}
    (hc : Classified words cls) {rows : List (PairRow α)}
    (hproper : ∀ row ∈ rows, row.Proper words.capacity) :
    pairMass (rows.map (PairRow.folded words)) = foldCounts cls (pairMass rows) := by
  rw [pairMass, pairMass, map_list_sum, List.map_map, List.map_map]
  congr 1
  exact List.map_congr_left fun row hrow => (hproper row hrow).single_folded hc

/-- The rows that vanish are the rows with a count that are missing afterwards. -/
theorem liveSum_map_folded {words : WordPool α} {cls : UInt32 → UInt32}
    (hc : Classified words cls) {rows : List (PairRow α)}
    (hproper : ∀ row ∈ rows, row.Proper words.capacity) :
    liveSum (fun _ => 1) (rows.map (PairRow.folded words))
      + liveSum (fun p => if p.Vanishes cls then 1 else 0) rows = liveSum (fun _ => 1) rows := by
  rw [liveSum, liveSum, liveSum, List.map_map, ← List.sum_map_add]
  congr 1
  refine List.map_congr_left fun row hrow => ?_
  rw [Function.comp_apply]
  rcases (hproper row hrow).folded_cases hc with ⟨hstay, heq⟩ | ⟨hne, hvanishes, hzero⟩ |
    ⟨hne, -, hkept, hcount, -, -⟩
  · rw [heq]
    by_cases hzero : row.count = 0
    · rw [if_pos hzero, if_pos hzero]
    · rw [if_neg hzero, if_neg hzero, if_neg]
      intro hvanishes
      exact (hstay.resolve_left hzero) hvanishes.1
  · rw [if_pos hzero, if_neg hne, if_neg hne, if_pos hvanishes]
  · rw [hcount, if_neg hne, if_neg hne, if_neg hkept]

/-! ### Rebuilding the index -/

namespace PairPool

/-- The index of the first `k` pairs is rebuilt: it is complete for them, and the counts of
pairs are still `mass`. Every merge that was made is a row less with a count. -/
structure Reindexed (bound used : ℕ) (mass : WordPair →₀ α) (live k : ℕ) (merged : List Bool)
    (pairs : PairPool α) : Prop where
  capacity_le : pairs.capacity ≤ maxPoolCapacity.toNat
  used_eq : pairs.used = used
  tidy : pairs.Tidy
  proper : ∀ row ∈ pairs.liveRows, row.Proper bound
  /-- The index finds exactly the rows with a count, up to `k`. -/
  indexed : Indexed pairs.index pairs.liveRows k
  mass_eq : pairMass pairs.liveRows = mass
  /-- Merges take rows with a count away. -/
  live_eq : merged.countP id + liveSum (fun _ => 1) pairs.liveRows = live

variable {bound used live k : ℕ} {mass : WordPair →₀ α} {merged : List Bool}
  {pairs pairs' : PairPool α}

omit [IsStrictOrderedRing α] in
theorem reindexed_clearIndex (hcapacity : pairs.capacity ≤ maxPoolCapacity.toNat)
    (htidy : pairs.Tidy) (hproper : ∀ row ∈ pairs.liveRows, row.Proper bound) :
    Reindexed bound pairs.used (pairMass pairs.liveRows) (liveSum (fun _ => 1) pairs.liveRows) 0 []
      pairs.clearIndex :=
  ⟨hcapacity, rfl, htidy, hproper,
    .of_raw?_eq_none pairs.index.sound_clear pairs.index.raw?_clear _, rfl, Nat.zero_add _⟩

omit [IsStrictOrderedRing α] in
/-- A merge gives the count of a row to another row of its pair. -/
theorem Reindexed.merge (h : Reindexed bound used mass live k merged pairs)
    (hbound : bound ≤ maxPoolCapacity.toNat) {row owned : PairRow α} {owner : ℕ}
    (hk : k < used) (howner : owner < k) (hrow : pairs.liveRows[k]? = some row)
    (howned : pairs.liveRows[owner]? = some owned) (hcount : row.count ≠ 0)
    (hcount' : owned.count ≠ 0) (hkey : owned.words.key = row.words.key) :
    Reindexed bound used mass live (k + 1) (merged ++ [true])
      (Tally.merge k owner row.count pairs) := by
  obtain ⟨hcapacity, hused, htidy, hproper, hindexed, hmass, hlive⟩ := h
  have hwords : owned.words = row.words :=
    (hproper owned (List.mem_of_getElem? howned)).words_eq_of_key_eq hbound hcount'
      ((hproper row (List.mem_of_getElem? hrow)).second_lt hcount) hkey
  have hrows : (Tally.merge k owner row.count pairs).liveRows
      = mergeRows pairs.liveRows k owner row.count := by
    rw [Tally.merge, Pool.liveRows_modify, Pool.liveRows_modify]
    rfl
  refine ⟨hcapacity, hused, ?_, ?_, ?_, ?_, ?_⟩
  · have hslot : owner < pairs.used := by omega
    exact Pool.tidy_modify (Pool.tidy_modify htidy hslot _) (by rwa [Pool.used_modify, hused]) _
  · rw [hrows]
    exact proper_mergeRows hproper hrow howned hcount'
  · rw [hrows]
    exact hindexed.mergeRows hproper hrow howned howner hcount'
  · rw [hrows, pairMass_mergeRows hrow howned howner hwords, hmass]
  · have hsum := liveSum_mergeRows hproper hrow howned howner hcount hcount'
    rw [hrows, List.countP_append]
    simp only [List.countP_cons, List.countP_nil, id, if_true]
    omega

/-- One step of rebuilding the index: a row without count is passed over, the first row of a
pair takes its key, and a later one is merged. -/
theorem Reindexed.step (h : Reindexed bound used mass live k merged pairs)
    (hbound : bound ≤ maxPoolCapacity.toNat) (hk : k < used) {b : Bool}
    (hrun : Tally.reindexPair k pairs = .ok b pairs') :
    Reindexed bound used mass live (k + 1) (merged ++ [b]) pairs' := by
  have hk' : k < pairs.used := by rwa [h.used_eq]
  obtain ⟨row, hmem, hrow⟩ := Pool.exists_liveRow hk'
  have hrow' : pairs.row? k = some row := Pool.row?_of_liveRows hrow
  have hproper := h.proper row hmem
  have hlt : k < maxPoolCapacity.toNat :=
    hk'.trans_le (pairs.used_le_capacity.trans h.capacity_le)
  have hnumber : k.toUInt32.toNat = k := Index.toNat_toUInt32 hlt
  have hcount (hspent : row.isSpent = false) : row.count ≠ 0 := by
    rw [Ne, ← hproper.isSpent_iff, hspent]
    exact Bool.false_ne_true
  -- the index finds slots of rows before this one
  have howner owner (hraw : pairs.index.raw? row.words.key = some owner) :
      owner.toNat < maxPoolCapacity.toNat := (h.indexed.live _ owner hraw).1.trans hlt
  rcases Tally.reindexPair_cases h.indexed.sound hrow' howner with ⟨hspent, hpair⟩ |
    ⟨hspent, ⟨index, hraw, hw, -, hpair⟩ | ⟨owner, hraw, hpair⟩ | ⟨-, hpair⟩⟩
  all_goals
    rw [hpair] at hrun
    cases hrun
  · have hzero := hproper.isSpent_iff.mp hspent
    exact ⟨h.capacity_le, h.used_eq, h.tidy, h.proper, h.indexed.skip hrow (not_not_intro hzero),
      h.mass_eq, by
        rw [List.countP_append]
        exact h.live_eq⟩
  · exact ⟨h.capacity_le, h.used_eq, h.tidy, h.proper,
      h.indexed.enter hrow (hcount hspent) hraw hnumber hw, h.mass_eq, by
        rw [List.countP_append]
        exact h.live_eq⟩
  · obtain ⟨hv, owned, howned, hcount', hkey'⟩ := h.indexed.live _ owner hraw
    exact h.merge hbound hk hv hrow howned (hcount hspent) hcount' hkey'

end PairPool

/-! ### Counting moves -/

/-- The classes that rows move to are those that their pairs move to. -/
theorem countP_moves {words : WordPool α} {cls : UInt32 → UInt32} (hc : Classified words cls)
    {rows : List (PairRow α)} (hproper : ∀ row ∈ rows, row.Proper words.capacity)
    (test : WordPair → Bool) :
    (rows.filterMap (PairRow.moved? words)).countP test
      = liveSum (fun p => if p.Moves cls ∧ test (p.relabel cls) then 1 else 0) rows := by
  induction rows with
  | nil => rfl
  | cons row rows ih =>
    have hrest := ih fun row' hrow' => hproper row' (List.mem_cons_of_mem _ hrow')
    rw [List.filterMap_cons, (hproper row List.mem_cons_self).moved?_eq hc, liveSum_cons,
      ← hrest]
    by_cases hcount : row.count = 0
    · simp [hcount]
    · by_cases hmoves : row.words.Moves cls
      · simp [hcount, hmoves, List.countP_cons, Nat.add_comm]
      · simp [hmoves]

/-! ### Folding as a whole -/

namespace Tally

section

variable {s s' : Logged (Tally α)} {cls : UInt32 → UInt32}

theorem changed_foldPairs (hc : Classified s.state.words cls)
    (hproper : ∀ row ∈ s.state.pairs.liveRows, row.Proper s.state.words.capacity) :
    (foldPairs s).1.changed
      = liveSum (fun p => if p.Moves cls then 1 else 0) s.state.pairs.liveRows := by
  have hcount := countP_moves hc hproper fun _ => true
  simp only [List.countP_true, and_true] at hcount
  exact hcount

theorem eliminated_foldPairs (hc : Classified s.state.words cls)
    (hproper : ∀ row ∈ s.state.pairs.liveRows, row.Proper s.state.words.capacity) :
    (foldPairs s).1.eliminated
      = liveSum (fun p => if p.Vanishes cls then 1 else 0) s.state.pairs.liveRows := by
  have hcount := countP_moves hc hproper fun p => p.first = p.second
  simp only [decide_eq_true_eq, ← WordPair.vanishes_iff] at hcount
  exact hcount

/-- Rebuilding the index from proper pairs leaves it complete for all of them. -/
theorem reindexed_of_reindexPairs {bound n : ℕ} (hbound : bound ≤ maxPoolCapacity.toNat)
    (hcapacity : s.state.pairs.capacity ≤ maxPoolCapacity.toNat) (htidy : s.state.pairs.Tidy)
    (hproper : ∀ row ∈ s.state.pairs.liveRows, row.Proper bound)
    (hrun : reindexPairs s = .ok n s') :
    s'.state.words = s.state.words ∧ ∃ merged, n = merged.countP id
      ∧ PairPool.Reindexed bound s.state.pairs.used (pairMass s.state.pairs.liveRows)
        (liveSum (fun _ => 1) s.state.pairs.liveRows) s.state.pairs.used merged s'.state.pairs := by
  obtain ⟨merged, hdispatch, hn⟩ := reindexPairs_eq_ok_iff.mp hrun
  obtain ⟨hloop, -⟩ := dispatch_eq_ok_iff.mp hdispatch
  have hreindexed := mapM_range_ok_induction (P := fun k merged t => t.words = s.state.words
      ∧ PairPool.Reindexed bound s.state.pairs.used (pairMass s.state.pairs.liveRows)
        (liveSum (fun _ => 1) s.state.pairs.liveRows) k merged t.pairs) hloop
    ⟨rfl, PairPool.reindexed_clearIndex hcapacity htidy hproper⟩ ?_
  · exact ⟨hreindexed.1, merged, hn, hreindexed.2⟩
  · intro k merged t b t' hk hdone hstep
    obtain ⟨hwords, hreindexed⟩ := hdone
    obtain ⟨pairs', hpair, rfl⟩ := onPairs_eq_ok_iff.mp hstep
    exact ⟨hwords, hreindexed.step hbound hk hpair⟩

end

/-- Folding a tally folds the map it tracks, and reports what that means for the pairs. -/
theorem Tracks.fold {s s' : Logged (Tally α)} {m : PairMap} (h : s.state.Tracks m) {n : ℕ}
    (hrun : reindexPairs (foldPairs s).2 = .ok n s') :
    s'.state.Tracks m.fold
      ∧ (foldPairs s).1.changed = (m.counts.support.filter fun p => p.Moves m.cls).card
      ∧ (foldPairs s).1.eliminated = (m.counts.support.filter fun p => p.Vanishes m.cls).card
      ∧ n + (foldPairs s).1.eliminated + m.fold.counts.support.card = m.counts.support.card := by
  obtain ⟨⟨words, pairs, total⟩, log⟩ := s
  obtain ⟨hclassified, hcapacity, htidy, hproper, hindexed, hmass⟩ := h
  dsimp only at hclassified hcapacity htidy hproper hindexed hmass
  have hchanged := changed_foldPairs (s := ⟨⟨words, pairs, total⟩, log⟩) hclassified hproper
  have heliminated := eliminated_foldPairs (s := ⟨⟨words, pairs, total⟩, log⟩) hclassified hproper
  -- the rows are folded
  obtain ⟨pairs₁, hpairs₁, hmapped⟩ := exists_mapped_foldPairs ⟨⟨words, pairs, total⟩, log⟩
  dsimp only at hpairs₁ hmapped hchanged heliminated
  have hproper₁ : ∀ row ∈ pairs₁.liveRows, row.Proper words.capacity := by
    rw [hmapped.liveRows_eq]
    intro row hmem
    obtain ⟨old, hold, rfl⟩ := List.mem_map.mp hmem
    exact (hproper old hold).folded hclassified
  -- the index is rebuilt
  have hreindexed := reindexed_of_reindexPairs hclassified.capacity_le
    (hpairs₁ ▸ hmapped.capacity_eq ▸ hcapacity) (hpairs₁ ▸ hmapped.tidy htidy)
    (hpairs₁ ▸ hproper₁) hrun
  rw [hpairs₁] at hreindexed
  obtain ⟨hwords', merged, rfl, hcapacity', hused', htidy', hproper', hindexed', hmass', hlive'⟩ :=
    hreindexed
  have hcomplete : Indexed s'.state.pairs.index s'.state.pairs.liveRows
      s'.state.pairs.liveRows.length := by
    rw [Pool.length_liveRows, hused']
    exact hindexed'
  have hfolded : pairMass s'.state.pairs.liveRows = castCounts m.fold.counts := by
    rw [hmass', hmapped.liveRows_eq, pairMass_map_folded hclassified hproper, hmass,
      foldCounts_castCounts]
    rfl
  have hbefore : Indexed pairs.index pairs.liveRows pairs.liveRows.length := by
    rw [Pool.length_liveRows]
    exact hindexed
  refine ⟨⟨hwords' ▸ hclassified, hcapacity', htidy', hwords' ▸ hproper', ?_, hfolded⟩,
    ?_, ?_, ?_⟩
  · rw [← Pool.length_liveRows]
    exact hcomplete
  · rw [Finset.card_filter, ← hbefore.liveSum_eq hmass, hchanged]
  · rw [Finset.card_filter, ← hbefore.liveSum_eq hmass, heliminated]
  · have hvanished := liveSum_map_folded hclassified hproper
    have hafter := hcomplete.liveSum_eq hfolded fun _ => 1
    have hstart := hbefore.liveSum_eq hmass fun _ => 1
    rw [Finset.sum_const, smul_eq_mul, mul_one] at hafter hstart
    rw [hmapped.liveRows_eq] at hlive'
    omega

end Tally

end CorpusStats
