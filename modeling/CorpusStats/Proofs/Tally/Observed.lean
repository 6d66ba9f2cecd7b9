import CorpusStats.Proofs.Exact
import CorpusStats.Proofs.Tally.Coherent
import CorpusStats.Proofs.Visits
/-!
# CorpusStats.Proofs.Tally.Observed

What a tally is after it observed a list of pairs (`Tally.Observed`).

* Words gain one for every end that they are (`Tally.row?_spread`), and the total one for every
  pair.
* The rows of pairs are visited under the keys of the pairs, and each visit counts once
  (`PairRow.observed`). The ends of an observed pair are words of the arena, where keys tell
  pairs apart, so the row that is found is that of the pair itself.
-/

namespace CorpusStats

open Stage

variable {α : Type}

theorem add_length_concat {ι : Type} (n : UInt64) (l : List ι) (a : ι) :
    n + (l ++ [a]).length.toUInt64 = n + l.length.toUInt64 + 1 := by
  rw [List.length_append, List.length_singleton, UInt64.add_assoc]
  show n + UInt64.ofNat (l.length + 1) = _
  rw [UInt64.ofNat_add]
  rfl

/-- How many ends of a pair are the word of a slot. -/
def WordPair.ends (p : WordPair) (slot : ℕ) : ℕ :=
  (if p.first.toNat = slot then 1 else 0) + if p.second.toNat = slot then 1 else 0

theorem WordPair.ends_of (a b word : UInt32) :
    (WordPair.of a b).ends word.toNat = (if a = word then 1 else 0) + if b = word then 1 else 0 := by
  simp only [ends, UInt32.toNat_inj]
  unfold of
  split
  · rfl
  · exact Nat.add_comm _ _

variable [Weight α]

/-! ### Rows -/

/-- The row of a word that was the end of `n` more observed pairs. -/
def WordRow.gained (n : ℕ) (row : WordRow α) : WordRow α :=
  { row with count := addOnes n row.count }

theorem WordRow.gained_gained (m n : ℕ) (row : WordRow α) :
    (row.gained n).gained m = row.gained (m + n) := by
  simp only [gained, addOnes_add]

namespace PairRow

def fill (p : WordPair) (row : PairRow α) : PairRow α :=
  { row with wordA := p.first, wordB := p.second }

/-- The row of a pair that was observed `n` more times. -/
def observed (n : ℕ) (row : PairRow α) : PairRow α :=
  { row with
    count := addOnes n row.count
    flags := if n = 0 then row.flags else row.flags ||| dirtyBit }

theorem iterate_countOnce (n : ℕ) : Tally.countOnce^[n] = observed (α := α) n := by
  funext row
  induction n with
  | zero => rfl
  | succ n ih =>
    rw [Function.iterate_succ_apply', ih, Tally.countOnce, observed, observed, addOnes_succ, markDirty,
      if_neg n.succ_ne_zero]
    by_cases hn : n = 0
    · rw [if_pos hn]
    · simp only [if_neg hn, UInt32.or_assoc, UInt32.or_self]

end PairRow

namespace PairPool

/-- The row in the slot that a pair is looked up in, if it is the row of the pair. -/
def rowOf? (pairs : PairPool α) (p : WordPair) : Option (PairRow α) :=
  (pairs.lookup p.key).bind fun slot => (pairs.row? slot.toNat).filter fun row => row.words = p

/-- How often a pair was observed: never, if it is not found. -/
def countOf (pairs : PairPool α) (p : WordPair) : α :=
  ((pairs.rowOf? p).map PairRow.count).getD 0

/-- The pairs of a list that are not found, in the order in which they first come up. -/
def newPairs (pairs : PairPool α) (ps : List WordPair) : List WordPair :=
  (ps.filter fun p => pairs.lookup p.key = none).eraseDups

variable {pairs : PairPool α} {p : WordPair}

omit [Weight α] in
theorem mem_newPairs {ps : List WordPair} :
    p ∈ pairs.newPairs ps ↔ p ∈ ps ∧ pairs.lookup p.key = none := by
  rw [newPairs, List.mem_eraseDups, List.mem_filter, decide_eq_true_iff]

theorem countOf_of_none (h : pairs.lookup p.key = none) : pairs.countOf p = 0 := by
  rw [countOf, rowOf?, h]
  rfl

theorem countOf_of_some {slot : UInt32} {row : PairRow α} (h : pairs.lookup p.key = some slot)
    (hrow : pairs.liveRows[slot.toNat]? = some row) :
    pairs.countOf p = if row.words = p then row.count else 0 := by
  have hlt := (List.getElem?_eq_some_iff.mp hrow).1
  rw [Pool.length_liveRows] at hlt
  rw [Pool.liveRows_getElem? hlt] at hrow
  rw [countOf, rowOf?, h, Option.bind_some, hrow]
  by_cases hwords : row.words = p
  · rw [if_pos hwords, Option.filter_some_pos (by simpa using hwords), Option.map_some, Option.getD_some]
  · rw [if_neg hwords, Option.filter_some_neg (by simpa using hwords), Option.map_none, Option.getD_none]

end PairPool

namespace Tally

/-! ### Words -/

theorem row?_addToEnds (words : WordPool α) (i j slot : ℕ) :
    (addToEnds 1 (i, j) words).row? slot = (words.row? slot).map
      (WordRow.gained ((if i = slot then 1 else 0) + if j = slot then 1 else 0)) := by
  have hone (words : WordPool α) (i : ℕ) :
      (words.modify i fun row => { row with count := row.count + 1 }).row? slot
        = (words.row? slot).map (WordRow.gained (if i = slot then 1 else 0)) := by
    rw [Pool.row?_modify]
    split
    · rfl
    · exact Option.map_id'.symm
  rw [addToEnds, hone, hone, Option.map_map]
  refine congrFun (congrArg _ (funext fun row => ?_)) _
  rw [Function.comp_apply, WordRow.gained_gained, Nat.add_comm]

/-- Add one to both ends of every pair of a list. -/
def spread (ps : List WordPair) (words : WordPool α) : WordPool α :=
  ps.foldl (fun words p => addToEnds 1 (p.first.toNat, p.second.toNat) words) words

theorem spread_concat (ps : List WordPair) (p : WordPair) (words : WordPool α) :
    spread (ps ++ [p]) words = addToEnds 1 (p.first.toNat, p.second.toNat) (spread ps words) :=
  List.foldl_concat _ _ _ _

/-- A word gains one for every end that it is. -/
theorem row?_spread (ps : List WordPair) (words : WordPool α) (slot : ℕ) :
    (spread ps words).row? slot
      = (words.row? slot).map (WordRow.gained (ps.map (WordPair.ends · slot)).sum) := by
  induction ps using List.reverseRecOn with
  | nil => exact Option.map_id'.symm
  | append_singleton ps p ih =>
    rw [spread_concat, row?_addToEnds, ih, Option.map_map, List.map_append, List.sum_append,
      List.map_singleton, List.sum_singleton]
    refine congrFun (congrArg _ (funext fun row => ?_)) _
    rw [Function.comp_apply, WordRow.gained_gained, Nat.add_comm, WordPair.ends]

/-- Marginal counts are all that changes of the words. -/
theorem spread_rest (ps : List WordPair) (words : WordPool α) :
    (spread ps words).name = words.name ∧ (spread ps words).allocator = words.allocator
      ∧ (spread ps words).index = words.index := by
  induction ps using List.reverseRecOn with
  | nil => exact ⟨rfl, rfl, rfl⟩
  | append_singleton ps p ih =>
    rw [spread_concat]
    exact ih

/-! ### Observations -/

/-- `t'` is `t` after it observed the pairs of a list. -/
structure Observed (t t' : Tally α) (ps : List WordPair) : Prop where
  words_eq : t'.words = spread ps t.words
  total_eq : t'.total = t.total + ps.length.toUInt64
  visited : Pool.Visited WordPair.key PairRow.fill countOnce t.pairs t'.pairs ps
  coherent : PairPool.Coherent (fun _ => True) t'.pairs
  first_lt : ∀ p ∈ ps, p.first.toNat < 2 ^ 32 - 1
  /-- A pair that was there was found in its own row. -/
  held : ∀ p ∈ ps, ∀ slot, t.pairs.index.raw? p.key = some slot →
    ∃ row, t.pairs.liveRows[slot.toNat]? = some row ∧ row.words = p

variable {t t' t'' : Tally α} {ps : List WordPair}

theorem observed_nil (h : PairPool.Coherent (fun _ => True) t.pairs) : Observed t t [] where
  words_eq := rfl
  total_eq := (UInt64.add_zero _).symm
  visited := Pool.visited_nil h.grounded
  coherent := h
  first_lt _ hp := absurd hp List.not_mem_nil
  held _ hp := absurd hp List.not_mem_nil

/-- Observing one more pair. -/
theorem Observed.observeWords (hstart : PairPool.Coherent (fun _ => True) t.pairs)
    (hwords : t.words.capacity ≤ maxPoolCapacity.toNat) (h : Observed t t' ps) {a b : UInt32}
    (ha : a.toNat < t.words.capacity) (hb : b.toNat < t.words.capacity)
    (hrun : Tally.observeWords a b t' = .ok () t'') : Observed t t'' (ps ++ [.of a b]) := by
  obtain ⟨⟨slot, created⟩, t₁, hslot, hobserve⟩ := bind_eq_ok_iff.mp hrun
  obtain ⟨pairs₁, hfind, rfl⟩ := onPairs_eq_ok_iff.mp hslot
  obtain ⟨ends, hends, rfl⟩ := observe_eq_ok_iff.mp hobserve
  obtain ⟨row, hrow, hA, hB, rfl⟩ := endsOf_eq_ok_iff.mp hends
  obtain ⟨hvisited, hraw, -⟩ :=
    h.visited.visit hstart.grounded hstart.capacity_le (WordPair.storable_key (.of a b)) hfind
  obtain ⟨hcoherent, hmark⟩ : PairPool.Coherent (fun _ => True) pairs₁ ∧ slot ≠ Index.exhausted := by
    rcases h.coherent.slotOf_cases (a := a) (b := b) trivial trivial with
      ⟨slot', created', pairs₂, hrun', hcoherent, hfound, -⟩ | ⟨e, pairs₂, hrun', -⟩
    · rw [hrun'] at hfind
      cases hfind
      exact ⟨hcoherent, hfound.2⟩
    · rw [hrun'] at hfind
      cases hfind
  have hlt : slot.toNat < pairs₁.used := hcoherent.lt_used hraw hmark
  -- the ends of the row are words of the arena, so its key is that of no other pair
  have harena (word : UInt32) (hword : word.toNat < t.words.capacity) : word.toNat < 2 ^ 32 - 1 :=
    (hword.trans_le hwords).trans (by decide)
  have hcapacity : t'.words.capacity = t.words.capacity := by
    rw [h.words_eq, Pool.capacity, (spread_rest ps t.words).2.1, Pool.capacity]
  have hfirst : (WordPair.of a b).first.toNat < 2 ^ 32 - 1 :=
    harena _ (WordPair.of_mem (P := fun word => word.toNat < t.words.capacity) ha hb).1
  have hrow' : pairs₁.liveRows[slot.toNat]? = some row := (Pool.liveRows_getElem? hlt).trans hrow
  have hpair : row.words = .of a b :=
    hcoherent.words_eq hraw hmark hrow' hfirst (harena _ (hcapacity ▸ hA))
  constructor
  case words_eq =>
    rw [spread_concat, ← h.words_eq, ← hpair, (hcoherent.ordered _ row hrow').words_eq]
  case total_eq => rw [h.total_eq, add_length_concat]
  case visited => exact hvisited
  case coherent => exact hcoherent.modify hlt fun _ => ⟨rfl, rfl⟩
  case first_lt =>
    intro p hp
    rcases List.mem_append.mp hp with hp | hp
    · exact h.first_lt p hp
    · rwa [List.mem_singleton.mp hp]
  case held =>
    intro p hp slot' hslot'
    rcases List.mem_append.mp hp with hp | hp
    · exact h.held p hp slot' hslot'
    · rw [List.mem_singleton.mp hp] at hslot' ⊢
      have hsame : slot' = slot :=
        Option.some_inj.mp ((hvisited.known _ _ hslot').symm.trans hraw)
      subst hsame
      obtain ⟨old, hold, -⟩ := hstart.keyed _ slot' hslot' hmark
      refine ⟨old, hold, ?_⟩
      have hnow := hvisited.old_row slot'.toNat (hstart.lt_used hslot' hmark)
      obtain ⟨row', hcounted, hsame⟩ := PairPool.exists_row_modify slot'.toNat hrow'
        (f := countOnce) fun _ => ⟨rfl, rfl⟩
      rw [hcounted, hold, PairRow.iterate_countOnce, Option.map_some, Option.some_inj] at hnow
      rw [← hpair, ← hsame, hnow]
      rfl

/-! ### Pairs -/

namespace Observed

variable (hstart : PairPool.Coherent (fun _ => True) t.pairs) (h : Observed t t' ps)
include hstart h

theorem lookup_eq_none_iff {p : WordPair} (hp : p ∈ ps) :
    t.pairs.lookup p.key = none ↔ t.pairs.index.raw? p.key = none := by
  rw [h.visited.lookup_eq_raw? hstart.grounded hstart.capacity_le p.storable_key hp]

/-- Pairs that were found are found in the same slot. -/
theorem lookup_of_found {p : WordPair} {slot : UInt32} (hslot : t.pairs.lookup p.key = some slot) :
    t'.pairs.lookup p.key = some slot :=
  h.visited.lookup_of_found hstart.grounded hstart.capacity_le hslot

theorem newPairs_eq : t.pairs.newPairs ps = Pool.newRequests WordPair.key t.pairs ps := by
  rw [PairPool.newPairs, Pool.newRequests]
  refine congrArg _ (List.filter_congr fun p hp => ?_)
  rw [decide_eq_decide, h.lookup_eq_none_iff hstart hp]

/-- New pairs have new keys. -/
theorem newKeys_eq : t.pairs.newKeys (ps.map WordPair.key) = (t.pairs.newPairs ps).map WordPair.key := by
  rw [h.newPairs_eq hstart, Pool.newKeys_map (WordPair.key_inj_of_mem h.first_lt)]

/-- The row of a slot is visited for its own pair only, and only if that is found there. -/
theorem visits_eq {slot : ℕ} {row : PairRow α} (hrow : t.pairs.liveRows[slot]? = some row) :
    Pool.visits WordPair.key t.pairs ps slot
      = if (t.pairs.lookup row.words.key).map UInt32.toNat = some slot then ps.count row.words
        else 0 := by
  have hown (p : WordPair) (hp : p ∈ ps)
      (hhit : (t.pairs.index.raw? p.key).map UInt32.toNat = some slot) :
      row.words = p ∧ (t.pairs.lookup p.key).map UInt32.toNat = some slot := by
    obtain ⟨slot', hraw, rfl⟩ := Option.map_eq_some_iff.mp hhit
    obtain ⟨row', hrow', hwords⟩ := h.held p hp slot' hraw
    rw [hrow, Option.some_inj] at hrow'
    refine ⟨hrow' ▸ hwords, ?_⟩
    rwa [h.visited.lookup_eq_raw? hstart.grounded hstart.capacity_le p.storable_key hp]
  split
  · rename_i hlookup
    obtain ⟨slot', hslot', rfl⟩ := Option.map_eq_some_iff.mp hlookup
    refine List.countP_congr fun p hp => ?_
    rw [decide_eq_true_iff, beq_iff_eq]
    refine ⟨fun hhit => (hown p hp hhit).1.symm, ?_⟩
    rintro rfl
    rw [(hstart.lookup_eq_some_iff.mp hslot').1, Option.map_some]
  · rename_i hlookup
    refine List.countP_eq_zero.mpr fun p hp hhit => hlookup ?_
    obtain ⟨rfl, hfound⟩ := hown p hp (of_decide_eq_true hhit)
    exact hfound

/-- The row of a pair that was there. -/
theorem row_of_old {slot : ℕ} {row : PairRow α} (hrow : t.pairs.liveRows[slot]? = some row) :
    t'.pairs.liveRows[slot]? = some (row.observed
      (if (t.pairs.lookup row.words.key).map UInt32.toNat = some slot then ps.count row.words
        else 0)) := by
  have hlt : slot < t.pairs.used := Pool.lt_used_of_liveRows hrow
  rw [h.visited.old_row slot hlt, hrow, h.visits_eq hstart hrow, PairRow.iterate_countOnce,
    Option.map_some]

/-- The slot and the row of a new pair. -/
theorem row_of_new {n : ℕ} {p : WordPair} (hp : (t.pairs.newPairs ps)[n]? = some p) :
    ∃ slot, t'.pairs.lookup p.key = some slot ∧ slot.toNat = t.pairs.used + n
      ∧ t'.pairs.liveRows[slot.toNat]?
        = some (PairRow.observed (ps.count p) ⟨0, 0, p.first, p.second, 0⟩) := by
  have hinj := WordPair.key_inj_of_mem h.first_lt
  rw [h.newPairs_eq hstart] at hp
  obtain ⟨slot, hlookup, hslot⟩ :=
    h.visited.exists_lookup_of_new hstart.capacity_le hinj hp p.storable_key.symm
  have hrow := h.visited.row_of_new hinj hp
  rw [← hslot, PairRow.iterate_countOnce] at hrow
  exact ⟨slot, hlookup, hslot, hrow⟩

/-- A pair that is found now and was not before has the key of a new pair. -/
theorem exists_new {p : WordPair} {slot : UInt32} (hnone : t.pairs.lookup p.key = none)
    (hslot : t'.pairs.lookup p.key = some slot) :
    ∃ (n : ℕ) (q : WordPair), (t.pairs.newPairs ps)[n]? = some q ∧ q.key = p.key := by
  obtain ⟨hraw, hmark⟩ := h.coherent.lookup_eq_some_iff.mp hslot
  have hnone : t.pairs.index.raw? p.key = none := by
    cases hold : t.pairs.index.raw? p.key with
    | none => rfl
    | some slot' =>
      rw [h.visited.known _ _ hold, Option.some_inj] at hraw
      rw [hstart.lookup_eq_some_iff.mpr ⟨hold, hraw ▸ hmark⟩] at hnone
      cases hnone
  obtain ⟨n, hn, -⟩ := h.visited.exists_number hstart.capacity_le hnone hraw
  rw [h.newKeys_eq hstart, List.getElem?_map] at hn
  obtain ⟨q, hq, hkey⟩ := Option.map_eq_some_iff.mp hn
  exact ⟨n, q, hq, hkey⟩

/-- Counts grow by as many as there are pairs in the list. -/
theorem countOf_eq (p : WordPair) :
    t'.pairs.countOf p = addOnes (ps.count p) (t.pairs.countOf p) := by
  have hzero (hp : p ∉ ps) : addOnes (ps.count p) (0 : α) = 0 := by
    rw [List.count_eq_zero_of_not_mem hp]
    rfl
  cases hlookup : t.pairs.lookup p.key with
  | some slot =>
    obtain ⟨hraw, hmark⟩ := hstart.lookup_eq_some_iff.mp hlookup
    obtain ⟨row, hrow, -⟩ := hstart.keyed _ slot hraw hmark
    rw [PairPool.countOf_of_some hlookup hrow,
      PairPool.countOf_of_some (h.lookup_of_found hstart hlookup) (h.row_of_old hstart hrow)]
    by_cases hwords : row.words = p
    · subst hwords
      rw [if_pos rfl, hlookup, Option.map_some, if_pos rfl]
      exact if_pos rfl
    · rw [if_neg hwords, hzero fun hp => ?_]
      · exact if_neg hwords
      · obtain ⟨row', hrow', hwords'⟩ := h.held p hp slot hraw
        rw [hrow, Option.some_inj] at hrow'
        exact hwords (hrow' ▸ hwords')
  | none =>
    rw [PairPool.countOf_of_none hlookup]
    by_cases hp : p ∈ ps
    · obtain ⟨n, hn⟩ := List.mem_iff_getElem?.mp (PairPool.mem_newPairs.mpr ⟨hp, hlookup⟩)
      obtain ⟨slot, hslot, -, hrow⟩ := h.row_of_new hstart hn
      rw [PairPool.countOf_of_some hslot hrow]
      exact if_pos p.of_first_second
    · rw [hzero hp]
      cases hlookup' : t'.pairs.lookup p.key with
      | none => exact PairPool.countOf_of_none hlookup'
      | some slot' =>
        -- the row belongs to the pair of the list that has the same key
        obtain ⟨n, q, hq, hkey⟩ := h.exists_new hstart hlookup hlookup'
        obtain ⟨slot, hslot, -, hrow⟩ := h.row_of_new hstart hq
        rw [PairPool.countOf_of_some (hkey ▸ hslot) hrow]
        refine if_neg fun hwords => hp ?_
        rw [← hwords.symm.trans q.of_first_second] at hq
        exact (PairPool.mem_newPairs.mp (List.mem_of_getElem? hq)).1

end Observed

/-! ### Batches -/

/-- Counting a batch observes the pair of every place of the batch. -/
theorem observed_of_countSentences {s s' : Logged (Tally α)}
    (hstart : PairPool.Coherent (fun _ => True) s.state.pairs)
    (hwords : s.state.words.capacity ≤ maxPoolCapacity.toNat) {b : Sentences} {window : UInt32}
    {locator : Locator} (hbatch : ∀ word ∈ b.words, word.toNat < s.state.words.capacity) {n : ℕ}
    (hrun : countSentences b window locator s = .ok n s') :
    n = (b.near window.toNat).length
      ∧ Observed s.state s'.state ((b.near window.toNat).map b.pairAt) := by
  rw [← List.length_map b.pairAt, ← Sentences.windowPairs_eq_map]
  refine countSentences_ok_induction (R := fun ps t => Observed s.state t ps) ?_ (observed_nil hstart)
    hrun
  intro ps word partner t t' hword hpartner h hstep
  exact h.observeWords hstart hwords (hbatch word hword) (hbatch partner hpartner) hstep

end Tally

end CorpusStats
