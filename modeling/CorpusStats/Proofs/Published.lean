import CorpusStats.Proofs.Refusing
import CorpusStats.Proofs.Room
import CorpusStats.Proofs.Similarity.Room
import CorpusStats.Proofs.Tally.Collected
import CorpusStats.Proofs.Tally.Pairs
import CorpusStats.Proofs.Tally.Words
/-!
# CorpusStats.Proofs.Published

No request for a record waits for a value.

A key that is in an index without a value is one whose creation was begun and never came to an end.
A request that finds such a key waits for the value; here it is reported (`Error.isUnpublished`).
It never happens: a creation publishes a slot or a mark, and what is published is a slot in use,
under one key only (`Pool.Published`).

Each step of a stage leaves pools that way, if it fails too, and never reports a key without value
(`Stage.NeverWaits`). Most steps only write rows, which do not matter here. Two kinds of steps write
to an index: asking for a record (`Pool.neverWaits_findOrCreate`) and entering a pair that is there
already when the index of pairs is rebuilt (`PairPool.Collected.published`).
-/

namespace CorpusStats

open Stage

variable {σ α β : Type}

/-- Whether a key was found without its value. -/
def Error.isUnpublished : Error → Bool
  | .invalidState (.unpublished _) => true
  | _ => false

theorem Error.not_isUnpublished_of_isOverflow {e : Error} (h : e.isOverflow = true) :
    e.isUnpublished = false := by
  obtain ⟨name, capacity, rfl⟩ := (Error.isOverflow_iff e).mp h
  rfl

theorem Error.not_isUnpublished_of_malformed {e : Error} (h : ∃ fault, e = .malformed fault) :
    e.isUnpublished = false := by
  obtain ⟨fault, rfl⟩ := h
  rfl

/-- The stage leaves `P`, whether it answers or fails, and finds no key without its value. -/
def Stage.NeverWaits (P : σ → Prop) (act : Stage σ α) : Prop :=
  KeepsOr P (fun e s => P s ∧ e.isUnpublished = false) act

theorem Stage.OnlyRefuses.neverWaits {P : σ → Prop} {act : Stage σ α} (h : OnlyRefuses act)
    (hkeeps : Keeps P act) : NeverWaits P act := h.keepsOr hkeeps fun _ _ hs => ⟨hs, rfl⟩

/-! ### Pools -/

namespace Pool

variable {ρ : Type} {p p' : Pool ρ}

/-- Keys lead to slots in use, no two of them to the same one, or they were refused. -/
structure Published (p : Pool ρ) : Prop extends HasRoom p where
  distinct : ∀ key key' slot, p.index.raw? key = some slot → p.index.raw? key' = some slot →
    slot ≠ Index.exhausted → key = key'

/-- Rows do not matter. -/
theorem Published.congr (h : p.Published) (hindex : p'.index = p.index)
    (hcapacity : p'.capacity = p.capacity) (hused : p'.used = p.used) : p'.Published :=
  ⟨h.toHasRoom.congr hindex hcapacity hused, hindex ▸ h.distinct⟩

theorem Published.modify (h : p.Published) (slot : ℕ) (f : ρ → ρ) : (p.modify slot f).Published :=
  h.congr rfl rfl rfl

theorem ignoresRows_published : IgnoresRows (Published (ρ := ρ)) :=
  fun _ slot f h => h.modify slot f

theorem Writes.neverWaits {P : Pool ρ → ℕ → Prop} {f : ρ → ρ} {act : Stage (Pool ρ) Unit}
    (h : Writes P f act) : NeverWaits Published act :=
  h.onlyRefuses.neverWaits (h.keeps fun _ slot _ hp => hp.modify slot f)

/-- One more key with a value of its own, or with the mark. -/
theorem Published.of_written (h : p.Published) (hroom : p'.HasRoom) {key : UInt64} {value : UInt32}
    (hw : Index.Written p.index p'.index key (some value))
    (hfresh : value ≠ Index.exhausted → ∀ k, p.index.raw? k ≠ some value) : p'.Published := by
  refine ⟨hroom, fun k k' slot hk hk' hslot => ?_⟩
  rw [hw.raw?_eq] at hk hk'
  split at hk <;> split at hk'
  · simp_all
  · cases hk
    exact absurd hk' (hfresh hslot k')
  · cases hk'
    exact absurd hk (hfresh hslot k)
  · exact h.distinct k k' slot hk hk' hslot

theorem neverWaits_findOrCreate (key : UInt64) (fill : ρ → ρ) :
    NeverWaits Published (findOrCreate key fill) := by
  intro p h
  rcases h.toHasRoom.findOrCreate_index_cases key fill with
    ⟨slot, -, hrun, -⟩ | ⟨p', hrun, hroom, hlt, -, hw⟩ | ⟨e, p', hrun, he, hroom, hover⟩
  · rw [hrun]
    exact h
  · rw [hrun]
    refine h.of_written hroom hw fun hmark k hk => ?_
    -- the slots that keys lead to are below the next one
    have hused := (h.leads k _ hk).resolve_right fun hmarked => hmark hmarked.1
    rw [Index.toNat_toUInt32 (hlt.trans_le h.capacity_le)] at hused
    exact hused.false
  · rw [hrun]
    refine ⟨?_, Error.not_isUnpublished_of_isOverflow he⟩
    rcases hover.index_cases with hindex | hw
    · exact ⟨hroom, hindex ▸ h.distinct⟩
    · exact h.of_written hroom hw fun hmark => absurd rfl hmark

theorem Published.reset [Inhabited ρ] (h : p.Published) : p.reset.Published := by
  refine ⟨h.toHasRoom.reset, fun key _ _ hkey => ?_⟩
  rw [p.blank_reset.raw?_eq] at hkey
  cases hkey

theorem published_of_ofCapacity [Inhabited ρ] {name : String} {capacity indexCapacity : ℕ}
    (hle : capacity ≤ maxPoolCapacity.toNat)
    (h : ofCapacity name capacity indexCapacity = .ok p) : p.Published := by
  refine ⟨hasRoom_of_ofCapacity hle h, fun key _ _ hkey => ?_⟩
  rw [(blank_of_ofCapacity h).1.raw?_eq] at hkey
  cases hkey

end Pool

/-! ### Words and pairs -/

/-- Both pools of a tally are published. -/
structure Tally.Published (t : Tally α) : Prop where
  words : t.words.Published
  pairs : t.pairs.Published

namespace Tally

theorem neverWaits_onWords {act : Stage (WordPool α) β} (h : NeverWaits Pool.Published act) :
    NeverWaits Published (onWords act) := by
  intro t ht
  obtain ⟨words, pairs, total⟩ := t
  have hwords := h words ht.words
  unfold onWords
  dsimp only
  cases hrun : act words <;> rw [hrun] at hwords
  · exact ⟨hwords, ht.pairs⟩
  · exact ⟨⟨hwords.1, ht.pairs⟩, hwords.2⟩

theorem neverWaits_onPairs {act : Stage (PairPool α) β} (h : NeverWaits Pool.Published act) :
    NeverWaits Published (onPairs act) := by
  intro t ht
  obtain ⟨words, pairs, total⟩ := t
  have hpairs := h pairs ht.pairs
  unfold onPairs
  dsimp only
  cases hrun : act pairs <;> rw [hrun] at hpairs
  · exact ⟨ht.words, hpairs⟩
  · exact ⟨⟨ht.words, hpairs.1⟩, hpairs.2⟩

theorem neverWaits_intern (key : UInt64) :
    NeverWaits Published (onWords (α := α) (WordPool.intern key)) :=
  neverWaits_onWords (KeepsOr.bind (Pool.neverWaits_findOrCreate _ _) fun _ => .pure _)

theorem neverWaits_slotOf (a b : UInt32) :
    NeverWaits Published (onPairs (α := α) (PairPool.slotOf a b)) :=
  neverWaits_onPairs (Pool.neverWaits_findOrCreate _ _)

theorem neverWaits_assign (word cls : UInt32) :
    NeverWaits Published (onWords (α := α) (WordPool.assign word cls)) :=
  neverWaits_onWords (WordPool.writes_assign word cls).neverWaits

theorem neverWaits_loadWord (id : UInt32) (count : α) :
    NeverWaits Published (onWords (WordPool.loadCount id count)) :=
  neverWaits_onWords (WordPool.writes_loadCount id count).neverWaits

theorem neverWaits_loadPair (slot : UInt32) (count : α) :
    NeverWaits Published (onPairs (PairPool.loadCount slot count)) :=
  neverWaits_onPairs (PairPool.writes_loadCount slot count).neverWaits

variable [Weight α]

theorem neverWaits_observe (slot : ℕ) : NeverWaits Published (observe (α := α) slot) := by
  refine (onlyRefuses_observe slot).neverWaits fun t h => ?_
  obtain ⟨words, pairs, total⟩ := t
  unfold outcome observe
  dsimp only
  cases endsOf words pairs slot with
  | ok ends => exact ⟨(h.words.modify _ _).modify _ _, h.pairs.modify _ _⟩
  | error e => exact h

theorem neverWaits_observeSlot (slot : UInt32) :
    NeverWaits Published (observeSlot (α := α) slot) := by
  intro t h
  unfold observeSlot
  cases hslot : t.pairs.check slot with
  | ok slot => exact neverWaits_observe slot t h
  | error e => exact ⟨h, Error.not_isUnpublished_of_malformed (Pool.malformed_of_check hslot)⟩

theorem neverWaits_countPosition (b : Sentences) (window : UInt32) (locator : Locator) (i : ℕ) :
    NeverWaits Published (countPosition (α := α) b window locator i) :=
  keepsOr_countPosition neverWaits_slotOf neverWaits_observe (fun _ _ h => ⟨h, rfl⟩) b window
    locator i

theorem neverWaits_spreadCount (slot : ℕ) : NeverWaits Published (spreadCount (α := α) slot) :=
  (onlyRefuses_spreadCount slot).neverWaits fun t h =>
    ⟨keeps_words_spreadCount Pool.ignoresRows_published.ignoresCounts slot t h.words,
      keeps_pairs_spreadCount (Q := Pool.Published) slot t h.pairs⟩

end Tally

/-! ### The index of pairs, rebuilt -/

/-- Pairs whose index is rebuilt from the first `k` are published: a key that is back leads to the
first pair that holds it, so keys that lead to the same pair are the key of that pair. -/
theorem PairPool.Collected.published [Weight α] {start pairs : PairPool α} {k : ℕ}
    (h : Collected start k pairs) (hstart : start.HasRoom) (hk : k ≤ start.used) :
    pairs.Published where
  sound := h.sound
  capacity_le := h.capacity_eq.trans_le hstart.capacity_le
  capacity_le_index :=
    h.capacity_eq.trans_le (hstart.capacity_le_index.trans_eq h.capacity_index_eq.symm)
  leads key slot hraw := by
    have hslot := ((h.raw?_eq_some_iff hstart.capacity_le).mp hraw).2
    exact .inl (h.used_eq ▸ hslot.trans_le hk)
  vacant _ := by
    have hindex := hstart.capacity_le_index
    have hvacant := h.vacant
    rw [h.capacity_eq, h.used_eq]
    rw [h.capacity_index_eq] at hvacant
    omega
  distinct key key' slot hraw hraw' _ := by
    obtain ⟨hfirst, -⟩ := (h.raw?_eq_some_iff hstart.capacity_le).mp hraw
    obtain ⟨hfirst', -⟩ := (h.raw?_eq_some_iff hstart.capacity_le).mp hraw'
    obtain ⟨row, hrow, -, hkey⟩ := PairRow.exists_of_findIdx? hfirst
    obtain ⟨row', hrow', -, hkey'⟩ := PairRow.exists_of_findIdx? hfirst'
    obtain rfl : row = row' := Option.some.inj (hrow.symm.trans hrow')
    exact hkey.symm.trans hkey'

/-! ### Sections -/

namespace SectionPool

open Pool

theorem neverWaits_slotOf (word : UInt32) (disjunct : UInt64) :
    NeverWaits Published (slotOf (α := α) word disjunct) := neverWaits_findOrCreate _ _

variable [Weight α]

theorem neverWaits_observe (slot : ℕ) : NeverWaits Published (observe (α := α) slot) :=
  fun _ h => h.modify _ _

theorem neverWaits_extractPosition (b : Parses) (locator : Locator) (i : ℕ) :
    NeverWaits Published (extractPosition (α := α) b locator i) :=
  keepsOr_extractPosition neverWaits_slotOf neverWaits_observe (fun _ _ h => ⟨h, rfl⟩) b locator i

end SectionPool

/-! ### The similarity pass -/

namespace Similarity

/-- The candidates are published. -/
def Published (w : Similarity α) : Prop := w.candidates.Published

variable [Weight α] {sections : SectionPool α}

theorem neverWaits_addNorm (slot : ℕ) : NeverWaits Published (addNorm sections slot) := by
  rintro ⟨norms, heads, next, candidates⟩ h
  unfold addNorm
  dsimp only
  cases liveRow? sections slot with
  | none => exact h
  | some row =>
    dsimp only
    by_cases hword : row.word.toNat < norms.size
    · rwa [if_pos hword]
    · rw [if_neg hword]
      exact ⟨h, rfl⟩

/-- Linking a section runs out of slots of the index of disjuncts at most. -/
theorem neverWaits_link (slot : ℕ) : NeverWaits Published (link sections slot) := by
  rintro ⟨norms, heads, next, candidates⟩ h
  unfold link Index.pushFront Index.replace
  dsimp only
  cases liveRow? sections slot with
  | none => exact h
  | some row =>
    dsimp only
    cases heads.probe (Key.storable row.disjunct) with
    | found | absent => exact h
    | full => exact ⟨h, rfl⟩

theorem neverWaits_addProduct (a b : UInt32) (product : α) :
    NeverWaits Published (onCandidates (CandidatePool.addProduct a b product)) := by
  rintro ⟨norms, heads, next, candidates⟩ h
  have hfind := Pool.neverWaits_findOrCreate (WordPair.of a b).key
    (fun row : CandidateRow α => { row with wordA := a, wordB := b }) candidates h
  unfold onCandidates CandidatePool.addProduct
  dsimp only
  split at hfind <;> rename_i hrun <;> simp only [hrun]
  · exact hfind.modify _ _
  · exact hfind

theorem neverWaits_addProducts (slot : ℕ) : NeverWaits Published (addProducts sections slot) :=
  keepsOr_addProducts neverWaits_addProduct fun _ _ _ _ _ h => ⟨h, rfl⟩

end Similarity

end CorpusStats
