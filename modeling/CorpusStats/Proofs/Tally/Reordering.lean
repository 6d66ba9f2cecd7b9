import CorpusStats.Proofs.Reordering
import CorpusStats.Proofs.Tally.Asking
/-!
# CorpusStats.Proofs.Tally.Reordering

Observing pairs in another order.

* What observing a pair does is settled by the tally at the beginning: the row that the key of the
  pair leads to (`Tally.rowFor`) has the words whose marginal counts grow, also when it was folded and
  the index is out of date.
* So a loop over pairs comes to its end exactly if the tally at the beginning admits the pairs
  (`Tally.forM_observePair_iff`), and it leaves what counting each of them leaves (`Tally.Counted`).
  Neither depends on the order but in the slots of new pairs (`Tally.Counted.sameButNewSlots`).
-/

namespace CorpusStats

open Stage

variable {α ρ : Type}

namespace Pool

theorem newKeys_perm {p : Pool ρ} {keys keys' : List UInt64} (h : keys.Perm keys') :
    (p.newKeys keys).Perm (p.newKeys keys') :=
  show (newRequests id p keys).Perm (newRequests id p keys') from newRequests_perm h

/-- One change to two rows may be made to either of them first. -/
theorem modify_comm (p : Pool ρ) (i j : ℕ) (f : ρ → ρ) :
    (p.modify i f).modify j f = (p.modify j f).modify i f := by
  by_cases hij : i = j
  · rw [hij]
  · simp only [modify, modify_rows_comm p.rows hij f f]

end Pool

variable [Weight α]

namespace PairRow

@[simp] theorem wordA_observed (n : ℕ) (row : PairRow α) : (row.observed n).wordA = row.wordA := rfl

@[simp] theorem wordB_observed (n : ℕ) (row : PairRow α) : (row.observed n).wordB = row.wordB := rfl

@[simp] theorem words_observed (n : ℕ) (row : PairRow α) : (row.observed n).words = row.words := rfl

omit [Weight α] in
@[simp] theorem words_fill (p : WordPair) (row : PairRow α) : (fill p row).words = p :=
  p.of_first_second

theorem isDirty_observed {n : ℕ} (hn : n ≠ 0) (row : PairRow α) : (row.observed n).isDirty = true := by
  rw [← isDirty_markDirty row, isDirty, observed, if_neg hn]
  rfl

end PairRow

/-- The count of a pair in the slots from `used` on, and whether its score is out of date there. -/
def PairPool.newEntry? (used : ℕ) (pairs : PairPool α) (p : WordPair) : Option (α × Bool) :=
  ((pairs.liveRows.drop used).find? fun row => row.words = p).map fun row => (row.count, row.isDirty)

namespace Tally

variable {t t' t'' t₁ t₂ : Tally α} {ps ps' : List WordPair} {p : WordPair}

/-! ### One pair -/

/-- The row that asking for a pair leads to: the one of the slot of its key, or a new one. -/
def rowFor (t : Tally α) (p : WordPair) : PairRow α :=
  ((t.pairs.index.raw? p.key).bind fun slot => t.pairs.liveRows[slot.toNat]?).getD
    (PairRow.fill p default)

/-- The words whose marginal counts grow when a pair is observed. -/
def endsFor (t : Tally α) (p : WordPair) : ℕ × ℕ :=
  ((t.rowFor p).wordA.toNat, (t.rowFor p).wordB.toNat)

/-- Pairs that are told apart by their keys: none of them has the largest word twice. -/
def TellsApart (ps : List WordPair) : Prop := ∀ p ∈ ps, p.first.toNat < 2 ^ 32 - 1

theorem TellsApart.key_inj (h : TellsApart ps) :
    ∀ p ∈ ps, ∀ q ∈ ps, p.key = q.key → p = q := WordPair.key_inj_of_mem h

/-- Visits do not change what words are in the row that a key leads to. -/
theorem row_of_visited {pairs : PairPool α} (hsmall : TellsApart ps)
    (h : Pool.Visited WordPair.key PairRow.fill countOnce t.pairs pairs ps) (ht : t.pairs.Intact)
    (hp : p ∈ ps) {slot : UInt32} (hraw : pairs.index.raw? p.key = some slot) :
    ∃ row, pairs.liveRows[slot.toNat]? = some row
      ∧ (row.wordA.toNat, row.wordB.toNat) = t.endsFor p := by
  cases hold : t.pairs.index.raw? p.key with
  | some slot' =>
    obtain rfl : slot' = slot := Option.some_inj.mp ((h.known _ _ hold).symm.trans hraw)
    have hmark : slot' ≠ Index.exhausted := by
      rintro rfl
      exact h.answered p hp hold
    -- the row may be that of another pair by now; visits only count it
    have hlt := ht.grounded.lt_used _ _ hold hmark
    obtain ⟨row, -, hrow⟩ := Pool.exists_liveRow hlt
    have hfor : t.rowFor p = row := by rw [rowFor, hold, Option.bind_some, hrow, Option.getD_some]
    refine ⟨_, by rw [h.old_row _ hlt, hrow, PairRow.iterate_countOnce, Option.map_some], ?_⟩
    rw [endsFor, hfor, PairRow.wordA_observed, PairRow.wordB_observed]
  | none =>
    -- the row was filled in by the first request of its key, and that was for the same pair
    obtain ⟨n, hn, hnumber⟩ := h.exists_number ht.capacity_le hold hraw
    obtain ⟨q, hfirst, hrow⟩ := h.new_row n _ hn
    obtain rfl : q = p := hsmall.key_inj q (List.mem_of_find?_eq_some hfirst) p hp
      (by simpa using List.find?_some hfirst)
    have hfor : t.rowFor q = PairRow.fill q default := by rw [rowFor, hold]; rfl
    refine ⟨_, hnumber ▸ hrow, ?_⟩
    rw [endsFor, hfor, PairRow.iterate_countOnce, PairRow.wordA_observed, PairRow.wordB_observed]

/-! ### Lists of pairs -/

/-- What a tally has to be like for all pairs of a list to be observed. -/
structure Admits (t : Tally α) (ps : List WordPair) : Prop where
  /-- No pair was refused before. -/
  unmarked : ∀ p ∈ ps, t.pairs.index.raw? p.key ≠ some Index.exhausted
  ends_lt : ∀ p ∈ ps, (t.endsFor p).1 < t.words.capacity ∧ (t.endsFor p).2 < t.words.capacity
  /-- There are slots for the new ones. -/
  room : t.pairs.used + (t.pairs.newKeys (ps.map WordPair.key)).length ≤ t.pairs.capacity

theorem admits_concat_iff : Admits t (ps ++ [p]) ↔
    Admits t ps ∧ t.pairs.index.raw? p.key ≠ some Index.exhausted
      ∧ ((t.endsFor p).1 < t.words.capacity ∧ (t.endsFor p).2 < t.words.capacity)
      ∧ t.pairs.used + (t.pairs.newKeys ((ps ++ [p]).map WordPair.key)).length
        ≤ t.pairs.capacity := by
  constructor
  · intro h
    have hprefix : t.pairs.newKeys (ps.map WordPair.key)
        <+: t.pairs.newKeys ((ps ++ [p]).map WordPair.key) :=
      Pool.newKeys_prefix ((List.prefix_append ps [p]).map WordPair.key)
    refine ⟨⟨fun q hq => h.unmarked q (by simp [hq]), fun q hq => h.ends_lt q (by simp [hq]), ?_⟩,
      h.unmarked p (by simp), h.ends_lt p (by simp), h.room⟩
    exact (Nat.add_le_add_left hprefix.length_le _).trans h.room
  · intro h
    obtain ⟨h, hmark, hends, hroom⟩ := h
    refine ⟨fun q hq => ?_, fun q hq => ?_, hroom⟩
    all_goals rcases List.mem_append.mp hq with hq | hq
    · exact h.unmarked q hq
    · rwa [List.mem_singleton.mp hq]
    · exact h.ends_lt q hq
    · rwa [List.mem_singleton.mp hq]

/-- Whether a tally admits pairs does not depend on their order. -/
theorem Admits.perm (h : Admits t ps) (hperm : ps.Perm ps') : Admits t ps' where
  unmarked p hp := h.unmarked p (hperm.mem_iff.mpr hp)
  ends_lt p hp := h.ends_lt p (hperm.mem_iff.mpr hp)
  room := by
    rw [← (Pool.newKeys_perm (hperm.map WordPair.key)).length_eq]
    exact h.room

/-- `t'` is `t` after the pairs of a list were observed, whatever the index of `t` is like. -/
structure Counted (t t' : Tally α) (ps : List WordPair) : Prop where
  visited : Pool.Visited WordPair.key PairRow.fill countOnce t.pairs t'.pairs ps
  intact : t'.pairs.Intact
  words_eq : t'.words = ps.foldl (fun words p => addToEnds 1 (t.endsFor p) words) t.words
  capacity_eq : t'.words.capacity = t.words.capacity
  total_eq : t'.total = t.total + ps.length.toUInt64

theorem counted_nil (ht : t.pairs.Intact) : Counted t t [] where
  visited := Pool.visited_nil ht.grounded
  intact := ht
  words_eq := rfl
  capacity_eq := rfl
  total_eq := (UInt64.add_zero _).symm

theorem observePair_eq_ok_iff_found : observePair p t = .ok () t' ↔
    ∃ answer pairs ends, Pool.findOrCreate p.key (PairRow.fill p) t.pairs = .ok answer pairs
      ∧ endsOf t.words pairs answer.1.toNat = .ok ends
      ∧ t' = ⟨addToEnds 1 ends t.words, pairs.modify answer.1.toNat countOnce, t.total + 1⟩ := by
  rw [observePair, bind_eq_ok_iff]
  constructor
  · intro h
    obtain ⟨answer, t₁, hask, hobserve⟩ := h
    obtain ⟨pairs, hfind, rfl⟩ := onPairs_eq_ok_iff.mp hask
    obtain ⟨ends, hends, rfl⟩ := observe_eq_ok_iff.mp hobserve
    exact ⟨answer, pairs, ends, hfind, hends, rfl⟩
  · intro h
    obtain ⟨answer, pairs, ends, hfind, hends, rfl⟩ := h
    exact ⟨answer, _, onPairs_eq_ok_iff.mpr ⟨pairs, hfind, rfl⟩,
      observe_eq_ok_iff.mpr ⟨ends, hends, rfl⟩⟩

section

variable (ht : t.pairs.Intact) (hsmall : TellsApart (ps ++ [p])) (h : Counted t t' ps)
include ht hsmall h

/-- Once its slot is answered, a pair is observed if the words in its row are in the arena. -/
theorem Counted.asked {answer : UInt32 × Bool} {pairs : PairPool α}
    (hfind : Pool.findOrCreate p.key (PairRow.fill p) t'.pairs = .ok answer pairs) :
    Pool.Visited WordPair.key PairRow.fill countOnce t.pairs
        (pairs.modify answer.1.toNat countOnce) (ps ++ [p])
      ∧ (pairs.modify answer.1.toNat countOnce).Intact
      ∧ ∀ ends, endsOf t'.words pairs answer.1.toNat = .ok ends ↔
        ((t.endsFor p).1 < t.words.capacity ∧ (t.endsFor p).2 < t.words.capacity)
          ∧ ends = t.endsFor p := by
  obtain ⟨slot, created⟩ := answer
  obtain ⟨hvisited, hraw, -⟩ :=
    h.visited.visit ht.grounded ht.capacity_le p.storable_key hfind
  obtain ⟨hintact, hlt⟩ := h.intact.of_findOrCreate_eq_ok hfind
  refine ⟨hvisited, hintact.modify hlt countOnce, fun ends => ?_⟩
  -- the words of the row are those that it has when the visit is done
  obtain ⟨row, hrow, hwords⟩ :=
    row_of_visited hsmall hvisited ht (List.mem_append_right _ (List.mem_singleton_self p)) hraw
  obtain ⟨before, -, hbefore⟩ := Pool.exists_liveRow hlt
  have hsame : countOnce before = row := by
    rw [Pool.liveRows_modify, List.getElem?_modify, hbefore] at hrow
    simpa using hrow
  have hends : (before.wordA.toNat, before.wordB.toNat) = t.endsFor p := by
    rw [← hwords, ← hsame]
    rfl
  rw [endsOf_eq_ok_iff, Pool.row?_of_liveRows hbefore, h.capacity_eq, ← hends]
  simp [and_assoc]

/-- **One more pair.** It is observed exactly if the tally at the beginning admits it. -/
theorem Counted.observePair_iff : (∃ t'', observePair p t' = .ok () t'') ↔
    t.pairs.index.raw? p.key ≠ some Index.exhausted
      ∧ ((t.endsFor p).1 < t.words.capacity ∧ (t.endsFor p).2 < t.words.capacity)
      ∧ t.pairs.used + (t.pairs.newKeys ((ps ++ [p]).map WordPair.key)).length
        ≤ t.pairs.capacity := by
  have hanswers := h.visited.answers_iff (r := p) h.intact ht.capacity_le p.storable_key
  constructor
  · intro hrun
    obtain ⟨t'', hrun⟩ := hrun
    obtain ⟨answer, pairs, ends, hfind, hends, -⟩ := observePair_eq_ok_iff_found.mp hrun
    obtain ⟨hmark, hroom⟩ := hanswers.mp ⟨answer, pairs, hfind⟩
    exact ⟨hmark, ((h.asked ht hsmall hfind).2.2 ends |>.mp hends).1, hroom⟩
  · intro hadmits
    obtain ⟨hmark, hlt, hroom⟩ := hadmits
    obtain ⟨answer, pairs, hfind⟩ := hanswers.mpr ⟨hmark, hroom⟩
    exact ⟨_, observePair_eq_ok_iff_found.mpr ⟨answer, pairs, _, hfind,
      (h.asked ht hsmall hfind).2.2 _ |>.mpr ⟨hlt, rfl⟩, rfl⟩⟩

theorem Counted.observePair (hrun : observePair p t' = .ok () t'') :
    Counted t t'' (ps ++ [p]) := by
  obtain ⟨answer, pairs, ends, hfind, hends, rfl⟩ := observePair_eq_ok_iff_found.mp hrun
  obtain ⟨hvisited, hintact, hends_iff⟩ := h.asked ht hsmall hfind
  obtain ⟨-, rfl⟩ := (hends_iff ends).mp hends
  refine ⟨hvisited, hintact, ?_, h.capacity_eq, ?_⟩
  · rw [List.foldl_concat, ← h.words_eq]
  · rw [h.total_eq, add_length_concat]

end

omit [Weight α] in
theorem forM_concat_eq_ok_iff {act : WordPair → Stage (Tally α) Unit} :
    (ps ++ [p]).forM act t = .ok () t'' ↔ ∃ t', ps.forM act t = .ok () t' ∧ act p t' = .ok () t'' := by
  rw [← outcome_eq_ok_iff, outcome_forM_append]
  constructor
  · intro h
    rcases hfirst : outcome (ps.forM act) t with ⟨e | ⟨⟩, t'⟩
    · rw [hfirst] at h
      cases h
    · rw [hfirst] at h
      obtain ⟨⟨⟩, t₁, hlast, ⟨⟩⟩ := bind_eq_ok_iff.mp (outcome_eq_ok_iff.mp h)
      exact ⟨t', outcome_eq_ok_iff.mp hfirst, hlast⟩
  · intro h
    obtain ⟨t', hfirst, hlast⟩ := h
    rw [outcome_of_ok hfirst]
    exact outcome_of_ok (bind_eq_ok_iff.mpr ⟨(), t'', hlast, rfl⟩)

/-- A loop that comes to its end has counted its pairs. -/
theorem counted_of_forM (ht : t.pairs.Intact) (hsmall : TellsApart ps)
    (hrun : ps.forM observePair t = .ok () t') : Counted t t' ps := by
  induction ps using List.reverseRecOn generalizing t' with
  | nil =>
    cases hrun
    exact counted_nil ht
  | append_singleton ps p ih =>
    obtain ⟨t₁, hfirst, hlast⟩ := forM_concat_eq_ok_iff.mp hrun
    have hdone := ih (fun q hq => hsmall q (List.mem_append_left _ hq)) hfirst
    exact hdone.observePair ht hsmall hlast

/-- **Loops over pairs.** A loop comes to its end exactly if the tally admits its pairs. -/
theorem forM_observePair_iff (ht : t.pairs.Intact) (hsmall : TellsApart ps) :
    (∃ t', ps.forM observePair t = .ok () t') ↔ Admits t ps := by
  induction ps using List.reverseRecOn with
  | nil => exact ⟨fun _ => ⟨by simp, by simp, t.pairs.used_le_capacity⟩, fun _ => ⟨t, rfl⟩⟩
  | append_singleton ps p ih =>
    have hsmall' : TellsApart ps := fun q hq => hsmall q (List.mem_append_left _ hq)
    rw [admits_concat_iff, ← ih hsmall']
    constructor
    · intro hrun
      obtain ⟨t'', hrun⟩ := hrun
      obtain ⟨t', hfirst, hlast⟩ := forM_concat_eq_ok_iff.mp hrun
      have hdone := counted_of_forM ht hsmall' hfirst
      exact ⟨⟨t', hfirst⟩, (hdone.observePair_iff ht hsmall).mp ⟨t'', hlast⟩⟩
    · intro hadmits
      obtain ⟨⟨t', hfirst⟩, hadmits⟩ := hadmits
      have hdone := counted_of_forM ht hsmall' hfirst
      obtain ⟨t'', hlast⟩ := (hdone.observePair_iff ht hsmall).mpr hadmits
      exact ⟨t'', forM_concat_eq_ok_iff.mpr ⟨t', hfirst, hlast⟩⟩

/-! ### Another order -/

/-- Two tallies that came of `t` differ in the slots of their new pairs at most. -/
structure SameButNewSlots (t t₁ t₂ : Tally α) : Prop where
  words_eq : t₂.words = t₁.words
  total_eq : t₂.total = t₁.total
  old_row : ∀ slot < t.pairs.used, t₂.pairs.liveRows[slot]? = t₁.pairs.liveRows[slot]?
  /-- A pair has one new slot at most. -/
  nodup_new : ((t₁.pairs.liveRows.drop t.pairs.used).map PairRow.words).Nodup
    ∧ ((t₂.pairs.liveRows.drop t.pairs.used).map PairRow.words).Nodup
  new_entry : ∀ p, t₂.pairs.newEntry? t.pairs.used p = t₁.pairs.newEntry? t.pairs.used p
  renumbered : ∃ σ, t.pairs.Renumbered t₁.pairs t₂.pairs σ

theorem addToEnds_comm (ends ends' : ℕ × ℕ) (words : WordPool α) :
    addToEnds 1 ends (addToEnds 1 ends' words) = addToEnds 1 ends' (addToEnds 1 ends words) := by
  unfold addToEnds
  dsimp only
  rw [Pool.modify_comm _ ends'.2 ends.1, Pool.modify_comm _ ends'.1 ends.1,
    Pool.modify_comm _ ends'.2 ends.2, Pool.modify_comm _ ends'.1 ends.2]

section

variable (hsmall : TellsApart ps) (h : Counted t t' ps)
include hsmall h

/-- The words in the new slots are the new pairs. -/
theorem Counted.words_new : (t'.pairs.liveRows.drop t.pairs.used).map PairRow.words
    = Pool.newRequests WordPair.key t.pairs ps := by
  rw [h.visited.drop_liveRows hsmall.key_inj, List.map_map]
  simp [Function.comp_def, PairRow.iterate_countOnce]

theorem Counted.newEntry?_eq (p : WordPair) : t'.pairs.newEntry? t.pairs.used p
    = if p ∈ Pool.newRequests WordPair.key t.pairs ps then some (addOnes (ps.count p) 0, true)
      else none := by
  rw [PairPool.newEntry?, h.visited.drop_liveRows hsmall.key_inj,
    find?_map_of_inverse fun q => by
      rw [PairRow.iterate_countOnce, PairRow.words_observed, PairRow.words_fill]]
  split
  · rename_i hp
    have hcount : ps.count p ≠ 0 :=
      (List.count_pos_iff.mpr (Pool.mem_newRequests.mp hp).1).ne'
    rw [PairRow.iterate_countOnce, Option.map_some, PairRow.isDirty_observed hcount]
    rfl
  · rfl

end

/-- **The same pairs in another order.** What is left differs in the slots of new pairs at most. -/
theorem Counted.sameButNewSlots (ht : t.pairs.Intact) (hsmall : TellsApart ps)
    (h₁ : Counted t t₁ ps) (h₂ : Counted t t₂ ps') (hperm : ps.Perm ps') :
    SameButNewSlots t t₁ t₂ := by
  have hsmall' : TellsApart ps' := fun p hp => hsmall p (hperm.mem_iff.mpr hp)
  constructor
  case words_eq =>
    rw [h₁.words_eq, h₂.words_eq]
    exact (hperm.foldl_eq' (fun _ _ _ _ _ => addToEnds_comm _ _ _) _).symm
  case total_eq => rw [h₁.total_eq, h₂.total_eq, hperm.length_eq]
  case old_row =>
    intro slot hslot
    rw [h₁.visited.old_row slot hslot, h₂.visited.old_row slot hslot, Pool.visits, Pool.visits,
      hperm.countP_eq]
  case nodup_new =>
    rw [h₁.words_new hsmall, h₂.words_new hsmall']
    exact ⟨Pool.nodup_newRequests, Pool.nodup_newRequests⟩
  case new_entry =>
    intro p
    simp only [h₁.newEntry?_eq hsmall, h₂.newEntry?_eq hsmall', hperm.count_eq,
      (Pool.newRequests_perm hperm).mem_iff]
  case renumbered =>
    exact h₁.visited.exists_renumbered hsmall.key_inj h₂.visited hperm ht.grounded ht.capacity_le

end Tally

end CorpusStats
