import CorpusStats.Proofs.Engine.Words
import CorpusStats.Proofs.Exact
import CorpusStats.Proofs.Tally.Coherent
/-!
# CorpusStats.Proofs.Engine.Coherence

The index of pairs and the rows of pairs agree over whole runs, as long as the index is rebuilt
whenever the pairs were folded (`Call.FoldsFollowed`).

`Engine.coherent_run` carries `PairPool.Coherent` through every call, failed ones too. Between
folding the pairs and rebuilding their index only `PairPool.Ordered` holds, and that is all that
rebuilding needs. What a host may rely on is `Engine.IndexesPairs`.
-/

namespace CorpusStats

open Stage

variable {α : Type}

/-- Whether every call that folds the pairs is directly followed by one that rebuilds their index. -/
def Call.FoldsFollowed : List (Call α) → Prop
  | [] => True
  | call :: calls => (call = .foldPairs → calls.head? = some .reindexPairs) ∧ FoldsFollowed calls

variable [Weight α]

namespace Engine

/-! ### What calls do -/

variable {P : UInt32 → Prop} {e : Engine α}

theorem ordered_foldPairs (hP : ∀ word, P word → P (WordPool.classOf e.store.tally.words word))
    (h : PairPool.Ordered P e.store.tally.pairs) :
    PairPool.Ordered P (e.after .foldPairs).store.tally.pairs :=
  Tally.ordered_foldPairs hP (s := ⟨e.store.tally, e.store.log⟩) h

theorem coherent_reindexPairs (h : PairPool.Ordered P e.store.tally.pairs) :
    PairPool.Coherent P (e.after .reindexPairs).store.tally.pairs := by
  rw [after_eq, perform, outcome_map, reindexPairs, outcome_onStore, Store.outcome_onTally]
  exact Tally.coherent_reindexPairs (s := ⟨e.store.tally, e.store.log⟩) h

/-- Every other call leaves an index that agrees with the rows, whether it answers or fails. -/
theorem coherent_after (hP : ∀ word, word ≠ noClass → P word)
    (hwords : e.store.tally.words.capacity ≤ maxPoolCapacity.toNat)
    (h : PairPool.Coherent P e.store.tally.pairs) {call : Call α} (hcall : call ≠ .foldPairs)
    (hasks : call.AsksForPairsOf P) : PairPool.Coherent P (e.after call).store.tally.pairs := by
  have harena word (hword : word.toNat < e.store.tally.words.capacity) : P word := by
    refine hP word ?_
    rintro rfl
    exact absurd (hword.trans_le hwords) (by decide)
  have hkept (hcall : call.KeepsIndex) : PairPool.Coherent P (e.after call).store.tally.pairs := by
    rw [after_eq]
    exact pairs_perform PairPool.persists_coherent hcall hasks harena h
  cases call with
  | foldPairs => exact absurd rfl hcall
  | reindexPairs => exact coherent_reindexPairs h.toOrdered
  | fold =>
    rw [after_eq, perform, outcome_map, fold, outcome_onStore, Store.tally_fold]
    exact Tally.coherent_reindexPairs (Tally.ordered_foldPairs
      (fun _ => WordPool.classOf_mem hP e.store.tally.words) h.toOrdered)
  | reset => exact PairPool.coherent_of_blank e.store.tally.pairs.blank_reset h.capacity_le
  | _ => exact hkept trivial

/-- The index agrees with the rows after a run, if it does before or is rebuilt first. -/
theorem coherent_run (hP : ∀ word, word ≠ noClass → P word) {calls : List (Call α)}
    (hfolds : Call.FoldsFollowed calls) (hasks : ∀ call ∈ calls, call.AsksForPairsOf P) {n : ℕ}
    (hn : n ≤ maxPoolCapacity.toNat) {asked : List UInt64} (hwords : e.WordsNumbered n asked)
    (h : PairPool.Coherent P e.store.tally.pairs
      ∨ PairPool.Ordered P e.store.tally.pairs ∧ calls.head? = some .reindexPairs) :
    PairPool.Coherent P (run calls e).store.tally.pairs := by
  induction calls generalizing e asked with
  | nil =>
    rcases h with h | ⟨-, hhead⟩
    · exact h
    · cases hhead
  | cons call calls ih =>
    refine ih hfolds.2 (fun c hc => hasks c (List.mem_cons_of_mem _ hc))
      (wordsNumbered_after hwords call) ?_
    rcases h with h | ⟨h, hhead⟩
    · by_cases hcall : call = .foldPairs
      · subst hcall
        exact .inr ⟨ordered_foldPairs (fun _ => WordPool.classOf_mem hP e.store.tally.words)
          h.toOrdered, hfolds.1 rfl⟩
      · refine .inl (coherent_after hP ?_ h hcall (hasks call List.mem_cons_self))
        rw [hwords.1]
        exact hn
    · cases hhead
      exact .inl (coherent_reindexPairs h)

theorem coherent_of_ofConfig (hP : ∀ word, word ≠ noClass → P word) {config : Config}
    (he : ofConfig config = .ok e) {calls : List (Call α)} (hfolds : Call.FoldsFollowed calls)
    (hasks : ∀ call ∈ calls, call.AsksForPairsOf P) :
    PairPool.Coherent P (run calls e).store.tally.pairs := by
  have hnew := new_of_ofConfig he
  obtain ⟨hwords, hpairs, -⟩ := hnew.capacities_le
  exact coherent_run hP hfolds hasks hwords (wordsNumbered_of_ofConfig he)
    (.inl (PairPool.coherent_of_blank hnew.pairs hpairs))

/-! ### What a host sees -/

/-- Where the pairs of two lists of words are, once they were asked for. -/
structure HoldsPairs (e : Engine α) (as bs slots : List UInt32) : Prop where
  length_eq : slots.length = as.length ∧ as.length = bs.length
  /-- A slot holds the smaller of its two words first. -/
  row_eq : ∀ (i : ℕ) a b slot, as[i]? = some a → bs[i]? = some b → slots[i]? = some slot →
    slot.toNat < e.store.tally.pairs.used
      ∧ ∃ row, e.store.tally.pairs.row? slot.toNat = some row
        ∧ row.wordA = min a b ∧ row.wordB = max a b
  /-- Asking again in any order answers the same slots and changes nothing. -/
  again : ∃ e', perform (.pairSlots as bs) e = .ok (.slots slots) e'
    ∧ perform (.pairSlots bs as) e = .ok (.slots slots) e' ∧ e'.store.tally = e.store.tally

/-- The index of pairs is right about the rows. -/
structure IndexesPairs (e : Engine α) : Prop where
  /-- A key that leads to a slot is the key of the words of the slot, which are in order. -/
  entry : ∀ key slot, (key, slot) ∈ e.store.tally.pairs.index.entries →
    slot.toNat < e.store.tally.pairs.capacity →
    slot.toNat < e.store.tally.pairs.used
      ∧ ∃ row, e.store.tally.pairs.row? slot.toNat = some row
        ∧ row.wordA ≤ row.wordB ∧ key = (WordPair.of row.wordA row.wordB).key
  /-- Pairs that are asked for are found in slots that hold them, whatever order their words are
  named in. -/
  answer : ∀ as bs slots e', (∀ word ∈ as ++ bs, word < 0xFFFFFFFF) →
    perform (.pairSlots as bs) e = .ok (.slots slots) e' →
    perform (.pairSlots bs as) e = .ok (.slots slots) e' ∧ e'.HoldsPairs as bs slots

theorem perform_pairSlots_eq_ok_iff {e' : Engine α} {as bs slots : List UInt32} :
    perform (.pairSlots as bs) e = .ok (.slots slots) e' ↔
      ∃ s, Tally.pairSlots as bs ⟨e.store.tally, e.store.log⟩ = .ok slots s
        ∧ e' = { e with store := { e.store with tally := s.state, log := s.log } } := by
  rw [perform, map_eq_ok_iff]
  constructor
  · intro h
    obtain ⟨_, hrun, heq⟩ := h
    cases heq
    exact onTally_eq_ok_iff.mp hrun
  · intro h
    exact ⟨slots, onTally_eq_ok_iff.mpr h, rfl⟩

theorem indexesPairs_of_coherent (h : PairPool.Coherent (· < 0xFFFFFFFF) e.store.tally.pairs) :
    e.IndexesPairs := by
  refine ⟨fun key slot hentry hslot => ?_, fun as bs slots e' hwords hrun => ?_⟩
  · rw [h.sound.mem_entries_iff] at hentry
    have hmark := (Index.not_reserved (hslot.trans_le h.capacity_le)).2
    have hlt := h.lt_used hentry hmark
    obtain ⟨row, hrow, rfl⟩ := h.keyed key slot hentry hmark
    exact ⟨hlt, row, Pool.row?_of_liveRows hrow, (h.ordered _ row hrow).1, rfl⟩
  · have has a (ha : a ∈ as) : a < 0xFFFFFFFF := hwords a (List.mem_append_left _ ha)
    have hbs b (hb : b ∈ bs) : b < 0xFFFFFFFF := hwords b (List.mem_append_right _ hb)
    obtain ⟨s, hslots, rfl⟩ := perform_pairSlots_eq_ok_iff.mp hrun
    obtain ⟨hlength, hcoherent, hfound⟩ := Tally.found_of_pairSlots h has hbs hslots
    have hagain := Tally.pairSlots_of_found (s := s) hcoherent hlength hfound
    have hlength' : slots.length = as.length := by
      rw [← hfound.length_eq, List.length_zip, hlength, Nat.min_self]
    refine ⟨?_, ⟨hlength', hlength⟩, fun i a b slot ha hb hslot => ?_, ?_⟩
    · rw [Tally.pairSlots_comm hlength] at hslots
      exact perform_pairSlots_eq_ok_iff.mpr ⟨s, hslots, rfl⟩
    · have hpair : s.state.pairs.Finds (a, b) slot := by
        obtain ⟨hi, hslot⟩ := List.getElem?_eq_some_iff.mp hslot
        have hzip : (as.zip bs)[i]? = some (a, b) := List.getElem?_zip_eq_some.mpr ⟨ha, hb⟩
        obtain ⟨hi', hzip⟩ := List.getElem?_eq_some_iff.mp hzip
        have hget := hfound.get hi' hi
        rwa [List.get_eq_getElem, List.get_eq_getElem, hzip, hslot] at hget
      obtain ⟨row, hrow, hA, hB⟩ := hcoherent.row_of_finds (fun _ => id)
        (has a (List.mem_of_getElem? ha)) (hbs b (List.mem_of_getElem? hb)) hpair
      exact ⟨Pool.lt_used_of_liveRows hrow, row, Pool.row?_of_liveRows hrow, hA, hB⟩
    · refine ⟨_, perform_pairSlots_eq_ok_iff.mpr ⟨_, hagain, rfl⟩, ?_, rfl⟩
      rw [Tally.pairSlots_comm hlength] at hagain
      exact perform_pairSlots_eq_ok_iff.mpr ⟨_, hagain, rfl⟩

/-- **The index of pairs is right about the rows.** After every run in which folding pairs is
directly followed by rebuilding their index and words that are asked for are below the largest
number, failed calls among them, every key that leads to a slot is the key of the words that the
slot has now, which are in order. So asking for a pair answers one slot, whatever order its words
are named in, and the slot holds the pair. -/
theorem pairs_indexed {config : Config} (he : ofConfig config = .ok e) {calls : List (Call α)}
    (hfolds : Call.FoldsFollowed calls)
    (hasks : ∀ call ∈ calls, call.AsksForPairsOf (· < 0xFFFFFFFF)) :
    (run calls e).IndexesPairs := by
  refine indexesPairs_of_coherent (coherent_of_ofConfig (fun word hword => ?_) he hfolds hasks)
  have hne : word.toNat ≠ 2 ^ 32 - 1 := fun heq => hword (UInt32.toNat_inj.mp heq)
  have hlt := word.toNat_lt
  rw [UInt32.lt_iff_toNat_lt, show (0xFFFFFFFF : UInt32).toNat = 2 ^ 32 - 1 from rfl]
  omega

/-- A pair that a fold moves, one without count that it leaves behind, and one for which there is
no room any more. The moved pair is found under its new words only, in either order. -/
theorem pairs_indexed_moved :
    let calls : List (Call ℚ) := [.pairSlots [3, 1] [0, 1], .countPairs [0],
      .assignClasses ⟨[(3, 2)], by decide⟩, .foldPairs, .reindexPairs, .pairSlots [9, 7, 6] [8, 7, 5]]
    ∃ e e' : Engine ℚ, ofConfig .tiny = .ok e ∧ (run calls e).IndexesPairs
      ∧ ((WordPair.of 5 6).key, Index.exhausted) ∈ (run calls e).store.tally.pairs.index.entries
      ∧ (run calls e).lookupPair 3 0 = none
      ∧ perform (.pairSlots [2] [0]) (run calls e) = .ok (.slots [0]) e'
      ∧ e'.HoldsPairs [2] [0] [0] := by
  intro calls
  obtain ⟨e, he, hmark, hlookup, hanswer⟩ := exists_ofConfig_of_mem .tiny (P := fun e : Engine ℚ =>
    ((WordPair.of 5 6).key, Index.exhausted) ∈ (run calls e).store.tally.pairs.index.entries
      ∧ (run calls e).lookupPair 3 0 = none
      ∧ (outcome (pairSlots [2] [0]) (run calls e)).1.toOption = some [0]) (by decide +kernel)
  have hperform : perform (.pairSlots [2] [0]) (run calls e) = _ :=
    map_eq_ok_of_toOption Answer.slots hanswer
  have hfolds : Call.FoldsFollowed calls := by simp [calls, Call.FoldsFollowed]
  have hindexes := pairs_indexed he hfolds (by simp [calls, Call.AsksForPairsOf])
  exact ⟨e, _, he, hindexes, hmark, hlookup, hperform, (hindexes.answer _ _ _ _ (by simp) hperform).2⟩

end Engine

end CorpusStats
