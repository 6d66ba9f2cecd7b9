import CorpusStats.Proofs.Tally.Pairs
/-!
# CorpusStats.Proofs.Tally.Coherent

The index of pairs agrees with the rows that it leads to.

* Rows in use have their smaller word first (`PairPool.Ordered`). Folding puts the classes in
  order again, and no other stage moves words.
* Whatever slot a key leads to, the key is that of the words that the slot has now
  (`PairPool.Coherent`). Stages that leave the words keep that, and folding the pairs breaks it.
  Rebuilding the index brings it about again, even if it comes to no end, since it starts from
  no keys at all and enters every row under its own (`PairPool.Entered`).

Words are taken from a set `P`. Folding does not lead out of it if it has the classes of its words,
as a set of all words that may be classes has, so a bound on the words that are asked for is a
bound on the words of all rows.
-/

namespace CorpusStats

open Stage

variable {α : Type}

/-! ### Words in order -/

theorem WordPair.of_mem {P : UInt32 → Prop} {a b : UInt32} (ha : P a) (hb : P b) :
    P (of a b).first ∧ P (of a b).second := by
  unfold of
  split
  · exact ⟨ha, hb⟩
  · exact ⟨hb, ha⟩

/-- The class of a word is the word itself or a number that may stand for a class. -/
theorem WordPool.classOf_mem {P : UInt32 → Prop} (hP : ∀ word, word ≠ noClass → P word)
    (words : WordPool α) {word : UInt32} (hword : P word) : P (classOf words word) := by
  unfold classOf
  split
  · split
    · exact hword
    · rename_i hclass
      exact hP _ hclass
  · exact hword

namespace PairRow

/-- The smaller word comes first, and both are in `P`. -/
def Ordered (P : UInt32 → Prop) (row : PairRow α) : Prop :=
  row.wordA ≤ row.wordB ∧ P row.wordA ∧ P row.wordB

variable {P : UInt32 → Prop} {row : PairRow α}

theorem Ordered.words_eq (h : row.Ordered P) : row.words = ⟨row.wordA, row.wordB, h.1⟩ :=
  WordPair.of_of_le h.1

theorem Ordered.keepsWords (h : row.Ordered P) {f : PairRow α → PairRow α} (hf : KeepsWords f) :
    (f row).Ordered P := by
  rw [Ordered, (hf row).1, (hf row).2]
  exact h

theorem Ordered.folded [Weight α] {words : WordPool α}
    (hP : ∀ word, P word → P (WordPool.classOf words word)) (h : row.Ordered P) :
    (row.folded words).Ordered P := by
  have hclasses := WordPair.of_mem (hP _ h.2.1) (hP _ h.2.2)
  have hmoved (pair : WordPair) (hpair : row.moved? words = some pair) :
      P pair.first ∧ P pair.second := by
    unfold moved? at hpair
    dsimp only at hpair
    split at hpair
    · cases hpair
    · cases hpair
      exact hclasses
  unfold PairRow.folded
  cases hpair : row.moved? words with
  | none => exact h
  | some pair =>
    dsimp only
    split <;> exact ⟨pair.first_le_second, hmoved pair hpair⟩

end PairRow

variable [Weight α]

namespace PairPool

variable {P : UInt32 → Prop} {pairs pairs' : PairPool α}

/-- Rows in use have their words in order, and in `P`. -/
structure Ordered (P : UInt32 → Prop) (pairs : PairPool α) : Prop where
  sound : pairs.index.Sound
  tidy : pairs.Tidy
  capacity_le : pairs.capacity ≤ maxPoolCapacity.toNat
  ordered : ∀ (slot : ℕ) row, pairs.liveRows[slot]? = some row → row.Ordered P

/-- The key that leads to a slot is the key of the words in it. -/
structure Coherent (P : UInt32 → Prop) (pairs : PairPool α) : Prop extends Ordered P pairs where
  keyed : ∀ key slot, pairs.index.raw? key = some slot → slot ≠ Index.exhausted →
    ∃ row, pairs.liveRows[slot.toNat]? = some row ∧ row.words.key = key

/-! ### Rows -/

theorem Ordered.modify (h : Ordered P pairs) {slot : ℕ} (hslot : slot < pairs.used)
    {f : PairRow α → PairRow α} (hf : PairRow.KeepsWords f) : Ordered P (pairs.modify slot f) := by
  refine ⟨h.sound, Pool.tidy_modify h.tidy hslot f, h.capacity_le, fun slot' row hrow => ?_⟩
  rw [Pool.liveRows_modify, List.getElem?_modify] at hrow
  obtain ⟨old, hold, rfl⟩ := Option.map_eq_some_iff.mp hrow
  have hrow := h.ordered slot' old hold
  split
  · exact hrow.keepsWords hf
  · exact hrow

theorem Ordered.mapped (h : Ordered P pairs) {f : PairRow α → PairRow α}
    (hmapped : Pool.Mapped pairs pairs' f) (hf : ∀ row, row.Ordered P → (f row).Ordered P) :
    Ordered P pairs' := by
  refine ⟨hmapped.index_eq ▸ h.sound, hmapped.tidy h.tidy, ?_, fun slot row hrow => ?_⟩
  · exact hmapped.capacity_eq.trans_le h.capacity_le
  · rw [hmapped.liveRows_eq, List.getElem?_map] at hrow
    obtain ⟨old, hold, rfl⟩ := Option.map_eq_some_iff.mp hrow
    exact hf old (h.ordered slot old hold)

omit [Weight α] in
/-- A row has the same words after it was changed. -/
theorem exists_row_modify (slot : ℕ) {slot' : ℕ} {row : PairRow α}
    (hrow : pairs.liveRows[slot']? = some row) {f : PairRow α → PairRow α}
    (hf : PairRow.KeepsWords f) :
    ∃ row', (pairs.modify slot f).liveRows[slot']? = some row' ∧ row'.words = row.words := by
  refine ⟨if slot = slot' then f row else row, ?_, ?_⟩
  · rw [Pool.liveRows_modify, List.getElem?_modify, hrow]
    rfl
  · split
    · exact hf.words_eq row
    · rfl

theorem Coherent.modify (h : Coherent P pairs) {slot : ℕ} (hslot : slot < pairs.used)
    {f : PairRow α → PairRow α} (hf : PairRow.KeepsWords f) : Coherent P (pairs.modify slot f) := by
  refine ⟨h.toOrdered.modify hslot hf, fun key slot' hraw hslot' => ?_⟩
  obtain ⟨row, hrow, hkey⟩ := h.keyed key slot' hraw hslot'
  obtain ⟨row', hrow', hwords⟩ := exists_row_modify slot hrow hf
  exact ⟨row', hrow', hwords ▸ hkey⟩

theorem Coherent.mapped (h : Coherent P pairs) {f : PairRow α → PairRow α}
    (hmapped : Pool.Mapped pairs pairs' f) (hf : PairRow.KeepsWords f) : Coherent P pairs' := by
  refine ⟨h.toOrdered.mapped hmapped fun row hrow => hrow.keepsWords hf, fun key slot hraw hslot => ?_⟩
  rw [hmapped.index_eq] at hraw
  obtain ⟨row, hrow, hkey⟩ := h.keyed key slot hraw hslot
  refine ⟨f row, ?_, by rw [hf.words_eq, hkey]⟩
  rw [hmapped.liveRows_eq, List.getElem?_map, hrow, Option.map_some]

theorem coherent_of_blank (h : pairs.Blank) (hle : pairs.capacity ≤ maxPoolCapacity.toNat) :
    Coherent P pairs := by
  refine ⟨⟨h.sound, h.tidy, hle, fun slot row hrow => ?_⟩, fun key slot hraw => ?_⟩
  · rw [h.liveRows_eq] at hrow
    cases hrow
  · rw [h.raw?_eq] at hraw
    cases hraw

/-! ### Asking for pairs -/

/-- The index leads from the key of two words to a slot. -/
def Finds (pairs : PairPool α) (ab : UInt32 × UInt32) (slot : UInt32) : Prop :=
  pairs.index.raw? (WordPair.of ab.1 ab.2).key = some slot ∧ slot ≠ Index.exhausted

theorem Coherent.lt_used (h : Coherent P pairs) {key : UInt64} {slot : UInt32}
    (hraw : pairs.index.raw? key = some slot) (hslot : slot ≠ Index.exhausted) :
    slot.toNat < pairs.used := by
  obtain ⟨row, hrow, -⟩ := h.keyed key slot hraw hslot
  exact Pool.lt_used_of_liveRows hrow

theorem Coherent.grounded (h : Coherent P pairs) : Pool.Grounded pairs :=
  ⟨h.sound, h.tidy, fun _ _ => h.lt_used⟩

theorem Coherent.lookup_eq_some_iff (h : Coherent P pairs) {p : WordPair} {slot : UInt32} :
    pairs.lookup p.key = some slot ↔
      pairs.index.raw? p.key = some slot ∧ slot ≠ Index.exhausted := by
  rw [h.grounded.lookup_eq_some_iff h.capacity_le, WordPair.storable_key]

/-- A new pair has its own key. -/
theorem Coherent.created (h : Coherent P pairs) {p : WordPair} (hp : P p.first ∧ P p.second)
    (hroom : pairs.used < pairs.capacity) {fill : PairRow α → PairRow α}
    (hcreated : Pool.Created pairs pairs' p.key fill)
    (hfill : (fill default).wordA = p.first ∧ (fill default).wordB = p.second) :
    Coherent P pairs' := by
  have hnew : (fill default).words = p := by
    rw [PairRow.words, hfill.1, hfill.2, WordPair.of_first_second]
  have hlast : pairs'.liveRows[pairs.used]? = some (fill default) := by
    rw [hcreated.liveRows_eq, ← Pool.length_liveRows, List.getElem?_concat_length]
  refine ⟨⟨hcreated.written.sound, hcreated.tidy, ?_, fun slot row hrow => ?_⟩,
    fun key slot hraw hslot => ?_⟩
  · exact hcreated.capacity_eq.trans_le h.capacity_le
  · rw [hcreated.liveRows_eq] at hrow
    rcases getElem?_concat_cases hrow with hrow | ⟨-, rfl⟩
    · exact h.ordered slot row hrow
    · rw [PairRow.Ordered, hfill.1, hfill.2]
      exact ⟨p.first_le_second, hp⟩
  · rw [hcreated.written.raw?_eq] at hraw
    split at hraw
    · rename_i hkey
      cases hraw
      rw [Index.toNat_toUInt32 (hroom.trans_le h.capacity_le)]
      exact ⟨_, hlast, by rw [hnew, hkey, WordPair.storable_key]⟩
    · obtain ⟨row, hrow, hkey⟩ := h.keyed key slot hraw hslot
      refine ⟨row, ?_, hkey⟩
      rw [hcreated.liveRows_eq, List.getElem?_append_left (List.getElem?_eq_some_iff.mp hrow).1, hrow]

/-- A pair that is refused may leave a mark, which leads to no slot. -/
theorem Coherent.refused (h : Coherent P pairs) {key : UInt64}
    (hrefused : Pool.Refused pairs pairs' key) : Coherent P pairs' := by
  refine ⟨⟨hrefused.sound h.sound, hrefused.tidy h.tidy, ?_, ?_⟩, fun key' slot hraw hslot => ?_⟩
  · rw [Pool.capacity, hrefused.allocator_eq]
    exact h.capacity_le
  · rw [hrefused.liveRows_eq]
    exact h.ordered
  · rw [hrefused.liveRows_eq]
    rcases hrefused.index_cases with heq | ⟨-, -, hw, -⟩
    · exact h.keyed key' slot (heq ▸ hraw) hslot
    · rw [hw.raw?_eq] at hraw
      split at hraw
      · cases hraw
        exact absurd rfl hslot
      · exact h.keyed key' slot hraw hslot

/-- Everything that asking for a pair can do. What it answers is found, and what was found before
is found in the same slot afterwards. -/
theorem Coherent.slotOf_cases (h : Coherent P pairs) {a b : UInt32} (ha : P a) (hb : P b) :
    (∃ slot created pairs', slotOf a b pairs = .ok (slot, created) pairs' ∧ Coherent P pairs'
        ∧ pairs'.Finds (a, b) slot ∧ ∀ ab slot, pairs.Finds ab slot → pairs'.Finds ab slot)
      ∨ ∃ e pairs', slotOf a b pairs = .error e pairs' ∧ Coherent P pairs' := by
  have hkey : Key.storable (WordPair.of a b).key = (WordPair.of a b).key := WordPair.storable_key _
  rcases Pool.findOrCreate_cases h.sound h.tidy (WordPair.of a b).key
      (fun row : PairRow α => { row with
        wordA := (WordPair.of a b).first, wordB := (WordPair.of a b).second }) with
    ⟨slot, hraw, -, hslot, hrun⟩ | ⟨pairs', hnone, hroom, hrun, hcreated⟩ | ⟨e, pairs', hrun, hrefused⟩
  · rw [hkey] at hraw
    exact .inl ⟨slot, false, pairs, hrun, h, ⟨hraw, hslot⟩, fun _ _ => id⟩
  · have hw := hcreated.written
    rw [hkey] at hw hnone
    refine .inl ⟨_, true, pairs', hrun,
      h.created (WordPair.of_mem ha hb) hroom hcreated ⟨rfl, rfl⟩, ⟨?_, ?_⟩, fun ab slot hfound => ?_⟩
    · rw [hw.raw?_eq, if_pos rfl]
    · exact Index.toUInt32_ne_exhausted (hroom.trans_le h.capacity_le)
    · refine ⟨?_, hfound.2⟩
      rw [hw.raw?_eq, if_neg, hfound.1]
      intro heq
      rw [Finds, heq, hnone] at hfound
      cases hfound.1
  · exact .inr ⟨e, pairs', hrun, h.refused hrefused⟩

/-- Below the largest number, keys tell pairs apart, so the slot of a pair holds the pair. -/
theorem Coherent.words_eq (h : Coherent P pairs) {p : WordPair} {slot : UInt32} {row : PairRow α}
    (hraw : pairs.index.raw? p.key = some slot) (hslot : slot ≠ Index.exhausted)
    (hrow : pairs.liveRows[slot.toNat]? = some row) (hp : p.first.toNat < 2 ^ 32 - 1)
    (hfirst : row.wordA.toNat < 2 ^ 32 - 1) : row.words = p := by
  obtain ⟨row', hrow', hkey⟩ := h.keyed _ slot hraw hslot
  rw [hrow, Option.some_inj] at hrow'
  subst hrow'
  refine WordPair.key_inj ?_ hp hkey
  rwa [(h.ordered _ row hrow).words_eq]

theorem Coherent.row_of_finds (h : Coherent P pairs) (hP : ∀ word, P word → word < 0xFFFFFFFF)
    {a b slot : UInt32} (ha : P a) (hb : P b) (hfound : pairs.Finds (a, b) slot) :
    ∃ row, pairs.liveRows[slot.toNat]? = some row ∧ row.wordA = min a b ∧ row.wordB = max a b := by
  obtain ⟨row, hrow, -⟩ := h.keyed _ slot hfound.1 hfound.2
  have hordered := h.ordered _ row hrow
  have hbound (word : UInt32) (hword : P word) : word.toNat < 2 ^ 32 - 1 :=
    UInt32.lt_iff_toNat_lt.mp (hP word hword)
  have hpair : row.words = .of a b := h.words_eq hfound.1 hfound.2 hrow
    (hbound _ (WordPair.of_mem ha hb).1) (hbound _ hordered.2.1)
  rw [hordered.words_eq] at hpair
  refine ⟨row, hrow, ?_, ?_⟩
  · rw [← WordPair.of_first, ← hpair]
  · rw [← WordPair.of_second, ← hpair]

theorem persists_coherent : Persists P (Coherent (α := α) P) where
  slotOf pairs a b ha hb h := by
    rcases h.slotOf_cases ha hb with
      ⟨slot, created, pairs', hrun, h', hfound, -⟩ | ⟨e, pairs', hrun, h'⟩
    · exact .inl ⟨slot, created, pairs', hrun, h', h'.lt_used hfound.1 hfound.2⟩
    · exact .inr ⟨e, pairs', hrun, h'⟩
  write _ _ _ hslot hf _ h := h.modify hslot hf
  mapped _ _ _ hmapped hf h := h.mapped hmapped hf

/-! ### Rebuilding the index -/

/-- While the index is rebuilt, it leads to rows with their own keys, and no key is marked. -/
structure Entered (P : UInt32 → Prop) (used : ℕ) (pairs : PairPool α) : Prop
    extends Coherent P pairs where
  used_eq : pairs.used = used
  unmarked : ∀ key, pairs.index.raw? key ≠ some Index.exhausted

variable {used : ℕ}

theorem entered_clearIndex (h : Ordered P pairs) : Entered P pairs.used pairs.clearIndex := by
  have hraw key : pairs.clearIndex.index.raw? key = none := pairs.index.raw?_clear key
  refine ⟨⟨⟨pairs.index.sound_clear, h.tidy, h.capacity_le, h.ordered⟩, fun key slot hslot => ?_⟩,
    rfl, fun key => ?_⟩
  · rw [hraw] at hslot
    cases hslot
  · rw [hraw]
    exact Option.some_ne_none _ ∘ Eq.symm

theorem Entered.slot_lt (h : Entered P used pairs) {key : UInt64} {slot : UInt32}
    (hraw : pairs.index.raw? key = some slot) : slot.toNat < used := by
  rw [← h.used_eq]
  refine h.lt_used hraw ?_
  rintro rfl
  exact h.unmarked key hraw

theorem Entered.modify (h : Entered P used pairs) {slot : ℕ} (hslot : slot < used)
    {f : PairRow α → PairRow α} (hf : PairRow.KeepsWords f) :
    Entered P used (pairs.modify slot f) :=
  ⟨h.toCoherent.modify (h.used_eq ▸ hslot) hf, h.used_eq, h.unmarked⟩

/-- A row takes its own key. -/
theorem Entered.enter (h : Entered P used pairs) {slot : ℕ} {row : PairRow α}
    (hrow : pairs.liveRows[slot]? = some row) (hlt : slot < maxPoolCapacity.toNat) {index : Index}
    (hw : Index.Written pairs.index index row.words.key (some slot.toUInt32)) :
    Entered P used ⟨pairs.name, pairs.rows, pairs.allocator, index, pairs.rows_size⟩ := by
  refine ⟨⟨⟨hw.sound, h.tidy, h.capacity_le, h.ordered⟩, fun key slot' hraw hslot' => ?_⟩,
    h.used_eq, fun key hraw => ?_⟩
  · rw [hw.raw?_eq] at hraw
    split at hraw
    · rename_i hkey
      cases hraw
      rw [Index.toNat_toUInt32 hlt]
      exact ⟨row, hrow, hkey.symm⟩
    · exact h.keyed key slot' hraw hslot'
  · rw [hw.raw?_eq] at hraw
    split at hraw
    · exact Index.toUInt32_ne_exhausted hlt (Option.some.inj hraw)
    · exact h.unmarked key hraw

/-- A row hands its count over to the row that has its key. -/
theorem Entered.merge (h : Entered P used pairs) {slot owner : ℕ} (hslot : slot < used)
    (howner : owner < used) (count : α) : Entered P used (Tally.merge slot owner count pairs) := by
  have hgiven : Entered P used (pairs.modify owner fun row =>
      { row with count := row.count + count }.markDirty) := h.modify howner fun _ => ⟨rfl, rfl⟩
  exact hgiven.modify (f := PairRow.retire) hslot fun _ => ⟨rfl, rfl⟩

/-- One step of rebuilding the index enters the row of a slot under its own key, hands its count
over, or leaves everything. -/
theorem keeps_entered {slot : ℕ} (hslot : slot < used) :
    Keeps (Entered (α := α) P used) (Tally.reindexPair slot) := by
  intro pairs h
  obtain ⟨row, -, hrow⟩ := Pool.exists_liveRow (h.used_eq.symm ▸ hslot)
  have hrow' : pairs.row? slot = some row := Pool.row?_of_liveRows hrow
  have hlt : used ≤ maxPoolCapacity.toNat := by
    rw [← h.used_eq]
    exact pairs.used_le_capacity.trans h.capacity_le
  have howner owner (hraw : pairs.index.raw? row.words.key = some owner) :
      owner.toNat < maxPoolCapacity.toNat := (h.slot_lt hraw).trans_le hlt
  rcases Tally.reindexPair_cases h.sound hrow' howner with ⟨-, hpair⟩ |
    ⟨-, ⟨index, -, hw, -, hpair⟩ | ⟨owner, hraw, hpair⟩ | ⟨-, hpair⟩⟩
  · rwa [outcome_of_ok hpair]
  · rw [outcome_of_ok hpair]
    exact h.enter hrow (hslot.trans_le hlt) hw
  · rw [outcome_of_ok hpair]
    exact h.merge hslot (h.slot_lt hraw) row.count
  · rwa [outcome_of_error hpair]

end PairPool

namespace Tally

variable {P : UInt32 → Prop} {s s' : Logged (Tally α)}

/-! ### Looking pairs up -/

omit [Weight α] in
/-- Lists of one length are looked up place by place. -/
theorem pairSlots_eq {as bs : List UInt32} (hlength : as.length = bs.length) :
    (pairSlots as bs : Stage (Logged (Tally α)) (List UInt32))
      = dispatch (as.zip bs) fun ab => Prod.fst <$> onPairs (PairPool.slotOf ab.1 ab.2) := by
  unfold pairSlots checkLengths
  rw [if_pos hlength]
  rfl

omit [Weight α] in
/-- The order in which the words of pairs are named does not matter. -/
theorem pairSlots_comm {as bs : List UInt32} (hlength : as.length = bs.length) :
    (pairSlots as bs : Stage (Logged (Tally α)) (List UInt32)) = pairSlots bs as := by
  have hswap (ab : UInt32 × UInt32) :
      (PairPool.slotOf ab.swap.1 ab.swap.2 : Stage (PairPool α) _) = PairPool.slotOf ab.1 ab.2 := by
    unfold PairPool.slotOf
    rw [WordPair.of_comm, Prod.fst_swap, Prod.snd_swap]
  rw [pairSlots_eq hlength, pairSlots_eq hlength.symm, ← List.zip_swap as bs]
  funext s
  simp only [dispatch_eq, List.length_map, List.mapM_map, Function.comp_def, hswap]

/-- The pairs that a look-up answers are found under their keys when it is done. -/
theorem found_of_pairSlots (h : PairPool.Coherent P s.state.pairs) {as bs : List UInt32}
    {slots : List UInt32} (has : ∀ a ∈ as, P a) (hbs : ∀ b ∈ bs, P b)
    (hrun : pairSlots as bs s = .ok slots s') :
    as.length = bs.length ∧ PairPool.Coherent P s'.state.pairs
      ∧ List.Forall₂ s'.state.pairs.Finds (as.zip bs) slots := by
  have hlength : as.length = bs.length := by
    by_contra hne
    unfold pairSlots checkLengths at hrun
    rw [if_neg hne] at hrun
    cases hrun
  rw [pairSlots_eq hlength] at hrun
  obtain ⟨hloop, -⟩ := dispatch_eq_ok_iff.mp hrun
  refine ⟨hlength, ?_⟩
  refine mapM_ok_induction (P := fun done slots (t : Tally α) =>
    PairPool.Coherent P t.pairs ∧ List.Forall₂ t.pairs.Finds done slots) hloop ⟨h, .nil⟩ ?_
  intro done ab rest slots t slot t' hitems hdone hstep
  obtain ⟨hcoherent, hall⟩ := hdone
  obtain ⟨a, b⟩ := ab
  obtain ⟨ha, hb⟩ := List.of_mem_zip (show (a, b) ∈ as.zip bs by simp [hitems])
  obtain ⟨⟨_, _⟩, hslot, rfl⟩ := map_eq_ok_iff.mp hstep
  obtain ⟨pairs', hpair, rfl⟩ := onPairs_eq_ok_iff.mp hslot
  rcases hcoherent.slotOf_cases (has a ha) (hbs b hb) with
    ⟨slot', created, pairs'', hrun', hcoherent', hfound, hkept⟩ | ⟨e, pairs'', hrun', -⟩
  · rw [hrun'] at hpair
    cases hpair
    exact ⟨hcoherent', List.rel_append (hall.imp hkept) (.cons hfound .nil)⟩
  · rw [hrun'] at hpair
    cases hpair

/-- Pairs that are found under their keys are looked up without a change. -/
theorem pairSlots_of_found (h : PairPool.Coherent P s.state.pairs) {as bs : List UInt32}
    {slots : List UInt32} (hlength : as.length = bs.length)
    (hfound : List.Forall₂ s.state.pairs.Finds (as.zip bs) slots) :
    pairSlots as bs s = .ok slots ⟨s.state, s.log.start (as.zip bs).length⟩ := by
  rw [pairSlots_eq hlength, dispatch_eq_ok_iff]
  refine ⟨mapM_eq_ok_of_forall₂ (hfound.imp fun ab slot hslot => ?_), rfl⟩
  obtain ⟨hraw, hmark⟩ := hslot
  have hlt : slot.toNat < maxPoolCapacity.toNat :=
    (h.lt_used hraw hmark).trans_le (s.state.pairs.used_le_capacity.trans h.capacity_le)
  have hslot : PairPool.slotOf ab.1 ab.2 s.state.pairs = .ok (slot, false) s.state.pairs :=
    Pool.findOrCreate_of_raw? h.sound (by rwa [WordPair.storable_key]) hlt _
  exact map_eq_ok_iff.mpr ⟨_, onPairs_eq_ok_iff.mpr ⟨_, hslot, rfl⟩, rfl⟩

/-! ### Folding -/

/-- Folding pairs moves words, and leaves them in order. -/
theorem ordered_foldPairs (hP : ∀ word, P word → P (WordPool.classOf s.state.words word))
    (h : PairPool.Ordered P s.state.pairs) : PairPool.Ordered P (foldPairs s).2.state.pairs := by
  obtain ⟨pairs', hstate, hmapped⟩ := exists_mapped_foldPairs s
  rw [hstate]
  exact h.mapped hmapped fun row hrow => hrow.folded hP

/-- Whatever the index was, and whether rebuilding it answers or not, every key that it has
afterwards is the key of the slot that it leads to. -/
theorem coherent_reindexPairs (h : PairPool.Ordered P s.state.pairs) :
    PairPool.Coherent P (outcome reindexPairs s).2.state.pairs := by
  have hstep : ∀ slot ∈ List.range s.state.pairs.used,
      Keeps (fun t : Tally α => t.pairs.Entered P s.state.pairs.used) (onPairs (reindexPair slot)) :=
    fun slot hslot => keeps_pairs_onPairs (PairPool.keeps_entered (List.mem_range.mp hslot))
  have hentered := ((Keeps.dispatch hstep).bind fun merged => .pure (merged.countP id))
    ⟨⟨s.state.words, s.state.pairs.clearIndex, s.state.total⟩, s.log⟩ (PairPool.entered_clearIndex h)
  rw [outcome, reindexPairs_eq, ← outcome]
  exact hentered.toCoherent

end Tally

end CorpusStats
