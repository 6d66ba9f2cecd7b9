import CorpusStats.Proofs.Batch.Reads
import CorpusStats.Proofs.Engine.Arena
import CorpusStats.Proofs.Loops
/-!
# CorpusStats.Proofs.Engine.BatchFailures

How counting and extracting a batch can fail.

* A batch with a word beyond the arena is refused before anything changes. Once its words are
  accepted, nothing that the stages check can be wrong: every position has a sentence, no position
  has too many connectors, and the words of every pair that is found are words of the arena, also
  when pairs were folded and the index still leads to them under their old keys
  (`Tally.InArena`). What is left is a pool without room (`Stage.OnlyOverflows`).
* Nothing is read that is not there: neither in the batch (`Sentences.ReadsAt`, `Parses.ReadsAt`)
  nor in the pools, where every slot that is found is in use.
-/

namespace CorpusStats

open Stage

variable {σ α β : Type}

/-- While `P` holds, the stage keeps it, and fails for want of room at most. -/
def Stage.OnlyOverflows (P : σ → Prop) (act : Stage σ α) : Prop :=
  KeepsOr P (fun e _ => e.isOverflow = true) act

variable [Weight α]

/-! ### Pairs -/

namespace Tally

/-- There are `n` words, and pairs name no others. -/
structure InArena (n : ℕ) (t : Tally α) : Prop where
  capacity_eq : t.words.capacity = n
  pairs : PairPool.Among (fun word => word.toNat < n) t.pairs

variable {n : ℕ} {t t' : Tally α} {a c : UInt32}

/-- Asking for a pair answers a slot in use, or there is no room. -/
theorem InArena.slotOf_cases (h : t.InArena n) (ha : a.toNat < n) (hc : c.toNat < n) :
    (∃ slot created t', onPairs (PairPool.slotOf a c) t = .ok (slot, created) t' ∧ t'.InArena n
        ∧ slot.toNat < t'.pairs.used)
      ∨ ∃ e t', onPairs (PairPool.slotOf a c) t = .error e t' ∧ e.isOverflow = true := by
  rcases h.pairs.toHasRoom.findOrCreate_cases (WordPair.of a c).key
      (fun row : PairRow α => { row with
        wordA := (WordPair.of a c).first, wordB := (WordPair.of a c).second }) with
    ⟨slot, created, pairs, hrun, -, hslot⟩ | ⟨e, pairs, hrun, hoverflow, -⟩
  · rcases h.pairs.slotOf_cases ha hc with ⟨_, _, pairs', hrun', hpairs, -⟩ | ⟨_, _, hrun', -⟩
    · obtain ⟨-, rfl⟩ := EStateM.Result.ok.inj (hrun.symm.trans hrun')
      exact .inl ⟨slot, created, _, onPairs_eq_ok_iff.mpr ⟨pairs, hrun, rfl⟩,
        ⟨h.capacity_eq, hpairs⟩, hslot⟩
    · cases hrun.symm.trans hrun'
  · exact .inr ⟨e, _, onPairs_eq_error_iff.mpr ⟨pairs, hrun, rfl⟩, hoverflow⟩

/-- A pair in use can be observed. -/
theorem InArena.exists_observe (h : t.InArena n) {slot : ℕ} (hslot : slot < t.pairs.used) :
    ∃ t', observe slot t = .ok () t' ∧ t'.InArena n := by
  obtain ⟨words, pairs, total⟩ := t
  obtain ⟨row, -, hrow⟩ := Pool.exists_liveRow hslot
  obtain ⟨-, ha, hc⟩ := h.pairs.ordered slot row hrow
  rw [← h.capacity_eq] at ha hc
  have hends := endsOf_eq_ok_iff.mpr ⟨row, Pool.row?_of_liveRows hrow, ha, hc, rfl⟩
  refine ⟨_, observe_eq_ok_iff.mpr ⟨_, hends, rfl⟩, h.capacity_eq, ?_⟩
  exact PairPool.persists_among.write pairs slot countOnce hslot (fun _ => ⟨rfl, rfl⟩)
    (fun row => PairRow.isDirty_markDirty _) h.pairs

theorem onlyOverflows_observeWords (ha : a.toNat < n) (hc : c.toNat < n) :
    OnlyOverflows (InArena (α := α) n) (observeWords a c) := by
  refine .bind_of (R := fun found t => t.InArena n ∧ found.1.toNat < t.pairs.used)
    (fun t found t' h hrun => ?_) (fun t e t' h hrun => ?_) fun found t h => ?_
  · rcases h.slotOf_cases ha hc with ⟨_, _, _, hok, h', hslot⟩ | ⟨_, _, herror, -⟩
    · rw [hok] at hrun
      cases hrun
      exact ⟨h', hslot⟩
    · cases herror.symm.trans hrun
  · rcases h.slotOf_cases ha hc with ⟨_, _, _, hok, -⟩ | ⟨_, _, herror, hoverflow⟩
    · cases hok.symm.trans hrun
    · rw [herror] at hrun
      cases hrun
      exact hoverflow
  · obtain ⟨slot, created⟩ := found
    obtain ⟨t', hok, h'⟩ := h.1.exists_observe h.2
    dsimp only
    rw [hok]
    exact h'

variable {b : Sentences} {window : UInt32} {locator : Locator} {i : ℕ}

/-- No position is without a sentence. -/
theorem onlyOverflows_countPosition (hb : ∀ word ∈ b.words, word.toNat < n)
    (hi : i < b.totalWords) :
    OnlyOverflows (InArena (α := α) n) (countPosition b window locator i) := by
  obtain ⟨s, hlocate, -⟩ := Sentences.exists_readsAt hi locator
  unfold countPosition
  simp only [hlocate]
  refine .bind (.forM fun partner hpartner => onlyOverflows_observeWords ?_ ?_) fun _ => .pure _
  · exact hb _ (Sentences.getD_words_mem hi)
  · exact hb _ (Sentences.mem_words_of_mem_partners hpartner)

theorem onlyOverflows_countSentences (hb : ∀ word ∈ b.words, word.toNat < n) :
    OnlyOverflows (fun s : Logged (Tally α) => s.state.InArena n)
      (countSentences b window locator) :=
  .bind (.dispatch fun _ hi => onlyOverflows_countPosition hb (List.mem_range.mp hi)) fun _ => .pure _

/-- Counting a batch from `t` comes to `t'` before it asks for the pair of the word at a position
and one of its partners. -/
def ComesTo (b : Sentences) (window : UInt32) (locator : Locator) (t : Tally α) (i : ℕ)
    (partner : UInt32) (t' : Tally α) : Prop :=
  ∃ s counts t₁ done rest, locator.locate b i.toUInt32 = some s
    ∧ (List.range i).mapM (countPosition b window locator) t = .ok counts t₁
    ∧ b.partners s window i.toUInt32 = done ++ partner :: rest
    ∧ done.forM (observeWords (b.words.getD i 0)) t₁ = .ok () t'

theorem InArena.comesTo (h : t.InArena n) (hb : ∀ word ∈ b.words, word.toNat < n)
    (hi : i < b.totalWords) {partner : UInt32} (hcomes : ComesTo b window locator t i partner t') :
    t'.InArena n ∧ partner.toNat < n := by
  obtain ⟨s, counts, t₁, done, rest, -, hpositions, hpartners, hpairs⟩ := hcomes
  have hmem (word : UInt32) (hword : word ∈ done ++ partner :: rest) : word.toNat < n :=
    hb word (Sentences.mem_words_of_mem_partners (hpartners ▸ hword))
  have hfirst := (KeepsOr.mapM fun j hj => onlyOverflows_countPosition hb
    ((List.mem_range.mp hj).trans hi)).ok h hpositions
  have hthen := (KeepsOr.forM fun word hword => onlyOverflows_observeWords
    (hb _ (Sentences.getD_words_mem hi)) (hmem word (List.mem_append_left _ hword))).ok hfirst hpairs
  exact ⟨hthen, hmem partner (by simp)⟩

end Tally

/-! ### Sections -/

namespace SectionPool

omit [Weight α] in
theorem onlyOverflows_slotOf (word : UInt32) (disjunct : UInt64) :
    OnlyOverflows (Pool.HasRoom (ρ := SectionRow α)) (slotOf word disjunct) := by
  intro p h
  rcases h.findOrCreate_cases (Key.ofSection word disjunct)
      (fun row : SectionRow α => { row with word, disjunct }) with
    ⟨_, _, _, hrun, h', -⟩ | ⟨_, _, hrun, hoverflow, -⟩
  · rw [slotOf, hrun]
    exact h'
  · rw [slotOf, hrun]
    exact hoverflow

variable {b : Parses} {locator : Locator}

/-- No position is without a sentence, or has too many connectors. -/
theorem onlyOverflows_extractPosition {i : ℕ} (hi : i < b.sentences.totalWords) :
    OnlyOverflows (Pool.HasRoom (ρ := SectionRow α)) (extractPosition b locator i) := by
  rw [extractPosition_eq hi]
  cases b.sectionAt? locator i with
  | none => exact .pure _
  | some wanted =>
    refine (onlyOverflows_slotOf wanted.1 wanted.2).bind fun found => .bind ?_ fun _ => .pure _
    exact fun p h => h.congr rfl rfl rfl

theorem onlyOverflows_extract :
    OnlyOverflows (fun s : Logged (SectionPool α) => s.state.HasRoom) (extract b locator) :=
  .bind (.dispatch fun _ hi => onlyOverflows_extractPosition (List.mem_range.mp hi)) fun _ => .pure _

end SectionPool

/-! ### Calls -/

namespace Engine

variable {e : Engine α}

omit [Weight α] in
/-- A batch is refused because of its largest word, if that is beyond the arena. -/
theorem checkWords_cases (words : WordPool α) (b : Sentences) :
    (∃ word, b.maxWord? = some word ∧ words.capacity ≤ word.toNat
        ∧ checkWords words b = .error (.malformed (.wordBeyond word.toNat words.capacity)))
      ∨ (∀ word ∈ b.words, word.toNat < words.capacity) ∧ checkWords words b = .ok () := by
  cases hcheck : checkWords words b with
  | ok _ => exact .inr ⟨lt_of_checkWords hcheck, rfl⟩
  | error err =>
    refine .inl ?_
    unfold checkWords at hcheck
    split at hcheck
    · rename_i word hword
      split at hcheck <;> cases hcheck
      exact ⟨word, hword, ‹_›, rfl⟩
    · cases hcheck

/-- A call with a batch is refused for a word of the batch that is beyond the arena, and leaves
everything as it was. Without such a word it answers, or some pool has no room. -/
def RefusesWordsOrOverflows (e : Engine α) (b : Sentences) (call : Call α) : Prop :=
  (∃ word, b.maxWord? = some word ∧ e.store.tally.words.capacity ≤ word.toNat
      ∧ perform call e
        = .error (.malformed (.wordBeyond word.toNat e.store.tally.words.capacity)) e)
    ∨ (∀ word ∈ b.words, word.toNat < e.store.tally.words.capacity)
      ∧ ((∃ answer e', perform call e = .ok answer e')
        ∨ ∃ name capacity e', perform call e = .error (.overflow name capacity) e')

theorem refusesWordsOrOverflows_of_onBatch {γ : Type} {b : Sentences} {call : Call α}
    {stage : Stage (Engine α) γ} {act : Stage (Store α) β} {report : β → Store α → γ}
    {f : γ → Answer α} (hcall : perform call = f <$> stage)
    (hstage : stage = onStore (Store.onBatch b act report))
    (hact : (∀ word ∈ b.words, word.toNat < e.store.tally.words.capacity) →
      ∀ err store, act e.store = .error err store → err.isOverflow = true) :
    e.RefusesWordsOrOverflows b call := by
  rw [RefusesWordsOrOverflows, hcall, hstage]
  rcases checkWords_cases e.store.tally.words b with
    ⟨word, hword, hbeyond, hcheck⟩ | ⟨hwords, hcheck⟩
  · refine .inl ⟨word, hword, hbeyond, ?_⟩
    exact map_eq_error_iff.mpr
      (onStore_eq_error_iff.mpr ⟨e.store, Store.onBatch_of_error hcheck, rfl⟩)
  · refine .inr ⟨hwords, ?_⟩
    have hbatch := Store.outcome_onBatch_of_ok hcheck act report
    cases hrun : act e.store with
    | ok answer store =>
      rw [outcome_of_ok hrun] at hbatch
      have hok := onStore_eq_ok_iff.mpr ⟨store, outcome_eq_ok_iff.mp hbatch, rfl⟩
      exact .inl ⟨_, _, map_eq_ok_iff.mpr ⟨_, hok, rfl⟩⟩
    | error err store =>
      obtain ⟨name, capacity, rfl⟩ := (Error.isOverflow_iff err).mp (hact hwords err store hrun)
      rw [outcome_of_error hrun] at hbatch
      have herror := onStore_eq_error_iff.mpr ⟨store, outcome_eq_error_iff.mp hbatch, rfl⟩
      exact .inr ⟨name, capacity, _, map_eq_error_iff.mpr herror⟩

/-- Counting and extracting batches fail for want of room only, once the words of the batch are
accepted, and read nothing that is not there. -/
structure CountsSafely (e : Engine α) : Prop where
  countSentences : ∀ (b : Sentences) window,
    e.RefusesWordsOrOverflows b (.countSentences b window)
  extractSections : ∀ b : Parses, e.RefusesWordsOrOverflows b.sentences (.extractSections b)
  /-- Every position of a batch of sentences has a sentence, and what is read there is there. -/
  sentence_reads : ∀ (locator : Locator) (b : Sentences), ∀ i < b.totalWords,
    ∃ s, locator.locate b i.toUInt32 = some s ∧ b.ReadsAt i s
  /-- So has every position of a batch of parses, and no more connectors than it may have. -/
  parse_reads : ∀ (locator : Locator) (b : Parses), ∀ i < b.sentences.totalWords,
    ∃ s, locator.locate b.sentences i.toUInt32 = some s ∧ b.ReadsAt i s
  /-- Whenever counting asks for a pair, the answer is a slot in use, with words of the arena. -/
  pair_found : ∀ (b : Sentences) (window : UInt32) (locator : Locator),
    (∀ word ∈ b.words, word.toNat < e.store.tally.words.capacity) → ∀ i < b.totalWords,
    ∀ partner t, Tally.ComesTo b window locator e.store.tally i partner t →
    ∀ slot created pairs,
      PairPool.slotOf (b.words.getD i 0) partner t.pairs = .ok (slot, created) pairs →
    ∃ row, pairs.liveRows[slot.toNat]? = some row
      ∧ row.wordA.toNat < e.store.tally.words.capacity
      ∧ row.wordB.toNat < e.store.tally.words.capacity
  /-- Whenever extracting asks for a section, the answer is a slot in use. -/
  section_found : ∀ (b : Parses) (locator : Locator), ∀ i < b.sentences.totalWords,
    ∀ found sections, (List.range i).mapM (SectionPool.extractPosition b locator) e.store.sections
      = .ok found sections →
    ∀ word disjunct slot created sections',
      SectionPool.slotOf word disjunct sections = .ok (slot, created) sections' →
    slot.toNat < sections'.used

theorem countsSafely_of_inArena (harena : e.store.tally.InArena e.store.tally.words.capacity)
    (hsections : e.store.sections.HasRoom) : e.CountsSafely := by
  constructor
  case countSentences =>
    intro b window
    refine refusesWordsOrOverflows_of_onBatch rfl (countSentences_eq_onStore b window)
      fun hwords err store hrun => ?_
    obtain ⟨s, hcount, rfl⟩ := Store.onTally_eq_error_iff.mp hrun
    exact (Tally.onlyOverflows_countSentences hwords).error harena hcount
  case extractSections =>
    intro b
    refine refusesWordsOrOverflows_of_onBatch rfl (extractSections_eq_onStore b)
      fun _ err store hrun => ?_
    obtain ⟨s, hextract, rfl⟩ := Store.onSections_eq_error_iff.mp hrun
    exact SectionPool.onlyOverflows_extract.error hsections hextract
  case sentence_reads => exact fun locator b i hi => Sentences.exists_readsAt hi locator
  case parse_reads => exact fun locator b i hi => Parses.exists_readsAt hi locator
  case pair_found =>
    intro b window locator hwords i hi partner t hcomes slot created pairs hrun
    obtain ⟨ht, hpartner⟩ := harena.comesTo hwords hi hcomes
    have hok := Tally.onPairs_eq_ok_iff.mpr ⟨pairs, hrun, rfl⟩
    rcases ht.slotOf_cases (hwords _ (Sentences.getD_words_mem hi)) hpartner with
      ⟨_, _, t', hok', ht', hslot⟩ | ⟨_, _, herror, -⟩
    · rw [hok] at hok'
      cases hok'
      obtain ⟨row, -, hrow⟩ := Pool.exists_liveRow hslot
      exact ⟨row, hrow, (ht'.pairs.ordered _ row hrow).2⟩
    · cases hok.symm.trans herror
  case section_found =>
    intro b locator i hi found sections hpositions word disjunct slot created sections' hrun
    have hroom := (KeepsOr.mapM fun j hj => SectionPool.onlyOverflows_extractPosition
      ((List.mem_range.mp hj).trans hi)).ok hsections hpositions
    rcases hroom.findOrCreate_cases (Key.ofSection word disjunct)
        (fun row : SectionRow α => { row with word, disjunct }) with
      ⟨_, _, _, hrun', -, hslot⟩ | ⟨_, _, hrun', -⟩
    · obtain ⟨hanswer, rfl⟩ := EStateM.Result.ok.inj (hrun.symm.trans hrun')
      cases hanswer
      exact hslot
    · cases hrun.symm.trans hrun'

/-- **Batches fail for want of room only, once they are dispatched.** Take any run of a new engine,
failed calls among them, that asks for pairs of words of the arena only. Counting a batch of sentences
and extracting one of parses are refused exactly if the batch names a word beyond the arena, and then
nothing changes, the log included. Otherwise they answer, or some pool has no room. No position is
without a sentence, no pair that is found has a word beyond the arena, no position has too many
connectors, and nothing is read that is not there. -/
theorem batches_fail_for_room_only {config : Config} (he : ofConfig config = .ok e)
    (calls : List (Call α))
    (hwords : ∀ word ∈ calls.flatMap Call.pairWords, word.toNat < e.store.tally.words.capacity) :
    (run calls e).CountsSafely := by
  have hnames := names_run (P := fun word => word.toNat < e.store.tally.words.capacity)
    (S := fun _ => True) (fun _ => id) (fun _ _ => trivial) (names_of_ofConfig he) calls hwords
    fun _ _ => trivial
  refine countsSafely_of_inArena ⟨rfl, ?_⟩ (hasRoom_run he calls).sections
  rw [hnames.classes.capacity_eq]
  exact hnames.pairs

/-- After a fold the key of words 0 and 1 still leads to a pair, now of words 0 and 3. Counting these
words finds it; a batch with word 9 is refused, and one with six pairs does not fit. -/
theorem batches_fail_for_room_only_folded :
    let calls : List (Call ℚ) := [.pairSlots [0] [1], .countPairs [0],
      .assignClasses ⟨[(1, 3)], by decide⟩, .foldPairs]
    let known : Sentences := ⟨#[0, 1], #[0], #[2], by decide⟩
    let beyond : Sentences := ⟨#[0, 9], #[0], #[2], by decide⟩
    let large : Sentences := ⟨#[0, 1, 2, 3], #[0], #[4], by decide⟩
    ∃ e e₁ e₂ : Engine ℚ, ofConfig .tiny = .ok e ∧ (run calls e).CountsSafely
      ∧ perform (.countSentences known 1) (run calls e) = .ok (.counted ⟨1, 2, 1⟩) e₁
      ∧ e₁.store.tally.pairs.liveRows = [⟨2, 0, 0, 3, 1⟩]
      ∧ perform (.countSentences beyond 1) (run calls e)
        = .error (.malformed (.wordBeyond 9 4)) (run calls e)
      ∧ perform (.countSentences large 3) (run calls e) = .error (.overflow "pair" 4) e₂ := by
  intro calls known beyond large
  obtain ⟨e, he, hcapacity, hcapacity', hknown, hrows, hlarge⟩ := exists_ofConfig_of_mem .tiny
    (P := fun e : Engine ℚ => e.store.tally.words.capacity = 4
      ∧ (run calls e).store.tally.words.capacity = 4
      ∧ (outcome (countSentences known 1) (run calls e)).1 = .ok ⟨1, 2, 1⟩
      ∧ (outcome (countSentences known 1) (run calls e)).2.store.tally.pairs.liveRows
        = [⟨2, 0, 0, 3, 1⟩]
      ∧ (outcome (countSentences large 3) (run calls e)).1 = .error (.overflow "pair" 4))
    (by decide +kernel)
  have hsafe := batches_fail_for_room_only he calls (by simp [calls, Call.pairWords, hcapacity])
  obtain ⟨e₂, hfull⟩ := exists_eq_error_of_outcome hlarge
  refine ⟨e, _, e₂, he, hsafe, map_eq_ok_iff.mpr ⟨_, eq_ok_of_outcome hknown, rfl⟩, hrows, ?_,
    map_eq_error_iff.mpr hfull⟩
  rcases hsafe.countSentences beyond 1 with ⟨word, hword, -, hrun⟩ | ⟨hwords, -⟩
  · obtain rfl : 9 = word := Option.some.inj ((by decide : beyond.maxWord? = some 9).symm.trans hword)
    rwa [hcapacity'] at hrun
  · have hlt := hwords 9 (by simp [beyond])
    rw [hcapacity'] at hlt
    exact absurd hlt (by decide)

end Engine

end CorpusStats
