import CorpusStats.Proofs.Engine.Plans
import CorpusStats.Proofs.Engine.Start
import CorpusStats.Proofs.Published
/-!
# CorpusStats.Proofs.Engine.Published

No stage waits for a value. In every engine that a run can reach, each key in an index of words,
pairs, sections or candidates has a value, a slot in use or the mark of a refused key, and two keys
never have the same slot (`Engine.AnswersAtOnce`). This holds after every work-item of every call,
of those that fail too (`Engine.answersAtOnce_run`). So every request for a record is answered or
runs out of room.

The plan of each call is gone through once. Its work-items are steps that leave the pools published.
Only rebuilding the index of pairs needs more: between its work-items the index is rebuilt from the
pairs that are done (`Tally.Rebuilding`).
-/

namespace CorpusStats

open Stage

variable {σ α β γ : Type}

/-- All pools of the contents are published. -/
structure Contents.Published (s : Contents α) : Prop where
  tally : s.tally.Published
  sections : s.sections.Published
  similarity : s.similarity.Published

/-! ### Rebuilding the index of pairs -/

namespace Tally

/-- The index of `used` pairs is rebuilt from the first `k`. -/
def Rebuilding [Weight α] (used k : ℕ) (t : Tally α) : Prop :=
  t.words.Published ∧ ∃ start : PairPool α, start.HasRoom ∧ start.used = used ∧ k ≤ used
    ∧ PairPool.Collected start k t.pairs

variable [Weight α] {used k : ℕ} {t : Tally α}

theorem Rebuilding.published (h : Rebuilding used k t) : t.Published := by
  obtain ⟨hwords, start, hroom, rfl, hk, hcollected⟩ := h
  exact ⟨hwords, hcollected.published hroom hk⟩

theorem rebuilding_clearIndex (h : t.Published) :
    Rebuilding t.pairs.used 0 ⟨t.words, t.pairs.clearIndex, t.total⟩ :=
  ⟨h.words, t.pairs, h.pairs.toHasRoom, rfl, Nat.zero_le _, PairPool.collected_clearIndex _⟩

/-- One more pair always finds its place. -/
theorem Rebuilding.step (h : Rebuilding used k t) (hk : k < used) :
    ∃ merged t', onPairs (reindexPair k) t = .ok merged t' ∧ Rebuilding used (k + 1) t' := by
  obtain ⟨hwords, start, hroom, rfl, -, hcollected⟩ := h
  obtain ⟨row, -, hrow⟩ := Pool.exists_liveRow hk
  obtain ⟨merged, pairs', hrun, hnext⟩ : ∃ merged pairs', reindexPair k t.pairs = .ok merged pairs'
      ∧ PairPool.Collected start (k + 1) pairs' := by
    rcases hcollected.step hroom.capacity_le hroom.capacity_le_index hrow with
      ⟨-, hrun, hnext⟩ | ⟨-, ⟨index, hrun, hnext⟩ | ⟨owner, -, -, hrun, hnext⟩⟩
    all_goals exact ⟨_, _, hrun, hnext⟩
  exact ⟨merged, _, onPairs_eq_ok_iff.mpr ⟨pairs', hrun, rfl⟩, hwords, start, hroom, rfl, hk, hnext⟩

end Tally

/-! ### Plans -/

namespace Plan

/-- The plan leaves `P` after every work-item and at the end, and finds no key without its value. -/
def NeverWaits (P : σ → Prop) (plan : Plan σ β) : Prop :=
  Stays P (fun e => e.isUnpublished = false) plan

theorem neverWaits_check {P : σ → Prop} {check : Except Error β}
    (h : ∀ e, check = .error e → ∃ fault, e = .malformed fault) :
    NeverWaits P (liftM check : Plan σ β) :=
  Stays.check fun e he => Error.not_isUnpublished_of_malformed (h e he)

theorem neverWaits_load {ι κ : Type} {P : σ → Prop} {step : ι → κ → Stage σ Unit}
    (h : ∀ a b, Stage.NeverWaits P (step a b)) (stage : String) (as : List ι) (bs : List κ) :
    NeverWaits P (load stage as bs step) :=
  Stays.bind (neverWaits_check fun _ => malformed_of_checkLengths) fun _ =>
    Stays.host (KeepsOr.forM fun _ _ => h _ _)

/-! ### Words and pairs -/

theorem neverWaits_internWords (keys : List UInt64) :
    NeverWaits Tally.Published (internWords (α := α) keys) :=
  Stays.dispatch fun key _ => Tally.neverWaits_intern key

theorem neverWaits_pairSlots (as bs : List UInt32) :
    NeverWaits Tally.Published (pairSlots (α := α) as bs) :=
  Stays.bind (neverWaits_check fun _ => malformed_of_checkLengths) fun _ =>
    Stays.dispatch fun _ _ => (Tally.neverWaits_slotOf _ _).bind fun _ => .pure _

theorem neverWaits_sweepPairs (f : WordPool α → PairRow α → PairRow α) (read : Tally α → β) :
    NeverWaits Tally.Published (sweepPairs f read) :=
  Stays.bind .get fun _ => .bind (.sweep fun _ _ _ h => ⟨h.words, h.pairs.modify _ _⟩) fun _ =>
    .pure _

theorem neverWaits_surveyPairs (read : Tally α → β) :
    NeverWaits Tally.Published (surveyPairs read) :=
  Stays.bind .get fun _ => .bind .survey fun _ => .pure _

theorem neverWaits_assignClasses (m : ClassMap) :
    NeverWaits Tally.Published (assignClasses (α := α) m) :=
  Stays.bind (.dispatch fun _ _ => Tally.neverWaits_assign _ _) fun _ => .pure _

section Weighted

variable [Weight α]

theorem neverWaits_countPairs (slots : List UInt32) :
    NeverWaits Tally.Published (countPairs (α := α) slots) :=
  Stays.bind (.dispatch fun slot _ => Tally.neverWaits_observeSlot slot) fun _ => .pure _

theorem neverWaits_countSentences (b : Sentences) (window : UInt32) (locator : Locator) :
    NeverWaits Tally.Published (countSentences (α := α) b window locator) :=
  Stays.bind (.dispatch fun i _ => Tally.neverWaits_countPosition b window locator i) fun _ =>
    .pure _

theorem neverWaits_score (n : α) (mode : ScoreMode) :
    NeverWaits Tally.Published (score n mode) := by
  cases mode with
  | all => exact neverWaits_sweepPairs (PairRow.rescore · n) _
  | dirty => exact neverWaits_sweepPairs (PairRow.refresh · n) _

theorem neverWaits_foldPairs : NeverWaits Tally.Published (foldPairs (α := α)) :=
  neverWaits_sweepPairs _ _

/-- Between the work-items the index is rebuilt from the pairs that are done. -/
theorem meets_enterPairs (used : ℕ) :
    Meets Tally.Published (fun e => e.isUnpublished = false) (Tally.Rebuilding used 0)
      (dispatch (List.range used) fun slot => Tally.onPairs (Tally.reindexPair (α := α) slot))
      fun _ => Tally.Published := by
  refine (Meets.dispatch (fun done t => t.Rebuilding used done.length)
    (fun done k rest t hitems ht => ?_) fun _ _ ht => ht.published).mono (fun _ ht => ht)
    fun _ _ ht => ht.published
  obtain ⟨hk, rfl⟩ := of_range_eq_append_cons hitems
  rw [List.length_range] at ht
  obtain ⟨merged, t', hrun, hnext⟩ := ht.step hk
  rw [hrun, List.length_append, List.length_range]
  exact hnext

/-- The index is cleared, and all pairs are entered again. -/
theorem neverWaits_reindexPairs : NeverWaits Tally.Published (reindexPairs (α := α)) := by
  have hclear : Meets Tally.Published (fun e => e.isUnpublished = false) Tally.Published
      (host <| modify fun t : Tally α => ⟨t.words, t.pairs.clearIndex, t.total⟩)
      fun _ t => t.Rebuilding t.pairs.used 0 :=
    Meets.host fun _ h => Tally.rebuilding_clearIndex h
  refine Meets.bind hclear fun _ => .bind .get fun t₀ => .bind ?_ fun _ => .pure _ fun _ h => h
  refine (meets_enterPairs t₀.pairs.used).mono (fun t ht => ?_) fun _ _ ht => ht
  obtain ⟨rfl, hrebuilding⟩ := ht
  exact hrebuilding

theorem neverWaits_rebuildTotals : NeverWaits Tally.Published (rebuildTotals (α := α)) := by
  refine Stays.bind .get fun _ => .bind (.sweep fun _ _ t h => ?_) fun _ => .bind .get fun _ =>
    .bind (.dispatch fun slot _ => Tally.neverWaits_spreadCount slot) fun _ =>
    .bind (.host fun _ h => ?_) fun _ => .pure _
  · exact ⟨h.words.modify _ _, h.pairs⟩
  · exact ⟨h.words, h.pairs⟩

end Weighted

/-! ### Sections -/

theorem neverWaits_sectionSlots (words : List UInt32) (disjuncts : List UInt64) :
    NeverWaits Pool.Published (sectionSlots (α := α) words disjuncts) :=
  Stays.bind (neverWaits_check fun _ => malformed_of_checkLengths) fun _ =>
    Stays.dispatch fun _ _ => (SectionPool.neverWaits_slotOf _ _).bind fun _ => .pure _

theorem neverWaits_foldSections (words : WordPool α) :
    NeverWaits Pool.Published (foldSections words) :=
  Stays.bind .get fun _ => .bind (.sweep fun _ _ _ h => h.modify _ _) fun _ => .pure _

section Weighted

variable [Weight α]

theorem neverWaits_countSections (slots : List UInt32) :
    NeverWaits Pool.Published (countSections (α := α) slots) :=
  Stays.bind (.dispatch fun slot _ => (SectionPool.writes_observeSlot slot).neverWaits) fun _ =>
    .pure _

theorem neverWaits_extractSections (b : Parses) (locator : Locator) :
    NeverWaits Pool.Published (extractSections (α := α) b locator) :=
  Stays.bind (.dispatch fun i _ => SectionPool.neverWaits_extractPosition b locator i) fun _ =>
    .pure _

/-! ### The similarity pass -/

theorem neverWaits_computeSimilarity (sections : SectionPool α) :
    NeverWaits Similarity.Published (computeSimilarity sections) := by
  refine Stays.bind (.host fun _ h => Pool.Published.reset h) fun _ =>
    .bind (.dispatch fun slot _ => Similarity.neverWaits_addNorm slot) fun _ =>
    .bind (.dispatch fun slot _ => Similarity.neverWaits_link slot) fun _ =>
    .bind (.dispatch fun slot _ => Similarity.neverWaits_addProducts slot) fun _ =>
    .bind (.bind .get fun _ => .sweep fun _ _ _ h => ?_) fun _ => .bind .get fun _ => .pure _
  exact Pool.Published.modify h _ _

theorem neverWaits_filterCandidates (threshold : α) (limit : ℕ) :
    NeverWaits Similarity.Published (filterCandidates threshold limit) :=
  Stays.bind .get fun _ => .bind .survey fun _ => .pure _

end Weighted

/-! ### Calls -/

theorem neverWaits_onTally {plan : Plan (Tally α) β} (h : NeverWaits Tally.Published plan) :
    NeverWaits Contents.Published (onTally plan) :=
  Stays.within h (fun _ hs => hs.tally) fun _ _ hs ht => ⟨ht, hs.sections, hs.similarity⟩

theorem neverWaits_onSections {plan : Plan (SectionPool α) β} (h : NeverWaits Pool.Published plan) :
    NeverWaits Contents.Published (onSections plan) :=
  Stays.within h (fun _ hs => hs.sections) fun _ _ hs ht => ⟨hs.tally, ht, hs.similarity⟩

theorem neverWaits_onSimilarity {plan : SectionPool α → Plan (Similarity α) β}
    (h : ∀ sections, NeverWaits Similarity.Published (plan sections)) :
    NeverWaits Contents.Published (onSimilarity plan) :=
  Stays.bind .get fun s => .within (h s.sections) (fun _ hs => hs.similarity) fun _ _ hs ht =>
    ⟨hs.tally, hs.sections, ht⟩

theorem neverWaits_onBatch (b : Sentences) {plan : Plan (Contents α) β}
    (h : NeverWaits Contents.Published plan) (report : β → Contents α → γ) :
    NeverWaits Contents.Published (onBatch b plan report) :=
  Stays.bind .get fun _ => .bind (neverWaits_check fun _ => Engine.malformed_of_checkWords) fun _ =>
    .bind h fun _ => .bind .get fun _ => .pure _

variable [Weight α]

theorem neverWaits_fold : NeverWaits Contents.Published (fold (α := α)) :=
  Stays.bind (neverWaits_onTally neverWaits_foldPairs) fun _ =>
    .bind (neverWaits_onTally neverWaits_reindexPairs) fun _ => .bind .get fun _ =>
    .bind (neverWaits_onSections (neverWaits_foldSections _)) fun _ => .pure _

/-- No call waits for a value, and all leave the pools published, between their work-items too. -/
theorem neverWaits_perform (call : Call α) : NeverWaits Contents.Published (perform call) := by
  cases call with
  | internWords keys => exact Stays.map (neverWaits_onTally (neverWaits_internWords keys))
  | pairSlots as bs => exact Stays.map (neverWaits_onTally (neverWaits_pairSlots as bs))
  | sectionSlots words disjuncts =>
    exact Stays.map (neverWaits_onSections (neverWaits_sectionSlots words disjuncts))
  | countPairs slots => exact Stays.map (neverWaits_onTally (neverWaits_countPairs slots))
  | countSections slots => exact Stays.map (neverWaits_onSections (neverWaits_countSections slots))
  | countSentences batch window =>
    exact Stays.map (neverWaits_onBatch batch
      (neverWaits_onTally (neverWaits_countSentences batch window _)) _)
  | extractSections batch =>
    exact Stays.map (neverWaits_onBatch batch.sentences
      (neverWaits_onSections (neverWaits_extractSections batch _)) _)
  | score mode => exact Stays.bind .get fun _ => .map (neverWaits_onTally (neverWaits_score _ mode))
  | scoreStats threshold => exact Stays.map (neverWaits_onTally (neverWaits_surveyPairs _))
  | filterPairs threshold limit => exact Stays.map (neverWaits_onTally (neverWaits_surveyPairs _))
  | computeSimilarity => exact Stays.map (neverWaits_onSimilarity neverWaits_computeSimilarity)
  | filterCandidates threshold limit =>
    exact Stays.map (neverWaits_onSimilarity fun _ => neverWaits_filterCandidates threshold limit)
  | assignClasses classes =>
    exact Stays.map (neverWaits_onTally (neverWaits_assignClasses classes))
  | foldPairs => exact Stays.map (neverWaits_onTally neverWaits_foldPairs)
  | reindexPairs => exact Stays.map (neverWaits_onTally neverWaits_reindexPairs)
  | foldSections =>
    exact Stays.bind .get fun _ => .map (neverWaits_onSections (neverWaits_foldSections _))
  | fold => exact Stays.map neverWaits_fold
  | rebuildTotals => exact Stays.map (neverWaits_onTally neverWaits_rebuildTotals)
  | loadPairs slots counts =>
    exact Stays.map (neverWaits_onTally (neverWaits_load Tally.neverWaits_loadPair _ slots counts))
  | loadSections slots counts =>
    exact Stays.map (neverWaits_onSections
      (neverWaits_load (fun _ _ => (SectionPool.writes_loadCount _ _).neverWaits) _ slots counts))
  | loadWords ids counts =>
    exact Stays.map (neverWaits_onTally (neverWaits_load Tally.neverWaits_loadWord _ ids counts))
  | setTotal total =>
    exact Stays.map (neverWaits_onTally (Stays.host fun _ h => ⟨h.words, h.pairs⟩))
  | reset =>
    exact Stays.map (Stays.host fun _ h => ⟨⟨h.tally.words.reset, h.tally.pairs.reset⟩,
      h.sections.reset, Pool.Published.reset h.similarity⟩)

end Plan

/-! ### What requests may rely on -/

/-- No request for a record of the pool waits for a value. -/
structure Pool.AnswersAtOnce {ρ : Type} (p : Pool ρ) : Prop where
  /-- Every key in the index has a value, which is a slot in use or the mark of a refused key. -/
  value : ∀ key slot, (key, slot) ∈ p.index.entries →
    slot ≠ Index.unset ∧ (slot.toNat < p.used ∨ slot = Index.exhausted)
  /-- Two keys never have the same slot. -/
  distinct : ∀ key key' slot, (key, slot) ∈ p.index.entries → (key', slot) ∈ p.index.entries →
    slot ≠ Index.exhausted → key = key'
  /-- A request that finds its key finds the value too. -/
  found : ∀ key i slot, p.index.probe key = .found i slot → slot ≠ Index.unset
  /-- A request is answered with a slot in use, which the key has afterwards, -/
  answers : ∀ key fill slot created p', findOrCreate key fill p = .ok (slot, created) p' →
    (Key.storable key, slot) ∈ p'.index.entries ∧ slot.toNat < p'.used
  /-- or it runs out of room. -/
  refuses : ∀ key fill e p', findOrCreate key fill p = .error e p' → e.isOverflow = true ∧ p'.IsFull

theorem Pool.Published.answersAtOnce {ρ : Type} {p : Pool ρ} (h : p.Published) :
    p.AnswersAtOnce := by
  have hset (key : UInt64) (slot : UInt32) (hraw : p.index.raw? key = some slot) :
      slot ≠ Index.unset ∧ (slot.toNat < p.used ∨ slot = Index.exhausted) := by
    rcases h.leads key slot hraw with hlt | ⟨rfl, -⟩
    · have hslot := hlt.trans_le (p.used_le_capacity.trans h.capacity_le)
      exact ⟨(Index.not_reserved hslot).1, .inl hlt⟩
    · exact ⟨by decide, .inr rfl⟩
  refine ⟨fun key slot hmem => hset key slot (h.sound.mem_entries_iff.mp hmem),
    fun key key' slot hmem hmem' => ?_, fun key i slot hprobe => ?_,
    fun key fill slot created p' hrun => ?_, fun key fill e p' hrun => ?_⟩
  · exact h.distinct key key' slot (h.sound.mem_entries_iff.mp hmem)
      (h.sound.mem_entries_iff.mp hmem')
  · exact (hset key slot (by rw [Index.raw?, hprobe])).1
  · rcases h.toHasRoom.findOrCreate_index_cases key fill with
      ⟨slot', hraw, hrun', hlt⟩ | ⟨p'', hrun', hroom, hlt, hused, hw⟩ | ⟨e, p'', hrun', -⟩ <;>
      rw [hrun'] at hrun <;> cases hrun
    · exact ⟨h.sound.mem_entries_iff.mpr hraw, hlt⟩
    · refine ⟨hroom.sound.mem_entries_iff.mpr (by rw [hw.raw?_eq, if_pos rfl]), ?_⟩
      rw [Index.toNat_toUInt32 (hlt.trans_le h.capacity_le), hused]
      exact p.used.lt_succ_self
  · rcases h.toHasRoom.findOrCreate_cases key fill with
      ⟨slot, created, p'', hrun', -⟩ | ⟨e', p'', hrun', he, -, hfull⟩ <;>
      rw [hrun'] at hrun <;> cases hrun
    exact ⟨he, hfull⟩

namespace Engine

/-- No request for a word, a pair, a section or a candidate waits for a value. -/
structure AnswersAtOnce (e : Engine α) : Prop where
  words : e.store.tally.words.AnswersAtOnce
  pairs : e.store.tally.pairs.AnswersAtOnce
  sections : e.store.sections.AnswersAtOnce
  candidates : e.store.similarity.candidates.AnswersAtOnce

theorem answersAtOnce_of_published {e : Engine α} (h : (opened.get e).state.Published) :
    e.AnswersAtOnce :=
  ⟨h.tally.words.answersAtOnce, h.tally.pairs.answersAtOnce, h.sections.answersAtOnce,
    Pool.Published.answersAtOnce h.similarity⟩

variable [Weight α] {e : Engine α} {config : Config} {call : Call α}

theorem published_of_ofConfig (he : ofConfig config = .ok e) : (opened.get e).state.Published := by
  have hnew := new_of_ofConfig he
  obtain ⟨hwords, hpairs, hsections⟩ := pools_of_ofConfig he
  obtain ⟨heads, -, candidates, hcandidates, hw⟩ :=
    Similarity.ofCapacities_eq_ok_iff.mp (similarity_of_ofConfig he)
  obtain ⟨hwords_le, hpairs_le, hsections_le, hcandidates_le⟩ := hnew.capacities_le
  rw [hnew.capacity_words] at hwords_le
  rw [hnew.capacity_pairs] at hpairs_le
  rw [hnew.capacity_sections] at hsections_le
  rw [hnew.capacity_candidates] at hcandidates_le
  have hsimilarity : e.store.similarity.Published := by
    rw [← hw]
    exact Pool.published_of_ofCapacity hcandidates_le hcandidates
  exact ⟨⟨Pool.published_of_ofCapacity hwords_le hwords,
    Pool.published_of_ofCapacity hpairs_le hpairs⟩,
    Pool.published_of_ofCapacity hsections_le hsections, hsimilarity⟩

theorem published_run (he : ofConfig config = .ok e) (calls : List (Call α)) :
    (opened.get (run calls e)).state.Published := by
  refine run_keeps (P := fun e => (opened.get e).state.Published) (fun call _ e he => ?_)
    (published_of_ofConfig he)
  have hend := (of_meets (Plan.neverWaits_perform call) he).2
  unfold outcome
  cases hrun : perform call e <;> rw [hrun] at hend
  · exact hend
  · exact hend.1

/-- What a call leaves when it is made of an engine that answers at once. -/
structure StaysAnswering (e : Engine α) (call : Call α) : Prop where
  /-- The call does what its plan does, so its trail is what it leaves after each work-item. -/
  plan : perform call e = opened.lift (Plan.perform call).run e
  trail : ∀ e' ∈ e.trail call, e'.AnswersAtOnce
  /-- The trail of a call that answers has one engine for each work-item of the dispatches that the
  call enters in the log. -/
  answered : ∀ answer e', perform call e = .ok answer e' → e'.AnswersAtOnce
    ∧ (e.trail call).length = (e.widths call).sum
    ∧ e'.store.log = e.store.log.record (e.widths call) false
  /-- A call that fails did not find a key without its value. -/
  failed : ∀ err e', perform call e = .error err e' → e'.AnswersAtOnce ∧ err.isUnpublished = false

/-- **No stage waits for a value.** After every run of a new engine, failed calls among them, and
after every work-item of every further call, which may fail as well, each key in an index of records
has a slot in use or the mark of a refused key, no two keys have the same slot, and every request
for a record is answered at once or runs out of room. -/
theorem answersAtOnce_run (he : ofConfig config = .ok e) (calls : List (Call α)) (call : Call α) :
    (run calls e).AnswersAtOnce ∧ (run calls e).StaysAnswering call := by
  have hrun := published_run he calls
  obtain ⟨htrail, hend⟩ := of_meets (Plan.neverWaits_perform call) hrun
  refine ⟨answersAtOnce_of_published hrun, ⟨(congrFun (lift_perform call) _).symm,
    fun e' he' => answersAtOnce_of_published (htrail e' he'), fun answer e' hok => ?_,
    fun err e' herror => ?_⟩⟩
  · rw [hok] at hend
    exact ⟨answersAtOnce_of_published hend, length_trail hok, log_perform hok⟩
  · rw [herror] at hend
    exact ⟨answersAtOnce_of_published hend.1, hend.2⟩

/-- The fifth pair has no room among four, and its key is marked. Rebuilding the index after a fold
forgets the mark and enters two of the four pairs: one is merged into another, one has no count. -/
theorem answersAtOnce_run_refolded :
    let calls : List (Call ℚ) := [.pairSlots [0, 0, 0, 1, 2] [1, 2, 3, 2, 3], .countPairs [0, 1, 2],
      .assignClasses ⟨[(3, 2)], by decide⟩, .foldPairs]
    ∃ e : Engine ℚ, ofConfig .tiny = .ok e ∧ (run calls e).AnswersAtOnce
      ∧ ((WordPair.of 2 3).key, Index.exhausted) ∈ (run calls e).store.tally.pairs.index.entries
      ∧ (run calls e).StaysAnswering .reindexPairs
      ∧ ((run calls e).trail .reindexPairs).map (fun e => e.store.tally.pairs.index.size)
        = [1, 2, 2, 2] := by
  intro calls
  obtain ⟨e, he, hmark, htrail⟩ := exists_ofConfig_of_mem .tiny (P := fun e : Engine ℚ =>
    ((WordPair.of 2 3).key, Index.exhausted) ∈ (run calls e).store.tally.pairs.index.entries
      ∧ ((run calls e).trail .reindexPairs).map (fun e => e.store.tally.pairs.index.size)
        = [1, 2, 2, 2]) (by decide +kernel)
  obtain ⟨hanswers, hstays⟩ := answersAtOnce_run he calls .reindexPairs
  exact ⟨e, he, hanswers, hmark, hstays, htrail⟩

end Engine

end CorpusStats
