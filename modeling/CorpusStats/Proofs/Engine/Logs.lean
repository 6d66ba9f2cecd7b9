import CorpusStats.Proofs.Engine.Batches
import CorpusStats.Proofs.Engine.Refusals
import CorpusStats.Proofs.Engine.Start
import CorpusStats.Proofs.Logging
import CorpusStats.Proofs.Refusing
/-!
# CorpusStats.Proofs.Engine.Logs

The log of an engine counts dispatches, work-items and overflows, over whole runs. Its counters wrap
around at `2 ^ 64`, and are exact below (`Log.Shows`).

Every call starts a list of dispatches that can be read off the engine it is made on and off its
answer (`Engine.started`): none if it loads, resets or refuses what it is given at once, one for
most stages, up to four for the similarity pass. Their widths are entered in full, also if the
last of them fails.

What a call answers and what it leaves of the rest does not depend on the log
(`Engine.outcome_putLog`).
-/

namespace CorpusStats

open Stage

variable {ι σ α β γ : Type}

/-! ### One dispatch -/

/-- A stage that is one dispatch, and reports on what the items answer. -/
theorem enters_dispatch (items : List ι) (step : ι → Stage σ β) (f : List β → γ) (s : σ) :
    Enters Logged.put (dispatch items step >>= fun as => pure (f as)) s [items.length]
      ((outcome (items.mapM step) s).1.map f) (outcome (items.mapM step) s).2 := by
  rw [← map_eq_pure_bind]
  exact (Enters.dispatch items step s).map

/-- What comes behind a dispatch. -/
theorem starts_dispatch_bind {items : List ι} {step : ι → Stage σ β} {f : List β → γ} {s : σ}
    {n : ℕ} (hn : items.length = n) {δ : Type} {g : γ → Stage (Logged σ) δ} {widths : List ℕ}
    (hg : ∀ a, Starts Logged.put (g a) (outcome (items.mapM step) s).2 widths) :
    Starts Logged.put ((dispatch items step >>= fun as => pure (f as)) >>= g) s
      (n :: behind (outcome (items.mapM step) s).1 widths) := by
  have hbind := (enters_dispatch items step f s).bind_starts hg
  rwa [hn, behind_map] at hbind

/-- A stage that is one sweep, and reports on what there was before. -/
theorem enters_sweep {f : Logged σ → γ × Logged σ} {s : σ} (n : ℕ) (step : σ → ℕ → σ)
    (h : ∀ log, f (Logged.put log s)
      = ((f (Logged.put .empty s)).1, sweep (List.range n) step (Logged.put log s))) :
    Enters Logged.put (modifyGet f) s [n] (.ok (f (Logged.put .empty s)).1)
      ((List.range n).foldl step s) := by
  refine Enters.modifyGet fun log => ?_
  rw [h, Logged.put, sweep_eq, Log.start_eq_record, List.length_range]
  rfl

/-- A stage that reads every record. -/
theorem starts_survey {f : Logged σ → γ × Logged σ} {s : σ} (n : ℕ)
    (h : ∀ log, f (Logged.put log s)
      = ((f (Logged.put .empty s)).1, survey n (Logged.put log s))) :
    Starts Logged.put (modifyGet f) s [n] := by
  have hsurvey : Enters Logged.put (modifyGet f) s [n] (.ok _) s := Enters.modifyGet fun log => by
    rw [h, ← Log.start_eq_record]
    rfl
  exact hsurvey.starts

/-- A stage that takes two lists of one length, and makes one dispatch over both. -/
theorem starts_zip {κ : Type} (stage : String) (as : List ι) (bs : List κ)
    (step : ι × κ → Stage σ β) (s : σ) :
    Starts Logged.put (do checkLengths stage as.length bs.length; dispatch (as.zip bs) step) s
      (if as.length = bs.length then [as.length] else []) := by
  unfold checkLengths
  by_cases hlength : as.length = bs.length
  · rw [if_pos hlength, if_pos hlength]
    have hzip := (Enters.dispatch (as.zip bs) step s).starts
    rwa [List.length_zip, ← hlength, Nat.min_self] at hzip
  · rw [if_neg hlength, if_neg hlength]
    exact (Enters.lift fun _ he => ⟨_, (Except.error.inj he).symm⟩).bind_error.starts

/-! ### Stages of a tally -/

namespace Tally

variable [Weight α]

theorem starts_score (mode : ScoreMode) (n : α) (t : Tally α) :
    Starts Logged.put (modifyGet (score mode n)) t [t.pairs.used] := by
  cases mode with
  | all => exact (enters_sweep t.pairs.used _ fun _ => rfl).starts
  | dirty => exact (enters_sweep t.pairs.used _ fun _ => rfl).starts

/-- Folding leaves as many pairs as there were. -/
theorem enters_foldPairs (t : Tally α) : ∃ report t', t'.pairs.used = t.pairs.used
    ∧ Enters Logged.put (modifyGet foldPairs) t [t.pairs.used] (.ok report) t' := by
  have h := enters_sweep (f := foldPairs) (s := t) t.pairs.used _ fun _ => rfl
  refine ⟨_, _, ?_, h⟩
  obtain ⟨pairs', hstate, hmapped⟩ := exists_mapped_foldPairs ⟨t, .empty⟩
  have hused : (foldPairs ⟨t, .empty⟩).2.state.pairs.used = t.pairs.used := by
    rw [hstate]
    exact hmapped.used_eq
  exact hused

theorem starts_reindexPairs (t : Tally α) :
    Starts Logged.put reindexPairs t [t.pairs.used] := by
  have hloop := enters_dispatch (List.range t.pairs.used) (fun slot => onPairs (reindexPair slot))
    (fun merged => merged.countP id) (⟨t.words, t.pairs.clearIndex, t.total⟩ : Tally α)
  rw [List.length_range] at hloop
  exact .modify_bind _ (fun _ => rfl) (.get_bind (fun _ => rfl) hloop.starts)

theorem starts_rebuildTotals (t : Tally α) :
    Starts Logged.put rebuildTotals t [t.words.capacity, t.pairs.used] := by
  have hclear {f : Logged (Tally α) → Logged (Tally α)} (hf : ∀ log, f (Logged.put log t)
        = Logged.put (log.start (List.range t.words.capacity).length) t.clearCounts) :
      Enters Logged.put (modify f) t [t.words.capacity] (.ok ⟨⟩) t.clearCounts := by
    refine Enters.modifyGet fun log => ?_
    rw [hf, List.length_range, Log.start_eq_record]
  have hloop := enters_dispatch (List.range t.pairs.used) spreadCount countSum t.clearCounts
  rw [List.length_range] at hloop
  have hmarginals : Starts Logged.put rebuildMarginals t [t.words.capacity, t.pairs.used] := by
    rw [← t.sameEnds_clearCounts.pairs_eq] at hloop ⊢
    exact .get_bind (fun _ => rfl)
      ((hclear fun _ => rfl).bind_starts fun _ => .get_bind (fun _ => rfl) hloop.starts)
  exact hmarginals.bind fun mass t' => .modify_bind ⟨t'.words, t'.pairs, Weight.toTotal mass⟩
    (fun _ => rfl) (Enters.pure _).starts

end Tally

/-! ### The similarity pass -/

namespace Similarity

variable [Weight α]

/-- The widths of the dispatches of a pass: one for each of its stages, up to the one that fails. -/
def started (sections : SectionPool α) (w : Similarity α) : List ℕ :=
  let norms := outcome (sections.slots.mapM (addNorm sections)) w.reset
  let chains := outcome (sections.slots.mapM (link sections)) norms.2
  let products := outcome (sections.slots.mapM (addProducts sections)) chains.2
  sections.used :: behind norms.1 (sections.used :: behind chains.1
    (sections.used :: behind products.1 [products.2.candidates.used]))

theorem starts_run (sections : SectionPool α) (w : Similarity α) :
    Starts Logged.put (run sections) w (w.started sections) := by
  have hwidth : sections.slots.length = sections.used := List.length_range
  refine .modify_bind w.reset (fun _ => rfl) ?_
  refine starts_dispatch_bind hwidth fun _ => starts_dispatch_bind hwidth fun _ =>
    starts_dispatch_bind hwidth fun _ => ?_
  exact (enters_sweep (f := fun s => ((), computeCosines s)) _ _ fun _ => rfl).bind_starts
    fun _ => .get_bind (fun _ => rfl) (Enters.pure _).starts

end Similarity

/-! ### Stages of a store -/

namespace Store

/-- The store with another log. -/
def putLog (log : Log) (s : Store α) : Store α := { s with log }

variable {s : Store α} {widths : List ℕ} {answer : Except Error β}

theorem enters_onTally {act : Stage (Logged (Tally α)) β} {tally : Tally α}
    (h : Enters Logged.put act s.tally widths answer tally) :
    Enters putLog (onTally act) s widths answer { s with tally } :=
  h.of_part _ (fun l : Logged (Tally α) => { s with tally := l.state, log := l.log })
    (fun log => outcome_onTally act (s.putLog log)) fun _ => rfl

theorem starts_onTally {act : Stage (Logged (Tally α)) β}
    (h : Starts Logged.put act s.tally widths) : Starts putLog (onTally act) s widths := by
  obtain ⟨answer, tally, hact⟩ := h
  exact (enters_onTally hact).starts

theorem starts_onSections {act : Stage (Logged (SectionPool α)) β}
    (h : Starts Logged.put act s.sections widths) : Starts putLog (onSections act) s widths := by
  obtain ⟨answer, sections, hact⟩ := h
  exact (hact.of_part { s with sections }
    (fun l : Logged (SectionPool α) => { s with sections := l.state, log := l.log })
    (fun log => outcome_onSections act (s.putLog log)) fun _ => rfl).starts

theorem starts_onSimilarity {act : SectionPool α → Stage (Logged (Similarity α)) β}
    (h : Starts Logged.put (act s.sections) s.similarity widths) :
    Starts putLog (onSimilarity act) s widths := by
  obtain ⟨answer, similarity, hact⟩ := h
  exact (hact.of_part { s with similarity }
    (fun l : Logged (Similarity α) => { s with similarity := l.state, log := l.log })
    (fun log => outcome_onSimilarity act (s.putLog log)) fun _ => rfl).starts

/-- A batch that is refused starts nothing. -/
theorem starts_onBatch {γ : Type} {b : Sentences} {act : Stage (Store α) β}
    {report : β → Store α → γ} (h : Starts putLog act s widths)
    (hreport : ∀ a log s', report a (putLog log s') = report a (putLog .empty s')) :
    Starts putLog (onBatch b act report) s (behind (Engine.checkWords s.tally.words b) widths) := by
  have hcheck : Enters putLog (liftM (Engine.checkWords s.tally.words b) : Stage (Store α) Unit) s []
      (Engine.checkWords s.tally.words b) s :=
    Enters.lift fun _ => Engine.malformed_of_checkWords
  exact .get_bind (fun _ => rfl) (hcheck.bind_starts fun _ => h.bind fun a s' =>
    .get_bind (fun log => by rw [hreport]) (Enters.pure _).starts)

theorem enters_foldSections (s : Store α) : ∃ moved s',
    Enters putLog foldSections s [s.sections.used] (.ok moved) s' := by
  let folded := SectionPool.foldWords s.tally.words ⟨s.sections, .empty⟩
  have hsweep (log : Log) : outcome foldSections (putLog log s) = (.ok folded.1,
      putLog (log.start (List.range s.sections.used).length)
        { s with sections := folded.2.state }) := rfl
  simp only [List.length_range, Log.start_eq_record] at hsweep
  exact ⟨_, _, .of_ok hsweep⟩

variable [Weight α]

/-- Folding makes three dispatches, or two if the index of pairs cannot be rebuilt. -/
theorem starts_fold (s : Store α) : Starts putLog fold s
    (s.tally.pairs.used :: s.tally.pairs.used :: behind (outcome fold s).1 [s.sections.used]) := by
  obtain ⟨report, tally, hused, hfold⟩ := Tally.enters_foldPairs s.tally
  obtain ⟨answer, tally', hreindex⟩ := Tally.starts_reindexPairs tally
  obtain ⟨moved, s', hsections⟩ := enters_foldSections { s with tally := tally' }
  rw [hused] at hreindex
  have hpairs := enters_onTally (s := s) hfold
  have hindex := enters_onTally (s := { s with tally }) hreindex
  cases answer with
  | error e =>
    have h : Enters putLog fold s _ (.error e) _ := hpairs.bind hindex.bind_error
    have hanswer : (outcome fold s).1 = .error e := h.answer_eq s.log
    rw [hanswer]
    exact h.starts
  | ok merged =>
    have h : Enters putLog fold s _ (.ok _) _ :=
      hpairs.bind (hindex.bind (hsections.bind (.pure { report with merged, sections := moved })))
    have hanswer : (outcome fold s).1 = .ok _ := h.answer_eq s.log
    rw [hanswer]
    exact h.starts

end Store

/-! ### Calls -/

namespace Engine

/-- The engine with another log. -/
def putLog (log : Log) (e : Engine α) : Engine α := { e with store := e.store.putLog log }

variable {e : Engine α} {widths : List ℕ}

theorem starts_onStore {act : Stage (Store α) β} (h : Starts Store.putLog act e.store widths) :
    Starts putLog (onStore act) e widths := by
  obtain ⟨answer, store, hact⟩ := h
  exact (hact.of_part { e with store } (fun store : Store α => { e with store })
    (fun log => outcome_onStore act (e.putLog log)) fun _ => rfl).starts

theorem starts_onTallyState {act : Stage (Tally α) β} (h : OnlyRefuses act) :
    Starts putLog (onTallyState act) e [] :=
  h.starts (fun tally => { e with store := { e.store with tally } })
    fun log => outcome_onTallyState act (e.putLog log)

theorem starts_onSectionsState {act : Stage (SectionPool α) β} (h : OnlyRefuses act) :
    Starts putLog (onSectionsState act) e [] :=
  h.starts (fun sections => { e with store := { e.store with sections } })
    fun log => outcome_onSectionsState act (e.putLog log)

/-- Loading starts nothing. -/
theorem starts_load {stage : String} {first second : ℕ} {act : Stage (Engine α) β}
    (h : Starts putLog act e []) :
    Starts putLog (do checkLengths stage first second; act) e [] := by
  have hcheck : Enters putLog (liftM (checkLengths stage first second) : Stage (Engine α) Unit) e []
      (checkLengths stage first second) e :=
    Enters.lift fun _ => malformed_of_checkLengths
  have hbind := hcheck.bind_starts fun _ => h
  rwa [behind_nil] at hbind

variable [Weight α]

/-- The widths of the dispatches that a call starts, in order. -/
def started (e : Engine α) : Call α → List ℕ
  | .internWords keys => [keys.length]
  | .pairSlots as bs => if as.length = bs.length then [as.length] else []
  | .sectionSlots words disjuncts =>
    if words.length = disjuncts.length then [words.length] else []
  | .countPairs slots | .countSections slots => [slots.length]
  | .countSentences batch _ => behind (checkWords e.store.tally.words batch) [batch.totalWords]
  | .extractSections batch =>
    behind (checkWords e.store.tally.words batch.sentences) [batch.sentences.totalWords]
  | .score _ | .scoreStats _ | .filterPairs _ _ | .foldPairs | .reindexPairs =>
    [e.store.tally.pairs.used]
  | .computeSimilarity => e.store.similarity.started e.store.sections
  | .filterCandidates _ _ => [e.store.similarity.candidates.used]
  | .assignClasses classes => [classes.size]
  | .foldSections => [e.store.sections.used]
  | .fold => e.store.tally.pairs.used :: e.store.tally.pairs.used ::
      behind (outcome (perform .fold) e).1 [e.store.sections.used]
  | .rebuildTotals => [e.store.tally.words.capacity, e.store.tally.pairs.used]
  | .loadPairs _ _ | .loadSections _ _ | .loadWords _ _ | .setTotal _ | .reset => []

theorem starts_perform (e : Engine α) (call : Call α) :
    Starts putLog (perform call) e (e.started call) := by
  cases call with
  | internWords keys =>
    exact (starts_onStore (Store.starts_onTally (Enters.dispatch _ _ _).starts)).map
  | pairSlots as bs => exact (starts_onStore (Store.starts_onTally (starts_zip _ as bs _ _))).map
  | sectionSlots words disjuncts =>
    exact (starts_onStore (Store.starts_onSections (starts_zip _ words disjuncts _ _))).map
  | countPairs slots =>
    exact (starts_onStore (Store.starts_onTally (enters_dispatch slots _ _ _).starts)).map
  | countSections slots =>
    exact (starts_onStore (Store.starts_onSections (enters_dispatch slots _ _ _).starts)).map
  | countSentences batch window =>
    rw [perform, countSentences_eq_onStore]
    have hloop := enters_dispatch (List.range batch.totalWords)
      (Tally.countPosition batch window .linear) (fun counts => counts.foldl (· + ·) 0) e.store.tally
    rw [List.length_range] at hloop
    exact (starts_onStore (Store.starts_onBatch (Store.starts_onTally hloop.starts)
      fun _ _ _ => rfl)).map
  | extractSections batch =>
    rw [perform, extractSections_eq_onStore]
    have hloop := enters_dispatch (List.range batch.sentences.totalWords)
      (SectionPool.extractPosition batch .linear) (fun found => ExtractReport.mk
        (found.filterMap id).length ((found.filterMap id).countP id)) e.store.sections
    rw [List.length_range] at hloop
    exact (starts_onStore (Store.starts_onBatch (Store.starts_onSections hloop.starts)
      fun _ _ _ => rfl)).map
  | score mode =>
    exact Starts.map (.get_bind (fun _ => rfl)
      (starts_onStore (Store.starts_onTally (Tally.starts_score mode _ _))))
  | scoreStats threshold =>
    exact (starts_onStore (Store.starts_onTally (starts_survey _ fun _ => rfl))).map
  | filterPairs threshold limit =>
    exact (starts_onStore (Store.starts_onTally (starts_survey _ fun _ => rfl))).map
  | computeSimilarity =>
    exact (starts_onStore (Store.starts_onSimilarity (Similarity.starts_run _ _))).map
  | filterCandidates threshold limit =>
    exact (starts_onStore (Store.starts_onSimilarity (starts_survey _ fun _ => rfl))).map
  | assignClasses classes =>
    exact (starts_onStore (Store.starts_onTally (enters_dispatch classes.entries _ _ _).starts)).map
  | foldPairs =>
    obtain ⟨report, tally, -, hfold⟩ := Tally.enters_foldPairs e.store.tally
    exact (starts_onStore (Store.starts_onTally hfold.starts)).map
  | reindexPairs =>
    exact (starts_onStore (Store.starts_onTally (Tally.starts_reindexPairs _))).map
  | foldSections =>
    obtain ⟨moved, s', hfold⟩ := e.store.enters_foldSections
    exact (starts_onStore hfold.starts).map
  | fold =>
    have hanswer : (outcome (perform .fold) e).1 = (outcome Store.fold e.store).1.map .folded := by
      rw [perform, outcome_map, fold, outcome_onStore]
    rw [started, hanswer, behind_map]
    exact (starts_onStore e.store.starts_fold).map
  | rebuildTotals =>
    exact (starts_onStore (Store.starts_onTally (Tally.starts_rebuildTotals _))).map
  | loadPairs slots counts =>
    exact (starts_load (starts_onTallyState (KeepsOr.forM fun _ _ =>
      Tally.onlyRefuses_onPairs (PairPool.writes_loadCount _ _).onlyRefuses))).map
  | loadSections slots counts =>
    exact (starts_load (starts_onSectionsState (KeepsOr.forM fun _ _ =>
      (SectionPool.writes_loadCount _ _).onlyRefuses))).map
  | loadWords ids counts =>
    exact (starts_load (starts_onTallyState (KeepsOr.forM fun _ _ =>
      Tally.onlyRefuses_onWords (WordPool.writes_loadCount _ _).onlyRefuses))).map
  | setTotal total => exact (starts_onTallyState fun _ _ => trivial).map
  | reset =>
    have hreset : Enters Store.putLog (fun s : Store α => .ok () s.reset) e.store [] (.ok ())
        e.store.reset := .of_ok fun log => by rw [Log.record_nil]; rfl
    exact (starts_onStore hreset.starts).map

omit [Weight α] in
@[simp] theorem putLog_self (e : Engine α) : putLog e.store.log e = e := rfl

/-- What a call answers and leaves does not depend on the log, and it says what the log gains. -/
theorem outcome_putLog (e : Engine α) (call : Call α) (log : Log) :
    outcome (perform call) (putLog log e) = ((outcome (perform call) e).1,
      putLog (log.record (e.started call) (overflowed (outcome (perform call) e).1))
        (e.after call)) := by
  obtain ⟨answer, e', h⟩ := e.starts_perform call
  have hself := h.outcome_eq e.store.log
  rw [putLog_self] at hself
  rw [h.outcome_eq, after_eq, hself]
  rfl

/-- **One call.** The log gains the dispatches that the call starts, and an overflow if the answer
is one. -/
theorem log_after (e : Engine α) (call : Call α) : (e.after call).store.log
    = e.store.log.record (e.started call) (overflowed (outcome (perform call) e).1) := by
  have h := e.outcome_putLog call e.store.log
  rw [putLog_self] at h
  rw [after_eq, h]
  rfl

/-- A call that starts nothing leaves the log, and has not overflowed. -/
theorem log_after_of_started_eq_nil {call : Call α} (h : e.started call = []) :
    (e.after call).store.log = e.store.log := by
  obtain ⟨answer, e', hstarts⟩ := e.starts_perform call
  have hanswer : (outcome (perform call) e).1 = answer := hstarts.answer_eq e.store.log
  have hoverflow : overflowed answer = false :=
    Bool.eq_false_of_not_eq_true fun h' => hstarts.started_of_overflowed h' h
  rw [log_after, hanswer, hoverflow, h, Log.record_nil]

/-! ### Runs -/

/-- The answers to the calls of a run. -/
def answers : List (Call α) → Engine α → List (Except Error (Answer α))
  | [], _ => []
  | call :: calls, e => (outcome (perform call) e).1 :: answers calls (e.after call)

/-- What a run answers and leaves does not depend on the log. -/
theorem run_putLog (calls : List (Call α)) (log : Log) (e : Engine α) :
    answers calls (putLog log e) = answers calls e
      ∧ ∃ log', run calls (putLog log e) = putLog log' (run calls e) := by
  induction calls generalizing log e with
  | nil => exact ⟨rfl, log, rfl⟩
  | cons call calls ih =>
    have hcall := e.outcome_putLog call log
    obtain ⟨hanswers, log', hrun⟩ := ih (log.record (e.started call)
      (overflowed (outcome (perform call) e).1)) (e.after call)
    have hafter : (putLog log e).after call = putLog _ (e.after call) :=
      (after_eq _ call).trans (congrArg Prod.snd hcall)
    refine ⟨?_, log', ?_⟩
    · rw [answers, answers, hafter, hanswers, hcall]
    · rw [run_cons, run_cons, hafter, hrun]

/-- The widths of the dispatches that the calls of a run start, in order. -/
def startedBy : List (Call α) → Engine α → List ℕ
  | [], _ => []
  | call :: calls, e => e.started call ++ startedBy calls (e.after call)

theorem log_run (calls : List (Call α)) (e : Engine α) : (run calls e).store.log
    = ⟨e.store.log.dispatches + (startedBy calls e).length.toUInt64,
      e.store.log.workItems + (startedBy calls e).sum.toUInt64,
      e.store.log.overflows + ((answers calls e).countP overflowed).toUInt64⟩ := by
  induction calls generalizing e with
  | nil => exact (Log.record_nil e.store.log).symm
  | cons call calls ih =>
    rw [run_cons, ih, log_after, startedBy, answers, List.length_append, List.sum_append,
      List.countP_cons, Log.record]
    cases overflowed (outcome (perform call) e).1 <;> simp [UInt64.add_assoc, UInt64.add_comm]

/-- **The log counts.** After every run of a new engine its counters of 64 bits show how many
dispatches the calls have started, how many work-items these had in all, and how many of the calls
overflowed. It is left alone by a reset, and by every call that starts no dispatch, such as one that
is refused before. -/
theorem log_counts_calls {config : Config} (he : ofConfig config = .ok e) (calls : List (Call α)) :
    let log := (run calls e).store.log
    (Log.Shows log.dispatches (startedBy calls e).length
        ∧ Log.Shows log.workItems (startedBy calls e).sum
        ∧ Log.Shows log.overflows ((answers calls e).countP overflowed))
      ∧ ((run calls e).after .reset).store.log = log
      ∧ ∀ call, (run calls e).started call = [] → ((run calls e).after call).store.log = log := by
  have hempty := log_of_ofConfig he
  intro log
  have hlog : log = _ := log_run calls e
  rw [hempty] at hlog
  refine ⟨?_, log_after_of_started_eq_nil rfl, fun call => log_after_of_started_eq_nil⟩
  rw [hlog]
  simp only [Log.empty, UInt64.zero_add]
  exact ⟨Log.shows_toUInt64 _, Log.shows_toUInt64 _, Log.shows_toUInt64 _⟩

/-- The fifth pair has no room among four, so the first dispatch overflows, and is entered with all
its items. Slots of lists of different lengths, and a load that is refused, start nothing. The pass
stops in its first stage, at a word beyond the arena. -/
theorem log_counts_calls_failing :
    let calls : List (Call ℚ) := [.pairSlots [0, 0, 0, 1, 2, 0] [1, 2, 3, 2, 3, 1],
      .pairSlots [0] [], .loadPairs [7] [1], .sectionSlots [9] [5], .loadSections [0] [1],
      .computeSimilarity, .reset, .fold]
    ∃ e : Engine ℚ, ofConfig .tiny = .ok e ∧ startedBy calls e = [6, 1, 1, 0, 0, 0]
      ∧ (run calls e).store.log.dispatches.toNat = 6
      ∧ (run calls e).store.log.workItems.toNat = 8
      ∧ (run calls e).store.log.overflows.toNat = 1
      ∧ ((run calls e).after .reset).store.log = (run calls e).store.log := by
  intro calls
  obtain ⟨e, he, hstarted, hoverflows⟩ := exists_ofConfig_of_mem .tiny (P := fun e : Engine ℚ =>
    startedBy calls e = [6, 1, 1, 0, 0, 0] ∧ (answers calls e).countP overflowed = 1)
    (by decide +kernel)
  obtain ⟨⟨hdispatches, hitems, hcount⟩, hreset, -⟩ := log_counts_calls he calls
  rw [hstarted] at hdispatches hitems
  rw [hoverflows] at hcount
  exact ⟨e, he, hstarted, hdispatches.toNat_eq (by decide), hitems.toNat_eq (by decide),
    hcount.toNat_eq (by decide), hreset⟩

end Engine

end CorpusStats
