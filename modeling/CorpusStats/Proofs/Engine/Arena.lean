import CorpusStats.Proofs.Engine.Coherence
import CorpusStats.Proofs.Engine.Overflow
import CorpusStats.Proofs.Tally.Arena
/-!
# CorpusStats.Proofs.Engine.Arena

Which words pairs and sections name over whole runs, and which calls fail for it.

Words come in through batches, which are checked before anything is created, through classes, which
are checked when they are assigned, and through calls that ask for pairs and sections themselves
(`Call.pairWords`, `Call.sectionWords`), which are checked by nothing. So a word that is beyond the
arena has come in through one of these calls (`Engine.names_run`), and it stays unnoticed until its
row has a count and the books are recomputed or a similarity pass is made. These two calls are
refused exactly then.
-/

namespace CorpusStats

open Stage

variable {α : Type}

/-- The words of the pairs that a call asks for itself. -/
def Call.pairWords : Call α → List UInt32
  | .pairSlots as bs => as ++ bs
  | _ => []

/-- The words of the sections that a call asks for itself. -/
def Call.sectionWords : Call α → List UInt32
  | .sectionSlots words _ => words
  | _ => []

theorem Call.asksForPairsOf_of_pairWords {P : UInt32 → Prop} {call : Call α}
    (h : ∀ word ∈ call.pairWords, P word) : call.AsksForPairsOf P := by
  cases call with
  | pairSlots as bs =>
    have hwords : ∀ word ∈ as ++ bs, P word := h
    exact List.forall_mem_append.mp hwords
  | _ => trivial

variable [Weight α]

namespace Engine

variable {e : Engine α} {n : ℕ} {P S : UInt32 → Prop} {asked : List SectionRequest}

/-! ### What calls do -/

theorem keeps_classesBelow (call : Call α) :
    Keeps (fun e : Engine α => e.store.tally.words.ClassesBelow n) (perform call) := by
  have hkept (hcall : call.OnlyCountsWords) := keeps_words
    (WordPool.ignoresCounts_classesBelow (α := α) (n := n)) hcall
  cases call with
  | internWords keys =>
    refine (keeps_onTally (P := fun t => t.words.ClassesBelow n) ?_).map
    exact .dispatch fun key _ => Tally.keeps_words_onWords (WordPool.keeps_classesBelow_intern key)
  | assignClasses classes =>
    exact keeps_assignClasses fun entry _ =>
      Tally.keeps_words_onWords (WordPool.keeps_classesBelow_assign entry.1 entry.2)
  | reset =>
    refine Keeps.map fun e h => ?_
    have hblank := WordPool.classesBelow_of_blank e.store.tally.words.blank_reset
    rwa [show e.store.tally.words.reset.capacity = n from h.capacity_eq] at hblank
  | _ => exact hkept trivial

/-- Pairs name words of `P` after a call, if the call asks for no others. -/
theorem among_after (hP : ∀ word, word.toNat < n → P word)
    (hwords : e.store.tally.words.ClassesBelow n) (h : PairPool.Among P e.store.tally.pairs)
    {call : Call α} (hcall : ∀ word ∈ call.pairWords, P word) :
    PairPool.Among P (e.after call).store.tally.pairs := by
  rw [after_eq]
  refine pairs_keep PairPool.persists_among (Call.asksForPairsOf_of_pairWords hcall)
    (fun word hword => hP word (hwords.capacity_eq ▸ hword)) (fun pairs pairs' hmapped h => ?_)
    Tally.keeps_among_reindexPairs (fun _ h => h.reset) h
  -- A fold is what gives a row other words, and these are classes.
  exact h.mapped hmapped fun row hrow => hrow.folded fun word hword => hwords.classOf_mem hP hword

/-- Sections are asked for with words of `S`, if the call names no others. -/
theorem now_of_askedAfter (hS : ∀ word, word.toNat < n → S word)
    (hwords : e.store.tally.words.ClassesBelow n) (h : ∀ r ∈ asked, S r.now)
    {call : Call α} (hcall : ∀ word ∈ call.sectionWords, S word) :
    ∀ r ∈ e.askedAfter asked call, S r.now := by
  have hnew {wanted : List (UInt32 × UInt64)} (hwanted : ∀ ask ∈ wanted, S ask.1) :
      ∀ r ∈ asked ++ wanted.map .new, S r.now := by
    intro r hr
    rcases List.mem_append.mp hr with hr | hr
    · exact h r hr
    · obtain ⟨ask, hask, rfl⟩ := List.mem_map.mp hr
      exact hwanted ask hask
  have hfolded : ∀ r ∈ asked.map (SectionRequest.fold e.store.tally.words), S r.now := by
    intro r hr
    obtain ⟨before, hbefore, rfl⟩ := List.mem_map.mp hr
    exact hwords.classOf_mem hS (h before hbefore)
  cases call with
  | sectionSlots words disjuncts =>
    rw [askedAfter]
    split
    · exact hnew fun ask hask => hcall _ (List.of_mem_zip hask).1
    · exact h
  | extractSections batch =>
    rw [askedAfter]
    cases hcheck : checkWords e.store.tally.words batch.sentences with
    | ok _ =>
      refine hnew fun ask hask => hS _ ?_
      have hlt := lt_of_checkWords hcheck _ (Parses.mem_words_of_mem_sections hask)
      rwa [hwords.capacity_eq] at hlt
    | error _ => exact h
  | foldSections => exact hfolded
  | fold =>
    rw [askedAfter]
    cases fold e with
    | ok _ _ => exact hfolded
    | error _ _ => exact h
  | reset => exact fun r hr => absurd hr List.not_mem_nil
  | _ => exact h

/-! ### Runs -/

/-- Pairs name words of `P` and sections words of `S`. What a section names is read off the request
it was made for (`records`), so `sections` speaks of the requests. -/
structure Names (n : ℕ) (P S : UInt32 → Prop) (asked : List SectionRequest) (e : Engine α) :
    Prop where
  classes : e.store.tally.words.ClassesBelow n
  pairs : PairPool.Among P e.store.tally.pairs
  records : SectionPool.Records asked e.store.sections
  sections : ∀ r ∈ asked, S r.now

theorem names_run (hP : ∀ word, word.toNat < n → P word) (hS : ∀ word, word.toNat < n → S word)
    (h : e.Names n P S asked) (calls : List (Call α))
    (hpairs : ∀ word ∈ calls.flatMap Call.pairWords, P word)
    (hsections : ∀ word ∈ calls.flatMap Call.sectionWords, S word) :
    (run calls e).Names n P S (sectionsAsked asked calls e) := by
  induction calls generalizing e asked with
  | nil => exact h
  | cons call calls ih =>
    rw [List.flatMap_cons, List.forall_mem_append] at hpairs hsections
    refine ih ⟨?_, ?_, ?_, ?_⟩ hpairs.2 hsections.2
    · rw [after_eq]
      exact keeps_classesBelow call e h.classes
    · exact among_after hP h.classes h.pairs hpairs.1
    · exact records_after h.records call
    · exact now_of_askedAfter hS h.classes h.sections hsections.1

/-- Nothing is named in a new engine. -/
theorem names_of_ofConfig {config : Config} (he : ofConfig config = .ok e) :
    e.Names e.store.tally.words.capacity P S [] := by
  have hnew := new_of_ofConfig he
  refine ⟨WordPool.classesBelow_of_blank hnew.words, ⟨intact_run he [], fun slot row hrow => ?_⟩,
    records_of_ofConfig he, fun r hr => absurd hr List.not_mem_nil⟩
  rw [hnew.pairs.liveRows_eq] at hrow
  cases hrow

theorem Names.row_mem (h : e.Names n P S asked) {row : SectionRow α}
    (hrow : row ∈ e.store.sections.liveRows) : S row.word := by
  obtain ⟨slot, hslot⟩ := List.mem_iff_getElem?.mp hrow
  obtain ⟨r, hr, -, hword, -⟩ := h.records.exists_request hslot
  rw [hword]
  exact h.sections r hr

/-! ### Calls that need the arena -/

/-- Everything that recomputing the books can do: it answers, or it is refused because an end of a
pair with a count is beyond the arena. -/
theorem perform_rebuildTotals_cases (e : Engine α) :
    (∀ word ∈ e.store.tally.pairs.countedEnds, word.toNat < e.store.tally.words.capacity)
        ∧ (∃ total e', perform .rebuildTotals e = .ok (.total total) e')
      ∨ ∃ word ∈ e.store.tally.pairs.countedEnds, e.store.tally.words.capacity ≤ word.toNat
        ∧ ∃ e', perform .rebuildTotals e = .error (.malformed (.idBeyond
          e.store.tally.words.name word.toNat e.store.tally.words.capacity)) e' := by
  rcases Tally.rebuildTotals_cases ⟨e.store.tally, e.store.log⟩ with
    ⟨hwords, total, s, hrun⟩ | ⟨word, hword, hbeyond, s, hrun⟩
  · have hok := onTally_eq_ok_iff.mpr ⟨s, hrun, rfl⟩
    exact .inl ⟨hwords, total, _, map_eq_ok_iff.mpr ⟨total, hok, rfl⟩⟩
  · have herror := onTally_eq_error_iff.mpr ⟨s, hrun, rfl⟩
    exact .inr ⟨word, hword, hbeyond, _, map_eq_error_iff.mpr herror⟩

/-! ### What a host may rely on -/

/-- Where the words of pairs and sections come from, and when a word beyond the arena is refused. -/
structure NamesWords (e : Engine α) (pairWords sectionWords : List UInt32) : Prop where
  /-- A pair names words of the arena, unless it was asked for with others. -/
  pair_mem : ∀ row ∈ e.store.tally.pairs.liveRows, ∀ word, word = row.wordA ∨ word = row.wordB →
    word.toNat < e.store.tally.words.capacity ∨ word ∈ pairWords
  /-- So does a section. -/
  section_mem : ∀ row ∈ e.store.sections.liveRows,
    row.word.toNat < e.store.tally.words.capacity ∨ row.word ∈ sectionWords
  rebuildTotals : (∀ word ∈ e.store.tally.pairs.countedEnds,
      word.toNat < e.store.tally.words.capacity) →
    ∃ total e', perform .rebuildTotals e = .ok (.total total) e'
  /-- Recomputing the books finds a word beyond the arena once its pair has a count. -/
  rebuildTotals_refused : (∃ word ∈ e.store.tally.pairs.countedEnds,
      e.store.tally.words.capacity ≤ word.toNat) →
    ∃ word ∈ e.store.tally.pairs.countedEnds, e.store.tally.words.capacity ≤ word.toNat
      ∧ ∃ e', perform .rebuildTotals e = .error (.malformed (.idBeyond
        e.store.tally.words.name word.toNat e.store.tally.words.capacity)) e'
  computeSimilarity : (∀ row ∈ Similarity.live e.store.sections,
      row.word.toNat < e.store.tally.words.capacity) →
    (∃ report e', perform .computeSimilarity e = .ok (.similar report) e')
      ∨ ∃ err e', perform .computeSimilarity e = .error err e' ∧ err.isOverflow = true
        ∧ e'.store.similarity.candidates.IsFull
  /-- A similarity pass finds one once its section has a count. -/
  computeSimilarity_refused : (∃ row ∈ Similarity.live e.store.sections,
      e.store.tally.words.capacity ≤ row.word.toNat) →
    ∃ row ∈ Similarity.live e.store.sections, e.store.tally.words.capacity ≤ row.word.toNat
      ∧ ∃ e', perform .computeSimilarity e = .error (.malformed (.sectionWordBeyond
        row.word.toNat e.store.tally.words.capacity)) e'

theorem namesWords_of_forall (hroom : e.HasRoom) {pairWords sectionWords : List UInt32}
    (hpairs : ∀ row ∈ e.store.tally.pairs.liveRows, ∀ word, word = row.wordA ∨ word = row.wordB →
      word.toNat < e.store.tally.words.capacity ∨ word ∈ pairWords)
    (hsections : ∀ row ∈ e.store.sections.liveRows,
      row.word.toNat < e.store.tally.words.capacity ∨ row.word ∈ sectionWords) :
    e.NamesWords pairWords sectionWords := by
  refine ⟨hpairs, hsections, fun hwords => ?_, fun hbeyond => ?_, fun hwords => ?_,
    fun hbeyond => ?_⟩
  · rcases perform_rebuildTotals_cases e with ⟨-, hanswer⟩ | ⟨word, hword, hbeyond, -⟩
    · exact hanswer
    · exact absurd (hwords word hword) hbeyond.not_gt
  · rcases perform_rebuildTotals_cases e with ⟨hwords, -⟩ | hrefused
    · obtain ⟨word, hword, hle⟩ := hbeyond
      exact absurd (hwords word hword) hle.not_gt
    · exact hrefused
  · rcases perform_computeSimilarity_cases hroom with ⟨-, hanswer⟩ | ⟨row, hrow, hbeyond, -⟩
    · exact hanswer
    · exact absurd (hwords row hrow) hbeyond.not_gt
  · rcases perform_computeSimilarity_cases hroom with ⟨hwords, -⟩ | hrefused
    · obtain ⟨row, hrow, hle⟩ := hbeyond
      exact absurd (hwords row hrow) hle.not_gt
    · exact hrefused

/-- Every word of a pair or a section is a word of the arena, and no call is refused for one. -/
structure StaysInArena (e : Engine α) : Prop where
  pair_lt : ∀ row ∈ e.store.tally.pairs.liveRows, row.wordA.toNat < e.store.tally.words.capacity
    ∧ row.wordB.toNat < e.store.tally.words.capacity
  section_lt : ∀ row ∈ e.store.sections.liveRows, row.word.toNat < e.store.tally.words.capacity
  rebuildTotals : ∃ total e', perform .rebuildTotals e = .ok (.total total) e'
  computeSimilarity : ∀ err e', perform .computeSimilarity e = .error err e' → err.isOverflow = true

/-- If pairs and sections are asked for with words of the arena only, there are no others. -/
theorem NamesWords.staysInArena {pairWords sectionWords : List UInt32}
    (h : e.NamesWords pairWords sectionWords)
    (hpairs : ∀ word ∈ pairWords, word.toNat < e.store.tally.words.capacity)
    (hsections : ∀ word ∈ sectionWords, word.toNat < e.store.tally.words.capacity) :
    e.StaysInArena := by
  have hpair row (hrow : row ∈ e.store.tally.pairs.liveRows) word
      (hword : word = row.wordA ∨ word = row.wordB) :
      word.toNat < e.store.tally.words.capacity :=
    (h.pair_mem row hrow word hword).elim id (hpairs word)
  have hlinked row (hrow : row ∈ e.store.sections.liveRows) :
      row.word.toNat < e.store.tally.words.capacity :=
    (h.section_mem row hrow).elim id (hsections row.word)
  refine ⟨fun row hrow => ⟨hpair row hrow _ (.inl rfl), hpair row hrow _ (.inr rfl)⟩, hlinked,
    h.rebuildTotals fun word hword => ?_, fun err e' hrun => ?_⟩
  · obtain ⟨row, hrow, -, hend⟩ := PairPool.mem_countedEnds.mp hword
    exact hpair row hrow word hend
  · rcases h.computeSimilarity fun row hrow => hlinked row (List.mem_of_mem_filter hrow) with
      ⟨report, e'', hok⟩ | ⟨err', e'', herror, hoverflow, -⟩
    · rw [hok] at hrun
      cases hrun
    · rw [herror] at hrun
      cases hrun
      exact hoverflow

/-- **Words beyond the arena come in where nothing checks them.** After every run of a new engine,
failed calls among them, a word of a pair or a section is a word of the arena, or a call asked for
a pair or a section of that word itself. Recomputing the books and the similarity pass are refused
exactly if such a word beyond the arena has made it into a record with a count. While every pair and
every section is asked for with words of the arena, there are no others, recomputing the books
answers, and a similarity pass fails for want of room at most. -/
theorem words_within_arena {config : Config} (he : ofConfig config = .ok e)
    (calls : List (Call α)) :
    (run calls e).NamesWords (calls.flatMap Call.pairWords) (calls.flatMap Call.sectionWords)
      ∧ ((∀ word ∈ calls.flatMap Call.pairWords ++ calls.flatMap Call.sectionWords,
          word.toNat < e.store.tally.words.capacity) → (run calls e).StaysInArena) := by
  have hnames := names_run (P := fun word => word.toNat < e.store.tally.words.capacity
      ∨ word ∈ calls.flatMap Call.pairWords)
    (S := fun word => word.toNat < e.store.tally.words.capacity
      ∨ word ∈ calls.flatMap Call.sectionWords)
    (fun _ => .inl) (fun _ => .inl) (names_of_ofConfig he) calls (fun _ => .inr) fun _ => .inr
  have hwords : (run calls e).NamesWords (calls.flatMap Call.pairWords)
      (calls.flatMap Call.sectionWords) := by
    refine namesWords_of_forall (hasRoom_run he calls) (fun row hrow word hword => ?_)
      fun row hrow => ?_
    · rw [hnames.classes.capacity_eq]
      obtain ⟨slot, hslot⟩ := List.mem_iff_getElem?.mp hrow
      obtain ⟨-, ha, hb⟩ := hnames.pairs.ordered slot row hslot
      rcases hword with rfl | rfl <;> assumption
    · rw [hnames.classes.capacity_eq]
      exact hnames.row_mem hrow
  refine ⟨hwords, fun hall => ?_⟩
  rw [← hnames.classes.capacity_eq, List.forall_mem_append] at hall
  exact hwords.staysInArena hall.1 hall.2

/-- A batch and classes that name a word beyond the arena are refused, and a fold leads to words of
the arena. -/
theorem words_within_arena_folded :
    let batch : Sentences := ⟨#[0, 9], #[0], #[2], by decide⟩
    let calls : List (Call ℚ) := [.pairSlots [0] [1], .sectionSlots [0, 2] [7, 7],
      .countSentences batch 1, .assignClasses ⟨[(0, 9)], by decide⟩, .countPairs [0],
      .countSections [0, 1], .assignClasses ⟨[(0, 3)], by decide⟩, .fold]
    ∃ e : Engine ℚ, ofConfig .tiny = .ok e ∧ e.store.tally.words.capacity = 4
      ∧ (run calls e).store.tally.pairs.liveRows = [⟨1, 0, 1, 3, 1⟩]
      ∧ (run calls e).store.sections.liveRows = [⟨7, 1, 3⟩, ⟨7, 1, 2⟩]
      ∧ (run calls e).StaysInArena := by
  intro batch calls
  obtain ⟨e, he, hcapacity, hpairs, hsections⟩ := exists_ofConfig_of_mem .tiny
    (P := fun e : Engine ℚ => e.store.tally.words.capacity = 4
      ∧ (run calls e).store.tally.pairs.liveRows = [⟨1, 0, 1, 3, 1⟩]
      ∧ (run calls e).store.sections.liveRows = [⟨7, 1, 3⟩, ⟨7, 1, 2⟩]) (by decide +kernel)
  have hstays := (words_within_arena he calls).2
    (by simp [calls, Call.pairWords, Call.sectionWords, hcapacity])
  exact ⟨e, he, hcapacity, hpairs, hsections, hstays⟩

/-- Nothing checks the words of pairs and sections that are asked for directly: a pair and a section
of a word beyond the arena are made and counted, and the later calls fail for them. -/
theorem words_beyond_arena_found_late :
    let asked : List (Call ℚ) := [.pairSlots [0] [9], .sectionSlots [9] [5],
      .loadPairs [0] [1], .countSections [0]]
    ∃ e e₁ e₂ : Engine ℚ, ofConfig .tiny = .ok e ∧ (run asked e).store.tally.words.capacity = 4
      ∧ (run asked e).store.tally.pairs.liveRows = [⟨1, 0, 0, 9, 1⟩]
      ∧ perform .rebuildTotals (run asked e) = .error (.malformed (.idBeyond "word" 9 4)) e₁
      ∧ (run asked e).store.sections.liveRows = [⟨5, 1, 9⟩]
      ∧ perform .computeSimilarity (run asked e)
        = .error (.malformed (.sectionWordBeyond 9 4)) e₂ := by
  intro asked
  obtain ⟨e, he, hcapacity, hpairs, hrebuild, hsections, hsimilarity⟩ :=
    exists_ofConfig_of_mem .tiny (P := fun e : Engine ℚ => (run asked e).store.tally.words.capacity = 4
      ∧ (run asked e).store.tally.pairs.liveRows = [⟨1, 0, 0, 9, 1⟩]
      ∧ (outcome rebuildTotals (run asked e)).1 = .error (.malformed (.idBeyond "word" 9 4))
      ∧ (run asked e).store.sections.liveRows = [⟨5, 1, 9⟩]
      ∧ (outcome computeSimilarity (run asked e)).1
        = .error (.malformed (.sectionWordBeyond 9 4))) (by decide +kernel)
  obtain ⟨e₁, hrebuild⟩ := exists_eq_error_of_outcome hrebuild
  obtain ⟨e₂, hsimilarity⟩ := exists_eq_error_of_outcome hsimilarity
  exact ⟨e, e₁, e₂, he, hcapacity, hpairs, map_eq_error_iff.mpr hrebuild, hsections,
    map_eq_error_iff.mpr hsimilarity⟩

end Engine

end CorpusStats
