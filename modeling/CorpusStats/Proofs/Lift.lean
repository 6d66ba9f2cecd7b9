import CorpusStats.Engine.Basic
import CorpusStats.Proofs.Failing
/-!
# CorpusStats.Proofs.Lift

Stages of a part, seen from the whole. A lifted stage answers what the stage answers, changes
the part as the stage does, and leaves everything else: one equation for each part of a
tally, of a store and of an engine. Proofs about calls rewrite with these equations and never
unfold a lift. What a stage keeps or leaves behind when it fails, its lift does
(`Engine.keeps_onTally`, `Engine.keepsOr_onTally`).
-/

namespace CorpusStats

open Stage

variable {α β : Type}

namespace Tally

theorem outcome_onWords (act : Stage (WordPool α) β) (t : Tally α) :
    outcome (onWords act) t
      = ((outcome act t.words).1, { t with words := (outcome act t.words).2 }) := by
  obtain ⟨words, pairs, total⟩ := t
  unfold outcome onWords
  dsimp only
  cases act words <;> rfl

theorem outcome_onPairs (act : Stage (PairPool α) β) (t : Tally α) :
    outcome (onPairs act) t
      = ((outcome act t.pairs).1, { t with pairs := (outcome act t.pairs).2 }) := by
  obtain ⟨words, pairs, total⟩ := t
  unfold outcome onPairs
  dsimp only
  cases act pairs <;> rfl

theorem keepsOr_onWords {P : WordPool α → Prop} {Q : Error → WordPool α → Prop}
    {act : Stage (WordPool α) β} (h : KeepsOr P Q act) :
    KeepsOr (fun t : Tally α => P t.words) (fun e t => Q e t.words) (onWords act) :=
  .of_part (fun t : Tally α => t.words) h fun t => by rw [outcome_onWords]; exact ⟨rfl, rfl⟩

theorem keepsOr_onPairs {P : PairPool α → Prop} {Q : Error → PairPool α → Prop}
    {act : Stage (PairPool α) β} (h : KeepsOr P Q act) :
    KeepsOr (fun t : Tally α => P t.pairs) (fun e t => Q e t.pairs) (onPairs act) :=
  .of_part (fun t : Tally α => t.pairs) h fun t => by rw [outcome_onPairs]; exact ⟨rfl, rfl⟩

theorem onPairs_eq_ok_iff {act : Stage (PairPool α) β} {t t' : Tally α} {b : β} :
    onPairs act t = .ok b t' ↔ ∃ pairs, act t.pairs = .ok b pairs ∧ t' = { t with pairs } :=
  eq_ok_iff_of_outcome (f := fun pairs : PairPool α => { t with pairs }) (outcome_onPairs act t)

theorem onPairs_eq_error_iff {act : Stage (PairPool α) β} {t t' : Tally α} {e : Error} :
    onPairs act t = .error e t' ↔ ∃ pairs, act t.pairs = .error e pairs ∧ t' = { t with pairs } :=
  eq_error_iff_of_outcome (f := fun pairs : PairPool α => { t with pairs }) (outcome_onPairs act t)

end Tally

namespace Store

theorem outcome_onTally (act : Stage (Logged (Tally α)) β) (s : Store α) :
    outcome (onTally act) s = ((outcome act ⟨s.tally, s.log⟩).1,
      { s with
        tally := (outcome act ⟨s.tally, s.log⟩).2.state
        log := (outcome act ⟨s.tally, s.log⟩).2.log }) := by
  obtain ⟨tally, sections, similarity, log⟩ := s
  unfold outcome onTally
  dsimp only
  cases act ⟨tally, log⟩ <;> rfl

theorem outcome_onSections (act : Stage (Logged (SectionPool α)) β) (s : Store α) :
    outcome (onSections act) s = ((outcome act ⟨s.sections, s.log⟩).1,
      { s with
        sections := (outcome act ⟨s.sections, s.log⟩).2.state
        log := (outcome act ⟨s.sections, s.log⟩).2.log }) := by
  obtain ⟨tally, sections, similarity, log⟩ := s
  unfold outcome onSections
  dsimp only
  cases act ⟨sections, log⟩ <;> rfl

theorem outcome_onSimilarity (act : SectionPool α → Stage (Logged (Similarity α)) β)
    (s : Store α) :
    outcome (onSimilarity act) s = ((outcome (act s.sections) ⟨s.similarity, s.log⟩).1,
      { s with
        similarity := (outcome (act s.sections) ⟨s.similarity, s.log⟩).2.state
        log := (outcome (act s.sections) ⟨s.similarity, s.log⟩).2.log }) := by
  obtain ⟨tally, sections, similarity, log⟩ := s
  unfold outcome onSimilarity
  dsimp only
  cases act sections ⟨similarity, log⟩ <;> rfl

theorem onTally_eq_ok_iff {act : Stage (Logged (Tally α)) β} {s s' : Store α} {b : β} :
    onTally act s = .ok b s' ↔ ∃ l, act ⟨s.tally, s.log⟩ = .ok b l
      ∧ s' = { s with tally := l.state, log := l.log } :=
  eq_ok_iff_of_outcome (f := fun l : Logged (Tally α) => { s with tally := l.state, log := l.log })
    (outcome_onTally act s)

theorem onSections_eq_ok_iff {act : Stage (Logged (SectionPool α)) β} {s s' : Store α} {b : β} :
    onSections act s = .ok b s' ↔ ∃ l, act ⟨s.sections, s.log⟩ = .ok b l
      ∧ s' = { s with sections := l.state, log := l.log } :=
  eq_ok_iff_of_outcome
    (f := fun l : Logged (SectionPool α) => { s with sections := l.state, log := l.log })
    (outcome_onSections act s)

theorem onSimilarity_eq_ok_iff {act : SectionPool α → Stage (Logged (Similarity α)) β}
    {s s' : Store α} {b : β} :
    onSimilarity act s = .ok b s' ↔ ∃ l, act s.sections ⟨s.similarity, s.log⟩ = .ok b l
      ∧ s' = { s with similarity := l.state, log := l.log } :=
  eq_ok_iff_of_outcome
    (f := fun l : Logged (Similarity α) => { s with similarity := l.state, log := l.log })
    (outcome_onSimilarity act s)

theorem onTally_eq_error_iff {act : Stage (Logged (Tally α)) β} {s s' : Store α} {e : Error} :
    onTally act s = .error e s' ↔ ∃ l, act ⟨s.tally, s.log⟩ = .error e l
      ∧ s' = { s with tally := l.state, log := l.log } :=
  eq_error_iff_of_outcome
    (f := fun l : Logged (Tally α) => { s with tally := l.state, log := l.log })
    (outcome_onTally act s)

theorem onSections_eq_error_iff {act : Stage (Logged (SectionPool α)) β} {s s' : Store α}
    {e : Error} : onSections act s = .error e s' ↔ ∃ l, act ⟨s.sections, s.log⟩ = .error e l
      ∧ s' = { s with sections := l.state, log := l.log } :=
  eq_error_iff_of_outcome
    (f := fun l : Logged (SectionPool α) => { s with sections := l.state, log := l.log })
    (outcome_onSections act s)

theorem onSimilarity_eq_error_iff {act : SectionPool α → Stage (Logged (Similarity α)) β}
    {s s' : Store α} {e : Error} :
    onSimilarity act s = .error e s' ↔ ∃ l, act s.sections ⟨s.similarity, s.log⟩ = .error e l
      ∧ s' = { s with similarity := l.state, log := l.log } :=
  eq_error_iff_of_outcome
    (f := fun l : Logged (Similarity α) => { s with similarity := l.state, log := l.log })
    (outcome_onSimilarity act s)

/-- Folding pairs always answers. -/
theorem foldPairs_eq [Weight α] (s : Store α) :
    foldPairs s = .ok (Tally.foldPairs ⟨s.tally, s.log⟩).1
      { s with
        tally := (Tally.foldPairs ⟨s.tally, s.log⟩).2.state
        log := (Tally.foldPairs ⟨s.tally, s.log⟩).2.log } := rfl

/-- Folding sections reads the words, and always answers. -/
theorem foldSections_eq (s : Store α) :
    foldSections s = .ok (SectionPool.foldWords s.tally.words ⟨s.sections, s.log⟩).1
      { s with
        sections := (SectionPool.foldWords s.tally.words ⟨s.sections, s.log⟩).2.state
        log := (SectionPool.foldWords s.tally.words ⟨s.sections, s.log⟩).2.log } := rfl

/-- Folding the words of a store does to its tally what folding pairs and rebuilding their index
do, whether rebuilding answers or not. -/
theorem tally_fold [Weight α] (s : Store α) :
    (outcome fold s).2.tally
      = (outcome Tally.reindexPairs (Tally.foldPairs ⟨s.tally, s.log⟩).2).2.state := by
  simp only [outcome, fold, Bind.bind, EStateM.bind, foldPairs_eq, onTally]
  cases Tally.reindexPairs (Tally.foldPairs ⟨s.tally, s.log⟩).2 <;> rfl

/-- Folding goes on to the sections if rebuilding the index answers. -/
theorem fold_of_reindexPairs [Weight α] {s : Store α} {merged : ℕ} {l : Logged (Tally α)}
    (h : Tally.reindexPairs (Tally.foldPairs ⟨s.tally, s.log⟩).2 = .ok merged l) :
    fold s = .ok
      { (Tally.foldPairs ⟨s.tally, s.log⟩).1 with
        merged
        sections := (SectionPool.foldWords l.state.words ⟨s.sections, l.log⟩).1 }
      { s with
        tally := l.state
        sections := (SectionPool.foldWords l.state.words ⟨s.sections, l.log⟩).2.state
        log := (SectionPool.foldWords l.state.words ⟨s.sections, l.log⟩).2.log } := by
  simp only [fold, Bind.bind, EStateM.bind, foldPairs_eq, onTally, h, foldSections_eq]
  rfl

/-- Folding answers if rebuilding the index does. -/
theorem exists_fold_of_reindexPairs [Weight α] {s : Store α} {merged : ℕ} {l : Logged (Tally α)}
    (h : Tally.reindexPairs (Tally.foldPairs ⟨s.tally, s.log⟩).2 = .ok merged l) :
    ∃ report s', fold s = .ok report s' ∧ s'.tally = l.state :=
  ⟨_, _, fold_of_reindexPairs h, rfl⟩

/-! ### What stages of a part keep -/

section Keeps

variable {P : Tally α → Prop}

theorem keeps_tally_onTally {act : Stage (Logged (Tally α)) β}
    (h : Keeps (fun s : Logged (Tally α) => P s.state) act) :
    Keeps (fun s : Store α => P s.tally) (onTally act) := by
  intro s hs
  rw [outcome_onTally]
  exact h ⟨s.tally, s.log⟩ hs

theorem keeps_rest_onTally {Q : SectionPool α → Similarity α → Prop}
    (act : Stage (Logged (Tally α)) β) :
    Keeps (fun s : Store α => Q s.sections s.similarity) (onTally act) := by
  intro s hs
  rw [outcome_onTally]
  exact hs

variable {Q : SectionPool α → Prop}

theorem keeps_sections_onSections {act : Stage (Logged (SectionPool α)) β}
    (h : Keeps (fun s : Logged (SectionPool α) => Q s.state) act) :
    Keeps (fun s : Store α => Q s.sections) (onSections act) := by
  intro s hs
  rw [outcome_onSections]
  exact h ⟨s.sections, s.log⟩ hs

theorem keeps_sections_onSimilarity
    (act : SectionPool α → Stage (Logged (Similarity α)) β) :
    Keeps (fun s : Store α => Q s.sections) (onSimilarity act) := by
  intro s hs
  rw [outcome_onSimilarity]
  exact hs

end Keeps

end Store

namespace Engine

theorem outcome_onStore (act : Stage (Store α) β) (e : Engine α) :
    outcome (onStore act) e
      = ((outcome act e.store).1, { e with store := (outcome act e.store).2 }) := by
  obtain ⟨config, store⟩ := e
  unfold outcome onStore
  dsimp only
  cases act store <;> rfl

/-- Outside any dispatch, nothing is logged. -/
theorem outcome_onTallyState (act : Stage (Tally α) β) (e : Engine α) :
    outcome (onTallyState act) e = ((outcome act e.store.tally).1,
      { e with store := { e.store with tally := (outcome act e.store.tally).2 } }) := by
  obtain ⟨config, tally, sections, similarity, log⟩ := e
  unfold outcome onTallyState onStore Store.onTally
  dsimp only
  cases act tally <;> rfl

theorem outcome_onSectionsState (act : Stage (SectionPool α) β) (e : Engine α) :
    outcome (onSectionsState act) e = ((outcome act e.store.sections).1,
      { e with store := { e.store with sections := (outcome act e.store.sections).2 } }) := by
  obtain ⟨config, tally, sections, similarity, log⟩ := e
  unfold outcome onSectionsState onStore Store.onSections
  dsimp only
  cases act sections <;> rfl

theorem onStore_eq_ok_iff {act : Stage (Store α) β} {e e' : Engine α} {b : β} :
    onStore act e = .ok b e' ↔ ∃ store, act e.store = .ok b store ∧ e' = { e with store } :=
  eq_ok_iff_of_outcome (f := fun store : Store α => { e with store }) (outcome_onStore act e)

theorem onStore_eq_error_iff {act : Stage (Store α) β} {e e' : Engine α} {err : Error} :
    onStore act e = .error err e' ↔ ∃ store, act e.store = .error err store
      ∧ e' = { e with store } :=
  eq_error_iff_of_outcome (f := fun store : Store α => { e with store }) (outcome_onStore act e)

/-- A call that runs a stage of the tally answers what the stage answers. -/
theorem onTally_eq_ok_iff {act : Stage (Logged (Tally α)) β} {e e' : Engine α} {b : β} :
    onStore (Store.onTally act) e = .ok b e' ↔
      ∃ s, act ⟨e.store.tally, e.store.log⟩ = .ok b s
        ∧ e' = { e with store := { e.store with tally := s.state, log := s.log } } := by
  rw [onStore_eq_ok_iff]
  constructor
  · intro h
    obtain ⟨store, hstore, rfl⟩ := h
    obtain ⟨s, hact, rfl⟩ := Store.onTally_eq_ok_iff.mp hstore
    exact ⟨s, hact, rfl⟩
  · intro h
    obtain ⟨s, hact, rfl⟩ := h
    exact ⟨_, Store.onTally_eq_ok_iff.mpr ⟨s, hact, rfl⟩, rfl⟩

/-- It fails as the stage does. -/
theorem onTally_eq_error_iff {act : Stage (Logged (Tally α)) β} {e e' : Engine α} {err : Error} :
    onStore (Store.onTally act) e = .error err e' ↔
      ∃ s, act ⟨e.store.tally, e.store.log⟩ = .error err s
        ∧ e' = { e with store := { e.store with tally := s.state, log := s.log } } := by
  rw [onStore_eq_error_iff]
  constructor
  · intro h
    obtain ⟨store, hstore, rfl⟩ := h
    obtain ⟨s, hact, rfl⟩ := Store.onTally_eq_error_iff.mp hstore
    exact ⟨s, hact, rfl⟩
  · intro h
    obtain ⟨s, hact, rfl⟩ := h
    exact ⟨_, Store.onTally_eq_error_iff.mpr ⟨s, hact, rfl⟩, rfl⟩

/-! ### What calls keep -/

theorem keeps_onStore {P : Store α → Prop} {act : Stage (Store α) β} (h : Keeps P act) :
    Keeps (fun e : Engine α => P e.store) (onStore act) := by
  intro e he
  rw [outcome_onStore]
  exact h _ he

/-- A call that runs a stage of the tally leaves everything else. -/
theorem keeps_rest_onTally {Q : SectionPool α → Similarity α → Prop}
    (act : Stage (Logged (Tally α)) β) :
    Keeps (fun e : Engine α => Q e.store.sections e.store.similarity)
      (onStore (Store.onTally act)) :=
  keeps_onStore (P := fun s => Q s.sections s.similarity) (Store.keeps_rest_onTally act)

theorem keeps_rest_onTallyState {Q : SectionPool α → Similarity α → Prop}
    (act : Stage (Tally α) β) :
    Keeps (fun e : Engine α => Q e.store.sections e.store.similarity) (onTallyState act) :=
  keeps_rest_onTally _

section Sections

variable {P : SectionPool α → Prop}

theorem keeps_sections_onSections {act : Stage (Logged (SectionPool α)) β}
    (h : Keeps (fun s : Logged (SectionPool α) => P s.state) act) :
    Keeps (fun e : Engine α => P e.store.sections) (onStore (Store.onSections act)) :=
  keeps_onStore (P := fun s => P s.sections) (Store.keeps_sections_onSections h)

theorem keeps_sections_onSimilarity (act : SectionPool α → Stage (Logged (Similarity α)) β) :
    Keeps (fun e : Engine α => P e.store.sections) (onStore (Store.onSimilarity act)) :=
  keeps_onStore (P := fun s => P s.sections) (Store.keeps_sections_onSimilarity act)

theorem keeps_onSectionsState {act : Stage (SectionPool α) β} (h : Keeps P act) :
    Keeps (fun e : Engine α => P e.store.sections) (onSectionsState act) := by
  intro e he
  rw [outcome_onSectionsState]
  exact h _ he

/-- A call that runs a stage of the sections fails as the stage does. -/
theorem keepsOr_onSections {Q : Error → SectionPool α → Prop}
    {act : Stage (Logged (SectionPool α)) β}
    (h : KeepsOr (fun s : Logged (SectionPool α) => P s.state) (fun err s => Q err s.state) act) :
    KeepsOr (fun e : Engine α => P e.store.sections) (fun err e => Q err e.store.sections)
      (onStore (Store.onSections act)) :=
  .of_part (fun e : Engine α => ⟨e.store.sections, e.store.log⟩) h fun e => by
    rw [outcome_onStore, Store.outcome_onSections]
    exact ⟨rfl, rfl⟩

theorem keepsOr_onSectionsState {Q : Error → SectionPool α → Prop} {act : Stage (SectionPool α) β}
    (h : KeepsOr P Q act) :
    KeepsOr (fun e : Engine α => P e.store.sections) (fun err e => Q err e.store.sections)
      (onSectionsState act) :=
  .of_part (fun e : Engine α => e.store.sections) h fun e => by
    rw [outcome_onSectionsState]
    exact ⟨rfl, rfl⟩

end Sections

variable {P : Tally α → Prop}

/-- A call that runs a stage of the tally keeps what the stage keeps. -/
theorem keeps_onTally {act : Stage (Logged (Tally α)) β}
    (h : Keeps (fun s : Logged (Tally α) => P s.state) act) :
    Keeps (fun e : Engine α => P e.store.tally) (onStore (Store.onTally act)) := by
  intro e he
  rw [outcome_onStore, Store.outcome_onTally]
  exact h _ he

/-- A call that runs a stage of the tally outside any dispatch keeps what the stage keeps. -/
theorem keeps_onTallyState {act : Stage (Tally α) β} (h : Keeps P act) :
    Keeps (fun e : Engine α => P e.store.tally) (onTallyState act) := by
  intro e he
  rw [outcome_onTallyState]
  exact h _ he

/-- A call that runs a stage of the tally fails as the stage does. -/
theorem keepsOr_onTally {Q : Error → Tally α → Prop} {act : Stage (Logged (Tally α)) β}
    (h : KeepsOr (fun s : Logged (Tally α) => P s.state) (fun err s => Q err s.state) act) :
    KeepsOr (fun e : Engine α => P e.store.tally) (fun err e => Q err e.store.tally)
      (onStore (Store.onTally act)) :=
  .of_part (fun e : Engine α => ⟨e.store.tally, e.store.log⟩) h fun e => by
    rw [outcome_onStore, Store.outcome_onTally]
    exact ⟨rfl, rfl⟩

theorem keepsOr_onTallyState {Q : Error → Tally α → Prop} {act : Stage (Tally α) β}
    (h : KeepsOr P Q act) :
    KeepsOr (fun e : Engine α => P e.store.tally) (fun err e => Q err e.store.tally)
      (onTallyState act) :=
  .of_part (fun e : Engine α => e.store.tally) h fun e => by
    rw [outcome_onTallyState]
    exact ⟨rfl, rfl⟩

/-- A call that runs a stage of the sections leaves the tally. -/
theorem keeps_onSections (act : Stage (Logged (SectionPool α)) β) :
    Keeps (fun e : Engine α => P e.store.tally) (onStore (Store.onSections act)) := by
  intro e he
  rw [outcome_onStore, Store.outcome_onSections]
  exact he

/-- A call that runs a stage of the similarity pass leaves the tally. -/
theorem keeps_onSimilarity (act : SectionPool α → Stage (Logged (Similarity α)) β) :
    Keeps (fun e : Engine α => P e.store.tally) (onStore (Store.onSimilarity act)) := by
  intro e he
  rw [outcome_onStore, Store.outcome_onSimilarity]
  exact he

end Engine

end CorpusStats
