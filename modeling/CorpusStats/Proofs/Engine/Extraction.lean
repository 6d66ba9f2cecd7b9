import CorpusStats.Proofs.Engine.Batches
import CorpusStats.Proofs.Engine.Sections
import CorpusStats.Proofs.Extraction
/-!
# CorpusStats.Proofs.Engine.Extraction

What extracting a batch does to an engine (`Engine.ExtractsBatch`): it counts the section of every
position that an edge touches, and nothing else. Extracting the same batch once more succeeds, and
counts the same sections without making new ones.
-/

namespace CorpusStats

open Stage

variable {α : Type} [Weight α]

/-- A configuration with room for words and sections. -/
def Config.roomy : Config := ⟨⟨256, 512, 4, 8, 32, 64, 64, 4, 8⟩, ⟨0, .linear, 64, 2⟩⟩

namespace Engine

/-- `e'` is `e` after the sections of a batch were counted. -/
structure ExtractsBatch (e : Engine α) (b : Parses) (report : ExtractReport) (sections : ℕ)
    (e' : Engine α) : Prop where
  /-- A section is observed wherever an edge of a sentence touches one of its positions. -/
  observed_eq : report.observed = Set.ncard {place : ℕ × ℕ | place.1 < b.sentences.count
    ∧ place.2 < (b.sentences.length place.1).toNat
    ∧ ∃ edge ∈ b.edges place.1, edge.1.toNat = place.2 ∨ edge.2.toNat = place.2}
  created_eq : e'.store.sections.used = e.store.sections.used + report.created
  sections_eq : sections = e'.store.sections.used
  /-- The disjunct of a place is the hash of its neighbours, those on the left first and then by
  their words. -/
  disjunct_eq : ∀ s < b.sentences.count, ∀ (i : ℕ) (neighbours : List (Side × UInt32)),
    neighbours.Perm (b.neighbours s i.toUInt32) →
    neighbours.Pairwise (fun m n => m.1.bit < n.1.bit ∨ m.1 = n.1 ∧ m.2 ≤ n.2) →
    (b.sectionOf (s, i)).2 = Key.storable
      (Disjunct.fold (neighbours.map fun neighbour => Connector.of neighbour.2 neighbour.1))
  /-- The count that a key leads to grows by the places whose sections have the key. -/
  count_eq : ∀ key, e'.store.sections.countAt key
    = addOnes (b.touched.countP fun place => b.keyAt place = Key.storable key)
      (e.store.sections.countAt key)
  lookup_eq : ∀ key slot, e.store.sections.lookup key = some slot →
    e'.store.sections.lookup key = some slot
  /-- The row of a slot is counted for the places whose sections are found in the slot. Nothing
  else changes of it. -/
  row_eq : ∀ (slot : ℕ) row, e.store.sections.liveRows[slot]? = some row →
    e'.store.sections.liveRows[slot]? = some (row.gained (b.touched.countP fun place =>
      (e.store.sections.lookup (b.keyAt place)).map UInt32.toNat = some slot))
  created_length : report.created = (e.store.sections.newKeys (b.touched.map b.keyAt)).length
  /-- New keys take the next slots, and each row shows the section of the first place. -/
  new_row : ∀ (n : ℕ) key, (e.store.sections.newKeys (b.touched.map b.keyAt))[n]? = some key →
    ∃ slot place, e'.store.sections.lookup key = some slot
      ∧ slot.toNat = e.store.sections.used + n
      ∧ b.touched.find? (fun place => b.keyAt place = key) = some place
      ∧ e'.store.sections.liveRows[slot.toNat]? = some ⟨(b.sectionOf place).2,
        addOnes (b.touched.countP fun place => b.keyAt place = key) 0, (b.sectionOf place).1⟩
  rest : e'.config = e.config ∧ e'.store.tally = e.store.tally
    ∧ e'.store.similarity = e.store.similarity

/-- Extracting checks the words of a batch and extracts it from the sections. -/
theorem perform_extractSections_eq_ok_iff {e e' : Engine α} {b : Parses} {report : ExtractReport}
    {sections : ℕ} :
    perform (.extractSections b) e = .ok (.extracted report sections) e' ↔
      checkWords e.store.tally.words b.sentences = .ok ()
        ∧ ∃ s, SectionPool.extract b .linear ⟨e.store.sections, e.store.log⟩ = .ok report s
          ∧ sections = s.state.used
          ∧ e' = { e with store := { e.store with sections := s.state, log := s.log } } := by
  rw [perform, map_eq_ok_iff]
  constructor
  · intro h
    obtain ⟨⟨_, _⟩, hrun, heq⟩ := h
    cases heq
    rw [extractSections_eq_onStore] at hrun
    obtain ⟨store, hstore, rfl⟩ := onStore_eq_ok_iff.mp hrun
    obtain ⟨hwords, _, hextract, hreport⟩ := Store.onBatch_eq_ok_iff.mp hstore
    obtain ⟨s, hsections, rfl⟩ := Store.onSections_eq_ok_iff.mp hextract
    cases hreport
    exact ⟨hwords, s, hsections, rfl, rfl⟩
  · intro h
    obtain ⟨hwords, s, hsections, rfl, rfl⟩ := h
    refine ⟨(report, s.state.used), ?_, rfl⟩
    rw [extractSections_eq_onStore]
    refine onStore_eq_ok_iff.mpr ⟨_, Store.onBatch_eq_ok_iff.mpr ⟨hwords, report, ?_, rfl⟩, rfl⟩
    exact Store.onSections_eq_ok_iff.mpr ⟨s, hsections, rfl⟩

variable {e e' : Engine α} {b : Parses} {report : ExtractReport} {sections : ℕ}
  {asked : List SectionRequest}

theorem extractsBatch_of_perform (hrecords : SectionPool.Records asked e.store.sections)
    (h : perform (.extractSections b) e = .ok (.extracted report sections) e') :
    e.ExtractsBatch b report sections e' := by
  obtain ⟨-, s, hrun, rfl, rfl⟩ := perform_extractSections_eq_ok_iff.mp h
  have hnumbers := hrecords.numbers
  have hp := hnumbers.grounded hrecords.tidy
  have hle := hnumbers.capacity_le
  obtain ⟨hvisited, hobserved, hused⟩ := SectionPool.visited_extract hp hle hrun
  rw [b.sections_eq_map] at hvisited hobserved
  have hkeys : (b.touched.map b.sectionOf).map SectionPool.keyOf = b.touched.map b.keyAt :=
    List.map_map
  constructor
  case observed_eq => rw [hobserved, List.length_map, b.length_touched]
  case created_eq => exact hused
  case sections_eq => rfl
  case disjunct_eq => exact fun s hs i neighbours hperm => Parses.hash_connectors hs hperm
  case count_eq =>
    intro key
    have hcount := SectionPool.countAt_of_visited hnumbers hrecords.tidy hvisited key
    rwa [List.countP_map] at hcount
  case lookup_eq => exact fun key slot hslot => hvisited.lookup_of_found hp hle hslot
  case row_eq =>
    intro slot row hrow
    have hold := SectionPool.row_of_old hp hle hvisited hrow
    rwa [List.countP_map] at hold
  case created_length =>
    have hlength := hvisited.used_eq
    rw [hkeys, hused] at hlength
    exact Nat.add_left_cancel hlength
  case new_row =>
    intro n key hkey
    rw [← hkeys] at hkey
    obtain ⟨slot, w, hslot, hnumber, hfirst, hrow⟩ := SectionPool.row_of_new hle hvisited hkey
    rw [List.find?_map] at hfirst
    obtain ⟨place, hplace, rfl⟩ := Option.map_eq_some_iff.mp hfirst
    rw [List.countP_map] at hrow
    exact ⟨slot, place, hslot, hnumber, hplace, hrow⟩
  case rest => exact ⟨rfl, rfl, rfl⟩

/-- A batch whose words are words of the arena is extracted, if there is room for a section at
every touched position. -/
theorem exists_perform_of_room (hrecords : SectionPool.Records asked e.store.sections)
    (hwords : (checkWords e.store.tally.words b.sentences).toOption = some ())
    (hroom : e.store.sections.used + b.touched.length ≤ e.store.sections.capacity) :
    ∃ report sections e', perform (.extractSections b) e = .ok (.extracted report sections) e' := by
  have hok : checkWords e.store.tally.words b.sentences = .ok () := by
    cases hcheck : checkWords e.store.tally.words b.sentences with
    | ok _ => rfl
    | error error =>
      rw [hcheck] at hwords
      cases hwords
  obtain ⟨report, s, hrun⟩ : ∃ report s,
      SectionPool.extract b .linear ⟨e.store.sections, e.store.log⟩ = .ok report s :=
    SectionPool.exists_extract_of_room hrecords.numbers hrecords.tidy hroom
  exact ⟨report, _, _, perform_extractSections_eq_ok_iff.mpr ⟨hok, s, hrun, rfl, rfl⟩⟩

/-- Extracting a batch again makes no new sections. -/
theorem exists_perform_again (hrecords : SectionPool.Records asked e.store.sections)
    (h : perform (.extractSections b) e = .ok (.extracted report sections) e') :
    ∃ e'', perform (.extractSections b) e' = .ok (.extracted ⟨report.observed, 0⟩ sections) e'' := by
  have hrecords' := records_after hrecords (.extractSections b)
  rw [after_eq, outcome_of_ok h] at hrecords'
  obtain ⟨hwords, s, hrun, rfl, rfl⟩ := perform_extractSections_eq_ok_iff.mp h
  obtain ⟨s', hagain, hused⟩ := SectionPool.exists_extract_again
    (hrecords.numbers.grounded hrecords.tidy) hrecords.numbers.capacity_le hrun
    hrecords'.numbers hrecords'.tidy
  exact ⟨_, perform_extractSections_eq_ok_iff.mpr ⟨hwords, s', hagain, hused.symm, rfl⟩⟩

/-- **Extracting a batch counts the sections of the positions that edges touch.** After every run,
failed calls among them, extracting a batch that is accepted and finds room adds one to the section
of every touched position: to the row of its key, which is filled in if the key is new. Nothing
else changes, and extracting the batch again succeeds, makes no new sections and adds the same
counts. -/
theorem sections_extracted {config : Config} {e e' : Engine α} (he : ofConfig config = .ok e)
    (calls : List (Call α)) {b : Parses} {report : ExtractReport} {sections : ℕ}
    (h : perform (.extractSections b) (run calls e) = .ok (.extracted report sections) e') :
    (run calls e).ExtractsBatch b report sections e'
      ∧ ∃ e'', perform (.extractSections b) e' = .ok (.extracted ⟨report.observed, 0⟩ sections) e''
        ∧ e'.ExtractsBatch b ⟨report.observed, 0⟩ sections e'' := by
  have hrecords := records_run (records_of_ofConfig he) calls
  have hrecords' := records_after hrecords (.extractSections b)
  rw [after_eq, outcome_of_ok h] at hrecords'
  obtain ⟨e'', hagain⟩ := exists_perform_again hrecords h
  exact ⟨extractsBatch_of_perform hrecords h, e'', hagain, extractsBatch_of_perform hrecords' hagain⟩

/-- Two sentences that share an edge, a word without edges, and a section that is not touched. -/
theorem sections_extracted_shared :
    let calls : List (Call ℚ) := [.sectionSlots [0] [7], .countSections [0]]
    let b : Parses := ⟨⟨#[0, 1, 0, 1, 3], #[0, 2, 4], #[2, 2, 1], by decide⟩, #[1], #[0],
      #[0, 0, 0], #[1, 1, 0], by decide⟩
    ∃ e e' e'' : Engine ℚ, ofConfig .roomy = .ok e
      ∧ perform (.extractSections b) (run calls e) = .ok (.extracted ⟨4, 2⟩ 3) e'
      ∧ (run calls e).ExtractsBatch b ⟨4, 2⟩ 3 e'
      ∧ perform (.extractSections b) e' = .ok (.extracted ⟨4, 0⟩ 3) e''
      ∧ e'.ExtractsBatch b ⟨4, 0⟩ 3 e'' := by
  intro calls b
  have hsorted : ∀ place ∈ b.touched,
      (b.connectors place.1 place.2.toUInt32).Pairwise fun c d => Connector.le c d := by
    decide +kernel
  have hkeys := List.map_congr_left fun place hplace =>
    Parses.keyAt_of_sorted (hsorted place hplace)
  obtain ⟨e, he, hused, hroom, hwords, hnew⟩ := exists_ofConfig_of_mem .roomy
    (P := fun e : Engine ℚ => (run calls e).store.sections.used = 1
      ∧ (run calls e).store.sections.used + b.touched.length ≤ (run calls e).store.sections.capacity
      ∧ (checkWords (run calls e).store.tally.words b.sentences).toOption = some ()
      ∧ ((run calls e).store.sections.newKeys (b.touched.map fun place =>
        Key.ofSection (b.sentences.wordAt place.1 place.2)
          (Key.storable (Disjunct.fold (b.connectors place.1 place.2.toUInt32))))).length = 2)
    (by decide +kernel)
  obtain ⟨⟨observed, created⟩, sections, e', hrun⟩ :=
    exists_perform_of_room (records_run (records_of_ofConfig he) calls) hwords hroom
  obtain ⟨hextracts, e'', hagain, hextracts'⟩ := sections_extracted he calls hrun
  obtain rfl : observed = 4 := hextracts.observed_eq.trans b.length_touched.symm
  obtain rfl : created = 2 := by
    rw [← hnew, ← hkeys]
    exact hextracts.created_length
  obtain rfl : sections = 3 := by
    have hsections := hextracts.sections_eq.trans hextracts.created_eq
    rw [hused] at hsections
    exact hsections
  exact ⟨e, e', e'', he, hrun, hextracts, hagain, hextracts'⟩

/-- A disjunct need not be the hash of its connectors, which may be a reserved key: the connectors
of the middle words here are such, and both have the disjunct `0`. So the section that has the hash
itself for a disjunct is not counted, and no section has a reserved key, but looking a reserved key
up leads to a section that is. -/
theorem sections_of_reserved_hash :
    let calls : List (Call ℚ) := [.sectionSlots [1, 0] [Key.erased, 0]]
    let b : Parses := ⟨⟨#[18, 21, 177, 204, 243, 1, 39, 104, 201, 252, 253, 18, 21, 177, 204, 243, 0,
      39, 104, 201, 252, 253], #[0, 11], #[11, 11], by decide⟩, #[0, 1, 2, 3, 4, 5, 5, 5, 5, 5],
      #[5, 5, 5, 5, 5, 6, 7, 8, 9, 10], #[0, 0], #[10, 10], by decide +kernel⟩
    let hashed (key : UInt64) : ℕ := b.touched.countP fun place =>
      Key.ofSection (b.sentences.wordAt place.1 place.2)
        (Disjunct.fold (Disjunct.arrange (b.connectors place.1 place.2.toUInt32))) = key
    ∃ (e e' : Engine ℚ) (report : ExtractReport) (sections : ℕ), ofConfig .roomy = .ok e
      ∧ perform (.extractSections b) (run calls e) = .ok (.extracted report sections) e'
      ∧ (hashed (Key.ofSection 1 Key.erased) = 1
        ∧ (run calls e).store.sections.lookup (Key.ofSection 1 Key.erased) = some 0
        ∧ (run calls e).store.sections.countAt (Key.ofSection 1 Key.erased) = 0
        ∧ e'.store.sections.countAt (Key.ofSection 1 Key.erased) = 0)
      ∧ hashed Key.vacant = 0
      ∧ (run calls e).store.sections.lookup Key.vacant = some 1
      ∧ (run calls e).store.sections.countAt Key.vacant = 0
      ∧ e'.store.sections.countAt Key.vacant = 1 := by
  intro calls b hashed
  have hsorted : ∀ place ∈ b.touched,
      (b.connectors place.1 place.2.toUInt32).Pairwise fun c d => Connector.le c d := by
    decide +kernel
  have hhashed (key : UInt64) : hashed key = b.touched.countP fun place =>
      Key.ofSection (b.sentences.wordAt place.1 place.2)
        (Disjunct.fold (b.connectors place.1 place.2.toUInt32)) = key :=
    List.countP_congr fun place hplace => by rw [Disjunct.arrange_of_sorted (hsorted place hplace)]
  have hkeys (key : UInt64) : (b.touched.countP fun place => b.keyAt place = Key.storable key)
      = b.touched.countP fun place => Key.ofSection (b.sentences.wordAt place.1 place.2)
        (Key.storable (Disjunct.fold (b.connectors place.1 place.2.toUInt32)))
          = Key.storable key :=
    List.countP_congr fun place hplace => by rw [Parses.keyAt_of_sorted (hsorted place hplace)]
  obtain ⟨e, he, hroom, hwords, hlookup, hcount, hlookup', hcount'⟩ :=
    exists_ofConfig_of_mem .roomy (P := fun e : Engine ℚ =>
      let sections := (run calls e).store.sections
      sections.used + b.touched.length ≤ sections.capacity
        ∧ (checkWords (run calls e).store.tally.words b.sentences).toOption = some ()
        ∧ sections.lookup (Key.ofSection 1 Key.erased) = some 0
        ∧ SectionPool.countAt sections (Key.ofSection 1 Key.erased) = 0
        ∧ sections.lookup Key.vacant = some 1
        ∧ SectionPool.countAt sections Key.vacant = 0) (by decide +kernel)
  have hrecords := records_run (records_of_ofConfig he) calls
  obtain ⟨report, sections, e', hrun⟩ := exists_perform_of_room hrecords hwords hroom
  have hextracts := extractsBatch_of_perform hrecords hrun
  refine ⟨e, e', report, sections, he, hrun, ⟨?_, hlookup, hcount, ?_⟩, ?_, hlookup', hcount', ?_⟩
  · rw [hhashed]
    decide +kernel
  · rw [hextracts.count_eq, hkeys, hcount]
    decide +kernel
  · rw [hhashed]
    decide +kernel
  · rw [hextracts.count_eq, hkeys, hcount']
    decide +kernel

/-! ### Exact counts -/

/-- Where counts are exact, that of a section grows by the number of touched positions that have
it. -/
theorem ExtractsBatch.countAt_eq_add {β : Type} [Field β] [LinearOrder β] [FloorSemiring β]
    [RootLog β] {e e' : Engine β} {b : Parses} {report : ExtractReport} {sections : ℕ}
    (h : e.ExtractsBatch b report sections e') (key : UInt64) :
    e'.store.sections.countAt key = e.store.sections.countAt key
      + (b.touched.countP fun place => b.keyAt place = Key.storable key : ℕ) := by
  rw [h.count_eq, addOnes_eq_add]

end Engine

end CorpusStats
