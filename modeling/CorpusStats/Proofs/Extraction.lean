import CorpusStats.Proofs.Exact
import CorpusStats.Proofs.Room
import CorpusStats.Proofs.SectionRequests
/-!
# CorpusStats.Proofs.Extraction

What extracting sections from a batch does to the pool of sections.

* Every touched position visits the key of its section (`SectionPool.visited_extract`), so each
  key gains one for every position whose section has it (`SectionPool.countAt_of_visited`).
* A batch is extracted if there is room for its new sections and the others were not refused
  (`SectionPool.exists_extract`). What was visited is found afterwards, so it can always be
  extracted again (`SectionPool.exists_extract_again`).
-/

namespace CorpusStats

open Stage

variable {α : Type} [Weight α]

/-- The row of a section that was counted `n` more times. -/
def SectionRow.gained (n : ℕ) (row : SectionRow α) : SectionRow α :=
  { row with count := addOnes n row.count }

theorem SectionRow.iterate_gained (n : ℕ) : (gained (α := α) 1)^[n] = gained n := by
  funext row
  induction n with
  | zero => rfl
  | succ n ih =>
    rw [Function.iterate_succ_apply', ih]
    simp only [gained, addOnes_succ]
    rfl

theorem filterMap_concat {ι κ : Type} (f : ι → Option κ) (l : List ι) (a : ι) :
    (l ++ [a]).filterMap f = l.filterMap f ++ (f a).toList := by
  rw [List.filterMap_append]
  cases h : f a <;> simp [h]

namespace SectionPool

def keyOf (wanted : UInt32 × UInt64) : UInt64 := Key.ofSection wanted.1 wanted.2

def fill (wanted : UInt32 × UInt64) (row : SectionRow α) : SectionRow α :=
  { row with word := wanted.1, disjunct := wanted.2 }

/-- The count in the slot that a key leads to: nothing, if there is none. -/
def countAt (sections : SectionPool α) (key : UInt64) : α :=
  ((sections.rowAt key).map SectionRow.count).getD 0

/-- `sections'` is `sections` after the sections of a list were counted. -/
abbrev Visited (sections sections' : SectionPool α) (wanted : List (UInt32 × UInt64)) : Prop :=
  Pool.Visited keyOf fill (SectionRow.gained 1) sections sections' wanted

variable {p p' p'' : SectionPool α} {wanted : List (UInt32 × UInt64)} {b : Parses}
  {locator : Locator}

/-! ### Extracting -/

/-- Extracting a position counts the section of the position, if it has one. -/
theorem visited_extractPosition (hp : p.Grounded) (hle : p.capacity ≤ maxPoolCapacity.toNat)
    (h : Visited p p' wanted) {i : ℕ} (hi : i < b.sentences.totalWords) {found : Option Bool}
    (hrun : extractPosition b locator i p' = .ok found p'') :
    Visited p p'' (wanted ++ (b.sectionAt? locator i).toList)
      ∧ found.toList.length = (b.sectionAt? locator i).toList.length
      ∧ p''.used = p'.used + found.toList.countP id := by
  rw [extractPosition_eq hi] at hrun
  cases hsection : b.sectionAt? locator i with
  | none =>
    rw [hsection] at hrun
    cases hrun
    rw [Option.toList_none, List.append_nil]
    exact ⟨h, rfl, rfl⟩
  | some w =>
    obtain ⟨word, disjunct⟩ := w
    rw [hsection] at hrun
    obtain ⟨⟨slot, created⟩, p₁, hslot, hobserve⟩ := bind_eq_ok_iff.mp hrun
    cases hobserve
    obtain ⟨hvisited, -, hused⟩ :=
      h.visit (r := (word, disjunct)) hp hle (Key.storable_ofSection word disjunct) hslot
    exact ⟨hvisited, rfl, by cases created <;> exact hused⟩

/-- Extracting a batch counts its sections. -/
theorem visited_extract {s s' : Logged (SectionPool α)} (hp : s.state.Grounded)
    (hle : s.state.capacity ≤ maxPoolCapacity.toNat) {report : ExtractReport}
    (hrun : extract b locator s = .ok report s') :
    Visited s.state s'.state b.sections ∧ report.observed = b.sections.length
      ∧ s'.state.used = s.state.used + report.created := by
  obtain ⟨found, s₁, hdispatch, hpure⟩ := bind_eq_ok_iff.mp hrun
  cases hpure
  obtain ⟨hloop, -⟩ := dispatch_eq_ok_iff.mp hdispatch
  rw [← b.filterMap_sectionAt? locator]
  refine mapM_range_ok_induction (P := fun k found t =>
    Visited s.state t ((List.range k).filterMap (b.sectionAt? locator))
      ∧ (found.filterMap id).length = ((List.range k).filterMap (b.sectionAt? locator)).length
      ∧ t.used = s.state.used + (found.filterMap id).countP id) hloop
    ⟨Pool.visited_nil hp, rfl, rfl⟩ ?_
  intro k found t answer t' hk hdone hposition
  obtain ⟨hvisited, hlength, hused⟩ := hdone
  obtain ⟨hvisited', hlength', hused'⟩ := visited_extractPosition hp hle hvisited hk hposition
  rw [List.range_succ, filterMap_concat, filterMap_concat, List.length_append, List.length_append,
    List.countP_append, hused', hused, hlength, id, hlength', Nat.add_assoc]
  exact ⟨hvisited', rfl, rfl⟩

/-- No position of a batch is refused, if there is room for the new sections of the batch and none
of the others was refused before. -/
theorem exists_extractPosition (hp : p.Intact)
    (hroom : p.used + (p.newKeys (b.sections.map keyOf)).length ≤ p.capacity)
    (hmark : ∀ w ∈ b.sections, p.index.raw? (keyOf w) ≠ some Index.exhausted) {i : ℕ}
    (hi : i < b.sentences.totalWords)
    (h : Visited p p' ((List.range i).filterMap (b.sectionAt? locator))) (hp' : p'.Intact) :
    ∃ found p'', extractPosition b locator i p' = .ok found p''
      ∧ Visited p p'' ((List.range (i + 1)).filterMap (b.sectionAt? locator)) ∧ p''.Intact := by
  -- the sections up to here are the first ones of the batch
  have hfirst := Parses.filterMap_sectionAt?_prefix (b := b) locator (Nat.succ_le_of_lt hi)
  rw [List.range_succ, filterMap_concat] at hfirst ⊢
  rw [extractPosition_eq hi]
  cases hsection : b.sectionAt? locator i with
  | none =>
    rw [Option.toList_none, List.append_nil]
    exact ⟨none, p', rfl, h, hp'⟩
  | some w =>
    rw [hsection, Option.toList_some] at hfirst
    have hw : w ∈ b.sections := hfirst.subset (List.mem_append_right _ (List.mem_singleton_self w))
    have hname : Key.storable (keyOf w) = keyOf w := Key.storable_ofSection w.1 w.2
    have hlength := (Pool.newKeys_prefix (p := p) (hfirst.map keyOf)).length_le
    obtain ⟨⟨slot, created⟩, q, hrun⟩ := (h.answers_iff (r := w) hp' hp.capacity_le hname).mpr
      ⟨hmark w hw, (Nat.add_le_add_left hlength _).trans hroom⟩
    obtain ⟨hvisited, -⟩ := h.visit (r := w) hp.grounded hp.capacity_le hname hrun
    obtain ⟨hq, hlt⟩ := hp'.of_findOrCreate_eq_ok hrun
    exact ⟨some created, _, bind_eq_ok_iff.mpr ⟨_, q, hrun, rfl⟩, hvisited, hq.modify hlt _⟩

/-- Extracting a batch succeeds, if there is room for its new sections and none of the others was
refused before. -/
theorem exists_extract {s : Logged (SectionPool α)} (hp : s.state.Intact)
    (hroom : s.state.used + (s.state.newKeys (b.sections.map keyOf)).length ≤ s.state.capacity)
    (hmark : ∀ w ∈ b.sections, s.state.index.raw? (keyOf w) ≠ some Index.exhausted) :
    ∃ report s', extract b locator s = .ok report s' := by
  obtain ⟨found, p', hloop, -⟩ := mapM_range_ok_exists (n := b.sentences.totalWords)
    (f := extractPosition b locator)
    (P := fun k _ t => Visited s.state t ((List.range k).filterMap (b.sectionAt? locator))
      ∧ t.Intact) ⟨Pool.visited_nil hp.grounded, hp⟩
    fun k found t hk hdone => exists_extractPosition hp hroom hmark hk hdone.1 hdone.2
  have hdispatch : dispatch (List.range b.sentences.totalWords) (extractPosition b locator) s
      = .ok found ⟨p', s.log.start b.sentences.totalWords⟩ :=
    dispatch_eq_ok_iff.mpr ⟨hloop, by rw [List.length_range]⟩
  exact ⟨_, _, bind_eq_ok_iff.mpr ⟨found, _, hdispatch, rfl⟩⟩

/-- Extracting a batch succeeds, if there is room for a section at every touched position. -/
theorem exists_extract_of_room {s : Logged (SectionPool α)} {keys : List UInt64}
    (hnumbers : s.state.Numbers keys) (htidy : s.state.Tidy)
    (hroom : s.state.used + b.touched.length ≤ s.state.capacity) :
    ∃ report s', extract b locator s = .ok report s' := by
  rw [← List.length_map b.sectionOf, ← b.sections_eq_map] at hroom
  have hlength := s.state.length_newKeys_le (b.sections.map keyOf)
  rw [List.length_map] at hlength
  refine exists_extract ⟨hnumbers.hasRoom, htidy⟩ (by omega) fun w hw hmark => ?_
  -- nothing was refused while there was room
  have hfull := hnumbers.full_of_exhausted hmark
  have hpos := List.length_pos_of_mem hw
  omega

/-- A batch that was extracted can be extracted again, and then has no new sections. -/
theorem exists_extract_again {s s' : Logged (SectionPool α)} (hp : s.state.Grounded)
    (hle : s.state.capacity ≤ maxPoolCapacity.toNat) {report : ExtractReport}
    (hrun : extract b locator s = .ok report s') {keys : List UInt64}
    (hnumbers : s'.state.Numbers keys) (htidy : s'.state.Tidy) :
    ∃ s'', extract b locator s' = .ok ⟨report.observed, 0⟩ s''
      ∧ s''.state.used = s'.state.used := by
  obtain ⟨hvisited, hobserved, -⟩ := visited_extract hp hle hrun
  have hknown : s'.state.newKeys (b.sections.map keyOf) = [] := by
    refine List.eq_nil_iff_forall_not_mem.mpr fun key hkey => ?_
    obtain ⟨hmem, hnone⟩ := Pool.mem_newKeys.mp hkey
    obtain ⟨w, hw, rfl⟩ := List.mem_map.mp hmem
    obtain ⟨slot, hslot, -⟩ := hvisited.exists_raw? hle hw
    rw [hslot] at hnone
    cases hnone
  have hroom : s'.state.used + (s'.state.newKeys (b.sections.map keyOf)).length
      ≤ s'.state.capacity := by
    rw [hknown]
    exact s'.state.used_le_capacity
  have hmark (w : UInt32 × UInt64) (hw : w ∈ b.sections) :
      s'.state.index.raw? (keyOf w) ≠ some Index.exhausted := by
    obtain ⟨slot, hslot, hslot'⟩ := hvisited.exists_raw? hle hw
    rwa [hslot, ne_eq, Option.some_inj]
  obtain ⟨⟨observed, created⟩, s'', hagain⟩ :=
    exists_extract ⟨hnumbers.hasRoom, htidy⟩ hroom hmark
  obtain ⟨hvisited', hobserved', hused⟩ :=
    visited_extract (hnumbers.grounded htidy) hnumbers.capacity_le hagain
  have hused' : s''.state.used = s'.state.used := by
    rw [hvisited'.used_eq, hknown, List.length_nil, Nat.add_zero]
  obtain rfl : observed = report.observed := hobserved'.trans hobserved.symm
  obtain rfl : created = 0 := Nat.add_left_cancel (hused.symm.trans hused')
  exact ⟨s'', hagain, hused'⟩

/-! ### Slots -/

/-- The row of a slot that was in use is counted for the sections that are found there. -/
theorem row_of_old (hp : p.Grounded) (hle : p.capacity ≤ maxPoolCapacity.toNat)
    (h : Visited p p' wanted) {slot : ℕ} {row : SectionRow α} (hrow : p.liveRows[slot]? = some row) :
    p'.liveRows[slot]? = some
      (row.gained (wanted.countP fun w => (p.lookup (keyOf w)).map UInt32.toNat = some slot)) := by
  have hlt : slot < p.used := Pool.lt_used_of_liveRows hrow
  have hvisits : Pool.visits keyOf p wanted slot
      = wanted.countP fun w => (p.lookup (keyOf w)).map UInt32.toNat = some slot := by
    refine List.countP_congr fun w hw => ?_
    rw [h.lookup_eq_raw? hp hle (Key.storable_ofSection w.1 w.2) hw]
  rw [h.old_row slot hlt, hrow, SectionRow.iterate_gained, hvisits, Option.map_some]

/-- The slot and the row of a new section. -/
theorem row_of_new (hle : p.capacity ≤ maxPoolCapacity.toNat) (h : Visited p p' wanted) {n : ℕ}
    {key : UInt64} (hkey : (p.newKeys (wanted.map keyOf))[n]? = some key) :
    ∃ slot w, p'.lookup key = some slot ∧ slot.toNat = p.used + n
      ∧ wanted.find? (fun w => keyOf w = key) = some w
      ∧ p'.liveRows[slot.toNat]?
        = some ⟨w.2, addOnes (wanted.countP fun w => keyOf w = key) 0, w.1⟩ := by
  obtain ⟨w, hfirst, hrow⟩ := h.new_row n key hkey
  have hname : keyOf w = key := by simpa using List.find?_some hfirst
  have hstorable : Key.storable key = key := hname ▸ Key.storable_ofSection w.1 w.2
  obtain ⟨slot, hlookup, hslot⟩ := h.exists_lookup hle (hstorable.symm ▸ hkey)
  rw [← hslot, SectionRow.iterate_gained] at hrow
  exact ⟨slot, w, hlookup, hslot, hfirst, hrow⟩

/-! ### Counts -/

/-- A key gains one for every section of the list that has it. -/
theorem countAt_of_visited {keys : List UInt64} (hnumbers : p.Numbers keys) (htidy : p.Tidy)
    (h : Visited p p' wanted) (key : UInt64) :
    p'.countAt key
      = addOnes (wanted.countP fun w => keyOf w = Key.storable key) (p.countAt key) := by
  have hp := hnumbers.grounded htidy
  have hle := hnumbers.capacity_le
  cases hrow : p.rowAt key with
  | some row =>
    have hrow' := h.rowAt_of_some hp hle (fun _ _ _ => hnumbers.raw?_inj) hrow
    rw [SectionRow.iterate_gained] at hrow'
    rw [countAt, countAt, hrow, hrow']
    rfl
  | none =>
    cases hfirst : wanted.find? fun w => keyOf w = Key.storable key with
    | some w =>
      have hrow' := h.rowAt_of_first hp hle hrow hfirst
      rw [SectionRow.iterate_gained] at hrow'
      rw [countAt, countAt, hrow, hrow']
      rfl
    | none =>
      have hnone : ∀ w ∈ wanted, keyOf w ≠ Key.storable key := by
        simpa [List.find?_eq_none] using hfirst
      have hzero : wanted.countP (fun w => keyOf w = Key.storable key) = 0 := by
        simpa [List.countP_eq_zero] using hnone
      rw [countAt, countAt, hrow, h.rowAt_of_none hp hle hrow hnone, hzero]
      rfl

end SectionPool

end CorpusStats
