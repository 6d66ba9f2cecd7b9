import CorpusStats.Proofs.Batch.Window
import CorpusStats.Proofs.Disjunct
import CorpusStats.Sections
/-!
# CorpusStats.Proofs.Batch.Sections

The sections that a batch of parses has, as a list: every word that an edge touches, with the
disjunct of its connectors (`Parses.sections`). The list has one section for every touched
position (`Parses.sections_eq_map`).

Extraction goes by flat positions. Put together in their order, what they find is that list, for
either locator (`filterMap_sectionAt?`), and since a batch is checked when it is made, no
position is refused for belonging to no sentence or having too many connectors
(`extractPosition_eq`).
-/

namespace CorpusStats

namespace Parses

/-- The section of a position of a sentence, if an edge touches it. -/
def section? (b : Parses) (s i : ℕ) : Option (UInt32 × UInt64) :=
  let connectors := b.connectors s i.toUInt32
  if connectors.isEmpty then none
  else some ((b.sentences.sentence s).toList.getD i 0, Disjunct.hash connectors)

/-- The words that edges touch, with their disjuncts, in the order of their positions. -/
def sections (b : Parses) : List (UInt32 × UInt64) :=
  (List.range b.sentences.count).flatMap fun s =>
    (List.range (b.sentences.length s).toNat).filterMap (b.section? s)

/-- The section of a flat position, found through its sentence. -/
def sectionAt? (b : Parses) (locator : Locator) (i : ℕ) : Option (UInt32 × UInt64) :=
  (locator.locate b.sentences i.toUInt32).bind fun s =>
    b.section? s (i.toUInt32 - b.sentences.start s).toNat

/-- The positions that edges touch, each with its sentence, in order. -/
def touched (b : Parses) : List (ℕ × ℕ) :=
  (List.range b.sentences.count).flatMap fun s =>
    ((List.range (b.sentences.length s).toNat).filter fun i =>
      (b.edges s).any fun e => e.1.toNat = i ∨ e.2.toNat = i).map fun i => (s, i)

/-- The neighbours of a position of a sentence, each with its side, in the order of the edges. -/
def neighbours (b : Parses) (s : ℕ) (position : UInt32) : List (Side × UInt32) :=
  (b.edges s).filterMap fun e => (e.otherEnd? position).map fun other =>
    (Side.of position other, b.sentences.wordAt s other.toNat)

/-- The word at a position of a sentence with the disjunct of its connectors. -/
def sectionOf (b : Parses) (place : ℕ × ℕ) : UInt32 × UInt64 :=
  (b.sentences.wordAt place.1 place.2,
    Disjunct.hash (b.connectors place.1 place.2.toUInt32))

/-- The key of the section at a position of a sentence. -/
def keyAt (b : Parses) (place : ℕ × ℕ) : UInt64 :=
  Key.ofSection (b.sectionOf place).1 (b.sectionOf place).2

variable {b : Parses} {s i : ℕ}

/-! ### Degrees -/

/-- A position has no more connectors than edge ends. -/
theorem length_connectors_le_degree (b : Parses) (s : ℕ) (position : UInt32) :
    (b.connectors s position).length ≤ degree (b.edges s) position := by
  unfold connectors degree
  rw [List.length_filterMap_eq_countP]
  induction b.edges s with
  | nil => simp
  | cons e edges ih =>
    -- an edge that gives a connector touches the position
    have hend : e.otherEnd? position = none ∨ e.1 = position ∨ e.2 = position := by
      unfold Edge.otherEnd?
      by_cases hfirst : e.1 = position
      · exact .inr (.inl hfirst)
      · by_cases hsecond : e.2 = position
        · exact .inr (.inr hsecond)
        · exact .inl (by rw [if_neg hfirst, if_neg hsecond])
    rw [List.countP_cons, List.countP_cons, List.countP_cons]
    rcases hend with hnone | hfirst | hsecond
    · rw [hnone, if_neg (by simp)]
      omega
    · rw [if_pos (decide_eq_true hfirst)]
      split <;> omega
    · rw [if_pos (decide_eq_true hsecond)]
      split <;> omega

/-- The edges of a sentence are as they were checked when the batch was made. -/
theorem sound_edges (hs : s < b.sentences.count) :
    (∀ e ∈ b.edges s, Edge.fault? s (b.sentences.length s) e = none)
      ∧ crowded? (b.edges s) (b.sentences.length s) = none := by
  have hsound := b.sound
  unfold fault? at hsound
  split at hsound
  · cases hsound
  · split at hsound
    · cases hsound
    · have hsentence := List.findSome?_eq_none_iff.mp hsound s (List.mem_range.mpr hs)
      unfold sentenceFault? at hsentence
      dsimp only at hsentence
      split at hsentence
      · cases hsentence
      · split at hsentence
        · cases hsentence
        · rename_i hfaults
          exact ⟨List.findSome?_eq_none_iff.mp hfaults, Option.map_eq_none_iff.mp hsentence⟩

theorem length_connectors_le (hs : s < b.sentences.count) {position : UInt32}
    (hposition : position < b.sentences.length s) :
    (b.connectors s position).length ≤ Disjunct.maxConnectors := by
  refine (b.length_connectors_le_degree s position).trans ?_
  have hcrowded := (sound_edges hs).2
  unfold crowded? at hcrowded
  have hmem : position.toNat ∈ List.range (b.sentences.length s).toNat :=
    List.mem_range.mpr (UInt32.lt_iff_toNat_lt.mp hposition)
  simpa using List.find?_eq_none.mp hcrowded _ hmem

/-! ### Touched positions -/

theorem lt_of_mem_edges (hs : s < b.sentences.count) {e : Edge} (he : e ∈ b.edges s) :
    e.1 < b.sentences.length s ∧ e.2 < b.sentences.length s := by
  have hfault := (sound_edges hs).1 e he
  unfold Edge.fault? at hfault
  split at hfault
  · cases hfault
  · rename_i hinside
    exact ⟨UInt32.not_le.mp (not_or.mp hinside).1, UInt32.not_le.mp (not_or.mp hinside).2⟩

/-- The connectors of a position are those to its neighbours. -/
theorem connectors_eq_map (hs : s < b.sentences.count) (position : UInt32) :
    b.connectors s position
      = (b.neighbours s position).map fun neighbour => Connector.of neighbour.2 neighbour.1 := by
  rw [connectors, neighbours, List.map_filterMap]
  refine List.filterMap_congr fun e he => ?_
  cases hend : e.otherEnd? position with
  | none => rfl
  | some other =>
    have hother : other = e.1 ∨ other = e.2 := by
      unfold Edge.otherEnd? at hend
      split at hend
      · exact .inr (Option.some_inj.mp hend).symm
      · split at hend
        · exact .inl (Option.some_inj.mp hend).symm
        · cases hend
    have hinside : other < b.sentences.length s := by
      rcases hother with rfl | rfl
      · exact (lt_of_mem_edges hs he).1
      · exact (lt_of_mem_edges hs he).2
    have hlt : other.toNat < (b.sentences.sentence s).toList.length := by
      rw [Sentences.length_toList_sentence hs]
      exact UInt32.lt_iff_toNat_lt.mp hinside
    have hword : (b.sentences.sentence s)[other.toNat]?
        = some (b.sentences.wordAt s other.toNat) := by
      rw [Sentences.wordAt, ← Array.getElem?_toList, List.getD_eq_getElem _ _ hlt,
        List.getElem?_eq_getElem hlt]
    rw [Option.bind_some, hword]
    rfl

/-- A disjunct is the hash of the neighbours of its position, from left to right and then by
their words. -/
theorem hash_connectors (hs : s < b.sentences.count) {position : UInt32}
    {neighbours : List (Side × UInt32)} (hperm : neighbours.Perm (b.neighbours s position))
    (hsorted : neighbours.Pairwise fun m n => m.1.bit < n.1.bit ∨ m.1 = n.1 ∧ m.2 ≤ n.2) :
    Disjunct.hash (b.connectors s position) = Key.storable
      (Disjunct.fold (neighbours.map fun neighbour => Connector.of neighbour.2 neighbour.1)) := by
  rw [connectors_eq_map hs]
  refine Disjunct.hash_eq (hperm.symm.map _) (List.pairwise_map.mpr ?_)
  exact hsorted.imp Connector.le_of_iff.mpr

/-- A position has a connector for every edge that touches it. -/
theorem connectors_eq_nil_iff (hs : s < b.sentences.count) (position : UInt32) :
    b.connectors s position = [] ↔ ∀ e ∈ b.edges s, e.1 ≠ position ∧ e.2 ≠ position := by
  rw [connectors_eq_map hs, List.map_eq_nil_iff, neighbours, List.filterMap_eq_nil_iff]
  refine forall₂_congr fun e _ => ?_
  rw [Option.map_eq_none_iff, Edge.otherEnd?]
  by_cases hfirst : e.1 = position
  · simp [hfirst]
  · by_cases hsecond : e.2 = position <;> simp [hfirst, hsecond]

/-- The positions that edges touch are those that have a section. -/
theorem section?_eq (hs : s < b.sentences.count) (hi : i < (b.sentences.length s).toNat) :
    b.section? s i = if (b.edges s).any fun e => e.1.toNat = i ∨ e.2.toNat = i then
      some (b.sectionOf (s, i)) else none := by
  have hposition : i.toUInt32.toNat = i :=
    UInt32.toNat_ofNat_of_lt' (hi.trans (b.sentences.length s).toNat_lt)
  have hempty : (b.connectors s i.toUInt32).isEmpty = true
      ↔ ¬ ((b.edges s).any fun e => e.1.toNat = i ∨ e.2.toNat = i) = true := by
    rw [List.isEmpty_iff, connectors_eq_nil_iff hs, List.any_eq_true]
    simp only [ne_eq, ← UInt32.toNat_inj, hposition, decide_eq_true_iff]
    push Not
    rfl
  rw [section?, sectionOf]
  split
  · rename_i h
    rw [if_neg (hempty.mp h)]
  · rename_i h
    rw [if_pos (not_not.mp (mt hempty.mpr h))]
    rfl

theorem sections_eq_map (b : Parses) : b.sections = b.touched.map b.sectionOf := by
  rw [sections, touched, List.map_flatMap]
  refine List.flatMap_congr fun s hs => ?_
  rw [List.map_map, ← List.filterMap_eq_map, List.filterMap_filter]
  exact List.filterMap_congr fun i hi => section?_eq (List.mem_range.mp hs) (List.mem_range.mp hi)

theorem keyAt_of_sorted {place : ℕ × ℕ}
    (h : (b.connectors place.1 place.2.toUInt32).Pairwise fun c d => Connector.le c d) :
    b.keyAt place = Key.ofSection (b.sentences.wordAt place.1 place.2)
      (Key.storable (Disjunct.fold (b.connectors place.1 place.2.toUInt32))) := by
  rw [keyAt, sectionOf, Disjunct.hash_eq (List.Perm.refl _) h]

theorem mem_touched : (s, i) ∈ b.touched ↔ s < b.sentences.count ∧ i < (b.sentences.length s).toNat
    ∧ ∃ e ∈ b.edges s, e.1.toNat = i ∨ e.2.toNat = i := by
  simp only [touched, List.mem_flatMap, List.mem_range, List.mem_map, List.mem_filter,
    List.any_eq_true, decide_eq_true_iff, Prod.mk.injEq]
  constructor
  · intro h
    obtain ⟨s, hs, i, ⟨hi, htouched⟩, rfl, rfl⟩ := h
    exact ⟨hs, hi, htouched⟩
  · intro h
    obtain ⟨hs, hi, htouched⟩ := h
    exact ⟨s, hs, i, ⟨hi, htouched⟩, rfl, rfl⟩

/-- The words of sections are words of the batch. -/
theorem mem_words_of_mem_sections {wanted : UInt32 × UInt64} (h : wanted ∈ b.sections) :
    wanted.1 ∈ b.sentences.words := by
  rw [sections_eq_map] at h
  obtain ⟨⟨s, i⟩, hplace, rfl⟩ := List.mem_map.mp h
  obtain ⟨hs, hi, -⟩ := mem_touched.mp hplace
  exact Sentences.wordAt_mem_words hs hi

theorem nodup_touched (b : Parses) : b.touched.Nodup := by
  refine nodup_flatMap_of (f := Prod.fst) List.nodup_range (fun s _ place hplace => ?_) fun s => ?_
  · obtain ⟨i, -, rfl⟩ := List.mem_map.mp hplace
    rfl
  · refine (List.nodup_range.filter _).map fun i j heq => ?_
    simpa using heq

/-- The list of touched positions has every one of them once. -/
theorem length_touched (b : Parses) :
    b.touched.length = Set.ncard {place : ℕ × ℕ | place.1 < b.sentences.count
      ∧ place.2 < (b.sentences.length place.1).toNat
      ∧ ∃ e ∈ b.edges place.1, e.1.toNat = place.2 ∨ e.2.toNat = place.2} :=
  length_eq_ncard b.nodup_touched fun _ => mem_touched

end Parses

namespace Sentences

variable {b : Sentences}

/-- Positions count on from the start of their sentence. -/
theorem toNat_position_sub_start {s i : ℕ} (hs : s < b.count) (hi : i < (b.length s).toNat) :
    ((b.bound s + i).toUInt32 - b.start s).toNat = i := by
  have hposition := toNat_position hs hi
  rw [UInt32.toNat_sub_of_le, hposition, toNat_start hs]
  · omega
  · rw [UInt32.le_iff_toNat_le, hposition, toNat_start hs]
    omega

end Sentences

namespace Parses

variable {b : Parses} {s i : ℕ}

/-! ### Positions -/

open Sentences in
/-- Both locators lead a flat position to its sentence. -/
theorem sectionAt?_bound_add (hs : s < b.sentences.count)
    (hi : i < (b.sentences.length s).toNat) (locator : Locator) :
    b.sectionAt? locator (b.sentences.bound s + i) = b.section? s i := by
  rw [sectionAt?, locate_bound_add hs hi, Option.bind_some, toNat_position_sub_start hs hi]

/-- Position by position, a batch has its sections. -/
theorem filterMap_sectionAt? (b : Parses) (locator : Locator) :
    (List.range b.sentences.totalWords).filterMap (b.sectionAt? locator) = b.sections := by
  rw [← Sentences.bound_count, List.filterMap_eq_flatMap_toList,
    Sentences.flatMap_range_bound _ le_rfl, sections]
  refine List.flatMap_congr fun s hs => ?_
  rw [List.filterMap_eq_flatMap_toList]
  refine List.flatMap_congr fun i hi => ?_
  rw [sectionAt?_bound_add (List.mem_range.mp hs) (List.mem_range.mp hi)]

/-- The positions up to one of the batch have the first of its sections. -/
theorem filterMap_sectionAt?_prefix (locator : Locator) {n : ℕ} (hn : n ≤ b.sentences.totalWords) :
    (List.range n).filterMap (b.sectionAt? locator) <+: b.sections := by
  rw [← b.filterMap_sectionAt? locator]
  refine List.IsPrefix.filterMap _ ?_
  obtain ⟨rest, hrest⟩ := Nat.exists_eq_add_of_le hn
  rw [hrest]
  exact ⟨_, List.range_add.symm⟩

end Parses

namespace SectionPool

variable {α : Type} [Weight α]

open Sentences in
/-- Extracting a position of a batch asks for its section and counts it once, if it has one. -/
theorem extractPosition_eq {b : Parses} {i : ℕ} (hi : i < b.sentences.totalWords)
    (locator : Locator) :
    (extractPosition b locator i : Stage (SectionPool α) (Option Bool)) =
      match b.sectionAt? locator i with
      | none => pure none
      | some (word, disjunct) => do
        let (slot, created) ← slotOf word disjunct
        observe slot.toNat
        return some created := by
  rw [← bound_count] at hi
  obtain ⟨s, hs, j, hj, rfl⟩ := exists_bound_add le_rfl hi
  have hlt : j < 2 ^ 32 := hj.trans (b.sentences.length s).toNat_lt
  have hposition : j.toUInt32.toNat = j := UInt32.toNat_ofNat_of_lt' hlt
  have hrelative : (b.sentences.bound s + j).toUInt32 - b.sentences.start s = j.toUInt32 := by
    rw [← UInt32.toNat_inj, toNat_position_sub_start hs hj, hposition]
  have hcrowded : ¬ Disjunct.maxConnectors < (b.connectors s j.toUInt32).length := by
    refine not_lt.mpr (Parses.length_connectors_le hs (UInt32.lt_iff_toNat_lt.mpr ?_))
    rwa [hposition]
  rw [Parses.sectionAt?_bound_add hs hj]
  unfold extractPosition Parses.section?
  simp only [locate_bound_add hs hj, hrelative, getD_words_bound_add hs hj, if_neg hcrowded]
  by_cases hempty : (b.connectors s j.toUInt32).isEmpty = true
  · simp [hempty]
  · simp [hempty]

end SectionPool

end CorpusStats
