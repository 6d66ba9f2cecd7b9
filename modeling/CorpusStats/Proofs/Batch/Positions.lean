import CorpusStats.Proofs.Batch.Reads
/-!
# CorpusStats.Proofs.Batch.Positions

Positions are 32-bit words, and no sum or difference of them wraps.

A stage that works on a flat position adds the length of a sentence to its start, takes one from
where the sentence stops, adds one to the position and takes the start of the sentence from it.
The arrays of a batch tile its words, so each of these numbers is what it is among the naturals,
for a batch of every size up to the largest (`positions_never_wrap`). The loop over the window is
written out as the list of the positions it goes over (`Sentences.visited`): they are positions
of the same sentence, for every window.
-/

namespace CorpusStats

namespace Sentences

/-- The positions of the words that the word at a position of sentence `s` is paired with, in
order. -/
def visited (b : Sentences) (s : ℕ) (window position : UInt32) : List ℕ :=
  List.range' (position + 1).toNat
    ((b.lastPartner s window position).toNat + 1 - (position + 1).toNat)

/-- The batch of one sentence with these words. -/
def single (words : Array UInt32) (h : words.size ≤ maxPositions) : Sentences where
  words := words
  offsets := #[0]
  lengths := #[words.size.toUInt32]
  tiled := by
    have hlength : words.size.toUInt32.toNat = words.size := by
      refine UInt32.toNat_ofNat_of_lt' (h.trans_lt ?_)
      exact Nat.sub_one_lt (by decide)
    refine fault?_eq_none_iff.mpr ⟨rfl, h, fun s hs => ?_, ?_⟩
    · obtain rfl : s = 0 := Nat.lt_one_iff.mp hs
      rfl
    · simpa using hlength

/-- The numbers that stages compute from a position of sentence `s` are those of the naturals:
differences are told by the sums that undo them. -/
structure Exact (b : Sentences) (s : ℕ) (window position : UInt32) : Prop where
  stop_eq : (b.stop s).toNat = (b.start s).toNat + (b.length s).toNat
  stop_sub_one : (b.stop s - 1).toNat + 1 = (b.stop s).toNat
  next : (position + 1).toNat = position.toNat + 1
  sub_start : (position - b.start s).toNat + (b.start s).toNat = position.toNat
  /-- The sum that may be beyond every position is cut off behind the sentence. -/
  lastPartner : (b.lastPartner s window position).toNat
    = min (position.toNat + window.toNat) (b.stop s - 1).toNat

/-- The positions that the loop over the window goes over. -/
structure VisitsWithin (b : Sentences) (locator : Locator) (s : ℕ) (window position : UInt32) :
    Prop where
  /-- Those that follow in the sentence, up to the window. -/
  mem_iff : ∀ j, j ∈ b.visited s window position ↔
    position.toNat < j ∧ j ≤ position.toNat + window.toNat ∧ j < (b.stop s).toNat
  lt : ∀ j ∈ b.visited s window position, j < b.words.size
  located : ∀ j ∈ b.visited s window position, locator.locate b j.toUInt32 = some s
  covered : ∀ j ∈ b.visited s window position, b.Covers s j.toUInt32
  /-- The loop observes the words at these positions, in this order. -/
  words_eq : b.partners s window position
    = (b.visited s window position).map fun j => b.words.getD j 0

variable {b : Sentences} {s i : ℕ}

theorem exact_bound_add (hs : s < b.count) (hi : i < (b.length s).toNat) (window : UInt32) :
    b.Exact s window (b.bound s + i).toUInt32 := by
  have hpos : 0 < (b.length s).toNat := Nat.zero_lt_of_lt hi
  have hposition := toNat_position hs hi
  have hstop := (toNat_stop hs).trans (bound_succ hs)
  have hlast := toNat_stop_sub_one hs hpos
  refine ⟨?_, ?_, ?_, ?_, ?_⟩
  · rw [hstop, toNat_start hs]
  · omega
  · rw [toNat_position_add_one hs hi, hposition]
  · rw [toNat_position_sub_start hs hi, toNat_start hs, hposition, Nat.add_comm]
  · rw [toNat_lastPartner hs hi, hposition, hlast]

theorem mem_visited_iff (hs : s < b.count) (hi : i < (b.length s).toNat) {window : UInt32} {j : ℕ} :
    j ∈ b.visited s window (b.bound s + i).toUInt32 ↔
      b.bound s + i < j ∧ j ≤ b.bound s + i + window.toNat
        ∧ j < b.bound s + (b.length s).toNat := by
  rw [visited, List.mem_range'_1, toNat_position_add_one hs hi, toNat_lastPartner hs hi]
  omega

/-- The words at the positions from one to another, by their positions. -/
theorem toList_extract_eq_map (words : Array UInt32) {first stop : ℕ} (h : stop ≤ words.size) :
    (words.extract first stop).toList
      = (List.range' first (stop - first)).map fun j => words.getD j 0 := by
  refine List.ext_getElem ?_ fun j hj _ => ?_
  · rw [Array.length_toList, Array.size_extract, List.length_map, List.length_range',
      Nat.min_eq_left h]
  · have hlt : first + j < words.size := by
      rw [Array.length_toList, Array.size_extract] at hj
      omega
    simp [hlt]

theorem visitsWithin_bound_add (hs : s < b.count) (hi : i < (b.length s).toNat) (window : UInt32)
    (locator : Locator) : b.VisitsWithin locator s window (b.bound s + i).toUInt32 := by
  have hle := bound_le_totalWords (b := b) (s := s + 1) hs
  rw [bound_succ hs] at hle
  -- what the loop visits are the positions of the sentence behind the first of them
  have hplace : ∀ j ∈ b.visited s window (b.bound s + i).toUInt32,
      ∃ k < (b.length s).toNat, j = b.bound s + k := by
    intro j hj
    obtain ⟨hlt, -, hstop⟩ := (mem_visited_iff hs hi).mp hj
    exact ⟨j - b.bound s, by omega, by omega⟩
  refine ⟨fun j => ?_, fun j hj => ?_, fun j hj => ?_, fun j hj => ?_, ?_⟩
  · rw [mem_visited_iff hs hi, toNat_position hs hi, toNat_stop hs, bound_succ hs]
  · obtain ⟨k, hk, rfl⟩ := hplace j hj
    exact (Nat.add_lt_add_left hk _).trans_le hle
  · obtain ⟨k, hk, rfl⟩ := hplace j hj
    exact locate_bound_add hs hk locator
  · obtain ⟨k, hk, rfl⟩ := hplace j hj
    rw [covers_iff hs, toNat_position hs hk, bound_succ hs]
    omega
  · refine toList_extract_eq_map b.words ?_
    rw [toNat_lastPartner hs hi]
    exact (by omega : _ ≤ b.bound s + (b.length s).toNat).trans hle

/-- No number that a stage computes from a flat position of a batch wraps, and the loop over the
window stays within the sentence of the position. -/
theorem positions_never_wrap (b : Sentences) (window : UInt32) (locator : Locator) {i : ℕ}
    (hi : i < b.totalWords) :
    i.toUInt32.toNat = i
      ∧ (∀ t < b.count, (b.stop t).toNat = (b.start t).toNat + (b.length t).toNat)
      ∧ ∃ s < b.count, locator.locate b i.toUInt32 = some s ∧ b.Covers s i.toUInt32
        ∧ b.Exact s window i.toUInt32 ∧ b.VisitsWithin locator s window i.toUInt32 := by
  refine ⟨toNat_toUInt32_of_lt hi, fun t ht => ?_, ?_⟩
  · rw [toNat_stop ht, bound_succ ht, toNat_start ht]
  · have hi' := hi
    rw [← bound_count] at hi'
    obtain ⟨s, hs, j, hj, rfl⟩ := exists_bound_add le_rfl hi'
    refine ⟨s, hs, locate_bound_add hs hj locator, ?_, exact_bound_add hs hj window,
      visitsWithin_bound_add hs hj window locator⟩
    rw [covers_iff hs, toNat_position hs hj, bound_succ hs]
    omega

/-- The last position of the largest batch, with the largest window: nothing follows it. -/
theorem positions_never_wrap_largest :
    let b := single (Array.replicate maxPositions 7) (Array.size_replicate).le
    maxPositions - 1 < b.totalWords
      ∧ ∃ s < b.count, Locator.binary.locate b (maxPositions - 1).toUInt32 = some s
        ∧ b.Exact s 0xFFFFFFFF (maxPositions - 1).toUInt32
        ∧ b.visited s 0xFFFFFFFF (maxPositions - 1).toUInt32 = [] := by
  intro b
  have hsize : b.totalWords = maxPositions := Array.size_replicate
  have hlast : maxPositions - 1 < b.totalWords := by
    rw [hsize]
    decide
  obtain ⟨hposition, -, s, hs, hlocate, -, hexact, hvisits⟩ :=
    positions_never_wrap b 0xFFFFFFFF .binary hlast
  refine ⟨hlast, s, hs, hlocate, hexact, List.eq_nil_iff_forall_not_mem.mpr fun j hj => ?_⟩
  have hlt : j < maxPositions := hsize ▸ hvisits.lt j hj
  have hafter := ((hvisits.mem_iff j).mp hj).1
  rw [hposition] at hafter
  omega

end Sentences

end CorpusStats
