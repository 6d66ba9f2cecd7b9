import CorpusStats.Batch.Locator
import Mathlib
/-!
# CorpusStats.Proofs.Batch.Locate

Positions of a batch and the sentences that own them.

* Arrays make a batch exactly if they describe a tiling (`Sentences.fault?_eq_none_iff`).
* Sentence `s` covers the positions from `bound s` up to `bound (s + 1)`, where `bound` adds
  up the lengths of the sentences before. No sum of positions wraps.
* Both locators find the sentence of every position (`locate_bound_add`), empty sentences
  or not, and none behind the words, so a locator is one function (`Locator.locate_eq_locate`)
  and stages that use one answer alike with the other.
-/

namespace CorpusStats

/-- Halving finds the end of the part on which the predicate holds. -/
theorem bisect_eq {p : ℕ → Bool} {low high m : ℕ} (hlow : low ≤ m) (hhigh : m ≤ high)
    (hp : ∀ s, low ≤ s → s < high → (p s = true ↔ s < m)) : bisect p low high = m := by
  induction low, high using bisect.induct p with
  | case1 low high hlt middle hmiddle ih =>
    have hlt' : middle < m := (hp middle (by omega) (by omega)).mp hmiddle
    rw [bisect, if_pos hlt, if_pos hmiddle]
    exact ih hlt' hhigh fun s hs => hp s (by omega)
  | case2 low high hlt middle hmiddle ih =>
    have hle : m ≤ middle := by
      rw [hp middle (by omega) (by omega)] at hmiddle
      exact not_lt.mp hmiddle
    rw [bisect, if_pos hlt, if_neg hmiddle]
    exact ih hlow hle fun s hs hs' => hp s hs (by omega)
  | case3 low high hlt =>
    rw [bisect, if_neg hlt]
    omega

namespace Sentences

/-! ### Bounds -/

/-- Sentences without a fault start where the ones before them end, and end with the words. -/
theorem tilingFault?_eq_none_iff {words sentence cursor : ℕ} {l : List (UInt32 × UInt32)} :
    tilingFault? words sentence cursor l = none ↔
      (∀ i (hi : i < l.length),
          l[i].1.toNat = cursor + ((l.take i).map fun e => e.2.toNat).sum)
        ∧ cursor + (l.map fun e => e.2.toNat).sum = words := by
  induction l generalizing sentence cursor with
  | nil => simp [tilingFault?]
  | cons e rest ih =>
    obtain ⟨start, length⟩ := e
    simp only [tilingFault?, List.length_cons, Nat.forall_lt_succ_left']
    by_cases hstart : start.toNat = cursor
    · rw [if_pos hstart, ih]
      simp [hstart, Nat.add_assoc]
    · rw [if_neg hstart]
      simp [hstart]

/-- Next to their starts, lengths add up as they do alone. -/
theorem sum_lengths_zip {offsets lengths : List UInt32} (h : offsets.length = lengths.length)
    (s : ℕ) : (((offsets.zip lengths).take s).map fun e => e.2.toNat).sum
      = ((lengths.take s).map UInt32.toNat).sum := by
  conv_rhs => rw [← List.map_snd_zip h.ge, ← List.map_take, List.map_map]
  rfl

/-- Sentences with these starts and lengths lie behind each other, without gaps, from the first
word to the last. -/
structure Tiles (words offsets lengths : Array UInt32) : Prop where
  size_eq : offsets.size = lengths.size
  fits : words.size ≤ maxPositions
  /-- A sentence starts where the lengths of the ones before it add up to. -/
  start_eq : ∀ s (hs : s < offsets.size),
    offsets[s].toNat = ((lengths.toList.take s).map UInt32.toNat).sum
  sum_eq : (lengths.toList.map UInt32.toNat).sum = words.size

theorem fault?_eq_none_iff {words offsets lengths : Array UInt32} :
    fault? words offsets lengths = none ↔ Tiles words offsets lengths := by
  unfold fault?
  by_cases hsize : offsets.size = lengths.size
  swap
  · rw [if_pos hsize]
    exact iff_of_false (Option.some_ne_none _) fun h => hsize h.size_eq
  by_cases hfits : words.size ≤ maxPositions
  swap
  · rw [if_neg (not_not.mpr hsize), if_pos (not_le.mp hfits)]
    exact iff_of_false (Option.some_ne_none _) fun h => hfits h.fits
  have hlength : offsets.toList.length = lengths.toList.length := by simpa using hsize
  have hzip : (offsets.toList.zip lengths.toList).length = offsets.size := by
    rw [List.length_zip, ← hlength, Nat.min_self, Array.length_toList]
  have hsum := sum_lengths_zip hlength
  have htotal := hsum (offsets.toList.zip lengths.toList).length
  rw [List.take_length, hzip, hsize, ← Array.length_toList, List.take_length] at htotal
  rw [if_neg (not_not.mpr hsize), if_neg (not_lt.mpr hfits), tilingFault?_eq_none_iff, htotal]
  simp only [hzip, hsum, Nat.zero_add, List.getElem_zip, Array.getElem_toList]
  constructor
  · intro h
    exact ⟨hsize, hfits, h.1, h.2⟩
  · intro h
    exact ⟨h.start_eq, h.sum_eq⟩

variable (b : Sentences)

/-- How many words the sentences before sentence `s` have together. -/
def bound (s : ℕ) : ℕ := ((b.lengths.toList.take s).map UInt32.toNat).sum

theorem tiles : Tiles b.words b.offsets b.lengths := fault?_eq_none_iff.mp b.tiled

theorem bound_mono {s t : ℕ} (h : s ≤ t) : b.bound s ≤ b.bound t := by
  refine List.Sublist.sum_le_sum (List.Sublist.map _ ?_) fun _ _ => Nat.zero_le _
  exact List.take_sublist_take_left h

variable {b} {s : ℕ}

theorem bound_succ (hs : s < b.count) : b.bound (s + 1) = b.bound s + (b.length s).toNat := by
  have hs' : s < b.lengths.size := b.lengths_size ▸ hs
  have hget : b.lengths.toList[s]? = some (b.length s) := by
    rw [length, Array.getD_eq_getD_getElem?]
    simp [hs']
  rw [bound, bound, List.take_add_one, hget]
  simp

theorem toNat_start (hs : s < b.count) : (b.start s).toNat = b.bound s := by
  rw [start, Array.getD_eq_getD_getElem?, Array.getElem?_eq_getElem hs]
  exact b.tiles.start_eq s hs

theorem bound_count : b.bound b.count = b.totalWords := by
  rw [bound, ← b.lengths_size, ← Array.length_toList, List.take_length]
  exact b.tiles.sum_eq

theorem bound_le_totalWords (hs : s ≤ b.count) : b.bound s ≤ b.totalWords :=
  bound_count (b := b) ▸ b.bound_mono hs

theorem toNat_stop (hs : s < b.count) : (b.stop s).toNat = b.bound (s + 1) := by
  have hle := bound_le_totalWords (b := b) (s := s + 1) hs
  have htotal := b.totalWords_le
  rw [bound_succ hs] at hle ⊢
  rw [stop, UInt32.toNat_add, toNat_start hs]
  refine Nat.mod_eq_of_lt ?_
  simp only [maxPositions, UInt32.size] at htotal
  omega

theorem covers_iff (hs : s < b.count) {position : UInt32} :
    b.Covers s position ↔ b.bound s ≤ position.toNat ∧ position.toNat < b.bound (s + 1) := by
  rw [Covers, UInt32.le_iff_toNat_le, UInt32.lt_iff_toNat_lt, toNat_start hs, toNat_stop hs]

theorem toNat_toUInt32_of_lt {i : ℕ} (hi : i < b.totalWords) : i.toUInt32.toNat = i := by
  refine UInt32.toNat_ofNat_of_lt' (hi.trans_le (b.totalWords_le.trans ?_))
  exact Nat.sub_le _ _

theorem toNat_position (hs : s < b.count) {i : ℕ} (hi : i < (b.length s).toNat) :
    (b.bound s + i).toUInt32.toNat = b.bound s + i := by
  have hle := bound_le_totalWords (b := b) (s := s + 1) hs
  rw [bound_succ hs] at hle
  exact toNat_toUInt32_of_lt (b := b) (by omega)

/-- Every position is a position of a sentence. -/
theorem exists_bound_add {n i : ℕ} (hn : n ≤ b.count) (hi : i < b.bound n) :
    ∃ s < b.count, ∃ j < (b.length s).toNat, i = b.bound s + j := by
  induction n with
  | zero => exact absurd hi (Nat.not_lt_zero i)
  | succ n ih =>
    by_cases hlt : i < b.bound n
    · exact ih (Nat.le_of_succ_le hn) hlt
    · rw [bound_succ hn] at hi
      exact ⟨n, hn, i - b.bound n, by omega, by omega⟩

/-! ### Locators -/

/-- Both locators find the sentence of a position. -/
theorem locate_bound_add (hs : s < b.count) {i : ℕ} (hi : i < (b.length s).toNat)
    (locator : Locator) : locator.locate b (b.bound s + i).toUInt32 = some s := by
  have hposition := toNat_position hs hi
  have hnext := bound_succ hs
  cases locator with
  | linear =>
    refine List.find?_eq_some_iff_getElem.mpr ⟨?_, s, ?_, ?_, ?_⟩
    · exact decide_eq_true ((covers_iff hs).mpr (by omega))
    · simpa using hs
    · simp
    · intro j hj
      have hmono := b.bound_mono (show j + 1 ≤ s from hj)
      rw [List.getElem_range]
      simp only [Bool.not_eq_true', decide_eq_false_iff_not, covers_iff (hj.trans hs)]
      omega
  | binary =>
    have hbisect : bisect (fun t => b.start t ≤ (b.bound s + i).toUInt32) 0 b.count = s + 1 := by
      refine bisect_eq (Nat.zero_le _) hs fun t _ ht => ?_
      rw [decide_eq_true_iff, UInt32.le_iff_toNat_le, toNat_start ht, hposition]
      constructor
      · intro hle
        by_contra hlt
        have hmono := b.bound_mono (show s + 1 ≤ t by omega)
        omega
      · intro hlt
        have hmono := b.bound_mono (show t ≤ s by omega)
        omega
    have hstop : (b.bound s + i).toUInt32 < b.stop s := by
      rw [UInt32.lt_iff_toNat_lt, toNat_stop hs, hposition]
      omega
    simp only [Locator.locate, hbisect, if_pos hstop]

/-- Every position of the batch is covered by the sentence that it is counted in. -/
theorem exists_covers {position : UInt32} (h : position.toNat < b.totalWords) :
    ∃ s < b.count, b.Covers s position
      ∧ ∃ i < (b.length s).toNat, position = (b.bound s + i).toUInt32 := by
  rw [← bound_count] at h
  obtain ⟨s, hs, i, hi, heq⟩ := exists_bound_add le_rfl h
  refine ⟨s, hs, ?_, i, hi, ?_⟩
  · rw [covers_iff hs, heq, bound_succ hs]
    omega
  · rw [← UInt32.toNat_inj, heq, toNat_position hs hi]

/-- A position belongs to one sentence at most. -/
theorem eq_of_covers {t : ℕ} (hs : s < b.count) (ht : t < b.count) {position : UInt32}
    (h : b.Covers s position) (h' : b.Covers t position) : s = t := by
  rw [covers_iff hs] at h
  rw [covers_iff ht] at h'
  rcases lt_trichotomy s t with hlt | heq | hlt
  · have hmono := b.bound_mono (show s + 1 ≤ t from hlt)
    omega
  · exact heq
  · have hmono := b.bound_mono (show t + 1 ≤ s from hlt)
    omega

/-- No locator finds a sentence behind the words. -/
theorem locate_of_totalWords_le {position : UInt32} (h : b.totalWords ≤ position.toNat)
    (locator : Locator) : locator.locate b position = none := by
  have hstop {t : ℕ} (ht : t < b.count) : ¬ position < b.stop t := by
    have hle := bound_le_totalWords (b := b) (s := t + 1) ht
    rw [UInt32.lt_iff_toNat_lt, toNat_stop ht]
    omega
  cases locator with
  | linear =>
    refine List.find?_eq_none.mpr fun t ht hcovers => ?_
    exact hstop (List.mem_range.mp ht) (of_decide_eq_true hcovers).2
  | binary =>
    -- every sentence starts at or before the position, so the last one is tried
    have hbisect : bisect (fun t => b.start t ≤ position) 0 b.count = b.count := by
      refine bisect_eq (Nat.zero_le _) le_rfl fun t _ ht => ?_
      have hle := bound_le_totalWords (b := b) (s := t) ht.le
      rw [decide_eq_true_iff, UInt32.le_iff_toNat_le, toNat_start ht]
      omega
    simp only [Locator.locate, hbisect]
    split
    · rfl
    · rename_i t hcount
      rw [if_neg (hstop (by omega))]

end Sentences

namespace Locator

open Sentences

variable {b : Sentences} {position : UInt32}

/-- A locator finds the sentence that covers a position, and no other. -/
theorem locate_eq_some_iff (locator : Locator) {s : ℕ} :
    locator.locate b position = some s ↔ s < b.count ∧ b.Covers s position := by
  rcases lt_or_ge position.toNat b.totalWords with hlt | hge
  · obtain ⟨t, ht, hcovers, i, hi, rfl⟩ := exists_covers hlt
    rw [locate_bound_add ht hi, Option.some.injEq]
    constructor
    · rintro rfl
      exact ⟨ht, hcovers⟩
    · intro h
      exact eq_of_covers ht h.1 hcovers h.2
  · rw [locate_of_totalWords_le hge]
    refine iff_of_false (Option.some_ne_none s ∘ Eq.symm) fun h => ?_
    have hle := bound_le_totalWords (b := b) (s := s + 1) h.1
    have hstop := ((covers_iff h.1).mp h.2).2
    omega

theorem locate_eq_none_iff (locator : Locator) :
    locator.locate b position = none ↔ b.totalWords ≤ position.toNat := by
  constructor
  · intro hnone
    by_contra hlt
    obtain ⟨t, ht, hcovers, -⟩ := exists_covers (not_le.mp hlt)
    rw [locator.locate_eq_some_iff.mpr ⟨ht, hcovers⟩] at hnone
    cases hnone
  · intro h
    exact locate_of_totalWords_le h locator

/-- Every locator finds the same sentences. -/
theorem locate_eq_locate (locator locator' : Locator) : locator.locate = locator'.locate := by
  funext b position
  refine Option.ext fun s => ?_
  rw [locate_eq_some_iff, locate_eq_some_iff]

end Locator

end CorpusStats
