import CorpusStats.Proofs.Batch.Locate
import CorpusStats.Tally.Window
/-!
# CorpusStats.Proofs.Batch.Window

The pairs that a batch is counted for, as a list: for every sentence, each word with every
one of the `window` words that follow it (`windowPairs`).

Counting goes by flat positions, and each position finds its sentence and cuts off the window
on its own. Put together in the order of the positions, what they find is that list, for
either locator (`Sentences.flatMap_pairsAt`). It has one pair for every place where two positions
of a sentence are at most `window` apart (`Sentences.near`), in the order of the places.
-/

namespace CorpusStats

/-- The pairs of words of a sentence that stand at most `window` positions apart. -/
def windowPairs (window : ℕ) : List UInt32 → List WordPair
  | [] => []
  | word :: rest => (rest.take window).map (WordPair.of word) ++ windowPairs window rest

theorem windowPairs_eq_flatMap (window : ℕ) (sentence : List UInt32) :
    windowPairs window sentence = (List.range sentence.length).flatMap fun i =>
      ((sentence.drop (i + 1)).take window).map (WordPair.of (sentence.getD i 0)) := by
  induction sentence with
  | nil => rfl
  | cons word rest ih =>
    rw [windowPairs, ih, List.length_cons, List.range_succ_eq_map, List.flatMap_cons,
      List.flatMap_map]
    rfl

/-- What follows a place of a list, up to a window, by the numbers of the places. -/
theorem take_drop_eq_map_filter (window i : ℕ) (l : List UInt32) :
    (l.drop (i + 1)).take window
      = ((List.range l.length).filter fun j => i < j ∧ j ≤ i + window).map fun j => l.getD j 0 := by
  induction l using List.reverseRecOn with
  | nil => rw [List.drop_nil, List.take_nil]; rfl
  | append_singleton l a ih =>
    have hinit : ((List.range l.length).filter fun j => i < j ∧ j ≤ i + window).map
        (fun j => (l ++ [a]).getD j 0) = (l.drop (i + 1)).take window := by
      rw [ih]
      refine List.map_congr_left fun j hj => ?_
      have hlt : j < l.length := List.mem_range.mp (List.mem_of_mem_filter hj)
      rw [List.getD_append _ _ _ _ hlt]
    rw [List.length_append, List.length_singleton, List.range_succ, List.filter_append,
      List.map_append, hinit, List.drop_append, List.take_append, List.length_drop]
    congr 1
    by_cases hin : i < l.length ∧ l.length ≤ i + window
    · rw [List.filter_cons_of_pos (by simpa using hin), show i + 1 - l.length = 0 by omega,
        List.drop_zero, List.take_of_length_le (by rw [List.length_singleton]; omega)]
      simp
    · rw [List.filter_cons_of_neg (by simpa using hin)]
      by_cases hi : i < l.length
      · rw [show window - (l.length - (i + 1)) = 0 by omega, List.take_zero]
        rfl
      · rw [List.drop_of_length_le (by rw [List.length_singleton]; omega), List.take_nil]
        rfl

theorem nodup_flatMap_of {ι κ : Type} {l : List ι} {g : ι → List κ} {f : κ → ι} (hl : l.Nodup)
    (hf : ∀ a ∈ l, ∀ x ∈ g a, f x = a) (hg : ∀ a, (g a).Nodup) : (l.flatMap g).Nodup := by
  refine List.nodup_flatMap.mpr ⟨fun a _ => hg a, hl.imp_of_mem fun {a a'} ha ha' hne x hx hx' => ?_⟩
  exact hne ((hf a ha x hx).symm.trans (hf a' ha' x hx'))

theorem length_eq_ncard {κ : Type} [DecidableEq κ] {l : List κ} (hl : l.Nodup) {S : Set κ}
    (hmem : ∀ x, x ∈ l ↔ x ∈ S) : l.length = S.ncard := by
  rw [← List.toFinset_card_of_nodup hl, ← Set.ncard_coe_finset, List.coe_toFinset]
  exact congrArg _ (Set.ext hmem)

namespace Sentences

/-- The pairs of words of a batch that stand in one sentence at most `window` positions
apart, once for every place where they do. -/
def windowPairs (b : Sentences) (window : ℕ) : List WordPair :=
  b.toLists.flatMap (CorpusStats.windowPairs window)

def pairsAt (b : Sentences) (window : UInt32) (locator : Locator) (i : ℕ) : List WordPair :=
  match locator.locate b i.toUInt32 with
  | some s => (b.partners s window i.toUInt32).map (WordPair.of (b.words.getD i 0))
  | none => []

/-! ### One position -/

theorem toNat_reach (position window : UInt32) :
    (reach position window).toNat = min (position.toNat + window.toNat) (2 ^ 32 - 1) := by
  have hp := position.toNat_lt
  have hw := window.toNat_lt
  unfold reach
  by_cases hwrap : position + window < position
  · have hlt := UInt32.lt_iff_toNat_lt.mp hwrap
    rw [UInt32.toNat_add] at hlt
    rw [if_pos hwrap]
    show 2 ^ 32 - 1 = _
    omega
  · have hle := UInt32.le_iff_toNat_le.mp (UInt32.not_lt.mp hwrap)
    rw [UInt32.toNat_add] at hle
    rw [if_neg hwrap, UInt32.toNat_add]
    omega

theorem toNat_min_word (a c : UInt32) : (min a c).toNat = min a.toNat c.toNat := by
  rw [show min a c = if a ≤ c then a else c from rfl]
  by_cases h : a ≤ c
  · rw [if_pos h, min_eq_left (UInt32.le_iff_toNat_le.mp h)]
  · rw [if_neg h, min_eq_right (UInt32.le_iff_toNat_le.mp (UInt32.le_of_lt (UInt32.not_le.mp h)))]

variable {b : Sentences} {s : ℕ}

/-! ### Words -/

theorem getD_words_mem {i : ℕ} (hi : i < b.totalWords) : b.words.getD i 0 ∈ b.words := by
  have hi' : i < b.words.size := hi
  rw [Array.getD_eq_getD_getElem?, Array.getElem?_eq_getElem hi']
  exact Array.getElem_mem hi'

theorem mem_words_of_mem_partners {window position word : UInt32}
    (h : word ∈ b.partners s window position) : word ∈ b.words := by
  rw [partners, Array.toList_extract, List.extract_eq_take_drop] at h
  exact Array.mem_toList_iff.mp (List.mem_of_mem_drop (List.mem_of_mem_take h))

theorem toList_sentence (hs : s < b.count) :
    (b.sentence s).toList = (b.words.toList.drop (b.bound s)).take (b.length s).toNat := by
  rw [sentence, Array.toList_extract, toNat_start hs, List.extract_eq_take_drop,
    Nat.add_sub_cancel_left]

theorem length_toList_sentence (hs : s < b.count) :
    (b.sentence s).toList.length = (b.length s).toNat := by
  have hle := bound_le_totalWords (b := b) (s := s + 1) hs
  rw [bound_succ hs, totalWords] at hle
  rw [toList_sentence hs, List.length_take, List.length_drop, Array.length_toList]
  omega

/-- The word of a flat position is the word of its place in the sentence. -/
theorem getD_words_bound_add (hs : s < b.count) {i : ℕ} (hi : i < (b.length s).toNat) :
    b.words.getD (b.bound s + i) 0 = (b.sentence s).toList.getD i 0 := by
  rw [toList_sentence hs, Array.getD_eq_getD_getElem?, List.getD_eq_getElem?_getD,
    List.getElem?_take_of_lt hi, List.getElem?_drop, Array.getElem?_toList]

/-- A sentence that has a position ends behind a position. -/
theorem toNat_stop_sub_one (hs : s < b.count) (hpos : 0 < (b.length s).toNat) :
    (b.stop s - 1).toNat = b.bound s + (b.length s).toNat - 1 := by
  have hone : (1 : UInt32) ≤ b.stop s := by
    rw [UInt32.le_iff_toNat_le, toNat_stop hs, bound_succ hs]
    show 1 ≤ _
    omega
  rw [UInt32.toNat_sub_of_le _ _ hone, toNat_stop hs, bound_succ hs]
  rfl

/-- There is a number for the position after the last one. -/
theorem toNat_position_add_one (hs : s < b.count) {i : ℕ} (hi : i < (b.length s).toNat) :
    ((b.bound s + i).toUInt32 + 1).toNat = b.bound s + i + 1 := by
  have hle := bound_le_totalWords (b := b) (s := s + 1) hs
  have htotal := b.totalWords_le
  rw [bound_succ hs] at hle
  simp only [maxPositions, UInt32.size] at htotal
  rw [UInt32.toNat_add, toNat_position hs hi]
  refine Nat.mod_eq_of_lt ?_
  show b.bound s + i + 1 < 2 ^ 32
  omega

/-- The sum of position and window is cut off at the largest number, beyond every sentence. -/
theorem toNat_lastPartner (hs : s < b.count) {i : ℕ} (hi : i < (b.length s).toNat)
    (window : UInt32) : (b.lastPartner s window (b.bound s + i).toUInt32).toNat
      = min (b.bound s + i + window.toNat) (b.bound s + (b.length s).toNat - 1) := by
  have hle := bound_le_totalWords (b := b) (s := s + 1) hs
  have htotal := b.totalWords_le
  rw [bound_succ hs] at hle
  simp only [maxPositions, UInt32.size] at htotal
  rw [lastPartner, toNat_min_word, toNat_reach, toNat_stop_sub_one hs (by omega),
    toNat_position hs hi]
  omega

/-- A position is paired with the words of its sentence that follow it, up to the window. -/
theorem partners_eq (hs : s < b.count) {i : ℕ} (hi : i < (b.length s).toNat) (window : UInt32) :
    b.partners s window (b.bound s + i).toUInt32
      = ((b.sentence s).toList.drop (i + 1)).take window.toNat := by
  rw [partners, Array.toList_extract, List.extract_eq_take_drop, toNat_position_add_one hs hi,
    toNat_lastPartner hs hi, toList_sentence hs, List.drop_take, List.take_take, List.drop_drop]
  congr 1
  omega

theorem pairsAt_bound_add (hs : s < b.count) {i : ℕ} (hi : i < (b.length s).toNat)
    (window : UInt32) (locator : Locator) :
    b.pairsAt window locator (b.bound s + i)
      = (((b.sentence s).toList.drop (i + 1)).take window.toNat).map
        (WordPair.of ((b.sentence s).toList.getD i 0)) := by
  simp only [pairsAt, locate_bound_add hs hi, partners_eq hs hi, getD_words_bound_add hs hi]

/-! ### All positions -/

/-- The positions of a batch are the positions of its sentences. -/
theorem flatMap_range_bound {γ : Type} (f : ℕ → List γ) {n : ℕ} (hn : n ≤ b.count) :
    (List.range (b.bound n)).flatMap f = (List.range n).flatMap fun s =>
      (List.range (b.length s).toNat).flatMap fun i => f (b.bound s + i) := by
  induction n with
  | zero => rfl
  | succ n ih =>
    rw [bound_succ hn, List.range_add, List.flatMap_append, ih (Nat.le_of_succ_le hn),
      List.range_succ, List.flatMap_append, List.flatMap_map, List.flatMap_singleton]

/-- Position by position, a batch opens the pairs of its sentences. -/
theorem flatMap_pairsAt (b : Sentences) (window : UInt32) (locator : Locator) :
    (List.range b.totalWords).flatMap (b.pairsAt window locator) = b.windowPairs window.toNat := by
  rw [← bound_count, flatMap_range_bound _ le_rfl, windowPairs, toLists, List.flatMap_map]
  refine List.flatMap_congr fun s hs => ?_
  have hs' : s < b.count := List.mem_range.mp hs
  rw [windowPairs_eq_flatMap, length_toList_sentence hs']
  exact List.flatMap_congr fun i hi => pairsAt_bound_add hs' (List.mem_range.mp hi) window locator

/-! ### Places -/

/-- The word at a position of a sentence. -/
def wordAt (b : Sentences) (s i : ℕ) : UInt32 := (b.sentence s).toList.getD i 0

theorem wordAt_mem_words (hs : s < b.count) {i : ℕ} (hi : i < (b.length s).toNat) :
    b.wordAt s i ∈ b.words := by
  have hlt : i < (b.sentence s).toList.length := (length_toList_sentence hs).symm ▸ hi
  have hmem : b.wordAt s i ∈ (b.sentence s).toList := by
    rw [wordAt, List.getD_eq_getElem _ _ hlt]
    exact List.getElem_mem hlt
  rw [toList_sentence hs] at hmem
  exact Array.mem_toList_iff.mp (List.mem_of_mem_drop (List.mem_of_mem_take hmem))

/-- The places where two positions of one sentence are at most `window` apart: the sentence, the
earlier and the later position. -/
def near (b : Sentences) (window : ℕ) : List (ℕ × ℕ × ℕ) :=
  (List.range b.count).flatMap fun s => (List.range (b.length s).toNat).flatMap fun i =>
    ((List.range (b.length s).toNat).filter fun j => i < j ∧ j ≤ i + window).map fun j => (s, i, j)

/-- The pair of words at a place. -/
def pairAt (b : Sentences) (place : ℕ × ℕ × ℕ) : WordPair :=
  .of (b.wordAt place.1 place.2.1) (b.wordAt place.1 place.2.2)

theorem mem_near {window i j : ℕ} : (s, i, j) ∈ b.near window ↔
    s < b.count ∧ i < j ∧ j ≤ i + window ∧ j < (b.length s).toNat := by
  simp only [near, List.mem_flatMap, List.mem_range, List.mem_map, List.mem_filter,
    decide_eq_true_iff, Prod.mk.injEq]
  constructor
  · intro h
    obtain ⟨s, hs, i, hi, j, ⟨hj, hij, hwindow⟩, rfl, rfl, rfl⟩ := h
    exact ⟨hs, hij, hwindow, hj⟩
  · intro h
    obtain ⟨hs, hij, hwindow, hj⟩ := h
    exact ⟨s, hs, i, by omega, j, ⟨hj, hij, hwindow⟩, rfl, rfl, rfl⟩

theorem nodup_near (b : Sentences) (window : ℕ) : (b.near window).Nodup := by
  refine nodup_flatMap_of (f := Prod.fst) List.nodup_range (fun s _ place hplace => ?_) fun s => ?_
  · simp only [List.mem_flatMap, List.mem_map] at hplace
    obtain ⟨i, -, j, -, rfl⟩ := hplace
    rfl
  · refine nodup_flatMap_of (f := fun place => place.2.1) List.nodup_range
      (fun i _ place hplace => ?_) fun i => ?_
    · obtain ⟨j, -, rfl⟩ := List.mem_map.mp hplace
      rfl
    · refine (List.nodup_range.filter _).map fun j j' heq => ?_
      simpa using heq

/-- The list of places has every place once. -/
theorem length_near (b : Sentences) (window : ℕ) :
    (b.near window).length = Set.ncard {place : ℕ × ℕ × ℕ | place.1 < b.count
      ∧ place.2.1 < place.2.2 ∧ place.2.2 ≤ place.2.1 + window
      ∧ place.2.2 < (b.length place.1).toNat} :=
  length_eq_ncard (nodup_near b window) fun _ => mem_near

theorem windowPairs_eq_map (b : Sentences) (window : ℕ) :
    b.windowPairs window = (b.near window).map b.pairAt := by
  rw [windowPairs, toLists, List.flatMap_map, near, List.map_flatMap]
  refine List.flatMap_congr fun s hs => ?_
  have hs' : s < b.count := List.mem_range.mp hs
  rw [windowPairs_eq_flatMap, length_toList_sentence hs', List.map_flatMap]
  refine List.flatMap_congr fun i _ => ?_
  rw [take_drop_eq_map_filter, length_toList_sentence hs', List.map_map, List.map_map]
  rfl

end Sentences

end CorpusStats
