import CorpusStats.Proofs.Batch.Sections
/-!
# CorpusStats.Proofs.Batch.Lists

Batches that are made from lists.

* Lists of words make a batch as long as their words fit, and the batch has these lists as its
  sentences (`Sentences.exists_ofLists`, `Sentences.toLists_ofLists`).
* Lists of words and lists of edges make a batch of parses exactly if the edges that are kept for
  each sentence are in order on their own (`Parses.exists_ofLists_iff`). A list of edges is kept as
  it is if it ends at a position (`Parses.keptEdges_eq`).
* So with as many edges as there are positions at most, parses are accepted one by one
  (`Parses.exists_ofParsed_iff`), and what is read off a sentence goes by the sentence alone
  (`Parses.sections_ofParsed`).

So what a batch stands for is put together sentence by sentence, and the flat positions, starts and
ranges in which it is kept do not come up any more.
-/

namespace CorpusStats

variable {ι : Type}

/-! ### Lists behind each other -/

/-- How many elements the lists before list `s` have together. -/
def lengthBefore (lists : List (List ι)) (s : ℕ) : ℕ := ((lists.take s).map List.length).sum

theorem lengthBefore_add_le {lists : List (List ι)} {s : ℕ} (hs : s < lists.length) :
    lengthBefore lists s + lists[s].length ≤ lists.flatten.length := by
  calc lengthBefore lists s + lists[s].length
      = ((lists.take (s + 1)).map List.length).sum := by
        rw [lengthBefore, ← List.take_concat_get' _ _ hs, List.map_append, List.sum_append]
        simp
    _ ≤ (lists.map List.length).sum :=
        List.Sublist.sum_le_sum ((List.take_sublist _ _).map _) fun _ _ => Nat.zero_le _
    _ = lists.flatten.length := List.length_flatten.symm

/-- A list is found in the concatenation of all behind the lists before it. -/
theorem take_drop_flatten {lists : List (List ι)} {s : ℕ} (hs : s < lists.length) :
    (lists.flatten.drop (lengthBefore lists s)).take lists[s].length = lists[s] := by
  have hsucc : ((lists.map List.length).take (s + 1)).sum
      = ((lists.map List.length).take s).sum + lists[s].length := by
    rw [List.take_add_one, List.sum_append]
    simp [hs]
  rw [lengthBefore, List.map_take, ← List.drop_take_succ_flatten_eq_getElem lists s hs,
    List.drop_take, hsucc]
  simp

theorem getElem?_startsFrom {lists : List (List ι)} {s : ℕ} (hs : s < lists.length) (cursor : ℕ) :
    (startsFrom cursor lists)[s]? = some (cursor + lengthBefore lists s).toUInt32 := by
  induction lists generalizing s cursor with
  | nil => cases hs
  | cons l lists ih =>
    cases s with
    | zero => simp [startsFrom, lengthBefore]
    | succ s =>
      rw [startsFrom, List.getElem?_cons_succ, ih (Nat.lt_of_succ_lt_succ hs)]
      simp [lengthBefore, Nat.add_assoc]

/-- The length of a list, as a position. -/
theorem toNat_length_toUInt32 {lists : List (List ι)} (hfits : lists.flatten.length ≤ maxPositions)
    {l : List ι} (hl : l ∈ lists) : l.length.toUInt32.toNat = l.length := by
  have hle : l.length ≤ lists.flatten.length := (List.sublist_flatten_of_mem hl).length_le
  refine UInt32.toNat_ofNat_of_lt' ?_
  have hmax : maxPositions < UInt32.size := by decide
  omega

namespace Sentences

variable {X : List (List UInt32)} {b : Sentences}

theorem sum_lengths_lists (hfits : X.flatten.length ≤ maxPositions) (s : ℕ) :
    (((X.map (·.length.toUInt32)).take s).map UInt32.toNat).sum = lengthBefore X s := by
  rw [lengthBefore, ← List.map_take, List.map_map]
  refine congrArg List.sum (List.map_congr_left fun l hl => ?_)
  exact toNat_length_toUInt32 hfits (List.mem_of_mem_take hl)

theorem tiles_lists (hfits : X.flatten.length ≤ maxPositions) :
    Tiles X.flatten.toArray (startsFrom 0 X).toArray (X.map (·.length.toUInt32)).toArray where
  size_eq := by simp
  fits := by simpa using hfits
  start_eq s hs := by
    have hs' : s < X.length := by simpa using hs
    have hle := lengthBefore_add_le hs'
    have hmax : maxPositions < UInt32.size := by decide
    have hstarts : s < (startsFrom 0 X).length := by simpa using hs
    have hget : (startsFrom 0 X)[s] = (lengthBefore X s).toUInt32 := by
      rw [List.getElem_eq_iff, getElem?_startsFrom hs', Nat.zero_add]
    rw [List.getElem_toArray, hget, sum_lengths_lists hfits]
    exact UInt32.toNat_ofNat_of_lt' (by omega)
  sum_eq := by
    have hsum := sum_lengths_lists hfits X.length
    rw [List.take_of_length_le (by simp), lengthBefore, List.take_length] at hsum
    rw [hsum, List.size_toArray, List.length_flatten]

theorem ofLists_eq_ok_iff : ofLists X = .ok b ↔ b.words = X.flatten.toArray
    ∧ b.offsets = (startsFrom 0 X).toArray ∧ b.lengths = (X.map (·.length.toUInt32)).toArray :=
  ofArrays_eq_ok_iff

/-- Lists of words make a batch, as long as it can have so many words. -/
theorem exists_ofLists (hfits : X.flatten.length ≤ maxPositions) : ∃ b, ofLists X = .ok b :=
  ⟨⟨_, _, _, fault?_eq_none_iff.mpr (tiles_lists hfits)⟩, ofLists_eq_ok_iff.mpr ⟨rfl, rfl, rfl⟩⟩

section OfLists

variable (h : ofLists X = .ok b)
include h

theorem words_ofLists : b.words = X.flatten.toArray := (ofLists_eq_ok_iff.mp h).1

theorem fits_of_ofLists : X.flatten.length ≤ maxPositions := by
  have hle := b.totalWords_le
  rwa [totalWords, words_ofLists h, List.size_toArray] at hle

theorem count_ofLists : b.count = X.length := by
  rw [count, (ofLists_eq_ok_iff.mp h).2.1, List.size_toArray, length_startsFrom]

theorem length_ofLists {s : ℕ} (hs : s < X.length) : b.length s = X[s].length.toUInt32 := by
  simp [length, (ofLists_eq_ok_iff.mp h).2.2, hs]

theorem toNat_length_ofLists {s : ℕ} (hs : s < X.length) : (b.length s).toNat = X[s].length := by
  rw [length_ofLists h hs, toNat_length_toUInt32 (fits_of_ofLists h) (List.getElem_mem hs)]

theorem bound_ofLists (s : ℕ) : b.bound s = lengthBefore X s := by
  rw [bound, (ofLists_eq_ok_iff.mp h).2.2]
  exact sum_lengths_lists (fits_of_ofLists h) s

theorem sentence_ofLists {s : ℕ} (hs : s < X.length) : (b.sentence s).toList = X[s] := by
  rw [toList_sentence ((count_ofLists h).symm ▸ hs), words_ofLists h, bound_ofLists h,
    toNat_length_ofLists h hs, take_drop_flatten hs]

/-- A batch that is made from lists has them as its sentences. -/
theorem toLists_ofLists : b.toLists = X := by
  refine List.ext_getElem (by simp [toLists, count_ofLists h]) fun s _ hs => ?_
  simp [toLists, sentence_ofLists h hs]

/-- The pairs of a batch, sentence by sentence. -/
theorem windowPairs_ofLists (window : ℕ) :
    b.windowPairs window = X.flatMap (CorpusStats.windowPairs window) := by
  rw [windowPairs, toLists_ofLists h]

end OfLists

end Sentences

namespace Parses

/-! ### One sentence -/

/-- The edges of a sentence of the given length join different positions of it, and no position
touches too many of them. -/
def IsSound (length : UInt32) (edges : List Edge) : Prop :=
  (∀ e ∈ edges, e.1 < length ∧ e.2 < length ∧ e.1 ≠ e.2) ∧ crowded? edges length = none

theorem fault?_edge_eq_none_iff (sentence : ℕ) {length : UInt32} {e : Edge} :
    Edge.fault? sentence length e = none ↔ e.1 < length ∧ e.2 < length ∧ e.1 ≠ e.2 := by
  unfold Edge.fault?
  by_cases hfirst : length ≤ e.1
  · simp [hfirst, UInt32.not_lt.mpr hfirst]
  · by_cases hsecond : length ≤ e.2
    · simp [hsecond, UInt32.not_lt.mpr hsecond]
    · simp [hfirst, hsecond, UInt32.not_le.mp hfirst, UInt32.not_le.mp hsecond]

/-- What an edge list makes of a position: the connectors of the position. -/
def connectorsOf (words : List UInt32) (edges : List Edge) (position : UInt32) : List Connector :=
  edges.filterMap fun e =>
    (e.otherEnd? position).bind fun other =>
      words[other.toNat]?.map fun word => Connector.of word (Side.of position other)

/-- The sections of a sentence with its edges. -/
def sectionsOf (parsed : List UInt32 × List Edge) : List (UInt32 × UInt64) :=
  (List.range parsed.1.length).filterMap fun i =>
    let connectors := connectorsOf parsed.1 parsed.2 i.toUInt32
    if connectors.isEmpty then none
    else some (parsed.1.getD i 0, Disjunct.hash connectors)

/-! ### All sentences -/

/-- The parses with these sentences, each with its edges. -/
def ofParsed (parsed : List (List UInt32 × List Edge)) : Except Error Parses :=
  ofLists (parsed.map Prod.fst) (parsed.map Prod.snd)

variable {parsed : List (List UInt32 × List Edge)} {b : Parses}

/-- What is cut out of the arrays of all edges. -/
theorem edgesBetween_lists (edges : List (List Edge)) (start count : ℕ) :
    edgesBetween (edges.flatten.map (·.1)).toArray (edges.flatten.map (·.2)).toArray start
      (start + count) = (edges.flatten.drop start).take count := by
  rw [edgesBetween, Array.toList_extract, Array.toList_extract, List.extract_eq_take_drop,
    List.extract_eq_take_drop, Nat.add_sub_cancel_left]
  simp only [← List.map_drop, ← List.map_take, List.zip_map']
  exact List.map_id _

/-- The edges that are kept for list `s`. Its start and its length are kept as words of 32 bits, so
from `2 ^ 32` edges on they need not be the start and the length of the list. -/
def keptEdges (edges : List (List Edge)) (s : ℕ) : List Edge :=
  (edges.flatten.drop (lengthBefore edges s % UInt32.size)).take
    ((edges.getD s []).length % UInt32.size)

section Edges

variable {edges : List (List Edge)} {s : ℕ} (hs : s < edges.length)
include hs

/-- A list that ends at a position is kept. -/
theorem keptEdges_eq (hfits : lengthBefore edges s + edges[s].length ≤ maxPositions) :
    keptEdges edges s = edges[s] := by
  have hmax : maxPositions < UInt32.size := by decide
  rw [keptEdges, List.getD_eq_getElem _ _ hs, Nat.mod_eq_of_lt (by omega),
    Nat.mod_eq_of_lt (by omega), take_drop_flatten hs]

theorem toNat_offset_lists :
    ((startsFrom 0 edges).toArray.getD s 0).toNat = lengthBefore edges s % UInt32.size := by
  have hget : (startsFrom 0 edges).toArray.getD s 0 = (lengthBefore edges s).toUInt32 := by
    simp [Array.getD_eq_getD_getElem?, getElem?_startsFrom hs]
  rw [hget]
  exact UInt32.toNat_ofNat'

theorem toNat_count_lists :
    ((edges.map fun l : List Edge => l.length.toUInt32).toArray.getD s 0).toNat
      = (edges.getD s []).length % UInt32.size := by
  have hget : (edges.map fun l : List Edge => l.length.toUInt32).toArray.getD s 0
      = (edges.getD s []).length.toUInt32 := by
    simp [Array.getD_eq_getD_getElem?, hs]
  rw [hget]
  exact UInt32.toNat_ofNat'

/-- The edges of a sentence are refused only on their own account. -/
theorem sentenceFault?_lists (length : UInt32) :
    sentenceFault? (edges.flatten.map (·.1)).toArray (edges.flatten.map (·.2)).toArray s length
        ((startsFrom 0 edges).toArray.getD s 0)
        ((edges.map fun l : List Edge => l.length.toUInt32).toArray.getD s 0) = none
      ↔ IsSound length (keptEdges edges s) := by
  have hle := lengthBefore_add_le hs
  have hoffset := Nat.mod_le (lengthBefore edges s) UInt32.size
  have hcount := Nat.mod_le edges[s].length UInt32.size
  rw [sentenceFault?, toNat_offset_lists hs, toNat_count_lists hs, if_neg (by
      rw [List.size_toArray, List.length_map, List.getD_eq_getElem _ _ hs]
      omega), edgesBetween_lists, ← keptEdges, IsSound,
    ← forall₂_congr fun e _ => fault?_edge_eq_none_iff s, ← List.findSome?_eq_none_iff]
  dsimp only
  split
  case h_1 hfound => simp [hfound]
  case h_2 hnone => simp [hnone]

end Edges

section OfLists

variable {sentences : List (List UInt32)} {edges : List (List Edge)}

theorem ofLists_eq_ok_iff : ofLists sentences edges = .ok b ↔ sentences.length = edges.length
    ∧ Sentences.ofLists sentences = .ok b.sentences
    ∧ b.firsts = (edges.flatten.map (·.1)).toArray
    ∧ b.seconds = (edges.flatten.map (·.2)).toArray
    ∧ b.offsets = (startsFrom 0 edges).toArray
    ∧ b.counts = (edges.map (·.length.toUInt32)).toArray := by
  by_cases hlength : sentences.length = edges.length
  swap
  · rw [ofLists, if_pos hlength]
    exact iff_of_false (by rintro ⟨⟩) fun h => hlength h.1
  rw [ofLists, if_neg (not_not.mpr hlength)]
  cases hsentences : Sentences.ofLists sentences with
  | error e => exact iff_of_false (by rintro ⟨⟩) fun h => by cases h.2.1
  | ok b' =>
    show ofArrays b' _ _ _ _ = .ok b ↔ _
    rw [ofArrays_eq_ok_iff, and_iff_right hlength, Except.ok.injEq, eq_comm (a := b')]

/-- Lists of words with lists of edges make a batch exactly if there are as many lists of each, the
words fit and what is kept of the edges is sound. -/
theorem exists_ofLists_iff : (∃ b, ofLists sentences edges = .ok b) ↔
    sentences.length = edges.length ∧ sentences.flatten.length ≤ maxPositions
      ∧ ∀ s (hs : s < sentences.length),
        IsSound sentences[s].length.toUInt32 (keptEdges edges s) := by
  by_cases hfits : sentences.flatten.length ≤ maxPositions
  swap
  · refine iff_of_false (fun ⟨b, hb⟩ => ?_) fun h => hfits h.2.1
    exact hfits (Sentences.fits_of_ofLists (ofLists_eq_ok_iff.mp hb).2.1)
  by_cases hlength : sentences.length = edges.length
  swap
  · exact iff_of_false (fun ⟨b, hb⟩ => hlength (ofLists_eq_ok_iff.mp hb).1) fun h => hlength h.1
  obtain ⟨batch, hbatch⟩ := Sentences.exists_ofLists hfits
  have hcount := Sentences.count_ofLists hbatch
  have hfault : fault? batch (edges.flatten.map (·.1)).toArray (edges.flatten.map (·.2)).toArray
      (startsFrom 0 edges).toArray (edges.map (·.length.toUInt32)).toArray = none
        ↔ ∀ s (hs : s < sentences.length),
          IsSound sentences[s].length.toUInt32 (keptEdges edges s) := by
    rw [fault?, if_neg (by rw [List.size_toArray, List.size_toArray, List.length_map,
      List.length_map, ne_eq, not_not]), if_neg (by simp [hcount, hlength]),
      List.findSome?_eq_none_iff, hcount]
    simp only [List.mem_range]
    refine forall₂_congr fun s hs => ?_
    rw [sentenceFault?_lists (hlength ▸ hs), Sentences.length_ofLists hbatch hs]
  rw [and_iff_right hlength, and_iff_right hfits, ← hfault]
  constructor
  · intro h
    obtain ⟨b, hb⟩ := h
    obtain ⟨-, hsentences, hfirsts, hseconds, hoffsets, hcounts⟩ := ofLists_eq_ok_iff.mp hb
    rw [hbatch] at hsentences
    cases hsentences
    rw [← hfirsts, ← hseconds, ← hoffsets, ← hcounts]
    exact b.sound
  · intro h
    exact ⟨⟨batch, _, _, _, _, h⟩, ofLists_eq_ok_iff.mpr ⟨hlength, hbatch, rfl, rfl, rfl, rfl⟩⟩

theorem edges_ofLists (h : ofLists sentences edges = .ok b) {s : ℕ} (hs : s < edges.length) :
    b.edges s = keptEdges edges s := by
  obtain ⟨-, -, hfirsts, hseconds, hoffsets, hcounts⟩ := ofLists_eq_ok_iff.mp h
  rw [Parses.edges, hfirsts, hseconds, hoffsets, hcounts, toNat_offset_lists hs,
    toNat_count_lists hs, edgesBetween_lists, keptEdges]

end OfLists

/-- Lists of words with their edges make a batch exactly if the edges of each are sound. -/
theorem exists_ofParsed_iff (hwords : (parsed.map Prod.fst).flatten.length ≤ maxPositions)
    (hedges : (parsed.map Prod.snd).flatten.length ≤ maxPositions) :
    (∃ b, ofParsed parsed = .ok b) ↔ ∀ p ∈ parsed, IsSound p.1.length.toUInt32 p.2 := by
  rw [ofParsed, exists_ofLists_iff, and_iff_right (by simp), and_iff_right hwords,
    List.forall_mem_iff_getElem]
  simp only [List.length_map]
  refine forall₂_congr fun s hs => ?_
  have hs' : s < (parsed.map Prod.snd).length := by simpa using hs
  rw [keptEdges_eq hs' ((lengthBefore_add_le hs').trans hedges), List.getElem_map,
    List.getElem_map]

section OfParsed

variable (h : ofParsed parsed = .ok b)
include h

theorem sentences_ofParsed : Sentences.ofLists (parsed.map Prod.fst) = .ok b.sentences :=
  (ofLists_eq_ok_iff.mp h).2.1

theorem edges_ofParsed (hedges : (parsed.map Prod.snd).flatten.length ≤ maxPositions) {s : ℕ}
    (hs : s < parsed.length) : b.edges s = parsed[s].2 := by
  have hs' : s < (parsed.map Prod.snd).length := by simpa using hs
  rw [edges_ofLists h hs', keptEdges_eq hs' ((lengthBefore_add_le hs').trans hedges),
    List.getElem_map]

/-- The sections of a batch, sentence by sentence. -/
theorem sections_ofParsed (hedges : (parsed.map Prod.snd).flatten.length ≤ maxPositions) :
    b.sections = parsed.flatMap sectionsOf := by
  have hsentences := sentences_ofParsed h
  have hcount : b.sentences.count = parsed.length := by
    rw [Sentences.count_ofLists hsentences, List.length_map]
  have hsection : ∀ s (hs : s < parsed.length),
      (List.range (b.sentences.length s).toNat).filterMap (b.section? s)
        = sectionsOf parsed[s] := by
    intro s hs
    have hs' : s < (parsed.map Prod.fst).length := by simpa using hs
    have hwords : (b.sentences.sentence s).toList = parsed[s].1 := by
      rw [Sentences.sentence_ofLists hsentences hs', List.getElem_map]
    have hconnectors : ∀ position,
        b.connectors s position = connectorsOf parsed[s].1 parsed[s].2 position := by
      intro position
      simp only [connectors, connectorsOf, edges_ofParsed h hedges hs, ← hwords,
        Array.getElem?_toList]
    rw [Sentences.toNat_length_ofLists hsentences hs', List.getElem_map, sectionsOf]
    refine List.filterMap_congr fun i _ => ?_
    rw [section?, hconnectors, hwords]
  rw [sections, hcount, List.flatMap_def, List.flatMap_def]
  congr 1
  refine List.ext_getElem (by simp) fun s _ hs => ?_
  rw [List.getElem_map, List.getElem_map, List.getElem_range,
    hsection s (by simpa using hs)]

end OfParsed

end Parses

end CorpusStats
