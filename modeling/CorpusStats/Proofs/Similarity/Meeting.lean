import CorpusStats.Row
import Mathlib
/-!
# CorpusStats.Proofs.Similarity.Meeting

Words as **vectors over disjuncts**, and what their sections have to do with that.

* `squaredNorm`, `dotProduct` and `Share` are read off a list of sections, whatever their
  order and however often a word and a disjunct occur together. Disjuncts that are stored
  under one key count as one (`SectionRow.chainKey`).
* Two sections of one chain **meet** from the side of the smaller word (`meeting?`), so the
  meetings of two words add up to the product of their vectors (`totalOf_meetings`).
-/

namespace CorpusStats

variable {α : Type}

/-- The key under which the chain of a section is found. -/
def SectionRow.chainKey (row : SectionRow α) : UInt64 := Key.storable row.disjunct

/-- Some section of the first word and some section of the second have the same disjunct. -/
def Share (rows : List (SectionRow α)) (a b : UInt32) : Prop :=
  ∃ s ∈ rows, ∃ t ∈ rows, s.word = a ∧ t.word = b ∧ s.chainKey = t.chainKey

/-- The pairs of words in order that share a disjunct. -/
def sharing (rows : List (SectionRow α)) : Finset (UInt32 × UInt32) :=
  (((rows ×ˢ rows).filter fun (s, t) => s.word < t.word ∧ s.chainKey = t.chainKey).map
    fun (s, t) => (s.word, t.word)).toFinset

theorem mem_sharing {rows : List (SectionRow α)} {a b : UInt32} :
    (a, b) ∈ sharing rows ↔ a < b ∧ Share rows a b := by
  simp only [sharing, List.mem_toFinset, List.mem_map, List.mem_filter, List.mem_product,
    Prod.exists, Prod.mk.injEq, decide_eq_true_iff]
  constructor
  · intro h
    obtain ⟨s, t, ⟨⟨hs, ht⟩, hlt, hkey⟩, rfl, rfl⟩ := h
    exact ⟨hlt, s, hs, t, ht, rfl, rfl, hkey⟩
  · intro h
    obtain ⟨hlt, s, hs, t, ht, rfl, rfl, hkey⟩ := h
    exact ⟨s, t, ⟨⟨hs, ht⟩, hlt, hkey⟩, rfl, rfl⟩

variable [Field α]

/-- The squared length of the vector of a word. -/
def squaredNorm (rows : List (SectionRow α)) (word : UInt32) : α :=
  (rows.map fun s => if s.word = word then s.count * s.count else 0).sum

/-- The product of the vectors of two words: over all sections of the one and all sections of
the other with the same disjunct, the product of the counts. -/
def dotProduct (rows : List (SectionRow α)) (a b : UInt32) : α :=
  (rows.map fun s => (rows.map fun t =>
    if s.word = a ∧ t.word = b ∧ s.chainKey = t.chainKey then s.count * t.count else 0).sum).sum

theorem squaredNorm_concat (rows : List (SectionRow α)) (row : SectionRow α) (word : UInt32) :
    squaredNorm (rows ++ [row]) word
      = squaredNorm rows word + if row.word = word then row.count * row.count else 0 := by
  simp [squaredNorm]

/-- A word that has a section with count has a vector with length. -/
theorem squaredNorm_pos [LinearOrder α] [IsStrictOrderedRing α] {rows : List (SectionRow α)}
    {row : SectionRow α} (hrow : row ∈ rows) (hcount : 0 < row.count) :
    0 < squaredNorm rows row.word := by
  have hnonneg : ∀ x ∈ rows.map fun s => if s.word = row.word then s.count * s.count else 0,
      0 ≤ x := by
    intro x hx
    obtain ⟨s, -, rfl⟩ := List.mem_map.mp hx
    split
    · exact mul_self_nonneg _
    · exact le_rfl
  have hmem : row.count * row.count
      ∈ rows.map fun s => if s.word = row.word then s.count * s.count else 0 :=
    List.mem_map.mpr ⟨row, hrow, if_pos rfl⟩
  exact (mul_pos hcount hcount).trans_le (List.single_le_sum hnonneg _ hmem)

/-! ### Meetings -/

/-- Two words, in order, that have met, and the product of the counts of their sections. -/
structure Meeting (α : Type) where
  wordA : UInt32
  wordB : UInt32
  product : α

/-- The meeting of two sections, if the second has the larger word. -/
def meeting? (s t : SectionRow α) : Option (Meeting α) :=
  if s.word < t.word then some ⟨s.word, t.word, s.count * t.count⟩ else none

/-- The meetings of a section with the sections of its chain. -/
def meetingsWith (rows : List (SectionRow α)) (s : SectionRow α) : List (Meeting α) :=
  (rows.filter fun t => t.chainKey = s.chainKey).filterMap (meeting? s)

/-- The meetings of all sections. -/
def meetings (rows : List (SectionRow α)) : List (Meeting α) := rows.flatMap (meetingsWith rows)

/-- What the meetings of two words add up to. -/
def totalOf (ms : List (Meeting α)) (a b : UInt32) : α :=
  (ms.map fun m => if m.wordA = a ∧ m.wordB = b then m.product else 0).sum

theorem totalOf_append (ms ms' : List (Meeting α)) (a b : UInt32) :
    totalOf (ms ++ ms') a b = totalOf ms a b + totalOf ms' a b := by
  simp [totalOf]

theorem totalOf_concat (ms : List (Meeting α)) (m : Meeting α) (a b : UInt32) :
    totalOf (ms ++ [m]) a b
      = totalOf ms a b + if m.wordA = a ∧ m.wordB = b then m.product else 0 := by
  simp [totalOf]

theorem totalOf_perm {ms ms' : List (Meeting α)} (h : ms.Perm ms') (a b : UInt32) :
    totalOf ms a b = totalOf ms' a b :=
  (h.map _).sum_eq

theorem totalOf_of_forall {ms : List (Meeting α)} {a b : UInt32}
    (h : ∀ m ∈ ms, ¬ (m.wordA = a ∧ m.wordB = b)) : totalOf ms a b = 0 := by
  refine List.sum_eq_zero fun x hx => ?_
  obtain ⟨m, hm, rfl⟩ := List.mem_map.mp hx
  exact if_neg (h m hm)

theorem totalOf_meetingsWith (rows : List (SectionRow α)) (s : SectionRow α) {a b : UInt32}
    (hab : a < b) :
    totalOf (meetingsWith rows s) a b
      = (rows.map fun t => if s.word = a ∧ t.word = b ∧ s.chainKey = t.chainKey
          then s.count * t.count else 0).sum := by
  induction rows with
  | nil => rfl
  | cons t rows ih =>
    rw [List.map_cons, List.sum_cons, ← ih, meetingsWith, meetingsWith, List.filter_cons]
    by_cases hkey : t.chainKey = s.chainKey
    · rw [if_pos (decide_eq_true hkey), List.filterMap_cons, meeting?]
      by_cases hlt : s.word < t.word
      · rw [if_pos hlt]
        simp [totalOf, hkey.symm]
      · have hne : ¬ (s.word = a ∧ t.word = b ∧ s.chainKey = t.chainKey) := by
          intro h
          obtain ⟨rfl, rfl, -⟩ := h
          exact hlt hab
        rw [if_neg hlt, if_neg hne, zero_add]
    · have hne : ¬ (s.word = a ∧ t.word = b ∧ s.chainKey = t.chainKey) :=
        fun h => hkey h.2.2.symm
      rw [if_neg (by simpa using hkey), if_neg hne, zero_add]

/-- The meetings of two words add up to the product of their vectors. -/
theorem totalOf_meetings (rows : List (SectionRow α)) {a b : UInt32} (hab : a < b) :
    totalOf (meetings rows) a b = dotProduct rows a b := by
  -- the chains stay those of `rows` while the sections that walk them are counted off
  have hsum (others : List (SectionRow α)) :
      totalOf (others.flatMap (meetingsWith rows)) a b
        = (others.map fun s => (rows.map fun t => if s.word = a ∧ t.word = b
            ∧ s.chainKey = t.chainKey then s.count * t.count else 0).sum).sum := by
    induction others with
    | nil => rfl
    | cons s others ih =>
      rw [List.flatMap_cons, totalOf_append, totalOf_meetingsWith rows s hab, ih, List.map_cons,
        List.sum_cons]
  exact hsum rows

/-- Two words in order meet exactly if they share a disjunct. -/
theorem exists_meeting_iff {rows : List (SectionRow α)} {a b : UInt32} :
    (∃ m ∈ meetings rows, m.wordA = a ∧ m.wordB = b) ↔ a < b ∧ Share rows a b := by
  simp only [meetings, meetingsWith, List.mem_flatMap, List.mem_filterMap, List.mem_filter,
    decide_eq_true_iff, meeting?]
  constructor
  · intro h
    obtain ⟨m, ⟨s, hs, t, ⟨ht, hkey⟩, hm⟩, rfl, rfl⟩ := h
    by_cases hlt : s.word < t.word
    · rw [if_pos hlt] at hm
      cases hm
      exact ⟨hlt, s, hs, t, ht, rfl, rfl, hkey.symm⟩
    · rw [if_neg hlt] at hm
      cases hm
  · intro h
    obtain ⟨hlt, s, hs, t, ht, rfl, rfl, hkey⟩ := h
    exact ⟨_, ⟨s, hs, t, ⟨ht, hkey.symm⟩, if_pos hlt⟩, rfl, rfl⟩

end CorpusStats
