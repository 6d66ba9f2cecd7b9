import CorpusStats.Proofs.Key
import CorpusStats.Proofs.Keyed
import CorpusStats.Proofs.Similarity.Chains
/-!
# CorpusStats.Proofs.Similarity.Products

Candidates as sums over **meetings**.

* `Gathered` says that the candidates are the pairs of words that have met, one row for each
  pair, with what their meetings add up to. One more meeting changes the row of its pair
  or puts a new one behind the others (`Gathered.addProduct`).
* A section meets the rows of its chain, so after all sections the meetings are those of
  `meetings`, in some order (`computeProducts_eq_ok`).
-/

namespace CorpusStats

variable {α : Type}

/-! ### Candidates and meetings -/

namespace CandidateRow

/-- The key under which a candidate is found. -/
def key (row : CandidateRow α) : UInt64 := (WordPair.of row.wordA row.wordB).key

/-- Candidates of words in order have keys of their own. -/
theorem words_eq_of_key_eq {row : CandidateRow α} (hrow : row.wordA < row.wordB) {a b : UInt32}
    (hab : a < b) (hkey : row.key = (WordPair.of a b).key) : row.wordA = a ∧ row.wordB = b := by
  have hsmall {c d : UInt32} (hcd : c < d) :
      (WordPair.of c d) = ⟨c, d, UInt32.le_of_lt hcd⟩ ∧ c.toNat < 2 ^ 32 - 1 := by
    refine ⟨WordPair.of_of_le (UInt32.le_of_lt hcd), ?_⟩
    have hlt := UInt32.lt_iff_toNat_lt.mp hcd
    have hd := d.toNat_lt
    omega
  obtain ⟨hpair, hfirst⟩ := hsmall hrow
  obtain ⟨hpair', hfirst'⟩ := hsmall hab
  rw [key, hpair, hpair'] at hkey
  have heq := WordPair.key_inj hfirst hfirst' hkey
  exact ⟨congrArg WordPair.first heq, congrArg WordPair.second heq⟩

end CandidateRow

variable [Field α] [LinearOrder α] [FloorSemiring α] [RootLog α]

namespace CandidatePool

/-- The candidates are the pairs of words that have met, with the sums of their products. -/
structure Gathered (p : CandidatePool α) (ms : List (Meeting α)) : Prop where
  capacity_le : p.capacity ≤ maxPoolCapacity.toNat
  tidy : p.Tidy
  keyed : Keyed CandidateRow.key (fun _ => True) p.index p.liveRows p.used
  /-- A candidate is a pair of words that have met, in order, with the sum of their products. -/
  row_eq : ∀ row ∈ p.liveRows, row.wordA < row.wordB
    ∧ row.dot = totalOf ms row.wordA row.wordB ∧ ∃ m ∈ ms, m.wordA = row.wordA ∧ m.wordB = row.wordB
  exists_row : ∀ m ∈ ms, ∃ row ∈ p.liveRows, row.wordA = m.wordA ∧ row.wordB = m.wordB

variable {p p' : CandidatePool α} {ms ms' : List (Meeting α)} {a b : UInt32} {x : α}

theorem gathered_of_blank (h : p.Blank) (hcapacity : p.capacity ≤ maxPoolCapacity.toNat) :
    Gathered p [] := by
  refine ⟨hcapacity, h.tidy, ?_, ?_, ?_⟩
  · rw [h.used_eq]
    exact .of_raw?_eq_none h.sound h.raw?_eq _
  · simp [h.liveRows_eq]
  · simp

theorem Gathered.perm (h : Gathered p ms) (hperm : ms.Perm ms') : Gathered p ms' := by
  refine ⟨h.capacity_le, h.tidy, h.keyed, fun row hrow => ?_, fun m hm => ?_⟩
  · obtain ⟨hlt, hdot, m, hm, hwords⟩ := h.row_eq row hrow
    exact ⟨hlt, hdot.trans (totalOf_perm hperm _ _), m, hperm.mem_iff.mp hm, hwords⟩
  · exact h.exists_row m (hperm.mem_iff.mpr hm)

def addDot (x : α) (row : CandidateRow α) : CandidateRow α := { row with dot := row.dot + x }

omit [LinearOrder α] [FloorSemiring α] [RootLog α] in
theorem totalOf_concat_of_ne {m : Meeting α} (h : ¬ (m.wordA = a ∧ m.wordB = b)) :
    totalOf (ms ++ [m]) a b = totalOf ms a b := by
  rw [totalOf_concat, if_neg h, add_zero]

/-- The slot of a candidate is the only one with its words. -/
theorem Gathered.eq_of_words_eq (h : Gathered p ms) {i j : ℕ} {row row' : CandidateRow α}
    (hi : p.liveRows[i]? = some row) (hj : p.liveRows[j]? = some row')
    (hA : row.wordA = row'.wordA) (hB : row.wordB = row'.wordB) : i = j := by
  have hkey : row.key = row'.key := by rw [CandidateRow.key, CandidateRow.key, hA, hB]
  exact h.keyed.eq_of_key_eq (Pool.lt_used_of_liveRows hj) (Pool.lt_used_of_liveRows hi) hj hi
    trivial trivial hkey

/-- Words that the index does not know have no candidate. -/
theorem Gathered.words_ne (h : Gathered p ms) (hraw : p.index.raw? (WordPair.of a b).key = none)
    {row : CandidateRow α} (hmem : row ∈ p.liveRows) : ¬ (a = row.wordA ∧ b = row.wordB) := by
  intro hwords
  obtain ⟨rfl, rfl⟩ := hwords
  obtain ⟨i, hi⟩ := List.mem_iff_getElem?.mp hmem
  obtain ⟨u, hu, -⟩ := h.keyed.found i row (Pool.lt_used_of_liveRows hi) hi trivial
  rw [CandidateRow.key, hraw] at hu
  cases hu

/-- They have never met. -/
theorem Gathered.totalOf_eq_zero (h : Gathered p ms)
    (hraw : p.index.raw? (WordPair.of a b).key = none) : totalOf ms a b = 0 := by
  refine totalOf_of_forall fun m hm hwords => ?_
  obtain ⟨row, hmem, hA, hB⟩ := h.exists_row m hm
  exact h.words_ne hraw hmem ⟨hwords.1.symm.trans hA.symm, hwords.2.symm.trans hB.symm⟩

/-- A meeting of words that have met before. -/
theorem Gathered.add_old (h : Gathered p ms) {slot : ℕ} {row : CandidateRow α}
    (hrow : p.liveRows[slot]? = some row) :
    Gathered (p.modify slot (addDot x)) (ms ++ [⟨row.wordA, row.wordB, x⟩]) := by
  have hslot : slot < p.used := Pool.lt_used_of_liveRows hrow
  have hchanged {i : ℕ} {old : CandidateRow α} (hold : p.liveRows[i]? = some old) :
      (p.modify slot (addDot x)).liveRows[i]? = some (if slot = i then addDot x old else old) := by
    rw [Pool.liveRows_modify, List.getElem?_modify, hold]
    rfl
  have hwords {i : ℕ} (old : CandidateRow α) :
      (if slot = i then addDot x old else old).wordA = old.wordA
        ∧ (if slot = i then addDot x old else old).wordB = old.wordB := by
    split <;> exact ⟨rfl, rfl⟩
  refine ⟨h.capacity_le, Pool.tidy_modify h.tidy hslot _, ?_, fun row' hmem => ?_, fun m hm => ?_⟩
  · refine h.keyed.congr_rows ?_ fun i old new _ hold hnew => ?_
    · rw [Pool.liveRows_modify, List.length_modify]
    · rw [hchanged hold] at hnew
      cases hnew
      rw [CandidateRow.key, (hwords old).1, (hwords old).2]
      exact ⟨rfl, Iff.rfl⟩
  · obtain ⟨i, hi⟩ := List.mem_iff_getElem?.mp hmem
    have hlt := Pool.lt_used_of_liveRows hi
    rw [Pool.used_modify] at hlt
    obtain ⟨old, hold, hget⟩ := Pool.exists_liveRow hlt
    rw [hchanged hget] at hi
    cases hi
    obtain ⟨hab, hdot, m, hm, hmwords⟩ := h.row_eq old hold
    rw [(hwords old).1, (hwords old).2]
    refine ⟨hab, ?_, m, List.mem_append_left _ hm, hmwords⟩
    by_cases hsame : slot = i
    · subst hsame
      rw [hrow] at hget
      cases hget
      rw [if_pos rfl, totalOf_concat, if_pos ⟨rfl, rfl⟩, ← hdot]
      rfl
    · rw [if_neg hsame, totalOf_concat_of_ne, hdot]
      exact fun hand => hsame (h.eq_of_words_eq hrow hget hand.1 hand.2)
  · have hkept {old : CandidateRow α} (hold : old ∈ p.liveRows) :
        ∃ new ∈ (p.modify slot (addDot x)).liveRows,
          new.wordA = old.wordA ∧ new.wordB = old.wordB := by
      obtain ⟨i, hi⟩ := List.mem_iff_getElem?.mp hold
      exact ⟨_, List.mem_of_getElem? (hchanged hi), hwords old⟩
    rcases List.mem_append.mp hm with hm | hm
    · obtain ⟨old, hold, hA, hB⟩ := h.exists_row m hm
      obtain ⟨new, hnew, hA', hB'⟩ := hkept hold
      exact ⟨new, hnew, hA'.trans hA, hB'.trans hB⟩
    · rw [List.mem_singleton.mp hm]
      exact hkept (List.mem_of_getElem? hrow)

/-- The first meeting of two words. -/
theorem Gathered.add_new (h : Gathered p ms) (hab : a < b) (hroom : p.used < p.capacity)
    (hraw : p.index.raw? (WordPair.of a b).key = none)
    (hcreated : Pool.Created p p' (WordPair.of a b).key fun row =>
      { row with wordA := a, wordB := b }) :
    Gathered (p'.modify p.used (addDot x)) (ms ++ [⟨a, b, x⟩]) := by
  have hused : p'.used = p.used + 1 := hcreated.used_eq
  have hrows : (p'.modify p.used (addDot x)).liveRows = p.liveRows ++ [⟨0 + x, 0, a, b⟩] := by
    rw [Pool.liveRows_modify, hcreated.liveRows_eq, ← Pool.length_liveRows, modify_concat_length]
    rfl
  have hnumber : p.used.toUInt32.toNat = p.used :=
    Index.toNat_toUInt32 (hroom.trans_le h.capacity_le)
  refine ⟨?_, Pool.tidy_modify hcreated.tidy (by omega) _, ?_, fun row hmem => ?_, fun m hm => ?_⟩
  · show p'.capacity ≤ _
    rw [hcreated.capacity_eq]
    exact h.capacity_le
  · show Keyed _ _ p'.index (p'.modify p.used (addDot x)).liveRows p'.used
    rw [hrows, hused]
    have hlast : (p.liveRows ++ [(⟨0 + x, 0, a, b⟩ : CandidateRow α)])[p.used]?
        = some ⟨0 + x, 0, a, b⟩ := by
      rw [← Pool.length_liveRows, List.getElem?_concat_length]
    have hwritten := hcreated.written
    rw [WordPair.storable_key] at hwritten
    exact (h.keyed.append _ (Pool.length_liveRows p).ge).enter hlast trivial hraw hnumber hwritten
  · rw [hrows] at hmem
    rcases List.mem_append.mp hmem with hold | hnew
    · obtain ⟨hlt, hdot, m, hm, hwords⟩ := h.row_eq row hold
      exact ⟨hlt, by rw [totalOf_concat_of_ne (h.words_ne hraw hold), hdot], m, List.mem_append_left _ hm,
        hwords⟩
    · rw [List.mem_singleton.mp hnew]
      refine ⟨hab, ?_, _, List.mem_append_right _ List.mem_cons_self, rfl, rfl⟩
      rw [totalOf_concat, if_pos ⟨rfl, rfl⟩, h.totalOf_eq_zero hraw]
  · rw [hrows]
    rcases List.mem_append.mp hm with hm | hm
    · obtain ⟨row, hmem, hwords⟩ := h.exists_row m hm
      exact ⟨row, List.mem_append_left _ hmem, hwords⟩
    · rw [List.mem_singleton.mp hm]
      exact ⟨_, List.mem_append_right _ List.mem_cons_self, rfl, rfl⟩

theorem Gathered.addProduct (h : Gathered p ms) (hab : a < b)
    (hrun : CandidatePool.addProduct a b x p = .ok () p') : Gathered p' (ms ++ [⟨a, b, x⟩]) := by
  have hkey := WordPair.storable_key (.of a b)
  rcases Pool.findOrCreate_cases h.keyed.sound h.tidy (WordPair.of a b).key
      (fun row : CandidateRow α => { row with wordA := a, wordB := b }) with
    ⟨slot, hraw, -, -, hfind⟩ | ⟨p₁, hraw, hroom, hfind, hcreated⟩ | ⟨e, p₁, hfind, -⟩
  · simp only [CandidatePool.addProduct, hfind] at hrun
    cases hrun
    rw [hkey] at hraw
    obtain ⟨-, row, hrow, -, hrowKey⟩ := h.keyed.live _ slot hraw
    obtain ⟨hlt, -⟩ := h.row_eq row (List.mem_of_getElem? hrow)
    obtain ⟨rfl, rfl⟩ := CandidateRow.words_eq_of_key_eq hlt hab hrowKey
    exact h.add_old hrow
  · simp only [CandidatePool.addProduct, hfind] at hrun
    cases hrun
    rw [hkey] at hraw
    rw [Index.toNat_toUInt32 (hroom.trans_le h.capacity_le)]
    exact h.add_new hab hroom hraw hcreated
  · simp only [CandidatePool.addProduct, hfind] at hrun
    cases hrun

end CandidatePool

/-! ### The stage -/

namespace Similarity

open CandidatePool

variable {sections : SectionPool α} {w w' : Similarity α} {ms : List (Meeting α)}
  {row : SectionRow α}

/-- Two sections that come together add their meeting, if they have one. -/
theorem meet_eq_ok (h : w.candidates.Gathered ms) {other : ℕ}
    (hrun : meet sections row other w = .ok () w') :
    w'.norms = w.norms ∧ w'.heads = w.heads ∧ w'.next = w.next
      ∧ w'.candidates.Gathered (ms ++ ((sections.row? other).bind (meeting? row)).toList) := by
  obtain ⟨norms, heads, next, candidates⟩ := w
  cases hother : sections.row? other with
  | none =>
    simp only [meet, hother] at hrun
    cases hrun
    exact ⟨rfl, rfl, rfl, by simpa using h⟩
  | some row' =>
    simp only [meet, hother] at hrun
    rw [Option.bind_some, meeting?]
    by_cases hlt : row.word < row'.word
    · simp only [if_pos hlt, onCandidates] at hrun
      cases hadd : addProduct row.word row'.word (row.count * row'.count) candidates with
      | error e candidates' =>
        rw [hadd] at hrun
        cases hrun
      | ok _ candidates' =>
        rw [hadd] at hrun
        cases hrun
        rw [if_pos hlt]
        exact ⟨rfl, rfl, rfl, h.addProduct hlt hadd⟩
    · rw [if_neg hlt] at hrun
      cases hrun
      rw [if_neg hlt]
      exact ⟨rfl, rfl, rfl, by simpa using h⟩

/-- A section that meets the sections of a list adds its meetings with them. -/
theorem forM_meet_eq_ok (h : w.candidates.Gathered ms) {others : List ℕ}
    (hrun : others.forM (meet sections row) w = .ok () w') :
    w'.norms = w.norms ∧ w'.heads = w.heads ∧ w'.next = w.next ∧ w'.candidates.Gathered
      (ms ++ (others.filterMap sections.row?).filterMap (meeting? row)) := by
  refine forM_ok_induction (P := fun done (t : Similarity α) =>
    t.norms = w.norms ∧ t.heads = w.heads ∧ t.next = w.next ∧ t.candidates.Gathered
      (ms ++ (done.filterMap sections.row?).filterMap (meeting? row)))
    hrun ⟨rfl, rfl, rfl, by simpa using h⟩ ?_
  intro done other rest t t' _ hdone hstep
  obtain ⟨hnorms, hheads, hnext, hgathered⟩ := hdone
  obtain ⟨hnorms', hheads', hnext', hgathered'⟩ := meet_eq_ok hgathered hstep
  refine ⟨hnorms'.trans hnorms, hheads'.trans hheads, hnext'.trans hnext, ?_⟩
  rw [List.filterMap_append, List.filterMap_append, ← List.append_assoc]
  cases hother : sections.row? other with
  | none => simpa [hother] using hgathered'
  | some row' =>
    rw [hother] at hgathered'
    cases hmeeting : meeting? row row' <;> simpa [hother, hmeeting] using hgathered'

variable {k : ℕ}

/-- A section meets the live sections of its disjunct. -/
theorem addProducts_eq_ok (hlinked : Linked sections w sections.used)
    (hcapacity : sections.capacity ≤ maxPoolCapacity.toNat) (hnext : sections.used ≤ w.next.size)
    (h : w.candidates.Gathered ((liveTo sections k).flatMap (meetingsWith (live sections))))
    (hk : k < sections.used) (hrun : addProducts sections k w = .ok () w') :
    w'.norms = w.norms ∧ w'.heads = w.heads ∧ w'.next = w.next ∧ w'.candidates.Gathered
      ((liveTo sections (k + 1)).flatMap (meetingsWith (live sections))) := by
  cases hrow : liveRow? sections k with
  | none =>
    simp only [addProducts, hrow] at hrun
    cases hrun
    rw [liveTo_succ_of_none hk hrow]
    exact ⟨rfl, rfl, rfl, h⟩
  | some row =>
    have hwalk := hlinked.walk_eq (sections.used_le_capacity.trans hcapacity) hnext row.disjunct
    simp only [addProducts, hrow, hwalk] at hrun
    cases hmeet : (chain sections (Key.storable row.disjunct) sections.used).forM
        (meet sections row) w with
    | error e t =>
      rw [hmeet] at hrun
      cases hrun
    | ok _ t =>
      rw [hmeet] at hrun
      cases hrun
      obtain ⟨hnorms, hheads, hnext', hgathered⟩ := forM_meet_eq_ok h hmeet
      -- the chain is newest first, and the order of meetings does not matter
      have hperm := filterMap_chain_perm row.chainKey (le_refl sections.used)
      rw [liveTo_used] at hperm
      refine ⟨hnorms, hheads, hnext', hgathered.perm ?_⟩
      rw [liveTo_succ_of_some hk hrow, List.flatMap_append, List.flatMap_singleton]
      exact (hperm.filterMap _).append_left _

/-- After the stage of products, the meetings of the live sections are gathered. -/
theorem computeProducts_eq_ok {s s' : Logged (Similarity α)}
    (hlinked : Linked sections s.state sections.used)
    (hcapacity : sections.capacity ≤ maxPoolCapacity.toNat)
    (hnext : sections.used ≤ s.state.next.size) (hstart : s.state.candidates.Gathered [])
    (h : computeProducts sections s = .ok () s') :
    s'.state.norms = s.state.norms ∧ s'.state.heads = s.state.heads
      ∧ s'.state.candidates.Gathered (meetings (live sections)) := by
  obtain ⟨_, _, hrun, hpure⟩ := Stage.bind_eq_ok_iff.mp h
  cases hpure
  obtain ⟨hloop, -⟩ := dispatch_eq_ok_iff.mp hrun
  have hall := mapM_range_ok_induction (P := fun k _ (w : Similarity α) =>
      w.norms = s.state.norms ∧ w.heads = s.state.heads ∧ w.next = s.state.next
        ∧ w.candidates.Gathered ((liveTo sections k).flatMap (meetingsWith (live sections))))
    hloop ⟨rfl, rfl, rfl, hstart⟩ ?_
  · rw [liveTo_used] at hall
    exact ⟨hall.1, hall.2.1, hall.2.2.2⟩
  · intro k _ w _ w' hk hdone hstep
    obtain ⟨hnorms, hheads, hnext', hgathered⟩ := hdone
    have hlinked' := hlinked.congr hheads hnext'
    obtain ⟨hnorms', hheads', hnext'', hgathered'⟩ :=
      addProducts_eq_ok hlinked' hcapacity (hnext' ▸ hnext) hgathered hk hstep
    exact ⟨hnorms'.trans hnorms, hheads'.trans hheads, hnext''.trans hnext', hgathered'⟩

end Similarity

end CorpusStats
