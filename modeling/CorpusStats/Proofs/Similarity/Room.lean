import CorpusStats.Proofs.Room
import CorpusStats.Proofs.Similarity.Chains
/-!
# CorpusStats.Proofs.Similarity.Room

How a similarity pass ends (`Similarity.run_cases`). Its four stages fail for one reason each, or
for none.

* Norms are refused for a live section whose word has no norm, and for nothing else.
* Chains always come about. A section takes one slot of the index of disjuncts at most, the
  index starts out cleared, and it has a slot for every section (`exists_buildChains`).
* Products run out of room with the pool of candidates only. Links come to an end, so no walk
  is reported as endless.
* Cosines are a sweep.
-/

namespace CorpusStats

open Stage

variable {α : Type} [Weight α]

/-- Adding a product runs out of room with the pool only. -/
theorem CandidatePool.keepsOr_addProduct (a b : UInt32) (product : α) :
    KeepsOr (Pool.HasRoom (ρ := CandidateRow α))
      (fun e p => p.HasRoom ∧ e.isOverflow = true ∧ p.IsFull) (addProduct a b product) := by
  intro p h
  unfold addProduct
  rcases h.findOrCreate_cases (WordPair.of a b).key
      (fun row : CandidateRow α => { row with wordA := a, wordB := b }) with
    ⟨slot, created, p', hrun, hroom, -⟩ | ⟨e, p', hrun, he, hroom, hfull⟩
  · rw [hrun]
    exact hroom.congr rfl rfl rfl
  · rw [hrun]
    exact ⟨hroom, he, hfull⟩

namespace Similarity

/-- The working state has norms for `n` words, room for candidates, and a slot of the index of
disjuncts for every section. -/
structure HasRoom (sections : SectionPool α) (n : ℕ) (w : Similarity α) : Prop where
  size_norms : w.norms.size = n
  candidates : w.candidates.HasRoom
  heads_le : sections.capacity ≤ w.heads.capacity

variable {sections : SectionPool α} {n : ℕ} {w w₀ : Similarity α}

theorem HasRoom.reset (h : HasRoom sections n w) : HasRoom sections n w.reset :=
  ⟨Array.size_replicate.trans h.size_norms, h.candidates.reset,
    h.heads_le.trans_eq w.heads.capacity_clear.symm⟩

/-! ### Norms -/

/-- `w` is `w₀` with other norms, as many as before. -/
def OtherNorms (w₀ w : Similarity α) : Prop :=
  ∃ norms, w = { w₀ with norms } ∧ norms.size = w₀.norms.size

/-- A section is refused if its word has no norm. -/
theorem keepsOr_addNorm (w₀ : Similarity α) {slot : ℕ} (hslot : slot < sections.used) :
    KeepsOr (OtherNorms w₀) (fun e w => OtherNorms w₀ w ∧ ∃ row ∈ live sections,
      w₀.norms.size ≤ row.word.toNat
        ∧ e = .malformed (.sectionWordBeyond row.word.toNat w₀.norms.size))
      (addNorm sections slot) := by
  intro w h
  obtain ⟨norms, rfl, hsize⟩ := h
  unfold addNorm
  dsimp only
  cases hrow : liveRow? sections slot with
  | none => exact ⟨norms, rfl, hsize⟩
  | some row =>
    dsimp only
    by_cases hword : row.word.toNat < norms.size
    · rw [if_pos hword]
      exact ⟨_, rfl, Array.size_modify.trans hsize⟩
    · rw [if_neg hword, hsize]
      refine ⟨⟨norms, rfl, hsize⟩, row, ?_, hsize ▸ not_lt.mp hword, rfl⟩
      obtain ⟨hmem, hcount⟩ := liveRow?_eq_some_iff.mp hrow
      rw [← Pool.liveRows_getElem? hslot] at hmem
      exact List.mem_filter.mpr ⟨List.mem_of_getElem? hmem, decide_eq_true hcount⟩

theorem lt_of_addNorm {slot : ℕ} {w' : Similarity α} (hrun : addNorm sections slot w = .ok () w')
    {row : SectionRow α} (hrow : liveRow? sections slot = some row) :
    row.word.toNat < w.norms.size := by
  by_contra hword
  simp only [addNorm, hrow, if_neg hword] at hrun
  cases hrun

/-- The stage of norms fails exactly if a live section has a word without norm. -/
theorem computeNorms_cases (sections : SectionPool α) (s : Logged (Similarity α)) :
    (∃ s', computeNorms sections s = .ok () s' ∧ OtherNorms s.state s'.state
        ∧ ∀ row ∈ live sections, row.word.toNat < s.state.norms.size)
      ∨ ∃ row ∈ live sections, s.state.norms.size ≤ row.word.toNat
        ∧ ∃ s', computeNorms sections s
            = .error (.malformed (.sectionWordBeyond row.word.toNat s.state.norms.size)) s'
          ∧ OtherNorms s.state s'.state := by
  have hkeeps := KeepsOr.bind (KeepsOr.dispatch fun slot (hslot : slot ∈ sections.slots) =>
    keepsOr_addNorm s.state (List.mem_range.mp hslot)) fun _ => .pure ()
  have hstart : OtherNorms s.state s.state := ⟨_, rfl, rfl⟩
  cases hrun : computeNorms sections s with
  | ok _ s' =>
    refine .inl ⟨s', rfl, hkeeps.ok hstart hrun, ?_⟩
    obtain ⟨_, _, hdispatch, hpure⟩ := Stage.bind_eq_ok_iff.mp hrun
    cases hpure
    obtain ⟨hloop, -⟩ := dispatch_eq_ok_iff.mp hdispatch
    have hall := mapM_range_ok_induction (P := fun k _ (w : Similarity α) =>
        w.norms.size = s.state.norms.size
          ∧ ∀ row ∈ liveTo sections k, row.word.toNat < s.state.norms.size)
      hloop ⟨rfl, by simp [liveTo]⟩ fun k _ w _ w' hk hdone hstep => ?_
    · rw [liveTo_used] at hall
      exact hall.2
    · obtain ⟨hsize, hwords⟩ := hdone
      obtain ⟨norms, rfl, hsize'⟩ := (keepsOr_addNorm w hk).ok ⟨_, rfl, rfl⟩ hstep
      refine ⟨hsize'.trans hsize, fun row hrow => ?_⟩
      rw [liveTo_succ hk, List.mem_append, Option.mem_toList] at hrow
      rcases hrow with hrow | hrow
      · exact hwords row hrow
      · exact hsize ▸ lt_of_addNorm hstep hrow
  | error e s' =>
    obtain ⟨hother, row, hrow, hbeyond, rfl⟩ := hkeeps.error hstart hrun
    exact .inr ⟨row, hrow, hbeyond, s', rfl, hother⟩

/-! ### Chains -/

/-- Linking a section takes one vacant slot of the index at most. -/
theorem exists_link (sections : SectionPool α) (hsound : w.heads.Sound)
    (hvacant : 0 < w.heads.vacancies) (slot : ℕ) :
    ∃ linked w', link sections slot w = .ok linked w' ∧ w'.heads.Sound
      ∧ w'.heads.capacity = w.heads.capacity ∧ w.heads.vacancies ≤ w'.heads.vacancies + 1 := by
  obtain ⟨norms, heads, next, candidates⟩ := w
  unfold link
  dsimp only at hsound hvacant ⊢
  cases liveRow? sections slot with
  | none => exact ⟨false, _, rfl, hsound, rfl, Nat.le_succ _⟩
  | some row =>
    dsimp only
    cases hraw : heads.raw? (Key.storable row.disjunct) with
    | some head =>
      obtain ⟨heads', hpush, hw, hvacancies⟩ := hsound.replace_of_some hraw fun _ => slot.toUInt32
      refine ⟨true, ⟨norms, heads', next.setIfInBounds slot head, candidates⟩, ?_, hw.sound,
        hw.capacity_eq, hvacancies.ge.trans (Nat.le_succ _)⟩
      rw [Index.pushFront, hpush]
    | none =>
      rcases hsound.replace_of_none hraw fun _ => slot.toUInt32 with
        ⟨hzero, -⟩ | ⟨heads', hpush, hw, hvacancies⟩
      · omega
      · refine ⟨true, ⟨norms, heads', next.setIfInBounds slot Index.unset, candidates⟩, ?_,
          hw.sound, hw.capacity_eq, hvacancies.ge⟩
        rw [Index.pushFront, hpush]

/-- Chains come about if the index of disjuncts has a vacant slot for every section. -/
theorem exists_buildChains (sections : SectionPool α) {s : Logged (Similarity α)}
    (hsound : s.state.heads.Sound) (hvacant : sections.used ≤ s.state.heads.vacancies) :
    ∃ chained s', buildChains sections s = .ok chained s'
      ∧ s'.state.heads.capacity = s.state.heads.capacity := by
  have hloop : ∃ linked w', sections.slots.mapM (link sections) s.state = .ok linked w'
      ∧ w'.heads.Sound ∧ w'.heads.capacity = s.state.heads.capacity
      ∧ sections.used ≤ w'.heads.vacancies + sections.used := by
    refine mapM_range_ok_exists (P := fun k _ (w : Similarity α) => w.heads.Sound
      ∧ w.heads.capacity = s.state.heads.capacity ∧ sections.used ≤ w.heads.vacancies + k)
      ⟨hsound, rfl, hvacant⟩ fun k _ w hk hdone => ?_
    obtain ⟨hsound, hcapacity, hvacant⟩ := hdone
    obtain ⟨b, w', hlink, hsound', hcapacity', hvacant'⟩ :=
      exists_link sections hsound (by omega) k
    exact ⟨b, w', hlink, hsound', hcapacity'.trans hcapacity, by omega⟩
  obtain ⟨linked, w', hloop, -, hcapacity, -⟩ := hloop
  refine ⟨linked.countP id, ⟨w', s.log.start sections.slots.length⟩, ?_, hcapacity⟩
  exact Stage.bind_eq_ok_iff.mpr ⟨linked, _, dispatch_eq_ok_iff.mpr ⟨hloop, rfl⟩, rfl⟩

/-! ### Products -/

section Products

variable {P : Similarity α → Prop} {Q : Error → Similarity α → Prop}
  (hadd : ∀ a b product, KeepsOr P Q (onCandidates (CandidatePool.addProduct a b product)))
include hadd

/-- What adding a product leaves, meeting a section leaves. -/
theorem keepsOr_meet (row : SectionRow α) (other : ℕ) : KeepsOr P Q (meet sections row other) := by
  unfold meet
  cases sections.row? other with
  | none => exact .pure ()
  | some row' =>
    dsimp only
    split
    · exact hadd _ _ _
    · exact .pure ()

/-- A section leaves what its meetings leave, or its walk is reported as endless. -/
theorem keepsOr_addProducts {slot : ℕ} (hendless : ∀ w row, P w →
      (w.walk (row : SectionRow α).disjunct).ended = false →
      ∀ w', P w' → Q (.invalidState (.endlessChain slot)) w') :
    KeepsOr P Q (addProducts sections slot) := by
  intro w h
  unfold addProducts
  cases liveRow? sections slot with
  | none => exact h
  | some row =>
    dsimp only
    have hmeet : KeepsOr P Q ((w.walk row.disjunct).visited.forM (meet sections row)) :=
      .forM fun other _ => keepsOr_meet hadd row other
    cases hrun : (w.walk row.disjunct).visited.forM (meet sections row) w with
    | ok _ w' =>
      have hw' := hmeet.ok h hrun
      dsimp only
      by_cases hended : (w.walk row.disjunct).ended = true
      · rwa [if_pos hended]
      · rw [if_neg hended]
        exact hendless w row h (Bool.not_eq_true _ ▸ hended) w' hw'
    | error e w' => exact hmeet.error h hrun

end Products

/-- `w` is `w₀` with other candidates, which have room. -/
def OtherCandidates (w₀ w : Similarity α) : Prop :=
  ∃ candidates, w = { w₀ with candidates } ∧ candidates.HasRoom

/-- The candidates are full, and that is what the failure says. -/
def RanOut (w₀ : Similarity α) (e : Error) (w : Similarity α) : Prop :=
  OtherCandidates w₀ w ∧ e.isOverflow = true ∧ w.candidates.IsFull

theorem keepsOr_addProduct (a b : UInt32) (product : α) :
    KeepsOr (OtherCandidates w₀) (RanOut w₀)
      (onCandidates (CandidatePool.addProduct a b product)) := by
  intro w h
  obtain ⟨candidates, rfl, hroom⟩ := h
  have hadd := CandidatePool.keepsOr_addProduct a b product
  unfold onCandidates
  dsimp only
  cases hrun : CandidatePool.addProduct a b product candidates with
  | ok _ candidates' => exact ⟨candidates', rfl, hadd.ok hroom hrun⟩
  | error e candidates' =>
    obtain ⟨hroom', he, hfull⟩ := hadd.error hroom hrun
    exact ⟨⟨candidates', rfl, hroom'⟩, he, hfull⟩

/-- Links that stand for chains come to an end. -/
theorem OtherCandidates.ended (hlinked : Linked sections w₀ sections.used)
    (hcapacity : sections.capacity ≤ maxPoolCapacity.toNat)
    (hnext : sections.used ≤ w₀.next.size) (h : OtherCandidates w₀ w) (disjunct : UInt64) :
    (w.walk disjunct).ended = true := by
  obtain ⟨candidates, rfl, -⟩ := h
  have hlinked' : Linked sections { w₀ with candidates } sections.used := hlinked.congr rfl rfl
  rw [hlinked'.walk_eq (sections.used_le_capacity.trans hcapacity) hnext disjunct]

/-- Only candidates can run out. -/
theorem keepsOr_computeProducts (hlinked : Linked sections w₀ sections.used)
    (hcapacity : sections.capacity ≤ maxPoolCapacity.toNat)
    (hnext : sections.used ≤ w₀.next.size) :
    KeepsOr (fun s => OtherCandidates w₀ s.state) (fun e s => RanOut w₀ e s.state)
      (computeProducts sections) :=
  .bind (.dispatch fun slot _ => keepsOr_addProducts keepsOr_addProduct fun w row h hended => by
    rw [h.ended hlinked hcapacity hnext row.disjunct] at hended
    cases hended) fun _ => .pure _

/-! ### The pass -/

omit [Weight α] in
theorem HasRoom.of_otherCandidates (h : HasRoom sections n w₀) (hw : OtherCandidates w₀ w) :
    HasRoom sections n w := by
  obtain ⟨candidates, rfl, hroom⟩ := hw
  exact ⟨h.size_norms, hroom, h.heads_le⟩

theorem HasRoom.computeCosines {s : Logged (Similarity α)} (h : HasRoom sections n s.state) :
    HasRoom sections n (computeCosines s).state := by
  obtain ⟨w, log⟩ := s
  exact foldl_range_induction (P := fun _ w => HasRoom sections n w) h
    fun _ _ _ hw => ⟨hw.size_norms, hw.candidates.congr rfl rfl rfl, hw.heads_le⟩

omit [Weight α] in
theorem HasRoom.of_otherNorms (h : HasRoom sections n w₀) (hw : OtherNorms w₀ w) :
    HasRoom sections n w := by
  obtain ⟨norms, rfl, hsize⟩ := hw
  exact ⟨hsize.trans h.size_norms, h.candidates, h.heads_le⟩

/-- A pass that has its norms comes to its chains too, whatever it was used for before. -/
theorem exists_chained (hfits : Fits sections w) (h : HasRoom sections n w)
    {s : Logged (Similarity α)} (hs : OtherNorms w.reset s.state) :
    ∃ chained s', buildChains sections s = .ok chained s' ∧ HasRoom sections n s'.state
      ∧ Linked sections s'.state sections.used ∧ sections.used ≤ s'.state.next.size := by
  have hroom := h.reset.of_otherNorms hs
  obtain ⟨w', log⟩ := s
  obtain ⟨norms, rfl, -⟩ := hs
  have hlinked : Linked sections { w.reset with norms } 0 :=
    .of_raw?_eq_none (Index.sound_clear _) (Index.raw?_clear _)
  have hvacant : sections.used ≤ w.heads.clear.vacancies := by
    rw [Index.vacancies_clear]
    exact sections.used_le_capacity.trans h.heads_le
  have hnext : sections.used ≤ w.reset.next.size := by
    refine (sections.used_le_capacity.trans hfits.links_le).trans_eq ?_
    exact Array.size_replicate.symm
  obtain ⟨chained, s', hchains, hheads⟩ := exists_buildChains sections
    (s := ⟨{ w.reset with norms }, log⟩) hlinked.sound hvacant
  obtain ⟨hlinked', -, hnorms', hnext', hcandidates'⟩ :=
    buildChains_eq_ok hlinked (.of_le hnext) hchains
  refine ⟨chained, s', hchains, ⟨?_, ?_, hroom.heads_le.trans_eq hheads.symm⟩, hlinked', ?_⟩
  · exact (congrArg Array.size hnorms').trans hroom.size_norms
  · exact hcandidates' ▸ hroom.candidates
  · exact hnext.trans_eq hnext'.symm

/-- A pass is its four stages, on a working state that was reset. -/
theorem run_eq (s : Logged (Similarity α)) : run sections s = ((do
    computeNorms sections
    let chained ← buildChains sections
    computeProducts sections
    modify computeCosines
    let w := (← get).state
    return { chained, disjuncts := w.disjuncts, candidates := w.candidates.used }) :
      Stage (Logged (Similarity α)) SimilarityReport) ⟨s.state.reset, s.log⟩ := rfl

/-- Everything that a pass can do: it answers, it runs out of room for candidates, or it is
refused because the word of a live section has no norm. -/
theorem run_cases {s : Logged (Similarity α)} (hfits : Fits sections s.state)
    (h : HasRoom sections n s.state) :
    ∃ s', HasRoom sections n s'.state
      ∧ ((∀ row ∈ live sections, row.word.toNat < n)
          ∧ ((∃ report, run sections s = .ok report s')
            ∨ ∃ e, run sections s = .error e s' ∧ e.isOverflow = true
              ∧ s'.state.candidates.IsFull)
        ∨ ∃ row ∈ live sections, n ≤ row.word.toNat
          ∧ run sections s = .error (.malformed (.sectionWordBeyond row.word.toNat n)) s') := by
  have hsize := h.reset.size_norms
  rw [run_eq]
  rcases computeNorms_cases sections ⟨s.state.reset, s.log⟩ with
    ⟨s₁, hnorms, hs₁, hwords⟩ | ⟨row, hrow, hbeyond, s₁, hnorms, hs₁⟩
  · rw [hsize] at hwords
    obtain ⟨chained, s₂, hchains, hroom, hlinked, hnext⟩ := exists_chained hfits h hs₁
    have hproducts := keepsOr_computeProducts hlinked hfits.sections_le hnext
    have hstart : OtherCandidates s₂.state s₂.state := ⟨_, rfl, hroom.candidates⟩
    simp only [Bind.bind, EStateM.bind, hnorms, hchains]
    cases hrun : computeProducts sections s₂ with
    | ok _ s₃ =>
      have hroom' := hroom.of_otherCandidates (hproducts.ok hstart hrun)
      exact ⟨_, hroom'.computeCosines, .inl ⟨hwords, .inl ⟨_, rfl⟩⟩⟩
    | error e s₃ =>
      obtain ⟨hother, he, hfull⟩ := hproducts.error hstart hrun
      exact ⟨s₃, hroom.of_otherCandidates hother, .inl ⟨hwords, .inr ⟨e, rfl, he, hfull⟩⟩⟩
  · rw [hsize] at hbeyond hnorms
    simp only [Bind.bind, EStateM.bind, hnorms]
    exact ⟨s₁, h.reset.of_otherNorms hs₁, .inr ⟨row, hrow, hbeyond, rfl⟩⟩

end Similarity

end CorpusStats
