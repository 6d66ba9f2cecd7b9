import CorpusStats.Proofs.Similarity.Norms
/-!
# CorpusStats.Proofs.Similarity.Chains

The chains of sections as lists.

* `chain` is the list that a chain stands for: the live sections of a disjunct among the first
  `k` slots, newest first. Its links always lead to smaller slots.
* `Linked` says that heads and links of a working state stand for these lists. Linking a
  section puts it in front of one of them (`Linked.join`), and a walk from the head of a
  chain visits its list and comes to an end (`Linked.walk_eq`).
-/

namespace CorpusStats

namespace Similarity

variable {α : Type} [Weight α]

/-- The live sections with the key among the first `k` slots, newest first. -/
def chain (sections : SectionPool α) (key : UInt64) : ℕ → List ℕ
  | 0 => []
  | k + 1 =>
    match liveRow? sections k with
    | some row => if row.chainKey = key then k :: chain sections key k else chain sections key k
    | none => chain sections key k

/-- The link to a list of sections. -/
def linkTo (slots : List ℕ) : UInt32 := (slots.head?.map Nat.toUInt32).getD Index.unset

variable {sections : SectionPool α} {key : UInt64} {k : ℕ} {row : SectionRow α}

/-! ### The lists -/

theorem chain_succ_of_none (hrow : liveRow? sections k = none) :
    chain sections key (k + 1) = chain sections key k := by
  simp only [chain, hrow]

theorem chain_succ_of_some (hrow : liveRow? sections k = some row) :
    chain sections key (k + 1)
      = if row.chainKey = key then k :: chain sections key k else chain sections key k := by
  simp only [chain, hrow]

/-- A chain has the live sections of its disjunct. -/
theorem mem_chain_iff {slot : ℕ} : slot ∈ chain sections key k ↔
    slot < k ∧ ∃ row, liveRow? sections slot = some row ∧ row.chainKey = key := by
  induction k with
  | zero => simp [chain]
  | succ k ih =>
    rw [Nat.lt_succ_iff_lt_or_eq]
    cases hrow : liveRow? sections k with
    | none =>
      rw [chain_succ_of_none hrow, ih]
      refine and_congr_left fun ⟨row, hlive, _⟩ => (or_iff_left ?_).symm
      rintro rfl
      rw [hrow] at hlive
      cases hlive
    | some row =>
      rw [chain_succ_of_some hrow]
      by_cases hkey : row.chainKey = key
      · rw [if_pos hkey, List.mem_cons, ih, or_and_right, or_comm]
        refine or_congr_right (iff_self_and.mpr ?_)
        rintro rfl
        exact ⟨row, hrow, hkey⟩
      · rw [if_neg hkey, ih]
        refine and_congr_left fun ⟨row', hlive, hkey'⟩ => (or_iff_left ?_).symm
        rintro rfl
        rw [hrow] at hlive
        cases hlive
        exact hkey hkey'

theorem lt_of_mem_chain {slot : ℕ} (h : slot ∈ chain sections key k) : slot < k :=
  (mem_chain_iff.mp h).1

/-- A chain has every section once, the newest first. -/
theorem pairwise_chain (sections : SectionPool α) (key : UInt64) (k : ℕ) :
    (chain sections key k).Pairwise (· > ·) := by
  induction k with
  | zero => exact .nil
  | succ k ih =>
    cases hrow : liveRow? sections k with
    | none => rwa [chain_succ_of_none hrow]
    | some row =>
      rw [chain_succ_of_some hrow]
      split
      · exact List.pairwise_cons.mpr ⟨fun _ => lt_of_mem_chain, ih⟩
      · exact ih

theorem length_chain_le_of_lt {n : ℕ} (h : ∀ slot ∈ chain sections key k, slot < n) :
    (chain sections key k).length ≤ n := by
  have hnodup : (chain sections key k).Nodup := (pairwise_chain sections key k).imp fun h => h.ne'
  have hsubset : chain sections key k ⊆ List.range n := fun slot hslot =>
    List.mem_range.mpr (h slot hslot)
  simpa using (hnodup.subperm hsubset).length_le

theorem length_chain_le (sections : SectionPool α) (key : UInt64) (k : ℕ) :
    (chain sections key k).length ≤ k :=
  length_chain_le_of_lt fun _ => lt_of_mem_chain

/-- The rows of a chain are the live rows of its disjunct. -/
theorem filterMap_chain_perm (key : UInt64) (hk : k ≤ sections.used) :
    ((chain sections key k).filterMap sections.row?).Perm
      ((liveTo sections k).filter fun row => row.chainKey = key) := by
  induction k with
  | zero => exact .refl _
  | succ k ih =>
    have ih := ih ((Nat.le_succ k).trans hk)
    cases hrow : liveRow? sections k with
    | none =>
      rw [chain_succ_of_none hrow, liveTo_succ_of_none hk hrow]
      exact ih
    | some row =>
      rw [chain_succ_of_some hrow, liveTo_succ_of_some hk hrow, List.filter_append]
      by_cases hkey : row.chainKey = key
      · rw [if_pos hkey, List.filterMap_cons, (liveRow?_eq_some_iff.mp hrow).1]
        simpa [hkey] using (ih.cons row).trans (List.perm_append_singleton row _).symm
      · rw [if_neg hkey]
        simpa [hkey] using ih

/-- A disjunct has a chain exactly if a live section has it. -/
theorem chain_ne_nil_iff (hk : k ≤ sections.used) (key : UInt64) :
    chain sections key k ≠ [] ↔ ∃ row ∈ liveTo sections k, row.chainKey = key := by
  induction k with
  | zero => simp [chain, liveTo]
  | succ k ih =>
    have ih := ih ((Nat.le_succ k).trans hk)
    cases hrow : liveRow? sections k with
    | none => rw [chain_succ_of_none hrow, liveTo_succ_of_none hk hrow, ih]
    | some row =>
      rw [chain_succ_of_some hrow, liveTo_succ_of_some hk hrow]
      by_cases hkey : row.chainKey = key
      · simp [hkey]
      · simp [hkey, ih]

/-! ### Links -/

/-- Heads and links stand for the chains among the first `k` slots. -/
structure Linked (sections : SectionPool α) (w : Similarity α) (k : ℕ) : Prop where
  sound : w.heads.Sound
  /-- The head of a chain is its newest section. -/
  raw?_eq : ∀ key, w.heads.raw? key = (chain sections key k).head?.map Nat.toUInt32
  /-- The link of a section leads to the sections that were in its chain before it. -/
  next_eq : ∀ slot row, slot < k → liveRow? sections slot = some row →
    w.next[slot]? = some (linkTo (chain sections row.chainKey slot))

namespace Linked

variable {w w' : Similarity α}

theorem of_raw?_eq_none (hsound : w.heads.Sound) (hraw : ∀ key, w.heads.raw? key = none) :
    Linked sections w 0 :=
  ⟨hsound, hraw, fun slot _ hslot => absurd hslot (Nat.not_lt_zero slot)⟩

theorem congr (h : Linked sections w k) (hheads : w'.heads = w.heads) (hnext : w'.next = w.next) :
    Linked sections w' k :=
  ⟨hheads ▸ h.sound, hheads ▸ h.raw?_eq, hnext ▸ h.next_eq⟩

theorem skip (h : Linked sections w k) (hrow : liveRow? sections k = none) :
    Linked sections w (k + 1) := by
  refine ⟨h.sound, fun key => ?_, fun slot row hslot hlive => ?_⟩
  · rw [chain_succ_of_none hrow]
    exact h.raw?_eq key
  · rcases Nat.lt_succ_iff_lt_or_eq.mp hslot with hlt | rfl
    · exact h.next_eq slot row hlt hlive
    · rw [hrow] at hlive
      cases hlive

/-- A section that becomes the head of its chain, with a link to the old head, joins it. -/
theorem join (h : Linked sections w k) (hrow : liveRow? sections k = some row)
    (hk : k < w.next.size)
    (hw : Index.Written w.heads w'.heads row.chainKey (some k.toUInt32))
    (hnext : w'.next = w.next.setIfInBounds k ((w.heads.raw? row.chainKey).getD Index.unset)) :
    Linked sections w' (k + 1) := by
  refine ⟨hw.sound, fun key => ?_, fun slot row' hslot hlive => ?_⟩
  · rw [hw.raw?_eq, chain_succ_of_some hrow]
    by_cases hkey : key = row.chainKey
    · rw [if_pos hkey, if_pos hkey.symm]
      rfl
    · rw [if_neg hkey, if_neg (Ne.symm hkey)]
      exact h.raw?_eq key
  · rw [hnext, Array.getElem?_setIfInBounds]
    rcases Nat.lt_succ_iff_lt_or_eq.mp hslot with hlt | rfl
    · rw [if_neg hlt.ne']
      exact h.next_eq slot row' hlt hlive
    · rw [hrow] at hlive
      cases hlive
      rw [if_pos rfl, if_pos hk, h.raw?_eq]
      rfl

/-! ### Walks -/

omit [Weight α] in
theorem walkFrom_succ {cursor : UInt32} (hcursor : cursor ≠ Index.unset) (steps : ℕ) :
    w.walkFrom (steps + 1) cursor =
      let rest := w.walkFrom steps (w.next.getD cursor.toNat Index.unset)
      ⟨cursor.toNat :: rest.visited, rest.ended⟩ := by
  conv_lhs => unfold walkFrom
  exact if_neg hcursor

/-- A walk from a link to a chain visits its list and comes to an end. -/
theorem walkFrom_eq (h : Linked sections w k) (hk : k ≤ maxPoolCapacity.toNat) {j : ℕ}
    (hj : j ≤ k) {steps : ℕ} (hsteps : (chain sections key j).length ≤ steps) :
    w.walkFrom steps (linkTo (chain sections key j)) = ⟨chain sections key j, true⟩ := by
  -- a link leads to the chain among the slots before it, which is shorter by one
  induction j generalizing steps with
  | zero =>
    unfold walkFrom
    exact if_pos rfl
  | succ j ih =>
    cases hrow : liveRow? sections j with
    | none =>
      rw [chain_succ_of_none hrow] at hsteps ⊢
      exact ih (Nat.le_of_succ_le hj) hsteps
    | some row =>
      rw [chain_succ_of_some hrow] at hsteps ⊢
      by_cases hkey : row.chainKey = key
      · rw [if_pos hkey, List.length_cons] at hsteps
        obtain ⟨steps, rfl⟩ := Nat.exists_eq_add_of_le' (Nat.one_le_of_lt hsteps)
        have hnumber : j.toUInt32.toNat = j := Index.toNat_toUInt32 (hj.trans hk)
        have hset := (Index.not_reserved (hnumber.trans_lt (hj.trans hk))).1
        have hlink := h.next_eq j row hj hrow
        rw [if_pos hkey]
        show w.walkFrom (steps + 1) j.toUInt32 = _
        rw [walkFrom_succ hset, hnumber, Array.getD_eq_getD_getElem?, hlink, hkey, Option.getD_some,
          ih (Nat.le_of_succ_le hj) (Nat.le_of_succ_le_succ hsteps)]
      · rw [if_neg hkey] at hsteps ⊢
        exact ih (Nat.le_of_succ_le hj) hsteps

/-- A look-up of a disjunct leads to its chain. -/
theorem lookup_eq (h : Linked sections w k) (hk : k ≤ maxPoolCapacity.toNat) (disjunct : UInt64) :
    w.heads.lookup disjunct = linkTo (chain sections (Key.storable disjunct) k) := by
  have hraw := h.raw?_eq (Key.storable disjunct)
  rw [linkTo]
  cases hhead : (chain sections (Key.storable disjunct) k).head? with
  | none =>
    rw [hhead] at hraw
    simp only [Index.lookup, hraw, Option.map_none, Option.getD_none]
  | some slot =>
    have hslot := (lt_of_mem_chain (List.mem_of_mem_head? hhead)).trans_le hk
    have hlt : slot.toUInt32.toNat < maxPoolCapacity.toNat := by
      rwa [Index.toNat_toUInt32 hslot]
    rw [hhead] at hraw
    exact Index.lookup_eq_of_raw? hraw hlt

/-- A walk along a chain comes to an end within as many steps as the chain is long. -/
theorem walkFrom_lookup_eq (h : Linked sections w k) (hk : k ≤ maxPoolCapacity.toNat)
    {disjunct : UInt64} {steps : ℕ}
    (hsteps : (chain sections (Key.storable disjunct) k).length ≤ steps) :
    w.walkFrom steps (w.heads.lookup disjunct)
      = ⟨chain sections (Key.storable disjunct) k, true⟩ := by
  rw [h.lookup_eq hk, h.walkFrom_eq hk le_rfl hsteps]

theorem walk_eq (h : Linked sections w k) (hk : k ≤ maxPoolCapacity.toNat)
    (hnext : k ≤ w.next.size) (disjunct : UInt64) :
    w.walk disjunct = ⟨chain sections (Key.storable disjunct) k, true⟩ :=
  h.walkFrom_lookup_eq hk ((length_chain_le _ _ _).trans hnext)

/-- There are as many chains as disjuncts of live sections. -/
theorem disjuncts_eq (h : Linked sections w sections.used) :
    w.disjuncts = ((live sections).map SectionRow.chainKey).toFinset.card := by
  refine h.sound.size_eq_card fun key => ?_
  have hchain := chain_ne_nil_iff (le_refl sections.used) key
  rw [liveTo_used] at hchain
  rw [h.raw?_eq, Option.isSome_map, List.isSome_head?]
  simpa using hchain.symm

end Linked

/-! ### The stage -/

/-- The working state has a link for every live section. -/
def LinksLive (sections : SectionPool α) (w : Similarity α) : Prop :=
  ∀ slot row, slot < sections.used → liveRow? sections slot = some row → slot < w.next.size

theorem LinksLive.of_le {w : Similarity α} (h : sections.used ≤ w.next.size) :
    LinksLive sections w :=
  fun _ _ hslot _ => hslot.trans_le h

theorem link_eq_ok {w w' : Similarity α} (h : Linked sections w k)
    (hk : ∀ row, liveRow? sections k = some row → k < w.next.size)
    {linked : Bool} (hrun : link sections k w = .ok linked w') :
    Linked sections w' (k + 1) ∧ linked = (liveRow? sections k).isSome
      ∧ w'.norms = w.norms ∧ w'.next.size = w.next.size ∧ w'.candidates = w.candidates := by
  obtain ⟨norms, heads, next, candidates⟩ := w
  cases hrow : liveRow? sections k with
  | none =>
    simp only [link, hrow] at hrun
    cases hrun
    exact ⟨h.skip hrow, rfl, rfl, rfl, rfl⟩
  | some row =>
    simp only [link, hrow] at hrun
    cases hpush : Index.pushFront row.disjunct k.toUInt32 heads with
    | error e heads' =>
      rw [hpush] at hrun
      cases hrun
    | ok previous heads' =>
      rw [hpush] at hrun
      cases hrun
      obtain ⟨rfl, hw⟩ := h.sound.replace_eq_ok hpush
      exact ⟨h.join hrow (hk row hrow) hw rfl, rfl, rfl, Array.size_setIfInBounds, rfl⟩

/-- The stage of chains links all live sections and counts them. -/
theorem buildChains_eq_ok {s s' : Logged (Similarity α)} {chained : ℕ}
    (hstart : Linked sections s.state 0) (hlinks : LinksLive sections s.state)
    (h : buildChains sections s = .ok chained s') :
    Linked sections s'.state sections.used ∧ chained = (live sections).length
      ∧ s'.state.norms = s.state.norms ∧ s'.state.next.size = s.state.next.size
      ∧ s'.state.candidates = s.state.candidates := by
  obtain ⟨linked, _, hrun, hpure⟩ := Stage.bind_eq_ok_iff.mp h
  cases hpure
  obtain ⟨hloop, -⟩ := dispatch_eq_ok_iff.mp hrun
  have hall := mapM_range_ok_induction (P := fun k linked (w : Similarity α) =>
      Linked sections w k ∧ linked.countP id = (liveTo sections k).length
        ∧ w.norms = s.state.norms ∧ w.next.size = s.state.next.size
        ∧ w.candidates = s.state.candidates)
    hloop ⟨hstart, rfl, rfl, rfl, rfl⟩ ?_
  · rwa [liveTo_used] at hall
  · intro k done w b w' hk hdone hstep
    obtain ⟨hlinked, hcount, hnorms, hsize, hcandidates⟩ := hdone
    obtain ⟨hlinked', rfl, hnorms', hsize', hcandidates'⟩ :=
      link_eq_ok hlinked (fun row hrow => hsize ▸ hlinks k row hk hrow) hstep
    refine ⟨hlinked', ?_, hnorms'.trans hnorms, hsize'.trans hsize, hcandidates'.trans hcandidates⟩
    rw [List.countP_append, hcount, liveTo_succ hk, List.length_append]
    cases liveRow? sections k <;> rfl

end Similarity

end CorpusStats
