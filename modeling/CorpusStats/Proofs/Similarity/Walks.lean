import CorpusStats.Proofs.Engine.Start
import CorpusStats.Proofs.Similarity.Chains
/-!
# CorpusStats.Proofs.Similarity.Walks

Walks along chains are finite and miss nothing (`chains_complete`).

A link says nothing about how far its chain goes on. That a walk comes to an end rests on the order
in which sections are linked: a section is put in front of the ones linked before it, which have
smaller slots, so links lead downwards. Emptying the working state comes first; a link that an
earlier pass left could lead anywhere.

Disjuncts that are stored under one key share a chain (`LiveUnder`). Keys that share a home in the
index of disjuncts do not.
-/

namespace CorpusStats

namespace Similarity

variable {α : Type} [Weight α]

/-- A section with count whose disjunct is stored under the key. -/
def LiveUnder (sections : SectionPool α) (key : UInt64) (slot : ℕ) : Prop :=
  slot < sections.used ∧ ∃ row, liveRow? sections slot = some row ∧ Key.storable row.disjunct = key

/-- These are the sections on the way from the head of a disjunct to the end of its links. -/
structure WalksOver (sections : SectionPool α) (w : Similarity α) (disjunct : UInt64)
    (visited : List ℕ) : Prop where
  /-- The links come to an end within as many steps as there are sections. -/
  walkFrom_eq : w.walkFrom sections.used (w.heads.lookup disjunct) = ⟨visited, true⟩
  length_le : visited.length ≤ sections.used
  decreasing : visited.Pairwise (· > ·)
  mem_iff : ∀ slot, slot ∈ visited ↔ LiveUnder sections (Key.storable disjunct) slot

/-- The chains of a working state have the live sections, and nothing else. -/
structure ChainsComplete (sections : SectionPool α) (w : Similarity α) : Prop where
  /-- Every live section walks over the sections of its disjunct. -/
  walks : ∀ slot row, slot < sections.used → liveRow? sections slot = some row →
    ∃ visited, WalksOver sections w row.disjunct visited
      -- and that is all that adding its products does, whatever the candidates are by then
      ∧ ∀ candidates, addProducts sections slot { w with candidates }
        = visited.forM (meet sections row) { w with candidates }
  /-- No other key has a chain. -/
  heads_iff : ∀ key, key ∈ w.heads.entries.map Prod.fst ↔ ∃ slot, LiveUnder sections key slot

variable {sections : SectionPool α} {w : Similarity α}

namespace Linked

variable (h : Linked sections w sections.used) (hbound : sections.used ≤ maxPoolCapacity.toNat)

include h hbound in
theorem walksOver (disjunct : UInt64) :
    WalksOver sections w disjunct
      (chain sections (Key.storable disjunct) sections.used) where
  walkFrom_eq := h.walkFrom_lookup_eq hbound (length_chain_le _ _ _)
  length_le := length_chain_le _ _ _
  decreasing := pairwise_chain _ _ _
  mem_iff _ := mem_chain_iff

include h hbound in
/-- A live section meets its chain, link by link. -/
theorem addProducts_eq (hlinks : LinksLive sections w) {slot : ℕ} {row : SectionRow α}
    (hrow : liveRow? sections slot = some row) :
    addProducts sections slot w
      = (chain sections (Key.storable row.disjunct) sections.used).forM (meet sections row) w := by
  have hlength : (chain sections (Key.storable row.disjunct) sections.used).length
      ≤ w.next.size := by
    refine length_chain_le_of_lt fun other hother => ?_
    obtain ⟨hlt, row', hlive, -⟩ := mem_chain_iff.mp hother
    exact hlinks other row' hlt hlive
  have hwalk : w.walk row.disjunct
      = ⟨chain sections (Key.storable row.disjunct) sections.used, true⟩ :=
    h.walkFrom_lookup_eq hbound hlength
  simp only [addProducts, hrow, hwalk]
  cases (chain sections (Key.storable row.disjunct) sections.used).forM (meet sections row) w <;> rfl

include h in
theorem mem_heads_iff (key : UInt64) :
    key ∈ w.heads.entries.map Prod.fst ↔ ∃ slot, LiveUnder sections key slot := by
  rw [h.sound.mem_keys_iff, h.raw?_eq, Option.isSome_map, List.isSome_head?]
  constructor
  · intro hchain
    obtain ⟨slot, hslot⟩ := List.exists_mem_of_ne_nil _ hchain
    exact ⟨slot, mem_chain_iff.mp hslot⟩
  · intro hlive
    obtain ⟨slot, hlive⟩ := hlive
    exact List.ne_nil_of_mem (mem_chain_iff.mpr hlive)

include h hbound in
theorem chainsComplete (hlinks : LinksLive sections w) : ChainsComplete sections w where
  walks slot row _ hrow := by
    refine ⟨_, h.walksOver hbound row.disjunct, fun candidates => ?_⟩
    have h' : Linked sections { w with candidates } sections.used := h.congr rfl rfl
    exact h'.addProducts_eq hbound hlinks hrow
  heads_iff := h.mem_heads_iff

end Linked

/-- **Chains are finite and complete.** When chains were built on a working state that was emptied,
the walk of every live section visits the live sections of its disjunct, each once and from the
newest to the oldest, and comes to an end; and no other disjunct has a chain. -/
theorem chains_complete (sections : SectionPool α) (w : Similarity α) (norms : Array α) (log : Log)
    (hbound : sections.used ≤ maxPoolCapacity.toNat) (hlinks : LinksLive sections w)
    {chained : ℕ} {s : Logged (Similarity α)}
    (h : buildChains sections ⟨{ w.reset with norms }, log⟩ = .ok chained s) :
    ChainsComplete sections s.state ∧ chained = (live sections).length := by
  have hstart : Linked sections { w.reset with norms } 0 :=
    .of_raw?_eq_none (Index.sound_clear _) (Index.raw?_clear _)
  have hreset : LinksLive sections { w.reset with norms } := fun slot row hslot hrow =>
    (hlinks slot row hslot hrow).trans_eq Array.size_replicate.symm
  obtain ⟨hlinked, hchained, -, hnext, -⟩ := buildChains_eq_ok hstart hreset h
  refine ⟨hlinked.chainsComplete hbound fun slot row hslot hrow => ?_, hchained⟩
  exact (hreset slot row hslot hrow).trans_eq hnext.symm

/-- Links that lead in a circle are gone, a section without count is passed over, and two
disjuncts that meet in the index have chains of their own. -/
theorem chains_complete_tangled :
    let calls : List (Call ℚ) :=
      [.sectionSlots [0, 1, 2, 3] [5, 13, 5, 5], .countSections [0, 1, 3]]
    ∃ e : Engine ℚ, Engine.ofConfig .tiny = .ok e ∧
      let sections := (Engine.run calls e).store.sections
      let w : Similarity ℚ := { e.store.similarity with
        next := Array.replicate e.store.similarity.next.size 0 }
      ∃ s, buildChains sections ⟨w.reset, .empty⟩ = .ok 3 s
        ∧ s.state.walkFrom sections.used (s.state.heads.lookup 5) = ⟨[3, 0], true⟩
        ∧ s.state.walkFrom sections.used (s.state.heads.lookup 13) = ⟨[1], true⟩
        ∧ ChainsComplete sections s.state := by
  intro calls
  obtain ⟨e, he, hused, hnext, hchained, hwalks⟩ :=
    Engine.exists_ofConfig_of_mem .tiny (P := fun e : Engine ℚ =>
      let sections := (Engine.run calls e).store.sections
      let w : Similarity ℚ := { e.store.similarity with
        next := Array.replicate e.store.similarity.next.size 0 }
      let built := Stage.outcome (buildChains sections) ⟨w.reset, .empty⟩
      sections.used ≤ maxPoolCapacity.toNat ∧ sections.used ≤ w.next.size
        ∧ built.1.toOption = some 3
        ∧ [5, 13].map (fun disjunct => built.2.state.walkFrom sections.used
            (built.2.state.heads.lookup disjunct)) = [⟨[3, 0], true⟩, ⟨[1], true⟩])
      (by decide +kernel)
  cases hbuilt : buildChains (Engine.run calls e).store.sections ⟨({ e.store.similarity with
      next := Array.replicate e.store.similarity.next.size 0 } : Similarity ℚ).reset, .empty⟩ with
  | error error s =>
    rw [Stage.outcome_of_error hbuilt] at hchained
    cases hchained
  | ok chained s =>
    rw [Stage.outcome_of_ok hbuilt] at hchained hwalks
    cases hchained
    simp only [List.map_cons, List.map_nil, List.cons.injEq, and_true] at hwalks
    refine ⟨e, he, s, hbuilt, hwalks.1, hwalks.2, ?_⟩
    exact (chains_complete _ _ _ _ hused (.of_le hnext) hbuilt).1

end Similarity

end CorpusStats
