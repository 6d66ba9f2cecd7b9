import CorpusStats.Engine.Call
import CorpusStats.Proofs.Batch.Lists
import CorpusStats.Proofs.Loops
/-!
# CorpusStats.Proofs.Engine.EdgeOrder

An edge joins two positions, and has neither a direction nor a place among the edges.

Lists hold the same edges (`SameEdges`) if one is the other in another order, any of its edges
written from its other end. What a batch reads off an edge is the same from both ends, so all that
it reads off such lists is the same up to order (`SameEdges.map_perm`): which edges and which degrees
are accepted (`SameEdges.isSound_iff`), and the connectors of a position
(`Parses.connectors_perm`). Connectors are hashed in a fixed order, so both batches have the same
sections at the same positions, and extracting either is one and the same stage
(`SectionPool.extract_eq_of_sectionAt?`).
-/

namespace CorpusStats

variable {α κ : Type}

/-- `edges'` are `edges` in another order, any of them written from its other end. -/
def SameEdges (edges edges' : List Edge) : Prop :=
  ∃ turned, List.Forall₂ (fun e e' : Edge => e' = e ∨ e' = e.swap) edges turned
    ∧ turned.Perm edges'

/-! ### Edges and their other ends -/

theorem Edge.otherEnd?_swap (position : UInt32) (e : Edge) :
    Edge.otherEnd? position e.swap = Edge.otherEnd? position e := by
  obtain ⟨first, second⟩ := e
  simp only [Edge.otherEnd?, Prod.swap_prod_mk]
  by_cases hfirst : first = position <;> by_cases hsecond : second = position <;>
    simp [hfirst, hsecond]

namespace SameEdges

variable {edges edges' : List Edge}

/-- What is the same from both ends of an edge is the same list for both, up to order. -/
theorem map_perm (h : SameEdges edges edges') {f : Edge → κ} (hf : ∀ e, f e.swap = f e) :
    (edges.map f).Perm (edges'.map f) := by
  obtain ⟨turned, hturned, hperm⟩ := h
  have hmap : edges.map f = turned.map f := by
    clear hperm
    induction hturned with
    | nil => rfl
    | @cons e e' edges turned he _ ih =>
      have hhead : f e' = f e := by
        rcases he with rfl | rfl
        · rfl
        · exact hf e
      rw [List.map_cons, List.map_cons, hhead, ih]
  rw [hmap]
  exact hperm.map f

theorem length_eq (h : SameEdges edges edges') : edges.length = edges'.length := by
  simpa using (h.map_perm (f := fun _ => ()) fun _ => rfl).length_eq

theorem filterMap_perm (h : SameEdges edges edges') {f : Edge → Option κ}
    (hf : ∀ e, f e.swap = f e) : (edges.filterMap f).Perm (edges'.filterMap f) := by
  have hperm := (h.map_perm hf).filterMap id
  rwa [List.filterMap_map, List.filterMap_map] at hperm

theorem forall_iff (h : SameEdges edges edges') {p : Edge → Prop} (hp : ∀ e, p e.swap ↔ p e) :
    (∀ e ∈ edges, p e) ↔ ∀ e ∈ edges', p e := by
  have hperm := h.map_perm fun e => propext (hp e)
  have hforall (edges : List Edge) : (∀ e ∈ edges, p e) ↔ ∀ q ∈ edges.map p, q := by
    rw [List.forall_mem_map]
  rw [hforall, hforall]
  exact forall_congr' fun q => by rw [hperm.mem_iff]

/-- An edge adds to the degree of a position as often as it ends there. -/
theorem degree_eq (h : SameEdges edges edges') (position : UInt32) :
    Parses.degree edges position = Parses.degree edges' position := by
  have hsum (edges : List Edge) : Parses.degree edges position = (edges.map fun e =>
      (if e.1 = position then 1 else 0) + if e.2 = position then 1 else 0).sum := by
    induction edges with
    | nil => rfl
    | cons e edges ih =>
      rw [List.map_cons, List.sum_cons, ← ih, Parses.degree, List.countP_cons, List.countP_cons,
        Parses.degree]
      simp only [decide_eq_true_iff]
      omega
  rw [hsum, hsum]
  exact (h.map_perm fun e => Nat.add_comm _ _).sum_eq

/-- Both lists of edges are accepted for a sentence, or neither is. -/
theorem isSound_iff (h : SameEdges edges edges') (length : UInt32) :
    Parses.IsSound length edges ↔ Parses.IsSound length edges' := by
  have hcrowded : Parses.crowded? edges length = Parses.crowded? edges' length := by
    simp only [Parses.crowded?, h.degree_eq]
  rw [Parses.IsSound, Parses.IsSound, hcrowded]
  refine and_congr_left' (h.forall_iff fun e => ?_)
  simp only [Prod.fst_swap, Prod.snd_swap]
  constructor <;>
  · rintro ⟨hfirst, hsecond, hne⟩
    exact ⟨hsecond, hfirst, hne.symm⟩

end SameEdges

/-! ### Batches with the same edges -/

/-- As many sentences have as many edges. -/
theorem length_flatten_of_sameEdges {edges edges' : List (List Edge)}
    (h : List.Forall₂ SameEdges edges edges') :
    edges'.flatten.length = edges.flatten.length := by
  have hlengths : edges'.map List.length = edges.map List.length := by
    induction h with
    | nil => rfl
    | cons hhead _ ih => rw [List.map_cons, List.map_cons, hhead.length_eq, ih]
  rw [List.length_flatten, List.length_flatten, hlengths]

namespace Parses

variable {b b' : Parses} {s : ℕ}

/-- A position is linked to the same words on the same sides. -/
theorem connectors_perm (hsentences : b.sentences = b'.sentences)
    (h : SameEdges (b.edges s) (b'.edges s)) (position : UInt32) :
    (b.connectors s position).Perm (b'.connectors s position) := by
  rw [connectors, connectors, hsentences]
  exact h.filterMap_perm fun e => by rw [Edge.otherEnd?_swap]

theorem section?_eq_of_sameEdges (hsentences : b.sentences = b'.sentences)
    (h : SameEdges (b.edges s) (b'.edges s)) (i : ℕ) : b.section? s i = b'.section? s i := by
  have hperm := connectors_perm hsentences h i.toUInt32
  rw [section?, section?, hperm.isEmpty_eq, hsentences, Disjunct.hash, Disjunct.hash,
    Disjunct.arrange_eq_of_perm hperm]

section OfLists

variable {sentences : List (List UInt32)} {edges edges' : List (List Edge)}

theorem sentences_eq_of_ofLists (hb : ofLists sentences edges = .ok b)
    (hb' : ofLists sentences edges' = .ok b') : b.sentences = b'.sentences := by
  obtain ⟨-, hsentences, -⟩ := ofLists_eq_ok_iff.mp hb
  obtain ⟨-, hsentences', -⟩ := ofLists_eq_ok_iff.mp hb'
  exact Except.ok.inj (hsentences.symm.trans hsentences')

variable (hsame : List.Forall₂ SameEdges edges edges')
  (hfits : edges.flatten.length ≤ maxPositions)
include hsame hfits

/-- What is kept of both families are the same edges. -/
theorem sameEdges_keptEdges {s : ℕ} (hs : s < edges.length) :
    SameEdges (keptEdges edges s) (keptEdges edges' s) := by
  have hs' : s < edges'.length := hsame.length_eq ▸ hs
  have hfits' : edges'.flatten.length ≤ maxPositions :=
    (length_flatten_of_sameEdges hsame).trans_le hfits
  rw [keptEdges_eq hs ((lengthBefore_add_le hs).trans hfits),
    keptEdges_eq hs' ((lengthBefore_add_le hs').trans hfits')]
  exact hsame.get hs hs'

/-- Both families make a batch, or neither does. -/
theorem exists_ofLists_iff_of_sameEdges :
    (∃ b, ofLists sentences edges = .ok b) ↔ ∃ b', ofLists sentences edges' = .ok b' := by
  rw [exists_ofLists_iff, exists_ofLists_iff, hsame.length_eq]
  refine and_congr_right fun hlength => and_congr_right fun _ => forall₂_congr fun s hs => ?_
  refine (sameEdges_keptEdges hsame hfits ?_).isSound_iff _
  rwa [hsame.length_eq, ← hlength]

/-- Both batches have the same section at every flat position, and none at the same ones. -/
theorem sectionAt?_eq_of_sameEdges (hb : ofLists sentences edges = .ok b)
    (hb' : ofLists sentences edges' = .ok b') (locator : Locator) (i : ℕ) :
    b.sectionAt? locator i = b'.sectionAt? locator i := by
  have hsentences := sentences_eq_of_ofLists hb hb'
  obtain ⟨hlength, hlists, -⟩ := ofLists_eq_ok_iff.mp hb
  rw [sectionAt?, sectionAt?, ← hsentences]
  cases hs : locator.locate b.sentences i.toUInt32 with
  | none => rfl
  | some s =>
    have hcount : s < edges.length := by
      rw [← hlength, ← Sentences.count_ofLists hlists]
      exact (locator.locate_eq_some_iff.mp hs).1
    have hkept := sameEdges_keptEdges hsame hfits hcount
    rw [← edges_ofLists hb hcount, ← edges_ofLists hb' (hsame.length_eq ▸ hcount)] at hkept
    exact section?_eq_of_sameEdges hsentences hkept _

end OfLists

end Parses

variable [Weight α]

/-- Batches that agree in the section of every position are extracted by the same stage. -/
theorem SectionPool.extract_eq_of_sectionAt? {b b' : Parses} {locator : Locator}
    (hsentences : b.sentences = b'.sentences)
    (h : ∀ i, b.sectionAt? locator i = b'.sectionAt? locator i) :
    (extract b locator : Stage (Logged (SectionPool α)) ExtractReport) = extract b' locator := by
  have hloop : ((List.range b.sentences.totalWords).mapM (extractPosition b locator)
        : Stage (SectionPool α) (List (Option Bool)))
      = (List.range b.sentences.totalWords).mapM (extractPosition b' locator) := by
    refine mapM_congr_mem fun i hi => ?_
    rw [List.mem_range] at hi
    rw [extractPosition_eq hi, extractPosition_eq (hsentences ▸ hi), h]
  unfold extract dispatch
  rw [hloop, hsentences]

namespace Engine

/-- **The order and the direction of edges make no difference.** If two families of edges hold the
same edges sentence by sentence, with no more edges than a batch may have words, then they both make
parses of the sentences or neither does. The parses are extracted alike: from every engine, whatever
its state, both give the same answer or the same failure and leave the same engine. -/
theorem edges_have_neither_order_nor_direction {sentences : List (List UInt32)}
    {edges edges' : List (List Edge)} (hsame : List.Forall₂ SameEdges edges edges')
    (hfits : edges.flatten.length ≤ maxPositions) :
    ((∃ b, Parses.ofLists sentences edges = .ok b)
        ↔ ∃ b', Parses.ofLists sentences edges' = .ok b')
      ∧ ∀ b b', Parses.ofLists sentences edges = .ok b →
        Parses.ofLists sentences edges' = .ok b' → ∀ e : Engine α,
          perform (.extractSections b) e = perform (.extractSections b') e := by
  refine ⟨Parses.exists_ofLists_iff_of_sameEdges hsame hfits, fun b b' hb hb' e => ?_⟩
  have hsentences := Parses.sentences_eq_of_ofLists hb hb'
  rw [perform, perform, extractSections_eq_onStore, extractSections_eq_onStore, hsentences,
    SectionPool.extract_eq_of_sectionAt? hsentences
      (Parses.sectionAt?_eq_of_sameEdges hsame hfits hb hb' .linear)]

/-- A cycle through three words with one of its edges twice. The first word meets its neighbours in
another order. -/
theorem edges_have_neither_order_nor_direction_cycle :
    ∃ b b' : Parses, Parses.ofLists [[3, 1, 2]] [[(0, 1), (1, 2), (2, 0), (0, 1)]] = .ok b
      ∧ Parses.ofLists [[3, 1, 2]] [[(0, 2), (1, 0), (0, 1), (2, 1)]] = .ok b'
      ∧ b.connectors 0 0 ≠ b'.connectors 0 0
      ∧ ∀ e : Engine ℚ, perform (.extractSections b) e = perform (.extractSections b') e := by
  let b : Parses := ⟨⟨#[3, 1, 2], #[0], #[3], by decide⟩, #[0, 1, 2, 0], #[1, 2, 0, 1], #[0], #[4],
    by decide⟩
  let b' : Parses := ⟨⟨#[3, 1, 2], #[0], #[3], by decide⟩, #[0, 1, 0, 2], #[2, 0, 1, 1], #[0], #[4],
    by decide⟩
  have hsame : SameEdges [(0, 1), (1, 2), (2, 0), (0, 1)] [(0, 2), (1, 0), (0, 1), (2, 1)] :=
    ⟨[(1, 0), (2, 1), (0, 2), (0, 1)], by simp, by decide⟩
  have hb : Parses.ofLists [[3, 1, 2]] [[(0, 1), (1, 2), (2, 0), (0, 1)]] = .ok b := by decide
  have hb' : Parses.ofLists [[3, 1, 2]] [[(0, 2), (1, 0), (0, 1), (2, 1)]] = .ok b' := by decide
  exact ⟨b, b', hb, hb', by decide,
    (edges_have_neither_order_nor_direction (.cons hsame .nil) (by simp [maxPositions])).2 b b' hb hb'⟩

end Engine

end CorpusStats
