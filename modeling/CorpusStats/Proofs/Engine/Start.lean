import CorpusStats.Engine.Call
import CorpusStats.Proofs.Lift
import CorpusStats.Proofs.Pool
/-!
# CorpusStats.Proofs.Engine.Start

Where runs start.

* A **new engine** has blank pools of the configured sizes (`Engine.New`), which leave the
  two reserved slot numbers free. A reset engine has blank pools of the sizes it had.
-/

namespace CorpusStats

open Stage

variable {α : Type} [Weight α]

/-- A configuration small enough to compute runs with. -/
def Config.tiny : Config := ⟨⟨4, 8, 4, 8, 4, 8, 8, 4, 8⟩, ⟨0, .linear, 64, 2⟩⟩

/-- A pool with its index has no fault if it is neither empty nor too large and its index is a
power of two that is not smaller. -/
theorem Capacities.poolFault?_eq_none_iff {name : String} {pool index : UInt64} :
    poolFault? name pool index = none ↔ pool ≠ 0 ∧ ¬ maxPoolCapacity < pool
      ∧ index.toNat.isPowerOfTwo ∧ ¬ index < pool := by
  unfold poolFault?
  split_ifs <;> simp_all

theorem except_bind_eq_ok_iff {ε γ δ : Type} {x : Except ε γ} {f : γ → Except ε δ} {d : δ} :
    x >>= f = .ok d ↔ ∃ c, x = .ok c ∧ f c = .ok d := by
  cases x <;> simp [bind, Except.bind]

theorem Similarity.ofCapacities_eq_ok_iff {words sections disjuncts candidates candidateIndex : ℕ}
    {w : Similarity α} :
    ofCapacities words sections disjuncts candidates candidateIndex = .ok w ↔
      ∃ heads, Index.ofCapacity "disjunct index" disjuncts = .ok heads
        ∧ ∃ pool, Pool.ofCapacity "candidate" candidates candidateIndex = .ok pool
          ∧ ⟨Array.replicate words 0, heads, Array.replicate sections Index.unset, pool⟩ = w := by
  unfold ofCapacities
  simp only [except_bind_eq_ok_iff, pure, Except.pure, Except.ok.injEq]

namespace Engine

theorem after_eq (e : Engine α) (call : Call α) : after e call = (outcome (perform call) e).2 := by
  unfold after outcome
  cases perform call e <;> rfl

theorem run_keeps {P : Engine α → Prop} {calls : List (Call α)}
    (hcalls : ∀ call ∈ calls, Keeps P (perform call)) {e : Engine α} (h : P e) :
    P (run calls e) := by
  induction calls generalizing e with
  | nil => exact h
  | cons call calls ih =>
    rw [run_cons, after_eq]
    exact ih (fun c hc => hcalls c (List.mem_cons_of_mem _ hc)) (hcalls call List.mem_cons_self e h)

/-- Where runs start: at a new engine, or at one that was just reset. -/
def IsStart (e : Engine α) : Prop :=
  (∃ config, ofConfig config = .ok e) ∨ ∃ e₀, e = after e₀ .reset

/-! ### New engines -/

/-- An engine that has not been asked anything. -/
structure New (config : Config) (e : Engine α) : Prop where
  valid : config.fault? = none
  words : e.store.tally.words.Blank
  capacity_words : e.store.tally.words.capacity = config.capacities.wordPool.toNat
  pairs : e.store.tally.pairs.Blank
  capacity_pairs : e.store.tally.pairs.capacity = config.capacities.pairPool.toNat
  total_eq : e.store.tally.total = 0
  sections : e.store.sections.Blank
  capacity_sections : e.store.sections.capacity = config.capacities.sectionPool.toNat
  size_next : e.store.similarity.next.size = config.capacities.sectionPool.toNat
  capacity_candidates :
    e.store.similarity.candidates.capacity = config.capacities.candidatePool.toNat

/-- An engine can be made and has a property, if computing says so. -/
theorem exists_ofConfig_of_mem (config : Config) {P : Engine α → Prop}
    (h : ∃ e ∈ (ofConfig config : Except Error (Engine α)).toOption, P e) :
    ∃ e, ofConfig config = .ok e ∧ P e := by
  obtain ⟨e, hmem, he⟩ := h
  cases hconfig : (ofConfig config : Except Error (Engine α)) with
  | ok e' =>
    rw [hconfig] at hmem
    cases hmem
    exact ⟨e, rfl, he⟩
  | error error =>
    rw [hconfig] at hmem
    cases hmem

/-- The parts that an engine is made of. -/
theorem parts_of_ofConfig {config : Config} {e : Engine α} (h : ofConfig config = .ok e) :
    ∃ words pairs sections similarity, config.fault? = none
      ∧ Pool.ofCapacity "word" config.capacities.wordPool.toNat config.capacities.wordIndex.toNat
        = .ok words
      ∧ Pool.ofCapacity "pair" config.capacities.pairPool.toNat config.capacities.pairIndex.toNat
        = .ok pairs
      ∧ Pool.ofCapacity "section" config.capacities.sectionPool.toNat
        config.capacities.sectionIndex.toNat = .ok sections
      ∧ Similarity.ofCapacities config.capacities.wordPool.toNat
        config.capacities.sectionPool.toNat config.capacities.disjunctIndex.toNat
        config.capacities.candidatePool.toNat config.capacities.candidateIndex.toNat
        = .ok similarity
      ∧ e = ⟨config, ⟨words, pairs, 0⟩, sections, similarity, .empty⟩ := by
  unfold ofConfig Store.ofSizes at h
  simp only [except_bind_eq_ok_iff, pure, Except.pure, Except.ok.injEq] at h
  obtain ⟨_, hvalid, _, ⟨words, hwords, pairs, hpairs, sections, hsections, similarity,
    hsimilarity, rfl⟩, rfl⟩ := h
  have hvalid' : config.fault? = none := by
    unfold Config.validate at hvalid
    split at hvalid
    · assumption
    · cases hvalid
  exact ⟨words, pairs, sections, similarity, hvalid', hwords, hpairs, hsections, hsimilarity, rfl⟩

theorem new_of_ofConfig {config : Config} {e : Engine α} (h : ofConfig config = .ok e) :
    e.New config := by
  obtain ⟨words, pairs, sections, similarity, hvalid, hwords, hpairs, hsections, hsimilarity,
    rfl⟩ := parts_of_ofConfig h
  obtain ⟨heads, -, candidates, hcandidates, rfl⟩ :=
    Similarity.ofCapacities_eq_ok_iff.mp hsimilarity
  have hw := Pool.blank_of_ofCapacity hwords
  have hp := Pool.blank_of_ofCapacity hpairs
  have hs := Pool.blank_of_ofCapacity hsections
  exact ⟨hvalid, hw.1, hw.2, hp.1, hp.2, rfl, hs.1, hs.2, Array.size_replicate,
    (Pool.blank_of_ofCapacity hcandidates).2⟩

/-- The pools of a new engine are new pools of the configured sizes. -/
theorem pools_of_ofConfig {config : Config} {e : Engine α} (h : ofConfig config = .ok e) :
    Pool.ofCapacity "word" config.capacities.wordPool.toNat config.capacities.wordIndex.toNat
        = .ok e.store.tally.words
      ∧ Pool.ofCapacity "pair" config.capacities.pairPool.toNat config.capacities.pairIndex.toNat
        = .ok e.store.tally.pairs
      ∧ Pool.ofCapacity "section" config.capacities.sectionPool.toNat
        config.capacities.sectionIndex.toNat = .ok e.store.sections := by
  obtain ⟨_, _, _, _, -, hwords, hpairs, hsections, -, rfl⟩ := parts_of_ofConfig h
  exact ⟨hwords, hpairs, hsections⟩

/-- The working state of the similarity pass of a new engine is new. -/
theorem similarity_of_ofConfig {config : Config} {e : Engine α} (h : ofConfig config = .ok e) :
    Similarity.ofCapacities config.capacities.wordPool.toNat config.capacities.sectionPool.toNat
      config.capacities.disjunctIndex.toNat config.capacities.candidatePool.toNat
      config.capacities.candidateIndex.toNat = .ok e.store.similarity := by
  obtain ⟨_, _, _, _, -, -, -, -, hsimilarity, rfl⟩ := parts_of_ofConfig h
  exact hsimilarity

/-- The log of a new engine is empty. -/
theorem log_of_ofConfig {config : Config} {e : Engine α} (h : ofConfig config = .ok e) :
    e.store.log = .empty := by
  obtain ⟨_, _, _, _, -, -, -, -, -, rfl⟩ := parts_of_ofConfig h
  rfl

/-- The pools of a valid configuration leave the reserved slot numbers free, and their indexes
have a slot for every slot of the pool. -/
theorem New.pool_bounds {config : Config} {e : Engine α} (h : e.New config) {name : String}
    {pool index : UInt64} (hmem : (name, pool, index) ∈ config.capacities.pools) :
    pool.toNat ≤ maxPoolCapacity.toNat ∧ pool.toNat ≤ index.toNat := by
  have hvalid := h.valid
  rw [Config.fault?, Option.or_eq_none_iff] at hvalid
  have hfault := List.findSome?_eq_none_iff.mp hvalid.1 _ hmem
  obtain ⟨-, hlarge, -, hsmall⟩ := Capacities.poolFault?_eq_none_iff.mp hfault
  rw [UInt64.lt_iff_toNat_lt, not_lt] at hlarge hsmall
  exact ⟨hlarge, hsmall⟩

theorem New.pool_le {config : Config} {e : Engine α} (h : e.New config) {name : String}
    {pool index : UInt64} (hmem : (name, pool, index) ∈ config.capacities.pools) :
    pool.toNat ≤ maxPoolCapacity.toNat := (h.pool_bounds hmem).1

theorem New.capacities_le {config : Config} {e : Engine α} (h : e.New config) :
    e.store.tally.words.capacity ≤ maxPoolCapacity.toNat
      ∧ e.store.tally.pairs.capacity ≤ maxPoolCapacity.toNat
      ∧ e.store.sections.capacity ≤ maxPoolCapacity.toNat
      ∧ e.store.similarity.candidates.capacity ≤ maxPoolCapacity.toNat := by
  rw [h.capacity_words, h.capacity_pairs, h.capacity_sections, h.capacity_candidates]
  have hpool (entry : String × UInt64 × UInt64) (hmem : entry ∈ config.capacities.pools) :
      entry.2.1.toNat ≤ maxPoolCapacity.toNat := h.pool_le hmem
  simp only [Capacities.pools, List.forall_mem_cons] at hpool
  obtain ⟨hwords, hpairs, hsections, -, hcandidates, -⟩ := hpool
  exact ⟨hwords, hpairs, hsections, hcandidates⟩

end Engine

end CorpusStats
