import CorpusStats.Proofs.Engine.Start
/-!
# CorpusStats.Proofs.Engine.Admission

Which configurations an engine can be made from.

* Sizes are checked twice: by the configuration as a whole, and again by every pool and index that
  is made. The first check lets no size through that a later one refuses
  (`Capacities.exists_pool_of_faultless`), so making an engine fails exactly when checking does, and
  with the same error.
* The index of a pool that is not too large has the least power of two that is at least twice the
  pool: twice the pool does not come near the largest word, where doubling stops and the power of
  two above is no word (`toNat_indexFor`).

`Engine.configs_admitted_alike` is both.
-/

namespace CorpusStats

variable {α : Type} [Weight α]

/-! ### Sizes -/

/-- No smaller power of two is at least `n`. -/
theorem isLeast_powerAbove (n : ℕ) : IsLeast {k | k.isPowerOfTwo ∧ n ≤ k} (powerAbove n) := by
  refine ⟨⟨powerAbove_isPowerOfTwo n, le_powerAbove n⟩, ?_⟩
  rintro k ⟨⟨m, rfl⟩, hle⟩
  unfold powerAbove
  split
  · exact Nat.one_le_two_pow
  · rw [Nat.one_shiftLeft]
    exact Nat.pow_le_pow_right (by decide) ((Nat.log2_lt (by omega)).mpr (by omega))

/-- Pools that are not too large have an index of the size that is asked for. -/
theorem toNat_indexFor {pool : UInt64} (h : pool ≤ maxPoolCapacity) :
    (indexFor pool).toNat = powerAbove (2 * pool.toNat) := by
  have hpool : pool.toNat ≤ 2 ^ 32 - 3 := UInt64.le_iff_toNat_le.mp h
  have hsize : UInt64.size = 2 ^ 64 := rfl
  have hbound : powerAbove (2 * pool.toNat) ≤ 2 ^ 33 :=
    (isLeast_powerAbove _).2 ⟨⟨33, rfl⟩, by omega⟩
  rw [indexFor, Nat.min_eq_left (by omega), Nat.toUInt64_eq,
    UInt64.toNat_ofNat_of_lt' (by omega)]

namespace Capacities

/-- A pool with an index of the usual size has no fault if it is neither empty nor too large. -/
theorem poolFault?_indexFor_eq_none_iff {name : String} {pool : UInt64} :
    poolFault? name pool (indexFor pool) = none ↔ 1 ≤ pool ∧ pool ≤ maxPoolCapacity := by
  rw [poolFault?_eq_none_iff, UInt64.not_lt]
  constructor
  · intro h
    obtain ⟨hpos, hle, -⟩ := h
    refine ⟨UInt64.le_iff_toNat_le.mpr (Nat.one_le_iff_ne_zero.mpr fun hzero => hpos ?_), hle⟩
    exact UInt64.toNat_inj.mp hzero
  · intro h
    obtain ⟨hpos, hle⟩ := h
    refine ⟨?_, hle, ?_, ?_⟩
    · rintro rfl
      exact absurd hpos (by decide)
    · rw [toNat_indexFor hle]
      exact powerAbove_isPowerOfTwo _
    · rw [UInt64.not_lt, UInt64.le_iff_toNat_le, toNat_indexFor hle]
      have := le_powerAbove (2 * pool.toNat)
      omega

/-- Sizes have no fault if no pool with its index has one. -/
theorem fault?_eq_none_iff {c : Capacities} :
    c.fault? = none ↔ ∀ entry ∈ c.pools, poolFault? entry.1 entry.2.1 entry.2.2 = none :=
  List.findSome?_eq_none_iff

theorem fault?_forPools_eq_none_iff {words pairs sections candidates : UInt64} :
    (forPools words pairs sections candidates).fault? = none ↔
      ∀ pool ∈ [words, pairs, sections, candidates], 1 ≤ pool ∧ pool ≤ maxPoolCapacity := by
  rw [fault?_eq_none_iff]
  simp only [pools, forPools, List.forall_mem_cons, poolFault?_indexFor_eq_none_iff]
  constructor
  · intro h
    obtain ⟨hwords, hpairs, hsections, -, hcandidates, -⟩ := h
    exact ⟨hwords, hpairs, hsections, hcandidates, List.forall_mem_nil _⟩
  · intro h
    obtain ⟨hwords, hpairs, hsections, hcandidates, -⟩ := h
    exact ⟨hwords, hpairs, hsections, hsections, hcandidates, List.forall_mem_nil _⟩

/-- The indexes of sizes without a fault are the least that leave half of their slots free. -/
theorem isLeast_index_forPools {words pairs sections candidates : UInt64}
    (h : (forPools words pairs sections candidates).fault? = none) :
    ∀ entry ∈ (forPools words pairs sections candidates).pools,
      IsLeast {n : ℕ | n.isPowerOfTwo ∧ 2 * entry.2.1.toNat ≤ n} entry.2.2.toNat := by
  have hle := fault?_forPools_eq_none_iff.mp h
  simp only [List.forall_mem_cons] at hle
  obtain ⟨⟨-, hwords⟩, ⟨-, hpairs⟩, ⟨-, hsections⟩, ⟨-, hcandidates⟩, -⟩ := hle
  have hindex {pool : UInt64} (hpool : pool ≤ maxPoolCapacity) :
      IsLeast {n : ℕ | n.isPowerOfTwo ∧ 2 * pool.toNat ≤ n} (indexFor pool).toNat := by
    rw [toNat_indexFor hpool]
    exact isLeast_powerAbove _
  simp only [pools, forPools, List.forall_mem_cons]
  exact ⟨hindex hwords, hindex hpairs, hindex hsections, hindex hsections, hindex hcandidates,
    List.forall_mem_nil _⟩

/-! ### What is made of them -/

variable {name : String} {pool index : UInt64}

theorem exists_index_of_faultless (h : poolFault? name pool index = none) (label : String) :
    ∃ ix, Index.ofCapacity label index.toNat = .ok ix := by
  obtain ⟨-, -, hpower, -⟩ := poolFault?_eq_none_iff.mp h
  exact ⟨_, Index.ofCapacity_eq_ok_iff.mpr ⟨Nat.pos_of_isPowerOfTwo hpower, hpower, rfl⟩⟩

/-- A pool and an index without a fault can be made. -/
theorem exists_pool_of_faultless {ρ : Type} [Inhabited ρ]
    (h : poolFault? name pool index = none) (label : String) :
    ∃ p : Pool ρ, Pool.ofCapacity label pool.toNat index.toNat = .ok p := by
  obtain ⟨ix, hix⟩ := exists_index_of_faultless h label
  obtain ⟨hpos, -, -, hle⟩ := poolFault?_eq_none_iff.mp h
  rw [UInt64.not_lt, UInt64.le_iff_toNat_le] at hle
  refine ⟨_, Pool.ofCapacity_eq_ok_iff.mpr ⟨Nat.pos_of_ne_zero fun hzero => hpos ?_, hle, ix, hix,
    rfl⟩⟩
  exact UInt64.toNat_inj.mp hzero

end Capacities

namespace Engine

/-- Sizes without a fault make an engine. -/
theorem exists_ofConfig_of_faultless {config : Config} (h : config.fault? = none) :
    ∃ e : Engine α, ofConfig config = .ok e := by
  have hvalid : config.validate = .ok () := by
    rw [Config.validate, h]
  rw [Config.fault?, Option.or_eq_none_iff] at h
  have hpools := Capacities.fault?_eq_none_iff.mp h.1
  simp only [Capacities.pools, List.forall_mem_cons] at hpools
  obtain ⟨hwords, hpairs, hsections, hdisjuncts, hcandidates, -⟩ := hpools
  obtain ⟨words, hwords⟩ := Capacities.exists_pool_of_faultless (ρ := WordRow α) hwords "word"
  obtain ⟨pairs, hpairs⟩ := Capacities.exists_pool_of_faultless (ρ := PairRow α) hpairs "pair"
  obtain ⟨sections, hsections⟩ :=
    Capacities.exists_pool_of_faultless (ρ := SectionRow α) hsections "section"
  obtain ⟨heads, hheads⟩ := Capacities.exists_index_of_faultless hdisjuncts "disjunct index"
  obtain ⟨candidates, hcandidates⟩ :=
    Capacities.exists_pool_of_faultless (ρ := CandidateRow α) hcandidates "candidate"
  have hsimilarity : ∃ w : Similarity α, Similarity.ofCapacities config.capacities.wordPool.toNat
      config.capacities.sectionPool.toNat config.capacities.disjunctIndex.toNat
      config.capacities.candidatePool.toNat config.capacities.candidateIndex.toNat = .ok w :=
    ⟨_, Similarity.ofCapacities_eq_ok_iff.mpr ⟨heads, hheads, candidates, hcandidates, rfl⟩⟩
  obtain ⟨similarity, hsimilarity⟩ := hsimilarity
  refine ⟨⟨config, ⟨words, pairs, 0⟩, sections, similarity, .empty⟩, ?_⟩
  simp only [ofConfig, Store.ofSizes, hvalid, hwords, hpairs, hsections, hsimilarity, bind,
    Except.bind, pure, Except.pure]

/-- **An engine can be made from exactly the configurations that are valid**, and no other check
than theirs ever fails. Sizes that are given by four pools are valid exactly if every pool is
neither empty nor too large, and every index then has the least power of two that is at least twice
its pool. -/
theorem configs_admitted_alike :
    (∀ config : Config,
      (ofConfig config : Except Error (Engine α)).map (fun _ => ()) = config.validate) ∧
    ∀ words pairs sections candidates : UInt64,
      let capacities := Capacities.forPools words pairs sections candidates
      (capacities.fault? = none ↔
        ∀ pool ∈ [words, pairs, sections, candidates], 1 ≤ pool ∧ pool ≤ maxPoolCapacity) ∧
      (capacities.fault? = none → ∀ entry ∈ capacities.pools,
        IsLeast {n : ℕ | n.isPowerOfTwo ∧ 2 * entry.2.1.toNat ≤ n} entry.2.2.toNat) := by
  constructor
  · intro config
    cases hfault : config.fault? with
    | none =>
      obtain ⟨e, he⟩ := exists_ofConfig_of_faultless (α := α) hfault
      rw [he, Config.validate, hfault]
      rfl
    | some fault =>
      have hvalidate : config.validate = .error (.config fault) := by
        rw [Config.validate, hfault]
      rw [ofConfig, hvalidate]
      rfl
  · intro words pairs sections candidates
    exact ⟨Capacities.fault?_forPools_eq_none_iff, Capacities.isLeast_index_forPools⟩

/-- Pools of three words and one section, and the largest pool of candidates. -/
theorem configs_admitted_alike_largest :
    let capacities := Capacities.forPools 3 1000 1 0xFFFFFFFD
    capacities.fault? = none
      ∧ capacities.pools = [("word", 3, 8), ("pair", 1000, 2048), ("section", 1, 2),
        ("disjunct", 1, 2), ("candidate", 0xFFFFFFFD, 0x200000000)]
      ∧ ∀ entry ∈ capacities.pools,
        IsLeast {n : ℕ | n.isPowerOfTwo ∧ 2 * entry.2.1.toNat ≤ n} entry.2.2.toNat := by
  obtain ⟨-, hsizes⟩ := configs_admitted_alike (α := Float)
  obtain ⟨hvalid, hleast⟩ := hsizes 3 1000 1 0xFFFFFFFD
  have hfault := hvalid.mpr (by simp [maxPoolCapacity])
  exact ⟨hfault, by decide, hleast hfault⟩

end Engine

end CorpusStats
