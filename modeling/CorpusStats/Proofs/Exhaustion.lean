import CorpusStats.Proofs.Exact
import CorpusStats.Proofs.Serving
/-!
# CorpusStats.Proofs.Exhaustion

What a pool says when it has no room left.

A pool refuses a key for one of three reasons: it has no slot to give it, it refused it before and
marked it, or its index has no slot for a mark either. The first two leave the pool's keys alone,
so the keys without slot are refused for ever. Every refusal is an overflow that names the pool, but
it comes from the pool in the first case only, and from the index in the others (`Pool.refusal`). So
there are two capacities that it may report.

* The index of a pool takes a slot for every key that is asked for, with or without success, until
  it runs out of them (`Index.Claims`). So it holds the keys that come first as well, as many as it
  has slots, which are more than the pool has.
* The first request of a key for which the index has a slot reports the capacity of the pool. Later
  requests of the key, and all requests of a key for which it has none, report the capacity of the
  index (`Pool.refusals_name_pool`).
-/

namespace CorpusStats

open Key

/-- A key is new and finds room at its first request, if it is among those that come first at all. -/
theorem Key.new_at_iff {room i : ℕ} {keys : List UInt64} {key : UInt64} (hkey : keys[i]? = some key) :
    storable key ∉ firstCome room (keys.take i) ∧ (firstCome room (keys.take i)).length < room ↔
      storable key ∈ firstCome room keys ∧ ∀ key' ∈ keys.take i, storable key' ≠ storable key := by
  constructor
  · intro ⟨hnew, hroom⟩
    refine ⟨?_, fun key' hmem heq => hnew ((mem_firstCome_of_room hroom).mpr ?_)⟩
    · have hgrows := firstCome_grows room (keys.take i ++ [key]) (keys.drop (i + 1))
      rw [← take_succ_of_getElem? hkey, List.take_append_drop, take_succ_of_getElem? hkey,
        firstCome_concat_of_new hnew hroom] at hgrows
      exact hgrows.subset (by simp)
    · exact heq ▸ List.mem_map_of_mem hmem
  · intro ⟨hmem, hfirst⟩
    have hnew : storable key ∉ firstCome room (keys.take i) := by
      intro hcame
      obtain ⟨earlier, hearlier, heq⟩ := List.mem_map.mp (mem_map_of_mem_firstCome hcame)
      exact hfirst earlier hearlier heq
    refine ⟨hnew, lt_of_le_of_ne (length_firstCome_le _ _) fun hfull => hnew ?_⟩
    -- nobody comes after the room has run out
    rw [← firstCome_append_of_full hfull (keys.drop i), List.take_append_drop]
    exact hmem

/-! ### The slots of an index -/

namespace Index

/-- After requests for `keys`, a slot is taken by each of the keys that came first, and by no
other. -/
structure Claims (ix : Index) (keys : List UInt64) : Prop where
  sound : ix.Sound
  isSome_iff : ∀ k, (ix.raw? k).isSome ↔ k ∈ firstCome ix.capacity keys
  vacancies_add : ix.vacancies + (firstCome ix.capacity keys).length = ix.capacity

variable {ix ix' : Index} {keys : List UInt64} {key : UInt64}

theorem claims_vacantOf (name : String) (n : ℕ) (h : 0 < n) : (vacantOf name n h).Claims [] := by
  refine ⟨sound_vacantOf name n h, fun k => ?_, ?_⟩
  · simp
  · rw [firstCome_nil, vacancies_vacantOf, capacity_vacantOf]
    rfl

theorem Claims.raw?_eq_none_iff (h : ix.Claims keys) {k : UInt64} :
    ix.raw? k = none ↔ k ∉ firstCome ix.capacity keys := by
  rw [← h.isSome_iff, Option.not_isSome_iff_eq_none]

theorem Claims.vacancies_eq_zero_iff (h : ix.Claims keys) :
    ix.vacancies = 0 ↔ (firstCome ix.capacity keys).length = ix.capacity := by
  have := h.vacancies_add
  omega

/-- A key that has a slot, or finds none, changes nothing. -/
theorem Claims.concat_of_not_new (h : ix.Claims keys)
    (hnot : storable key ∈ firstCome ix.capacity keys
      ∨ (firstCome ix.capacity keys).length = ix.capacity) : ix.Claims (keys ++ [key]) := by
  have heq := firstCome_concat_of_not_new hnot
  exact ⟨h.sound, heq ▸ h.isSome_iff, heq ▸ h.vacancies_add⟩

/-- A new key takes a slot whatever is written there. -/
theorem Claims.concat_of_written (h : ix.Claims keys) {value : UInt32}
    (hnew : storable key ∉ firstCome ix.capacity keys)
    (hw : Written ix ix' (storable key) (some value)) (hvac : ix'.vacancies + 1 = ix.vacancies) :
    ix'.Claims (keys ++ [key]) := by
  have hvacancies := h.vacancies_add
  have heq : firstCome ix.capacity (keys ++ [key]) = firstCome ix.capacity keys ++ [storable key] :=
    firstCome_concat_of_new hnew (by omega)
  refine ⟨hw.sound, fun k => ?_, ?_⟩
  · rw [hw.raw?_eq, hw.capacity_eq, heq, List.mem_append, List.mem_singleton]
    by_cases hk : k = storable key
    · simp [hk]
    · rw [if_neg hk, h.isSome_iff, or_iff_left hk]
  · rw [hw.capacity_eq, heq, List.length_append, List.length_singleton]
    omega

/-- Asking for a key takes a slot for it if there is one, whether the creation succeeds or not. -/
theorem Claims.findOrCreate (h : ix.Claims keys) (key : UInt64) (create : Except Error UInt32) :
    let ix' := (Stage.outcome (findOrCreate key create) ix).2
    ix'.Claims (keys ++ [key]) ∧ ix'.name = ix.name ∧ ix'.capacity = ix.capacity := by
  intro ix'
  cases hraw : ix.raw? (storable key) with
  | some v =>
    have hsame : ix' = ix := by
      show (Stage.outcome (Index.findOrCreate key create) ix).2 = ix
      rw [Stage.outcome, h.sound.findOrCreate_of_some hraw]
      split_ifs <;> rfl
    rw [hsame]
    refine ⟨h.concat_of_not_new (.inl ((h.isSome_iff _).mp ?_)), rfl, rfl⟩
    rw [hraw]
    rfl
  | none =>
    rcases h.sound.findOrCreate_of_none hraw create with
      ⟨hzero, hrun⟩ | ⟨ix₁, hw, hvac, hrun⟩
    · have hsame : ix' = ix := congrArg Prod.snd (Stage.outcome_of_error hrun)
      rw [hsame]
      exact ⟨h.concat_of_not_new (.inr (h.vacancies_eq_zero_iff.mp hzero)), rfl, rfl⟩
    · have hsame : ix' = ix₁ := by
        show (Stage.outcome (Index.findOrCreate key create) ix).2 = ix₁
        rw [Stage.outcome, hrun]
        cases create <;> rfl
      rw [hsame]
      exact ⟨h.concat_of_written (h.raw?_eq_none_iff.mp hraw) hw hvac, hw.name_eq, hw.capacity_eq⟩

end Index

/-! ### What a pool answers -/

namespace Pool

variable {ρ : Type} {p p' : Pool ρ} {keys : List UInt64} {key : UInt64}

/-- How a pool refuses a key: on its own account if the key is new to the index and can still be
marked there, and else on account of its index. -/
def refusal (p : Pool ρ) (key : UInt64) : Error :=
  if p.index.raw? (storable key) = none ∧ 0 < p.index.vacancies then .overflow p.name p.capacity
  else p.index.overflow

theorem Numbers.error_eq_refusal (h : p.Numbers keys) {fill : ρ → ρ} {e : Error}
    (hrun : Pool.findOrCreate key fill p = .error e p') : e = p.refusal key := by
  rcases h.findOrCreate key fill with
    ⟨n, created, p₁, hok, -⟩ | ⟨e₁, p₁, -, -, hfull, hnot, -⟩
  · rw [hok] at hrun
    cases hrun
  · unfold refusal
    cases hraw : p.index.raw? (storable key) with
    | some v =>
      -- only marks are left
      obtain ⟨rfl, -⟩ := h.marked _ v hnot hraw
      rw [findOrCreate_of_error (e := p.index.overflow) fun create => by
        rw [h.sound.findOrCreate_of_some hraw, if_neg (by decide), if_pos rfl]] at hrun
      cases hrun
      exact (if_neg (by simp)).symm
    | none =>
      have htake := (Allocator.take?_eq_none_iff p.allocator).mpr hfull
      rcases h.sound.findOrCreate_of_none hraw (.error (.overflow p.name p.capacity)) with
        ⟨hzero, herror⟩ | ⟨ix, -, hvac, herror⟩
      · rw [Pool.findOrCreate_of_full htake herror] at hrun
        cases hrun
        exact (if_neg (by omega)).symm
      · rw [Pool.findOrCreate_of_full htake herror] at hrun
        cases hrun
        exact (if_pos ⟨rfl, by omega⟩).symm

/-- A pool numbers its keys, and its index has their slots under the pool's name. -/
structure Accounts (p : Pool ρ) (name : String) (capacity indexCapacity : ℕ)
    (keys : List UInt64) : Prop where
  numbers : p.Numbers keys
  claims : p.index.Claims keys
  name_eq : p.name = name
  index_name_eq : p.index.name = name
  capacity_eq : p.capacity = capacity
  index_capacity_eq : p.index.capacity = indexCapacity

variable {name : String} {capacity indexCapacity : ℕ}

theorem accounts_of_ofCapacity [Inhabited ρ] (hle : capacity ≤ maxPoolCapacity.toNat)
    (hnew : ofCapacity name capacity indexCapacity = .ok p) :
    p.Accounts name capacity indexCapacity [] := by
  have hnumbers := numbers_of_ofCapacity hle hnew
  obtain ⟨-, -, index, hindex, rfl⟩ := ofCapacity_eq_ok_iff.mp hnew
  obtain ⟨hpos, -, rfl⟩ := Index.ofCapacity_eq_ok_iff.mp hindex
  exact ⟨hnumbers, Index.claims_vacantOf name indexCapacity hpos, rfl, rfl, rfl,
    Index.capacity_vacantOf name indexCapacity hpos⟩

theorem Accounts.serve (h : p.Accounts name capacity indexCapacity keys) (r : Request ρ) :
    (serve r p).2.Accounts name capacity indexCapacity (keys ++ [r.key]) := by
  obtain ⟨hname, hcapacity, -, create, hindex⟩ := p.parts_findOrCreate r.key r.fill
  have hclaims := h.claims.findOrCreate r.key create
  rw [← hindex] at hclaims
  obtain ⟨hclaims, hindexName, hindexCapacity⟩ := hclaims
  have hnumbers : (Pool.serve r p).2.Numbers (keys ++ [r.key]) := by
    rw [Pool.serve]
    rcases h.numbers.findOrCreate r.key r.fill with
      ⟨n, created, p', hrun, -, -, -, hnumbers⟩ | ⟨e, p', hrun, -, -, -, -, -, hnumbers⟩
    · rwa [Stage.outcome_of_ok hrun]
    · rwa [Stage.outcome_of_error hrun]
  exact ⟨hnumbers, hclaims, hname.trans h.name_eq, hindexName.trans h.index_name_eq,
    hcapacity.trans h.capacity_eq, hindexCapacity.trans h.index_capacity_eq⟩

theorem Accounts.replay (h : p.Accounts name capacity indexCapacity []) (rs : List (Request ρ)) :
    (replay Pool.serve rs p).2.Accounts name capacity indexCapacity (rs.map Request.key) := by
  induction rs using List.reverseRecOn with
  | nil => exact h
  | append_singleton rs r ih =>
    rw [state_replay_concat, List.map_append]
    exact ih.serve r

/-- A request that is refused is refused by the pool that the requests before it left. -/
theorem Accounts.error_eq (h : p.Accounts name capacity indexCapacity keys) {r : Request ρ}
    {e : Error} (he : (Pool.serve r p).1 = .error e) :
    e = if storable r.key ∉ firstCome indexCapacity keys
        ∧ (firstCome indexCapacity keys).length < indexCapacity then .overflow name capacity
      else .overflow name indexCapacity := by
  obtain ⟨p', hrun⟩ := Stage.exists_eq_error_of_outcome he
  have hvacancies := h.claims.vacancies_add
  have hnew := h.claims.raw?_eq_none_iff (k := storable r.key)
  rw [h.index_capacity_eq] at hvacancies hnew
  rw [h.numbers.error_eq_refusal hrun, refusal, Index.overflow, h.name_eq, h.capacity_eq,
    h.index_name_eq, h.index_capacity_eq]
  refine if_congr (and_congr hnew ?_) rfl rfl
  omega

/-! ### Runs of requests -/

/-- What the answers to requests for `keys` say about the ones that were refused. -/
structure Refuses (name : String) (capacity indexCapacity : ℕ) (keys : List UInt64)
    (answers : List (Except Error (UInt32 × Bool))) : Prop where
  /-- A key that is not among the first ones is refused on every request. -/
  refused_iff : ∀ (i : ℕ) key, keys[i]? = some key →
    ((∃ e, answers[i]? = some (.error e)) ↔ storable key ∉ firstCome capacity keys)
  /-- It is always the pool that is named, with one of two capacities. -/
  names_pool : ∀ (i : ℕ) e, answers[i]? = some (.error e) →
    e = .overflow name capacity ∨ e = .overflow name indexCapacity
  /-- The first request of a key for which the index has a slot. -/
  eq_of_first : ∀ (i : ℕ) key e, keys[i]? = some key → answers[i]? = some (.error e) →
    storable key ∈ firstCome indexCapacity keys →
    (∀ key' ∈ keys.take i, storable key' ≠ storable key) → e = .overflow name capacity
  /-- A later request of a key. -/
  eq_of_later : ∀ (i : ℕ) key key' e, keys[i]? = some key → answers[i]? = some (.error e) →
    key' ∈ keys.take i → storable key' = storable key → e = .overflow name indexCapacity
  /-- A request of a key for which the index has no slot. -/
  eq_of_unclaimed : ∀ (i : ℕ) key e, keys[i]? = some key → answers[i]? = some (.error e) →
    storable key ∉ firstCome indexCapacity keys → e = .overflow name indexCapacity

/-- A refusal depends on the requests before it alone. -/
theorem Accounts.getElem?_eq_error (h : p.Accounts name capacity indexCapacity [])
    {rs : List (Request ρ)} {i : ℕ} {e : Error}
    (he : (CorpusStats.replay Pool.serve rs p).1[i]? = some (.error e)) :
    ∃ key, (rs.map Request.key)[i]? = some key ∧ e =
      if storable key ∉ firstCome indexCapacity ((rs.map Request.key).take i)
        ∧ (firstCome indexCapacity ((rs.map Request.key).take i)).length < indexCapacity
      then .overflow name capacity else .overflow name indexCapacity := by
  rw [getElem?_replay] at he
  obtain ⟨r, hr, he⟩ := Option.map_eq_some_iff.mp he
  refine ⟨r.key, by rw [List.getElem?_map, hr, Option.map_some], ?_⟩
  rw [← List.map_take]
  exact (h.replay (rs.take i)).error_eq he

/-- **A pool that refuses a key names itself, and goes on refusing it.** -/
theorem refusals_name_pool [Inhabited ρ] (hle : capacity ≤ maxPoolCapacity.toNat)
    (hnew : ofCapacity name capacity indexCapacity = .ok p) (rs : List (Request ρ)) :
    Refuses name capacity indexCapacity (rs.map Request.key) (replay serve rs p).1 := by
  have hstart := accounts_of_ofCapacity hle hnew
  have hanswers := firstCome_replay hle hnew rs
  have herror (i : ℕ) (key : UInt64) (e : Error) (hkey : (rs.map Request.key)[i]? = some key)
      (he : (replay serve rs p).1[i]? = some (.error e)) :
      e = if storable key ∈ firstCome indexCapacity (rs.map Request.key)
          ∧ ∀ key' ∈ (rs.map Request.key).take i, storable key' ≠ storable key
        then .overflow name capacity else .overflow name indexCapacity := by
    obtain ⟨key', hkey', rfl⟩ := hstart.getElem?_eq_error he
    obtain rfl : key' = key := Option.some_inj.mp (hkey'.symm.trans hkey)
    exact if_congr (new_at_iff hkey) rfl rfl
  constructor
  case refused_iff =>
    intro i key hkey
    rw [List.getElem?_map] at hkey
    obtain ⟨r, hr, rfl⟩ := Option.map_eq_some_iff.mp hkey
    constructor
    · intro hrefused hmem
      obtain ⟨e, he⟩ := hrefused
      obtain ⟨n, hn⟩ := List.mem_iff_getElem?.mp hmem
      obtain ⟨slot, created, hok, -⟩ := hanswers.answer_of_mem i r n hr hn
      rw [hok] at he
      cases he
    · intro hnot
      obtain ⟨name', capacity', he⟩ := hanswers.answer_of_notMem i r hr hnot
      exact ⟨_, he⟩
  case names_pool =>
    intro i e he
    obtain ⟨key, -, rfl⟩ := hstart.getElem?_eq_error he
    split_ifs
    · exact .inl rfl
    · exact .inr rfl
  case eq_of_first =>
    intro i key e hkey he hclaimed hfirst
    rw [herror i key e hkey he, if_pos ⟨hclaimed, hfirst⟩]
  case eq_of_later =>
    intro i key earlier e hkey he hearlier heq
    rw [herror i key e hkey he, if_neg fun hnew => hnew.2 earlier hearlier heq]
  case eq_of_unclaimed =>
    intro i key e hkey he hunclaimed
    rw [herror i key e hkey he, if_neg fun hnew => hunclaimed hnew.1]

/-- A key that was refused twice, and one that came when the index had no slot left. -/
theorem refusals_name_pool_marked :
    ∃ p : Pool (SectionRow ℚ), ofCapacity "section" 2 4 = .ok p
      ∧ 2 ≤ maxPoolCapacity.toNat
      ∧ Refuses "section" 2 4 [1, 2, 3, 3, 4, 5]
        (replay serve ([1, 2, 3, 3, 4, 5].map fun key => ⟨key, id⟩) p).1 :=
  ⟨_, rfl, by decide, refusals_name_pool (by decide) rfl ([1, 2, 3, 3, 4, 5].map (⟨·, id⟩))⟩

/-- An index reports its own capacity, under the name of the pool: for a key that is marked in it, and
for one that it has no slot for. -/
theorem refusal_reports_index :
    ∃ p : Pool (SectionRow ℚ), ofCapacity "section" 2 4 = .ok p
      ∧ (replay serve ([1, 2, 3, 3, 4, 5].map fun key => ⟨key, id⟩) p).1
        = [.ok (0, true), .ok (1, true), .error (.overflow "section" 2),
          .error (.overflow "section" 4), .error (.overflow "section" 2),
          .error (.overflow "section" 4)]
      ∧ Error.overflow "section" 4 ≠ .overflow p.name p.capacity :=
  ⟨_, rfl, by decide +kernel, by decide⟩

end Pool

end CorpusStats
