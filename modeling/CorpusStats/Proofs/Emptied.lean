import CorpusStats.Proofs.Pool
/-!
# CorpusStats.Proofs.Emptied

What emptying leaves of an index or a pool, whatever it was used for before.

An index keeps its name and its size when it is cleared, and a pool its name and the sizes of its
arena and its index (`Pool.reset_congr`). No write changes any of these, whether it answers or
fails. So emptying a pool after any use leaves what emptying it at once would have left, and this
is the pool as it was made (`Pool.reset_of_ofCapacity`): rows, slots, keys, erased slots and the
marks of refused keys are all gone.
-/

namespace CorpusStats

open Stage

/-! ### Indexes -/

namespace Index

theorem clear_congr {ix ix' : Index} (hname : ix'.name = ix.name)
    (hcapacity : ix'.capacity = ix.capacity) : ix'.clear = ix.clear := by
  unfold clear
  congr 1

variable (ix : Index)

@[simp] theorem clear_put (i : Fin ix.capacity) (s : Slot) : (ix.put i s).clear = ix.clear :=
  clear_congr rfl (ix.capacity_put i s)

@[simp] theorem clear_clear : ix.clear.clear = ix.clear := clear_congr rfl ix.capacity_clear

@[simp] theorem clear_vacantOf (name : String) (n : ℕ) (h : 0 < n) :
    (vacantOf name n h).clear = vacantOf name n h := by
  unfold clear
  congr 1
  exact capacity_vacantOf name n h

theorem clear_replace (key : UInt64) (f : UInt32 → UInt32) :
    (outcome (replace key f) ix).2.clear = ix.clear := by
  unfold outcome replace
  dsimp only
  cases ix.probe (Key.storable key) <;> simp

theorem clear_pushFront (key : UInt64) (value : UInt32) :
    (outcome (pushFront key value) ix).2.clear = ix.clear :=
  ix.clear_replace key fun _ => value

theorem clear_findOrCreate (key : UInt64) (create : Except Error UInt32) :
    (outcome (findOrCreate key create) ix).2.clear = ix.clear := by
  unfold outcome findOrCreate
  dsimp only
  cases ix.probe (Key.storable key) with
  | found i value =>
    by_cases hunset : value = unset
    · simp only [if_pos hunset]
    · by_cases hexhausted : value = exhausted
      · simp only [if_neg hunset, if_pos hexhausted]
      · simp only [if_neg hunset, if_neg hexhausted]
  | absent i => cases create <;> simp
  | full => rfl

end Index

/-! ### Pools -/

namespace Pool

variable {ρ : Type} [Inhabited ρ] {p p' : Pool ρ}

theorem reset_congr (hname : p'.name = p.name) (hcapacity : p'.capacity = p.capacity)
    (hindex : p'.index.clear = p.index.clear) : p'.reset = p.reset := by
  have hallocator : p'.allocator.reset = p.allocator.reset :=
    congrArg Allocator.ofCapacity hcapacity
  unfold reset
  simp only [hname, hcapacity, hindex, hallocator]

theorem capacity_eq_of_reset (h : p'.reset = p.reset) : p'.capacity = p.capacity := by
  have hcapacity : p'.reset.capacity = p.reset.capacity := congrArg capacity h
  exact hcapacity

@[simp] theorem reset_modify (p : Pool ρ) (slot : ℕ) (f : ρ → ρ) :
    (p.modify slot f).reset = p.reset := rfl

@[simp] theorem reset_clearIndex (p : Pool ρ) : p.clearIndex.reset = p.reset :=
  reset_congr rfl rfl p.index.clear_clear

@[simp] theorem reset_reset (p : Pool ρ) : p.reset.reset = p.reset :=
  reset_congr rfl rfl p.index.clear_clear

theorem Mapped.reset_eq {f : ρ → ρ} (h : Mapped p p' f) : p'.reset = p.reset :=
  reset_congr h.name_eq h.capacity_eq (congrArg Index.clear h.index_eq)

theorem reset_onIndex {β : Type} {act : Stage Index β}
    (h : (outcome act p.index).2.clear = p.index.clear) :
    (outcome (onIndex act) p).2.reset = p.reset := by
  unfold outcome at h ⊢
  unfold onIndex
  dsimp only
  cases hrun : act p.index <;> rw [hrun] at h <;> exact reset_congr rfl rfl h

theorem reset_findOrCreate (p : Pool ρ) (key : UInt64) (fill : ρ → ρ) :
    (outcome (findOrCreate key fill) p).2.reset = p.reset := by
  obtain ⟨hname, hcapacity, -, create, hindex⟩ := p.parts_findOrCreate key fill
  refine reset_congr hname hcapacity ?_
  rw [hindex]
  exact p.index.clear_findOrCreate key create

/-- Emptying the pool leaves this one. -/
def EmptiesTo (empty p : Pool ρ) : Prop := p.reset = empty

theorem keeps_findOrCreate (empty : Pool ρ) (key : UInt64) (fill : ρ → ρ) :
    Keeps (EmptiesTo empty) (findOrCreate key fill) :=
  fun p h => (p.reset_findOrCreate key fill).trans h

theorem reset_of_ofCapacity {name : String} {capacity indexCapacity : ℕ}
    (h : ofCapacity name capacity indexCapacity = .ok p) : p.reset = p := by
  obtain ⟨-, -, index, hindex, rfl⟩ := ofCapacity_eq_ok_iff.mp h
  obtain ⟨hpos, -, rfl⟩ := Index.ofCapacity_eq_ok_iff.mp hindex
  unfold reset
  simp only [Index.clear_vacantOf]
  rfl

end Pool

end CorpusStats
