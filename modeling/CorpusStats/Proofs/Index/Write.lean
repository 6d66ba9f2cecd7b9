import CorpusStats.Proofs.Index.Probe
/-!
# CorpusStats.Proofs.Index.Write

The index as a **map with room**: the raw value of every key, and how many slots are still
vacant.

* `Index.Written` says what a write amounts to in that view. It never mentions slots, and
  proofs about stages that use an index go through it.
* A key without a value can be given one exactly while a slot is vacant
  (`Sound.stop_of_raw?_eq_none`); a key with a value can always be changed or erased
  (`Sound.found_of_raw?_eq_some`).
* Erasing a key does not give its slot back: `Index.vacancies` only falls, until `clear`.
-/

namespace CorpusStats

namespace Index

variable {ix ix' : Index} {key : UInt64}

/-- How many slots have never held a key since the last `clear`. -/
def vacancies (ix : Index) : ℕ := ix.slots.count .vacant

/-- `ix'` is `ix` with the value of one key replaced. -/
structure Written (ix ix' : Index) (key : UInt64) (value : Option UInt32) : Prop where
  sound : ix'.Sound
  name_eq : ix'.name = ix.name
  capacity_eq : ix'.capacity = ix.capacity
  raw?_eq : ∀ k, ix'.raw? k = if k = key then value else ix.raw? k

/-! ### Vacancies -/

theorem cell_mem_slots (ix : Index) (n : ℕ) : ix.cell n ∈ ix.slots :=
  Array.getElem_mem (ix.wrap n).isLt

theorem vacancies_put_of_vacant {n : ℕ} {s : Slot} (hn : ix.cell n = .vacant) (hs : s ≠ .vacant) :
    (ix.put (ix.wrap n) s).vacancies + 1 = ix.vacancies := by
  have hpos : 0 < ix.vacancies := Array.count_pos_iff.mpr (hn ▸ ix.cell_mem_slots n)
  rw [cell, Fin.getElem_fin] at hn
  unfold vacancies at hpos ⊢
  simp [put, Array.count_set, hn, hs]
  omega

theorem vacancies_put_of_not_vacant {n : ℕ} {s : Slot} (hn : ix.cell n ≠ .vacant)
    (hs : s ≠ .vacant) : (ix.put (ix.wrap n) s).vacancies = ix.vacancies := by
  rw [cell, Fin.getElem_fin] at hn
  simp [vacancies, put, Array.count_set, hn, hs]

/-- A probe that passes every slot has seen that none is vacant. -/
theorem Clear.vacancies_eq_zero (h : ix.Clear key ix.capacity) : ix.vacancies = 0 := by
  rw [vacancies, Array.count_eq_zero]
  intro hmem
  obtain ⟨i, hi, hvac⟩ := Array.getElem_of_mem hmem
  obtain ⟨n, hn, hwrap⟩ := ix.exists_wrap_add_eq key.toNat ⟨i, hi⟩
  have hcell : ix.cell (key.toNat + n) = .vacant := (cell_eq_of_wrap_eq hwrap).trans hvac
  have hpass := h n hn
  rw [hcell] at hpass
  exact Slot.not_passes_vacant key hpass

@[simp] theorem vacancies_vacantOf (name : String) (n : ℕ) (h : 0 < n) :
    (vacantOf name n h).vacancies = n := by
  simp [vacancies, vacantOf]

/-! ### What a probe allows -/

/-- A key with a value can be changed or erased. -/
theorem Sound.found_of_raw?_eq_some (h : ix.Sound) {v : UInt32} (hraw : ix.raw? key = some v) :
    ∃ i, ix.probe key = .found i v
      ∧ (∀ w, Written ix (ix.put i (.held key w)) key (some w)
          ∧ (ix.put i (.held key w)).vacancies = ix.vacancies)
      ∧ Written ix (ix.put i .erased) key none
      ∧ (ix.put i .erased).vacancies = ix.vacancies := by
  have hkey : ¬ Key.IsReserved key := by
    intro hres
    rw [h.raw?_of_reserved hres] at hraw
    cases hraw
  obtain ⟨n, hn, hheld⟩ := (h.raw?_eq_some_iff.mp hraw).exists_on_way
  have hclear := h.clear_of_held key v n hn hheld
  have hstop : ¬ (ix.cell (key.toNat + n)).Passes key := by simp [hheld]
  have hvac : ix.cell (key.toNat + n) ≠ .vacant := by simp [hheld]
  refine ⟨ix.wrap (key.toNat + n), hclear.probe_eq_found hn hheld, fun w => ⟨?_, ?_⟩, ?_, ?_⟩
  · have hsound := h.put_held hn hclear hstop hkey w
    refine ⟨hsound, rfl, ix.capacity_put _ _, fun k => Option.ext fun u => ?_⟩
    rw [hsound.raw?_eq_some_iff, h.holds_put_held hn hclear hstop]
    split <;> simp [h.raw?_eq_some_iff]
  · exact vacancies_put_of_not_vacant hvac (by simp)
  · have hsound := h.put_erased (ix.wrap (key.toNat + n))
    refine ⟨hsound, rfl, ix.capacity_put _ _, fun k => Option.ext fun u => ?_⟩
    rw [hsound.raw?_eq_some_iff, h.holds_put_erased hheld]
    split <;> simp_all [h.raw?_eq_some_iff]
  · exact vacancies_put_of_not_vacant hvac (by simp)

/-- A key without a value can be given one exactly while a slot is vacant. -/
theorem Sound.stop_of_raw?_eq_none (h : ix.Sound) (hkey : ¬ Key.IsReserved key)
    (hraw : ix.raw? key = none) :
    (ix.vacancies = 0 ∧ ix.probe key = .full)
      ∨ ∃ i, ix.probe key = .absent i
        ∧ ∀ w, Written ix (ix.put i (.held key w)) key (some w)
          ∧ (ix.put i (.held key w)).vacancies + 1 = ix.vacancies := by
  rcases probe_cases ix key with ⟨n, v, -, -, -, hp⟩ | ⟨n, hn, hclear, hvac, hp⟩ | ⟨hclear, hp⟩
  · simp [raw?, hp] at hraw
  · have hstop : ¬ (ix.cell (key.toNat + n)).Passes key := by simp [hvac]
    refine .inr ⟨_, hp, fun w => ⟨?_, vacancies_put_of_vacant hvac (by simp)⟩⟩
    have hsound := h.put_held hn hclear hstop hkey w
    refine ⟨hsound, rfl, ix.capacity_put _ _, fun k => Option.ext fun u => ?_⟩
    rw [hsound.raw?_eq_some_iff, h.holds_put_held hn hclear hstop]
    split <;> simp [h.raw?_eq_some_iff]
  · exact .inl ⟨hclear.vacancies_eq_zero, hp⟩

/-! ### Operations -/

theorem Sound.replace_of_some (h : ix.Sound) {v : UInt32}
    (hraw : ix.raw? (Key.storable key) = some v) (f : UInt32 → UInt32) :
    ∃ ix', replace key f ix = .ok v ix' ∧ Written ix ix' (Key.storable key) (some (f v))
      ∧ ix'.vacancies = ix.vacancies := by
  obtain ⟨i, hp, hw, -, -⟩ := h.found_of_raw?_eq_some hraw
  exact ⟨_, by simp only [replace, hp], (hw (f v)).1, (hw (f v)).2⟩

theorem Sound.replace_of_none (h : ix.Sound) (hraw : ix.raw? (Key.storable key) = none)
    (f : UInt32 → UInt32) :
    (ix.vacancies = 0 ∧ replace key f ix = .error ix.overflow ix)
      ∨ ∃ ix', replace key f ix = .ok unset ix'
        ∧ Written ix ix' (Key.storable key) (some (f unset))
        ∧ ix'.vacancies + 1 = ix.vacancies := by
  rcases h.stop_of_raw?_eq_none (Key.not_isReserved_storable key) hraw with
    ⟨hvac, hp⟩ | ⟨i, hp, hw⟩
  · exact .inl ⟨hvac, by simp only [replace, hp]⟩
  · exact .inr ⟨_, by simp only [replace, hp], (hw (f unset)).1, (hw (f unset)).2⟩

/-- What replacing a value answers and does, unless there is no room for it. -/
theorem Sound.replace_eq_ok (h : ix.Sound) {f : UInt32 → UInt32} {old : UInt32}
    (hrun : replace key f ix = .ok old ix') :
    old = (ix.raw? (Key.storable key)).getD unset
      ∧ Written ix ix' (Key.storable key) (some (f old)) := by
  cases hraw : ix.raw? (Key.storable key) with
  | some v =>
    obtain ⟨ix₁, hok, hw, -⟩ := h.replace_of_some hraw f
    rw [hok] at hrun
    cases hrun
    exact ⟨rfl, hw⟩
  | none =>
    rcases h.replace_of_none hraw f with ⟨-, hfull⟩ | ⟨ix₁, hok, hw, -⟩
    · rw [hfull] at hrun
      cases hrun
    · rw [hok] at hrun
      cases hrun
      exact ⟨rfl, hw⟩

theorem Sound.findOrCreate_of_some (h : ix.Sound) {v : UInt32}
    (hraw : ix.raw? (Key.storable key) = some v) (create : Except Error UInt32) :
    findOrCreate key create ix =
      if v = unset then .error (.invalidState (.unpublished ix.name)) ix
      else if v = exhausted then .error ix.overflow ix
      else .ok (v, false) ix := by
  obtain ⟨i, hp, -, -, -⟩ := h.found_of_raw?_eq_some hraw
  simp only [findOrCreate, hp]

/-- The value that a creation leaves under its key. -/
def valueOf : Except Error UInt32 → UInt32
  | .ok value => value
  | .error _ => exhausted

theorem Sound.findOrCreate_of_none (h : ix.Sound) (hraw : ix.raw? (Key.storable key) = none)
    (create : Except Error UInt32) :
    (ix.vacancies = 0 ∧ findOrCreate key create ix = .error ix.overflow ix)
      ∨ ∃ ix', Written ix ix' (Key.storable key) (some (valueOf create))
        ∧ ix'.vacancies + 1 = ix.vacancies
        ∧ findOrCreate key create ix =
          match create with
          | .ok value => .ok (value, true) ix'
          | .error e => .error e ix' := by
  rcases h.stop_of_raw?_eq_none (Key.not_isReserved_storable key) hraw with
    ⟨hvac, hp⟩ | ⟨i, hp, hw⟩
  · exact .inl ⟨hvac, by simp only [findOrCreate, hp]⟩
  · refine .inr ⟨_, (hw (valueOf create)).1, (hw (valueOf create)).2, ?_⟩
    cases create <;> simp only [findOrCreate, hp, valueOf]

theorem Sound.erase_of_some (h : ix.Sound) {v : UInt32}
    (hraw : ix.raw? (Key.storable key) = some v) :
    ∃ ix', ix.erase key = (true, ix') ∧ Written ix ix' (Key.storable key) none
      ∧ ix'.vacancies = ix.vacancies := by
  obtain ⟨i, hp, -, hw, hvac⟩ := h.found_of_raw?_eq_some hraw
  exact ⟨_, by simp only [erase, hp], hw, hvac⟩

theorem Sound.erase_of_none (h : ix.Sound) (hraw : ix.raw? (Key.storable key) = none) :
    ix.erase key = (false, ix) := by
  rcases h.stop_of_raw?_eq_none (Key.not_isReserved_storable key) hraw with
    ⟨-, hp⟩ | ⟨i, hp, -⟩ <;> simp only [erase, hp]

/-! ### Entries -/

theorem entry?_eq_some_iff {s : Slot} {v : UInt32} :
    s.entry? = some (key, v) ↔ s = .held key v := by
  cases s <;> simp [Slot.entry?]

/-- The entries are the keys with their raw values. -/
theorem Sound.mem_entries_iff (h : ix.Sound) {v : UInt32} :
    (key, v) ∈ ix.entries ↔ ix.raw? key = some v := by
  simp only [entries, List.mem_filterMap, h.raw?_eq_some_iff, entry?_eq_some_iff]
  constructor
  · intro h
    obtain ⟨s, hs, rfl⟩ := h
    obtain ⟨i, hi, hslot⟩ := List.getElem_of_mem hs
    exact ⟨i, by simpa [cell, wrap, Nat.mod_eq_of_lt (by simpa using hi)] using hslot⟩
  · intro h
    obtain ⟨n, hn⟩ := h
    exact ⟨_, Array.mem_toList_iff.mpr (hn ▸ ix.cell_mem_slots n), rfl⟩

theorem Sound.mem_keys_iff (h : ix.Sound) :
    key ∈ ix.entries.map Prod.fst ↔ (ix.raw? key).isSome := by
  simp [h.mem_entries_iff, Option.isSome_iff_exists]

theorem Sound.nodup_keys (h : ix.Sound) : (ix.entries.map Prod.fst).Nodup := by
  rw [List.Nodup, List.pairwise_map, entries, List.pairwise_filterMap, List.pairwise_iff_getElem]
  rintro i j hi hj hij ⟨k, v⟩ hv ⟨k', w⟩ hw (rfl : k = k')
  rw [Array.length_toList] at hi hj
  rw [Array.getElem_toList, entry?_eq_some_iff] at hv hw
  exact hij.ne (Fin.mk.inj (h.eq_of_held (i := ⟨i, hi⟩) (j := ⟨j, hj⟩) hv hw))

theorem size_eq_length_entries (ix : Index) : ix.size = ix.entries.length := by
  have count (l : List Slot) (n : ℕ) :
      l.foldl (fun n slot => if slot.entry?.isSome then n + 1 else n) n
        = n + (l.filterMap Slot.entry?).length := by
    induction l generalizing n with
    | nil => rfl
    | cons s l ih =>
      rw [List.foldl_cons, ih, List.filterMap_cons]
      cases s.entry? with
      | none => rfl
      | some e => simp [Nat.add_assoc, Nat.add_comm 1]
  rw [size, ← Array.foldl_toList, count, entries, Nat.zero_add]

/-- The size is the number of keys with a value. -/
theorem Sound.size_eq_card (h : ix.Sound) {keys : Finset UInt64}
    (hkeys : ∀ k, k ∈ keys ↔ (ix.raw? k).isSome) : ix.size = keys.card := by
  have hset : (ix.entries.map Prod.fst).toFinset = keys := by
    ext k
    rw [List.mem_toFinset, h.mem_keys_iff, hkeys]
  rw [size_eq_length_entries, ← hset, List.toFinset_card_of_nodup h.nodup_keys, List.length_map]

/-! ### Vacant indexes -/

theorem cell_vacantOf (name : String) (n : ℕ) (h : 0 < n) (m : ℕ) :
    (vacantOf name n h).cell m = .vacant := by
  simp [cell, vacantOf]

theorem sound_vacantOf (name : String) (n : ℕ) (h : 0 < n) : (vacantOf name n h).Sound := by
  constructor <;> intro k v m
  · intro _ hm
    rw [cell_vacantOf] at hm
    cases hm
  · intro hm
    rw [cell_vacantOf] at hm
    cases hm

@[simp] theorem raw?_vacantOf (name : String) (n : ℕ) (h : 0 < n) (k : UInt64) :
    (vacantOf name n h).raw? k = none := by
  rw [(sound_vacantOf name n h).raw?_eq_none_iff]
  intro v hv
  obtain ⟨m, hm⟩ := hv
  rw [cell_vacantOf] at hm
  cases hm

theorem sound_clear (ix : Index) : ix.clear.Sound := sound_vacantOf _ _ _

@[simp] theorem raw?_clear (ix : Index) (k : UInt64) : ix.clear.raw? k = none :=
  raw?_vacantOf _ _ _ k

@[simp] theorem vacancies_clear (ix : Index) : ix.clear.vacancies = ix.capacity :=
  vacancies_vacantOf _ _ _

theorem ofCapacity_eq_ok_iff {name : String} {capacity : ℕ} :
    ofCapacity name capacity = .ok ix ↔ ∃ h : 0 < capacity,
      capacity.isPowerOfTwo ∧ ix = vacantOf name capacity h := by
  unfold ofCapacity
  split
  · rename_i h
    constructor
    · rintro ⟨⟩
      exact ⟨_, h, rfl⟩
    · intro h
      obtain ⟨_, _, rfl⟩ := h
      rfl
  · rename_i h
    constructor
    · rintro ⟨⟩
    · intro h
      obtain ⟨_, h', _⟩ := h
      exact absurd h' h

end Index

end CorpusStats
