import CorpusStats.Config.Basic
import CorpusStats.Pool
import CorpusStats.Proofs.Index.Write
import CorpusStats.Proofs.Stage
/-!
# CorpusStats.Proofs.Pool

A pool as the **list of its rows in use** (`Pool.liveRows`), with its index in front.

* Changing the row of a slot in use changes one place of the list; asking for a new key
  puts one row at its end. `findOrCreate_cases` says everything that asking for a key can
  do, so that no proof about a stage opens `Pool.findOrCreate`.
* Slots that are not in use have the default row (`Pool.Tidy`), which is why a new row is
  the default row filled in, whatever the pool was used for before.
* Pools leave the numbers of the values that have a meaning of their own free, which is why
  the slot of a key can be told from a failure (`Index.not_reserved`).
-/

namespace CorpusStats

/-! ### Slot numbers -/

namespace Index

theorem toNat_toUInt32 {slot : ℕ} (h : slot < maxPoolCapacity.toNat) :
    slot.toUInt32.toNat = slot :=
  UInt32.toNat_ofNat_of_lt' (h.trans (by decide))

theorem not_reserved {u : UInt32} (h : u.toNat < maxPoolCapacity.toNat) :
    u ≠ unset ∧ u ≠ exhausted := by
  constructor
  · rintro rfl
    exact absurd h (by decide)
  · rintro rfl
    exact absurd h (by decide)

theorem toUInt32_ne_exhausted {slot : ℕ} (h : slot < maxPoolCapacity.toNat) :
    slot.toUInt32 ≠ exhausted :=
  (not_reserved ((toNat_toUInt32 h).trans_lt h)).2

theorem lookup_eq_of_raw? {ix : Index} {key : UInt64} {u : UInt32}
    (hraw : ix.raw? (Key.storable key) = some u) (hu : u.toNat < maxPoolCapacity.toNat) :
    ix.lookup key = u := by
  simp only [lookup, hraw, if_neg (not_reserved hu).2]

end Index

theorem getElem?_concat_cases {ι : Type} {l : List ι} {a b : ι} {n : ℕ}
    (h : (l ++ [a])[n]? = some b) :
    l[n]? = some b ∨ n = l.length ∧ b = a := by
  rcases lt_or_ge n l.length with hlt | hge
  · rw [List.getElem?_append_left hlt] at h
    exact .inl h
  · rw [List.getElem?_append_right hge, List.getElem?_singleton] at h
    split at h
    · cases h
      exact .inr ⟨by omega, rfl⟩
    · cases h

theorem take_succ_of_getElem? {ι : Type} {l : List ι} {a : ι} {k : ℕ} (h : l[k]? = some a) :
    l.take (k + 1) = l.take k ++ [a] := by
  rw [List.take_add_one, h, Option.toList_some]

theorem modify_concat_length {ρ : Type} (l : List ρ) (a : ρ) (f : ρ → ρ) :
    (l ++ [a]).modify l.length f = l ++ [f a] := by
  induction l with
  | nil => rfl
  | cons b l ih => rw [List.cons_append, List.length_cons, List.modify_succ_cons, ih,
      List.cons_append]

namespace Pool

variable {ρ : Type}

/-- Slots that are not in use have the default row. -/
def Tidy [Inhabited ρ] (p : Pool ρ) : Prop :=
  ∀ slot row, p.used ≤ slot → p.row? slot = some row → row = default

variable {p p' : Pool ρ}

/-! ### Rows of the arena -/

theorem row?_eq_none {slot : ℕ} (h : p.capacity ≤ slot) : p.row? slot = none := by
  rw [row?, Array.getElem?_eq_none_iff, p.rows_size]
  exact h

/-- A pool is made of its rows and of what else it has. -/
theorem ext_row? (hname : p'.name = p.name) (hallocator : p'.allocator = p.allocator)
    (hindex : p'.index = p.index) (hrow : ∀ slot, p'.row? slot = p.row? slot) : p' = p := by
  obtain ⟨name, rows, allocator, index, hsize⟩ := p
  obtain ⟨name', rows', allocator', index', hsize'⟩ := p'
  obtain rfl : name' = name := hname
  obtain rfl : allocator' = allocator := hallocator
  obtain rfl : index' = index := hindex
  obtain rfl : rows' = rows := Array.ext_getElem? hrow
  rfl

/-! ### The rows in use -/

@[simp] theorem length_liveRows (p : Pool ρ) : p.liveRows.length = p.used := by
  simp [liveRows, Nat.min_eq_left p.used_le_size]

theorem liveRows_eq_take (p : Pool ρ) : p.liveRows = p.rows.toList.take p.used := by
  simp [liveRows]

theorem liveRows_getElem? {slot : ℕ} (h : slot < p.used) : p.liveRows[slot]? = p.row? slot := by
  simp [liveRows, row?, h]

theorem exists_liveRow {slot : ℕ} (h : slot < p.used) :
    ∃ row ∈ p.liveRows, p.liveRows[slot]? = some row := by
  have hlt : slot < p.liveRows.length := by rwa [length_liveRows]
  exact ⟨_, List.getElem_mem hlt, List.getElem?_eq_getElem hlt⟩

theorem lt_used_of_liveRows {slot : ℕ} {row : ρ} (h : p.liveRows[slot]? = some row) :
    slot < p.used := by
  rw [← length_liveRows]
  exact (List.getElem?_eq_some_iff.mp h).1

/-- The row of a slot in use, as a row of the arena. -/
theorem row?_of_liveRows {slot : ℕ} {row : ρ} (h : p.liveRows[slot]? = some row) :
    p.row? slot = some row := by
  rw [← liveRows_getElem? (lt_used_of_liveRows h), h]

theorem liveRows_congr (hrows : p'.rows = p.rows) (hused : p'.used = p.used) :
    p'.liveRows = p.liveRows := by
  rw [liveRows, liveRows, hrows, hused]

/-- Changing the row of a slot changes that row of the rows in use, if it is one. -/
@[simp] theorem liveRows_modify (p : Pool ρ) (slot : ℕ) (f : ρ → ρ) :
    (p.modify slot f).liveRows = p.liveRows.modify slot f := by
  apply List.ext_getElem?
  intro i
  by_cases hi : i < p.used
  · rw [liveRows_getElem? (by simpa using hi), row?_modify, List.getElem?_modify,
      liveRows_getElem? hi]
    split <;> simp_all
  · rw [List.getElem?_eq_none (by simpa using hi), List.getElem?_eq_none (by simpa using hi)]

theorem tidy_modify [Inhabited ρ] (h : p.Tidy) {slot : ℕ} (hslot : slot < p.used) (f : ρ → ρ) :
    (p.modify slot f).Tidy := by
  intro i row hi hrow
  rw [used_modify] at hi
  rw [row?_modify, if_neg (by omega)] at hrow
  exact h i row hi hrow

/-- `p'` is `p` with every row in use changed. -/
structure Mapped [Inhabited ρ] (p p' : Pool ρ) (f : ρ → ρ) : Prop where
  name_eq : p'.name = p.name
  capacity_eq : p'.capacity = p.capacity
  used_eq : p'.used = p.used
  index_eq : p'.index = p.index
  liveRows_eq : p'.liveRows = p.liveRows.map f
  tidy : p.Tidy → p'.Tidy

theorem modify_eq_self {slot : ℕ} {f : ρ → ρ} (h : ∀ row, p.row? slot = some row → f row = row) :
    p.modify slot f = p := by
  refine ext_row? rfl rfl rfl fun i => ?_
  rw [row?_modify]
  split
  · rename_i hi
    subst hi
    cases hrow : p.row? slot with
    | none => rfl
    | some row => exact congrArg some (h row hrow)
  · rfl

/-- Rows that are to stay as they are do. -/
theorem foldl_modify_eq_self {f : ρ → ρ} (h : ∀ row ∈ p.liveRows, f row = row) :
    (List.range p.used).foldl (fun p slot => p.modify slot f) p = p :=
  foldl_range_induction (P := fun _ p' => p' = p) rfl fun slot p' hslot hp' => by
    subst hp'
    exact modify_eq_self fun row hrow =>
      h row (List.mem_of_getElem? ((liveRows_getElem? hslot).trans hrow))

/-- Changing the first `n` rows one after the other changes each of them once. -/
theorem row?_foldl_modify (p : Pool ρ) (f : ρ → ρ) (n : ℕ) :
    let p' := (List.range n).foldl (fun p slot => p.modify slot f) p
    p'.name = p.name ∧ p'.allocator = p.allocator ∧ p'.index = p.index
      ∧ ∀ slot, p'.row? slot = if slot < n then (p.row? slot).map f else p.row? slot := by
  refine foldl_range_induction (P := fun k (p' : Pool ρ) => p'.name = p.name
    ∧ p'.allocator = p.allocator ∧ p'.index = p.index
    ∧ ∀ slot, p'.row? slot = if slot < k then (p.row? slot).map f else p.row? slot)
    ⟨rfl, rfl, rfl, fun _ => rfl⟩ fun k p' _ h => ?_
  obtain ⟨hname, hallocator, hindex, hrow⟩ := h
  refine ⟨hname, hallocator, hindex, fun slot => ?_⟩
  rw [row?_modify, hrow]
  rcases lt_trichotomy k slot with hlt | rfl | hlt
  · rw [if_neg hlt.ne, if_neg hlt.not_gt, if_neg (by omega)]
  · rw [if_pos rfl, if_neg (lt_irrefl k), if_pos k.lt_succ_self]
  · rw [if_neg hlt.ne', if_pos hlt, if_pos (hlt.trans k.lt_succ_self)]

/-- Changing the rows of all slots in use one after the other changes every row once. -/
theorem mapped_foldl_modify [Inhabited ρ] (p : Pool ρ) (f : ρ → ρ) :
    Mapped p ((List.range p.used).foldl (fun p slot => p.modify slot f) p) f := by
  obtain ⟨hname, hallocator, hindex, hrow⟩ := p.row?_foldl_modify f p.used
  have hused := congrArg Allocator.used hallocator
  refine ⟨hname, congrArg Allocator.capacity hallocator, hused, hindex,
    List.ext_getElem? fun slot => ?_, fun htidy slot row hslot hrow' => ?_⟩
  · rw [List.getElem?_map]
    by_cases hslot : slot < p.used
    · rw [liveRows_getElem? (hslot.trans_eq hused.symm), hrow, if_pos hslot, liveRows_getElem? hslot]
    · rw [List.getElem?_eq_none, List.getElem?_eq_none, Option.map_none]
      · simpa using hslot
      · rw [length_liveRows]
        exact hused.trans_le (not_lt.mp hslot)
  · have hslot : p.used ≤ slot := hused.symm.trans_le hslot
    rw [hrow, if_neg hslot.not_gt] at hrow'
    exact htidy slot row hslot hrow'

/-! ### Asking for a key -/

/-- `p'` is `p` with the next slot given to a new key. -/
structure Created [Inhabited ρ] (p p' : Pool ρ) (key : UInt64) (fill : ρ → ρ) : Prop where
  written : Index.Written p.index p'.index (Key.storable key) (some p.used.toUInt32)
  /-- One slot of the index less is vacant. -/
  vacancies_eq : p'.index.vacancies + 1 = p.index.vacancies
  name_eq : p'.name = p.name
  capacity_eq : p'.capacity = p.capacity
  used_eq : p'.used = p.used + 1
  /-- The new row comes behind the others. -/
  liveRows_eq : p'.liveRows = p.liveRows ++ [fill default]
  tidy : p'.Tidy

/-- `p'` is `p` after a key was refused: no row changes, and the key may have been marked. -/
structure Refused (p p' : Pool ρ) (key : UInt64) : Prop where
  name_eq : p'.name = p.name
  rows_eq : p'.rows = p.rows
  allocator_eq : p'.allocator = p.allocator
  /-- The index stays, or a full pool marked the key. -/
  index_cases : p'.index = p.index
    ∨ (p.used = p.capacity ∧ p.index.raw? (Key.storable key) = none
      ∧ Index.Written p.index p'.index (Key.storable key) (some Index.exhausted)
      ∧ p'.index.vacancies + 1 = p.index.vacancies)

theorem Refused.used_eq {key : UInt64} (h : Refused p p' key) : p'.used = p.used := by
  rw [used, h.allocator_eq, used]

theorem Refused.liveRows_eq {key : UInt64} (h : Refused p p' key) : p'.liveRows = p.liveRows :=
  liveRows_congr h.rows_eq h.used_eq

theorem Refused.tidy [Inhabited ρ] {key : UInt64} (h : Refused p p' key) (ht : p.Tidy) :
    p'.Tidy := by
  intro slot row hslot hrow
  rw [row?, h.rows_eq] at hrow
  exact ht slot row (h.used_eq ▸ hslot) hrow

theorem Refused.sound {key : UInt64} (h : Refused p p' key) (hs : p.index.Sound) :
    p'.index.Sound := by
  rcases h.index_cases with heq | ⟨-, -, hw, -⟩
  · rwa [heq]
  · exact hw.sound

theorem created_of_written [Inhabited ρ] (htidy : p.Tidy) {key : UInt64} (fill : ρ → ρ)
    {slot : ℕ} {allocator : Allocator} (htake : p.allocator.take? = some (slot, allocator))
    {index : Index}
    (hw : Index.Written p.index index (Key.storable key) (some slot.toUInt32))
    (hvac : index.vacancies + 1 = p.index.vacancies)
    (hrows : (p.rows.modify slot fill).size = allocator.capacity) :
    Created p ⟨p.name, p.rows.modify slot fill, allocator, index, hrows⟩ key fill := by
  obtain ⟨rfl, hused, hcapacity⟩ := Allocator.take?_eq_some htake
  have hlt : p.used < p.rows.size := by
    have := allocator.used_le
    rw [Array.size_modify] at hrows
    show p.allocator.used < p.rows.size
    omega
  -- what was written there before the pool was emptied is gone
  have hfresh : p.rows[p.used] = default :=
    htidy p.used _ le_rfl (by rw [row?, Array.getElem?_eq_getElem hlt])
  refine ⟨hw, hvac, rfl, hcapacity, hused, ?_, ?_⟩
  · have hkept : (p.rows.toList.modify p.used fill).take p.used = p.rows.toList.take p.used := by
      rw [List.take_modify, List.modify_eq_self (by simp)]
    have hnew : (p.rows.toList.modify p.used fill)[p.used]? = some (fill default) := by
      simp [hlt, hfresh]
    rw [liveRows_eq_take, liveRows_eq_take]
    show (p.rows.modify p.used fill).toList.take allocator.used = _
    rw [hused, Array.toList_modify, List.take_add_one]
    show (p.rows.toList.modify p.used fill).take p.used ++ _ = _
    rw [hkept]
    exact congrArg (_ ++ Option.toList ·) hnew
  · intro i row hi hrow
    change (p.rows.modify p.used fill)[i]? = some row at hrow
    have hi' : p.used + 1 ≤ i := hused ▸ hi
    rw [Array.getElem?_modify, if_neg (by omega)] at hrow
    exact htidy i row (by omega) hrow

theorem findOrCreate_of_found {key : UInt64} {fill : ρ → ρ} {slot : UInt32}
    (h : ∀ create, Index.findOrCreate key create p.index = .ok (slot, false) p.index) :
    findOrCreate key fill p = .ok (slot, false) p := by
  unfold findOrCreate
  split
  split <;> simp_all [onIndex]

theorem findOrCreate_of_error {key : UInt64} {fill : ρ → ρ} {e : Error}
    (h : ∀ create, Index.findOrCreate key create p.index = .error e p.index) :
    findOrCreate key fill p = .error e p := by
  unfold findOrCreate
  split
  split <;> simp_all [onIndex]

/-- A key that leads to a slot is answered with the slot, and nothing changes. -/
theorem findOrCreate_of_raw? (hsound : p.index.Sound) {key : UInt64} {slot : UInt32}
    (hraw : p.index.raw? (Key.storable key) = some slot) (hslot : slot.toNat < maxPoolCapacity.toNat)
    (fill : ρ → ρ) : findOrCreate key fill p = .ok (slot, false) p := by
  obtain ⟨hunset, hexhausted⟩ := Index.not_reserved hslot
  refine findOrCreate_of_found fun create => ?_
  rw [hsound.findOrCreate_of_some hraw, if_neg hunset, if_neg hexhausted]

/-- A pool with room gives a new key the next slot. -/
theorem findOrCreate_of_take {key : UInt64} (fill : ρ → ρ) {slot : ℕ} {allocator : Allocator}
    (htake : p.allocator.take? = some (slot, allocator)) {index : Index}
    (h : Index.findOrCreate key (.ok slot.toUInt32) p.index = .ok (slot.toUInt32, true) index) :
    ∃ hrows, findOrCreate key fill p
      = .ok (slot.toUInt32, true) ⟨p.name, p.rows.modify slot fill, allocator, index, hrows⟩ := by
  have hrows : (p.rows.modify slot fill).size = allocator.capacity := by
    rw [Array.size_modify, p.rows_size, (Allocator.take?_eq_some htake).2.2]
  refine ⟨hrows, ?_⟩
  unfold findOrCreate
  split
  split <;> simp_all

/-- A full pool leaves a new key to the index. -/
theorem findOrCreate_of_full {key : UInt64} {fill : ρ → ρ} (hfull : p.allocator.take? = none)
    {e : Error} {index : Index}
    (h : Index.findOrCreate key (.error (.overflow p.name p.capacity)) p.index = .error e index) :
    findOrCreate key fill p = .error e ⟨p.name, p.rows, p.allocator, index, p.rows_size⟩ := by
  unfold findOrCreate
  split
  split <;> simp_all [onIndex, capacity]

/-- Everything that asking for a key can do: find its slot, give it the next slot, or refuse. -/
theorem findOrCreate_cases [Inhabited ρ] (hsound : p.index.Sound) (htidy : p.Tidy) (key : UInt64)
    (fill : ρ → ρ) :
    (∃ slot, p.index.raw? (Key.storable key) = some slot ∧ slot ≠ Index.unset
        ∧ slot ≠ Index.exhausted ∧ findOrCreate key fill p = .ok (slot, false) p)
      ∨ (∃ p', p.index.raw? (Key.storable key) = none ∧ p.used < p.capacity
        ∧ findOrCreate key fill p = .ok (p.used.toUInt32, true) p' ∧ Created p p' key fill)
      ∨ (∃ e p', findOrCreate key fill p = .error e p' ∧ Refused p p' key) := by
  have refused_self : Refused p p key := ⟨rfl, rfl, rfl, .inl rfl⟩
  cases hraw : p.index.raw? (Key.storable key) with
  | some v =>
    by_cases hunset : v = Index.unset
    · refine .inr (.inr ⟨.invalidState (.unpublished p.index.name), p,
        findOrCreate_of_error fun create => ?_, refused_self⟩)
      rw [hsound.findOrCreate_of_some hraw, if_pos hunset]
    · by_cases hexhausted : v = Index.exhausted
      · refine .inr (.inr ⟨p.index.overflow, p, findOrCreate_of_error fun create => ?_,
          refused_self⟩)
        rw [hsound.findOrCreate_of_some hraw, if_neg hunset, if_pos hexhausted]
      · refine .inl ⟨v, rfl, hunset, hexhausted, findOrCreate_of_found fun create => ?_⟩
        rw [hsound.findOrCreate_of_some hraw, if_neg hunset, if_neg hexhausted]
  | none =>
    -- whether the index has room does not depend on the creation
    by_cases hroom : p.index.vacancies = 0
    · refine .inr (.inr ⟨p.index.overflow, p, findOrCreate_of_error fun create => ?_, refused_self⟩)
      rcases hsound.findOrCreate_of_none hraw create with ⟨-, h⟩ | ⟨ix, -, hvac, -⟩
      · exact h
      · omega
    · cases htake : p.allocator.take? with
      | some taken =>
        obtain ⟨slot, allocator⟩ := taken
        obtain ⟨hslot, hused, hcapacity⟩ := Allocator.take?_eq_some htake
        rcases hsound.findOrCreate_of_none hraw (.ok slot.toUInt32) with
          ⟨hzero, -⟩ | ⟨ix, hw, hvac, hok⟩
        · exact absurd hzero hroom
        · obtain ⟨hrows, hrun⟩ := findOrCreate_of_take fill htake hok
          have hlt : p.used < p.capacity := by
            have := allocator.used_le
            show p.allocator.used < p.allocator.capacity
            omega
          refine .inr (.inl ⟨_, rfl, hlt, ?_, created_of_written htidy fill htake hw hvac hrows⟩)
          rw [hrun]
          subst hslot
          rfl
      | none =>
        rcases hsound.findOrCreate_of_none hraw (.error (.overflow p.name p.capacity)) with
          ⟨hzero, -⟩ | ⟨ix, hw, hvac, herr⟩
        · exact absurd hzero hroom
        · refine .inr (.inr ⟨_, _, findOrCreate_of_full htake herr, rfl, rfl, rfl, .inr ?_⟩)
          exact ⟨(Allocator.take?_eq_none_iff _).mp htake, hraw, hw, hvac⟩

/-- Whatever asking for a key does, it asks the index for it, fills at most one row and leaves the
others. -/
theorem parts_findOrCreate (p : Pool ρ) (key : UInt64) (fill : ρ → ρ) :
    (Stage.outcome (findOrCreate key fill) p).2.name = p.name
      ∧ (Stage.outcome (findOrCreate key fill) p).2.capacity = p.capacity
      ∧ ((Stage.outcome (findOrCreate key fill) p).2.rows = p.rows
        ∨ ∃ slot, (Stage.outcome (findOrCreate key fill) p).2.rows = p.rows.modify slot fill)
      ∧ ∃ create, (Stage.outcome (findOrCreate key fill) p).2.index
        = (Stage.outcome (Index.findOrCreate key create) p.index).2 := by
  -- the index may be any index here, so `findOrCreate_cases` does not apply
  obtain ⟨name, rows, allocator, index, hsize⟩ := p
  unfold Stage.outcome findOrCreate
  dsimp only
  split <;> rename_i hrun
  all_goals
    split at hrun
    · rename_i slot allocator' htake
      have hcapacity := (Allocator.take?_eq_some htake).2.2
      split at hrun <;> rename_i hindex <;> cases hrun
      all_goals first
        | exact ⟨rfl, hcapacity, .inr ⟨slot, rfl⟩, .ok slot.toUInt32, by rw [hindex]⟩
        | exact ⟨rfl, rfl, .inl rfl, .ok slot.toUInt32, by rw [hindex]⟩
    · dsimp only [onIndex] at hrun
      split at hrun <;> rename_i hindex <;> cases hrun
      exact ⟨rfl, rfl, .inl rfl, .error (.overflow name allocator.capacity), by rw [hindex]⟩

theorem rows_findOrCreate (p : Pool ρ) (key : UInt64) (fill : ρ → ρ) :
    (Stage.outcome (findOrCreate key fill) p).2.capacity = p.capacity
      ∧ ((Stage.outcome (findOrCreate key fill) p).2.rows = p.rows
        ∨ ∃ slot, (Stage.outcome (findOrCreate key fill) p).2.rows = p.rows.modify slot fill) := by
  obtain ⟨-, hcapacity, hrows, -⟩ := p.parts_findOrCreate key fill
  exact ⟨hcapacity, hrows⟩

/-! ### Keys of slots in use -/

/-- Whatever slot the index of a pool answers is in use. -/
structure Grounded [Inhabited ρ] (p : Pool ρ) : Prop where
  sound : p.index.Sound
  tidy : p.Tidy
  /-- The values of keys are slots in use, unless they mark a key that was refused. -/
  lt_used : ∀ key slot, p.index.raw? key = some slot → slot ≠ Index.exhausted → slot.toNat < p.used

theorem Created.grounded [Inhabited ρ] {key : UInt64} {fill : ρ → ρ} (h : Created p p' key fill)
    (hp : p.Grounded) : p'.Grounded := by
  refine ⟨h.written.sound, h.tidy, fun k slot hraw hslot => ?_⟩
  rw [h.written.raw?_eq] at hraw
  rw [h.used_eq]
  split at hraw
  · cases hraw
    exact Nat.lt_succ_of_le (Nat.mod_le _ _)
  · exact (hp.lt_used k slot hraw hslot).trans p.used.lt_succ_self

theorem Refused.grounded [Inhabited ρ] {key : UInt64} (h : Refused p p' key) (hp : p.Grounded) :
    p'.Grounded := by
  refine ⟨h.sound hp.sound, h.tidy hp.tidy, fun k slot hraw hslot => ?_⟩
  rw [h.used_eq]
  rcases h.index_cases with heq | ⟨-, -, hw, -⟩
  · exact hp.lt_used k slot (heq ▸ hraw) hslot
  · rw [hw.raw?_eq] at hraw
    split at hraw
    · cases hraw
      exact absurd rfl hslot
    · exact hp.lt_used k slot hraw hslot

theorem Grounded.modify [Inhabited ρ] (h : p.Grounded) {slot : ℕ} (hslot : slot < p.used)
    (f : ρ → ρ) : (p.modify slot f).Grounded :=
  ⟨h.sound, tidy_modify h.tidy hslot f, h.lt_used⟩

theorem Grounded.mapped [Inhabited ρ] (h : p.Grounded) {f : ρ → ρ} (hmapped : Mapped p p' f) :
    p'.Grounded := by
  refine ⟨hmapped.index_eq ▸ h.sound, hmapped.tidy h.tidy, fun key slot hraw hslot => ?_⟩
  rw [hmapped.used_eq]
  exact h.lt_used key slot (hmapped.index_eq ▸ hraw) hslot

/-- Look-ups find the slots that keys lead to. -/
theorem Grounded.lookup_eq_some_iff [Inhabited ρ] (h : p.Grounded)
    (hle : p.capacity ≤ maxPoolCapacity.toNat) {key : UInt64} {slot : UInt32} :
    p.lookup key = some slot ↔
      p.index.raw? (Key.storable key) = some slot ∧ slot ≠ Index.exhausted := by
  cases hraw : p.index.raw? (Key.storable key) with
  | none => simp [lookup, Index.lookup, hraw]
  | some v =>
    by_cases hmark : v = Index.exhausted
    · subst hmark
      simp [lookup, Index.lookup, hraw, eq_comm]
    · have hlt := (h.lt_used _ _ hraw hmark).trans_le (p.used_le_capacity.trans hle)
      have hunset := (Index.not_reserved hlt).1
      simp only [lookup, Index.lookup_eq_of_raw? hraw hlt, if_neg hunset, Option.some_inj]
      constructor
      · rintro rfl
        exact ⟨rfl, hmark⟩
      · exact And.left

/-- Look-ups find nothing for a key that is not known, and for one that was refused. -/
theorem Grounded.lookup_eq_none_iff [Inhabited ρ] (h : p.Grounded)
    (hle : p.capacity ≤ maxPoolCapacity.toNat) {key : UInt64} :
    p.lookup key = none ↔ p.index.raw? (Key.storable key) = none
      ∨ p.index.raw? (Key.storable key) = some Index.exhausted := by
  rw [Option.eq_none_iff_forall_ne_some]
  simp only [ne_eq, h.lookup_eq_some_iff hle]
  cases p.index.raw? (Key.storable key) with
  | none => simp
  | some v => by_cases hmark : v = Index.exhausted <;> simp [hmark]

/-! ### Blank pools -/

/-- A pool that nothing was ever asked of. -/
structure Blank [Inhabited ρ] (p : Pool ρ) : Prop where
  used_eq : p.used = 0
  row_eq : ∀ slot row, p.row? slot = some row → row = default
  sound : p.index.Sound
  raw?_eq : ∀ key, p.index.raw? key = none

theorem Blank.tidy [Inhabited ρ] (h : p.Blank) : p.Tidy := fun slot row _ => h.row_eq slot row

theorem Blank.grounded [Inhabited ρ] (h : p.Blank) : p.Grounded := by
  refine ⟨h.sound, h.tidy, fun key slot hraw _ => ?_⟩
  rw [h.raw?_eq] at hraw
  cases hraw

theorem Blank.liveRows_eq [Inhabited ρ] (h : p.Blank) : p.liveRows = [] :=
  List.length_eq_zero_iff.mp (p.length_liveRows.trans h.used_eq)

theorem row_eq_of_replicate {n : ℕ} {default row : ρ} {slot : ℕ}
    (h : (Array.replicate n default)[slot]? = some row) : row = default := by
  rw [Array.getElem?_replicate] at h
  split at h
  · exact (Option.some.inj h).symm
  · cases h

/-- Emptying a pool leaves no trace of what it was used for. -/
theorem blank_reset [Inhabited ρ] (p : Pool ρ) : p.reset.Blank where
  used_eq := rfl
  row_eq _ _ h := row_eq_of_replicate h
  sound := p.index.sound_clear
  raw?_eq := p.index.raw?_clear

theorem ofCapacity_eq_ok_iff [Inhabited ρ] {name : String} {capacity indexCapacity : ℕ} :
    ofCapacity name capacity indexCapacity = .ok p ↔
      0 < capacity ∧ capacity ≤ indexCapacity
        ∧ ∃ index, Index.ofCapacity name indexCapacity = .ok index
          ∧ p = ⟨name, Array.replicate capacity default, .ofCapacity capacity, index,
            Array.size_replicate⟩ := by
  unfold ofCapacity
  cases hindex : Index.ofCapacity name indexCapacity with
  | error e =>
    by_cases hroom : capacity = 0 ∨ indexCapacity < capacity <;>
      simp [hroom, bind, Except.bind, throw, throwThe, MonadExceptOf.throw]
  | ok index =>
    by_cases hroom : capacity = 0 ∨ indexCapacity < capacity
    · simp only [hroom, if_true, bind, Except.bind, throw, throwThe, MonadExceptOf.throw]
      constructor
      · rintro ⟨⟩
      · intro h
        obtain ⟨hpos, hle, -⟩ := h
        omega
    · simp only [hroom, if_false, bind, Except.bind, pure, Except.pure, Except.ok.injEq]
      constructor
      · rintro rfl
        exact ⟨by omega, by omega, index, rfl, rfl⟩
      · intro h
        obtain ⟨-, -, _, rfl, rfl⟩ := h
        rfl

theorem blank_of_ofCapacity [Inhabited ρ] {name : String} {capacity indexCapacity : ℕ}
    (h : ofCapacity name capacity indexCapacity = .ok p) : p.Blank ∧ p.capacity = capacity := by
  obtain ⟨-, -, index, hindex, rfl⟩ := ofCapacity_eq_ok_iff.mp h
  obtain ⟨hpos, -, rfl⟩ := Index.ofCapacity_eq_ok_iff.mp hindex
  refine ⟨⟨rfl, fun _ _ h => row_eq_of_replicate h, ?_, ?_⟩, rfl⟩
  · exact Index.sound_vacantOf name indexCapacity hpos
  · exact Index.raw?_vacantOf name indexCapacity hpos

end Pool

end CorpusStats
