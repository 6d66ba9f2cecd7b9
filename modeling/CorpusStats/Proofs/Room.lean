import CorpusStats.Proofs.Failing
import CorpusStats.Proofs.Numbering
import CorpusStats.Proofs.Visits
/-!
# CorpusStats.Proofs.Room

The **room** of a pool and of its index. A pool takes one slot of its index for every slot of
its own that it hands out, and a key that it refuses is marked in one more, but nothing is
refused before the pool is full. So the index has room as long as the pool has
(`Pool.HasRoom.probe_ne_full`), and an overflow says that the pool is full, whether it comes from
the pool, from a mark, or from an index that refused keys have filled up
(`Pool.HasRoom.findOrCreate_cases`).

Rows do not matter for the room. A pool that has room and is tidy is `Pool.Intact`, and such a pool
answers every request that is not marked, as long as it has a slot left for a new key
(`Pool.Intact.findOrCreate_answers_iff`). In a list of visits that depends on what is new in the list,
and not on the order in which it comes (`Pool.Visited.answers_iff`).
-/

namespace CorpusStats

open Stage

variable {ρ : Type}

namespace Pool

/-- No slot is left. -/
def IsFull (p : Pool ρ) : Prop := p.used = p.capacity

/-- The index has room for the slots that are left, and keys are marked only when none is. -/
structure HasRoom (p : Pool ρ) : Prop where
  sound : p.index.Sound
  capacity_le : p.capacity ≤ maxPoolCapacity.toNat
  capacity_le_index : p.capacity ≤ p.index.capacity
  /-- Keys lead to slots in use, or were refused by a full pool. -/
  leads : ∀ key slot, p.index.raw? key = some slot →
    slot.toNat < p.used ∨ slot = Index.exhausted ∧ p.IsFull
  vacant : p.used < p.capacity → p.capacity ≤ p.index.vacancies + p.used

variable {p p' : Pool ρ} {key : UInt64}

/-- Rows do not matter for the room. -/
theorem HasRoom.congr (h : p.HasRoom) (hindex : p'.index = p.index)
    (hcapacity : p'.capacity = p.capacity) (hused : p'.used = p.used) : p'.HasRoom := by
  obtain ⟨hsound, hle, hle', hleads, hvacant⟩ := h
  unfold IsFull at hleads
  refine ⟨hindex ▸ hsound, hcapacity ▸ hle, by rwa [hcapacity, hindex], ?_, ?_⟩
  · rw [hindex, IsFull, hused, hcapacity]
    exact hleads
  · rw [hcapacity, hindex, hused]
    exact hvacant

/-- While slots are left, no probe runs out of slots of the index. -/
theorem HasRoom.probe_ne_full (h : p.HasRoom) (hroom : p.used < p.capacity) (key : UInt64) :
    p.index.probe key ≠ .full := by
  have hvacant := h.vacant hroom
  rcases p.index.probe_cases key with
    ⟨n, v, -, -, -, hp⟩ | ⟨n, -, -, -, hp⟩ | ⟨hclear, -⟩
  · rw [hp]
    rintro ⟨⟩
  · rw [hp]
    rintro ⟨⟩
  · have := hclear.vacancies_eq_zero
    omega

/-- A new key that takes the next slot takes one vacant slot of the index. -/
theorem HasRoom.next (h : p.HasRoom) (hroom : p.used < p.capacity)
    (hw : Index.Written p.index p'.index key (some p.used.toUInt32))
    (hvac : p'.index.vacancies + 1 = p.index.vacancies) (hcapacity : p'.capacity = p.capacity)
    (hused : p'.used = p.used + 1) : p'.HasRoom := by
  refine ⟨hw.sound, hcapacity.trans_le h.capacity_le, ?_, fun k slot hraw => ?_, fun _ => ?_⟩
  · rw [hcapacity, hw.capacity_eq]
    exact h.capacity_le_index
  · rw [hw.raw?_eq] at hraw
    split at hraw
    · cases hraw
      rw [Index.toNat_toUInt32 (hroom.trans_le h.capacity_le), hused]
      exact .inl p.used.lt_succ_self
    · rcases h.leads k slot hraw with hlt | ⟨-, hfull⟩
      · exact .inl (hlt.trans (hused ▸ p.used.lt_succ_self))
      · exact absurd hfull hroom.ne
  · have := h.vacant hroom
    omega

/-- A full pool may mark keys until its index has no room for a mark either. -/
theorem HasRoom.mark (h : p.HasRoom) (hfull : p.IsFull)
    (hw : Index.Written p.index p'.index key (some Index.exhausted))
    (hcapacity : p'.capacity = p.capacity) (hused : p'.used = p.used) : p'.HasRoom := by
  have hfull' : p'.IsFull := hused.trans (hfull.trans hcapacity.symm)
  refine ⟨hw.sound, hcapacity.trans_le h.capacity_le, ?_, fun k slot hraw => ?_, fun hlt => ?_⟩
  · rw [hcapacity, hw.capacity_eq]
    exact h.capacity_le_index
  · rw [hw.raw?_eq] at hraw
    split at hraw
    · cases hraw
      exact .inr ⟨rfl, hfull'⟩
    · rw [hused]
      exact (h.leads k slot hraw).imp_right fun hmark => ⟨hmark.1, hfull'⟩
  · exact absurd hfull' hlt.ne

/-- A key was refused: no slot was given away, and a full pool may have marked the key. -/
structure Overflowed (p p' : Pool ρ) (key : UInt64) : Prop where
  full : p'.IsFull
  used_eq : p'.used = p.used
  index_cases : p'.index = p.index
    ∨ Index.Written p.index p'.index (Key.storable key) (some Index.exhausted)

/-- Everything that asking for a key can do to the index: it has the slot of the key already, it is
given the next slot of the pool, or the pool is full. -/
theorem HasRoom.findOrCreate_index_cases (h : p.HasRoom) (key : UInt64) (fill : ρ → ρ) :
    (∃ slot, p.index.raw? (Key.storable key) = some slot
        ∧ findOrCreate key fill p = .ok (slot, false) p ∧ slot.toNat < p.used)
      ∨ (∃ p', findOrCreate key fill p = .ok (p.used.toUInt32, true) p' ∧ p'.HasRoom
        ∧ p.used < p.capacity ∧ p'.used = p.used + 1
        ∧ Index.Written p.index p'.index (Key.storable key) (some p.used.toUInt32))
      ∨ ∃ e p', findOrCreate key fill p = .error e p' ∧ e.isOverflow = true ∧ p'.HasRoom
        ∧ Overflowed p p' key := by
  cases hraw : p.index.raw? (Key.storable key) with
  | some slot =>
    rcases h.leads _ slot hraw with hlt | ⟨rfl, hfull⟩
    · have hslot := hlt.trans_le (p.used_le_capacity.trans h.capacity_le)
      exact .inl ⟨slot, rfl, findOrCreate_of_raw? h.sound hraw hslot fill, hlt⟩
    · refine .inr (.inr ⟨p.index.overflow, p, findOrCreate_of_error fun create => ?_, rfl, h,
        hfull, rfl, .inl rfl⟩)
      rw [h.sound.findOrCreate_of_some hraw, if_neg (by decide), if_pos rfl]
  | none =>
    cases htake : p.allocator.take? with
    | some taken =>
      obtain ⟨slot, allocator⟩ := taken
      obtain ⟨rfl, hused, hcapacity⟩ := Allocator.take?_eq_some htake
      have hroom : p.used < p.capacity := by
        have := allocator.used_le
        show p.allocator.used < p.allocator.capacity
        omega
      rcases h.sound.findOrCreate_of_none hraw (.ok p.used.toUInt32) with
        ⟨hzero, -⟩ | ⟨index, hw, hvac, hok⟩
      · have := h.vacant hroom
        omega
      · obtain ⟨hrows, hrun⟩ := findOrCreate_of_take fill htake hok
        exact .inr (.inl ⟨_, hrun, h.next hroom hw hvac hcapacity hused, hroom, hused, hw⟩)
    | none =>
      have hfull : p.IsFull := (Allocator.take?_eq_none_iff _).mp htake
      rcases h.sound.findOrCreate_of_none hraw (.error (.overflow p.name p.capacity)) with
        ⟨-, herror⟩ | ⟨index, hw, -, herror⟩
      · exact .inr (.inr ⟨_, _, findOrCreate_of_full htake herror, rfl, h.congr rfl rfl rfl, hfull,
          rfl, .inl rfl⟩)
      · exact .inr (.inr ⟨_, _, findOrCreate_of_full htake herror, rfl, h.mark hfull hw rfl rfl,
          hfull, rfl, .inr hw⟩)

/-- Everything that asking for a key can do: it answers a slot in use, or the pool is full. -/
theorem HasRoom.findOrCreate_cases (h : p.HasRoom) (key : UInt64) (fill : ρ → ρ) :
    (∃ slot created p', findOrCreate key fill p = .ok (slot, created) p' ∧ p'.HasRoom
        ∧ slot.toNat < p'.used)
      ∨ ∃ e p', findOrCreate key fill p = .error e p' ∧ e.isOverflow = true ∧ p'.HasRoom
        ∧ p'.IsFull := by
  rcases h.findOrCreate_index_cases key fill with
    ⟨slot, -, hrun, hlt⟩ | ⟨p', hrun, hroom', hlt, hused, -⟩ | ⟨e, p', hrun, he, hroom', hover⟩
  · exact .inl ⟨slot, false, p, hrun, h, hlt⟩
  · refine .inl ⟨_, true, p', hrun, hroom', ?_⟩
    rw [Index.toNat_toUInt32 (hlt.trans_le h.capacity_le), hused]
    exact p.used.lt_succ_self
  · exact .inr ⟨e, p', hrun, he, hroom', hover.full⟩

/-- An overflow leaves a pool that is full. -/
def FullOn (e : Error) (p : Pool ρ) : Prop := e.isOverflow = true → p.IsFull

/-- What is refused has not run out of room. -/
theorem fullOn_of_malformed {e : Error} (h : ∃ fault, e = .malformed fault) (p : Pool ρ) :
    FullOn e p := by
  obtain ⟨fault, rfl⟩ := h
  rintro ⟨⟩

/-- Asking for a key runs out of room with the pool only. -/
theorem keepsOr_findOrCreate (key : UInt64) (fill : ρ → ρ) :
    KeepsOr HasRoom FullOn (findOrCreate key fill) := by
  refine .intro (fun p answer p' h hrun => ?_) fun p e p' h hrun => ?_ <;>
    rcases h.findOrCreate_cases key fill with
      ⟨slot, created, p'', hrun', hroom, -⟩ | ⟨e', p'', hrun', -, hroom, hfull⟩ <;>
    rw [hrun'] at hrun <;> cases hrun
  · exact hroom
  · exact fun _ => hfull

/-! ### Where pools with room come from -/

/-- A pool that numbers its keys has room. -/
theorem Numbers.hasRoom {keys : List UInt64} (h : p.Numbers keys) : p.HasRoom := by
  refine ⟨h.sound, h.capacity_le, h.capacity_le_index, fun key slot hraw => ?_, h.vacant⟩
  by_cases hmark : slot = Index.exhausted
  · subst hmark
    exact .inr ⟨rfl, h.full_of_exhausted hraw⟩
  · rw [h.used_eq]
    exact .inl (List.getElem?_eq_some_iff.mp (h.getElem?_of_raw? hraw hmark)).1

theorem hasRoom_of_ofCapacity [Inhabited ρ] {name : String} {capacity indexCapacity : ℕ}
    (hle : capacity ≤ maxPoolCapacity.toNat)
    (h : ofCapacity name capacity indexCapacity = .ok p) : p.HasRoom :=
  (numbers_of_ofCapacity hle h).hasRoom

theorem HasRoom.reset [Inhabited ρ] (h : p.HasRoom) : p.reset.HasRoom :=
  (p.blank_reset.numbers h.capacity_le
    (h.capacity_le_index.trans_eq p.index.capacity_clear.symm)
    (p.index.vacancies_clear.trans p.index.capacity_clear.symm)).hasRoom

/-! ### Rows -/

/-- A pool with room in which slots that are not in use have the default row. -/
structure Intact [Inhabited ρ] (p : Pool ρ) : Prop extends HasRoom p where
  tidy : p.Tidy

theorem Intact.modify [Inhabited ρ] (h : p.Intact) {slot : ℕ} (hslot : slot < p.used) (f : ρ → ρ) :
    (p.modify slot f).Intact :=
  ⟨h.toHasRoom.congr rfl rfl rfl, tidy_modify h.tidy hslot f⟩

theorem Intact.mapped [Inhabited ρ] (h : p.Intact) {f : ρ → ρ} (hmapped : Mapped p p' f) :
    p'.Intact :=
  ⟨h.toHasRoom.congr hmapped.index_eq hmapped.capacity_eq hmapped.used_eq, hmapped.tidy h.tidy⟩

theorem Intact.reset [Inhabited ρ] (h : p.Intact) : p.reset.Intact :=
  ⟨h.toHasRoom.reset, p.blank_reset.tidy⟩

/-- Everything that asking for a key can do to the rows: it leaves them, puts the default row
filled in behind them, or is refused by a full pool and leaves them. -/
theorem Intact.findOrCreate_cases [Inhabited ρ] (h : p.Intact) (key : UInt64) (fill : ρ → ρ) :
    (∃ slot created p', findOrCreate key fill p = .ok (slot, created) p' ∧ p'.Intact
        ∧ slot.toNat < p'.used
        ∧ (p'.liveRows = p.liveRows ∨ p'.liveRows = p.liveRows ++ [fill default]))
      ∨ ∃ e p', findOrCreate key fill p = .error e p' ∧ p'.Intact ∧ p'.liveRows = p.liveRows := by
  rcases h.toHasRoom.findOrCreate_cases key fill with
    ⟨slot, created, p', hrun, hroom, hlt⟩ | ⟨e, p', hrun, -, hroom, -⟩ <;>
    rcases Pool.findOrCreate_cases h.sound h.tidy key fill with
      ⟨slot', -, -, -, hrun'⟩ | ⟨p'', -, -, hrun', hcreated⟩ | ⟨e', p'', hrun', hrefused⟩ <;>
    rw [hrun] at hrun' <;> cases hrun'
  · exact .inl ⟨slot, false, p, hrun, h, hlt, .inl rfl⟩
  · exact .inl ⟨_, true, p', hrun, ⟨hroom, hcreated.tidy⟩, hlt, .inr hcreated.liveRows_eq⟩
  · exact .inr ⟨e, p', hrun, ⟨hroom, hrefused.tidy h.tidy⟩, hrefused.liveRows_eq⟩

/-- A pool that answers is as intact as before, and the slot it answers is in use. -/
theorem Intact.of_findOrCreate_eq_ok [Inhabited ρ] (h : p.Intact) {key : UInt64} {fill : ρ → ρ}
    {answer : UInt32 × Bool} (hrun : findOrCreate key fill p = .ok answer p') :
    p'.Intact ∧ answer.1.toNat < p'.used := by
  rcases h.findOrCreate_cases key fill with
    ⟨slot, created, q, hrun', hintact, hlt, -⟩ | ⟨e, q, hrun', -⟩
  · rw [hrun'] at hrun
    cases hrun
    exact ⟨hintact, hlt⟩
  · rw [hrun'] at hrun
    cases hrun

/-! ### Answers -/

/-- A key is refused if it is marked, or new to a pool that is full. -/
theorem Intact.findOrCreate_answers_iff [Inhabited ρ] (h : p.Intact) {key : UInt64}
    {fill : ρ → ρ} : (∃ answer p', findOrCreate key fill p = .ok answer p') ↔
      p.index.raw? (Key.storable key) ≠ some Index.exhausted
        ∧ (p.index.raw? (Key.storable key) = none → p.used < p.capacity) := by
  constructor
  · rintro ⟨answer, p', hrun⟩
    rcases Pool.findOrCreate_cases h.sound h.tidy key fill with
      ⟨slot, hraw, -, hmark, -⟩ | ⟨q, hraw, hroom, -⟩ | ⟨e, q, hrun', -⟩
    · simp [hraw, hmark]
    · simp [hraw, hroom]
    · rw [hrun'] at hrun
      cases hrun
  · rintro ⟨hmark, hroom⟩
    rcases Pool.findOrCreate_cases h.sound h.tidy key fill with
      ⟨slot, -, -, -, hrun⟩ | ⟨q, -, -, hrun, -⟩ | ⟨e, q, hrun, hrefused⟩
    · exact ⟨_, _, hrun⟩
    · exact ⟨_, _, hrun⟩
    · -- the pool is full, so the key is known, and it leads to a slot
      have hfull : p.IsFull := by
        rcases h.toHasRoom.findOrCreate_cases key fill with
          ⟨slot, created, q', hrun', -⟩ | ⟨e', q', hrun', -, -, hfull⟩
        · rw [hrun'] at hrun
          cases hrun
        · rw [hrun'] at hrun
          cases hrun
          rwa [IsFull, hrefused.used_eq, capacity, hrefused.allocator_eq] at hfull
      cases hraw : p.index.raw? (Key.storable key) with
      | none => exact absurd hfull (hroom hraw).ne
      | some slot =>
        rcases h.leads _ slot hraw with hlt | ⟨rfl, -⟩
        · have hslot := hlt.trans_le (p.used_le_capacity.trans h.capacity_le)
          exact ⟨_, _, findOrCreate_of_raw? h.sound hraw hslot fill⟩
        · exact absurd hraw hmark

theorem Intact.grounded [Inhabited ρ] (h : p.Intact) : p.Grounded :=
  ⟨h.sound, h.tidy, fun key slot hraw hslot =>
    (h.leads key slot hraw).resolve_right fun hmark => hslot hmark.1⟩

/-- After some visits one more request is answered if its key was not marked before them and there
are slots for all new keys. -/
theorem Visited.answers_iff {ι : Type} {name : ι → UInt64} {fill : ι → ρ → ρ} {change : ρ → ρ}
    {rs : List ι} {r : ι} [Inhabited ρ] (h : Visited name fill change p p' rs) (hp' : p'.Intact)
    (hle : p.capacity ≤ maxPoolCapacity.toNat) (hname : Key.storable (name r) = name r) :
    (∃ answer p'', findOrCreate (name r) (fill r) p' = .ok answer p'') ↔
      p.index.raw? (name r) ≠ some Index.exhausted
        ∧ p.used + (p.newKeys ((rs ++ [r]).map name)).length ≤ p.capacity := by
  have hused := p'.used_le_capacity
  rw [h.used_eq, h.capacity_eq] at hused
  rw [hp'.findOrCreate_answers_iff, hname, List.map_append, List.map_singleton]
  refine and_congr (not_congr ⟨fun hraw => ?_, h.known _ _⟩) ?_
  · by_contra hmark
    exact h.unmarked hle hmark hraw
  · cases hraw : p'.index.raw? (name r) with
    | none =>
      obtain ⟨hold, hnew⟩ := h.new_of_unknown hraw
      rw [newKeys_concat_of_new hold hnew, List.length_append, List.length_singleton,
        h.used_eq, h.capacity_eq]
      simp only [true_imp_iff]
      omega
    | some slot =>
      have hknown : p.index.raw? (name r) ≠ none ∨ name r ∈ p.newKeys (rs.map name) := by
        by_contra hunknown
        obtain ⟨hold, hnew⟩ := not_or.mp hunknown
        rw [h.unknown _ (not_not.mp hold) hnew] at hraw
        cases hraw
      rw [newKeys_concat_of_known hknown]
      simp [hused]

end Pool

end CorpusStats
