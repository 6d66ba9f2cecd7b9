import CorpusStats.Proofs.Pool
/-!
# CorpusStats.Proofs.Numbering

**A pool numbers keys first come, first served.**

* `Key.firstCome` is the numbering as a list: the distinct stored keys in the order of first
  request, as many as there is room for. It only grows (`firstCome_grows`), and not beyond
  the room (`firstCome_append_of_full`).
* `Pool.Numbers p keys` says that the index of a pool is that list after the requests `keys`.
  A key that found no room may hold a mark, and marks use up slots of the index; but none is
  set before the pool is full, so keys in the list never lack a slot of the index.
-/

namespace CorpusStats

variable {ρ ι : Type}

/-! ### First come -/

namespace Key

/-- The keys with a slot in a pool of `room` slots after requests for `keys`, by slots. -/
def firstCome (room : ℕ) (keys : List UInt64) : List UInt64 :=
  ((keys.map storable).eraseDups).take room

variable {room : ℕ} {keys more : List UInt64} {key : UInt64}

theorem length_firstCome_le (room : ℕ) (keys : List UInt64) :
    (firstCome room keys).length ≤ room := List.length_take_le _ _

@[simp] theorem firstCome_nil (room : ℕ) : firstCome room [] = [] := List.take_nil

/-- A known key changes nothing, and neither does a new key without room. -/
theorem firstCome_concat_of_not_new
    (h : storable key ∈ firstCome room keys ∨ (firstCome room keys).length = room) :
    firstCome room (keys ++ [key]) = firstCome room keys := by
  by_cases hknown : storable key ∈ keys.map storable
  · have hnone : [storable key].removeAll (keys.map storable) = [] := by
      simpa [List.removeAll] using hknown
    simp only [firstCome, List.map_append, List.map_cons, List.map_nil, List.eraseDups_append,
      hnone, List.eraseDups_nil, List.append_nil]
  · have hfull : room ≤ ((keys.map storable).eraseDups).length := by
      rcases h with hmem | hlength
      · exact absurd (List.mem_eraseDups.mp (List.mem_of_mem_take hmem)) hknown
      · rw [← hlength]
        exact List.length_take_le' _ _
    rw [firstCome, List.map_append, List.eraseDups_append, List.take_append_of_le_length hfull,
      firstCome]

/-- A new key takes the next place. -/
theorem firstCome_concat_of_new (hnew : storable key ∉ firstCome room keys)
    (hroom : (firstCome room keys).length < room) :
    firstCome room (keys ++ [key]) = firstCome room keys ++ [storable key] := by
  have hlength : ((keys.map storable).eraseDups).length < room := by
    rw [firstCome, List.length_take] at hroom
    omega
  -- there was room for every key so far
  have hall : firstCome room keys = (keys.map storable).eraseDups :=
    List.take_of_length_le hlength.le
  have hone : [storable key].removeAll (keys.map storable) = [storable key] := by
    rw [hall, List.mem_eraseDups] at hnew
    simpa [List.removeAll] using hnew
  rw [hall, firstCome, List.map_append, List.eraseDups_append, List.map_cons, List.map_nil, hone]
  exact List.take_of_length_le (by simpa [List.eraseDups_cons] using hlength)

theorem firstCome_concat_cases (room : ℕ) (keys : List UInt64) (key : UInt64) :
    firstCome room (keys ++ [key]) = firstCome room keys
      ∨ storable key ∉ firstCome room keys
        ∧ firstCome room (keys ++ [key]) = firstCome room keys ++ [storable key] := by
  by_cases h : storable key ∈ firstCome room keys ∨ (firstCome room keys).length = room
  · exact .inl (firstCome_concat_of_not_new h)
  · obtain ⟨hnew, hne⟩ := not_or.mp h
    have hroom := lt_of_le_of_ne (length_firstCome_le room keys) hne
    exact .inr ⟨hnew, firstCome_concat_of_new hnew hroom⟩

theorem nodup_firstCome (room : ℕ) (keys : List UInt64) : (firstCome room keys).Nodup := by
  induction keys using List.reverseRecOn with
  | nil => simp
  | append_singleton keys key ih =>
    rcases firstCome_concat_cases room keys key with heq | ⟨hnew, heq⟩
    · rwa [heq]
    · rw [heq, List.nodup_append]
      refine ⟨ih, List.nodup_singleton _, fun k hk k' hk' heq => ?_⟩
      rw [List.mem_singleton] at hk'
      exact hnew (hk' ▸ heq ▸ hk)

/-- Later requests leave every number as it is. -/
theorem firstCome_grows (room : ℕ) (keys more : List UInt64) :
    firstCome room keys <+: firstCome room (keys ++ more) := by
  induction more using List.reverseRecOn with
  | nil => simp
  | append_singleton more key ih =>
    refine ih.trans ?_
    rw [← List.append_assoc]
    rcases firstCome_concat_cases room (keys ++ more) key with heq | ⟨-, heq⟩ <;> rw [heq]
    exact List.prefix_append _ _

theorem getElem?_of_prefix {l l' : List ι} (h : l <+: l') {n : ℕ} {a : ι} (ha : l[n]? = some a) :
    l'[n]? = some a := by
  obtain ⟨more, rfl⟩ := h
  rw [List.getElem?_append_left (List.getElem?_eq_some_iff.mp ha).1, ha]

theorem firstCome_append_of_full (hfull : (firstCome room keys).length = room)
    (more : List UInt64) : firstCome room (keys ++ more) = firstCome room keys := by
  refine ((firstCome_grows room keys more).eq_of_length_le ?_).symm
  rw [hfull]
  exact length_firstCome_le _ _

/-- While there is room, every key that was asked for has a number. -/
theorem mem_firstCome_of_room (hroom : (firstCome room keys).length < room) :
    storable key ∈ firstCome room keys ↔ storable key ∈ keys.map storable := by
  have hlength : ((keys.map storable).eraseDups).length ≤ room := by
    rw [firstCome, List.length_take] at hroom
    omega
  rw [firstCome, List.take_of_length_le hlength, List.mem_eraseDups]

theorem mem_map_of_mem_firstCome (h : key ∈ firstCome room keys) : key ∈ keys.map storable :=
  List.mem_eraseDups.mp (List.mem_of_mem_take h)

end Key

namespace Pool

open Key

variable {p p' : Pool ρ} {keys : List UInt64} {key : UInt64}

/-! ### Numbers -/

/-- After requests for `keys`, the pool finds the keys that came first under their numbers. -/
structure Numbers (p : Pool ρ) (keys : List UInt64) : Prop where
  sound : p.index.Sound
  capacity_le : p.capacity ≤ maxPoolCapacity.toNat
  capacity_le_index : p.capacity ≤ p.index.capacity
  used_eq : p.used = (firstCome p.capacity keys).length
  raw?_eq : ∀ (n : ℕ) k, (firstCome p.capacity keys)[n]? = some k →
    p.index.raw? k = some n.toUInt32
  /-- A key without number is absent, or marked when the pool was full. -/
  marked : ∀ k u, k ∉ firstCome p.capacity keys → p.index.raw? k = some u →
    u = Index.exhausted ∧ p.used = p.capacity
  /-- The index has room for the keys that the pool has room for. -/
  vacant : p.used < p.capacity → p.capacity ≤ p.index.vacancies + p.used

theorem Numbers.used_lt_iff (h : p.Numbers keys) :
    p.used < p.capacity ↔ (firstCome p.capacity keys).length < p.capacity := by
  rw [h.used_eq]

/-- The numbers below the room are numbers of slots. -/
theorem Numbers.lt_maxPoolCapacity (h : p.Numbers keys) {n : ℕ} {k : UInt64}
    (hk : (firstCome p.capacity keys)[n]? = some k) : n < maxPoolCapacity.toNat := by
  have hlt := (List.getElem?_eq_some_iff.mp hk).1
  have hle := length_firstCome_le p.capacity keys
  have hcapacity := h.capacity_le
  omega

/-- Rows do not matter for the numbering. -/
theorem Numbers.congr (h : p.Numbers keys) (hindex : p'.index = p.index)
    (hcapacity : p'.capacity = p.capacity) (hused : p'.used = p.used) : p'.Numbers keys := by
  obtain ⟨hsound, hle, hle', hlength, hraw, hmarked, hvacant⟩ := h
  refine ⟨hindex ▸ hsound, hcapacity ▸ hle, by rwa [hcapacity, hindex], ?_, ?_, ?_, ?_⟩
  · rw [hused, hcapacity, hlength]
  · rw [hcapacity, hindex]
    exact hraw
  · rw [hcapacity, hindex, hused]
    exact hmarked
  · rw [hcapacity, hindex, hused]
    exact hvacant

/-- Only the list of numbers matters of the requests. -/
theorem Numbers.congr_keys {keys' : List UInt64} (h : p.Numbers keys)
    (heq : firstCome p.capacity keys' = firstCome p.capacity keys) : p.Numbers keys' := by
  obtain ⟨hsound, hle, hle', hlength, hraw, hmarked, hvacant⟩ := h
  exact ⟨hsound, hle, hle', heq ▸ hlength, heq ▸ hraw, heq ▸ hmarked, hvacant⟩

/-- Further requests mean nothing to a full pool. -/
theorem Numbers.append_of_full (h : p.Numbers keys) (hfull : p.used = p.capacity)
    (more : List UInt64) : p.Numbers (keys ++ more) :=
  h.congr_keys (firstCome_append_of_full (h.used_eq ▸ hfull) more)

/-- Asking for a key with a number finds it. -/
theorem Numbers.findOrCreate_of_mem (h : p.Numbers keys) {n : ℕ}
    (hn : (firstCome p.capacity keys)[n]? = some (storable key)) (fill : ρ → ρ) :
    findOrCreate key fill p = .ok (n.toUInt32, false) p ∧ p.Numbers (keys ++ [key]) := by
  have hlt := h.lt_maxPoolCapacity hn
  constructor
  · exact findOrCreate_of_raw? h.sound (h.raw?_eq n _ hn) (by rwa [Index.toNat_toUInt32 hlt]) fill
  · exact h.congr_keys (firstCome_concat_of_not_new (.inl (List.mem_of_getElem? hn)))

/-- A new key that was written with the next number has it. -/
theorem Numbers.next (h : p.Numbers keys) (hnew : storable key ∉ firstCome p.capacity keys)
    (hroom : p.used < p.capacity)
    (hw : Index.Written p.index p'.index (storable key) (some p.used.toUInt32))
    (hvac : p'.index.vacancies + 1 = p.index.vacancies) (hcapacity : p'.capacity = p.capacity)
    (hused : p'.used = p.used + 1) : p'.Numbers (keys ++ [key]) := by
  have heq : firstCome p.capacity (keys ++ [key]) = firstCome p.capacity keys ++ [storable key] :=
    firstCome_concat_of_new hnew (h.used_lt_iff.mp hroom)
  have hlength := h.used_eq
  constructor
  case sound => exact hw.sound
  case capacity_le => exact hcapacity.trans_le h.capacity_le
  case capacity_le_index => rw [hcapacity, hw.capacity_eq]; exact h.capacity_le_index
  case used_eq =>
    rw [hcapacity, heq, List.length_append, ← hlength]
    exact hused
  case raw?_eq =>
    intro n k hn
    rw [hcapacity, heq] at hn
    rw [hw.raw?_eq]
    rcases getElem?_concat_cases hn with hn | ⟨rfl, rfl⟩
    · have hk : k ≠ storable key := fun hk => hnew (hk ▸ List.mem_of_getElem? hn)
      rw [if_neg hk, h.raw?_eq n k hn]
    · rw [if_pos rfl, hlength]
  case marked =>
    intro k u hk hraw
    rw [hcapacity, heq, List.mem_append, List.mem_singleton, not_or] at hk
    rw [hw.raw?_eq, if_neg hk.2] at hraw
    exact absurd (h.marked k u hk.1 hraw).2 hroom.ne
  case vacant =>
    intro _
    have hvacant := h.vacant hroom
    omega

/-- A mark on a key that found no room is none of the numbers. -/
theorem Numbers.mark (h : p.Numbers keys) (hnew : storable key ∉ firstCome p.capacity keys)
    (hfull : p.used = p.capacity)
    (hw : Index.Written p.index p'.index (storable key) (some Index.exhausted))
    (hcapacity : p'.capacity = p.capacity) (hused : p'.used = p.used) :
    p'.Numbers (keys ++ [key]) := by
  have heq : firstCome p.capacity (keys ++ [key]) = firstCome p.capacity keys :=
    firstCome_append_of_full (h.used_eq ▸ hfull) [key]
  constructor
  case sound => exact hw.sound
  case capacity_le => exact hcapacity.trans_le h.capacity_le
  case capacity_le_index => rw [hcapacity, hw.capacity_eq]; exact h.capacity_le_index
  case used_eq => rw [hused, hcapacity, heq, h.used_eq]
  case raw?_eq =>
    intro n k hn
    rw [hcapacity, heq] at hn
    have hk : k ≠ storable key := fun hk => hnew (hk ▸ List.mem_of_getElem? hn)
    rw [hw.raw?_eq, if_neg hk, h.raw?_eq n k hn]
  case marked =>
    intro k u hk hraw
    rw [hcapacity, heq] at hk
    rw [hused, hcapacity]
    rw [hw.raw?_eq] at hraw
    split at hraw
    · cases hraw
      exact ⟨rfl, hfull⟩
    · exact ⟨(h.marked k u hk hraw).1, hfull⟩
  case vacant => exact fun hlt => absurd hfull (by omega)

/-- While there is room, asking for a new key gives it the next number. -/
theorem Numbers.findOrCreate_of_room (h : p.Numbers keys)
    (hnew : storable key ∉ firstCome p.capacity keys) (hroom : p.used < p.capacity)
    (fill : ρ → ρ) :
    ∃ p', findOrCreate key fill p = .ok (p.used.toUInt32, true) p'
      ∧ p'.Numbers (keys ++ [key]) ∧ p'.capacity = p.capacity ∧ p'.used = p.used + 1
      ∧ p'.rows = p.rows.modify p.used fill := by
  have hnone : p.index.raw? (storable key) = none := by
    cases hraw : p.index.raw? (storable key) with
    | none => rfl
    | some u => exact absurd (h.marked _ u hnew hraw).2 hroom.ne
  obtain ⟨⟨slot, allocator⟩, htake⟩ : ∃ taken, p.allocator.take? = some taken := by
    rw [← Option.isSome_iff_exists, ← Option.ne_none_iff_isSome]
    exact fun hnone => absurd ((Allocator.take?_eq_none_iff _).mp hnone) hroom.ne
  obtain ⟨rfl, hused, hcapacity⟩ := Allocator.take?_eq_some htake
  have hvacant := h.vacant hroom
  rcases h.sound.findOrCreate_of_none hnone (.ok p.used.toUInt32) with
    ⟨hzero, -⟩ | ⟨ix, hw, hvac, hok⟩
  · omega
  · obtain ⟨hrows, hrun⟩ := findOrCreate_of_take fill htake hok
    exact ⟨_, hrun, h.next hnew hroom hw hvac hcapacity hused, hcapacity, hused, rfl⟩

/-- A full pool refuses a new key, and every number stays. -/
theorem Numbers.findOrCreate_of_full (h : p.Numbers keys)
    (hnew : storable key ∉ firstCome p.capacity keys) (hfull : p.used = p.capacity)
    (fill : ρ → ρ) :
    ∃ e p', findOrCreate key fill p = .error e p' ∧ e.isOverflow = true
      ∧ p'.Numbers (keys ++ [key]) ∧ p'.capacity = p.capacity ∧ p'.used = p.used
      ∧ p'.rows = p.rows := by
  have hself : p.Numbers (keys ++ [key]) := h.append_of_full hfull [key]
  cases hraw : p.index.raw? (storable key) with
  | some u =>
    -- the mark of an earlier refusal
    obtain ⟨rfl, -⟩ := h.marked _ u hnew hraw
    refine ⟨p.index.overflow, p, findOrCreate_of_error fun create => ?_, rfl, hself, rfl, rfl, rfl⟩
    rw [h.sound.findOrCreate_of_some hraw, if_neg (by decide), if_pos rfl]
  | none =>
    have htake := (Allocator.take?_eq_none_iff p.allocator).mpr hfull
    rcases h.sound.findOrCreate_of_none hraw (.error (.overflow p.name p.capacity)) with
      ⟨-, herror⟩ | ⟨ix, hw, hvac, herror⟩
    · exact ⟨_, _, Pool.findOrCreate_of_full htake herror, rfl, hself, rfl, rfl, rfl⟩
    · exact ⟨_, _, Pool.findOrCreate_of_full htake herror, rfl, h.mark hnew hfull hw rfl rfl,
        rfl, rfl, rfl⟩

/-- Everything that asking for a key can do: it is answered with the number of the key, or
the key is one too many. -/
theorem Numbers.findOrCreate (h : p.Numbers keys) (key : UInt64) (fill : ρ → ρ) :
    (∃ (n : ℕ) (created : Bool) (p' : Pool ρ),
        findOrCreate key fill p = .ok (n.toUInt32, created) p'
        ∧ (firstCome p.capacity (keys ++ [key]))[n]? = some (storable key)
        ∧ (created = true ↔ storable key ∉ keys.map storable)
        ∧ p'.capacity = p.capacity ∧ p'.Numbers (keys ++ [key]))
      ∨ ∃ e p', findOrCreate key fill p = .error e p' ∧ e.isOverflow = true
        ∧ p.used = p.capacity ∧ storable key ∉ firstCome p.capacity keys
        ∧ p'.capacity = p.capacity ∧ p'.used = p.used ∧ p'.Numbers (keys ++ [key]) := by
  by_cases hmem : storable key ∈ firstCome p.capacity keys
  · obtain ⟨n, hn⟩ := List.mem_iff_getElem?.mp hmem
    obtain ⟨hrun, hnumbers⟩ := h.findOrCreate_of_mem hn fill
    refine .inl ⟨n, false, p, hrun, ?_, ?_, rfl, hnumbers⟩
    · rwa [firstCome_concat_of_not_new (.inl hmem)]
    · simpa using mem_map_of_mem_firstCome hmem
  · rcases p.used_le_capacity.lt_or_eq with hroom | hfull
    · obtain ⟨p', hrun, hnumbers, hcapacity, -, -⟩ := h.findOrCreate_of_room hmem hroom fill
      have hroom' := h.used_lt_iff.mp hroom
      refine .inl ⟨p.used, true, p', hrun, ?_, ?_, hcapacity, hnumbers⟩
      · rw [firstCome_concat_of_new hmem hroom', h.used_eq, List.getElem?_concat_length]
      · rw [← mem_firstCome_of_room hroom']
        exact iff_of_true rfl hmem
    · obtain ⟨e, p', hrun, he, hnumbers, hcapacity, hused, -⟩ :=
        h.findOrCreate_of_full hmem hfull fill
      exact .inr ⟨e, p', hrun, he, hfull, hmem, hcapacity, hused, hnumbers⟩

/-- The slot that answers a request is in use. -/
theorem Numbers.lt_used (h : p.Numbers keys) {fill : ρ → ρ} {slot : UInt32} {created : Bool}
    (hrun : Pool.findOrCreate key fill p = .ok (slot, created) p') : slot.toNat < p'.used := by
  rcases h.findOrCreate key fill with
    ⟨n, created', p'', hrun', hn, -, hcapacity, hnumbers⟩ | ⟨e, p'', hrun', -⟩
  · rw [hrun'] at hrun
    cases hrun
    rw [← hcapacity] at hn
    rw [Index.toNat_toUInt32 (hnumbers.lt_maxPoolCapacity hn), hnumbers.used_eq]
    exact (List.getElem?_eq_some_iff.mp hn).1
  · rw [hrun'] at hrun
    cases hrun

/-- Asking for keys one after the other, if it comes to its end, answers their numbers. -/
theorem Numbers.mapM_eq_ok (h : p.Numbers keys) {k : ι → UInt64} {f : ι → ρ → ρ}
    {items : List ι} {slots : List UInt32}
    (hrun : items.mapM (fun i => Prod.fst <$> Pool.findOrCreate (k i) (f i)) p = .ok slots p') :
    p'.capacity = p.capacity ∧ p'.Numbers (keys ++ items.map k)
      ∧ List.Forall₂ (fun i (slot : UInt32) =>
          (firstCome p.capacity (keys ++ items.map k))[slot.toNat]? = some (storable (k i)))
        items slots := by
  refine mapM_ok_induction (P := fun done slots (p' : Pool ρ) =>
      p'.capacity = p.capacity ∧ p'.Numbers (keys ++ done.map k)
        ∧ List.Forall₂ (fun i (slot : UInt32) =>
            (firstCome p.capacity (keys ++ done.map k))[slot.toNat]? = some (storable (k i)))
          done slots)
    hrun ⟨rfl, by rwa [List.map_nil, List.append_nil], .nil⟩ ?_
  intro done i rest slots p₁ slot p₂ _ hdone hstep
  obtain ⟨hcapacity, hnumbers, hall⟩ := hdone
  obtain ⟨⟨_, _⟩, hfind, rfl⟩ := Stage.map_eq_ok_iff.mp hstep
  rcases hnumbers.findOrCreate (k i) (f i) with
    ⟨n, created, p'', hfind', hn, -, hcapacity', hnumbers'⟩ | ⟨e, p'', hfind', -⟩
  · rw [hfind'] at hfind
    cases hfind
    rw [hcapacity] at hcapacity' hn
    rw [List.map_append, ← List.append_assoc]
    refine ⟨hcapacity', hnumbers', List.rel_append (hall.imp fun i u hu => ?_) (.cons ?_ .nil)⟩
    · exact getElem?_of_prefix (firstCome_grows _ _ _) hu
    · rwa [Index.toNat_toUInt32]
      exact hnumbers'.lt_maxPoolCapacity (by rwa [hcapacity'])
  · rw [hfind'] at hfind
    cases hfind

/-- Asking for keys one after the other, if it fails, stopped at a key that has no number. The
keys behind it were not asked for, but there is no room for them either. -/
theorem Numbers.mapM_eq_error (h : p.Numbers keys) {k : ι → UInt64} {f : ι → ρ → ρ}
    {items : List ι} {e : Error}
    (hrun : items.mapM (fun i => Prod.fst <$> Pool.findOrCreate (k i) (f i)) p
      = .error e p') :
    p'.capacity = p.capacity ∧ p'.Numbers (keys ++ items.map k) ∧ e.isOverflow = true
      ∧ ∃ i ∈ items, storable (k i) ∉ firstCome p.capacity (keys ++ items.map k) := by
  obtain ⟨done, i, rest, slots, p₁, rfl, hdone, hstep⟩ := exists_of_mapM_eq_error hrun
  obtain ⟨hcapacity, hnumbers, -⟩ := h.mapM_eq_ok hdone
  rw [map_eq_pure_bind] at hstep
  rw [List.map_append, List.map_cons, ← List.append_assoc]
  rcases hnumbers.findOrCreate (k i) (f i) with
    ⟨n, created, p'', hfind, -⟩ | ⟨e', p'', hfind, he, hfull, hnot, hcapacity', hused, hnumbers'⟩
  · simp only [Bind.bind, EStateM.bind, hfind] at hstep
    cases hstep
  · simp only [Bind.bind, EStateM.bind, hfind] at hstep
    cases hstep
    refine ⟨hcapacity'.trans hcapacity, ?_, he, i, by simp, ?_⟩
    · rw [List.append_cons]
      exact hnumbers'.append_of_full (by rw [hused, hcapacity', hfull]) _
    · rw [← hcapacity, firstCome_append_of_full (hnumbers.used_eq ▸ hfull)]
      exact hnot

/-- Look-ups find exactly the keys with a number, under their numbers. -/
theorem Numbers.lookup_eq_some_iff (h : p.Numbers keys) {u : UInt32} :
    p.lookup key = some u ↔ (firstCome p.capacity keys)[u.toNat]? = some (storable key) := by
  by_cases hmem : storable key ∈ firstCome p.capacity keys
  · obtain ⟨n, hn⟩ := List.mem_iff_getElem?.mp hmem
    have hlt := h.lt_maxPoolCapacity hn
    have hnumber := Index.toNat_toUInt32 hlt
    have hlookup : p.lookup key = some n.toUInt32 := by
      have hfree : n.toUInt32.toNat < maxPoolCapacity.toNat := by rwa [hnumber]
      rw [lookup, Index.lookup_eq_of_raw? (h.raw?_eq n _ hn) hfree]
      exact if_neg (Index.not_reserved hfree).1
    rw [hlookup]
    constructor
    · intro hu
      cases hu
      rwa [hnumber]
    · intro hu
      have hn' : n = u.toNat :=
        (List.getElem?_inj (List.getElem?_eq_some_iff.mp hn).1 (nodup_firstCome _ _)).mp
          (hn.trans hu.symm)
      rw [Option.some.injEq, ← UInt32.toNat_inj, hnumber, hn']
  · have hlookup : p.lookup key = none := by
      rw [lookup, Index.lookup]
      cases hraw : p.index.raw? (storable key) with
      | none => rfl
      | some v =>
        obtain ⟨rfl, -⟩ := h.marked _ v hmem hraw
        rfl
    rw [hlookup]
    constructor
    · rintro ⟨⟩
    · exact fun hu => absurd (List.mem_of_getElem? hu) hmem

/-- Keys are only marked as refused when the pool is full. -/
theorem Numbers.full_of_exhausted (h : p.Numbers keys)
    (hraw : p.index.raw? key = some Index.exhausted) : p.used = p.capacity := by
  by_cases hmem : key ∈ firstCome p.capacity keys
  · obtain ⟨n, hn⟩ := List.mem_iff_getElem?.mp hmem
    rw [h.raw?_eq n key hn, Option.some_inj] at hraw
    exact absurd hraw (Index.toUInt32_ne_exhausted (h.lt_maxPoolCapacity hn))
  · exact (h.marked key _ hmem hraw).2

/-- Keys that lead to a slot have the number of the slot. -/
theorem Numbers.getElem?_of_raw? (h : p.Numbers keys) {slot : UInt32}
    (hraw : p.index.raw? key = some slot) (hslot : slot ≠ Index.exhausted) :
    (firstCome p.capacity keys)[slot.toNat]? = some key := by
  by_cases hmem : key ∈ firstCome p.capacity keys
  · obtain ⟨n, hn⟩ := List.mem_iff_getElem?.mp hmem
    rw [h.raw?_eq n key hn, Option.some_inj] at hraw
    rw [← hraw, Index.toNat_toUInt32 (h.lt_maxPoolCapacity hn), hn]
  · exact absurd (h.marked key slot hmem hraw).1 hslot

/-- No two keys lead to one slot. -/
theorem Numbers.raw?_inj (h : p.Numbers keys) {key' : UInt64} {slot : UInt32}
    (hraw : p.index.raw? key = some slot) (hraw' : p.index.raw? key' = some slot)
    (hslot : slot ≠ Index.exhausted) : key = key' :=
  Option.some_inj.mp
    ((h.getElem?_of_raw? hraw hslot).symm.trans (h.getElem?_of_raw? hraw' hslot))

theorem Numbers.grounded [Inhabited ρ] (h : p.Numbers keys) (htidy : p.Tidy) : p.Grounded := by
  refine ⟨h.sound, htidy, fun key slot hraw hslot => ?_⟩
  rw [h.used_eq]
  exact (List.getElem?_eq_some_iff.mp (h.getElem?_of_raw? hraw hslot)).1

/-- A pool that nothing was ever asked of has numbered nothing. -/
theorem Blank.numbers [Inhabited ρ] (h : p.Blank) (hle : p.capacity ≤ maxPoolCapacity.toNat)
    (hindex : p.capacity ≤ p.index.capacity) (hvacant : p.index.vacancies = p.index.capacity) :
    p.Numbers [] := by
  refine ⟨h.sound, hle, hindex, ?_, fun n k hn => ?_, fun k u _ hraw => ?_, fun _ => ?_⟩
  · rw [h.used_eq, firstCome_nil]
    rfl
  · rw [firstCome_nil] at hn
    cases hn
  · rw [h.raw?_eq] at hraw
    cases hraw
  · omega

theorem numbers_of_ofCapacity [Inhabited ρ] {name : String} {capacity indexCapacity : ℕ}
    (hle : capacity ≤ maxPoolCapacity.toNat)
    (h : ofCapacity name capacity indexCapacity = .ok p) : p.Numbers [] := by
  obtain ⟨hblank, hcapacity⟩ := blank_of_ofCapacity h
  obtain ⟨-, hindex, index, hnew, rfl⟩ := ofCapacity_eq_ok_iff.mp h
  obtain ⟨hpos, -, rfl⟩ := Index.ofCapacity_eq_ok_iff.mp hnew
  refine hblank.numbers hle ?_ ?_
  · exact hindex.trans_eq (Index.capacity_vacantOf _ _ hpos).symm
  · exact (Index.vacancies_vacantOf _ _ hpos).trans (Index.capacity_vacantOf _ _ hpos).symm

theorem Numbers.reset [Inhabited ρ] (h : p.Numbers keys) : p.reset.Numbers [] :=
  p.blank_reset.numbers h.capacity_le
    (h.capacity_le_index.trans_eq p.index.capacity_clear.symm)
    (p.index.vacancies_clear.trans p.index.capacity_clear.symm)

end Pool

end CorpusStats
