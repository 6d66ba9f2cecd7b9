import CorpusStats.Proofs.Pool
/-!
# CorpusStats.Proofs.Visits

Requests that each change the row that they find.

A stage that counts things asks a pool for the key of a thing, whose row is filled in if the key
is new, and changes the row of the slot that is answered: it *visits* the thing. `Pool.Visited`
is what a list of visits does to a pool. Rows that were there are changed once for every visit of
a key that leads to them, new keys take the next slots in the order in which they are first
visited, and every other key and row stays as it is. `Pool.Visited.visit` is the step.
-/

namespace CorpusStats

variable {ρ ι : Type}

/-! ### Lists -/

theorem countP_concat {q : ι → Prop} [DecidablePred q] (l : List ι) (a : ι) :
    (l ++ [a]).countP (fun a => q a) = l.countP (fun a => q a) + if q a then 1 else 0 := by
  rw [List.countP_append, List.countP_singleton]
  simp only [decide_eq_true_iff]

theorem eraseDups_concat [DecidableEq ι] (l : List ι) (a : ι) :
    (l ++ [a]).eraseDups = if a ∈ l then l.eraseDups else l.eraseDups ++ [a] := by
  rw [List.eraseDups_append, List.removeAll]
  split
  · rename_i hmem
    rw [List.filter_cons_of_neg (by simpa using hmem), List.filter_nil, List.eraseDups_nil,
      List.append_nil]
  · rename_i hmem
    rw [List.filter_cons_of_pos (by simpa using hmem), List.filter_nil]
    rfl

/-- Telling the members of a list apart is all that a function has to do to be applied before or
after repetitions are left out. -/
theorem eraseDups_map_of_inj {κ : Type} [DecidableEq ι] [DecidableEq κ] {f : ι → κ} {l : List ι}
    (hf : ∀ a ∈ l, ∀ b ∈ l, f a = f b → a = b) : (l.map f).eraseDups = l.eraseDups.map f := by
  induction l using List.reverseRecOn with
  | nil => rfl
  | append_singleton l a ih =>
    have hmem : f a ∈ l.map f ↔ a ∈ l := by
      refine ⟨fun h => ?_, List.mem_map_of_mem⟩
      obtain ⟨b, hb, heq⟩ := List.mem_map.mp h
      rwa [← hf b (by simp [hb]) a (by simp) heq]
    rw [List.map_append, List.map_singleton, eraseDups_concat, eraseDups_concat, if_congr hmem rfl rfl,
      ih fun b hb c hc => hf b (by simp [hb]) c (by simp [hc])]
    split
    · rfl
    · rw [List.map_append, List.map_singleton]

/-- Changing one place of a list counts as one more change there. -/
theorem getElem?_modify_iterate {l : List ρ} {a : Option ρ} {f : ρ → ρ} {i j n : ℕ}
    (h : l[j]? = a.map f^[n]) :
    (l.modify i f)[j]? = a.map f^[n + if i = j then 1 else 0] := by
  rw [List.getElem?_modify, h]
  split
  · rw [Function.iterate_succ', Option.map_eq_map, Option.map_map]
  · rw [Nat.add_zero, Option.map_eq_map, Option.map_id']

namespace Pool

/-! ### New keys -/

/-- The keys that a pool does not know, in the order in which they are first asked for. -/
def newKeys (p : Pool ρ) (keys : List UInt64) : List UInt64 :=
  (keys.filter fun key => p.index.raw? key = none).eraseDups

section

variable {p : Pool ρ} {keys : List UInt64} {key : UInt64}

theorem mem_newKeys : key ∈ p.newKeys keys ↔ key ∈ keys ∧ p.index.raw? key = none := by
  rw [newKeys, List.mem_eraseDups, List.mem_filter, decide_eq_true_iff]

theorem newKeys_concat_of_known (h : p.index.raw? key ≠ none ∨ key ∈ p.newKeys keys) :
    p.newKeys (keys ++ [key]) = p.newKeys keys := by
  rw [newKeys, List.filter_append]
  by_cases hraw : p.index.raw? key = none
  · have hmem := mem_newKeys.mp (h.resolve_left (not_not.mpr hraw))
    rw [List.filter_cons_of_pos (by simpa using hraw), List.filter_nil, eraseDups_concat,
      if_pos (by simpa using hmem), newKeys]
  · rw [List.filter_cons_of_neg (by simpa using hraw), List.filter_nil, List.append_nil, newKeys]

theorem newKeys_concat_of_new (hraw : p.index.raw? key = none) (hnew : key ∉ p.newKeys keys) :
    p.newKeys (keys ++ [key]) = p.newKeys keys ++ [key] := by
  rw [newKeys, List.mem_eraseDups] at hnew
  rw [newKeys, List.filter_append, List.filter_cons_of_pos (by simpa using hraw), List.filter_nil,
    eraseDups_concat, if_neg hnew, newKeys]

/-- New keys keep their places. -/
theorem newKeys_prefix {keys keys' : List UInt64} (h : keys <+: keys') :
    p.newKeys keys <+: p.newKeys keys' := by
  obtain ⟨more, rfl⟩ := h
  induction more using List.reverseRecOn with
  | nil => rw [List.append_nil]
  | append_singleton more key ih =>
    rw [← List.append_assoc]
    by_cases h : p.index.raw? key ≠ none ∨ key ∈ p.newKeys (keys ++ more)
    · rwa [newKeys_concat_of_known h]
    · obtain ⟨hraw, hnew⟩ := not_or.mp h
      rw [newKeys_concat_of_new (not_not.mp hraw) hnew]
      exact ih.trans (List.prefix_append _ _)

theorem length_newKeys_le (p : Pool ρ) (keys : List UInt64) :
    (p.newKeys keys).length ≤ keys.length := by
  induction keys using List.reverseRecOn with
  | nil => exact Nat.le_refl 0
  | append_singleton keys key ih =>
    rw [List.length_append, List.length_singleton]
    by_cases h : p.index.raw? key ≠ none ∨ key ∈ p.newKeys keys
    · rw [newKeys_concat_of_known h]
      exact ih.trans keys.length.le_succ
    · obtain ⟨hraw, hnew⟩ := not_or.mp h
      rw [newKeys_concat_of_new (not_not.mp hraw) hnew, List.length_append, List.length_singleton]
      exact Nat.succ_le_succ ih

end

/-- The row in the slot that a key is looked up in. -/
def rowAt (p : Pool ρ) (key : UInt64) : Option ρ :=
  (p.lookup key).bind fun slot => p.row? slot.toNat

/-! ### Visits -/

variable (name : ι → UInt64) (fill : ι → ρ → ρ) (change : ρ → ρ)

/-- How many of the requests are for a key that leads to a slot. -/
def visits (p : Pool ρ) (rs : List ι) (slot : ℕ) : ℕ :=
  rs.countP fun r => (p.index.raw? (name r)).map UInt32.toNat = some slot

/-- `p'` is `p` after every request of a list changed the row that it found or filled in. -/
structure Visited [Inhabited ρ] (p p' : Pool ρ) (rs : List ι) : Prop where
  grounded : p'.Grounded
  capacity_eq : p'.capacity = p.capacity
  used_eq : p'.used = p.used + (p.newKeys (rs.map name)).length
  /-- No request was for a key that is marked as refused. -/
  answered : ∀ r ∈ rs, p.index.raw? (name r) ≠ some Index.exhausted
  known : ∀ key slot, p.index.raw? key = some slot → p'.index.raw? key = some slot
  numbered : ∀ (n : ℕ) key, (p.newKeys (rs.map name))[n]? = some key →
    p'.index.raw? key = some (p.used + n).toUInt32
  unknown : ∀ key, p.index.raw? key = none → key ∉ p.newKeys (rs.map name) →
    p'.index.raw? key = none
  old_row : ∀ slot < p.used,
    p'.liveRows[slot]? = (p.liveRows[slot]?).map change^[visits name p rs slot]
  /-- A new row is filled in by the first request of its key. -/
  new_row : ∀ (n : ℕ) key, (p.newKeys (rs.map name))[n]? = some key →
    ∃ r, rs.find? (fun r => name r = key) = some r
      ∧ p'.liveRows[p.used + n]?
        = some (change^[rs.countP fun r => name r = key] (fill r default))

variable {name fill change} [Inhabited ρ] {p p' p'' : Pool ρ} {rs : List ι} {r : ι}

theorem visited_nil (hp : p.Grounded) : Visited name fill change p p [] where
  grounded := hp
  capacity_eq := rfl
  used_eq := rfl
  answered := fun r hr => absurd hr List.not_mem_nil
  known := fun _ _ h => h
  numbered := fun n key h => by cases h
  unknown := fun _ h _ => h
  old_row := fun slot _ => (Option.map_id_fun'.symm ▸ rfl : p.liveRows[slot]? = _)
  new_row := fun n key h => by cases h

namespace Visited

variable (h : Visited name fill change p p' rs)
include h

theorem used_le : p.used ≤ p'.used := h.used_eq ▸ Nat.le_add_right _ _

/-- New keys lead to the slots with their numbers. -/
theorem exists_slot (hle : p.capacity ≤ maxPoolCapacity.toNat) {n : ℕ} {key : UInt64}
    (hkey : (p.newKeys (rs.map name))[n]? = some key) :
    ∃ slot, p'.index.raw? key = some slot ∧ slot ≠ Index.exhausted ∧ slot.toNat = p.used + n := by
  have hlt : p.used + n < maxPoolCapacity.toNat := by
    have hn := (List.getElem?_eq_some_iff.mp hkey).1
    have hused := h.used_eq
    have hcapacity := p'.used_le_capacity
    rw [h.capacity_eq] at hcapacity
    omega
  exact ⟨_, h.numbered n key hkey, Index.toUInt32_ne_exhausted hlt, Index.toNat_toUInt32 hlt⟩

/-- A key that was not known before and leads to a slot now is new. -/
theorem exists_number (hle : p.capacity ≤ maxPoolCapacity.toNat) {key : UInt64} {slot : UInt32}
    (hnone : p.index.raw? key = none) (hraw : p'.index.raw? key = some slot) :
    ∃ n, (p.newKeys (rs.map name))[n]? = some key ∧ slot.toNat = p.used + n := by
  by_cases hmem : key ∈ p.newKeys (rs.map name)
  · obtain ⟨n, hn⟩ := List.mem_iff_getElem?.mp hmem
    obtain ⟨slot', hraw', -, hnumber⟩ := h.exists_slot hle hn
    rw [hraw, Option.some_inj] at hraw'
    exact ⟨n, hn, hraw' ▸ hnumber⟩
  · rw [h.unknown key hnone hmem] at hraw
    cases hraw

/-- What was asked for is found. -/
theorem exists_raw? (hle : p.capacity ≤ maxPoolCapacity.toNat) (hr : r ∈ rs) :
    ∃ slot, p'.index.raw? (name r) = some slot ∧ slot ≠ Index.exhausted := by
  cases hraw : p.index.raw? (name r) with
  | some slot =>
    refine ⟨slot, h.known _ _ hraw, ?_⟩
    rintro rfl
    exact h.answered r hr hraw
  | none =>
    obtain ⟨n, hn⟩ := List.mem_iff_getElem?.mp (mem_newKeys.mpr ⟨List.mem_map_of_mem hr, hraw⟩)
    obtain ⟨slot, hslot, hmark, -⟩ := h.exists_slot hle hn
    exact ⟨slot, hslot, hmark⟩

/-- Visits leave no marks. -/
theorem unmarked (hle : p.capacity ≤ maxPoolCapacity.toNat) {key : UInt64}
    (hmark : p.index.raw? key ≠ some Index.exhausted) :
    p'.index.raw? key ≠ some Index.exhausted := by
  intro hraw
  cases hold : p.index.raw? key with
  | some slot => exact hmark (hold.trans ((h.known _ _ hold).symm.trans hraw))
  | none =>
    obtain ⟨n, hn, -⟩ := h.exists_number hle hold hraw
    obtain ⟨slot, hslot, hne, -⟩ := h.exists_slot hle hn
    exact hne (Option.some_inj.mp (hslot.symm.trans hraw))

/-- A key that is still not known is none of the new ones. -/
theorem new_of_unknown {key : UInt64} (hnone : p'.index.raw? key = none) :
    p.index.raw? key = none ∧ key ∉ p.newKeys (rs.map name) := by
  constructor
  · by_contra hsome
    obtain ⟨slot, hslot⟩ := Option.ne_none_iff_exists'.mp hsome
    rw [h.known _ _ hslot] at hnone
    cases hnone
  · intro hmem
    obtain ⟨n, hn⟩ := List.mem_iff_getElem?.mp hmem
    rw [h.numbered n _ hn] at hnone
    cases hnone

/-- A key leads to an old slot if it did before. -/
theorem leads_old_iff (hle : p.capacity ≤ maxPoolCapacity.toNat) {key : UInt64} {slot : UInt32}
    (hraw : p'.index.raw? key = some slot) {old : ℕ} (hold : old < p.used) :
    (p.index.raw? key).map UInt32.toNat = some old ↔ slot.toNat = old := by
  cases hbefore : p.index.raw? key with
  | some slot' =>
    rw [h.known _ _ hbefore, Option.some_inj] at hraw
    rw [hraw, Option.map_some, Option.some_inj]
  | none =>
    obtain ⟨n, -, hn⟩ := h.exists_number hle hbefore hraw
    simp only [Option.map_none, reduceCtorEq, false_iff]
    omega

/-- A key leads to a new slot if it is the new key with the number of the slot. -/
theorem leads_new_iff (hp : p.Grounded) (hle : p.capacity ≤ maxPoolCapacity.toNat)
    {key key' : UInt64} {slot : UInt32} (hraw : p'.index.raw? key = some slot)
    (hslot : slot ≠ Index.exhausted) {n : ℕ} (hkey : (p.newKeys (rs.map name))[n]? = some key') :
    key = key' ↔ slot.toNat = p.used + n := by
  constructor
  · rintro rfl
    obtain ⟨slot', hraw', -, hnumber⟩ := h.exists_slot hle hkey
    rw [hraw, Option.some_inj] at hraw'
    rw [hraw', hnumber]
  · intro hnumber
    have hnone : p.index.raw? key = none := by
      by_contra hsome
      obtain ⟨slot', hold⟩ := Option.ne_none_iff_exists'.mp hsome
      rw [h.known _ _ hold, Option.some_inj] at hraw
      have hlt := hp.lt_used _ _ hold (hraw ▸ hslot)
      rw [hraw] at hlt
      omega
    obtain ⟨m, hm, hnumber'⟩ := h.exists_number hle hnone hraw
    obtain rfl : m = n := by omega
    exact Option.some_inj.mp (hm.symm.trans hkey)

/-- A request for a key that leads to a slot changes the row there. -/
theorem visit_known (hp : p.Grounded) (hle : p.capacity ≤ maxPoolCapacity.toNat) {slot : UInt32}
    (hraw : p'.index.raw? (name r) = some slot) (hslot : slot ≠ Index.exhausted) :
    Visited name fill change p (p'.modify slot.toNat change) (rs ++ [r]) := by
  have hkeys : p.newKeys ((rs ++ [r]).map name) = p.newKeys (rs.map name) := by
    rw [List.map_append]
    refine newKeys_concat_of_known (or_iff_not_imp_left.mpr fun hnone => ?_)
    obtain ⟨n, hn, -⟩ := h.exists_number hle (not_not.mp hnone) hraw
    exact List.mem_of_getElem? hn
  constructor
  case grounded => exact h.grounded.modify (h.grounded.lt_used _ _ hraw hslot) change
  case capacity_eq => exact h.capacity_eq
  case used_eq => rw [used_modify, hkeys, h.used_eq]
  case answered =>
    intro r' hr' hmark
    rcases List.mem_append.mp hr' with hr' | hr'
    · exact h.answered r' hr' hmark
    · rw [List.mem_singleton.mp hr'] at hmark
      rw [h.known _ _ hmark, Option.some_inj] at hraw
      exact hslot hraw.symm
  case known => exact h.known
  case numbered => rw [hkeys]; exact h.numbered
  case unknown => rw [hkeys]; exact h.unknown
  case old_row =>
    intro slot' hslot'
    rw [liveRows_modify, getElem?_modify_iterate (h.old_row slot' hslot'), visits, visits,
      countP_concat, if_congr (h.leads_old_iff hle hraw hslot') rfl rfl]
  case new_row =>
    intro n key hkey
    rw [hkeys] at hkey
    obtain ⟨r', hfirst, hrow⟩ := h.new_row n key hkey
    refine ⟨r', by rw [List.find?_append, hfirst, Option.some_or], ?_⟩
    rw [liveRows_modify, getElem?_modify_iterate (a := some _) hrow, countP_concat,
      if_congr (h.leads_new_iff hp hle hraw hslot hkey) rfl rfl]
    rfl

/-- A request for a key that is not known takes the next slot and changes the row that it filled
in. -/
theorem visit_new (hname : Key.storable (name r) = name r)
    (hraw : p'.index.raw? (name r) = none)
    (hcreated : Created p' p'' (name r) (fill r)) :
    Visited name fill change p (p''.modify p'.used change) (rs ++ [r]) := by
  have hw := hcreated.written
  rw [hname] at hw
  obtain ⟨hold, hnew⟩ := h.new_of_unknown hraw
  have hfresh : ∀ r' ∈ rs, name r' ≠ name r := fun r' hr' heq =>
    hnew (mem_newKeys.mpr ⟨heq ▸ List.mem_map_of_mem hr', hold⟩)
  have hkeys : p.newKeys ((rs ++ [r]).map name) = p.newKeys (rs.map name) ++ [name r] := by
    rw [List.map_append]
    exact newKeys_concat_of_new hold hnew
  have hrows : (p''.modify p'.used change).liveRows = p'.liveRows ++ [change (fill r default)] := by
    rw [liveRows_modify, hcreated.liveRows_eq, ← length_liveRows, modify_concat_length]
  constructor
  case grounded =>
    refine (hcreated.grounded h.grounded).modify ?_ change
    rw [hcreated.used_eq]
    exact p'.used.lt_succ_self
  case capacity_eq => exact hcreated.capacity_eq.trans h.capacity_eq
  case used_eq =>
    rw [used_modify, hcreated.used_eq, hkeys, h.used_eq, List.length_append, List.length_singleton,
      Nat.add_assoc]
  case answered =>
    intro r' hr'
    rcases List.mem_append.mp hr' with hr' | hr'
    · exact h.answered r' hr'
    · rw [List.mem_singleton.mp hr', hold]
      exact Option.some_ne_none _ ∘ Eq.symm
  case known =>
    intro key slot hslot
    rw [index_modify, hw.raw?_eq, if_neg, h.known key slot hslot]
    rintro rfl
    rw [hold] at hslot
    cases hslot
  case numbered =>
    intro n key hkey
    rw [hkeys] at hkey
    rw [index_modify, hw.raw?_eq]
    rcases getElem?_concat_cases hkey with hkey | ⟨rfl, rfl⟩
    · rw [if_neg, h.numbered n key hkey]
      rintro rfl
      exact hnew (List.mem_of_getElem? hkey)
    · rw [if_pos rfl, h.used_eq]
  case unknown =>
    intro key hnone hkey
    rw [hkeys, List.mem_append, List.mem_singleton, not_or] at hkey
    rw [index_modify, hw.raw?_eq, if_neg hkey.2, h.unknown key hnone hkey.1]
  case old_row =>
    intro slot hslot
    have hlt : slot < p'.liveRows.length := by
      rw [length_liveRows]
      exact hslot.trans_le h.used_le
    rw [hrows, List.getElem?_append_left hlt, h.old_row slot hslot, visits, visits, countP_concat,
      hold, if_neg (by simp), Nat.add_zero]
  case new_row =>
    intro n key hkey
    rw [hkeys] at hkey
    rw [hrows]
    rcases getElem?_concat_cases hkey with hkey | ⟨rfl, rfl⟩
    · obtain ⟨r', hfirst, hrow⟩ := h.new_row n key hkey
      have hne : name r ≠ key := by
        rintro rfl
        exact hnew (List.mem_of_getElem? hkey)
      refine ⟨r', by rw [List.find?_append, hfirst, Option.some_or], ?_⟩
      rw [List.getElem?_append_left (List.getElem?_eq_some_iff.mp hrow).1, hrow, countP_concat,
        if_neg hne, Nat.add_zero]
    · have hnone : rs.find? (fun r' => name r' = name r) = none := by
        simpa [List.find?_eq_none] using hfresh
      have hzero : rs.countP (fun r' => name r' = name r) = 0 := by
        simpa [List.countP_eq_zero] using hfresh
      refine ⟨r, by rw [List.find?_append, hnone]; simp, ?_⟩
      rw [← h.used_eq, ← length_liveRows, List.getElem?_concat_length, countP_concat, hzero,
        if_pos rfl]
      rfl

/-- **Visiting one more thing.** Whatever slot is answered, changing its row is the visit. -/
theorem visit (hp : p.Grounded) (hle : p.capacity ≤ maxPoolCapacity.toNat)
    (hname : Key.storable (name r) = name r) {slot : UInt32} {created : Bool}
    (hrun : findOrCreate (name r) (fill r) p' = .ok (slot, created) p'') :
    Visited name fill change p (p''.modify slot.toNat change) (rs ++ [r])
      ∧ p''.index.raw? (name r) = some slot ∧ p''.used = p'.used + created.toNat := by
  rcases findOrCreate_cases h.grounded.sound h.grounded.tidy (name r) (fill r) with
    ⟨slot', hraw, -, hslot, hfound⟩ | ⟨q, hraw, hroom, hfound, hcreated⟩ | ⟨e, q, hfound, -⟩
  · rw [hfound] at hrun
    cases hrun
    rw [hname] at hraw
    exact ⟨h.visit_known hp hle hraw hslot, hraw, rfl⟩
  · rw [hfound] at hrun
    cases hrun
    have hw := hcreated.written
    rw [hname] at hraw hw
    rw [h.capacity_eq] at hroom
    rw [Index.toNat_toUInt32 (hroom.trans_le hle)]
    exact ⟨h.visit_new hname hraw hcreated, hw.raw?_eq _ ▸ if_pos rfl, hcreated.used_eq⟩
  · rw [hfound] at hrun
    cases hrun

end Visited

/-! ### Requests that keys tell apart -/

section

variable [DecidableEq ι]

/-- The requests for keys that a pool does not know, in the order in which they first come. -/
def newRequests (name : ι → UInt64) (p : Pool ρ) (rs : List ι) : List ι :=
  (rs.filter fun r => p.index.raw? (name r) = none).eraseDups

omit [Inhabited ρ] in
theorem mem_newRequests : r ∈ newRequests name p rs ↔ r ∈ rs ∧ p.index.raw? (name r) = none := by
  rw [newRequests, List.mem_eraseDups, List.mem_filter, decide_eq_true_iff]

variable (hinj : ∀ r ∈ rs, ∀ r' ∈ rs, name r = name r' → r = r')
include hinj

omit [Inhabited ρ] in
/-- Such requests have new keys exactly if they are new. -/
theorem newKeys_map : p.newKeys (rs.map name) = (newRequests name p rs).map name := by
  rw [newKeys, List.filter_map, newRequests, ← eraseDups_map_of_inj]
  · rfl
  · exact fun r hr r' hr' => hinj r (List.mem_of_mem_filter hr) r' (List.mem_of_mem_filter hr')

/-- The row of a new request was filled in by it, and changed by every visit of it. -/
theorem Visited.row_of_new (h : Visited name fill change p p' rs) {n : ℕ}
    (hr : (newRequests name p rs)[n]? = some r) :
    p'.liveRows[p.used + n]? = some (change^[rs.count r] (fill r default)) := by
  have hmem : r ∈ rs := (mem_newRequests.mp (List.mem_of_getElem? hr)).1
  have hkey : (p.newKeys (rs.map name))[n]? = some (name r) := by
    rw [newKeys_map hinj, List.getElem?_map, hr, Option.map_some]
  obtain ⟨r', hfirst, hrow⟩ := h.new_row n _ hkey
  obtain rfl : r' = r := hinj r' (List.mem_of_find?_eq_some hfirst) r hmem
    (by simpa using List.find?_some hfirst)
  have hcount : rs.countP (fun s => name s = name r') = rs.count r' :=
    List.countP_congr fun s hs => by
      rw [decide_eq_true_iff, beq_iff_eq]
      exact ⟨hinj s hs r' hmem, congrArg name⟩
  rw [hrow, hcount]

end

/-! ### What is found -/

/-- A key that is found has a row in use. -/
theorem Grounded.rowAt_of_lookup (hp : p.Grounded) (hle : p.capacity ≤ maxPoolCapacity.toNat)
    {key : UInt64} {slot : UInt32} (h : p.lookup key = some slot) :
    slot.toNat < p.used ∧ p.rowAt key = p.liveRows[slot.toNat]? := by
  obtain ⟨hraw, hmark⟩ := (hp.lookup_eq_some_iff hle).mp h
  have hlt := hp.lt_used _ _ hraw hmark
  rw [rowAt, h, Option.bind_some, liveRows_getElem? hlt]
  exact ⟨hlt, rfl⟩

theorem Grounded.rowAt_eq_none_iff (hp : p.Grounded) (hle : p.capacity ≤ maxPoolCapacity.toNat)
    {key : UInt64} : p.rowAt key = none ↔ p.lookup key = none := by
  cases hlookup : p.lookup key with
  | none => simp [rowAt, hlookup]
  | some slot =>
    obtain ⟨hlt, hrow⟩ := hp.rowAt_of_lookup hle hlookup
    rw [hrow, liveRows_getElem? hlt]
    simp [Option.isSome_iff_ne_none.mp (p.row?_isSome_of_lt_used hlt)]

namespace Visited

variable (h : Visited name fill change p p' rs) (hp : p.Grounded)
  (hle : p.capacity ≤ maxPoolCapacity.toNat) {key : UInt64}
include h hp hle

/-- Keys that were found are found in the same slots. -/
theorem lookup_of_found {slot : UInt32} (hslot : p.lookup key = some slot) :
    p'.lookup key = some slot := by
  obtain ⟨hraw, hmark⟩ := (hp.lookup_eq_some_iff hle).mp hslot
  exact (h.grounded.lookup_eq_some_iff (h.capacity_eq.trans_le hle)).mpr ⟨h.known _ _ hraw, hmark⟩

/-- Looking up what was asked for answers what the index had. -/
theorem lookup_eq_raw? (hname : Key.storable (name r) = name r) (hr : r ∈ rs) :
    p.lookup (name r) = p.index.raw? (name r) := by
  cases hraw : p.index.raw? (name r) with
  | none => exact (hp.lookup_eq_none_iff hle).mpr (.inl (by rw [hname, hraw]))
  | some slot =>
    refine (hp.lookup_eq_some_iff hle).mpr ⟨by rw [hname, hraw], ?_⟩
    rintro rfl
    exact h.answered r hr hraw

omit hp in
/-- A new key is looked up in the slot with its number. -/
theorem exists_lookup {n : ℕ} (hkey : (p.newKeys (rs.map name))[n]? = some (Key.storable key)) :
    ∃ slot, p'.lookup key = some slot ∧ slot.toNat = p.used + n := by
  obtain ⟨slot, hraw, hmark, hnumber⟩ := h.exists_slot hle hkey
  have hle' : p'.capacity ≤ maxPoolCapacity.toNat := h.capacity_eq.trans_le hle
  exact ⟨slot, (h.grounded.lookup_eq_some_iff hle').mpr ⟨hraw, hmark⟩, hnumber⟩

omit hp in
/-- So is the key of a new request. -/
theorem exists_lookup_of_new [DecidableEq ι]
    (hinj : ∀ r ∈ rs, ∀ r' ∈ rs, name r = name r' → r = r') {n : ℕ}
    (hr : (newRequests name p rs)[n]? = some r) (hkey : name r = Key.storable key) :
    ∃ slot, p'.lookup key = some slot ∧ slot.toNat = p.used + n :=
  h.exists_lookup hle (by rw [newKeys_map hinj, List.getElem?_map, hr, Option.map_some, hkey])

/-- What was not found and is not new is not found. -/
theorem lookup_of_unknown (hnone : p.lookup key = none)
    (hnew : Key.storable key ∉ p.newKeys (rs.map name)) : p'.lookup key = none := by
  rw [h.grounded.lookup_eq_none_iff (h.capacity_eq.trans_le hle)]
  exact ((hp.lookup_eq_none_iff hle).mp hnone).imp (fun hraw => h.unknown _ hraw hnew)
    (h.known _ _)

/-- A key that was found has its row, changed once for every visit of the key. -/
theorem rowAt_of_some
    (hinj : ∀ k k' slot, p.index.raw? k = some slot → p.index.raw? k' = some slot →
      slot ≠ Index.exhausted → k = k')
    {row : ρ} (hrow : p.rowAt key = some row) :
    p'.rowAt key = some (change^[rs.countP fun r => name r = Key.storable key] row) := by
  obtain ⟨slot, hslot⟩ : ∃ slot, p.lookup key = some slot := by
    rw [← Option.ne_none_iff_exists', ne_eq, ← hp.rowAt_eq_none_iff hle, hrow]
    exact Option.some_ne_none row
  obtain ⟨hlt, hold⟩ := hp.rowAt_of_lookup hle hslot
  obtain ⟨hraw, hmark⟩ := (hp.lookup_eq_some_iff hle).mp hslot
  have hle' : p'.capacity ≤ maxPoolCapacity.toNat := h.capacity_eq.trans_le hle
  have hvisits : visits name p rs slot.toNat = rs.countP fun r => name r = Key.storable key := by
    refine List.countP_congr fun r _ => ?_
    rw [decide_eq_true_iff, decide_eq_true_iff]
    constructor
    · intro hhit
      obtain ⟨slot', hraw', hsame⟩ := Option.map_eq_some_iff.mp hhit
      rw [UInt32.toNat_inj.mp hsame] at hraw'
      exact hinj _ _ slot hraw' hraw hmark
    · intro hname
      rw [hname, hraw, Option.map_some]
  rw [(h.grounded.rowAt_of_lookup hle' (h.lookup_of_found hp hle hslot)).2, h.old_row _ hlt, ← hold,
    hrow, hvisits, Option.map_some]

/-- A key that was not found has the row that its first visit filled in. -/
theorem rowAt_of_first (hnone : p.rowAt key = none)
    (hfirst : rs.find? (fun r => name r = Key.storable key) = some r) :
    p'.rowAt key = some
      (change^[rs.countP fun r => name r = Key.storable key] (fill r default)) := by
  have hr := List.mem_of_find?_eq_some hfirst
  have hname : name r = Key.storable key := by simpa using List.find?_some hfirst
  have hraw : p.index.raw? (Key.storable key) = none := by
    rw [hp.rowAt_eq_none_iff hle, hp.lookup_eq_none_iff hle] at hnone
    exact hnone.resolve_right (hname ▸ h.answered r hr)
  have hkey : Key.storable key ∈ rs.map name := List.mem_map.mpr ⟨r, hr, hname⟩
  obtain ⟨n, hn⟩ := List.mem_iff_getElem?.mp (mem_newKeys.mpr ⟨hkey, hraw⟩)
  obtain ⟨r', hfirst', hrow⟩ := h.new_row n _ hn
  rw [hfirst, Option.some_inj] at hfirst'
  subst hfirst'
  obtain ⟨slot, hslot, hnumber⟩ := h.exists_lookup hle hn
  rw [(h.grounded.rowAt_of_lookup (h.capacity_eq.trans_le hle) hslot).2, hnumber, hrow]

theorem rowAt_of_none (hnone : p.rowAt key = none) (hrs : ∀ r ∈ rs, name r ≠ Key.storable key) :
    p'.rowAt key = none := by
  rw [hp.rowAt_eq_none_iff hle] at hnone
  rw [h.grounded.rowAt_eq_none_iff (h.capacity_eq.trans_le hle)]
  refine h.lookup_of_unknown hp hle hnone fun hmem => ?_
  obtain ⟨r, hr, hname⟩ := List.mem_map.mp (mem_newKeys.mp hmem).1
  exact hrs r hr hname

end Visited

end Pool

end CorpusStats
