import CorpusStats.Proofs.Visits
/-!
# CorpusStats.Proofs.Reordering

Visits in another order.

The same requests in another order give new keys other slots, and nothing else: some permutation of
the new slots turns the rows and the look-ups of one result into those of the other
(`Pool.Visited.exists_renumbered`). The old slots stay where they are, because the keys that lead to
them do.
-/

namespace CorpusStats

variable {ρ ι : Type}

/-! ### Lists -/

theorem nodup_eraseDups [DecidableEq ι] (l : List ι) : l.eraseDups.Nodup := by
  induction l using List.reverseRecOn with
  | nil => exact List.nodup_nil
  | append_singleton l a ih =>
    rw [eraseDups_concat]
    split
    · exact ih
    · rename_i hmem
      rw [← List.mem_eraseDups] at hmem
      rw [← List.concat_eq_append]
      exact ih.concat hmem

/-- Looking for what was made of `a` in a list finds it if `a` was in there. -/
theorem find?_map_of_inverse [DecidableEq ι] {l : List ι} {f : ι → ρ} {g : ρ → ι}
    (hg : ∀ a, g (f a) = a) (a : ι) :
    (l.map f).find? (fun b => g b = a) = if a ∈ l then some (f a) else none := by
  induction l with
  | nil => rfl
  | cons b l ih =>
    rw [List.map_cons, List.find?_cons, hg, ih]
    by_cases hb : b = a
    · simp [hb]
    · simp [hb, Ne.symm hb]

/-! ### Renumbering -/

/-- Where the slots from `used` on go when what is in them, first in the order of `l`, is put in the
order of `l'`. -/
def renumber [DecidableEq ι] (used : ℕ) (l l' : List ι) (slot : ℕ) : ℕ :=
  if slot < used then slot
  else
    match l[slot - used]? with
    | some a => used + l'.idxOf a
    | none => slot

section

variable [DecidableEq ι] {used : ℕ} {l l' : List ι}

theorem renumber_of_lt {slot : ℕ} (h : slot < used) : renumber used l l' slot = slot := if_pos h

theorem renumber_add {n : ℕ} {a : ι} (h : l[n]? = some a) :
    renumber used l l' (used + n) = used + l'.idxOf a := by
  rw [renumber, if_neg (by omega), Nat.add_sub_cancel_left, h]

theorem renumber_of_none {n : ℕ} (h : l[n]? = none) : renumber used l l' (used + n) = used + n := by
  rw [renumber, if_neg (by omega), Nat.add_sub_cancel_left, h]

theorem renumber_renumber (hl : l.Nodup) (hperm : l.Perm l') (slot : ℕ) :
    renumber used l' l (renumber used l l' slot) = slot := by
  by_cases hslot : slot < used
  · rw [renumber_of_lt hslot, renumber_of_lt hslot]
  · obtain ⟨n, rfl⟩ := Nat.exists_eq_add_of_le (not_lt.mp hslot)
    cases ha : l[n]? with
    | none =>
      have ha' : l'[n]? = none := by
        rw [List.getElem?_eq_none_iff, ← hperm.length_eq]
        exact List.getElem?_eq_none_iff.mp ha
      rw [renumber_of_none ha, renumber_of_none ha']
    | some a =>
      have hmem : a ∈ l' := hperm.subset (List.mem_of_getElem? ha)
      obtain ⟨hn, rfl⟩ := List.getElem?_eq_some_iff.mp ha
      rw [renumber_add ha, renumber_add (List.getElem?_idxOf hmem), hl.idxOf_getElem]

/-- Renumbering in one direction and in the other. -/
def renumbering (used : ℕ) (hl : l.Nodup) (hperm : l.Perm l') : Equiv.Perm ℕ where
  toFun := renumber used l l'
  invFun := renumber used l' l
  left_inv := renumber_renumber hl hperm
  right_inv := renumber_renumber (hperm.nodup_iff.mp hl) hperm.symm

end

namespace Pool

/-- `σ` turns `p₁` into `p₂`, but for the places of keys in the index, and leaves the slots that
`p` has in use. -/
structure Renumbered (p p₁ p₂ : Pool ρ) (σ : Equiv.Perm ℕ) : Prop where
  used_eq : p₂.used = p₁.used
  fixed : ∀ slot < p.used, σ slot = slot
  row_eq : ∀ slot, p₂.liveRows[σ slot]? = p₁.liveRows[slot]?
  lookup_eq : ∀ key, (p₂.lookup key).map UInt32.toNat = (p₁.lookup key).map fun slot => σ slot.toNat

variable [Inhabited ρ]

variable {name : ι → UInt64} {fill : ι → ρ → ρ} {change : ρ → ρ} {p p' p₁ p₂ : Pool ρ}
  {rs rs' : List ι} {r : ι}

/-! ### New slots -/

section

variable [DecidableEq ι]

omit [Inhabited ρ] in
theorem nodup_newRequests : (newRequests name p rs).Nodup := nodup_eraseDups _

omit [Inhabited ρ] in
theorem newRequests_perm (hperm : rs.Perm rs') :
    (newRequests name p rs).Perm (newRequests name p rs') := by
  rw [List.perm_ext_iff_of_nodup nodup_newRequests nodup_newRequests]
  intro r
  rw [mem_newRequests, mem_newRequests, hperm.mem_iff]

variable (hinj : ∀ r ∈ rs, ∀ r' ∈ rs, name r = name r' → r = r')
include hinj

omit [DecidableEq ι] [Inhabited ρ] in
theorem inj_of_perm (hperm : rs.Perm rs') : ∀ r ∈ rs', ∀ r' ∈ rs', name r = name r' → r = r' :=
  fun r hr r' hr' => hinj r (hperm.mem_iff.mpr hr) r' (hperm.mem_iff.mpr hr')

/-- The new rows, each filled in by its request and changed by every visit. -/
theorem Visited.drop_liveRows (h : Visited name fill change p p' rs) : p'.liveRows.drop p.used
    = (newRequests name p rs).map fun r => change^[rs.count r] (fill r default) := by
  refine List.ext_getElem? fun n => ?_
  rw [List.getElem?_drop, List.getElem?_map]
  cases hr : (newRequests name p rs)[n]? with
  | none =>
    rw [List.getElem?_eq_none_iff] at hr
    rw [Option.map_none, List.getElem?_eq_none_iff, length_liveRows, h.used_eq, newKeys_map hinj,
      List.length_map]
    omega
  | some r => rw [h.row_of_new hinj hr, Option.map_some]

section

variable (h₁ : Visited name fill change p p₁ rs) (h₂ : Visited name fill change p p₂ rs')
  (hperm : rs.Perm rs')
include h₁ h₂ hperm

/-- The rows of the one result are those of the other, at their new places. -/
theorem Visited.row_renumber (slot : ℕ) :
    p₂.liveRows[renumber p.used (newRequests name p rs) (newRequests name p rs') slot]?
      = p₁.liveRows[slot]? := by
  have hnew : (newRequests name p rs).Perm (newRequests name p rs') := newRequests_perm hperm
  by_cases hslot : slot < p.used
  · have hvisits : visits name p rs' slot = visits name p rs slot := (hperm.countP_eq _).symm
    rw [renumber_of_lt hslot, h₁.old_row slot hslot, h₂.old_row slot hslot, hvisits]
  · obtain ⟨n, rfl⟩ := Nat.exists_eq_add_of_le (not_lt.mp hslot)
    cases hr : (newRequests name p rs)[n]? with
    | some r =>
      have hr' := List.getElem?_idxOf (hnew.subset (List.mem_of_getElem? hr))
      rw [renumber_add hr, h₁.row_of_new hinj hr, h₂.row_of_new (inj_of_perm hinj hperm) hr',
        hperm.count_eq]
    | none =>
      -- behind the new slots there is nothing in either result
      have hlength := List.getElem?_eq_none_iff.mp hr
      rw [renumber_of_none hr, List.getElem?_eq_none_iff.mpr, List.getElem?_eq_none_iff.mpr]
      · rw [length_liveRows, h₁.used_eq, newKeys_map hinj, List.length_map]
        omega
      · rw [length_liveRows, h₂.used_eq, newKeys_map (inj_of_perm hinj hperm), List.length_map,
          ← hnew.length_eq]
        omega

/-- A look-up leads to the slot to which that of the other result has moved. -/
theorem Visited.lookup_renumber (hp : p.Grounded) (hle : p.capacity ≤ maxPoolCapacity.toNat)
    (key : UInt64) : (p₂.lookup key).map UInt32.toNat = (p₁.lookup key).map fun slot =>
      renumber p.used (newRequests name p rs) (newRequests name p rs') slot.toNat := by
  have hnew : (newRequests name p rs).Perm (newRequests name p rs') := newRequests_perm hperm
  cases hlookup : p.lookup key with
  | some slot =>
    have hslot := (hp.rowAt_of_lookup hle hlookup).1
    rw [h₁.lookup_of_found hp hle hlookup, h₂.lookup_of_found hp hle hlookup, Option.map_some,
      Option.map_some, renumber_of_lt hslot]
  | none =>
    by_cases hkey : ∃ r ∈ newRequests name p rs, name r = Key.storable key
    · obtain ⟨r, hr, hkey⟩ := hkey
      obtain ⟨n, hn⟩ := List.mem_iff_getElem?.mp hr
      have hn' := List.getElem?_idxOf (hnew.subset hr)
      obtain ⟨slot, hslot, hnumber⟩ := h₁.exists_lookup_of_new hle hinj hn hkey
      obtain ⟨slot', hslot', hnumber'⟩ :=
        h₂.exists_lookup_of_new hle (inj_of_perm hinj hperm) hn' hkey
      rw [hslot, hslot', Option.map_some, Option.map_some, hnumber, hnumber', renumber_add hn]
    · have hunknown : Key.storable key ∉ p.newKeys (rs.map name) := by
        rw [newKeys_map hinj]
        simpa using hkey
      have hunknown' : Key.storable key ∉ p.newKeys (rs'.map name) := by
        rw [newKeys_map (inj_of_perm hinj hperm), ← (hnew.map name).mem_iff, ← newKeys_map hinj]
        exact hunknown
      rw [h₁.lookup_of_unknown hp hle hlookup hunknown,
        h₂.lookup_of_unknown hp hle hlookup hunknown']
      rfl

/-- **The same visits in another order.** Two pools that come of one by the same visits, whose keys
tell them apart, differ by a permutation of the new slots. -/
theorem Visited.exists_renumbered (hp : p.Grounded) (hle : p.capacity ≤ maxPoolCapacity.toNat) :
    ∃ σ, Renumbered p p₁ p₂ σ := by
  have hnew : (newRequests name p rs).Perm (newRequests name p rs') := newRequests_perm hperm
  refine ⟨renumbering p.used nodup_newRequests hnew, ?_, fun slot hslot => renumber_of_lt hslot,
    h₁.row_renumber hinj h₂ hperm, h₁.lookup_renumber hinj h₂ hperm hp hle⟩
  rw [h₁.used_eq, h₂.used_eq, newKeys_map hinj, newKeys_map (inj_of_perm hinj hperm),
    List.length_map, List.length_map, hnew.length_eq]

end

end

end Pool

end CorpusStats
