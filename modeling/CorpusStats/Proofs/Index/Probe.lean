import CorpusStats.Index
import Mathlib
/-!
# CorpusStats.Proofs.Index.Probe

Where a probe stops, and what one write does to every later probe.

The slots are read as a **cycle**: `Index.cell n` is the slot number `n` modulo the
capacity, so the probe for `key` visits `cell key`, `cell (key + 1)`, … and no statement
below mentions wrapping.

The invariant is `Index.Sound`: on the way from the home of a key to the slot that holds
it, every slot lets the probe pass. It says at once that a probe finds the key and that no
second slot holds it. Three writes keep it, and they are all there are: into the vacant
slot where a probe stopped, over the slot that holds the key, and erasing a slot.
-/

namespace CorpusStats

namespace Slot

/-- Whether a probe for `key` goes on behind this slot. -/
def Passes (key : UInt64) : Slot → Prop
  | vacant => False
  | erased => True
  | held k _ => k ≠ key

@[simp] theorem not_passes_vacant (key : UInt64) : ¬ vacant.Passes key := id

@[simp] theorem passes_erased (key : UInt64) : erased.Passes key := trivial

@[simp] theorem passes_held {key k : UInt64} {v : UInt32} : (held k v).Passes key ↔ k ≠ key :=
  Iff.rfl

theorem eq_of_not_passes {key : UInt64} {s : Slot} (h : ¬ s.Passes key) :
    s = vacant ∨ ∃ v, s = held key v := by
  cases s with
  | vacant => exact .inl rfl
  | erased => exact absurd (passes_erased key) h
  | held k v =>
    obtain rfl : k = key := not_not.mp h
    exact .inr ⟨v, rfl⟩

end Slot

namespace Index

variable (ix : Index)

/-! ### The slots as a cycle -/

def wrap (n : ℕ) : Fin ix.capacity := ⟨n % ix.capacity, Nat.mod_lt _ ix.capacity_pos⟩

def cell (n : ℕ) : Slot := ix.slots[ix.wrap n]

theorem next_wrap (n : ℕ) : ix.next (ix.wrap n) = ix.wrap (n + 1) := by
  ext
  simp [next, wrap]

/-- A walk of as many steps as there are slots comes to no slot twice. -/
theorem wrap_add_inj {start n m : ℕ} (hn : n < ix.capacity) (hm : m < ix.capacity)
    (h : ix.wrap (start + n) = ix.wrap (start + m)) : n = m :=
  Nat.ModEq.eq_of_lt_of_lt (Nat.ModEq.add_left_cancel' start (congrArg Fin.val h)) hn hm

/-- A walk of as many steps as there are slots comes to every slot, wherever it starts. -/
theorem exists_wrap_add_eq (start : ℕ) (i : Fin ix.capacity) :
    ∃ n < ix.capacity, ix.wrap (start + n) = i := by
  have hstart := Nat.mod_lt start ix.capacity_pos
  have hi := i.isLt
  have wrap_eq {n m : ℕ} (h : start % ix.capacity + n = i + m * ix.capacity) :
      ix.wrap (start + n) = i := by
    ext
    show (start + n) % ix.capacity = i
    rw [← Nat.mod_add_mod, h, Nat.add_mul_mod_self_right, Nat.mod_eq_of_lt hi]
  by_cases hle : start % ix.capacity ≤ i
  · exact ⟨i - start % ix.capacity, by omega, wrap_eq (m := 0) (by omega)⟩
  · exact ⟨i + ix.capacity - start % ix.capacity, by omega, wrap_eq (m := 1) (by omega)⟩

theorem cell_put (i : Fin ix.capacity) (s : Slot) (n : ℕ) :
    (ix.put i s).cell n = if ix.wrap n = i then s else ix.cell n := by
  have hcap : (ix.put i s).capacity = ix.capacity := ix.capacity_put i s
  simp only [cell, wrap, put, Fin.getElem_fin, Array.getElem_set, Fin.ext_iff] at hcap ⊢
  simp only [hcap, eq_comm]

/-! ### Where a probe stops -/

/-- The first `n` slots on the way of `key` let its probe pass. -/
def Clear (key : UInt64) (n : ℕ) : Prop := ∀ m < n, (ix.cell (key.toNat + m)).Passes key

variable {ix} {key : UInt64}

theorem Clear.mono {n m : ℕ} (h : ix.Clear key n) (hm : m ≤ n) : ix.Clear key m :=
  fun l hl => h l (hl.trans_le hm)

/-- Slots that let the probe pass are walked over. -/
theorem Clear.probe_eq {n : ℕ} (h : ix.Clear key n) (hn : n ≤ ix.capacity) :
    ix.probe key = ix.probeFrom key (ix.capacity - n) (ix.wrap (key.toNat + n)) := by
  induction n with
  | zero => rfl
  | succ n ih =>
    rw [ih (h.mono n.le_succ) (by omega),
      show ix.capacity - n = (ix.capacity - (n + 1)) + 1 by omega, probeFrom, next_wrap]
    have hpass : (ix.slots[ix.wrap (key.toNat + n)]).Passes key := h n n.lt_succ_self
    cases hs : ix.slots[ix.wrap (key.toNat + n)] with
    | vacant => rw [hs] at hpass; exact absurd hpass (Slot.not_passes_vacant key)
    | erased => rfl
    | held k v => rw [hs] at hpass; exact if_neg hpass

theorem Clear.probe_eq_found {n : ℕ} {v : UInt32} (h : ix.Clear key n) (hn : n < ix.capacity)
    (hv : ix.cell (key.toNat + n) = .held key v) :
    ix.probe key = .found (ix.wrap (key.toNat + n)) v := by
  rw [h.probe_eq hn.le, show ix.capacity - n = (ix.capacity - (n + 1)) + 1 by omega, probeFrom]
  rw [cell] at hv
  simp [hv]

theorem Clear.probe_eq_absent {n : ℕ} (h : ix.Clear key n) (hn : n < ix.capacity)
    (hv : ix.cell (key.toNat + n) = .vacant) :
    ix.probe key = .absent (ix.wrap (key.toNat + n)) := by
  rw [h.probe_eq hn.le, show ix.capacity - n = (ix.capacity - (n + 1)) + 1 by omega, probeFrom]
  rw [cell] at hv
  simp [hv]

/-- A probe that may pass every slot finds nothing and no room. -/
theorem Clear.probe_eq_full (h : ix.Clear key ix.capacity) : ix.probe key = .full := by
  rw [h.probe_eq le_rfl, Nat.sub_self, probeFrom]

/-- Every probe ends in one of three ways. -/
theorem probe_cases (ix : Index) (key : UInt64) :
    (∃ n v, n < ix.capacity ∧ ix.Clear key n ∧ ix.cell (key.toNat + n) = .held key v ∧
        ix.probe key = .found (ix.wrap (key.toNat + n)) v)
      ∨ (∃ n, n < ix.capacity ∧ ix.Clear key n ∧ ix.cell (key.toNat + n) = .vacant ∧
        ix.probe key = .absent (ix.wrap (key.toNat + n)))
      ∨ (ix.Clear key ix.capacity ∧ ix.probe key = .full) := by
  by_cases hfull : ix.Clear key ix.capacity
  · exact .inr (.inr ⟨hfull, hfull.probe_eq_full⟩)
  · -- the first slot on the way that stops the probe
    have hex : ∃ n, n < ix.capacity ∧ ¬ (ix.cell (key.toNat + n)).Passes key := by
      simpa [Clear] using hfull
    classical
    obtain ⟨hn, hstop⟩ := Nat.find_spec hex
    have hclear : ix.Clear key (Nat.find hex) := fun m hm =>
      not_not.mp fun hpass => Nat.find_min hex hm ⟨hm.trans hn, hpass⟩
    rcases Slot.eq_of_not_passes hstop with hv | ⟨v, hv⟩
    · exact .inr (.inl ⟨_, hn, hclear, hv, hclear.probe_eq_absent hn hv⟩)
    · exact .inl ⟨_, v, hn, hclear, hv, hclear.probe_eq_found hn hv⟩

/-! ### The invariant -/

/-- Keys can be found: nothing stops the probe for a key before it comes to the slot that
holds the key. -/
structure Sound (ix : Index) : Prop where
  clear_of_held : ∀ (key : UInt64) (v : UInt32) (n : ℕ), n < ix.capacity →
    ix.cell (key.toNat + n) = .held key v → ix.Clear key n
  not_reserved : ∀ (key : UInt64) (v : UInt32) (n : ℕ),
    ix.cell n = .held key v → ¬ Key.IsReserved key

/-- Some slot holds the key with this value. -/
def Holds (ix : Index) (key : UInt64) (v : UInt32) : Prop := ∃ n, ix.cell n = .held key v

theorem cell_eq_of_wrap_eq {n : ℕ} {i : Fin ix.capacity} (h : ix.wrap n = i) :
    ix.cell n = ix.slots[i] := by
  subst h
  rfl

/-- A held key is held by a slot that its probe comes to. -/
theorem Holds.exists_on_way {v : UInt32} (h : ix.Holds key v) :
    ∃ n < ix.capacity, ix.cell (key.toNat + n) = .held key v := by
  obtain ⟨m, hm⟩ := h
  obtain ⟨n, hn, hwrap⟩ := ix.exists_wrap_add_eq key.toNat (ix.wrap m)
  exact ⟨n, hn, (cell_eq_of_wrap_eq hwrap).trans hm⟩

/-- The raw value of a key is the value that some slot holds for it. -/
theorem Sound.raw?_eq_some_iff (h : ix.Sound) {v : UInt32} :
    ix.raw? key = some v ↔ ix.Holds key v := by
  constructor
  · intro hraw
    rcases probe_cases ix key with ⟨n, w, -, -, hw, hp⟩ | ⟨n, -, -, -, hp⟩ | ⟨-, hp⟩
    · rw [raw?, hp] at hraw
      obtain rfl : w = v := Option.some.inj hraw
      exact ⟨_, hw⟩
    · simp [raw?, hp] at hraw
    · simp [raw?, hp] at hraw
  · intro hheld
    obtain ⟨n, hn, hv⟩ := hheld.exists_on_way
    rw [raw?, (h.clear_of_held key v n hn hv).probe_eq_found hn hv]

theorem Sound.raw?_eq_none_iff (h : ix.Sound) : ix.raw? key = none ↔ ∀ v, ¬ ix.Holds key v := by
  simp only [← h.raw?_eq_some_iff, Option.eq_none_iff_forall_ne_some, ne_eq]

theorem Sound.raw?_of_reserved (h : ix.Sound) (hkey : Key.IsReserved key) :
    ix.raw? key = none := by
  rw [h.raw?_eq_none_iff]
  intro v hv
  obtain ⟨n, hn⟩ := hv
  exact h.not_reserved key v n hn hkey

/-- No two slots hold one key. -/
theorem Sound.eq_of_held (h : ix.Sound) {i j : Fin ix.capacity} {v w : UInt32}
    (hi : ix.slots[i] = .held key v) (hj : ix.slots[j] = .held key w) : i = j := by
  obtain ⟨n, hn, hwn⟩ := ix.exists_wrap_add_eq key.toNat i
  obtain ⟨m, hm, hwm⟩ := ix.exists_wrap_add_eq key.toNat j
  have hcn : ix.cell (key.toNat + n) = .held key v := by
    rw [cell_eq_of_wrap_eq hwn, hi]
  have hcm : ix.cell (key.toNat + m) = .held key w := by
    rw [cell_eq_of_wrap_eq hwm, hj]
  have hpn := h.clear_of_held key v n hn hcn
  have hpm := h.clear_of_held key w m hm hcm
  -- the probe for the slot further on would have passed the nearer one, which holds the key
  rcases lt_trichotomy n m with hlt | rfl | hlt
  · exact absurd rfl (Slot.passes_held.mp (hcn ▸ hpm n hlt))
  · exact hwn.symm.trans hwm
  · exact absurd rfl (Slot.passes_held.mp (hcm ▸ hpn m hlt))

/-- A key that is held at all is held where its probe stops. -/
theorem Sound.wrap_eq_of_held (h : ix.Sound) {n m : ℕ} {v : UInt32} (hn : n < ix.capacity)
    (hclear : ix.Clear key n) (hstop : ¬ (ix.cell (key.toNat + n)).Passes key)
    (hm : ix.cell m = .held key v) : ix.wrap m = ix.wrap (key.toNat + n) := by
  obtain ⟨l, hl, hwrap⟩ := ix.exists_wrap_add_eq key.toNat (ix.wrap m)
  have hheld : ix.cell (key.toNat + l) = .held key v := (cell_eq_of_wrap_eq hwrap).trans hm
  have hway := h.clear_of_held key v l hl hheld
  rcases lt_trichotomy l n with hlt | rfl | hlt
  · exact absurd rfl (Slot.passes_held.mp (hheld ▸ hclear l hlt))
  · exact hwrap.symm
  · exact absurd (hway n hlt) hstop

/-! ### Writes -/

/-- Writing a key into the slot where its probe stopped keeps every key in reach: the slot
was on nobody's way, or it held the key already. -/
theorem Sound.put_held (h : ix.Sound) {n : ℕ} (hn : n < ix.capacity) (hclear : ix.Clear key n)
    (hstop : ¬ (ix.cell (key.toNat + n)).Passes key) (hkey : ¬ Key.IsReserved key) (v : UInt32) :
    (ix.put (ix.wrap (key.toNat + n)) (.held key v)).Sound := by
  constructor
  · intro k w m hm hheld l hl
    rw [capacity_put] at hm
    rw [cell_put] at hheld ⊢
    by_cases hk : k = key
    · subst hk
      -- the key is now in its slot and nowhere else
      have hmn : m = n := by
        by_cases hwm : ix.wrap (k.toNat + m) = ix.wrap (k.toNat + n)
        · exact ix.wrap_add_inj hm hn hwm
        · rw [if_neg hwm] at hheld
          exact absurd (h.wrap_eq_of_held hn hclear hstop hheld) hwm
      subst hmn
      have hwl : ix.wrap (k.toNat + l) ≠ ix.wrap (k.toNat + m) :=
        fun hw => hl.ne (ix.wrap_add_inj (hl.trans hn) hn hw)
      rw [if_neg hwl]
      exact hclear l hl
    · -- another key keeps its slot; a slot that changed on its way was no obstacle before
      split at hheld
      · cases hheld
        exact absurd rfl hk
      · split
        · exact Slot.passes_held.mpr (Ne.symm hk)
        · exact h.clear_of_held k w m hm hheld l hl
  · intro k w m hheld
    rw [cell_put] at hheld
    split at hheld
    · cases hheld
      exact hkey
    · exact h.not_reserved k w m hheld

/-- Erasing a slot keeps every key in reach: probes pass it. -/
theorem Sound.put_erased (h : ix.Sound) (i : Fin ix.capacity) : (ix.put i .erased).Sound := by
  constructor
  · intro k w m hm hheld l hl
    rw [capacity_put] at hm
    rw [cell_put] at hheld ⊢
    split at hheld
    · cases hheld
    · split
      · exact Slot.passes_erased k
      · exact h.clear_of_held k w m hm hheld l hl
  · intro k w m hheld
    rw [cell_put] at hheld
    split at hheld
    · cases hheld
    · exact h.not_reserved k w m hheld

/-- What the slots hold after a key was written where its probe stopped. -/
theorem Sound.holds_put_held (h : ix.Sound) {n : ℕ} (hn : n < ix.capacity)
    (hclear : ix.Clear key n) (hstop : ¬ (ix.cell (key.toNat + n)).Passes key) (v w : UInt32)
    (k : UInt64) : (ix.put (ix.wrap (key.toNat + n)) (.held key v)).Holds k w ↔
      if k = key then v = w else ix.Holds k w := by
  constructor
  · intro h
    obtain ⟨m, hm⟩ := h
    rw [cell_put] at hm
    split at hm
    · cases hm
      rw [if_pos rfl]
    · rename_i hwm
      by_cases hk : k = key
      · exact absurd (h.wrap_eq_of_held hn hclear hstop (hk ▸ hm)) hwm
      · rw [if_neg hk]
        exact ⟨m, hm⟩
  · intro hw
    split at hw
    · rename_i hk
      exact ⟨key.toNat + n, by rw [cell_put, if_pos rfl, hk, hw]⟩
    · rename_i hk
      obtain ⟨m, hm⟩ := hw
      refine ⟨m, ?_⟩
      rw [cell_put, if_neg, hm]
      -- the slot that was written did not let the probe pass, so it held no other key
      intro hwm
      rcases Slot.eq_of_not_passes hstop with hv | ⟨u, hu⟩
      · rw [cell_eq_of_wrap_eq hwm.symm] at hv
        rw [cell, hv] at hm
        cases hm
      · rw [cell_eq_of_wrap_eq hwm.symm] at hu
        rw [cell, hu] at hm
        cases hm
        exact hk rfl

theorem Sound.holds_put_erased (h : ix.Sound) {n : ℕ} {v : UInt32}
    (hheld : ix.cell n = .held key v) (w : UInt32) (k : UInt64) :
    (ix.put (ix.wrap n) .erased).Holds k w ↔ k ≠ key ∧ ix.Holds k w := by
  constructor
  · intro h
    obtain ⟨m, hm⟩ := h
    rw [cell_put] at hm
    split at hm
    · cases hm
    · rename_i hwm
      refine ⟨?_, m, hm⟩
      rintro rfl
      exact hwm (h.eq_of_held hm hheld)
  · intro h
    obtain ⟨hk, m, hm⟩ := h
    refine ⟨m, ?_⟩
    rw [cell_put, if_neg, hm]
    intro hwm
    rw [cell_eq_of_wrap_eq hwm.symm] at hheld
    rw [cell, hheld] at hm
    cases hm
    exact hk rfl

end Index

end CorpusStats
