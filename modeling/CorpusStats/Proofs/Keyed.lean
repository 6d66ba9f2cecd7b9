import CorpusStats.Proofs.Index.Write
/-!
# CorpusStats.Proofs.Keyed

An index beside a list of rows, each of which is found through its key while it is **live**.

* `Keyed key live ix rows k`: the index finds each live one of the first `k` rows, and
  nothing else. It is complete when `k` is the number of rows; while it is being built it is
  complete up to `k`.
* Rows join and are entered one at a time (`Keyed.append`, `Keyed.enter`, `Keyed.skip`), and
  a known row may change in all but its key and whether it is live (`Keyed.congr_rows`).
-/

namespace CorpusStats

variable {ρ : Type}

/-- The index finds those of the first `k` rows that are live, and nothing else. -/
structure Keyed (key : ρ → UInt64) (live : ρ → Prop) (ix : Index) (rows : List ρ) (k : ℕ) :
    Prop where
  sound : ix.Sound
  /-- A live row is found through its key. -/
  found : ∀ slot row, slot < k → rows[slot]? = some row → live row →
    ∃ u : UInt32, ix.raw? (key row) = some u ∧ u.toNat = slot
  /-- Whatever is found is a live row. -/
  live : ∀ stored (u : UInt32), ix.raw? stored = some u →
    u.toNat < k ∧ ∃ row, rows[u.toNat]? = some row ∧ live row ∧ key row = stored

namespace Keyed

variable {key : ρ → UInt64} {live : ρ → Prop} {ix ix' : Index} {rows : List ρ} {k : ℕ}

theorem of_raw?_eq_none (hsound : ix.Sound) (hraw : ∀ stored, ix.raw? stored = none)
    (rows : List ρ) : Keyed key live ix rows 0 := by
  refine ⟨hsound, fun slot row hslot => absurd hslot (Nat.not_lt_zero _), fun stored u hu => ?_⟩
  rw [hraw] at hu
  cases hu

theorem eq_of_key_eq (h : Keyed key live ix rows k) {i j : ℕ} {row row' : ρ} (hi : i < k)
    (hj : j < k) (hrow : rows[i]? = some row) (hrow' : rows[j]? = some row') (hlive : live row)
    (hlive' : live row') (hkey : key row' = key row) : j = i := by
  obtain ⟨u, hu, rfl⟩ := h.found i row hi hrow hlive
  obtain ⟨v, hv, rfl⟩ := h.found j row' hj hrow' hlive'
  rw [hkey, hu] at hv
  cases hv
  rfl

/-- The rows that the index knows may change as long as they keep their keys and being live. -/
theorem congr_rows (h : Keyed key live ix rows k) {rows' : List ρ}
    (hlength : rows'.length = rows.length)
    (hrows : ∀ slot (row row' : ρ), slot < k → rows[slot]? = some row →
      rows'[slot]? = some row' → key row' = key row ∧ (live row' ↔ live row)) :
    Keyed key live ix rows' k := by
  have hget {slot : ℕ} (row : ρ) {l l' : List ρ} (hl : l'.length = l.length)
      (hrow : l[slot]? = some row) : ∃ row', l'[slot]? = some row' :=
    ⟨_, List.getElem?_eq_getElem (hl ▸ (List.getElem?_eq_some_iff.mp hrow).1)⟩
  refine ⟨h.sound, fun slot row' hslot hrow' hlive => ?_, fun stored u hu => ?_⟩
  · obtain ⟨row, hrow⟩ := hget row' hlength.symm hrow'
    obtain ⟨hkey, hiff⟩ := hrows slot row row' hslot hrow hrow'
    rw [hkey]
    exact h.found slot row hslot hrow (hiff.mp hlive)
  · obtain ⟨hlt, row, hrow, hlive, hkey⟩ := h.live stored u hu
    obtain ⟨row', hrow'⟩ := hget row hlength hrow
    obtain ⟨hkey', hiff⟩ := hrows u.toNat row row' hlt hrow hrow'
    exact ⟨hlt, row', hrow', hiff.mpr hlive, hkey'.trans hkey⟩

/-- Rows may join behind those that the index knows. -/
theorem append (h : Keyed key live ix rows k) (row : ρ) (hk : k ≤ rows.length) :
    Keyed key live ix (rows ++ [row]) k := by
  have hsame {slot : ℕ} (hslot : slot < k) : (rows ++ [row])[slot]? = rows[slot]? :=
    List.getElem?_append_left (hslot.trans_le hk)
  refine ⟨h.sound, fun slot row' hslot hrow' => ?_, fun stored u hu => ?_⟩
  · rw [hsame hslot] at hrow'
    exact h.found slot row' hslot hrow'
  · obtain ⟨hlt, hrest⟩ := h.live stored u hu
    refine ⟨hlt, ?_⟩
    rw [hsame hlt]
    exact hrest

/-- A row that is not live needs no key. -/
theorem skip (h : Keyed key live ix rows k) {row : ρ} (hrow : rows[k]? = some row)
    (hdead : ¬ live row) : Keyed key live ix rows (k + 1) := by
  refine ⟨h.sound, fun slot row' hslot hrow' hlive' => ?_, fun stored u hu => ?_⟩
  · rcases Nat.lt_succ_iff_lt_or_eq.mp hslot with hlt | rfl
    · exact h.found slot row' hlt hrow' hlive'
    · rw [hrow] at hrow'
      cases hrow'
      exact absurd hlive' hdead
  · obtain ⟨hlt, hrest⟩ := h.live stored u hu
    exact ⟨hlt.trans k.lt_succ_self, hrest⟩

/-- A live row whose key finds nothing yet takes it. -/
theorem enter (h : Keyed key live ix rows k) {row : ρ} (hrow : rows[k]? = some row)
    (hlive : live row) (hraw : ix.raw? (key row) = none) {u : UInt32} (hu : u.toNat = k)
    (hw : Index.Written ix ix' (key row) (some u)) : Keyed key live ix' rows (k + 1) := by
  refine ⟨hw.sound, fun slot row' hslot hrow' hlive' => ?_, fun stored v hv => ?_⟩
  · rw [hw.raw?_eq]
    rcases Nat.lt_succ_iff_lt_or_eq.mp hslot with hlt | rfl
    · obtain ⟨v, hv, hvslot⟩ := h.found slot row' hlt hrow' hlive'
      -- the row before has a value under its key, so its key is another one
      rw [if_neg, hv]
      · exact ⟨v, rfl, hvslot⟩
      · intro hkey
        rw [hkey, hraw] at hv
        cases hv
    · rw [hrow] at hrow'
      cases hrow'
      exact ⟨u, if_pos rfl, hu⟩
  · rw [hw.raw?_eq] at hv
    split at hv
    · rename_i hkey
      cases hv
      exact ⟨hu ▸ k.lt_succ_self, row, hu ▸ hrow, hlive, hkey.symm⟩
    · obtain ⟨hlt, hrest⟩ := h.live stored v hv
      exact ⟨hlt.trans k.lt_succ_self, hrest⟩

end Keyed

end CorpusStats
