import CorpusStats.Proofs.Key
/-!
# CorpusStats.Proofs.Collisions

Which contents share a key.

Storing a computed key moves the two reserved keys to `0` and no other key, so two contents share
a key exactly if the same key is computed for both, or if both keys are **merged**: `0` or
reserved (`Key.storable_eq_iff`). What is left is to tell computed keys apart.

* **Sections.** The keys of one disjunct on two words differ by two multiples of the salt. Merged
  keys differ in all bits, in the lowest bit, or in all other bits, which says that their sum or
  their difference is next to zero. Dividing by the salt, the same sum or difference of the words
  would be a word of more than 33 bits, so no disjunct is merged on two words
  (`Key.sections_told_apart`).
* **Names.** Mixing a byte into the state can be undone for every byte, so states that differ
  still differ after any number of bytes (`Key.names_told_apart`).
-/

namespace CorpusStats

namespace Key

variable {a b c : UInt64}

theorem xor_cancel_left (a b : UInt64) : a ^^^ (a ^^^ b) = b := by
  rw [← UInt64.xor_assoc, UInt64.xor_self, UInt64.zero_xor]

/-! ### Merged keys -/

/-- The keys that are stored as `0`. -/
def IsMerged (key : UInt64) : Prop := key = 0 ∨ IsReserved key

instance (key : UInt64) : Decidable (IsMerged key) := inferInstanceAs (Decidable (_ ∨ _))

theorem storable_eq_zero_iff {key : UInt64} : storable key = 0 ↔ IsMerged key := by
  by_cases hkey : IsReserved key
  · simp [storable_of_reserved hkey, IsMerged, hkey]
  · simp [storable_of_not_reserved hkey, IsMerged, hkey]

/-- Two keys are stored as one if they are equal or both are merged. -/
theorem storable_eq_iff : storable a = storable b ↔ a = b ∨ IsMerged a ∧ IsMerged b := by
  by_cases hzero : storable a = 0
  · rw [← storable_eq_zero_iff, ← storable_eq_zero_iff, hzero]
    constructor
    · intro h
      exact .inr ⟨rfl, h.symm⟩
    · rintro (rfl | ⟨-, h⟩)
      · exact hzero.symm
      · exact h.symm
  · rw [storable_inj_of_ne_zero hzero, ← storable_eq_zero_iff]
    simp [hzero]

/-- How two merged keys can differ: not at all, in the lowest bit, in all other bits, or in all. -/
theorem xor_of_isMerged (ha : IsMerged a) (hb : IsMerged b) :
    a ^^^ b = 0 ∨ a ^^^ b = 1 ∨ a ^^^ b = erased ∨ a ^^^ b = vacant := by
  rcases ha with rfl | rfl | rfl <;> rcases hb with rfl | rfl | rfl <;> decide

/-! ### Sections -/

theorem eq_add_one_of_xor_one (h : a ^^^ b = 1) : b = a + 1 ∨ a = b + 1 := by
  have hnat : b.toNat = a.toNat ^^^ 1 := by
    rw [← xor_cancel_left a b, h]
    exact UInt64.toNat_xor a 1
  have hlt := a.toNat_lt
  have hone : (1 : UInt64).toNat = 1 := rfl
  rcases Nat.even_or_odd a.toNat with heven | hodd
  · left
    have hmod := Nat.even_iff.mp heven
    rw [Nat.xor_one_of_even heven] at hnat
    rw [← UInt64.toNat_inj, UInt64.toNat_add, hone]
    omega
  · right
    have hmod := Nat.odd_iff.mp hodd
    rw [Nat.xor_one_of_odd hodd] at hnat
    rw [← UInt64.toNat_inj, UInt64.toNat_add, hone]
    omega

theorem add_of_xor_vacant (h : a ^^^ b = vacant) : a + b = -1 := by
  have hb : b = -a - 1 := by
    calc b = a ^^^ vacant := by rw [← h, xor_cancel_left]
      _ = ~~~a := UInt64.xor_neg_one
      _ = -a - 1 := UInt64.not_eq_neg_sub a
  grind

theorem add_of_xor_erased (h : a ^^^ b = erased) : a + b = 0 ∨ a + b = -2 := by
  -- flipping the lowest bit of `b` leaves a number that differs from `a` in all bits
  have hflip : a + (b ^^^ 1) = -1 := by
    refine add_of_xor_vacant ?_
    rw [← UInt64.xor_assoc, h]
    rfl
  rcases eq_add_one_of_xor_one (xor_cancel_left b 1) with hb | hb
  · right
    grind
  · left
    grind

/-- A sum of two multiples of the salt gives the sum of the words. -/
theorem add_of_salted (h : a * sectionSalt + b * sectionSalt = c) : a + b = c * sectionUnsalt := by
  have := sectionSalt_mul_unsalt
  grind

theorem toNat_add_words (v w : UInt32) :
    (v.toUInt64 + w.toUInt64).toNat = v.toNat + w.toNat := by
  have hv := v.toNat_lt
  have hw := w.toNat_lt
  rw [UInt64.toNat_add, UInt32.toNat_toUInt64, UInt32.toNat_toUInt64]
  omega

/-- The words of a sum of multiples of the salt add up to less than a word of 34 bits. -/
theorem toNat_of_salted {v w : UInt32}
    (h : v.toUInt64 * sectionSalt + w.toUInt64 * sectionSalt = c) :
    v.toNat + w.toNat = (c * sectionUnsalt).toNat := by
  rw [← toNat_add_words, add_of_salted h]

/-- Multiples of the salt are not next to each other. -/
theorem salted_ne_add_one (v w : UInt32) :
    v.toUInt64 * sectionSalt ≠ w.toUInt64 * sectionSalt + 1 := by
  intro h
  have hunsalt := sectionSalt_mul_unsalt
  have hwords : v.toUInt64 = w.toUInt64 + sectionUnsalt := by grind
  have hnat := congrArg UInt64.toNat hwords
  have hv := v.toNat_lt
  have hw := w.toNat_lt
  rw [UInt64.toNat_add, UInt32.toNat_toUInt64, UInt32.toNat_toUInt64,
    show sectionUnsalt.toNat = 0xF1DE83E19937733D from rfl] at hnat
  omega

/-- No disjunct is merged on two words. -/
theorem not_isMerged_of_ne {v w : UInt32} {disjunct : UInt64} (hne : v ≠ w)
    (hv : IsMerged (disjunct ^^^ v.toUInt64 * sectionSalt)) :
    ¬ IsMerged (disjunct ^^^ w.toUInt64 * sectionSalt) := by
  intro hw
  have hcancel : disjunct ^^^ v.toUInt64 * sectionSalt ^^^ (disjunct ^^^ w.toUInt64 * sectionSalt)
      = v.toUInt64 * sectionSalt ^^^ w.toUInt64 * sectionSalt := by
    rw [UInt64.xor_comm disjunct, UInt64.xor_assoc, xor_cancel_left]
  have hv32 := v.toNat_lt
  have hw32 := w.toNat_lt
  have hxor := xor_of_isMerged hv hw
  rw [hcancel] at hxor
  rcases hxor with hzero | hone | herased | hvacant
  · exact hne (salted_inj (UInt64.xor_eq_zero_iff.mp hzero))
  · rcases eq_add_one_of_xor_one hone with h | h
    · exact salted_ne_add_one w v h
    · exact salted_ne_add_one v w h
  · rcases add_of_xor_erased herased with h | h
    · -- only the word `0` and itself add up to nothing
      have hsum := toNat_of_salted h
      rw [show (0 * sectionUnsalt).toNat = 0 from rfl] at hsum
      exact hne (UInt32.toNat_inj.mp (by omega))
    · have hsum := toNat_of_salted h
      rw [show (-2 * sectionUnsalt).toNat = 0x1C42F83CCD911986 from rfl] at hsum
      omega
  · have hsum := toNat_of_salted (add_of_xor_vacant hvacant)
    rw [show (-1 * sectionUnsalt).toNat = 0x0E217C1E66C88CC3 from rfl] at hsum
    omega

/-- **One disjunct has another key on every word, and the disjuncts of one word have keys of their
own unless they are merged.** Storing moves at most three disjuncts of a word to key `0`; apart
from these, sections share a key only if they agree in both parts or in neither. -/
theorem sections_told_apart :
    (∀ (disjunct : UInt64) (v w : UInt32),
      ofSection v disjunct = ofSection w disjunct ↔ v = w) ∧
    (∀ (word : UInt32) (d e : UInt64), ofSection word d = ofSection word e ↔
      d = e ∨ IsMerged (d ^^^ word.toUInt64 * sectionSalt)
        ∧ IsMerged (e ^^^ word.toUInt64 * sectionSalt)) := by
  constructor
  · intro disjunct v w
    constructor
    · intro h
      by_contra hne
      rcases storable_eq_iff.mp h with hkeys | ⟨hv, hw⟩
      · exact hne (salted_inj ((UInt64.xor_right_inj _).mp hkeys))
      · exact not_isMerged_of_ne hne hv hw
    · intro h
      rw [h]
  · intro word d e
    rw [ofSection, ofSection, storable_eq_iff, UInt64.xor_left_inj]

/-! ### Names -/

/-- The inverse of the multiplier of the name hash. -/
def nameUnfactor : UInt64 := 0x96DE1B173F119089

theorem mul_nameFactor_inj : a * nameFactor = b * nameFactor ↔ a = b := by
  have hinverse : nameFactor * nameUnfactor = 1 := by decide
  constructor
  · intro h
    grind
  · intro h
    rw [h]

/-- A word is determined by its differences with itself shifted. -/
theorem xor_shiftRight_inj : a ^^^ a >>> 31 = b ^^^ b >>> 31 ↔ a = b := by
  constructor
  · intro h
    -- where `a` and `b` differ they also differ 31 places further up, so nowhere
    have hshift : a ^^^ b = (a ^^^ b) >>> 31 := by
      calc a ^^^ b = a >>> 31 ^^^ (a >>> 31 ^^^ a) ^^^ b := by rw [xor_cancel_left]
        _ = a >>> 31 ^^^ (a ^^^ a >>> 31 ^^^ b) := by ac_rfl
        _ = a >>> 31 ^^^ (b ^^^ b >>> 31 ^^^ b) := by rw [h]
        _ = a >>> 31 ^^^ (b ^^^ (b ^^^ b >>> 31)) := by ac_rfl
        _ = (a ^^^ b) >>> 31 := by rw [xor_cancel_left, UInt64.shiftRight_xor]
    have hnat := congrArg UInt64.toNat hshift
    rw [UInt64.toNat_shiftRight, show (31 : UInt64).toNat % 64 = 31 from rfl,
      Nat.shiftRight_eq_div_pow] at hnat
    have hzero : (a ^^^ b).toNat = 0 := by omega
    exact UInt64.xor_eq_zero_iff.mp (UInt64.toNat_inj.mp hzero)
  · intro h
    rw [h]

theorem mixByte_eq_iff {state state' : UInt64} {byte byte' : UInt8} :
    mixByte state byte = mixByte state' byte' ↔
      state ^^^ byte.toUInt64 = state' ^^^ byte'.toUInt64 := by
  rw [mixByte, mixByte, xor_shiftRight_inj, mul_nameFactor_inj]

/-- States that differ still differ after the same bytes. -/
theorem foldl_mixByte_inj {bytes : List UInt8} :
    bytes.foldl mixByte a = bytes.foldl mixByte b ↔ a = b := by
  induction bytes generalizing a b with
  | nil => rfl
  | cons byte bytes ih =>
    rw [List.foldl_cons, List.foldl_cons, ih, mixByte_eq_iff, UInt64.xor_left_inj]

/-- Strings of bytes that differ in one byte have different hashes. -/
theorem ofBytes_eq_iff {p s : List UInt8} {b c : UInt8} :
    ofBytes (p ++ b :: s) = ofBytes (p ++ c :: s) ↔ b = c := by
  rw [ofBytes_append, ofBytes_append, List.foldl_cons, List.foldl_cons, foldl_mixByte_inj,
    mixByte_eq_iff, UInt64.xor_right_inj]
  constructor
  · intro h
    exact UInt8.toUInt64_inj.mp h
  · intro h
    rw [h]

/-- **Names that differ in one byte have different hashes.** They share a key only if both hashes
are merged, and no name has a reserved key. -/
theorem names_told_apart (p s : List UInt8) (b c : UInt8) :
    (ofBytes (p ++ b :: s) = ofBytes (p ++ c :: s) ↔ b = c) ∧
    (∀ name name' : String, name.toUTF8.data.toList = p ++ b :: s →
      name'.toUTF8.data.toList = p ++ c :: s →
      (ofName name = ofName name' ↔
        b = c ∨ IsMerged (ofBytes (p ++ b :: s)) ∧ IsMerged (ofBytes (p ++ c :: s)))) ∧
    ∀ name : String, ¬ IsReserved (ofName name) := by
  refine ⟨ofBytes_eq_iff, ?_, fun name => not_isReserved_storable _⟩
  intro name name' hname hname'
  rw [ofName, ofName, hname, hname', storable_eq_iff, ofBytes_eq_iff]

/-- Two names with another letter in the middle. -/
theorem names_told_apart_cat_cut :
    "cat".toUTF8.data.toList = [99] ++ 97 :: [116] ∧ "cut".toUTF8.data.toList = [99] ++ 117 :: [116]
      ∧ ofName "cat" ≠ ofName "cut" := by
  have hcat : "cat".toUTF8.data.toList = [99] ++ 97 :: [116] := by decide
  have hcut : "cut".toUTF8.data.toList = [99] ++ 117 :: [116] := by decide
  refine ⟨hcat, hcut, fun h => ?_⟩
  have hbytes := ((names_told_apart [99] [116] 97 117).2.1 "cat" "cut" hcat hcut).mp h
  revert hbytes
  decide

end Key

end CorpusStats
