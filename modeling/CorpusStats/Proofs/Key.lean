import CorpusStats.Disjunct
import Mathlib
/-!
# CorpusStats.Proofs.Key

When keys tell contents apart.

* Packing two words into a key loses nothing, and a packed pair can only be reserved if its
  smaller word is the largest number, so the keys of all other pairs are distinct.
* The key of a section mixes 96 bits into 64, so every section of one word has the key of some
  section of every other word. Sections that agree in the word or in the disjunct are told apart,
  unless their key is `0`.
-/

namespace CorpusStats

namespace WordPair

theorem ext_words {p q : WordPair} (hfirst : p.first = q.first) (hsecond : p.second = q.second) :
    p = q := by
  cases p
  cases q
  cases hfirst
  cases hsecond
  rfl

theorem of_first (a b : UInt32) : (of a b).first = min a b := by
  rw [show min a b = if a ≤ b then a else b from rfl, of]
  split <;> rfl

theorem of_second (a b : UInt32) : (of a b).second = max a b := by
  rw [show max a b = if a ≤ b then b else a from rfl, of]
  split <;> rfl

/-- Both words can be read back from the packed pair. -/
theorem toNat_pack (p : WordPair) :
    (p.first.toUInt64 <<< 32 ||| p.second.toUInt64).toNat
      = p.first.toNat * 2 ^ 32 + p.second.toNat := by
  have hfirst := p.first.toNat_lt
  have hsecond := p.second.toNat_lt
  have hshift : (p.first.toUInt64 <<< 32).toNat = p.first.toNat <<< 32 := by
    rw [UInt64.toNat_shiftLeft, UInt32.toNat_toUInt64]
    refine Nat.mod_eq_of_lt ?_
    show p.first.toNat <<< 32 < 2 ^ 64
    rw [Nat.shiftLeft_eq]
    omega
  rw [UInt64.toNat_or, hshift, UInt32.toNat_toUInt64,
    ← Nat.shiftLeft_add_eq_or_of_lt hsecond, Nat.shiftLeft_eq]

/-- The pair of two words is stored under its own key unless both are the largest. -/
theorem toNat_key {p : WordPair} (h : p.first.toNat < 2 ^ 32 - 1) :
    p.key.toNat = p.first.toNat * 2 ^ 32 + p.second.toNat := by
  have hsecond := p.second.toNat_lt
  -- both reserved keys have the largest number in their high half
  have hreserved : ¬ Key.IsReserved (p.first.toUInt64 <<< 32 ||| p.second.toUInt64) := by
    intro hreserved
    rcases hreserved with hkey | hkey
    all_goals
      have hnat := congrArg UInt64.toNat hkey
      rw [toNat_pack] at hnat
    · rw [show Key.vacant.toNat = 2 ^ 64 - 1 from rfl] at hnat
      omega
    · rw [show Key.erased.toNat = 2 ^ 64 - 2 from rfl] at hnat
      omega
  rw [key, Key.storable_of_not_reserved hreserved, toNat_pack]

/-- Pairs with a word below the largest have keys of their own. -/
theorem key_inj {p q : WordPair} (hp : p.first.toNat < 2 ^ 32 - 1)
    (hq : q.first.toNat < 2 ^ 32 - 1) (h : p.key = q.key) : p = q := by
  have hnat := congrArg UInt64.toNat h
  have hsecond := p.second.toNat_lt
  have hsecond' := q.second.toNat_lt
  rw [toNat_key hp, toNat_key hq] at hnat
  refine ext_words (UInt32.toNat_inj.mp ?_) (UInt32.toNat_inj.mp ?_) <;> omega

theorem key_inj_of_mem {ps : List WordPair} (h : ∀ p ∈ ps, p.first.toNat < 2 ^ 32 - 1) :
    ∀ p ∈ ps, ∀ q ∈ ps, p.key = q.key → p = q := fun p hp q hq => key_inj (h p hp) (h q hq)

/-- No pair of words is stored under a reserved key. -/
@[simp] theorem storable_key (p : WordPair) : Key.storable p.key = p.key := Key.storable_storable _

end WordPair

namespace Key

/-- Keys that are not stored as `0` are stored as they are. -/
theorem storable_inj_of_ne_zero {a b : UInt64} (hne : storable a ≠ 0) :
    storable a = storable b ↔ a = b := by
  constructor
  · intro h
    have ha : ¬ IsReserved a := fun ha => hne (storable_of_reserved ha)
    have hb : ¬ IsReserved b := fun hb => hne (h.trans (storable_of_reserved hb))
    rwa [storable_of_not_reserved ha, storable_of_not_reserved hb] at h
  · intro h
    rw [h]

/-- The inverse of the salt among the 64-bit words, which the salt has because it is odd. -/
def sectionUnsalt : UInt64 := 0xF1DE83E19937733D

theorem sectionSalt_mul_unsalt : sectionSalt * sectionUnsalt = 1 := by decide

/-- Words with the same multiple of the salt are the same. -/
theorem salted_inj {word word' : UInt32}
    (h : word.toUInt64 * sectionSalt = word'.toUInt64 * sectionSalt) : word = word' := by
  have hundo (c : UInt64) : c * sectionSalt * sectionUnsalt = c := by
    rw [UInt64.mul_assoc, sectionSalt_mul_unsalt, UInt64.mul_one]
  rw [← UInt32.toUInt64_inj, ← hundo word.toUInt64, h, hundo]

theorem storable_ofSection (word : UInt32) (disjunct : UInt64) :
    storable (ofSection word disjunct) = ofSection word disjunct := storable_storable _

/-- Sections that agree in the word or in the disjunct share a key exactly if they agree in
both, unless the key is `0`. -/
theorem ofSection_eq_iff {word word' : UInt32} {disjunct disjunct' : UInt64}
    (hne : ofSection word disjunct ≠ 0) (hagree : word = word' ∨ disjunct = disjunct') :
    ofSection word disjunct = ofSection word' disjunct' ↔ word = word' ∧ disjunct = disjunct' := by
  rw [ofSection, ofSection, storable_inj_of_ne_zero hne]
  constructor
  · intro h
    rcases hagree with rfl | rfl
    · exact ⟨rfl, (UInt64.xor_left_inj _).mp h⟩
    · exact ⟨salted_inj ((UInt64.xor_right_inj _).mp h), rfl⟩
  · intro h
    obtain ⟨rfl, rfl⟩ := h
    rfl

end Key

end CorpusStats
