import CorpusStats.Disjunct
import Mathlib
/-!
# CorpusStats.Proofs.Disjunct

The fixed order in which connectors are hashed.

Reading a connector as its lowest bit and the number above it, `Connector.le` is the
lexicographic order (`Connector.le_iff`). That is a linear order, so a list of connectors has one
arrangement (`Disjunct.arrange_eq_of_perm`), and the hash of a disjunct is that of its connectors
in order, whatever order they were found in.
-/

namespace CorpusStats

namespace Connector

/-- Neighbour and side can be read back. -/
theorem toNat_of (word : UInt32) (side : Side) :
    (of word side).toNat = 2 * word.toNat + side.bit.toNat := by
  have hbit : side.bit.toNat < 2 ^ 1 := by cases side <;> decide
  have hshift : (word.toUInt64 <<< 1).toNat = word.toNat <<< 1 := by
    rw [UInt64.toNat_shiftLeft, UInt32.toNat_toUInt64]
    refine Nat.mod_eq_of_lt ?_
    show word.toNat <<< 1 < 2 ^ 64
    rw [Nat.shiftLeft_eq]
    have hword := word.toNat_lt
    omega
  rw [of, UInt64.toNat_or, hshift, ← Nat.shiftLeft_add_eq_or_of_lt hbit, Nat.shiftLeft_eq]
  omega

theorem toNat_and_one (c : Connector) : (c &&& 1).toNat = c.toNat % 2 := by
  rw [UInt64.toNat_and]
  exact Nat.and_one_is_mod _

theorem toNat_shiftRight_one (c : Connector) : (c >>> 1).toNat = c.toNat / 2 := by
  rw [UInt64.toNat_shiftRight]
  exact Nat.shiftRight_one _

theorem le_iff {c d : Connector} : le c d ↔
    c.toNat % 2 < d.toNat % 2 ∨ c.toNat % 2 = d.toNat % 2 ∧ c.toNat / 2 ≤ d.toNat / 2 := by
  rw [le, Bool.or_eq_true, Bool.and_eq_true, decide_eq_true_iff, decide_eq_true_iff, beq_iff_eq,
    UInt64.lt_iff_toNat_lt, UInt64.le_iff_toNat_le, ← UInt64.toNat_inj, toNat_and_one,
    toNat_and_one, toNat_shiftRight_one, toNat_shiftRight_one]

theorem le_trans {c d e : Connector} (hcd : le c d) (hde : le d e) : le c e := by
  rw [le_iff] at hcd hde ⊢
  omega

theorem le_total (c d : Connector) : (le c d || le d c) = true := by
  rw [Bool.or_eq_true, le_iff, le_iff]
  omega

theorem le_antisymm {c d : Connector} (hcd : le c d) (hdc : le d c) : c = d := by
  rw [le_iff] at hcd hdc
  rw [← UInt64.toNat_inj]
  omega

/-- Left neighbours come before right ones, and then smaller words before larger. -/
theorem le_of_iff {word word' : UInt32} {side side' : Side} :
    le (of word side) (of word' side') ↔ side.bit < side'.bit ∨ side = side' ∧ word ≤ word' := by
  rw [le_iff, toNat_of, toNat_of, UInt64.lt_iff_toNat_lt, UInt32.le_iff_toNat_le]
  have hleft : Side.left.bit.toNat = 0 := rfl
  have hright : Side.right.bit.toNat = 1 := rfl
  cases side <;> cases side' <;> simp only [hleft, hright, true_and, reduceCtorEq, false_and,
    or_false]
  <;> omega

end Connector

namespace Disjunct

variable {connectors connectors' : List Connector}

theorem pairwise_arrange (connectors : List Connector) :
    (arrange connectors).Pairwise fun c d => Connector.le c d := by
  unfold arrange
  exact @List.pairwise_mergeSort Connector Connector.le (fun _ _ _ => Connector.le_trans)
    Connector.le_total connectors

theorem arrange_eq_of_perm (h : connectors.Perm connectors') :
    arrange connectors = arrange connectors' :=
  List.Perm.eq_of_pairwise (fun _ _ _ _ => Connector.le_antisymm) (pairwise_arrange _)
    (pairwise_arrange _) ((arrange_perm _).trans (h.trans (arrange_perm _).symm))

/-- Connectors that are in order stay in it. -/
theorem arrange_of_sorted (h : connectors.Pairwise fun c d => Connector.le c d) :
    arrange connectors = connectors := List.mergeSort_of_pairwise h

/-- A disjunct is named by the hash of its connectors in order. -/
theorem hash_eq (h : connectors.Perm connectors')
    (hsorted : connectors'.Pairwise fun c d => Connector.le c d) :
    hash connectors = Key.storable (fold connectors') := by
  rw [hash, arrange_eq_of_perm h, arrange_of_sorted hsorted]

end Disjunct

end CorpusStats
