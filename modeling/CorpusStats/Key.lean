/-!
# CorpusStats.Key

Every record of a store is found through a 64-bit **content key**.

* Two keys are **reserved**: hosts that see an index as columns of words read them as
  "no key yet" and "key erased". A content key that lands on one of them becomes `0`
  (`Key.storable`), so distinct contents may share key `0`, and only that key.
* A **word** is found through a hash of the bytes of its name: each byte is mixed into
  the state by an exclusive or, an odd multiplier and a shift, all of which can be
  undone, so names that differ in one byte have different states (`Key.ofBytes`).
* A **pair of words** has no direction. `WordPair` keeps the smaller word first and
  packs both words into the key, so its key can be read back.
-/

namespace CorpusStats

namespace Key

/-- The key of a slot that never held one. -/
def vacant : UInt64 := 0xFFFFFFFFFFFFFFFF

/-- The key of a slot whose key was erased. -/
def erased : UInt64 := 0xFFFFFFFFFFFFFFFE

/-- Whether a key is kept for slots without a key. -/
def IsReserved (key : UInt64) : Prop := key = vacant ∨ key = erased

instance (key : UInt64) : Decidable (IsReserved key) :=
  inferInstanceAs (Decidable (_ ∨ _))

/-- Move a reserved key to `0`, and no other key. -/
def storable (key : UInt64) : UInt64 := if IsReserved key then 0 else key

theorem storable_of_not_reserved {key : UInt64} (h : ¬ IsReserved key) : storable key = key :=
  if_neg h

theorem storable_of_reserved {key : UInt64} (h : IsReserved key) : storable key = 0 :=
  if_pos h

/-- No stored key is reserved. -/
theorem not_isReserved_storable (key : UInt64) : ¬ IsReserved (storable key) := by
  by_cases h : IsReserved key
  · rw [storable_of_reserved h]; decide
  · rwa [storable_of_not_reserved h]

@[simp] theorem storable_storable (key : UInt64) : storable (storable key) = storable key :=
  storable_of_not_reserved (not_isReserved_storable key)

/-! ### Words -/

/-- The state of the name hash before the first byte. -/
def nameSeed : UInt64 := 0x12345678DEADBEEF

/-- The multiplier of the name hash. It is odd, so multiplying by it loses nothing. -/
def nameFactor : UInt64 := 0xBF58476D1CE4E5B9

/-- Mix one byte into the state of the name hash. -/
def mixByte (state : UInt64) (byte : UInt8) : UInt64 :=
  let product := (state ^^^ byte.toUInt64) * nameFactor
  product ^^^ (product >>> 31)

/-- Hash a string of bytes, reserved keys included. -/
def ofBytes (bytes : List UInt8) : UInt64 := bytes.foldl mixByte nameSeed

/-- The key of the word with this name: the hash of its UTF-8 bytes. -/
def ofName (name : String) : UInt64 := storable (ofBytes name.toUTF8.data.toList)

theorem ofBytes_append (p s : List UInt8) : ofBytes (p ++ s) = s.foldl mixByte (ofBytes p) := by
  simp [ofBytes]

end Key

/-! ### Pairs of words -/

/-- Two words in no particular order: the smaller number is kept first. -/
structure WordPair where
  first : UInt32
  second : UInt32
  first_le_second : first ≤ second
  deriving Repr, DecidableEq

namespace WordPair

def of (a b : UInt32) : WordPair :=
  if h : a ≤ b then ⟨a, b, h⟩ else ⟨b, a, UInt32.le_of_lt (UInt32.not_le.mp h)⟩

/-- The key of a pair: the smaller word in the high half, the larger in the low half. -/
def key (p : WordPair) : UInt64 :=
  Key.storable (p.first.toUInt64 <<< 32 ||| p.second.toUInt64)

/-- The order in which two words are named does not matter. -/
theorem of_comm (a b : UInt32) : of a b = of b a := by
  unfold of
  by_cases h : a ≤ b <;> by_cases h' : b ≤ a
  · obtain rfl : a = b := UInt32.le_antisymm h h'
    rfl
  · rw [dif_pos h, dif_neg h']
  · rw [dif_neg h, dif_pos h']
  · exact absurd (UInt32.le_of_lt (UInt32.not_le.mp h)) h'

/-- Words already in order are kept as they are. -/
theorem of_of_le {a b : UInt32} (h : a ≤ b) : of a b = ⟨a, b, h⟩ := dif_pos h

@[simp] theorem of_first_second (p : WordPair) : of p.first p.second = p :=
  of_of_le p.first_le_second

end WordPair

end CorpusStats
