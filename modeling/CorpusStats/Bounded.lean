/-!
# CorpusStats.Bounded

Output with room for a limited number of rows. Rows that find no room are dropped but
still counted, so a caller can tell how many there were.
-/

namespace CorpusStats

/-- Rows kept and rows counted. -/
structure Bounded (β : Type) where
  room : Nat
  /-- The rows kept, in the order in which they came. -/
  rows : Array β
  total : Nat
  deriving Repr, DecidableEq

namespace Bounded

variable {β : Type}

/-- Empty output of a dispatch. Each work-item emits at most one row, so no more room
than work-items is ever needed. -/
def ofLimit (limit workItems : Nat) : Bounded β := ⟨min limit workItems, #[], 0⟩

def push (row : β) (b : Bounded β) : Bounded β :=
  if b.rows.size < b.room then ⟨b.room, b.rows.push row, b.total + 1⟩
  else ⟨b.room, b.rows, b.total + 1⟩

def pushAll (rows : List β) (b : Bounded β) : Bounded β := rows.foldl (fun b row => b.push row) b

/-- Whether rows were dropped. -/
def truncated (b : Bounded β) : Bool := b.rows.size < b.total

/-- Every row is counted. -/
theorem total_pushAll (rows : List β) (b : Bounded β) :
    (b.pushAll rows).total = b.total + rows.length := by
  induction rows generalizing b with
  | nil => rfl
  | cons row rest ih =>
    rw [pushAll, List.foldl_cons, ← pushAll, ih]
    unfold push
    split <;> simp <;> omega

/-- The rows kept are the first ones that find room. -/
theorem toList_rows_pushAll (rows : List β) (b : Bounded β) :
    (b.pushAll rows).rows.toList = b.rows.toList ++ rows.take (b.room - b.rows.size) := by
  induction rows generalizing b with
  | nil => simp [pushAll]
  | cons row rest ih =>
    rw [pushAll, List.foldl_cons, ← pushAll, ih]
    unfold push
    split
    · rename_i h
      obtain ⟨k, hk⟩ : ∃ k, b.room - b.rows.size = k + 1 := ⟨b.room - b.rows.size - 1, by omega⟩
      simp [hk, show b.room - (b.rows.size + 1) = k by omega]
    · rename_i h
      simp [show b.room - b.rows.size = 0 by omega]

end Bounded

end CorpusStats
