import CorpusStats.Engine.Basic
import CorpusStats.Proofs.Failing
/-!
# CorpusStats.Proofs.Checks

What checks refuse, and what stages do that write a row behind a check.

Loading a count, observing a section and assigning a class do the same thing: they change one row if
what they were given passes a check, and nothing if not (`Pool.Writes`). So such a stage fails for what
it is given only, leaves everything as it was if it fails, and keeps what the change of the row keeps.
-/

namespace CorpusStats

open Stage

variable {α ρ : Type}

/-! ### Checks -/

theorem Pool.malformed_of_check {p : Pool ρ} {slot : UInt32} {e : Error}
    (h : p.check slot = .error e) : ∃ fault, e = .malformed fault := by
  unfold Pool.check at h
  split at h <;> cases h
  exact ⟨_, rfl⟩

theorem Pool.malformed_of_checkId {p : Pool ρ} {id : UInt32} {e : Error}
    (h : p.checkId id = .error e) : ∃ fault, e = .malformed fault := by
  unfold Pool.checkId at h
  split at h <;> cases h
  exact ⟨_, rfl⟩

theorem malformed_of_checkLengths {stage : String} {first second : ℕ} {e : Error}
    (h : checkLengths stage first second = .error e) : ∃ fault, e = .malformed fault := by
  unfold checkLengths at h
  split at h <;> cases h
  exact ⟨_, rfl⟩

theorem Engine.malformed_of_checkWords {words : WordPool α} {b : Sentences} {e : Error}
    (h : checkWords words b = .error e) : ∃ fault, e = .malformed fault := by
  unfold checkWords at h
  split at h
  · split at h <;> cases h
    exact ⟨_, rfl⟩
  · cases h

theorem Tally.malformed_of_endsOf {words : WordPool α} {pairs : PairPool α} {slot : ℕ} {e : Error}
    (h : endsOf words pairs slot = .error e) : ∃ fault, e = .malformed fault := by
  unfold endsOf at h
  cases hrow : pairs.row? slot with
  | none =>
    rw [hrow] at h
    cases h
    exact ⟨_, rfl⟩
  | some row =>
    rw [hrow] at h
    cases ha : words.checkId row.wordA with
    | error e' =>
      simp only [ha, Bind.bind, Except.bind] at h
      cases h
      exact Pool.malformed_of_checkId ha
    | ok a =>
      cases hb : words.checkId row.wordB with
      | error e' =>
        simp only [ha, hb, Bind.bind, Except.bind] at h
        cases h
        exact Pool.malformed_of_checkId hb
      | ok b =>
        simp only [ha, hb, Bind.bind, Except.bind, pure, Except.pure] at h
        cases h

theorem Pool.check_cases (p : Pool ρ) (slot : UInt32) :
    (slot.toNat < p.used ∧ p.check slot = .ok slot.toNat)
      ∨ ∃ fault, p.check slot = .error (.malformed fault) := by
  unfold check
  by_cases hslot : slot.toNat < p.used
  · exact .inl ⟨hslot, if_pos hslot⟩
  · exact .inr ⟨_, if_neg hslot⟩

theorem Pool.checkId_cases (p : Pool ρ) (id : UInt32) :
    (id.toNat < p.capacity ∧ p.checkId id = .ok id.toNat)
      ∨ ∃ fault, p.checkId id = .error (.malformed fault) := by
  unfold checkId
  by_cases hid : id.toNat < p.capacity
  · exact .inl ⟨hid, if_pos hid⟩
  · exact .inr ⟨_, if_neg hid⟩

/-! ### Rows that are written behind a check -/

/-- The stage changes the row of a slot in `P` by `f`, or is refused and changes nothing. -/
def Pool.Writes (P : Pool ρ → ℕ → Prop) (f : ρ → ρ) (act : Stage (Pool ρ) Unit) : Prop :=
  ∀ p, (∃ slot, P p slot ∧ act p = .ok () (p.modify slot f))
    ∨ ∃ fault, act p = .error (.malformed fault) p

namespace Pool.Writes

variable {P : Pool ρ → ℕ → Prop} {f : ρ → ρ} {act : Stage (Pool ρ) Unit} (h : Writes P f act)
include h

theorem onlyRefuses : OnlyRefuses act := by
  intro p _
  rcases h p with ⟨slot, -, hrun⟩ | ⟨fault, hrun⟩ <;> rw [hrun]
  · trivial
  · exact ⟨fault, rfl⟩

theorem atomic : Atomic act := by
  intro p e p' herror
  rcases h p with ⟨slot, -, hrun⟩ | ⟨fault, hrun⟩ <;> rw [hrun] at herror <;> cases herror
  rfl

theorem keeps {Q : Pool ρ → Prop} (hQ : ∀ p slot, P p slot → Q p → Q (p.modify slot f)) :
    Keeps Q act := by
  intro p hp
  rcases h p with ⟨slot, hslot, hrun⟩ | ⟨fault, hrun⟩
  · rw [outcome_of_ok hrun]
    exact hQ p slot hslot hp
  · rwa [outcome_of_error hrun]

end Pool.Writes

theorem WordPool.writes_loadCount (id : UInt32) (count : α) :
    Pool.Writes (fun _ _ => True) (fun row => { row with count }) (loadCount id count) := by
  intro words
  unfold loadCount
  rcases words.checkId_cases id with ⟨-, hid⟩ | ⟨fault, hid⟩ <;> rw [hid]
  · exact .inl ⟨_, trivial, rfl⟩
  · exact .inr ⟨fault, rfl⟩

/-- A class is a word of the arena. -/
theorem WordPool.writes_assign (word cls : UInt32) :
    Pool.Writes (fun words _ => cls.toNat < words.capacity) (fun row => { row with classId := cls })
      (assign (α := α) word cls) := by
  intro words
  unfold assign
  rcases words.checkId_cases word with ⟨-, hword⟩ | ⟨fault, hword⟩ <;> rw [hword]
  · rcases words.checkId_cases cls with ⟨hlt, hcls⟩ | ⟨fault, hcls⟩ <;> rw [hcls]
    · exact .inl ⟨_, hlt, rfl⟩
    · exact .inr ⟨fault, rfl⟩
  · exact .inr ⟨fault, rfl⟩

theorem PairPool.writes_loadCount (slot : UInt32) (count : α) :
    Pool.Writes (fun pairs n => n < pairs.used) (fun row => { row with count }.markDirty)
      (loadCount slot count) := by
  intro pairs
  unfold loadCount
  rcases pairs.check_cases slot with ⟨hlt, hslot⟩ | ⟨fault, hslot⟩ <;> rw [hslot]
  · exact .inl ⟨_, hlt, rfl⟩
  · exact .inr ⟨fault, rfl⟩

theorem SectionPool.writes_loadCount (slot : UInt32) (count : α) :
    Pool.Writes (fun sections n => n < sections.used) (fun row => { row with count })
      (loadCount slot count) := by
  intro sections
  unfold loadCount
  rcases sections.check_cases slot with ⟨hlt, hslot⟩ | ⟨fault, hslot⟩ <;> rw [hslot]
  · exact .inl ⟨_, hlt, rfl⟩
  · exact .inr ⟨fault, rfl⟩

theorem SectionPool.writes_observeSlot [Weight α] (slot : UInt32) :
    Pool.Writes (fun sections n => n < sections.used) (fun row => { row with count := row.count + 1 })
      (observeSlot (α := α) slot) := by
  intro sections
  unfold observeSlot
  rcases sections.check_cases slot with ⟨hlt, hslot⟩ | ⟨fault, hslot⟩ <;> rw [hslot]
  · exact .inl ⟨_, hlt, rfl⟩
  · exact .inr ⟨fault, rfl⟩

end CorpusStats
