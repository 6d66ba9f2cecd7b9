import CorpusStats.Proofs.Loops
import CorpusStats.Proofs.Room
/-!
# CorpusStats.Proofs.Tally.Asking

Asking for pairs first and observing them afterwards.

* What asking for a key does depends on the index and the allocator only. So changing the row of a
  slot in use may be done before or after it (`Pool.HasRoom.findOrCreate_modify`), and observing
  such a slot too (`Tally.commutes_askPair`).
* A loop that observes each pair as soon as it has its slot therefore does what two loops do, one
  that asks for all slots and one that observes them (`Tally.forM_observePair_eq_ok_iff`). The index
  may be out of date: a slot that is answered is in use, and that is all that observing it needs.

The two ways agree when they come to their end. When they fail they may stop at different places.
-/

namespace CorpusStats

open Stage

variable {σ ι α β ρ : Type}

/-! ### Changes that may be made before or after a stage -/

/-- Where `P` holds, making a change first does not change what the stage answers, and leaves what
making it afterwards leaves. -/
def Stage.Commutes (P : σ → Prop) (change : σ → σ) (act : Stage σ α) : Prop :=
  ∀ s, P s → outcome act (change s) = ((outcome act s).1, change (outcome act s).2)

theorem Stage.Commutes.mapM {P : σ → Prop} {change : σ → σ} {items : List ι} {step : ι → Stage σ α}
    (hkeeps : ∀ i ∈ items, Keeps P (step i)) (h : ∀ i ∈ items, Commutes P change (step i)) :
    Commutes P change (items.mapM step) := by
  induction items with
  | nil => exact fun _ _ => rfl
  | cons i items ih =>
    intro s hs
    have hstate := hkeeps i List.mem_cons_self s hs
    have hrest := ih (fun j hj => hkeeps j (List.mem_cons_of_mem _ hj))
      (fun j hj => h j (List.mem_cons_of_mem _ hj)) (outcome (step i) s).2 hstate
    rw [List.mapM_cons, outcome_bind, outcome_bind, h i List.mem_cons_self s hs]
    rcases hstep : outcome (step i) s with ⟨e | a, s'⟩
    · rfl
    · rw [hstep] at hrest
      dsimp only at hrest ⊢
      rw [← map_eq_pure_bind, outcome_map, outcome_map, hrest]

namespace Pool

theorem modify_rows_comm (rows : Array ρ) {i j : ℕ} (hij : i ≠ j) (f g : ρ → ρ) :
    (rows.modify i f).modify j g = (rows.modify j g).modify i f := by
  refine Array.ext_getElem? fun k => ?_
  simp only [Array.getElem?_modify]
  split <;> split <;> simp_all

variable {p : Pool ρ}

/-- Changing a row in use may be done before or after asking for a key. -/
theorem HasRoom.findOrCreate_modify (h : p.HasRoom) {slot : ℕ} (hslot : slot < p.used) (f : ρ → ρ)
    (key : UInt64) (fill : ρ → ρ) :
    outcome (findOrCreate key fill) (p.modify slot f)
      = ((outcome (findOrCreate key fill) p).1,
        (outcome (findOrCreate key fill) p).2.modify slot f) := by
  cases hraw : p.index.raw? (Key.storable key) with
  | some found =>
    rcases h.leads _ found hraw with hlt | ⟨rfl, -⟩
    · have hfound := hlt.trans_le (p.used_le_capacity.trans h.capacity_le)
      rw [outcome_of_ok (findOrCreate_of_raw? h.sound hraw hfound fill),
        outcome_of_ok (findOrCreate_of_raw? (p := p.modify slot f) h.sound hraw hfound fill)]
    · have hmark : ∀ create, Index.findOrCreate key create p.index
          = .error p.index.overflow p.index := fun create => by
        rw [h.sound.findOrCreate_of_some hraw, if_neg (by decide), if_pos rfl]
      rw [outcome_of_error (findOrCreate_of_error hmark),
        outcome_of_error (findOrCreate_of_error (p := p.modify slot f) hmark)]
  | none =>
    cases htake : p.allocator.take? with
    | some taken =>
      obtain ⟨new, allocator⟩ := taken
      obtain ⟨rfl, hused, hcapacity⟩ := Allocator.take?_eq_some htake
      have hroom : p.used < p.capacity := by
        have := allocator.used_le
        show p.allocator.used < p.allocator.capacity
        omega
      rcases h.sound.findOrCreate_of_none hraw (.ok p.used.toUInt32) with
        ⟨hzero, -⟩ | ⟨index, -, -, hok⟩
      · have := h.vacant hroom
        omega
      · obtain ⟨hrows, hrun⟩ := findOrCreate_of_take fill htake hok
        obtain ⟨hrows', hrun'⟩ := findOrCreate_of_take (p := p.modify slot f) fill htake hok
        rw [outcome_of_ok hrun, outcome_of_ok hrun']
        simp only [modify, modify_rows_comm p.rows (show slot ≠ p.allocator.used from hslot.ne) f fill]
    | none =>
      rcases h.sound.findOrCreate_of_none hraw (.error (.overflow p.name p.capacity)) with
        ⟨-, herror⟩ | ⟨index, -, -, herror⟩
      all_goals
        rw [outcome_of_error (findOrCreate_of_full htake herror),
          outcome_of_error (findOrCreate_of_full (p := p.modify slot f) htake herror)]
        rfl

end Pool

namespace Tally

variable [Weight α] {slot : ℕ} {t t' : Tally α}

/-- The slot of a pair, which is created if it is new. -/
def askPair (p : WordPair) : Stage (Tally α) UInt32 :=
  Prod.fst <$> onPairs (Pool.findOrCreate p.key (PairRow.fill p))

/-- A tally after the pair in a slot was observed, whose ends are these words. -/
def counted (slot : ℕ) (ends : ℕ × ℕ) (t : Tally α) : Tally α :=
  ⟨addToEnds 1 ends t.words, t.pairs.modify slot countOnce, t.total + 1⟩

theorem observe_eq_ok_iff_counted : observe slot t = .ok () t' ↔
    ∃ ends, endsOf t.words t.pairs slot = .ok ends ∧ t' = t.counted slot ends :=
  observe_eq_ok_iff

/-- A slot in use is observed without a further check. -/
theorem observeSlot_of_lt {slot : UInt32} (hslot : slot.toNat < t.pairs.used) :
    observeSlot slot t = observe slot.toNat t := by
  simp only [observeSlot, Pool.check, if_pos hslot]

/-! ### Asking -/

/-- What asking for pairs leaves of a tally, seen from a slot in use. -/
structure Asked (words : WordPool α) (slot : ℕ) (row : PairRow α) (t : Tally α) : Prop where
  words_eq : t.words = words
  intact : t.pairs.Intact
  row_eq : t.pairs.liveRows[slot]? = some row

theorem Asked.lt_used {words : WordPool α} {row : PairRow α} (h : Asked words slot row t) :
    slot < t.pairs.used := Pool.lt_used_of_liveRows h.row_eq

/-- The ends of a pair in use do not change when other pairs are asked for. -/
theorem Asked.endsOf_eq_ok_iff {words : WordPool α} {row : PairRow α} (h : Asked words slot row t)
    {ends : ℕ × ℕ} : endsOf t.words t.pairs slot = .ok ends ↔ row.wordA.toNat < words.capacity
      ∧ row.wordB.toNat < words.capacity ∧ ends = (row.wordA.toNat, row.wordB.toNat) := by
  rw [Tally.endsOf_eq_ok_iff, Pool.row?_of_liveRows h.row_eq, h.words_eq]
  simp

omit [Weight α] in
theorem outcome_askPair (p : WordPair) (t : Tally α) :
    outcome (askPair p) t =
      ((outcome (Pool.findOrCreate p.key (PairRow.fill p)) t.pairs).1.map Prod.fst,
        { t with pairs := (outcome (Pool.findOrCreate p.key (PairRow.fill p)) t.pairs).2 }) := by
  rw [askPair, outcome_map, outcome_onPairs]

theorem keeps_askPair (words : WordPool α) (slot : ℕ) (row : PairRow α) (p : WordPair) :
    Keeps (Asked words slot row) (askPair p) := by
  intro t h
  have hrows : ∀ rows : List (PairRow α), rows = t.pairs.liveRows
      ∨ rows = t.pairs.liveRows ++ [PairRow.fill p default] → rows[slot]? = some row := by
    rintro rows (rfl | rfl)
    · exact h.row_eq
    · rw [List.getElem?_append_left (List.getElem?_eq_some_iff.mp h.row_eq).1, h.row_eq]
  rw [outcome_askPair]
  rcases h.intact.findOrCreate_cases p.key (PairRow.fill p) with
    ⟨found, created, pairs, hrun, hintact, -, hlive⟩ | ⟨e, pairs, hrun, hintact, hlive⟩
  · rw [outcome_of_ok hrun]
    exact ⟨h.words_eq, hintact, hrows _ hlive⟩
  · rw [outcome_of_error hrun]
    exact ⟨h.words_eq, hintact, hrows _ (.inl hlive)⟩

/-- Observing a slot in use may be done before or after asking for a pair. -/
theorem commutes_askPair (words : WordPool α) (slot : ℕ) (row : PairRow α) (ends : ℕ × ℕ)
    (p : WordPair) : Commutes (Asked words slot row) (counted slot ends) (askPair p) := by
  intro t h
  rw [outcome_askPair, outcome_askPair, counted,
    h.intact.findOrCreate_modify h.lt_used countOnce p.key]
  rfl

theorem observePair_eq_ok_iff {p : WordPair} : observePair p t = .ok () t' ↔
    ∃ slot t₁, askPair p t = .ok slot t₁ ∧ observe slot.toNat t₁ = .ok () t' := by
  simp only [observePair, askPair, bind_eq_ok_iff, map_eq_ok_iff]
  constructor
  · intro h
    obtain ⟨⟨slot, created⟩, t₁, hask, hobserve⟩ := h
    exact ⟨slot, t₁, ⟨(slot, created), hask, rfl⟩, hobserve⟩
  · intro h
    obtain ⟨slot, t₁, ⟨⟨_, created⟩, hask, rfl⟩, hobserve⟩ := h
    exact ⟨_, t₁, hask, hobserve⟩

/-- The slot that is answered is in use. -/
theorem exists_asked {p : WordPair} {slot : UInt32} (h : t.pairs.Intact)
    (hask : askPair p t = .ok slot t') : ∃ row, Asked t'.words slot.toNat row t' := by
  obtain ⟨answer, hpairs, rfl⟩ := map_eq_ok_iff.mp hask
  obtain ⟨pairs, hrun, rfl⟩ := onPairs_eq_ok_iff.mp hpairs
  obtain ⟨hintact, hlt⟩ := h.of_findOrCreate_eq_ok hrun
  obtain ⟨row, -, hrow⟩ := Pool.exists_liveRow hlt
  exact ⟨row, rfl, hintact, hrow⟩

/-! ### Loops -/

/-- Asking for the slots of pairs after an observation is asking for them before it. -/
theorem mapM_askPair_counted_eq_ok_iff {words : WordPool α} {row : PairRow α}
    (h : Asked words slot row t) {ends : ℕ × ℕ} {ps : List WordPair} {slots : List UInt32} :
    ps.mapM askPair (t.counted slot ends) = .ok slots t' ↔
      ∃ t₁, ps.mapM askPair t = .ok slots t₁ ∧ t' = t₁.counted slot ends :=
  eq_ok_iff_of_outcome (f := counted slot ends)
    (Commutes.mapM (fun p _ => keeps_askPair words slot row p)
      (fun p _ => commutes_askPair words slot row ends p) t h)

/-- **Asking first.** A loop that observes each pair when it has its slot comes to its end exactly
if asking for all slots and then observing them does, and leaves the same. -/
theorem forM_observePair_eq_ok_iff {ps : List WordPair} (h : t.pairs.Intact) :
    ps.forM observePair t = .ok () t' ↔ ∃ slots t₁ units, ps.mapM askPair t = .ok slots t₁
      ∧ slots.mapM observeSlot t₁ = .ok units t' := by
  induction ps generalizing t with
  | nil =>
    constructor
    · rintro ⟨⟩
      exact ⟨[], t', [], rfl, rfl⟩
    · rintro ⟨_, _, _, ⟨⟩, ⟨⟩⟩
      rfl
  | cons p ps ih =>
    constructor
    · intro hrun
      obtain ⟨⟨⟩, t₂, hfirst, hrest⟩ := bind_eq_ok_iff.mp hrun
      obtain ⟨slot, t₁, hask, hobserve⟩ := observePair_eq_ok_iff.mp hfirst
      obtain ⟨row, hasked⟩ := exists_asked h hask
      obtain ⟨ends, hends, rfl⟩ := observe_eq_ok_iff_counted.mp hobserve
      obtain ⟨slots, t₃, units, hslots, hobserves⟩ :=
        (ih (hasked.intact.modify hasked.lt_used countOnce)).mp hrest
      -- the first observation is moved behind asking for the other slots
      obtain ⟨t₄, hasks, rfl⟩ := (mapM_askPair_counted_eq_ok_iff hasked).mp hslots
      have hasked' := (Keeps.mapM fun p _ => keeps_askPair _ _ _ p).ok hasked hasks
      refine ⟨slot :: slots, t₄, () :: units, by rw [mapM_cons_of_ok hask, hasks], ?_⟩
      have hfirst' : observeSlot slot t₄ = .ok () (t₄.counted slot.toNat ends) := by
        rw [observeSlot_of_lt hasked'.lt_used, observe_eq_ok_iff_counted]
        exact ⟨ends, hasked'.endsOf_eq_ok_iff.mpr (hasked.endsOf_eq_ok_iff.mp hends), rfl⟩
      rw [mapM_cons_of_ok hfirst', hobserves]
    · intro hrun
      obtain ⟨slots, t₄, units, hasks, hobserves⟩ := hrun
      rw [List.mapM_cons] at hasks
      obtain ⟨slot, t₁, hask, hasks⟩ := bind_eq_ok_iff.mp hasks
      obtain ⟨slots, _, hasks, ⟨⟩⟩ := bind_eq_ok_iff.mp hasks
      obtain ⟨row, hasked⟩ := exists_asked h hask
      have hasked' := (Keeps.mapM fun p _ => keeps_askPair _ _ _ p).ok hasked hasks
      rw [List.mapM_cons] at hobserves
      obtain ⟨⟨⟩, t₃, hfirst, hobserves⟩ := bind_eq_ok_iff.mp hobserves
      obtain ⟨units, _, hobserves, ⟨⟩⟩ := bind_eq_ok_iff.mp hobserves
      rw [observeSlot_of_lt hasked'.lt_used] at hfirst
      obtain ⟨ends, hends, rfl⟩ := observe_eq_ok_iff_counted.mp hfirst
      -- the first observation is moved in front of asking for the other slots
      have hslots : ps.mapM askPair (t₁.counted slot.toNat ends)
          = .ok slots (t₄.counted slot.toNat ends) :=
        (mapM_askPair_counted_eq_ok_iff hasked).mpr ⟨t₄, hasks, rfl⟩
      have hrest := (ih (hasked.intact.modify hasked.lt_used countOnce)).mpr
        ⟨slots, _, units, hslots, hobserves⟩
      have hobserve : observe slot.toNat t₁ = .ok () (t₁.counted slot.toNat ends) :=
        observe_eq_ok_iff_counted.mpr
          ⟨ends, hasked.endsOf_eq_ok_iff.mpr (hasked'.endsOf_eq_ok_iff.mp hends), rfl⟩
      exact bind_eq_ok_iff.mpr
        ⟨(), _, observePair_eq_ok_iff.mpr ⟨slot, t₁, hask, hobserve⟩, hrest⟩

end Tally

end CorpusStats
