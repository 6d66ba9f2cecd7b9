import CorpusStats.Proofs.Engine.Parts
import CorpusStats.Proofs.Engine.Start
import CorpusStats.Proofs.Exact
import CorpusStats.Proofs.Serving
import CorpusStats.Proofs.Tally.Words
/-!
# CorpusStats.Proofs.Engine.Words

The **ids of words** over whole runs: the id of a word is the rank of its key among the keys
that were interned since the last reset, whatever else was called in between and whatever
failed (`Engine.numbersWords_run`).

`words_first_come` puts this beside the same statement about a pool on its own.
-/

namespace CorpusStats

open Stage Key

variable {α : Type}

/-- The keys of words asked for since the last reset, after one more call. -/
def Call.wordsAsked (asked : List UInt64) : Call α → List UInt64
  | .internWords keys => asked ++ keys
  | .reset => []
  | _ => asked

/-- The keys of words that a run asks for after its last reset. -/
def wordsAsked (calls : List (Call α)) : List UInt64 := calls.foldl Call.wordsAsked []

variable [Weight α]

namespace Engine

/-- The words of an engine are numbered by the rank of their keys among those asked for. -/
structure NumbersWords (e : Engine α) (asked : List UInt64) : Prop where
  used_eq : e.store.tally.words.used
    = (firstCome e.store.tally.words.capacity asked).length
  /-- A look-up finds the rank of a key, or nothing. -/
  lookup_iff : ∀ key slot, e.store.tally.words.lookup key = some slot ↔
    (firstCome e.store.tally.words.capacity asked)[slot.toNat]? = some (storable key)
  /-- Interning keys answers their ranks, if all of them have one. -/
  answer_of_forall : ∀ keys, (∀ key ∈ keys,
      storable key ∈ firstCome e.store.tally.words.capacity (asked ++ keys)) →
    ∃ slots e', perform (.internWords keys) e = .ok (.slots slots) e'
      ∧ List.Forall₂ (fun key (slot : UInt32) =>
          (firstCome e.store.tally.words.capacity (asked ++ keys))[slot.toNat]?
            = some (storable key))
        keys slots
  /-- Interning keys fails, if one of them is one too many. -/
  answer_of_exists : ∀ keys, (∃ key ∈ keys,
      storable key ∉ firstCome e.store.tally.words.capacity (asked ++ keys)) →
    ∃ name capacity e', perform (.internWords keys) e = .error (.overflow name capacity) e'

/-! ### What calls do -/

/-- Calls that write the counts of words at most. -/
theorem keeps_words {P : WordPool α → Prop} (hP : WordPool.IgnoresCounts P) {call : Call α}
    (hcall : call.OnlyCountsWords) :
    Keeps (fun e : Engine α => P e.store.tally.words) (perform call) := by
  cases call with
  | internWords | assignClasses | reset => cases hcall
  | pairSlots as bs =>
    refine (keeps_onTally (P := fun t => P t.words) ?_).map
    refine .bind (.lift _) fun _ => .dispatch (P := fun t : Tally α => P t.words) fun pair _ => ?_
    exact (Tally.keeps_words_onPairs _).bind fun _ => .pure _
  | countPairs slots =>
    refine (keeps_onTally (P := fun t => P t.words) ?_).map
    exact .bind (.dispatch fun slot _ => Tally.keeps_words_observeSlot hP slot) fun _ => .pure _
  | countSentences batch window =>
    refine Keeps.map (.bind .get fun e => .bind (.lift _) fun _ => .bind .get fun e' => ?_)
    refine .bind (keeps_onTally (P := fun t => P t.words) ?_) fun _ => .bind .get fun _ => .pure _
    exact Tally.keeps_words_countSentences hP batch window _
  | score mode =>
    refine Keeps.map (.bind .get fun e => keeps_onTally (P := fun t => P t.words) ?_)
    exact .modifyGet fun s hs => Tally.keeps_words_score mode _ hs
  | scoreStats threshold =>
    exact (keeps_onTally (P := fun t => P t.words) (.modifyGet fun _ hs => hs)).map
  | filterPairs threshold limit =>
    exact (keeps_onTally (P := fun t => P t.words) (.modifyGet fun _ hs => hs)).map
  | foldPairs =>
    refine (keeps_onTally (P := fun t => P t.words) ?_).map
    exact .modifyGet fun s hs => Tally.keeps_words_foldPairs hs
  | reindexPairs =>
    exact (keeps_onTally (P := fun t => P t.words) Tally.keeps_words_reindexPairs).map
  | fold =>
    refine (keeps_onStore (P := fun s => P s.tally.words) ?_).map
    refine .bind (Store.keeps_tally_onTally (P := fun t => P t.words) ?_) fun _ => ?_
    · exact .modifyGet fun s hs => Tally.keeps_words_foldPairs hs
    · refine .bind (Store.keeps_tally_onTally (P := fun t => P t.words) ?_) fun _ => ?_
      · exact Tally.keeps_words_reindexPairs
      · exact .bind (fun _ hs => hs) fun _ => .pure _
  | rebuildTotals =>
    exact (keeps_onTally (P := fun t => P t.words) (Tally.keeps_words_rebuildTotals hP)).map
  | loadPairs slots counts =>
    refine Keeps.map (.bind (.lift _) fun _ => keeps_onTallyState (P := fun t => P t.words) ?_)
    exact .forM fun _ _ => Tally.keeps_words_onPairs _
  | loadWords ids counts =>
    refine Keeps.map (.bind (.lift _) fun _ => keeps_onTallyState (P := fun t => P t.words) ?_)
    exact .forM fun _ _ => Tally.keeps_words_loadCount hP _ _
  | setTotal total =>
    refine (keeps_onTallyState (P := fun t => P t.words) fun t ht => ?_).map
    exact ht
  | _ => exact keeps_tally (P := fun t => P t.words) trivial

/-- Assigning classes keeps of the words what writing one class keeps. -/
theorem keeps_assignClasses {P : WordPool α → Prop} {classes : ClassMap}
    (h : ∀ entry ∈ classes.entries,
      Keeps (fun t : Tally α => P t.words) (Tally.onWords (WordPool.assign entry.1 entry.2))) :
    Keeps (fun e : Engine α => P e.store.tally.words) (perform (.assignClasses classes)) := by
  refine (keeps_onTally (P := fun t => P t.words) ?_).map
  exact .bind (.dispatch fun entry hentry => h entry hentry) fun _ => .pure _

/-- An engine whose words are `n` slots, numbered after requests for `asked`. -/
def WordsNumbered (n : ℕ) (asked : List UInt64) (e : Engine α) : Prop :=
  e.store.tally.words.capacity = n ∧ e.store.tally.words.Numbers asked

/-- Interning keys answers their ranks, or fails because one of them has none; either way they
count as asked for. -/
theorem perform_internWords_cases {e : Engine α} {asked : List UInt64}
    (h : e.store.tally.words.Numbers asked) (keys : List UInt64) :
    ∃ e', e'.WordsNumbered e.store.tally.words.capacity (asked ++ keys)
      ∧ ((∃ slots, perform (.internWords keys) e = .ok (.slots slots) e'
          ∧ List.Forall₂ (fun key (slot : UInt32) =>
              (firstCome e.store.tally.words.capacity (asked ++ keys))[slot.toNat]?
                = some (storable key))
            keys slots)
        ∨ ∃ error, perform (.internWords keys) e = .error error e' ∧ error.isOverflow = true
          ∧ ∃ key ∈ keys,
            storable key ∉ firstCome e.store.tally.words.capacity (asked ++ keys)) := by
  obtain ⟨s, hcapacity, hnumbers, hanswer⟩ :=
    Tally.internWords_cases (s := ⟨e.store.tally, e.store.log⟩) h keys
  refine ⟨{ e with store := { e.store with tally := s.state, log := s.log } },
    ⟨hcapacity, hnumbers⟩, ?_⟩
  rcases hanswer with ⟨slots, hrun, hall⟩ | ⟨error, hrun, herror, hkey⟩
  · refine .inl ⟨slots, map_eq_ok_iff.mpr ⟨slots, ?_, rfl⟩, hall⟩
    exact onTally_eq_ok_iff.mpr ⟨s, hrun, rfl⟩
  · refine .inr ⟨error, ?_, herror, hkey⟩
    rw [perform, map_eq_pure_bind]
    simp only [Bind.bind, EStateM.bind, internWords, onStore, Store.onTally, hrun]

/-- One call leaves the words numbered after what it asked for. -/
theorem wordsNumbered_after {n : ℕ} {asked : List UInt64} {e : Engine α}
    (h : e.WordsNumbered n asked) (call : Call α) :
    (e.after call).WordsNumbered n (call.wordsAsked asked) := by
  rw [after_eq]
  have hkept (hcall : call.OnlyCountsWords) :
      (outcome (perform call) e).2.WordsNumbered n asked :=
    keeps_words (Pool.ignoresRows_numbers n asked).ignoresCounts hcall e h
  cases call with
  | internWords keys =>
    obtain ⟨rfl, hnumbers⟩ := h
    obtain ⟨e', he', ⟨slots, hrun, -⟩ | ⟨error, hrun, -⟩⟩ := perform_internWords_cases hnumbers keys
    · rwa [outcome_of_ok hrun]
    · rwa [outcome_of_error hrun]
  | assignClasses classes =>
    refine keeps_assignClasses (P := fun words => words.capacity = n ∧ words.Numbers asked)
      (fun entry _ => ?_) e h
    exact Tally.keeps_words_assign (Pool.ignoresRows_numbers n asked) entry.1 entry.2
  | reset => exact ⟨h.1, h.2.reset⟩
  | _ => exact hkept trivial

theorem wordsNumbered_run {n : ℕ} {asked : List UInt64} {e : Engine α}
    (h : e.WordsNumbered n asked) (calls : List (Call α)) :
    (run calls e).WordsNumbered n (calls.foldl Call.wordsAsked asked) := by
  induction calls generalizing e asked with
  | nil => exact h
  | cons call calls ih => exact ih (wordsNumbered_after h call)

/-- A new engine has a pool of words that numbers nothing yet. -/
theorem wordsNumbered_of_ofConfig {config : Config} {e : Engine α} (he : ofConfig config = .ok e) :
    e.WordsNumbered e.store.tally.words.capacity [] := by
  have hnew := new_of_ofConfig he
  refine ⟨rfl, Pool.numbers_of_ofCapacity ?_ (pools_of_ofConfig he).1⟩
  rw [← hnew.capacity_words]
  exact hnew.capacities_le.1

omit [Weight α] in
/-- What is asked for without a reset comes behind what was asked for before. -/
theorem foldl_wordsAsked {more : List (Call α)} (hmore : ∀ call ∈ more, call ≠ .reset)
    (asked : List UInt64) : ∃ keys, more.foldl Call.wordsAsked asked = asked ++ keys := by
  induction more generalizing asked with
  | nil => exact ⟨[], (List.append_nil _).symm⟩
  | cons call more ih =>
    have hrest := ih fun call' hcall' => hmore call' (List.mem_cons_of_mem _ hcall')
    cases call with
    | internWords keys =>
      obtain ⟨keys', hkeys'⟩ := hrest (asked ++ keys)
      exact ⟨keys ++ keys', by rw [← List.append_assoc]; exact hkeys'⟩
    | reset => exact absurd rfl (hmore _ List.mem_cons_self)
    | _ => exact hrest asked

theorem WordsNumbered.numbersWords {n : ℕ} {asked : List UInt64} {e : Engine α}
    (h : e.WordsNumbered n asked) : e.NumbersWords asked := by
  obtain ⟨-, hnumbers⟩ := h
  refine ⟨hnumbers.used_eq, fun key slot => hnumbers.lookup_eq_some_iff, fun keys hkeys => ?_,
    fun keys hkeys => ?_⟩
  · obtain ⟨e', -, ⟨slots, hrun, hall⟩ | ⟨error, -, -, key, hkey, hnot⟩⟩ :=
      perform_internWords_cases hnumbers keys
    · exact ⟨slots, e', hrun, hall⟩
    · exact absurd (hkeys key hkey) hnot
  · obtain ⟨e', -, ⟨slots, -, hall⟩ | ⟨error, hrun, herror, -⟩⟩ :=
      perform_internWords_cases hnumbers keys
    · obtain ⟨key, hkey, hnot⟩ := hkeys
      obtain ⟨i, hi, rfl⟩ := List.getElem_of_mem hkey
      exact absurd (List.mem_of_getElem? (hall.get hi (hall.length_eq ▸ hi))) hnot
    · obtain ⟨name, capacity, rfl⟩ := (Error.isOverflow_iff error).mp herror
      exact ⟨name, capacity, e', hrun⟩

/-- **Keys are numbered first come, first served.** A new pool answers every request for a key
with the rank of the key among the distinct keys that were asked for, as long as there are slots
for all that came before, and refuses the others again and again. The words of an engine are
numbered in the same way over all calls since the last reset, and no call but a reset takes a
word its id. -/
theorem words_first_come :
    (∀ (ρ : Type) [Inhabited ρ] (name : String) (capacity indexCapacity : ℕ) (p : Pool ρ),
      capacity ≤ maxPoolCapacity.toNat → Pool.ofCapacity name capacity indexCapacity = .ok p →
      ∀ rs, Pool.FirstCome capacity rs (replay Pool.serve rs p).1 (replay Pool.serve rs p).2)
    ∧ ∀ (config : Config) (e : Engine α), ofConfig config = .ok e → ∀ calls : List (Call α),
      (run calls e).NumbersWords (wordsAsked calls)
        ∧ ∀ more : List (Call α), (∀ call ∈ more, call ≠ .reset) → ∀ key slot,
          (run calls e).store.tally.words.lookup key = some slot →
          (run (calls ++ more) e).store.tally.words.lookup key = some slot := by
  constructor
  · intro ρ _ name capacity indexCapacity p hle hnew rs
    exact Pool.firstCome_replay hle hnew rs
  · intro config e he calls
    have hcalls := wordsNumbered_run (wordsNumbered_of_ofConfig he) calls
    refine ⟨hcalls.numbersWords, fun more hmore key slot hlookup => ?_⟩
    have hrest := wordsNumbered_run hcalls more
    obtain ⟨keys, hkeys⟩ := foldl_wordsAsked hmore (calls.foldl Call.wordsAsked [])
    rw [hkeys] at hrest
    rw [hcalls.2.lookup_eq_some_iff, hcalls.1] at hlookup
    rw [run_append, hrest.2.lookup_eq_some_iff, hrest.1]
    exact getElem?_of_prefix (firstCome_grows _ _ _) hlookup

/-- Five keys in a pool of two slots and an index of four: the reserved key is the key `0` under
another name, and the refused keys use up the index until it has no room for a mark. The same
keys as words of an engine, in two calls with a failure between them. -/
theorem words_first_come_refused :
    let rs : List (Pool.Request ℕ) :=
      [7, Key.vacant, 7, 8, 0, 9, 10, 8, 7].map fun key => ⟨key, (· + key.toNat + 1)⟩
    let calls : List (Call ℚ) :=
      [.internWords [7, Key.vacant, 7, 8], .internWords [0, 9, 10, 11], .internWords [9, 7]]
    ∃ (p : Pool ℕ) (e : Engine ℚ), Pool.ofCapacity "pool" 2 4 = .ok p ∧ ofConfig .tiny = .ok e
      ∧ Pool.FirstCome 2 rs (replay Pool.serve rs p).1 (replay Pool.serve rs p).2
      ∧ firstCome 2 (rs.map Pool.Request.key) = [7, 0]
      ∧ (replay Pool.serve rs p).2.liveRows = [8, 2 ^ 64]
      ∧ (run calls e).NumbersWords (wordsAsked calls) ∧ firstCome 4 (wordsAsked calls) = [7, 0, 8, 9]
      ∧ (run (calls ++ [.fold]) e).store.tally.words.lookup 0 = some 1 := by
  intro rs calls
  obtain ⟨hpools, hengines⟩ := words_first_come (α := ℚ)
  obtain ⟨e, he, hlookup⟩ := exists_ofConfig_of_mem .tiny (P := fun e : Engine ℚ =>
    (run calls e).store.tally.words.lookup 0 = some 1) (by decide +kernel)
  have hnew : Pool.ofCapacity "pool" 2 4 = .ok ⟨"pool", Array.replicate 2 (0 : ℕ), .ofCapacity 2,
      .vacantOf "pool" 4 (by decide), Array.size_replicate⟩ :=
    Pool.ofCapacity_eq_ok_iff.mpr ⟨by decide, by decide, _,
      Index.ofCapacity_eq_ok_iff.mpr ⟨by decide, by decide, rfl⟩, rfl⟩
  obtain ⟨hnumbers, hstable⟩ := hengines .tiny e he calls
  refine ⟨_, e, hnew, he, hpools ℕ "pool" 2 4 _ (by decide) hnew rs, by decide +kernel,
    by decide +kernel, hnumbers, by decide +kernel, hstable [.fold] ?_ 0 1 hlookup⟩
  simp

end Engine

end CorpusStats
