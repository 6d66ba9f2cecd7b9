import CorpusStats.Proofs.Index.Dict
/-!
# CorpusStats.Proofs.Index.Counting

The values of an index as **counters**.

What counting a key answers depends on the entry of the key and on the room for a new one. Requests
for other keys leave the entry alone, so the counts of one key can be read off a run by themselves
(`Index.countsOf`), whatever else is asked for in between. Once the key has an entry, every count is
one more than the last, up to the largest value that has no meaning of its own
(`Dict.CountsOn`). A key without an entry gets one with its first count, or finds no room, and
then it never will (`Dict.counts_run`).

A look-up finds nothing for three entries. Counting starts at one for two of them, no entry at all
and an entry that was never set. The third is the mark of a failed creation, and counting takes it
for a count that is past the largest one (`Index.failed_key_counts_full`).
-/

namespace CorpusStats

namespace Index

namespace Request

/-- Whether a request counts a key. -/
def Counts (key : UInt64) : Request → Prop
  | increment k => Key.storable k = Key.storable key
  | insert _ _ | findOrCreate _ _ | pushFront _ _ | erase _ | clear => False

instance (key : UInt64) : DecidablePred (Counts key) := fun request =>
  match request with
  | increment k => inferInstanceAs (Decidable (Key.storable k = Key.storable key))
  | insert _ _ | findOrCreate _ _ | pushFront _ _ | erase _ | clear => .isFalse id

/-- Whether a request is for a key that is stored differently. Clearing is for all keys. -/
def IsElsewhere (key : UInt64) : Request → Prop
  | insert k _ | findOrCreate k _ | increment k | pushFront k _ | erase k =>
    Key.storable k ≠ Key.storable key
  | clear => False

instance (key : UInt64) : DecidablePred (IsElsewhere key) := fun request =>
  match request with
  | insert k _ | findOrCreate k _ | increment k | pushFront k _ | erase k =>
    inferInstanceAs (Decidable (Key.storable k ≠ Key.storable key))
  | clear => .isFalse id

theorem IsElsewhere.not_counts {key : UInt64} {request : Request} (h : request.IsElsewhere key) :
    ¬ request.Counts key := by
  cases request with
  | increment k => exact h
  | _ => exact id

theorem Counts.exists_increment {key : UInt64} {request : Request} (h : request.Counts key) :
    ∃ k, request = increment k ∧ Key.storable k = Key.storable key := by
  cases request with
  | increment k => exact ⟨k, rfl, h⟩
  | _ => exact h.elim

end Request

/-- The answers to the requests that count a key. -/
def countsOf (key : UInt64) (requests : List Request) (answers : List (Except Error Reply)) :
    List (Except Error Reply) :=
  ((requests.zip answers).filter fun entry => entry.1.Counts key).map Prod.snd

end Index

namespace Dict

open Index (Request Reply countsOf)

variable {d : Dict} {key : UInt64} {request : Request} {requests : List Request}

/-! ### One request -/

/-- The count that an entry stands for. -/
def countSoFar : Option UInt32 → ℕ
  | none => 0
  | some v => if v = Index.unset then 0 else v.toNat

theorem countAfter_eq (entry : Option UInt32) :
    countAfter entry = UInt32.ofNat (min (countSoFar entry + 1) (2 ^ 32 - 3)) := by
  cases entry with
  | none => rfl
  | some v =>
    simp only [countAfter, countSoFar]
    split <;> rfl

theorem toNat_ofNat_of_le {n : ℕ} (h : n ≤ 2 ^ 32 - 3) : (UInt32.ofNat n).toNat = n :=
  UInt32.toNat_ofNat_of_lt' (by rw [UInt32.size]; omega)

/-- Numbers up to the largest count have no meaning of their own. -/
theorem ofNat_ne_of_le {n : ℕ} (h : n ≤ 2 ^ 32 - 3) :
    UInt32.ofNat n ≠ Index.unset ∧ UInt32.ofNat n ≠ Index.exhausted := by
  have hnat := toNat_ofNat_of_le h
  constructor <;> intro heq <;> rw [heq] at hnat
  · rw [show Index.unset.toNat = 2 ^ 32 - 1 from rfl] at hnat
    omega
  · rw [show Index.exhausted.toNat = 2 ^ 32 - 2 from rfl] at hnat
    omega

/-- The entry of a key after counting it `n` times. -/
def countedTimes (n : ℕ) (entry : Option UInt32) : Option UInt32 :=
  (fun entry => some (countAfter entry))^[n] entry

/-- Counts go up by one and stop at the largest number without a meaning. -/
theorem countedTimes_succ (n : ℕ) (entry : Option UInt32) :
    countedTimes (n + 1) entry
      = some (UInt32.ofNat (min (countSoFar entry + (n + 1)) (2 ^ 32 - 3))) := by
  induction n with
  | zero => exact congrArg some (countAfter_eq entry)
  | succ n ih =>
    rw [countedTimes, Function.iterate_succ_apply', ← countedTimes, ih, countAfter_eq, countSoFar,
      if_neg (ofNat_ne_of_le (Nat.min_le_right _ _)).1, toNat_ofNat_of_le (Nat.min_le_right _ _)]
    congr 2
    omega

theorem countAfter_countedTimes (n : ℕ) (entry : Option UInt32) :
    countAfter (countedTimes n entry)
      = UInt32.ofNat (min (countSoFar entry + (n + 1)) (2 ^ 32 - 3)) := by
  have hsucc := countedTimes_succ n entry
  rw [countedTimes, Function.iterate_succ_apply'] at hsucc
  exact Option.some.inj hsucc

theorem entry_put (d : Dict) (key k : UInt64) (value : UInt32) :
    (d.put key value).entry k = if k = key then some value else d.entry k :=
  Function.update_apply _ _ _ _

/-- What a request for another key leaves alone: the entry of the key, the failure for want of
room, and that there is no room. -/
structure Untouched (key : UInt64) (d d' : Dict) : Prop where
  entry_eq : d'.entry (Key.storable key) = d.entry (Key.storable key)
  overflow_eq : d'.overflow = d.overflow
  room_eq_zero : d.room = 0 → d'.room = 0

theorem untouched_store {k : UInt64} (h : k ≠ Key.storable key) (value : UInt32)
    (reply : Except Error Reply) : Untouched key d (d.store k value reply).2 := by
  unfold store
  split
  · exact ⟨rfl, rfl, id⟩
  · refine ⟨?_, rfl, ?_⟩
    · rw [entry_put, if_neg h.symm]
    · intro hroom
      simp [put, hroom]

theorem untouched_serve (h : request.IsElsewhere key) : Untouched key d (d.serve request).2 := by
  cases request with
  | insert k value => exact untouched_store h _ _
  | pushFront k value => exact untouched_store h _ _
  | increment k => exact untouched_store h _ _
  | findOrCreate k create =>
    cases hentry : d.entry (Key.storable k) with
    | some v =>
      simp only [serve, hentry]
      split_ifs <;> exact ⟨rfl, rfl, id⟩
    | none =>
      simp only [serve, hentry]
      cases create <;> exact untouched_store h _ _
  | erase k => exact ⟨Function.update_of_ne h.symm _ _, rfl, id⟩
  | clear => exact h.elim

/-! ### Runs -/

theorem countsOf_run_of_counts (h : request.Counts key) :
    countsOf key (request :: requests) (d.run (request :: requests)).1
      = (d.serve request).1 :: countsOf key requests ((d.serve request).2.run requests).1 := by
  show ((((request, (d.serve request).1) :: requests.zip _).filter _).map _) = _
  rw [List.filter_cons_of_pos (by simpa using h)]
  rfl

theorem countsOf_run_of_elsewhere (h : request.IsElsewhere key) :
    countsOf key (request :: requests) (d.run (request :: requests)).1
      = countsOf key requests ((d.serve request).2.run requests).1 := by
  show ((((request, (d.serve request).1) :: requests.zip _).filter _).map _) = _
  rw [List.filter_cons_of_neg (by simpa using h.not_counts)]
  rfl

/-- Counting a key that has an entry or finds room. -/
theorem serve_of_counts (h : request.Counts key)
    (hroom : ¬ (d.entry (Key.storable key) = none ∧ d.room = 0)) :
    (d.serve request).1 = .ok (.value (countAfter (d.entry (Key.storable key)))) ∧
      (d.serve request).2.entry (Key.storable key)
        = some (countAfter (d.entry (Key.storable key))) := by
  obtain ⟨k, rfl, hk⟩ := h.exists_increment
  rw [serve, store, hk, if_neg hroom]
  exact ⟨rfl, by rw [entry_put, if_pos rfl]⟩

/-- Counting a key that has no entry and finds no room. -/
theorem serve_of_full (h : request.Counts key) (hentry : d.entry (Key.storable key) = none)
    (hroom : d.room = 0) : d.serve request = (.error d.overflow, d) := by
  obtain ⟨k, rfl, hk⟩ := h.exists_increment
  rw [serve, store, hk, if_pos ⟨hentry, hroom⟩]

/-- A key without an entry in a map without room is never counted. -/
theorem counts_of_full
    (hrequests : ∀ request ∈ requests, request.Counts key ∨ request.IsElsewhere key)
    (hentry : d.entry (Key.storable key) = none) (hroom : d.room = 0) :
    ∀ answer ∈ countsOf key requests (d.run requests).1, answer = .error d.overflow := by
  induction requests generalizing d with
  | nil => exact fun _ h => absurd h List.not_mem_nil
  | cons request requests ih =>
    obtain ⟨hrequest, hrest⟩ := List.forall_mem_cons.mp hrequests
    rcases hrequest with hcounts | helsewhere
    · rw [countsOf_run_of_counts hcounts, serve_of_full hcounts hentry hroom, List.forall_mem_cons]
      exact ⟨rfl, ih hrest hentry hroom⟩
    · have huntouched := untouched_serve (d := d) helsewhere
      rw [countsOf_run_of_elsewhere helsewhere, ← huntouched.overflow_eq]
      exact ih hrest (huntouched.entry_eq.trans hentry) (huntouched.room_eq_zero hroom)

/-- All counts of a key are answered, each with one more than the one before, and the last of them
is the entry of the key. -/
structure CountsOn (key : UInt64) (requests : List Request) (d : Dict) : Prop where
  answer_eq : ∀ i < (countsOf key requests (d.run requests).1).length,
    (countsOf key requests (d.run requests).1)[i]?
      = some (.ok (.value (countAfter (countedTimes i (d.entry (Key.storable key))))))
  entry_eq : (d.run requests).2.entry (Key.storable key)
    = countedTimes (countsOf key requests (d.run requests).1).length (d.entry (Key.storable key))

theorem CountsOn.getElem?_eq (h : CountsOn key requests d) {i : ℕ}
    (hi : i < (countsOf key requests (d.run requests).1).length) :
    (countsOf key requests (d.run requests).1)[i]? = some (.ok (.value
      (UInt32.ofNat (min (countSoFar (d.entry (Key.storable key)) + (i + 1)) (2 ^ 32 - 3))))) := by
  rw [← countAfter_countedTimes]
  exact h.answer_eq i hi

theorem CountsOn.isOk (h : CountsOn key requests d) :
    ∀ answer ∈ countsOf key requests (d.run requests).1, answer.isOk := by
  intro answer hanswer
  obtain ⟨i, hi, rfl⟩ := List.getElem_of_mem hanswer
  rw [Option.some.inj ((List.getElem?_eq_getElem hi).symm.trans (h.answer_eq i hi))]
  rfl

/-- A key that was counted has its last count as its entry. -/
theorem CountsOn.entry_of_pos (h : CountsOn key requests d)
    (hpos : 1 ≤ (countsOf key requests (d.run requests).1).length) :
    (d.run requests).2.entry (Key.storable key) = some (UInt32.ofNat
      (min (countSoFar (d.entry (Key.storable key))
        + (countsOf key requests (d.run requests).1).length) (2 ^ 32 - 3))) := by
  obtain ⟨n, hn⟩ := Nat.exists_eq_add_of_le' hpos
  rw [h.entry_eq, hn, countedTimes_succ]

theorem CountsOn.cons_of_elsewhere (h : request.IsElsewhere key)
    (hrest : CountsOn key requests (d.serve request).2) : CountsOn key (request :: requests) d := by
  obtain ⟨hanswer, hentry⟩ := hrest
  rw [(untouched_serve h).entry_eq] at hanswer hentry
  rw [← countsOf_run_of_elsewhere h] at hanswer hentry
  exact ⟨hanswer, hentry⟩

theorem CountsOn.cons_of_counts (h : request.Counts key)
    (hroom : ¬ (d.entry (Key.storable key) = none ∧ d.room = 0))
    (hrest : CountsOn key requests (d.serve request).2) : CountsOn key (request :: requests) d := by
  obtain ⟨hfirst, hstored⟩ := serve_of_counts h hroom
  obtain ⟨hanswer, hentry⟩ := hrest
  rw [hstored] at hanswer hentry
  constructor
  · rw [countsOf_run_of_counts h, hfirst]
    intro i hi
    cases i with
    | zero => rfl
    | succ i => exact hanswer i (Nat.lt_of_succ_lt_succ hi)
  · rw [countsOf_run_of_counts h]
    exact hentry

/-- A key with an entry is counted on from it. -/
theorem countsOn_of_some
    (hrequests : ∀ request ∈ requests, request.Counts key ∨ request.IsElsewhere key)
    {v : UInt32} (hentry : d.entry (Key.storable key) = some v) : CountsOn key requests d := by
  induction requests generalizing d v with
  | nil => exact ⟨fun _ h => absurd h (Nat.not_lt_zero _), rfl⟩
  | cons request requests ih =>
    obtain ⟨hrequest, hrest⟩ := List.forall_mem_cons.mp hrequests
    rcases hrequest with hcounts | helsewhere
    · have hroom : ¬ (d.entry (Key.storable key) = none ∧ d.room = 0) := by simp [hentry]
      exact .cons_of_counts hcounts hroom (ih hrest (serve_of_counts hcounts hroom).2)
    · exact .cons_of_elsewhere helsewhere
        (ih hrest ((untouched_serve helsewhere).entry_eq.trans hentry))

/-- Either no count of a key finds room, or all are answered. -/
theorem counts_run
    (hrequests : ∀ request ∈ requests, request.Counts key ∨ request.IsElsewhere key) :
    (∀ answer ∈ countsOf key requests (d.run requests).1, answer = .error d.overflow)
      ∨ CountsOn key requests d := by
  induction requests generalizing d with
  | nil => exact .inl fun _ h => absurd h List.not_mem_nil
  | cons request requests ih =>
    obtain ⟨hrequest, hrest⟩ := List.forall_mem_cons.mp hrequests
    rcases hrequest with hcounts | helsewhere
    · by_cases hroom : d.entry (Key.storable key) = none ∧ d.room = 0
      · exact .inl (counts_of_full hrequests hroom.1 hroom.2)
      · -- the first count leaves an entry, from which the others count on
        have hstored := (serve_of_counts hcounts hroom).2
        exact .inr (.cons_of_counts hcounts hroom (countsOn_of_some hrest hstored))
    · rcases ih (d := (d.serve request).2) hrest with hfull | hcounted
      · rw [countsOf_run_of_elsewhere helsewhere, ← (untouched_serve helsewhere).overflow_eq]
        exact .inl hfull
      · exact .inr (.cons_of_elsewhere helsewhere hcounted)

end Dict

namespace Index

/-- Whether the value of a key is the mark of a failed creation. -/
def IsMarked (ix : Index) (key : UInt64) : Prop := ix.raw? (Key.storable key) = some exhausted

instance (ix : Index) (key : UInt64) : Decidable (ix.IsMarked key) :=
  inferInstanceAs (Decidable (_ = _))

/-- Keys that a look-up does not find are counted from nothing, unless they are marked. -/
theorem Represents.countSoFar_eq {ix : Index} {d : Dict} {key : UInt64} (h : ix.Represents d)
    (hlookup : ix.lookup key = unset) (n : ℕ) :
    min (Dict.countSoFar (d.entry (Key.storable key)) + n) (2 ^ 32 - 3)
      = if ix.IsMarked key then 2 ^ 32 - 3 else min n (2 ^ 32 - 3) := by
  have hmarked : ix.IsMarked key ↔ d.entry (Key.storable key) = some exhausted := by
    rw [IsMarked, h.raw?_eq]
  rw [h.lookup_eq, Dict.lookup] at hlookup
  cases hentry : d.entry (Key.storable key) with
  | none =>
    rw [if_neg (by simp [hmarked, hentry]), Dict.countSoFar, Nat.zero_add]
  | some v =>
    simp only [hentry] at hlookup
    by_cases hv : v = exhausted
    · subst hv
      rw [if_pos (hmarked.mpr hentry)]
      exact Nat.min_eq_right (Nat.le_add_right_of_le (by decide))
    · rw [if_neg hv] at hlookup
      rw [if_neg (by simp [hmarked, hentry, hv]), Dict.countSoFar, if_pos hlookup, Nat.zero_add]

theorem Represents.run {ix : Index} {d : Dict} (h : ix.Represents d) (requests : List Request) :
    (ix.run requests).1 = (d.run requests).1
      ∧ (ix.run requests).2.Represents (d.run requests).2 :=
  replay_related (fun request _ _ h => h.step request) requests h

/-- What requests leave of a new index stands for some map. -/
theorem exists_represents_run {name : String} {capacity : ℕ} {new : Index}
    (hnew : ofCapacity name capacity = .ok new) (requests : List Request) :
    ∃ d, (new.run requests).2.Represents d := by
  obtain ⟨hpos, -, rfl⟩ := ofCapacity_eq_ok_iff.mp hnew
  exact ⟨_, ((represents_vacantOf name capacity hpos).run requests).2⟩

/-- **Counts start at one and stop below the values with a meaning.** In any state that requests
leave, a key that a look-up does not find is counted in between any requests for other keys. Either
no count finds room, or all are answered. If they are, the answers are 1, 2, 3 and so on up to
`2 ^ 32 - 3`, which they repeat; a look-up finds the last of them, and the value of the key is
neither of the two that have a meaning, here and on the way, since the requests may end anywhere. A
key that was marked is at `2 ^ 32 - 3` with its first count. -/
theorem counts_start_at_one {name : String} {capacity : ℕ} {new : Index}
    (hnew : ofCapacity name capacity = .ok new) (before : List Request)
    {key : UInt64} (habsent : (new.run before).2.lookup key = unset) {requests : List Request}
    (hrequests : ∀ request ∈ requests, request.Counts key ∨ request.IsElsewhere key) :
    let ix := (new.run before).2
    let ix' := (ix.run requests).2
    let counts := countsOf key requests (ix.run requests).1
    let count (n : ℕ) : ℕ := if ix.IsMarked key then 2 ^ 32 - 3 else min n (2 ^ 32 - 3)
    ((∀ answer ∈ counts, answer = .error ix.overflow) ∨ ∀ answer ∈ counts, answer.isOk) ∧
    ((∀ answer ∈ counts, answer.isOk) → 1 ≤ counts.length →
      (∀ i < counts.length, counts[i]? = some (.ok (.value (UInt32.ofNat (count (i + 1)))))) ∧
      (ix'.lookup key).toNat = count counts.length ∧
      ∃ v, ix'.raw? (Key.storable key) = some v ∧ v ≠ unset ∧ v ≠ exhausted) := by
  intro ix ix' counts count
  obtain ⟨d, hd⟩ := exists_represents_run hnew before
  obtain ⟨hanswers, hend⟩ := hd.run requests
  have hcounts : countsOf key requests (d.run requests).1 = counts :=
    congrArg (countsOf key requests) hanswers.symm
  have hcount (n : ℕ) :
      min (Dict.countSoFar (d.entry (Key.storable key)) + n) (2 ^ 32 - 3) = count n :=
    hd.countSoFar_eq habsent n
  rcases Dict.counts_run (d := d) hrequests with hfull | hcounted
  · rw [hcounts, ← hd.overflow_eq] at hfull
    refine ⟨.inl hfull, fun hok hpos => ?_⟩
    -- a first count cannot be both refused and answered
    obtain ⟨answer, hanswer⟩ := List.exists_mem_of_length_pos hpos
    have hanswered := hok answer hanswer
    rw [hfull answer hanswer] at hanswered
    cases hanswered
  · have hok := hcounted.isOk
    have hnth (i : ℕ) := hcounted.getElem?_eq (i := i)
    have hentry := hcounted.entry_of_pos
    simp only [hcounts, hcount] at hok hnth hentry
    refine ⟨.inr hok, fun _ hpos => ⟨hnth, ?_⟩⟩
    have hle : count counts.length ≤ 2 ^ 32 - 3 := hcount counts.length ▸ Nat.min_le_right _ _
    have hraw : ix'.raw? (Key.storable key) = some (UInt32.ofNat (count counts.length)) :=
      (hend.raw?_eq _).trans (hentry hpos)
    obtain ⟨hunset, hexhausted⟩ := Dict.ofNat_ne_of_le hle
    refine ⟨?_, _, hraw, hunset, hexhausted⟩
    rw [lookup, hraw]
    simp only [if_neg hexhausted]
    exact Dict.toNat_ofNat_of_le hle

/-- A key that was erased is counted in between requests for two other keys, one of which takes the
last slot. -/
theorem counts_start_at_one_erased :
    ∃ new, ofCapacity "small" 4 = .ok new
      ∧ let ix := (new.run [.insert 5 9, .erase 5, .findOrCreate 2 (.error (.io "full"))]).2
        let requests := [.increment 5, .insert 1 7, .increment 5, .erase 2, .increment 5]
        ix.lookup 5 = unset
          ∧ countsOf 5 requests (ix.run requests).1
            = [.ok (.value 1), .ok (.value 2), .ok (.value 3)]
          ∧ ((ix.run requests).2.lookup 5).toNat = 3 := by
  have hnew : ofCapacity "small" 4 = .ok (vacantOf "small" 4 (by decide)) := rfl
  obtain ⟨-, hanswered⟩ := @counts_start_at_one "small" 4 _ hnew
    [.insert 5 9, .erase 5, .findOrCreate 2 (.error (.io "full"))] 5 (by decide)
    [.increment 5, .insert 1 7, .increment 5, .erase 2, .increment 5] (by decide)
  obtain ⟨-, hlookup, -⟩ := hanswered (by decide) (by decide)
  exact ⟨_, hnew, by decide, by decide, hlookup.trans (by decide)⟩

/-- A look-up does not find a key whose creation failed, and its first count is not one. -/
theorem failed_key_counts_full :
    ∃ new, ofCapacity "small" 4 = .ok new
      ∧ let ix := (new.run [.findOrCreate 4 (.error (.overflow "pool" 0))]).2
        ix.lookup 4 = unset
          ∧ (ix.run [.increment 4]).1 = [.ok (.value 4294967293)]
          ∧ (ix.run [.increment 4]).1 ≠ [.ok (.value 1)]
          ∧ (ix.run [.increment 4]).2.lookup 4 = 4294967293 :=
  ⟨vacantOf "small" 4 (by decide), rfl, by decide, by decide, by decide, by decide⟩

end Index

end CorpusStats
