import CorpusStats.Proofs.Index.Write
import CorpusStats.Proofs.Stage
/-!
# CorpusStats.Proofs.Index.Dict

**An index is a finite map.** `Dict` is that map without slots: an entry for every key and
the number of places left. `run_eq_dict_run` runs the same requests on a new index and on
an empty `Dict` of the same capacity and finds the same answers, the same look-ups and the
same entries, whatever the requests and however they collide, wrap and fill the slots.

Two things of the slots remain visible in a `Dict`, and only these: a new key takes a place,
and erasing it does not give the place back.
-/

namespace CorpusStats

namespace Index

/-- What a host can ask of an index. -/
inductive Request
  | insert (key : UInt64) (value : UInt32)
  /-- The value of a key, created if the key is new. -/
  | findOrCreate (key : UInt64) (create : Except Error UInt32)
  /-- Add one to the counter of a key. -/
  | increment (key : UInt64)
  /-- Set the value of a key and answer the old one. -/
  | pushFront (key : UInt64) (value : UInt32)
  | erase (key : UInt64)
  | clear

/-- What an index answers. -/
inductive Reply
  | done
  /-- A value: the new count, or the old value. -/
  | value (value : UInt32)
  /-- A value, and whether its key was new. -/
  | found (value : UInt32) (created : Bool)
  | erased (present : Bool)
  deriving Repr, DecidableEq

def serve : Request → Stage Index Reply
  | .insert key value => (fun _ => .done) <$> insert key value
  | .findOrCreate key create => (fun (v, created) => .found v created) <$> findOrCreate key create
  | .increment key => .value <$> increment key
  | .pushFront key value => .value <$> pushFront key value
  | .erase key => modifyGet fun ix => (.erased (ix.erase key).1, (ix.erase key).2)
  | .clear => modifyGet fun ix => (.done, ix.clear)

/-- Make requests one after the other. A failing one changes what it changes, and the next
one follows. -/
def run : List Request → Index → List (Except Error Reply) × Index :=
  replay fun request => Stage.outcome (serve request)

end Index

/-- A finite map with room for a number of keys. -/
structure Dict where
  name : String
  /-- How many keys there is room for in an empty map. -/
  capacity : ℕ
  /-- The value of every key that has one. -/
  entry : UInt64 → Option UInt32
  /-- How many new keys there is still room for. -/
  room : ℕ

namespace Dict

open Index (Request Reply)

def empty (name : String) (capacity : ℕ) : Dict := ⟨name, capacity, fun _ => none, capacity⟩

variable (d : Dict)

/-- The value of a key, or `Index.unset` if it has none or its creation failed. -/
def lookup (key : UInt64) : UInt32 :=
  match d.entry (Key.storable key) with
  | none => Index.unset
  | some v => if v = Index.exhausted then Index.unset else v

def overflow : Error := .overflow d.name d.capacity

/-- The map with another value under one key. A new key takes up room. -/
def put (key : UInt64) (value : UInt32) : Dict :=
  { d with
    entry := Function.update d.entry key (some value)
    room := if (d.entry key).isSome then d.room else d.room - 1 }

/-- Set a value and answer, if the key is there or there is room for it. -/
def store (key : UInt64) (value : UInt32) (reply : Except Error Reply) :
    Except Error Reply × Dict :=
  if d.entry key = none ∧ d.room = 0 then (.error d.overflow, d) else (reply, d.put key value)

/-- The count after one more, stopping below the two values with a meaning of their own. -/
def countAfter : Option UInt32 → UInt32
  | none => 1
  | some v => if v = Index.unset then 1 else UInt32.ofNat (min (v.toNat + 1) (2 ^ 32 - 3))

def serve : Request → Dict → Except Error Reply × Dict
  | .insert key value, d => d.store (Key.storable key) value (.ok .done)
  | .pushFront key value, d =>
    d.store (Key.storable key) value
      (.ok (.value ((d.entry (Key.storable key)).getD Index.unset)))
  | .increment key, d =>
    let count := countAfter (d.entry (Key.storable key))
    d.store (Key.storable key) count (.ok (.value count))
  | .findOrCreate key create, d =>
    match d.entry (Key.storable key) with
    | some v =>
      if v = Index.unset then (.error (.invalidState (.unpublished d.name)), d)
      else if v = Index.exhausted then (.error d.overflow, d)
      else (.ok (.found v false), d)
    | none =>
      match create with
      | .ok v => d.store (Key.storable key) v (.ok (.found v true))
      | .error e => d.store (Key.storable key) Index.exhausted (.error e)
  | .erase key, d =>
    (.ok (.erased (d.entry (Key.storable key)).isSome),
      { d with entry := Function.update d.entry (Key.storable key) none })
  | .clear, d => (.ok .done, empty d.name d.capacity)

def run : List Request → Dict → List (Except Error Reply) × Dict := replay serve

end Dict

namespace Index

/-- An index that stands for a map. -/
structure Represents (ix : Index) (d : Dict) : Prop where
  sound : ix.Sound
  name_eq : ix.name = d.name
  capacity_eq : ix.capacity = d.capacity
  raw?_eq : ∀ key, ix.raw? key = d.entry key
  /-- The room is the vacant slots. -/
  vacancies_eq : ix.vacancies = d.room

namespace Represents

variable {ix : Index} {d : Dict}

theorem overflow_eq (h : ix.Represents d) : ix.overflow = d.overflow := by
  rw [Index.overflow, h.name_eq, h.capacity_eq, Dict.overflow]

theorem lookup_eq (h : ix.Represents d) (key : UInt64) : ix.lookup key = d.lookup key := by
  rw [Index.lookup, Dict.lookup, h.raw?_eq]
  cases d.entry (Key.storable key) <;> rfl

theorem put (h : ix.Represents d) {ix' : Index} {key : UInt64} {value : UInt32}
    (hw : Written ix ix' key (some value))
    (hvac : ix'.vacancies = if (d.entry key).isSome then d.room else d.room - 1) :
    ix'.Represents (d.put key value) where
  sound := hw.sound
  name_eq := hw.name_eq.trans h.name_eq
  capacity_eq := hw.capacity_eq.trans h.capacity_eq
  raw?_eq k := by
    show _ = Function.update d.entry key (some value) k
    rw [hw.raw?_eq, Function.update_apply]
    split
    · rfl
    · exact h.raw?_eq k
  vacancies_eq := hvac

theorem replace (h : ix.Represents d) (key : UInt64) (f : UInt32 → UInt32)
    (answer : UInt32 → Reply) :
    let value := f ((d.entry (Key.storable key)).getD unset)
    let reply := answer ((d.entry (Key.storable key)).getD unset)
    (Stage.outcome (answer <$> Index.replace key f) ix).1
        = (d.store (Key.storable key) value (.ok reply)).1
      ∧ (Stage.outcome (answer <$> Index.replace key f) ix).2.Represents
          (d.store (Key.storable key) value (.ok reply)).2 := by
  intro value reply
  have hentry := h.raw?_eq (Key.storable key)
  cases hraw : d.entry (Key.storable key) with
  | some v =>
    obtain ⟨ix', hok, hw, hvac⟩ := h.sound.replace_of_some (hentry.trans hraw) f
    have hstore : d.store (Key.storable key) value (.ok reply)
        = (.ok (answer v), d.put (Key.storable key) (f v)) := by
      simp [Dict.store, value, reply, hraw]
    have hrun : Stage.outcome (answer <$> Index.replace key f) ix = (.ok (answer v), ix') := by
      simp only [Stage.outcome, Functor.map, EStateM.map, hok]
    rw [hrun, hstore]
    exact ⟨rfl, h.put hw (by rw [hvac, h.vacancies_eq, hraw]; rfl)⟩
  | none =>
    -- the room of the map is the vacant slots, so both have room for the key or neither has
    rcases h.sound.replace_of_none (hentry.trans hraw) f with ⟨hvac, herr⟩ | ⟨ix', hok, hw, hvac⟩
    · have hstore : d.store (Key.storable key) value (.ok reply) = (.error d.overflow, d) :=
        if_pos ⟨hraw, h.vacancies_eq ▸ hvac⟩
      have hrun : Stage.outcome (answer <$> Index.replace key f) ix = (.error ix.overflow, ix) := by
        simp only [Stage.outcome, Functor.map, EStateM.map, herr]
      rw [hrun, hstore, h.overflow_eq]
      exact ⟨rfl, h⟩
    · have hroom : d.room ≠ 0 := by
        have := h.vacancies_eq
        omega
      have hstore : d.store (Key.storable key) value (.ok reply)
          = (.ok (answer unset), d.put (Key.storable key) (f unset)) := by
        simp [Dict.store, value, reply, hraw, hroom]
      have hrun : Stage.outcome (answer <$> Index.replace key f) ix
          = (.ok (answer unset), ix') := by
        simp only [Stage.outcome, Functor.map, EStateM.map, hok]
      rw [hrun, hstore]
      refine ⟨rfl, h.put hw ?_⟩
      have := h.vacancies_eq
      simp only [hraw, Option.isSome_none, Bool.false_eq_true, if_false]
      omega

theorem findOrCreate (h : ix.Represents d) (key : UInt64) (create : Except Error UInt32) :
    (Stage.outcome (serve (.findOrCreate key create)) ix).1
        = (d.serve (.findOrCreate key create)).1
      ∧ (Stage.outcome (serve (.findOrCreate key create)) ix).2.Represents
          (d.serve (.findOrCreate key create)).2 := by
  have hentry := h.raw?_eq (Key.storable key)
  cases hraw : d.entry (Key.storable key) with
  | some v =>
    have hrun := h.sound.findOrCreate_of_some (hentry.trans hraw) create
    simp only [Dict.serve, hraw]
    simp only [Stage.outcome, serve, Functor.map, EStateM.map, hrun, ← h.overflow_eq, ← h.name_eq]
    by_cases hunset : v = unset
    · simpa only [if_pos hunset, true_and] using h
    · by_cases hexhausted : v = exhausted
      · simpa only [if_neg hunset, if_pos hexhausted, true_and] using h
      · simpa only [if_neg hunset, if_neg hexhausted, true_and] using h
  | none =>
    -- with the creation's value fixed, the request is a write or finds no room
    have hserve : ∃ reply, d.serve (.findOrCreate key create)
          = d.store (Key.storable key) (valueOf create) reply
        ∧ reply = create.map fun v => .found v true := by
      cases create <;> exact ⟨_, by simp only [Dict.serve, hraw]; rfl, rfl⟩
    obtain ⟨reply, hserve, hreply⟩ := hserve
    rw [hserve]
    rcases h.sound.findOrCreate_of_none (hentry.trans hraw) create with
      ⟨hvac, herr⟩ | ⟨ix', hw, hvac, hok⟩
    · rw [Dict.store, if_pos ⟨hraw, h.vacancies_eq ▸ hvac⟩, ← h.overflow_eq]
      simp only [Stage.outcome, serve, Functor.map, EStateM.map, herr, true_and]
      exact h
    · have hroom := h.vacancies_eq
      rw [Dict.store, if_neg (by omega), hreply]
      have hput : ix'.Represents (d.put (Key.storable key) (valueOf create)) := by
        refine h.put hw ?_
        simp only [hraw, Option.isSome_none, Bool.false_eq_true, if_false]
        omega
      cases create <;>
        simpa only [Stage.outcome, serve, Functor.map, EStateM.map, hok, Except.map, true_and]
          using hput

/-- Erasing a key gives no room back. -/
theorem erase (h : ix.Represents d) (key : UInt64) :
    (ix.erase key).1 = (d.entry (Key.storable key)).isSome
      ∧ (ix.erase key).2.Represents
          { d with entry := Function.update d.entry (Key.storable key) none } := by
  have hentry := h.raw?_eq (Key.storable key)
  cases hraw : d.entry (Key.storable key) with
  | some v =>
    obtain ⟨ix', herase, hw, hvac⟩ := h.sound.erase_of_some (hentry.trans hraw)
    rw [herase]
    refine ⟨rfl, hw.sound, hw.name_eq.trans h.name_eq, hw.capacity_eq.trans h.capacity_eq,
      fun k => ?_, hvac.trans h.vacancies_eq⟩
    show _ = Function.update d.entry (Key.storable key) none k
    rw [hw.raw?_eq, h.raw?_eq, Function.update_apply]
  | none =>
    rw [h.sound.erase_of_none (hentry.trans hraw)]
    refine ⟨rfl, h.sound, h.name_eq, h.capacity_eq, fun k => ?_, h.vacancies_eq⟩
    show _ = Function.update d.entry (Key.storable key) none k
    rw [h.raw?_eq, ← hraw, Function.update_eq_self]

end Represents

/-- The counter's successor, with no step taken in words. -/
theorem countUp_getD_unset (entry : Option UInt32) :
    countUp (entry.getD unset) = Dict.countAfter entry := by
  cases entry with
  | none => rfl
  | some v =>
    simp only [Option.getD_some, countUp, Dict.countAfter]
    by_cases hunset : v = unset
    · rw [if_pos hunset, if_pos hunset]
    · rw [if_neg hunset, if_neg hunset]
      -- the successor of any other value is no overflow
      have hv : v.toNat ≠ 2 ^ 32 - 1 := fun hv => hunset (UInt32.toNat_inj.mp hv)
      have hlt := v.toNat_lt
      have hadd : (v + 1).toNat = v.toNat + 1 := by
        rw [UInt32.toNat_add]
        exact Nat.mod_eq_of_lt (by have : (1 : UInt32).toNat = 1 := rfl; omega)
      have hlimit : (exhausted - 1).toNat = 2 ^ 32 - 3 := rfl
      apply UInt32.toNat_inj.mp
      rw [UInt32.toNat_ofNat_of_lt' (by rw [UInt32.size]; omega), ← hadd, ← hlimit]
      show (if v + 1 ≤ exhausted - 1 then v + 1 else exhausted - 1).toNat = _
      simp only [UInt32.le_iff_toNat_le, min_def]
      split <;> rfl

theorem serve_insert (key : UInt64) (value : UInt32) :
    serve (.insert key value) = (fun _ => .done) <$> Index.replace key fun _ => value := by
  rw [serve, Index.insert, map_eq_pure_bind, map_eq_pure_bind, bind_assoc]
  simp

theorem serve_increment (key : UInt64) :
    serve (.increment key) = (fun v => .value (countUp v)) <$> Index.replace key countUp := by
  rw [serve, Index.increment, map_eq_pure_bind, map_eq_pure_bind, bind_assoc]
  simp

/-- One request of an index and of the map it stands for. -/
theorem Represents.step {ix : Index} {d : Dict} (h : ix.Represents d) (request : Request) :
    (Stage.outcome (serve request) ix).1 = (d.serve request).1
      ∧ (Stage.outcome (serve request) ix).2.Represents (d.serve request).2 := by
  cases request with
  | insert key value =>
    rw [serve_insert]
    exact h.replace key (fun _ => value) fun _ => .done
  | findOrCreate key create => exact h.findOrCreate key create
  | increment key =>
    have hreplace := h.replace key countUp fun v => .value (countUp v)
    simp only [countUp_getD_unset] at hreplace
    rw [serve_increment]
    exact hreplace
  | pushFront key value => exact h.replace key (fun _ => value) .value
  | erase key =>
    obtain ⟨hanswer, hmap⟩ := h.erase key
    exact ⟨congrArg (Except.ok ∘ Reply.erased) hanswer, hmap⟩
  | clear =>
    refine ⟨rfl, ix.sound_clear, h.name_eq, (ix.capacity_clear).trans h.capacity_eq,
      fun key => ix.raw?_clear key, ?_⟩
    exact ix.vacancies_clear.trans h.capacity_eq

theorem represents_vacantOf (name : String) (n : ℕ) (h : 0 < n) :
    (vacantOf name n h).Represents (Dict.empty name n) where
  sound := sound_vacantOf name n h
  name_eq := rfl
  capacity_eq := capacity_vacantOf name n h
  raw?_eq := raw?_vacantOf name n h
  vacancies_eq := vacancies_vacantOf name n h

/-- **An index is a finite map.** A new index and an empty map of the same capacity answer
every list of requests alike, and afterwards the index looks up what the map looks up,
holds exactly the entries of the map, and none of them under a reserved key. -/
theorem run_eq_dict_run (name : String) {capacity : ℕ} (hcapacity : capacity.isPowerOfTwo)
    (requests : List Request) :
    ∃ ix, ofCapacity name capacity = .ok ix
      ∧ let r := ix.run requests
        let r' := (Dict.empty name capacity).run requests
        r.1 = r'.1
          ∧ (∀ key, r.2.lookup key = r'.2.lookup key)
          ∧ (∀ key value, (key, value) ∈ r.2.entries ↔ r'.2.entry key = some value)
          ∧ ∀ key, Key.IsReserved key → r'.2.entry key = none := by
  have hpos := Nat.pos_of_isPowerOfTwo hcapacity
  refine ⟨_, ofCapacity_eq_ok_iff.mpr ⟨hpos, hcapacity, rfl⟩, ?_⟩
  have hreplay := replay_related (R := Represents) (fun request _ _ h => h.step request) requests
    (represents_vacantOf name capacity hpos)
  obtain ⟨hanswers, hend⟩ := hreplay
  refine ⟨hanswers, hend.lookup_eq, fun key value => ?_, fun key hkey => ?_⟩
  · show (key, value) ∈ (replay _ requests (vacantOf name capacity hpos)).2.entries ↔ _
    rw [hend.sound.mem_entries_iff, hend.raw?_eq]
    rfl
  · exact (hend.raw?_eq key).symm.trans (hend.sound.raw?_of_reserved hkey)

/-- Four slots and keys that all start at the last one: probes wrap, pass an erased slot,
meet a failed creation, and find no room once every slot was taken. -/
theorem run_eq_dict_run_wrapping :
    (4).isPowerOfTwo ∧ ∃ ix, ofCapacity "small" 4 = .ok ix
      ∧ (ix.run [.insert 3 5, .findOrCreate 7 (.ok 9), .erase 3, .findOrCreate 7 (.ok 1),
          .increment 11, .increment 11, .pushFront 7 4, .findOrCreate 15 (.error (.io "full")),
          .findOrCreate 15 (.ok 2), .insert 3 6, .erase 3]).1
        = [.ok .done, .ok (.found 9 true), .ok (.erased true), .ok (.found 9 false),
          .ok (.value 1), .ok (.value 2), .ok (.value 9), .error (.io "full"),
          .error (.overflow "small" 4), .error (.overflow "small" 4), .ok (.erased false)] := by
  refine ⟨⟨2, rfl⟩, ?_⟩
  obtain ⟨ix, hix, hanswers, -⟩ := run_eq_dict_run "small" ⟨2, rfl⟩
    [.insert 3 5, .findOrCreate 7 (.ok 9), .erase 3, .findOrCreate 7 (.ok 1),
      .increment 11, .increment 11, .pushFront 7 4, .findOrCreate 15 (.error (.io "full")),
      .findOrCreate 15 (.ok 2), .insert 3 6, .erase 3]
  exact ⟨ix, hix, hanswers⟩

end Index

end CorpusStats
