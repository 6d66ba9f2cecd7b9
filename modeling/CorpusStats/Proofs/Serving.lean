import CorpusStats.Proofs.Numbering
/-!
# CorpusStats.Proofs.Serving

A pool that numbers its keys, with its **rows**: each was filled once, by the first request of
its key.

* `Pool.Serves` says so for requests of any kind and for what a row *shows* of a request. Both
  may change together (`Serves.map`), and rows may change in what they do not show
  (`Serves.modify`), so counting and folding go along with it.
* `Pool.FirstCome` says what a host sees of a pool that is only ever asked for keys. It holds of
  every new pool and every list of requests (`firstCome_replay`).
-/

namespace CorpusStats

namespace Pool

open Key

variable {ρ ι : Type} [Inhabited ρ] {p p' : Pool ρ}

/-! ### Rows of first requests -/

/-- After the requests `rs`, the slots belong to the keys that came first, and the row of a slot
shows the first request of its key. -/
structure Serves (key : ι → UInt64) (shows : ι → ρ → Prop) (p : Pool ρ)
    (rs : List ι) : Prop where
  numbers : p.Numbers (rs.map key)
  tidy : p.Tidy
  row_shows : ∀ (n : ℕ) k, (firstCome p.capacity (rs.map key))[n]? = some k →
    ∃ r row, rs.find? (fun r => storable (key r) = k) = some r ∧ p.row? n = some row ∧ shows r row

variable {name : ι → UInt64} {shows : ι → ρ → Prop} {rs : List ι} {r : ι}

theorem Blank.serves (h : p.Blank) (hnumbers : p.Numbers []) : Serves name shows p [] := by
  refine ⟨hnumbers, h.tidy, fun n k hn => ?_⟩
  rw [List.map_nil, firstCome_nil] at hn
  cases hn

/-- Requests that come when the pool is full are not the first of any number. -/
theorem Serves.append_of_full (h : Serves name shows p rs) (hfull : p.used = p.capacity)
    (more : List ι) : Serves name shows p (rs ++ more) := by
  have heq := firstCome_append_of_full (h.numbers.used_eq ▸ hfull) (more.map name)
  refine ⟨?_, h.tidy, fun n k hn => ?_⟩
  · rw [List.map_append]
    exact h.numbers.append_of_full hfull _
  · rw [List.map_append, heq] at hn
    obtain ⟨r, row, hr, hrow, hshow⟩ := h.row_shows n k hn
    exact ⟨r, row, by rw [List.find?_append, hr, Option.some_or], hrow, hshow⟩

/-- What a row shows may change with what is remembered of the requests. -/
theorem Serves.map (h : Serves name shows p rs) {f : ρ → ρ} (hmapped : Mapped p p' f) {g : ι → ι}
    (hname : ∀ r, name (g r) = name r) (hshows : ∀ r row, shows r row → shows (g r) (f row)) :
    Serves name shows p' (rs.map g) := by
  have hnames : (rs.map g).map name = rs.map name := by
    rw [List.map_map]
    exact List.map_congr_left fun r _ => hname r
  have hfind (k : UInt64) : (rs.map g).find? (fun r => storable (name r) = k)
      = (rs.find? fun r => storable (name r) = k).map g := by
    rw [List.find?_map]
    congr 2
    funext r
    simp only [Function.comp_apply, hname]
  refine ⟨?_, hmapped.tidy h.tidy, fun n k hn => ?_⟩
  · rw [hnames]
    exact h.numbers.congr hmapped.index_eq hmapped.capacity_eq hmapped.used_eq
  · rw [hnames, hmapped.capacity_eq] at hn
    obtain ⟨r, row, hr, hrow, hshow⟩ := h.row_shows n k hn
    have hlt : n < p.used := by
      rw [h.numbers.used_eq]
      exact (List.getElem?_eq_some_iff.mp hn).1
    refine ⟨g r, f row, by rw [hfind, hr, Option.map_some], ?_, hshows r row hshow⟩
    rw [← liveRows_getElem? (hmapped.used_eq ▸ hlt), hmapped.liveRows_eq, List.getElem?_map,
      liveRows_getElem? hlt, hrow, Option.map_some]

/-- Rows in use may change in what they do not show. -/
theorem Serves.modify (h : Serves name shows p rs) {slot : ℕ} (hslot : slot < p.used) {f : ρ → ρ}
    (hshows : ∀ r row, shows r row → shows r (f row)) : Serves name shows (p.modify slot f) rs := by
  refine ⟨h.numbers.congr rfl rfl rfl, tidy_modify h.tidy hslot f, fun n k hn => ?_⟩
  obtain ⟨r, row, hr, hrow, hshow⟩ := h.row_shows n k hn
  by_cases heq : slot = n
  · exact ⟨r, f row, hr, by rw [row?_modify, if_pos heq, hrow, Option.map_some], hshows r row hshow⟩
  · exact ⟨r, row, hr, by rw [row?_modify, if_neg heq, hrow], hshow⟩

/-- A request that finds its key or is refused leaves the rows, and comes too late for them. -/
theorem Serves.later (h : Serves name shows p rs) (hnumbers : p'.Numbers (rs.map name ++ [name r]))
    (hcapacity : p'.capacity = p.capacity) (hused : p'.used = p.used) (hrows : p'.rows = p.rows)
    (heq : firstCome p.capacity (rs.map name ++ [name r]) = firstCome p.capacity (rs.map name)) :
    Serves name shows p' (rs ++ [r]) := by
  have hrow? (n : ℕ) : p'.row? n = p.row? n := by rw [row?, hrows, row?]
  refine ⟨by simpa using hnumbers, fun n row hn hrow => ?_, fun n k hn => ?_⟩
  · exact h.tidy n row (hused ▸ hn) (by rwa [← hrow?])
  · rw [hcapacity, List.map_append, List.map_cons, List.map_nil, heq] at hn
    obtain ⟨r', row, hr, hrow, hshow⟩ := h.row_shows n k hn
    exact ⟨r', row, by rw [List.find?_append, hr, Option.some_or], by rw [hrow?, hrow], hshow⟩

/-- The next slot of a pool with room was never written. -/
theorem row?_used (htidy : p.Tidy) (hroom : p.used < p.capacity) : p.row? p.used = some default := by
  have hlt : p.used < p.rows.size := hroom.trans_eq p.rows_size.symm
  have hrow : p.row? p.used = some p.rows[p.used] := Array.getElem?_eq_getElem hlt
  rw [hrow, htidy p.used _ le_rfl hrow]

omit [Inhabited ρ] in
/-- No earlier request had a key that is new. -/
theorem find?_eq_none_of_new {room : ℕ} (hroom : (firstCome room (rs.map name)).length < room)
    {k : UInt64} (hnew : storable k ∉ firstCome room (rs.map name)) :
    rs.find? (fun r => storable (name r) = storable k) = none := by
  rw [List.find?_eq_none]
  intro r hr
  rw [decide_eq_true_iff]
  intro hkey
  refine hnew ((mem_firstCome_of_room hroom).mpr ?_)
  rw [← hkey]
  exact List.mem_map_of_mem (List.mem_map_of_mem hr)

/-- A request for a new key fills the next row. -/
theorem Serves.first (h : Serves name shows p rs)
    (hnew : storable (name r) ∉ firstCome p.capacity (rs.map name)) (hroom : p.used < p.capacity)
    {fill : ρ → ρ} (hfill : shows r (fill default))
    (hnumbers : p'.Numbers (rs.map name ++ [name r])) (hcapacity : p'.capacity = p.capacity)
    (hused : p'.used = p.used + 1) (hrows : p'.rows = p.rows.modify p.used fill) :
    Serves name shows p' (rs ++ [r]) := by
  have hroom' := h.numbers.used_lt_iff.mp hroom
  have hrow? (n : ℕ) : p'.row? n = if p.used = n then (p.row? n).map fill else p.row? n := by
    rw [row?, hrows, Array.getElem?_modify, row?]
  refine ⟨by simpa using hnumbers, fun n row hn hrow => ?_, fun n k hn => ?_⟩
  · rw [hrow?, if_neg (by omega)] at hrow
    exact h.tidy n row (by omega) hrow
  · rw [hcapacity, List.map_append, List.map_cons, List.map_nil,
      firstCome_concat_of_new hnew hroom'] at hn
    rw [hrow?]
    rcases getElem?_concat_cases hn with hn | ⟨rfl, rfl⟩
    · obtain ⟨r', row, hr, hrow, hshow⟩ := h.row_shows n k hn
      have hne : p.used ≠ n := by
        rw [h.numbers.used_eq]
        exact (List.getElem?_eq_some_iff.mp hn).1.ne'
      exact ⟨r', row, by rw [List.find?_append, hr, Option.some_or], by rw [if_neg hne, hrow],
        hshow⟩
    · rw [← h.numbers.used_eq]
      refine ⟨r, fill default, ?_, ?_, hfill⟩
      · rw [List.find?_append, find?_eq_none_of_new hroom' hnew, Option.none_or,
          List.find?_singleton, if_pos (decide_eq_true rfl)]
      · rw [if_pos rfl, row?_used h.tidy hroom, Option.map_some]

/-- Whatever a request does, the rows show the first requests. -/
theorem Serves.findOrCreate (h : Serves name shows p rs) {fill : ρ → ρ}
    (hfill : shows r (fill default)) :
    Serves name shows (Stage.outcome (Pool.findOrCreate (name r) fill) p).2 (rs ++ [r]) := by
  by_cases hmem : storable (name r) ∈ firstCome p.capacity (rs.map name)
  · obtain ⟨n, hn⟩ := List.mem_iff_getElem?.mp hmem
    obtain ⟨hrun, hnumbers⟩ := h.numbers.findOrCreate_of_mem hn fill
    rw [Stage.outcome_of_ok hrun]
    exact h.later hnumbers rfl rfl rfl (firstCome_concat_of_not_new (.inl hmem))
  · rcases p.used_le_capacity.lt_or_eq with hroom | hfull
    · obtain ⟨p', hrun, hnumbers, hcapacity, hused, hrows⟩ :=
        h.numbers.findOrCreate_of_room hmem hroom fill
      rw [Stage.outcome_of_ok hrun]
      exact h.first hmem hroom hfill hnumbers hcapacity hused hrows
    · obtain ⟨e, p', hrun, -, hnumbers, hcapacity, hused, hrows⟩ :=
        h.numbers.findOrCreate_of_full hmem hfull fill
      rw [Stage.outcome_of_error hrun]
      exact h.later hnumbers hcapacity hused hrows
        (firstCome_append_of_full (h.numbers.used_eq ▸ hfull) [name r])

/-- A pool that serves requests goes on to do so, and refuses one only when it is full. -/
theorem asks_findOrCreate (r : ι) (fill : ρ → ρ) (hfill : shows r (fill default)) :
    Stage.Asks (fun rs p => Serves name shows p rs) (Pool.findOrCreate (name r) fill) [r] := by
  intro before p h
  have hafter := h.findOrCreate hfill
  rcases h.numbers.findOrCreate (name r) fill with
    ⟨n, created, p', hrun, -⟩ | ⟨e, p', hrun, -, hfull, -, hcapacity, hused, -⟩
  · rw [Stage.outcome_of_ok hrun] at hafter
    rw [hrun]
    exact hafter
  · rw [Stage.outcome_of_error hrun] at hafter
    rw [hrun]
    exact hafter.append_of_full (by rw [hused, hcapacity, hfull])

/-! ### Requests -/

/-- What is asked of a pool: the slot of a key, whose row is filled if the key is new. -/
structure Request (ρ : Type) where
  key : UInt64
  fill : ρ → ρ

omit [Inhabited ρ] in
def serve (r : Request ρ) (p : Pool ρ) : Except Error (UInt32 × Bool) × Pool ρ :=
  Stage.outcome (Pool.findOrCreate r.key r.fill) p

/-- What a host sees of a pool of `room` slots after these requests and answers. The keys with a
slot are those of `firstCome`, whatever was asked, refused and asked again in between. -/
structure FirstCome (room : ℕ) (rs : List (Request ρ)) (answers : List (Except Error (UInt32 × Bool)))
    (p : Pool ρ) : Prop where
  /-- A key that has a slot is answered with it, and is new exactly on its first request. -/
  answer_of_mem : ∀ (i : ℕ) r n, rs[i]? = some r →
    (firstCome room (rs.map Request.key))[n]? = some (storable r.key) →
    ∃ slot created, answers[i]? = some (.ok (slot, created)) ∧ slot.toNat = n
      ∧ (created = true ↔ ∀ r' ∈ rs.take i, storable r'.key ≠ storable r.key)
  /-- A key without a slot is refused on every request. -/
  answer_of_notMem : ∀ (i : ℕ) r, rs[i]? = some r →
    storable r.key ∉ firstCome room (rs.map Request.key) →
    ∃ name capacity, answers[i]? = some (.error (.overflow name capacity))
  used_eq : p.used = (firstCome room (rs.map Request.key)).length
  /-- A row in use was filled once, by the first request of its key. -/
  row_eq : ∀ (n : ℕ) k, (firstCome room (rs.map Request.key))[n]? = some k →
    ∃ r, rs.find? (fun r => storable r.key = k) = some r ∧ p.row? n = some (r.fill default)
  /-- The other rows were not filled. -/
  row_eq_default : ∀ n row, (firstCome room (rs.map Request.key)).length ≤ n →
    p.row? n = some row → row = default
  lookup_iff : ∀ key slot, p.lookup key = some slot ↔
    (firstCome room (rs.map Request.key))[slot.toNat]? = some (storable key)

/-- Requests keep a pool serving: its rows are those of the first requests, filled. -/
theorem serves_replay (h : Serves Request.key (fun (r : Request ρ) row => row = r.fill default) p [])
    (rs : List (Request ρ)) :
    (replay serve rs p).2.capacity = p.capacity
      ∧ Serves Request.key (fun (r : Request ρ) row => row = r.fill default)
        (replay serve rs p).2 rs := by
  induction rs using List.reverseRecOn with
  | nil => exact ⟨rfl, h⟩
  | append_singleton rs r ih =>
    rw [state_replay_concat]
    refine ⟨?_, ih.2.findOrCreate rfl⟩
    exact (rows_findOrCreate _ r.key r.fill).1.trans ih.1

/-- The request in place `i` is made of the pool that serves the requests before. It is answered
with the number of its key among all requests, or refused because the key has none. -/
theorem answer_replay (h : Serves Request.key (fun (r : Request ρ) row => row = r.fill default) p [])
    {rs : List (Request ρ)} {i : ℕ} {r : Request ρ} (hr : rs[i]? = some r) :
    (∃ (n : ℕ) (created : Bool), (replay serve rs p).1[i]? = some (.ok (n.toUInt32, created))
        ∧ (firstCome p.capacity (rs.map Request.key))[n]? = some (storable r.key)
        ∧ (created = true ↔ ∀ r' ∈ rs.take i, storable r'.key ≠ storable r.key))
      ∨ ∃ e, (replay serve rs p).1[i]? = some (.error e) ∧ e.isOverflow = true
        ∧ storable r.key ∉ firstCome p.capacity (rs.map Request.key) := by
  have hkeys : rs.map Request.key = (rs.take i).map Request.key ++ [r.key]
      ++ (rs.drop (i + 1)).map Request.key := by
    conv_lhs => rw [← List.take_append_drop (i + 1) rs, List.take_add_one, hr]
    simp
  obtain ⟨hcapacity, hserves⟩ := serves_replay h (rs.take i)
  have hnumbers := hserves.numbers
  rw [getElem?_replay, hr, Option.map_some, serve, hkeys]
  rcases hnumbers.findOrCreate r.key r.fill with
    ⟨n, created, p', hrun, hn, hcreated, -, -⟩ | ⟨e, p', hrun, he, hfull, hnot, -, -, -⟩
  · rw [hcapacity] at hn
    refine .inl ⟨n, created, by rw [Stage.outcome_of_ok hrun], ?_, ?_⟩
    · exact getElem?_of_prefix (firstCome_grows _ _ _) hn
    · rw [hcreated]
      simp only [List.map_map, List.mem_map, Function.comp_apply, not_exists, not_and, ne_eq]
  · have hfull' := hnumbers.used_eq.symm.trans hfull
    rw [hcapacity] at hfull' hnot
    refine .inr ⟨e, by rw [Stage.outcome_of_error hrun], he, ?_⟩
    rwa [List.append_assoc, firstCome_append_of_full hfull']

/-- A new pool serves every list of requests, first come, first served. -/
theorem firstCome_replay {name : String} {capacity indexCapacity : ℕ}
    (hle : capacity ≤ maxPoolCapacity.toNat)
    (hnew : ofCapacity name capacity indexCapacity = .ok p) (rs : List (Request ρ)) :
    FirstCome capacity rs (replay serve rs p).1 (replay serve rs p).2 := by
  obtain ⟨hblank, rfl⟩ := blank_of_ofCapacity hnew
  have hstart : Serves Request.key (fun (r : Request ρ) row => row = r.fill default) p [] :=
    hblank.serves (numbers_of_ofCapacity hle hnew)
  obtain ⟨hcapacity, hserves⟩ := serves_replay hstart rs
  have hnumbers := hserves.numbers
  constructor
  case answer_of_mem =>
    intro i r n hr hn
    rcases answer_replay hstart hr with ⟨m, created, hok, hm, hcreated⟩ | ⟨e, -, -, hnot⟩
    · have hlt := (List.getElem?_eq_some_iff.mp hm).1
      have hmn : m = n := (List.getElem?_inj hlt (nodup_firstCome _ _)).mp (hm.trans hn.symm)
      refine ⟨m.toUInt32, created, hok, ?_, hcreated⟩
      rw [hmn, Index.toNat_toUInt32]
      exact (hmn ▸ hlt).trans_le ((length_firstCome_le _ _).trans hle)
    · exact absurd (List.mem_of_getElem? hn) hnot
  case answer_of_notMem =>
    intro i r hr hnot
    rcases answer_replay hstart hr with ⟨m, created, -, hm, -⟩ | ⟨e, herror, he, -⟩
    · exact absurd (List.mem_of_getElem? hm) hnot
    · obtain ⟨name, n, rfl⟩ := (Error.isOverflow_iff e).mp he
      exact ⟨name, n, herror⟩
  case used_eq => rw [hnumbers.used_eq, hcapacity]
  case row_eq =>
    intro n k hn
    obtain ⟨r, row, hr, hrow, rfl⟩ := hserves.row_shows n k (by rwa [hcapacity])
    exact ⟨r, hr, hrow⟩
  case row_eq_default =>
    intro n row hn
    exact hserves.tidy n row (by rwa [hnumbers.used_eq, hcapacity])
  case lookup_iff =>
    intro key slot
    rw [hnumbers.lookup_eq_some_iff, hcapacity]

end Pool

end CorpusStats
