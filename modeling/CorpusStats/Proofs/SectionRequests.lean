import CorpusStats.Proofs.Batch.Sections
import CorpusStats.Proofs.Checks
import CorpusStats.Proofs.Key
import CorpusStats.Proofs.Lift
import CorpusStats.Proofs.Serving
/-!
# CorpusStats.Proofs.SectionRequests

Which section a slot holds.

* A section is found through its key alone, and its row is filled by the first request of that
  key. A later request of the same key is answered with the same slot, whatever it asked for.
* Folding moves the word of a row and not its key. `SectionRequest.now` follows the word of a
  request through the folds, so that the row of a slot keeps showing its first request
  (`SectionPool.Records`).

Each stage of the sections is one step of that: looking up and extracting ask for sections
(`Stage.Asks`), folding moves the words of all requests, counting and loading change nothing
that a row shows. What a host may rely on when it looks sections up is `SectionPool.Served`.
-/

namespace CorpusStats

open Stage

variable {α β : Type}

/-- A request for the section of a word and a disjunct. -/
structure SectionRequest where
  word : UInt32
  disjunct : UInt64
  /-- The word after all folds since. -/
  now : UInt32
  deriving Repr, DecidableEq

namespace SectionRequest

def new (wanted : UInt32 × UInt64) : SectionRequest := ⟨wanted.1, wanted.2, wanted.1⟩

def key (r : SectionRequest) : UInt64 := Key.ofSection r.word r.disjunct

/-- The request after its word was folded. -/
def fold (words : WordPool α) (r : SectionRequest) : SectionRequest :=
  { r with now := WordPool.classOf words r.now }

/-- What a row keeps of the request that filled it. -/
def Shown (r : SectionRequest) (row : SectionRow α) : Prop :=
  row.word = r.now ∧ row.disjunct = r.disjunct

end SectionRequest

open SectionRequest

namespace SectionPool

variable [Weight α] {sections sections' : SectionPool α} {rs : List SectionRequest}

/-- The rows of sections show the first requests of their keys. -/
def Records (rs : List SectionRequest) (sections : SectionPool α) : Prop :=
  Pool.Serves key Shown sections rs

/-! ### Steps -/

theorem asks_slotOf (word : UInt32) (disjunct : UInt64) :
    Asks Records (slotOf word disjunct : Stage (SectionPool α) _) [new (word, disjunct)] :=
  Pool.asks_findOrCreate (new (word, disjunct)) (fun row : SectionRow α => { row with word, disjunct })
    ⟨rfl, rfl⟩

/-- Counts are not shown. -/
theorem Records.modify_count (h : Records rs sections) {slot : ℕ} (hslot : slot < sections.used)
    (count : SectionRow α → α) :
    Records rs (sections.modify slot fun row => { row with count := count row }) :=
  Pool.Serves.modify h hslot fun _ _ hrow => hrow

theorem keeps_records_observeSlot (slot : UInt32) :
    Keeps (Records (α := α) rs) (observeSlot slot) :=
  (writes_observeSlot slot).keeps fun _ _ hslot h => h.modify_count hslot fun row => row.count + 1

theorem keeps_records_loadCount (slot : UInt32) (count : α) :
    Keeps (Records (α := α) rs) (loadCount slot count) :=
  (writes_loadCount slot count).keeps fun _ _ hslot h => h.modify_count hslot fun _ => count

/-- Extracting a position asks for the section of the position, if it has one. -/
theorem asks_extractPosition {b : Parses} {i : ℕ} (hi : i < b.sentences.totalWords)
    (locator : Locator) :
    Asks Records (extractPosition b locator i : Stage (SectionPool α) _)
      ((b.sectionAt? locator i).toList.map new) := by
  rw [extractPosition_eq hi]
  cases b.sectionAt? locator i with
  | none => exact .pure none
  | some wanted =>
    obtain ⟨word, disjunct⟩ := wanted
    refine (asks_slotOf word disjunct).bind_of
      (Q := fun found rs sections => Records rs sections ∧ found.1.toNat < sections.used)
      (fun before s found s' hs hfound => ?_) fun found before s hs => ?_
    · obtain ⟨slot, created⟩ := found
      exact ⟨(asks_slotOf word disjunct).ok hs hfound, hs.numbers.lt_used hfound⟩
    · exact ⟨_, _, rfl, hs.1.modify_count hs.2 fun row => row.count + 1⟩

/-! ### Stages -/

omit [Weight α] in
/-- Lists of one length are looked up place by place. -/
theorem slotsOf_eq {words : List UInt32} {disjuncts : List UInt64}
    (hlength : words.length = disjuncts.length) :
    (slotsOf words disjuncts : Stage (Logged (SectionPool α)) (List UInt32))
      = dispatch (words.zip disjuncts) fun wanted => Prod.fst <$> slotOf wanted.1 wanted.2 := by
  unfold slotsOf checkLengths
  rw [if_pos hlength]
  rfl

/-- Looking sections up asks for all of them. -/
theorem records_slotsOf {words : List UInt32} {disjuncts : List UInt64}
    (hlength : words.length = disjuncts.length) {s : Logged (SectionPool α)}
    (h : Records rs s.state) :
    Records (rs ++ (words.zip disjuncts).map new)
      (outcome (slotsOf words disjuncts) s).2.state := by
  rw [slotsOf_eq hlength, List.map_eq_flatMap]
  exact Asks.dispatch (fun wanted _ => (asks_slotOf wanted.1 wanted.2).map) h

/-- Extracting from a batch asks for the sections of the batch. -/
theorem records_extract (b : Parses) (locator : Locator) {s : Logged (SectionPool α)}
    (h : Records rs s.state) :
    Records (rs ++ b.sections.map new) (outcome (extract b locator) s).2.state := by
  have hask := Asks.dispatch (fun i hi => asks_extractPosition (b := b) (List.mem_range.mp hi)
    locator) h
  rw [← List.map_flatMap, ← List.filterMap_eq_flatMap_toList, b.filterMap_sectionAt?] at hask
  unfold extract
  rw [bind_pure_comp, outcome_map]
  exact hask

theorem keeps_records_countSlots (slots : List UInt32) :
    Keeps (fun s : Logged (SectionPool α) => Records rs s.state) (countSlots slots) :=
  .bind (.dispatch fun slot _ => keeps_records_observeSlot slot) fun _ => .pure _

/-- Folding moves the words of the rows and those of the requests. -/
theorem records_foldWords (words : WordPool α) {s : Logged (SectionPool α)}
    (h : Records rs s.state) :
    Records (rs.map (fold words)) (foldWords words s).2.state := by
  obtain ⟨sections, log⟩ := s
  refine Pool.Serves.map h (sections.mapped_foldl_modify _) (fun r => rfl) fun r row hrow => ?_
  exact ⟨congrArg (WordPool.classOf words) hrow.1, hrow.2⟩

theorem records_reset (h : Records rs sections) : Records [] sections.reset :=
  Pool.Blank.serves sections.blank_reset h.numbers.reset

/-! ### What is answered -/

/-- What a host sees of sections that it asked for, after the requests `asked`. -/
structure Served (asked : List SectionRequest) (wanted : List (UInt32 × UInt64))
    (slots : List UInt32) (sections : SectionPool α) : Prop where
  length_eq : slots.length = wanted.length
  /-- The row of a slot shows the first request of its key: the disjunct of the request, and its
  word after all folds since. -/
  row_eq : ∀ (i : ℕ) word disjunct slot, wanted[i]? = some (word, disjunct) → slots[i]? = some slot →
    slot.toNat < sections.used
      ∧ ∃ r row, asked.find? (fun r => r.key = Key.ofSection word disjunct) = some r
        ∧ sections.row? slot.toNat = some row ∧ row.word = r.now ∧ row.disjunct = r.disjunct
  /-- It is the section that was asked for, if no other section was asked for under its key and
  its word is where it was. -/
  row_eq_of_forall : ∀ (i : ℕ) word disjunct slot, wanted[i]? = some (word, disjunct) →
    slots[i]? = some slot →
    (∀ r ∈ asked, r.key = Key.ofSection word disjunct → r.now = word ∧ r.disjunct = disjunct) →
    ∃ row, sections.row? slot.toNat = some row ∧ row.word = word ∧ row.disjunct = disjunct
  /-- Requests share a slot exactly if they share a key. -/
  slot_eq_iff : ∀ (i j : ℕ) word disjunct slot word' disjunct' slot',
    wanted[i]? = some (word, disjunct) → slots[i]? = some slot →
    wanted[j]? = some (word', disjunct') → slots[j]? = some slot' →
    (slot = slot' ↔ Key.ofSection word disjunct = Key.ofSection word' disjunct')
  /-- Requests that agree in the word or in the disjunct share a slot exactly if they agree in
  both, unless the key is `0`. -/
  slot_eq_iff_of_agree : ∀ (i j : ℕ) word disjunct slot word' disjunct' slot',
    wanted[i]? = some (word, disjunct) → slots[i]? = some slot →
    wanted[j]? = some (word', disjunct') → slots[j]? = some slot' →
    Key.ofSection word disjunct ≠ 0 → word = word' ∨ disjunct = disjunct' →
    (slot = slot' ↔ word = word' ∧ disjunct = disjunct')

/-- The slot with the number of a key holds the section of the first request of the key. -/
theorem Records.row_eq (h : Records rs sections) {n : ℕ} {word : UInt32} {disjunct : UInt64}
    (hn : (Key.firstCome sections.capacity (rs.map key))[n]?
      = some (Key.ofSection word disjunct)) :
    n < sections.used
      ∧ ∃ r row, rs.find? (fun r => r.key = Key.ofSection word disjunct) = some r
        ∧ sections.row? n = some row ∧ row.word = r.now ∧ row.disjunct = r.disjunct := by
  obtain ⟨r, row, hr, hrow, hword, hdisjunct⟩ := h.row_shows n _ hn
  simp only [key, Key.storable_ofSection] at hr
  refine ⟨?_, r, row, hr, hrow, hword, hdisjunct⟩
  rw [h.numbers.used_eq]
  exact (List.getElem?_eq_some_iff.mp hn).1

/-- Every row in use shows a request of the key that its slot is the number of. -/
theorem Records.exists_request (h : Records rs sections) {n : ℕ} {row : SectionRow α}
    (hrow : sections.liveRows[n]? = some row) :
    ∃ r ∈ rs, (Key.firstCome sections.capacity (rs.map key))[n]? = some r.key ∧ Shown r row := by
  have hlt := Pool.lt_used_of_liveRows hrow
  rw [h.numbers.used_eq] at hlt
  obtain ⟨r, row', hr, hrow', hshown⟩ := h.row_shows n _ (List.getElem?_eq_getElem hlt)
  obtain rfl : row' = row := Option.some.inj (hrow'.symm.trans (Pool.row?_of_liveRows hrow))
  have hkey := List.find?_some hr
  rw [decide_eq_true_iff] at hkey
  refine ⟨r, List.mem_of_find?_eq_some hr, ?_, hshown⟩
  rw [List.getElem?_eq_getElem hlt, ← hkey, key, Key.storable_ofSection]

/-- Slots with the numbers of their keys hold what a host may rely on. -/
theorem Records.served (h : Records rs sections) {wanted : List (UInt32 × UInt64)}
    {slots : List UInt32}
    (hnumbers : List.Forall₂ (fun (wanted : UInt32 × UInt64) (slot : UInt32) =>
      (Key.firstCome sections.capacity (rs.map key))[slot.toNat]?
        = some (Key.ofSection wanted.1 wanted.2)) wanted slots) :
    Served rs wanted slots sections := by
  have hrank {i : ℕ} {word : UInt32} {disjunct : UInt64} {slot : UInt32}
      (hwanted : wanted[i]? = some (word, disjunct)) (hslot : slots[i]? = some slot) :
      (Key.firstCome sections.capacity (rs.map key))[slot.toNat]?
        = some (Key.ofSection word disjunct) := by
    obtain ⟨hi, hwanted⟩ := List.getElem?_eq_some_iff.mp hwanted
    obtain ⟨hi', hslot⟩ := List.getElem?_eq_some_iff.mp hslot
    have hget := hnumbers.get hi hi'
    rwa [List.get_eq_getElem, List.get_eq_getElem, hwanted, hslot] at hget
  have hshare {i j : ℕ} {word word' : UInt32} {disjunct disjunct' : UInt64} {slot slot' : UInt32}
      (hwanted : wanted[i]? = some (word, disjunct)) (hslot : slots[i]? = some slot)
      (hwanted' : wanted[j]? = some (word', disjunct')) (hslot' : slots[j]? = some slot') :
      slot = slot' ↔ Key.ofSection word disjunct = Key.ofSection word' disjunct' := by
    have hi := hrank hwanted hslot
    have hj := hrank hwanted' hslot'
    constructor
    · rintro rfl
      exact Option.some.inj (hi.symm.trans hj)
    · intro hkey
      rw [← hkey] at hj
      have hlt := (List.getElem?_eq_some_iff.mp hi).1
      have hnat := (List.getElem?_inj hlt (Key.nodup_firstCome _ _)).mp (hi.trans hj.symm)
      exact UInt32.toNat_inj.mp hnat
  constructor
  case length_eq => exact hnumbers.length_eq.symm
  case row_eq => exact fun i word disjunct slot hwanted hslot => h.row_eq (hrank hwanted hslot)
  case row_eq_of_forall =>
    intro i word disjunct slot hwanted hslot hall
    obtain ⟨-, r, row, hr, hrow, hword, hdisjunct⟩ := h.row_eq (hrank hwanted hslot)
    have hkey : r.key = Key.ofSection word disjunct := by simpa using List.find?_some hr
    obtain ⟨hnow, heq⟩ := hall r (List.mem_of_find?_eq_some hr) hkey
    exact ⟨row, hrow, hword.trans hnow, hdisjunct.trans heq⟩
  case slot_eq_iff =>
    exact fun i j _ _ _ _ _ _ hwanted hslot hwanted' hslot' =>
      hshare hwanted hslot hwanted' hslot'
  case slot_eq_iff_of_agree =>
    intro i j _ _ _ _ _ _ hwanted hslot hwanted' hslot' hne hagree
    rw [hshare hwanted hslot hwanted' hslot', Key.ofSection_eq_iff hne hagree]

/-- Looking sections up, if it succeeds, answers the slots of their first requests. -/
theorem served_of_slotsOf {words : List UInt32} {disjuncts : List UInt64}
    {s s' : Logged (SectionPool α)} {slots : List UInt32} (h : Records rs s.state)
    (hrun : slotsOf words disjuncts s = .ok slots s') :
    words.length = disjuncts.length
      ∧ Served (rs ++ (words.zip disjuncts).map new) (words.zip disjuncts) slots s'.state := by
  have hlength : words.length = disjuncts.length := by
    by_contra hne
    unfold slotsOf checkLengths at hrun
    rw [if_neg hne] at hrun
    cases hrun
  have hrecords := records_slotsOf hlength h
  rw [outcome_of_ok hrun] at hrecords
  refine ⟨hlength, hrecords.served ?_⟩
  rw [slotsOf_eq hlength] at hrun
  obtain ⟨hloop, -⟩ := dispatch_eq_ok_iff.mp hrun
  obtain ⟨hcapacity, -, hall⟩ := h.numbers.mapM_eq_ok hloop
  rw [hcapacity, List.map_append, List.map_map]
  exact hall.imp fun wanted slot hslot => by rwa [Key.storable_ofSection] at hslot

end SectionPool

end CorpusStats
