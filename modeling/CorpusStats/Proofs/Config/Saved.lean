import CorpusStats.Config.Text
import CorpusStats.Proofs.Json.Printed
/-!
# CorpusStats.Proofs.Config.Saved

Configurations that were saved are loaded again (`Config.load_of_save`).

A configuration is written as a record of records, each field under its name, and read by the same
names. Reading the fields of a record in the order in which they were written gives the values that
were written (`Value.fields?_ofFields`), and every kind of field reads its own printing: numbers in
decimal (`Value.word64?_ofNat`, `Value.word32?_ofNat`) and policies by name
(`LocatorPolicy.ofJson?_name`). What is left is the check, which loading makes and saving does not.
-/

namespace CorpusStats

open Json (Value IsPlain)

namespace Json

/-! ### Strings and numbers -/

theorem pieces?_plain {body : List Char} (hbody : ∀ c ∈ body, IsPlain c) :
    pieces? body = some (body.map .char) := by
  induction body with
  | nil => rfl
  | cons c body ih =>
    obtain ⟨⟨-, hslash, -⟩, hbody⟩ := List.forall_mem_cons.1 hbody
    rw [pieces?, ih hbody] <;> simp_all

theorem joinPieces?_chars (body : List Char) : joinPieces? (body.map .char) = some body := by
  induction body with
  | nil => rfl
  | cons c body ih => simp [joinPieces?, ih]

/-- A text without escapes stands for itself. -/
theorem unescape?_plain {text : String} (htext : ∀ c ∈ text.toList, IsPlain c) :
    unescape? text.toList = some text := by
  simp [unescape?, pieces?_plain htext, joinPieces?_chars]

namespace Value

theorem natBelow?_ofNat {n limit : ℕ} (hn : n < limit) : (ofNat n).natBelow? limit = some n := by
  have hdigits : (Nat.toDigits 10 n).all Char.isDigit := by
    rw [List.all_eq_true]
    exact fun c hc => Nat.isDigit_of_mem_toDigits (by decide) (by decide) hc
  rw [ofNat, natBelow?, Nat.ofDigitChars_ten_toDigits, if_pos ⟨hdigits, hn⟩]

@[simp] theorem word64?_ofNat (w : UInt64) : (ofNat w.toNat).word64? = some w := by
  simp [word64?, natBelow?_ofNat w.toNat_lt_size]

@[simp] theorem word32?_ofNat (w : UInt32) : (ofNat w.toNat).word32? = some w := by
  simp [word32?, natBelow?_ofNat w.toNat_lt_size]

/-! ### Records -/

/-- A record of plain names, each of them once. -/
def PlainNames (names : List String) : Prop :=
  names.Nodup ∧ ∀ name ∈ names, ∀ c ∈ name.toList, IsPlain c

theorem mapM_eq_some {ι β : Type} {items : List ι} {f : ι → Option β} {g : ι → β}
    (h : ∀ item ∈ items, f item = some (g item)) : items.mapM f = some (items.map g) := by
  induction items with
  | nil => rfl
  | cons item items ih =>
    obtain ⟨hitem, hitems⟩ := List.forall_mem_cons.1 h
    simp [List.mapM_cons, hitem, ih hitems]

/-- A name that occurs once finds its own field. -/
theorem filter_name {fields : List (String × Value)} (hnames : (fields.map Prod.fst).Nodup)
    {field : String × Value} (hfield : field ∈ fields) :
    fields.filter (·.1 = field.1) = [field] := by
  induction fields with
  | nil => simp at hfield
  | cons first fields ih =>
    obtain ⟨hfirst, hnames⟩ := List.nodup_cons.1 (List.map_cons ▸ hnames)
    have hnone : ∀ other ∈ fields, other.1 ≠ first.1 := fun other hother heq =>
      hfirst (heq ▸ List.mem_map_of_mem hother)
    rcases List.mem_cons.1 hfield with rfl | hmem
    · simpa [List.filter_eq_nil_iff] using hnone
    · rw [List.filter_cons_of_neg (by simpa using (hnone field hmem).symm), ih hnames hmem]

variable {names : List String} {fields : List (String × Value)}

/-- The fields of a record are read in the order in which they were written. -/
theorem fields?_ofFields (hplain : PlainNames names) (hnames : fields.map Prod.fst = names) :
    (ofFields fields).fields? names = some (fields.map Prod.snd) := by
  subst hnames
  have hnamed : (fields.map fun field => (field.1.toList, field.2)).mapM
      (fun member => do return (← unescape? member.1, member.2)) = some fields := by
    rw [List.mapM_map, mapM_eq_some (g := id), List.map_id]
    intro field hfield
    simp [unescape?_plain (hplain.2 _ (List.mem_map_of_mem hfield))]
  rw [ofFields, fields?, hnamed, Option.bind_eq_bind, Option.bind_some, List.mapM_map]
  refine mapM_eq_some fun field hfield => ?_
  simp [filter_name hplain.1 hfield]

theorem plain_ofFields (hplain : PlainNames names) (hnames : fields.map Prod.fst = names)
    (hvalues : ∀ field ∈ fields, field.2.Plain) : (ofFields fields).Plain := by
  subst hnames
  refine .object ?_ ?_ <;> intro member hmember
  all_goals obtain ⟨field, hfield, rfl⟩ := List.mem_map.1 hmember
  · exact hplain.2 _ (List.mem_map_of_mem hfield)
  · exact hvalues field hfield

end Value

end Json

namespace LocatorPolicy

theorem isPlain_name (p : LocatorPolicy) : ∀ c ∈ p.name.toList, IsPlain c := by
  cases p <;> simp [name, IsPlain]

@[simp] theorem ofJson?_name (p : LocatorPolicy) : ofJson? (.ofPlain p.name) = some p := by
  simp [ofJson?, Value.ofPlain, Json.unescape?_plain p.isPlain_name]

end LocatorPolicy

/-! ### The two records -/

namespace Capacities

theorem plainNames : Value.PlainNames ["word_pool", "word_index", "pair_pool", "pair_index",
    "section_pool", "section_index", "disjunct_index", "candidate_pool", "candidate_index"] := by
  simp [Value.PlainNames, IsPlain]

theorem plain_toJson (c : Capacities) : c.toJson.Plain :=
  Value.plain_ofFields plainNames rfl (by simp [Value.Plain.number])

@[simp] theorem ofJson?_toJson (c : Capacities) : ofJson? c.toJson = some c := by
  rw [ofJson?, toJson, Value.fields?_ofFields plainNames rfl]
  simp

end Capacities

namespace ComputeSettings

theorem plainNames : Value.PlainNames
    ["threads", "counting_strategy", "binary_search_threshold", "window"] := by
  simp [Value.PlainNames, IsPlain]

theorem plain_toJson (c : ComputeSettings) : c.toJson.Plain :=
  Value.plain_ofFields plainNames rfl
    (by simp [Value.Plain.number, Value.ofPlain, Value.Plain.string c.policy.isPlain_name])

@[simp] theorem ofJson?_toJson (c : ComputeSettings) : ofJson? c.toJson = some c := by
  rw [ofJson?, toJson, Value.fields?_ofFields plainNames rfl]
  simp

end ComputeSettings

namespace Config

theorem plainNames : Value.PlainNames ["capacity", "compute"] := by
  simp [Value.PlainNames, IsPlain]

theorem plain_toJson (c : Config) : c.toJson.Plain :=
  Value.plain_ofFields plainNames rfl
    (by simp [c.capacities.plain_toJson, c.compute.plain_toJson])

@[simp] theorem ofJson?_toJson (c : Config) : ofJson? c.toJson = some c := by
  rw [ofJson?, toJson, Value.fields?_ofFields plainNames rfl]
  simp

/-- The text of a configuration gives the configuration, whether or not it can be used. -/
theorem ofText?_toText (c : Config) : ofText? c.toText = some c := by
  simp [ofText?, toText, c.plain_toJson.ofText_toText]

/-- Loading what was saved checks the configuration and does nothing else. -/
theorem load_toText (c : Config) : load (.ok c.toText) = c.validate.map fun _ => c := by
  rw [load, ofText?_toText]
  change (c.validate >>= fun _ => pure c) = c.validate.map fun _ => c
  cases c.validate <;> rfl

theorem exists_config_of_validate {c : Config} {err : Error} (h : c.validate = .error err) :
    ∃ fault, err = .config fault := by
  unfold validate at h
  split at h
  · cases h
  · exact ⟨_, (Except.error.inj h).symm⟩

/-- **A configuration that was saved is loaded again, if it can be used.** Saving writes one text,
and fails only if the writing does. From that text, loading gives the configuration back in every
field if its check accepts it, and fails with the fault that the check reports otherwise. -/
theorem load_of_save (c : Config) : ∃ text,
    (∀ write, c.save write = (write text).mapError .io) ∧
    (c.validate = .ok () → load (.ok text) = .ok c) ∧
    (∀ err, c.validate = .error err →
      load (.ok text) = .error err ∧ ∃ fault, err = .config fault) := by
  refine ⟨c.toText, fun write => rfl, ?_, ?_⟩
  · intro hvalid
    rw [load_toText, hvalid, Except.map]
  · intro err hfault
    refine ⟨?_, exists_config_of_validate hfault⟩
    rw [load_toText, hfault, Except.map]

end Config

end CorpusStats
