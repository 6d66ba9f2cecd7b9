import CorpusStats.Proofs.Json.Scanned
/-!
# CorpusStats.Proofs.Json.Printed

Printed values are read back (`Value.ofText_toText`), in the two steps of reading.

* The text of a value is cut into the tokens of the value (`Value.tokens`), wherever the value
  stands in a larger text (`Value.Plain.ofText_print`). Indentation leaves no trace in the tokens.
* The tokens of a value are parsed into the value, whatever follows them (`Value.parse_tokens`).

Both are inductions over the value. A **plain** value has decimal spellings for its numbers and
strings that need no escapes; those are the ones that `Value.ofNat`, `Value.ofPlain` and
`Value.ofFields` make.
-/

namespace CorpusStats.Json

namespace Value

/-- Induction over a value by its items and by the values of its members. -/
@[elab_as_elim]
theorem nested_induction {motive : Value → Prop} (null : motive null)
    (bool : ∀ value, motive (bool value)) (number : ∀ spelling, motive (number spelling))
    (string : ∀ body, motive (string body))
    (array : ∀ items, (∀ item ∈ items, motive item) → motive (array items))
    (object : ∀ members, (∀ member ∈ members, motive member.2) → motive (object members))
    (v : Value) : motive v :=
  @Value.rec motive (fun items => ∀ item ∈ items, motive item)
    (fun members => ∀ member ∈ members, motive member.2) (fun member => motive member.2)
    null bool number string array object
    (by simp) (fun _ _ h hs => List.forall_mem_cons.2 ⟨h, hs⟩)
    (by simp) (fun _ _ h hs => List.forall_mem_cons.2 ⟨h, hs⟩) (fun _ _ h => h) v

/-! ### The tokens of a value -/

mutual

/-- The tokens of a value. -/
def tokens : Value → List Token
  | null => [.null]
  | bool value => [.bool value]
  | number spelling => [.number spelling]
  | string body => [.string body]
  | array [] => [.openBracket, .closeBracket]
  | array (item :: items) =>
    .openBracket :: item.tokens ++ tokensOfItems items ++ [.closeBracket]
  | object [] => [.openBrace, .closeBrace]
  | object ((key, value) :: members) =>
    .openBrace :: .string key :: .colon :: value.tokens ++ tokensOfMembers members ++ [.closeBrace]

/-- The tokens of the items after the first. -/
def tokensOfItems : List Value → List Token
  | [] => []
  | item :: items => .comma :: item.tokens ++ tokensOfItems items

/-- The tokens of the members after the first. -/
def tokensOfMembers : List (List Char × Value) → List Token
  | [] => []
  | (key, value) :: members =>
    .comma :: .string key :: .colon :: value.tokens ++ tokensOfMembers members

end

/-- Numbers in decimal spelling and strings without escapes, all the way down. -/
inductive Plain : Value → Prop
  | null : Plain null
  | bool (value : Bool) : Plain (bool value)
  | number (n : ℕ) : Plain (ofNat n)
  | string {body : List Char} (hbody : ∀ c ∈ body, IsPlain c) : Plain (string body)
  | array {items : List Value} (hitems : ∀ item ∈ items, Plain item) : Plain (array items)
  | object {members : List (List Char × Value)}
      (hkeys : ∀ member ∈ members, ∀ c ∈ member.1, IsPlain c)
      (hvalues : ∀ member ∈ members, Plain member.2) : Plain (object members)

/-! ### Scanning -/

/-- The text of a value is cut into the tokens of the value, wherever it stands. -/
def Scans (v : Value) : Prop :=
  ∀ depth rest tokens, Ends rest → Token.ofText rest = some tokens →
    Token.ofText (v.print depth ++ rest) = some (v.tokens ++ tokens)

theorem ends_printItems (depth : ℕ) (items : List Value) {rest : List Char} (hrest : Ends rest) :
    Ends (printItems depth items ++ rest) := by
  cases items <;> simp [printItems, hrest]

theorem ends_printMembers (depth : ℕ) (members : List (List Char × Value)) {rest : List Char}
    (hrest : Ends rest) : Ends (printMembers depth members ++ rest) := by
  cases members <;> simp [printMembers, hrest]

theorem ofText_printItems {items : List Value} (hitems : ∀ item ∈ items, item.Scans) (depth : ℕ)
    {rest : List Char} {tokens : List Token} (hends : Ends rest)
    (hrest : Token.ofText rest = some tokens) :
    Token.ofText (printItems depth items ++ rest) = some (tokensOfItems items ++ tokens) := by
  induction items with
  | nil => simpa [printItems, tokensOfItems] using hrest
  | cons item items ih =>
    obtain ⟨hitem, hitems⟩ := List.forall_mem_cons.1 hitems
    have hscan := hitem depth _ _ (ends_printItems depth items hends) (ih hitems)
    simp [printItems, tokensOfItems, hscan]

theorem ofText_member {key : List Char} {value : Value} (hkey : ∀ c ∈ key, IsPlain c)
    (hvalue : value.Scans) (depth : ℕ) {rest : List Char} {tokens : List Token} (hends : Ends rest)
    (hrest : Token.ofText rest = some tokens) :
    Token.ofText ('"' :: (key ++ '"' :: ':' :: ' ' :: (value.print depth ++ rest))) =
      some (.string key :: .colon :: (value.tokens ++ tokens)) :=
  Token.ofText_plain hkey (by simp [hvalue depth _ _ hends hrest])

theorem ofText_printMembers {members : List (List Char × Value)}
    (hkeys : ∀ member ∈ members, ∀ c ∈ member.1, IsPlain c)
    (hvalues : ∀ member ∈ members, member.2.Scans) (depth : ℕ)
    {rest : List Char} {tokens : List Token} (hends : Ends rest)
    (hrest : Token.ofText rest = some tokens) :
    Token.ofText (printMembers depth members ++ rest) = some (tokensOfMembers members ++ tokens) := by
  induction members with
  | nil => simpa [printMembers, tokensOfMembers] using hrest
  | cons member members ih =>
    obtain ⟨hkey, hkeys⟩ := List.forall_mem_cons.1 hkeys
    obtain ⟨hvalue, hvalues⟩ := List.forall_mem_cons.1 hvalues
    have hscan := ofText_member hkey hvalue depth (ends_printMembers depth members hends)
      (ih hkeys hvalues)
    simp [printMembers, tokensOfMembers, hscan]

theorem Plain.scans {v : Value} (hv : v.Plain) : v.Scans := by
  induction hv with
  | null => exact fun depth rest tokens _ hrest => Token.ofText_append (by decide) rfl hrest
  | bool value =>
    cases value <;>
      exact fun depth rest tokens _ hrest => Token.ofText_append (by decide) rfl hrest
  | number n => exact fun depth rest tokens hends hrest => Token.ofText_toDigits n hends hrest
  | string hbody =>
    intro depth rest tokens _ hrest
    simpa [print, Value.tokens] using Token.ofText_plain hbody hrest
  | @array items _ ih =>
    intro depth rest tokens _ hrest
    cases items with
    | nil => simp [print, Value.tokens, hrest]
    | cons item items =>
      obtain ⟨hitem, hitems⟩ := List.forall_mem_cons.1 ih
      have hclose : Token.ofText ('\n' :: (indent depth ++ ']' :: rest)) =
          some (.closeBracket :: tokens) := by simp [hrest]
      have hmore := ofText_printItems hitems (depth + 1) (by simp) hclose
      have hscan := hitem (depth + 1) _ _ (ends_printItems _ _ (by simp)) hmore
      simp [print, Value.tokens, hscan]
  | @object members hkeys _ ih =>
    intro depth rest tokens _ hrest
    cases members with
    | nil => simp [print, Value.tokens, hrest]
    | cons member members =>
      obtain ⟨hkey, hkeys⟩ := List.forall_mem_cons.1 hkeys
      obtain ⟨hvalue, hvalues⟩ := List.forall_mem_cons.1 ih
      have hclose : Token.ofText ('\n' :: (indent depth ++ '\x7d' :: rest)) =
          some (.closeBrace :: tokens) := by simp [hrest]
      have hmore := ofText_printMembers hkeys hvalues (depth + 1) (by simp) hclose
      have hscan := ofText_member hkey hvalue (depth + 1) (ends_printMembers _ _ (by simp)) hmore
      simp [print, Value.tokens, hscan]

/-! ### Parsing -/

/-- No value starts with the end of an array. -/
theorem head_tokens (v : Value) : ∀ rest, (v.tokens ++ rest).head? ≠ some .closeBracket := by
  intro rest
  fun_cases tokens v <;> simp

theorem parse_openBracket {fuel : ℕ} {tokens : List Token}
    (hopen : tokens.head? ≠ some .closeBracket) :
    parse (fuel + 1) (.openBracket :: tokens) =
      (parseItems fuel tokens).map fun (items, rest) => (array items, rest) := by
  rw [parse]
  rintro rest rfl
  simp at hopen

/-- The tokens of a value are parsed into the value. Of the calls inside each other, one in two
consumes a token, so two units of fuel per token are enough. -/
def Parses (v : Value) : Prop :=
  ∀ fuel rest, 2 * v.tokens.length ≤ fuel → parse fuel (v.tokens ++ rest) = some (v, rest)

theorem parses_of_succ {v : Value}
    (h : ∀ fuel rest, 2 * v.tokens.length ≤ fuel + 1 →
      parse (fuel + 1) (v.tokens ++ rest) = some (v, rest)) : v.Parses := by
  intro fuel rest hfuel
  cases fuel with
  | zero => fun_cases tokens v <;> simp [tokens] at hfuel
  | succ fuel => exact h fuel rest hfuel

theorem parseItems_tokens {item : Value} {items : List Value} (hitem : item.Parses)
    (hitems : ∀ item ∈ items, item.Parses) (rest : List Token) {fuel : ℕ}
    (hfuel : 2 * (item.tokens.length + (tokensOfItems items).length) < fuel) :
    parseItems fuel (item.tokens ++ (tokensOfItems items ++ .closeBracket :: rest)) =
      some (item :: items, rest) := by
  obtain ⟨fuel, rfl⟩ : ∃ less, fuel = less + 1 := ⟨fuel - 1, by omega⟩
  induction items generalizing item fuel with
  | nil =>
    have hparse := hitem fuel (.closeBracket :: rest) (by omega)
    simp [parseItems, tokensOfItems, hparse]
  | cons next items ih =>
    obtain ⟨hnext, hitems⟩ := List.forall_mem_cons.1 hitems
    simp only [tokensOfItems, List.cons_append, List.length_cons, List.length_append,
      List.append_assoc] at hfuel ⊢
    have hparse := hitem fuel
      (.comma :: (next.tokens ++ (tokensOfItems items ++ .closeBracket :: rest))) (by omega)
    obtain ⟨fuel, rfl⟩ : ∃ less, fuel = less + 1 := ⟨fuel - 1, by omega⟩
    rw [parseItems, hparse]
    simp [ih hnext hitems fuel (by omega)]

theorem parseMembers_tokens {key : List Char} {value : Value} {members : List (List Char × Value)}
    (hvalue : value.Parses) (hvalues : ∀ member ∈ members, member.2.Parses) (rest : List Token)
    {fuel : ℕ} (hfuel : 2 * (value.tokens.length + (tokensOfMembers members).length) < fuel) :
    parseMembers fuel (.string key :: .colon ::
        (value.tokens ++ (tokensOfMembers members ++ .closeBrace :: rest))) =
      some ((key, value) :: members, rest) := by
  obtain ⟨fuel, rfl⟩ : ∃ less, fuel = less + 1 := ⟨fuel - 1, by omega⟩
  induction members generalizing key value fuel with
  | nil =>
    have hparse := hvalue fuel (.closeBrace :: rest) (by omega)
    simp [parseMembers, tokensOfMembers, hparse]
  | cons next members ih =>
    obtain ⟨hnext, hvalues⟩ := List.forall_mem_cons.1 hvalues
    simp only [tokensOfMembers, List.cons_append, List.length_cons, List.length_append,
      List.append_assoc] at hfuel ⊢
    have hparse := hvalue fuel (.comma :: .string next.1 :: .colon ::
      (next.2.tokens ++ (tokensOfMembers members ++ .closeBrace :: rest))) (by omega)
    obtain ⟨fuel, rfl⟩ : ∃ less, fuel = less + 1 := ⟨fuel - 1, by omega⟩
    rw [parseMembers, hparse]
    simp [ih hnext hvalues fuel (by omega)]

theorem parse_tokens (v : Value) : v.Parses := by
  induction v using nested_induction with
  | null => exact parses_of_succ (by simp [tokens, parse])
  | bool value => exact parses_of_succ (by simp [tokens, parse])
  | number spelling => exact parses_of_succ (by simp [tokens, parse])
  | string body => exact parses_of_succ (by simp [tokens, parse])
  | array items ih =>
    cases items with
    | nil => exact parses_of_succ (by simp [tokens, parse])
    | cons item items =>
      refine parses_of_succ fun fuel rest hfuel => ?_
      obtain ⟨hitem, hitems⟩ := List.forall_mem_cons.1 ih
      simp only [tokens, List.cons_append, List.length_cons, List.length_append, List.length_nil,
        List.append_assoc, List.nil_append] at hfuel ⊢
      rw [parse_openBracket (head_tokens item _),
        parseItems_tokens hitem hitems rest (by omega), Option.map_some]
  | object members ih =>
    cases members with
    | nil => exact parses_of_succ (by simp [tokens, parse])
    | cons member members =>
      refine parses_of_succ fun fuel rest hfuel => ?_
      obtain ⟨hvalue, hvalues⟩ := List.forall_mem_cons.1 ih
      simp only [tokens, List.cons_append, List.length_cons, List.length_append, List.length_nil,
        List.append_assoc, List.nil_append] at hfuel ⊢
      have hroom : 2 * (member.2.tokens.length + (tokensOfMembers members).length) < fuel := by
        omega
      simp [parse, parseMembers_tokens hvalue hvalues rest hroom]

/-! ### Reading what was printed -/

/-- A plain value is read back from its text. -/
theorem Plain.ofText_toText {v : Value} (hv : v.Plain) : ofText v.toText = some v := by
  have hscan : Token.ofText (v.print 0) = some v.tokens := by
    simpa using hv.scans 0 [] [] ends_nil Token.ofText_nil
  have hparse := parse_tokens v (2 * v.tokens.length + 1) [] (Nat.le_succ _)
  rw [List.append_nil] at hparse
  simp [ofText, toText, hscan, ofTokens, hparse]

end Value

end CorpusStats.Json
