import CorpusStats.Json.Value
import Mathlib.Data.List.Basic
import Mathlib.Tactic.IntervalCases
/-!
# CorpusStats.Proofs.Json.Scanned

Where the tokens of a printed text end.

* A number ends only where the next character says so. In an indented text that is a comma, the end
  of a line, or the end of the text (`Ends`), so the lemmas have the text behind a token in them.
* A string without escapes (`IsPlain`) ends at its first quote.
* A scan is given as much fuel as its text has characters, and one with more of it does the same
  (`Token.scanAll_mono`). So the tokens of a text are the first token and those of the text behind
  it (`Token.ofText_append`), whatever the fuel of either scan.
-/

namespace CorpusStats.Json

/-- The text behind a printed value: nothing, a comma or the end of a line. -/
def Ends (rest : List Char) : Prop := ∀ c ∈ rest.head?, c = ',' ∨ c = '\n'

@[simp] theorem ends_nil : Ends [] := by simp [Ends]

@[simp] theorem ends_cons_iff {c : Char} {rest : List Char} :
    Ends (c :: rest) ↔ c = ',' ∨ c = '\n' := by
  simp [Ends]

/-- A character that stands for itself in a string. -/
def IsPlain (c : Char) : Prop := c ≠ '"' ∧ c ≠ '\\' ∧ 0x20 ≤ c.toNat

/-! ### Strings -/

@[simp] theorem scanBody_quote (rest : List Char) : scanBody ('"' :: rest) = some ([], rest) := by
  rw [scanBody]

theorem scanBody_cons {c : Char} (hc : IsPlain c) (rest : List Char) :
    scanBody (c :: rest) = (scanBody rest).map fun (body, rest) => (c :: body, rest) := by
  obtain ⟨hquote, hslash, hblank⟩ := hc
  rw [scanBody]
  · rw [if_neg (by simp [hslash, hblank])]
  · exact hquote
  · rintro _ _ _ _ _ rfl
    exact absurd rfl hslash
  · rintro _ _ rfl
    exact absurd rfl hslash

/-- A string without escapes ends at its quote. -/
theorem scanBody_plain {body : List Char} (hbody : ∀ c ∈ body, IsPlain c) (rest : List Char) :
    scanBody (body ++ '"' :: rest) = some (body, rest) := by
  induction body with
  | nil => simp
  | cons c body ih =>
    obtain ⟨hc, hbody⟩ := List.forall_mem_cons.1 hbody
    rw [List.cons_append, scanBody_cons hc, ih hbody, Option.map_some]

/-! ### Numbers -/

/-- A decimal spelling starts with a zero only if it is the zero. -/
theorem toDigits_head {n : ℕ} (hn : 0 < n) :
    ∃ d digits, d ≠ '0' ∧ Nat.toDigits 10 n = d :: digits := by
  induction n using Nat.strong_induction_on with
  | h n ih =>
    rcases Nat.lt_or_ge n 10 with hlt | hge
    · refine ⟨n.digitChar, [], ?_, Nat.toDigits_of_lt_base hlt⟩
      interval_cases n <;> decide
    · obtain ⟨d, digits, hd, hdigits⟩ := ih (n / 10) (by omega) (by omega)
      exact ⟨d, digits ++ [(n % 10).digitChar], hd, by
        rw [Nat.toDigits_of_base_le (by decide) hge, hdigits, List.cons_append]⟩

theorem scanDigits_append {digits rest : List Char} (hne : digits ≠ [])
    (hdigits : ∀ c ∈ digits, c.isDigit) (hrest : Ends rest) :
    scanDigits (digits ++ rest) = some (digits, rest) := by
  have hstop : rest.takeWhile Char.isDigit = [] ∧ rest.dropWhile Char.isDigit = rest := by
    cases rest with
    | nil => simp
    | cons c rest => rcases ends_cons_iff.1 hrest with rfl | rfl <;> simp
  rw [scanDigits, List.takeWhile_append_of_pos hdigits, List.dropWhile_append_of_pos hdigits,
    hstop.1, hstop.2, List.append_nil]
  cases digits with
  | nil => exact absurd rfl hne
  | cons c digits => rfl

theorem scanFraction_ends {rest : List Char} (hrest : Ends rest) :
    scanFraction rest = some ([], rest) := by
  cases rest with
  | nil => rfl
  | cons c rest => rcases ends_cons_iff.1 hrest with rfl | rfl <;> rfl

theorem scanExponent_ends {rest : List Char} (hrest : Ends rest) :
    scanExponent rest = some ([], rest) := by
  cases rest with
  | nil => rfl
  | cons c rest => rcases ends_cons_iff.1 hrest with rfl | rfl <;> rfl

theorem scanWhole_toDigits (n : ℕ) {rest : List Char} (hrest : Ends rest) :
    scanWhole (Nat.toDigits 10 n ++ rest) = some (Nat.toDigits 10 n, rest) := by
  rcases Nat.eq_zero_or_pos n with rfl | hn
  · rfl
  · obtain ⟨d, digits, hd, hdigits⟩ := toDigits_head hn
    have hall : ∀ c ∈ d :: digits, c.isDigit := fun c hc =>
      Nat.isDigit_of_mem_toDigits (by decide) (by decide) (hdigits ▸ hc)
    rw [hdigits, ← scanDigits_append (List.cons_ne_nil d digits) hall hrest, List.cons_append,
      scanWhole]
    rintro _ h
    exact hd (List.cons.inj h).1

theorem scanUnsigned_toDigits (n : ℕ) {rest : List Char} (hrest : Ends rest) :
    scanUnsigned (Nat.toDigits 10 n ++ rest) = some (Nat.toDigits 10 n, rest) := by
  simp [scanUnsigned, scanWhole_toDigits n hrest, scanFraction_ends hrest, scanExponent_ends hrest]

/-! ### Tokens -/

namespace Token

/-- What starts with a digit is read as a number. -/
theorem scan_of_isDigit {c : Char} (hc : c.isDigit) (rest : List Char) :
    scan (c :: rest) =
      (scanUnsigned (c :: rest)).map fun (spelling, rest) => (number spelling, rest) := by
  have hne : ∀ d : Char, d.isDigit = false → c ≠ d := by
    rintro d hd rfl
    simp [hd] at hc
  rw [scan] <;> intro _ h <;> exact hne _ (by decide) (List.cons.inj h).1

variable {fuel more : ℕ} {cs rest : List Char} {tokens : List Token}

/-- A scan that is done needs no more fuel. -/
theorem scanAll_mono (h : scanAll fuel cs = some tokens) (hmore : fuel ≤ more) :
    scanAll more cs = some tokens := by
  induction fuel generalizing more cs tokens with
  | zero =>
    cases cs with
    | nil => simpa [scanAll] using h
    | cons c cs => simp [scanAll] at h
  | succ fuel ih =>
    obtain ⟨more, rfl⟩ : ∃ m, more = m + 1 := ⟨more - 1, by omega⟩
    have hle : fuel ≤ more := by omega
    cases cs with
    | nil => simpa [scanAll] using h
    | cons c cs =>
      rw [scanAll] at h ⊢
      split at h
      case isTrue hblank => rw [if_pos hblank, ih h hle]
      case isFalse hblank =>
        rw [if_neg hblank]
        obtain ⟨⟨token, rest⟩, hscan, h⟩ := Option.bind_eq_some_iff.1 h
        obtain ⟨tokens, hrest, h⟩ := Option.bind_eq_some_iff.1 h
        simpa [hscan, ih hrest hle] using h

@[simp] theorem ofText_nil : ofText [] = some [] := rfl

@[simp] theorem ofText_newline : ofText ('\n' :: rest) = ofText rest := by
  simp [ofText, scanAll, isBlank]

@[simp] theorem ofText_space : ofText (' ' :: rest) = ofText rest := by
  simp [ofText, scanAll, isBlank]

@[simp] theorem ofText_indent (depth : ℕ) : ofText (Value.indent depth ++ rest) = ofText rest := by
  have hspaces : ∀ n, ofText (List.replicate n ' ' ++ rest) = ofText rest := by
    intro n
    induction n with
    | zero => simp
    | succ n ih => simp [List.replicate_succ, ih]
  exact hspaces _

/-- A mark is a token, whatever follows it. -/
theorem ofText_mark {c : Char} {token : Token} (hc : isBlank c = false)
    (hscan : scan (c :: rest) = some (token, rest)) :
    ofText (c :: rest) = (ofText rest).map (token :: ·) := by
  cases h : ofText rest <;> simp_all [ofText, scanAll]

@[simp] theorem ofText_openBrace : ofText ('\x7b' :: rest) = (ofText rest).map (openBrace :: ·) :=
  ofText_mark rfl rfl

@[simp] theorem ofText_closeBrace : ofText ('\x7d' :: rest) = (ofText rest).map (closeBrace :: ·) :=
  ofText_mark rfl rfl

@[simp] theorem ofText_openBracket : ofText ('[' :: rest) = (ofText rest).map (openBracket :: ·) :=
  ofText_mark rfl rfl

@[simp] theorem ofText_closeBracket : ofText (']' :: rest) = (ofText rest).map (closeBracket :: ·) :=
  ofText_mark rfl rfl

@[simp] theorem ofText_comma : ofText (',' :: rest) = (ofText rest).map (comma :: ·) :=
  ofText_mark rfl rfl

@[simp] theorem ofText_colon : ofText (':' :: rest) = (ofText rest).map (colon :: ·) :=
  ofText_mark rfl rfl

/-- A token at the start of a text is its first token. -/
theorem ofText_append {c : Char} {spelling : List Char} {token : Token} (hc : isBlank c = false)
    (hscan : scan (c :: spelling ++ rest) = some (token, rest)) (hrest : ofText rest = some tokens) :
    ofText (c :: spelling ++ rest) = some (token :: tokens) := by
  have hmore : scanAll (spelling.length + rest.length) rest = some tokens :=
    scanAll_mono hrest (by simp)
  rw [List.cons_append] at hscan
  simp [ofText, scanAll, hc, hscan, hmore]

/-- The decimal spelling of a number at the start of a text is its first token. -/
theorem ofText_toDigits (n : ℕ) (hends : Ends rest) (hrest : ofText rest = some tokens) :
    ofText (Nat.toDigits 10 n ++ rest) = some (number (Nat.toDigits 10 n) :: tokens) := by
  have hall : ∀ c ∈ Nat.toDigits 10 n, c.isDigit := fun c hc =>
    Nat.isDigit_of_mem_toDigits (by decide) (by decide) hc
  have hscan := scanUnsigned_toDigits n hends
  obtain ⟨d, digits, hdigits⟩ := List.exists_cons_of_ne_nil (Nat.toDigits_ne_nil (b := 10) (n := n))
  rw [hdigits] at hall hscan ⊢
  have hd : d.isDigit := hall d List.mem_cons_self
  have hblank : isBlank d = false := by
    rw [Bool.eq_false_iff]
    intro h
    have : d = ' ' ∨ d = '\n' ∨ d = '\t' ∨ d = '\r' := by simpa [isBlank, or_assoc] using h
    rcases this with rfl | rfl | rfl | rfl <;> exact absurd hd (by decide)
  refine ofText_append hblank ?_ hrest
  rw [List.cons_append] at hscan ⊢
  rw [scan_of_isDigit hd, hscan, Option.map_some]

/-- A string without escapes at the start of a text is its first token. -/
theorem ofText_plain {body : List Char} (hbody : ∀ c ∈ body, IsPlain c)
    (hrest : ofText rest = some tokens) :
    ofText ('"' :: (body ++ '"' :: rest)) = some (string body :: tokens) := by
  have hscan : scan ('"' :: (body ++ ['"']) ++ rest) = some (string body, rest) := by
    simp [scan, scanBody_plain hbody]
  simpa using ofText_append (by decide) hscan hrest

end Token

end CorpusStats.Json
