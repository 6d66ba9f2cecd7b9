import CorpusStats.Json.Token
/-!
# CorpusStats.Json.Value

JSON values, read from tokens and printed with indentation.

* Objects keep every member, in order, repeated keys included, since whoever reads a
  value may have to refuse repetitions.
* Reading follows the grammar exactly: no trailing commas, and nothing after the value.
* Printing puts every member on a line of its own, two blanks further in than the
  braces around it.
-/

namespace CorpusStats.Json

/-- A JSON value. -/
inductive Value
  | null
  | bool (value : Bool)
  /-- A number, as it is spelled. -/
  | number (spelling : List Char)
  /-- A string, as it stands between its quotes. -/
  | string (body : List Char)
  | array (items : List Value)
  /-- An object, with the bodies of its keys. -/
  | object (members : List (List Char × Value))
  deriving Repr

namespace Value

/-! ### Reading -/

mutual

/-- The value that tokens start with, and what follows it. -/
def parse : (fuel : Nat) → List Token → Option (Value × List Token)
  | 0, _ => none
  | _ + 1, .null :: rest => some (null, rest)
  | _ + 1, .bool value :: rest => some (bool value, rest)
  | _ + 1, .number spelling :: rest => some (number spelling, rest)
  | _ + 1, .string body :: rest => some (string body, rest)
  | _ + 1, .openBracket :: .closeBracket :: rest => some (array [], rest)
  | fuel + 1, .openBracket :: rest =>
    (parseItems fuel rest).map fun (items, rest) => (array items, rest)
  | _ + 1, .openBrace :: .closeBrace :: rest => some (object [], rest)
  | fuel + 1, .openBrace :: rest =>
    (parseMembers fuel rest).map fun (members, rest) => (object members, rest)
  | _ + 1, _ => none

/-- The remaining items of an array, at least one, and what follows the array. -/
def parseItems : (fuel : Nat) → List Token → Option (List Value × List Token)
  | 0, _ => none
  | fuel + 1, tokens =>
    match parse fuel tokens with
    | some (item, .comma :: rest) =>
      (parseItems fuel rest).map fun (items, rest) => (item :: items, rest)
    | some (item, .closeBracket :: rest) => some ([item], rest)
    | _ => none

/-- The remaining members of an object, at least one, and what follows the object. -/
def parseMembers : (fuel : Nat) → List Token → Option (List (List Char × Value) × List Token)
  | fuel + 1, .string key :: .colon :: tokens =>
    match parse fuel tokens with
    | some (value, .comma :: rest) =>
      (parseMembers fuel rest).map fun (members, rest) => ((key, value) :: members, rest)
    | some (value, .closeBrace :: rest) => some ([(key, value)], rest)
    | _ => none
  | _, _ => none

end

/-- The value that tokens spell. Of the calls inside each other, one in two consumes a
token, which bounds their depth. -/
def ofTokens (tokens : List Token) : Option Value :=
  match parse (2 * tokens.length + 1) tokens with
  | some (value, []) => some value
  | _ => none

/-- The value that a text spells, with white space around any of its tokens. -/
def ofText (text : String) : Option Value := (Token.ofText text.toList).bind ofTokens

/-! ### Printing -/

/-- The blanks at the start of a line at a depth. -/
def indent (depth : Nat) : List Char := List.replicate (2 * depth) ' '

mutual

/-- The text of a value whose first line is at a depth. -/
def print (depth : Nat) : Value → List Char
  | null => "null".toList
  | bool true => "true".toList
  | bool false => "false".toList
  | number spelling => spelling
  | string body => '"' :: body ++ ['"']
  | array [] => ['[', ']']
  | array (item :: items) =>
    '[' :: '\n' :: indent (depth + 1) ++ print (depth + 1) item ++ printItems (depth + 1) items
      ++ '\n' :: indent depth ++ [']']
  | object [] => ['\x7b', '\x7d']
  | object ((key, value) :: members) =>
    '\x7b' :: '\n' :: indent (depth + 1) ++ '"' :: key ++ '"' :: ':' :: ' ' ::
      print (depth + 1) value ++ printMembers (depth + 1) members
      ++ '\n' :: indent depth ++ ['\x7d']

/-- The text of the items after the first. -/
def printItems (depth : Nat) : List Value → List Char
  | [] => []
  | item :: items =>
    ',' :: '\n' :: indent depth ++ print depth item ++ printItems depth items

/-- The text of the members after the first. -/
def printMembers (depth : Nat) : List (List Char × Value) → List Char
  | [] => []
  | (key, value) :: members =>
    ',' :: '\n' :: indent depth ++ '"' :: key ++ '"' :: ':' :: ' ' ::
      print depth value ++ printMembers depth members

end

def toText (value : Value) : String := String.ofList (value.print 0)

end Value

/-! ### Contents of strings and numbers -/

/-- What a body is made of: characters, and 16-bit units that were escaped as numbers. -/
inductive Piece
  /-- A character that stands for itself, or a short escape. -/
  | char (c : Char)
  | unit (n : Nat)
  deriving Repr, DecidableEq

def pieces? : List Char → Option (List Piece)
  | [] => some []
  | '\\' :: 'u' :: a :: b :: c :: d :: rest => do
    return .unit (← hexUnit? a b c d) :: (← pieces? rest)
  | '\\' :: c :: rest => do return .char (← shortEscape? c) :: (← pieces? rest)
  | c :: rest => do return .char c :: (← pieces? rest)

/-- Whether a unit is the first half of a surrogate pair. -/
def isHighSurrogate (n : Nat) : Bool := 0xD800 ≤ n && n < 0xDC00

/-- Whether a unit is the second half of a surrogate pair. -/
def isLowSurrogate (n : Nat) : Bool := 0xDC00 ≤ n && n < 0xE000

/-- The characters that pieces stand for. The halves of a surrogate pair have to stand
together. -/
def joinPieces? : List Piece → Option (List Char)
  | [] => some []
  | .char c :: rest => (joinPieces? rest).map (c :: ·)
  | .unit n :: rest =>
    if isHighSurrogate n then
      match rest with
      | .unit m :: rest =>
        if isLowSurrogate m then
          (joinPieces? rest).map (Char.ofNat (0x10000 + (n - 0xD800) * 0x400 + (m - 0xDC00)) :: ·)
        else none
      | _ => none
    else if isLowSurrogate n then none
    else (joinPieces? rest).map (Char.ofNat n :: ·)

/-- The text that the body of a string stands for. -/
def unescape? (body : List Char) : Option String :=
  ((pieces? body).bind joinPieces?).map String.ofList

namespace Value

/-- The number that a value spells, if it is a whole number below a limit written
without sign, point and exponent. -/
def natBelow? (limit : Nat) : Value → Option Nat
  | number spelling =>
    let n := Nat.ofDigitChars 10 spelling 0
    if spelling.all Char.isDigit ∧ n < limit then some n else none
  | _ => none

/-- The values of the named fields of a record, in the order of the names. A record is
an array of exactly these values, or an object that has each name once; other members
of an object do not matter as long as their keys can be read. -/
def fields? (names : List String) : Value → Option (List Value)
  | array items => if items.length = names.length then some items else none
  | object members => do
    let named ← members.mapM fun (key, value) => return (← unescape? key, value)
    names.mapM fun name =>
      match named.filter (·.1 = name) with
      | [(_, value)] => some value
      | _ => none
  | _ => none

/-- A whole number as a value. -/
def ofNat (n : Nat) : Value := number (Nat.toDigits 10 n)

/-- A text without characters that need escapes as a value. -/
def ofPlain (text : String) : Value := string text.toList

/-- A record with plain names as a value. -/
def ofFields (fields : List (String × Value)) : Value :=
  object (fields.map fun (name, value) => (name.toList, value))

end Value

end CorpusStats.Json
