/-!
# The lexemes of a JSON text

A text is divided into marks, quoted texts and words by a scanner that takes one character at a
time. Quoted texts keep their escapes, and words are runs of characters that are neither blank nor a
mark: what they mean, and whether they mean anything, is decided later.
-/

namespace Latchkey.Json

/-- One piece of a JSON text. -/
inductive Lexeme where
  /-- An opening square bracket. -/
  | openList
  /-- A closing square bracket. -/
  | closeList
  /-- An opening brace. -/
  | openObject
  /-- A closing brace. -/
  | closeObject
  /-- A colon. -/
  | colon
  /-- A comma. -/
  | comma
  /-- A number or one of the words `null`, `true` and `false`. -/
  | word (cs : List Char)
  /-- The inside of a quoted text, with its escapes. -/
  | quoted (cs : List Char)
  deriving Repr, DecidableEq

/-- What the scanner is in the middle of. -/
inductive ScanMode where
  /-- Nothing. -/
  | gap
  /-- A word, of which these characters are read, the last one first. -/
  | word (seen : List Char)
  /-- A quoted text, of which these characters are read, the last one first. -/
  | quoted (seen : List Char)
  /-- A quoted text, right after a backslash. -/
  | escape (seen : List Char)
  deriving Repr, DecidableEq

/-- The state of the scanner. -/
structure Scanner where
  /-- What it is in the middle of. -/
  mode : ScanMode
  /-- The lexemes read, the last one first. -/
  found : List Lexeme
  deriving Repr, DecidableEq

/-- Whether a character only separates lexemes. -/
def isBlank (c : Char) : Bool := c == ' ' || c == '\n' || c == '\t' || c == '\r'

/-- The mark a character is. -/
def mark? (c : Char) : Option Lexeme :=
  if c = '[' then some .openList
  else if c = ']' then some .closeList
  else if c.toNat = 0x7b then some .openObject
  else if c.toNat = 0x7d then some .closeObject
  else if c = ':' then some .colon
  else if c = ',' then some .comma
  else none

/-- Whether a character is a hexadecimal digit. -/
def isHexDigit (c : Char) : Bool :=
  c.isDigit || ('a' ≤ c && c ≤ 'f') || ('A' ≤ c && c ≤ 'F')

/-- Whether every escape by number in a quoted text has four digits. -/
def wellEscaped : List Char → Bool
  | '\\' :: 'u' :: a :: b :: c :: d :: rest =>
    isHexDigit a && isHexDigit b && isHexDigit c && isHexDigit d && wellEscaped rest
  | '\\' :: 'u' :: _ => false
  | '\\' :: _ :: rest => wellEscaped rest
  | _ :: rest => wellEscaped rest
  | [] => true

/-- The scanner after a character outside of words and quoted texts. -/
def Scanner.start (found : List Lexeme) (c : Char) : Scanner :=
  if isBlank c then ⟨.gap, found⟩
  else if c = '"' then ⟨.quoted [], found⟩
  else match mark? c with
    | some m => ⟨.gap, m :: found⟩
    | none => ⟨.word [c], found⟩

/-- The scanner after one more character; none if no text goes on like this. -/
def Scanner.step (s : Scanner) (c : Char) : Option Scanner :=
  match s.mode with
  | .gap => some (Scanner.start s.found c)
  | .word seen =>
    if isBlank c || c == '"' || (mark? c).isSome then
      some (Scanner.start (.word seen.reverse :: s.found) c)
    else some ⟨.word (c :: seen), s.found⟩
  | .quoted seen =>
    if c = '"' then
      if wellEscaped seen.reverse then some ⟨.gap, .quoted seen.reverse :: s.found⟩ else none
    else if c = '\\' then some ⟨.escape seen, s.found⟩
    else if c.toNat < 32 then none
    else some ⟨.quoted (c :: seen), s.found⟩
  | .escape seen =>
    if c ∈ ['"', '\\', '/', 'b', 'f', 'n', 'r', 't', 'u'] then
      some ⟨.quoted (c :: '\\' :: seen), s.found⟩
    else none

/-- The lexemes of a whole text. -/
def lexemes? (cs : List Char) : Option (List Lexeme) := do
  let s ← cs.foldlM Scanner.step ⟨.gap, []⟩
  match s.mode with
  | .gap => some s.found.reverse
  | .word seen => some (.word seen.reverse :: s.found).reverse
  | _ => none

end Latchkey.Json
