import Latchkey.Json.Value
import Latchkey.Text.Digits

/-!
# TOML values

The values that may stand behind a key in a TOML document: texts in four kinds of quotes, numbers,
truth values, dates and times, arrays, and tables on one line. A date or a time stands for its text.
-/

namespace Latchkey.Toml

/-- Whether a character separates words on a line. -/
def isBlank (c : Char) : Bool := c == ' ' || c == '\t'

/-- What follows the blanks in front. -/
def skipBlanks (cs : List Char) : List Char := cs.dropWhile isBlank

/-- What follows a comment, if one is in front. -/
def skipComment (cs : List Char) : List Char :=
  match cs with
  | '#' :: rest => rest.dropWhile (· != '\n')
  | _ => cs

/-- What follows blanks, comments and line breaks; each round takes a character at least, so their
number is fuel enough. -/
def skipLines : (fuel : Nat) → List Char → List Char
  | 0, cs => cs
  | fuel + 1, cs =>
    match skipComment (skipBlanks cs) with
    | '\n' :: rest => skipLines fuel rest
    | rest => rest

/-! ## Texts -/

/-- The character that an escape of one letter stands for. -/
def escapes : List (Char × Nat) :=
  [('b', 8), ('t', 9), ('n', 10), ('f', 12), ('r', 13), ('"', 34), ('\\', 92)]

/-- Reads digits of a radix as a number, with single underscores between them. -/
def radixNumber? (radix : Nat) (cs : List Char) : Option Nat :=
  let step (s : Nat × Bool) (c : Char) : Option (Nat × Bool) :=
    if c = '_' then if s.2 then some (s.1, false) else none
    else (Text.digit? radix c).map fun d => (radix * s.1 + d, true)
  match cs.foldlM step (0, false) with
  | some (n, true) => some n
  | _ => none

/-- The character whose number is given by so many digits in front. -/
def numberedInFront? (count : Nat) (cs : List Char) : Option Char :=
  let digits := cs.take count
  if digits.length = count then Text.numbered? digits else none

/-- Whether a character may not stand in a text. -/
def isControl (c : Char) : Bool := (c.toNat < 32 && c != '\t') || c.toNat = 127

/-- Reads a text in single quotes behind the opening one. -/
def literal : List Char → Option (List Char × List Char)
  | [] => none
  | '\'' :: rest => some ([], rest)
  | c :: rest => if isControl c then none else (literal rest).map fun r => (c :: r.1, r.2)

/-- Reads a text in double quotes behind the opening ones: one quote, or three and then over several
lines. Every round takes a character at least, so their number is fuel enough. -/
def basic (long : Bool) : (fuel : Nat) → List Char → Option (List Char × List Char)
  | 0, _ => none
  | _, [] => none
  | fuel + 1, '\\' :: 'u' :: rest => do
    let c ← numberedInFront? 4 rest
    let r ← basic long fuel (rest.drop 4)
    return (c :: r.1, r.2)
  | fuel + 1, '\\' :: 'U' :: rest => do
    let c ← numberedInFront? 8 rest
    let r ← basic long fuel (rest.drop 8)
    return (c :: r.1, r.2)
  | fuel + 1, '\\' :: c :: rest =>
    match escapes.lookup c with
    | some n => (basic long fuel rest).map fun r => (Char.ofNat n :: r.1, r.2)
    | none =>
      -- a line break and all blanks after it are passed over
      match long, skipBlanks (c :: rest) with
      | true, '\n' :: rest => basic long fuel (rest.dropWhile fun c => isBlank c || c == '\n')
      | _, _ => none
  | fuel + 1, cs =>
    match long, cs with
    | true, '"' :: '"' :: '"' :: '"' :: '"' :: rest => some (['"', '"'], rest)
    | true, '"' :: '"' :: '"' :: '"' :: rest => some (['"'], rest)
    | true, '"' :: '"' :: '"' :: rest => some ([], rest)
    | false, '"' :: rest => some ([], rest)
    | _, c :: rest =>
      if isControl c && !(long && c == '\n') then none
      else (basic long fuel rest).map fun r => (c :: r.1, r.2)
    | _, [] => none

/-- Reads a text in three single quotes behind the opening ones. -/
def longLiteral : List Char → Option (List Char × List Char)
  | '\'' :: '\'' :: '\'' :: '\'' :: '\'' :: rest => some (['\'', '\''], rest)
  | '\'' :: '\'' :: '\'' :: '\'' :: rest => some (['\''], rest)
  | '\'' :: '\'' :: '\'' :: rest => some ([], rest)
  | c :: rest =>
    if isControl c && c != '\n' then none else (longLiteral rest).map fun r => (c :: r.1, r.2)
  | [] => none

/-- What follows a line break, if one is in front. -/
def skipBreak : List Char → List Char
  | '\n' :: rest => rest
  | cs => cs

/-- Reads a text, which starts with a quote. -/
def text? (cs : List Char) : Option (List Char × List Char) :=
  match cs with
  | '"' :: '"' :: '"' :: rest => basic true (rest.length + 1) (skipBreak rest)
  | '\'' :: '\'' :: '\'' :: rest => longLiteral (skipBreak rest)
  | '"' :: rest => basic false (rest.length + 1) rest
  | '\'' :: rest => literal rest
  | _ => none

/-! ## Words -/

/-- Whether a character may stand in a number, a date or a time. -/
def isWordChar (c : Char) : Bool := c.isAlphanum || ['+', '-', '_', '.', ':'].contains c

/-- The whole number a word stands for. -/
def integer? (word : List Char) : Option Int :=
  let unsigned (cs : List Char) : Option Nat :=
    match cs with
    | '0' :: _ :: _ => none
    | cs => radixNumber? 10 cs
  let n? : Option Int := match word with
    | '0' :: 'x' :: ds => (radixNumber? 16 ds).map Int.ofNat
    | '0' :: 'o' :: ds => (radixNumber? 8 ds).map Int.ofNat
    | '0' :: 'b' :: ds => (radixNumber? 2 ds).map Int.ofNat
    | '+' :: ds => (unsigned ds).map Int.ofNat
    | '-' :: ds => (unsigned ds).map fun n => -(n : Int)
    | ds => (unsigned ds).map Int.ofNat
  n?.filter fun n => -9223372036854775808 ≤ n && n ≤ 9223372036854775807

/-- Whether single underscores stand between digits only. -/
def underscoresInside : List Char → Bool
  | a :: '_' :: c :: rest => a.isDigit && c.isDigit && underscoresInside (c :: rest)
  | '_' :: _ => false
  | [_, '_'] => false
  | _ :: rest => underscoresInside rest
  | [] => true

/-- The double a word stands for. -/
def double? (word : List Char) : Option Float :=
  let (sign, ds) := match word with
    | '+' :: ds => (['+'], ds)
    | '-' :: ds => (['-'], ds)
    | ds => ([], ds)
  let whole := ds.takeWhile fun c => c.isDigit || c == '_'
  let fraction? := match ds.dropWhile fun c => c.isDigit || c == '_' with
    | '.' :: c :: _ => c.isDigit
    | c :: _ => c == 'e' || c == 'E'
    | [] => false
  if ds = "inf".toList || ds = "nan".toList then Decimal.read? (String.ofList word)
  else if whole.isEmpty || !fraction? || !underscoresInside ds then none
  else if whole.head? = some '0' && 1 < whole.length then none
  else Decimal.read? (String.ofList (sign ++ ds.filter (· != '_')))

/-- Whether a word has the form of a date or a time: it starts with four digits and a hyphen, or
with two digits and a colon. -/
def isMoment (word : List Char) : Bool :=
  let ds := (word.takeWhile Char.isDigit).length
  let rest := word.dropWhile Char.isDigit
  (ds = 4 && rest.head? = some '-' && 10 ≤ word.length) ||
    (ds = 2 && rest.head? = some ':' && 5 ≤ word.length)

/-- What a word stands for. -/
def word? (word : List Char) : Option Json :=
  if word = "true".toList then some (.bool true)
  else if word = "false".toList then some (.bool false)
  else
    match integer? word, double? word with
    | some n, _ => some (.int n)
    | none, some x => some (.float x)
    | none, none => if isMoment word then some (.str (String.ofList word)) else none

/-- Reads a word; a blank and a time may follow a date. -/
def takeWord (cs : List Char) : List Char × List Char :=
  let word := cs.takeWhile isWordChar
  let rest := cs.dropWhile isWordChar
  match rest with
  | ' ' :: a :: b :: ':' :: more =>
    if isMoment word && word.length = 10 && a.isDigit && b.isDigit then
      (word ++ 'T' :: a :: b :: ':' :: more.takeWhile isWordChar, more.dropWhile isWordChar)
    else (word, rest)
  | _ => (word, rest)

/-! ## Keys -/

/-- Whether a character may stand in a key without quotes. -/
def isKeyChar (c : Char) : Bool := c.isAlphanum || c == '_' || c == '-'

/-- Reads one part of a key. -/
def keyPart? (cs : List Char) : Option (String × List Char) :=
  match cs with
  | '"' :: rest => (basic false (rest.length + 1) rest).map fun r => (String.ofList r.1, r.2)
  | '\'' :: rest => (literal rest).map fun r => (String.ofList r.1, r.2)
  | _ =>
    match cs.takeWhile isKeyChar with
    | [] => none
    | part => some (String.ofList part, cs.dropWhile isKeyChar)

/-- Reads a key: parts with points between them. Each part takes a character at least, so their
number is fuel enough. -/
def key? : (fuel : Nat) → List Char → Option (List String × List Char)
  | 0, _ => none
  | fuel + 1, cs => do
    let (part, rest) ← keyPart? (skipBlanks cs)
    match skipBlanks rest with
    | '.' :: rest =>
      let (parts, rest) ← key? fuel rest
      return (part :: parts, rest)
    | rest => return ([part], rest)

/-! ## Tables -/

/-- The members with a value put at the end of a path, where nothing may stand yet. -/
def define (ms : List (String × Json)) (v : Json) : List String → Option (List (String × Json))
  | [] => none
  | [name] => if (ms.lookup name).isSome then none else some (ms ++ [(name, v)])
  | name :: rest =>
    match ms.lookup name with
    | none => (define [] v rest).map fun inner => ms ++ [(name, .obj inner)]
    | some (.obj inner) =>
      (define inner v rest).map fun inner =>
        ms.map fun m => if m.1 = name then (name, .obj inner) else m
    | some _ => none

mutual

/-- Reads a value. Each call takes a character at least or leads to one that does, so twice their
number is fuel enough. -/
def value? : (fuel : Nat) → List Char → Option (Json × List Char)
  | 0, _ => none
  | fuel + 1, cs =>
    match cs with
    | '"' :: _ => (text? cs).map fun r => (.str (String.ofList r.1), r.2)
    | '\'' :: _ => (text? cs).map fun r => (.str (String.ofList r.1), r.2)
    | '[' :: rest => (items? fuel rest).map fun r => (.arr r.1, r.2)
    | '\x7b' :: rest => (inlineTable? fuel [] true rest).map fun r => (.obj r.1, r.2)
    | _ =>
      let (word, rest) := takeWord cs
      (word? word).map fun v => (v, rest)

/-- Reads the items of an array behind its opening bracket or a comma. -/
def items? : (fuel : Nat) → List Char → Option (List Json × List Char)
  | 0, _ => none
  | fuel + 1, cs =>
    match skipLines cs.length cs with
    | ']' :: rest => some ([], rest)
    | cs => do
      let (v, rest) ← value? fuel cs
      match skipLines rest.length rest with
      | ',' :: rest =>
        let (vs, rest) ← items? fuel rest
        return (v :: vs, rest)
      | ']' :: rest => return ([v], rest)
      | _ => none

/-- Reads a table on one line behind its opening brace or a comma, given what it has already. -/
def inlineTable? : (fuel : Nat) → List (String × Json) → (isFirst : Bool) → List Char →
    Option (List (String × Json) × List Char)
  | 0, _, _, _ => none
  | fuel + 1, ms, isFirst, cs =>
    match isFirst, skipBlanks cs with
    | true, '\x7d' :: rest => some (ms, rest)
    | _, cs => do
      let (path, rest) ← key? cs.length cs
      match rest with
      | '=' :: rest =>
        let (v, rest) ← value? fuel (skipBlanks rest)
        let ms ← define ms v path
        match skipBlanks rest with
        | ',' :: rest => inlineTable? fuel ms false rest
        | '\x7d' :: rest => return (ms, rest)
        | _ => none
      | _ => none

end

end Latchkey.Toml
