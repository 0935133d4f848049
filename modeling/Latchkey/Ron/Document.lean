import Latchkey.Json.Relaxed

/-!
# RON documents

A notation of objects: lists in brackets, maps in braces, and records and tuples in parentheses,
with or without a name in front. `Some` stands for the value in it and `None` for nothing.
-/

namespace Latchkey.Ron

/-- The characters that escapes of one letter stand for. -/
def escapes : List (Char × Nat) :=
  [('\'', 39), ('"', 34), ('\\', 92), ('n', 10), ('r', 13), ('t', 9), ('0', 0)]

/-- Reads a text up to a quote. -/
def quoted (quote : Char) : (fuel : Nat) → List Char → Option (List Char × List Char)
  | 0, _ => none
  | _, [] => none
  | fuel + 1, '\\' :: 'x' :: a :: b :: rest => do
    let c ← Text.numbered? [a, b]
    let r ← quoted quote fuel rest
    return (c :: r.1, r.2)
  | fuel + 1, '\\' :: 'u' :: '\x7b' :: rest => do
    let c ← Text.numbered? (rest.takeWhile (· != '\x7d'))
    let r ← quoted quote fuel ((rest.dropWhile (· != '\x7d')).drop 1)
    return (c :: r.1, r.2)
  | fuel + 1, '\\' :: c :: rest => do
    let n ← escapes.lookup c
    let r ← quoted quote fuel rest
    return (Char.ofNat n :: r.1, r.2)
  | fuel + 1, c :: rest =>
    if c = quote then some ([], rest)
    else (quoted quote fuel rest).map fun r => (c :: r.1, r.2)

/-- Reads a text without escapes, given the quote and the marks that end it. -/
def rawText (ending : List Char) : List Char → Option (List Char × List Char)
  | [] => none
  | c :: rest =>
    if ending.isPrefixOf (c :: rest) then some ([], (c :: rest).drop ending.length)
    else (rawText ending rest).map fun r => (c :: r.1, r.2)

/-- Reads a text without escapes behind the letter in front of it. -/
def raw? (cs : List Char) : Option (List Char × List Char) :=
  let marks := cs.takeWhile (· == '#')
  match cs.drop marks.length with
  | '"' :: rest => rawText ('"' :: marks) rest
  | _ => none

/-- Whether a character may stand in a name. -/
def isNameChar (c : Char) : Bool := c.isAlphanum || c == '_'

/-- Whether a character may stand in a number. -/
def isNumberChar (c : Char) : Bool := c.isAlphanum || ['+', '-', '.', '_'].contains c

/-- The number that a word stands for. -/
def number? (word : List Char) : Option Json :=
  let (negative, ds) := match word with
    | '-' :: ds => (true, ds)
    | '+' :: ds => (false, ds)
    | ds => (false, ds)
  let sign (n : Nat) : Int := if negative then -(n : Int) else n
  let fitting (n : Nat) : Option Json :=
    if -9223372036854775808 ≤ sign n ∧ sign n ≤ 9223372036854775807 then some (.int (sign n))
    else none
  let clean := ds.filter (· != '_')
  match clean with
  | '0' :: 'x' :: hs => (Text.number? 16 hs).bind fitting
  | '0' :: 'o' :: os => (Text.number? 8 os).bind fitting
  | '0' :: 'b' :: bs => (Text.number? 2 bs).bind fitting
  | _ =>
    if !clean.isEmpty && clean.all Char.isDigit then fitting (Decimal.digitsValue clean)
    else if clean = "inf".toList || clean = "NaN".toList then
      (Decimal.read? (String.ofList clean)).map fun x => .float (if negative then -x else x)
    else (Decimal.unsigned? clean).map fun x => .float (if negative then -x else x)

/-- The text that a key stands for. -/
def keyText? : Json → Option String
  | .str s => some s
  | _ => none

/-- Whether what is in parentheses is a record: a name with a colon behind it. -/
def isRecord (cs : List Char) : Bool :=
  let name := cs.takeWhile isNameChar
  match name, (Text.behindGap? (cs.dropWhile isNameChar)) with
  | c :: _, some (':' :: _) => !c.isDigit
  | _, _ => false

mutual

/-- Reads a value. Each call takes a character at least or leads to one that does, so four times
their number is fuel enough. -/
def value? : (fuel : Nat) → List Char → Option (Json × List Char)
  | 0, _ => none
  | fuel + 1, cs => do
    match ← Text.behindGap? cs with
    | '"' :: rest =>
      (quoted '"' (rest.length + 1) rest).map fun r => (.str (String.ofList r.1), r.2)
    | '\'' :: rest =>
      (quoted '\'' (rest.length + 1) rest).map fun r => (.str (String.ofList r.1), r.2)
    | 'r' :: '"' :: rest => (raw? ('"' :: rest)).map fun r => (.str (String.ofList r.1), r.2)
    | 'r' :: '#' :: rest => (raw? ('#' :: rest)).map fun r => (.str (String.ofList r.1), r.2)
    | '[' :: rest => (items? ']' fuel rest).map fun r => (.arr r.1, r.2)
    | '\x7b' :: rest => (entries? fuel [] rest).map fun r => (.obj r.1, r.2)
    | '(' :: rest => group? fuel rest
    | c :: rest =>
      if c.isAlpha || c = '_' then
        let name := String.ofList ((c :: rest).takeWhile isNameChar)
        named? name fuel ((c :: rest).dropWhile isNameChar)
      else
        (number? ((c :: rest).takeWhile isNumberChar)).map fun v =>
          (v, (c :: rest).dropWhile isNumberChar)
    | [] => none

/-- Reads what is behind a name. -/
def named? (name : String) : (fuel : Nat) → List Char → Option (Json × List Char)
  | 0, _ => none
  | fuel + 1, cs => do
    match name with
    | "true" => return (.bool true, cs)
    | "false" => return (.bool false, cs)
    | "None" => return (.null, cs)
    | "inf" => return (.float (1.0 / 0.0), cs)
    | "NaN" => return (.float (0.0 / 0.0), cs)
    | _ =>
      match ← Text.behindGap? cs with
      | '(' :: rest =>
        if name = "Some" then
          let (v, rest) ← value? fuel rest
          match ← Text.behindGap? rest with
          | ')' :: rest => return (v, rest)
          | _ => none
        else group? fuel rest
      | rest => return (.null, rest)

/-- Reads what is in parentheses: nothing, a record or a tuple. -/
def group? : (fuel : Nat) → List Char → Option (Json × List Char)
  | 0, _ => none
  | fuel + 1, cs => do
    match ← Text.behindGap? cs with
    | ')' :: rest => return (.null, rest)
    | cs =>
      if isRecord cs then (fields? fuel [] cs).map fun r => (.obj r.1, r.2)
      else (items? ')' fuel cs).map fun r => (.arr r.1, r.2)

/-- Reads the items of a list or a tuple up to its end. -/
def items? (close : Char) : (fuel : Nat) → List Char → Option (List Json × List Char)
  | 0, _ => none
  | fuel + 1, cs => do
    match ← Text.behindGap? cs with
    | [] => none
    | c :: rest =>
      if c = close then return ([], rest)
      else
        let (v, rest) ← value? fuel (c :: rest)
        match ← Text.behindGap? rest with
        | ',' :: rest =>
          let (vs, rest) ← items? close fuel rest
          return (v :: vs, rest)
        | d :: rest => if d = close then return ([v], rest) else none
        | [] => none

/-- Reads the entries of a map up to its end, given those before. -/
def entries? : (fuel : Nat) → List (String × Json) → List Char →
    Option (List (String × Json) × List Char)
  | 0, _, _ => none
  | fuel + 1, ms, cs => do
    match ← Text.behindGap? cs with
    | '\x7d' :: rest => return (ms, rest)
    | cs =>
      let (k, rest) ← value? fuel cs
      let name ← keyText? k
      entry? '\x7d' name fuel ms rest

/-- Reads the fields of a record up to its end, given those before. -/
def fields? : (fuel : Nat) → List (String × Json) → List Char →
    Option (List (String × Json) × List Char)
  | 0, _, _ => none
  | fuel + 1, ms, cs => do
    match ← Text.behindGap? cs with
    | ')' :: rest => return (ms, rest)
    | cs =>
      match cs.takeWhile isNameChar with
      | [] => none
      | name => entry? ')' (String.ofList name) fuel ms (cs.dropWhile isNameChar)

/-- Reads a colon, the value of an entry and all entries behind it. -/
def entry? (close : Char) (name : String) : (fuel : Nat) → List (String × Json) → List Char →
    Option (List (String × Json) × List Char)
  | 0, _, _ => none
  | fuel + 1, ms, cs => do
    match ← Text.behindGap? cs with
    | ':' :: rest =>
      let (v, rest) ← value? fuel rest
      let ms := Json.Relaxed.put ms name v
      match ← Text.behindGap? rest with
      | ',' :: rest => if close = ')' then fields? fuel ms rest else entries? fuel ms rest
      | c :: rest => if c = close then return (ms, rest) else none
      | [] => none
    | _ => none

end

/-- The tree of a whole text. -/
def parse? (text : String) : Option Json := do
  let cs := text.toList
  let (v, rest) ← value? (4 * cs.length + 4) cs
  match ← Text.behindGap? rest with
  | [] => return v
  | _ => none

end Latchkey.Ron
