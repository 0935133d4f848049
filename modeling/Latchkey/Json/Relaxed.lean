import Latchkey.Json.Value
import Latchkey.Text.Comment
import Latchkey.Text.Digits

/-!
# Relaxed JSON

A form of JSON that people write by hand: with comments, names of members without quotes, texts in
single quotes, commas before the closing bracket, and hexadecimal, infinite and abbreviated numbers.
-/

namespace Latchkey.Json.Relaxed

/-- The characters that escapes of one letter stand for, of those that do not stand for
themselves. -/
def escapes : List (Char × Nat) :=
  [('b', 8), ('t', 9), ('n', 10), ('v', 11), ('f', 12), ('r', 13), ('0', 0)]

/-- Reads a text up to a quote. -/
def quoted (quote : Char) : List Char → Option (List Char × List Char)
  | [] => none
  | '\\' :: 'x' :: a :: b :: rest => do
    let c ← Text.numbered? [a, b]
    let r ← quoted quote rest
    return (c :: r.1, r.2)
  | '\\' :: 'u' :: a :: b :: c :: d :: rest => do
    let e ← Text.numbered? [a, b, c, d]
    let r ← quoted quote rest
    return (e :: r.1, r.2)
  | '\\' :: '\r' :: '\n' :: rest => quoted quote rest
  | '\\' :: '\n' :: rest => quoted quote rest
  | '\\' :: c :: rest =>
    if c = 'x' || c = 'u' || (c.isDigit && c != '0') then none
    else (quoted quote rest).map fun r => ((escapes.lookup c).elim c Char.ofNat :: r.1, r.2)
  | c :: rest =>
    if c = quote then some ([], rest)
    else if c = '\n' || c = '\r' then none
    else (quoted quote rest).map fun r => (c :: r.1, r.2)

/-- Whether a character may stand in a name. -/
def isNameChar (c : Char) : Bool :=
  c.isAlphanum || c == '_' || c == '$' || 128 ≤ c.toNat

/-- Whether a character may stand in a number or a word. -/
def isWordChar (c : Char) : Bool := c.isAlphanum || ['+', '-', '.'].contains c

/-- The number written by an unsigned word. -/
def unsigned? (negative : Bool) (word : List Char) : Option Json :=
  let sign (n : Nat) : Int := if negative then -(n : Int) else n
  let wholePart := word.takeWhile Char.isDigit
  match word with
  | '0' :: x :: ds =>
    if x = 'x' || x = 'X' then
      ((Text.number? 16 ds).filter (· < 4294967296)).map fun n => .int (sign n)
    else if x.isDigit then none
    else (Decimal.unsigned? word).map fun y => .float (if negative then -y else y)
  | _ =>
    if !word.isEmpty && wholePart.length = word.length then
      let n := sign (Decimal.digitsValue word)
      if -9223372036854775808 ≤ n ∧ n ≤ 9223372036854775807 then some (.int n) else none
    else if word = "Infinity".toList then some (.float (if negative then -1.0 / 0.0 else 1.0 / 0.0))
    else if word = "NaN".toList then some (.float (0.0 / 0.0))
    else (Decimal.unsigned? word).map fun y => .float (if negative then -y else y)

/-- What a word stands for. -/
def word? (word : List Char) : Option Json :=
  if word = "null".toList then some .null
  else if word = "true".toList then some (.bool true)
  else if word = "false".toList then some (.bool false)
  else
    match word with
    | '-' :: rest => unsigned? true rest
    | '+' :: rest => unsigned? false rest
    | rest => unsigned? false rest

/-- The members with one put among them; of two with one name the later one counts. -/
def put (ms : List (String × Json)) (name : String) (v : Json) : List (String × Json) :=
  (ms.filter fun m => m.1 != name) ++ [(name, v)]

/-- Reads the name of a member. -/
def name? (cs : List Char) : Option (List Char × List Char) :=
  match cs with
  | '"' :: rest => quoted '"' rest
  | '\'' :: rest => quoted '\'' rest
  | c :: _ =>
    if c.isDigit || !isNameChar c then none
    else some (cs.takeWhile isNameChar, cs.dropWhile isNameChar)
  | [] => none

mutual

/-- Reads a value. Each call takes a character at least or leads to one that does, so twice their
number is fuel enough. -/
def value? : (fuel : Nat) → List Char → Option (Json × List Char)
  | 0, _ => none
  | fuel + 1, cs => do
    match ← Text.behindGap? cs with
    | '"' :: rest => (quoted '"' rest).map fun r => (.str (String.ofList r.1), r.2)
    | '\'' :: rest => (quoted '\'' rest).map fun r => (.str (String.ofList r.1), r.2)
    | '[' :: rest => (items? fuel rest).map fun r => (.arr r.1, r.2)
    | '\x7b' :: rest => (members? fuel [] rest).map fun r => (.obj r.1, r.2)
    | cs => (word? (cs.takeWhile isWordChar)).map fun v => (v, cs.dropWhile isWordChar)

/-- Reads the items of a list behind its opening bracket or a comma. -/
def items? : (fuel : Nat) → List Char → Option (List Json × List Char)
  | 0, _ => none
  | fuel + 1, cs => do
    match ← Text.behindGap? cs with
    | ']' :: rest => return ([], rest)
    | cs =>
      let (v, rest) ← value? fuel cs
      match ← Text.behindGap? rest with
      | ',' :: rest =>
        let (vs, rest) ← items? fuel rest
        return (v :: vs, rest)
      | ']' :: rest => return ([v], rest)
      | _ => none

/-- Reads the members of an object behind its opening brace or a comma, given those before. -/
def members? : (fuel : Nat) → List (String × Json) → List Char →
    Option (List (String × Json) × List Char)
  | 0, _, _ => none
  | fuel + 1, ms, cs => do
    match ← Text.behindGap? cs with
    | '\x7d' :: rest => return (ms, rest)
    | cs =>
      let (name, rest) ← name? cs
      match ← Text.behindGap? rest with
      | ':' :: rest =>
        let (v, rest) ← value? fuel rest
        let ms := put ms (String.ofList name) v
        match ← Text.behindGap? rest with
        | ',' :: rest => members? fuel ms rest
        | '\x7d' :: rest => return (ms, rest)
        | _ => none
      | _ => none

end

/-- The tree of a whole text. -/
def parse? (text : String) : Option Json := do
  let cs := text.toList
  let (v, rest) ← value? (2 * cs.length + 2) cs
  match ← Text.behindGap? rest with
  | [] => return v
  | _ => none

end Latchkey.Json.Relaxed
