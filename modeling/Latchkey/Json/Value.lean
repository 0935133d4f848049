import Latchkey.Decimal.Layout

/-!
# JSON values

A value is null, a truth value, a number, a text, a list or a list of named members in order. Whole
numbers and doubles are kept apart, as their texts differ: a double always shows a point or an
exponent. A double that is no number is written as `null`.
-/

namespace Latchkey

/-- A JSON value. -/
inductive Json where
  /-- Nothing. -/
  | null
  /-- A truth value. -/
  | bool (b : Bool)
  /-- A whole number. -/
  | int (n : Int)
  /-- A double. -/
  | float (x : Float)
  /-- A text. -/
  | str (s : String)
  /-- A list. -/
  | arr (items : List Json)
  /-- Named members, in order. -/
  | obj (members : List (String × Json))
  deriving Repr, Inhabited

namespace Json

/-- A natural number as a JSON value. -/
def nat (n : Nat) : Json := .int n

/-- An optional value, with null for none. -/
def option {α : Type} (f : α → Json) : Option α → Json
  | none => .null
  | some a => f a

/-- The value of the first member with the given name. -/
def get? (j : Json) (name : String) : Option Json :=
  match j with
  | .obj members => (members.find? fun m => m.1 == name).map (·.2)
  | _ => none

/-! ## Writing -/

/-- The lower-case digit of a number below sixteen. -/
def hexDigit (n : Nat) : Char := (Nat.toDigits 16 n).headD '0'

/-- A character as it stands in a written text. -/
def escapeChar (c : Char) : List Char :=
  if c = '"' then ['\\', '"']
  else if c = '\\' then ['\\', '\\']
  else if c = '\n' then ['\\', 'n']
  else if c = '\r' then ['\\', 'r']
  else if c = '\t' then ['\\', 't']
  else if c.toNat = 8 then ['\\', 'b']
  else if c.toNat = 12 then ['\\', 'f']
  else if c.toNat < 32 then ['\\', 'u', '0', '0', hexDigit (c.toNat / 16), hexDigit (c.toNat % 16)]
  else [c]

/-- A text in quotes. -/
def quote (s : String) : String :=
  "\"" ++ String.ofList (s.toList.flatMap escapeChar) ++ "\""

/-- The text of a double. -/
def floatText (x : Float) : String :=
  if x.isNaN || x.isInf then "null" else Decimal.text x .record

mutual

/-- The text of a value, without blanks. -/
def compact : Json → String
  | .null => "null"
  | .bool b => if b then "true" else "false"
  | .int n => toString n
  | .float x => floatText x
  | .str s => quote s
  | .arr items => "[" ++ compactItems items ++ "]"
  | .obj members => "\x7b" ++ compactMembers members ++ "\x7d"

/-- The texts of list items, with commas between them. -/
def compactItems : List Json → String
  | [] => ""
  | [j] => compact j
  | j :: rest => compact j ++ "," ++ compactItems rest

/-- The texts of members, with commas between them. -/
def compactMembers : List (String × Json) → String
  | [] => ""
  | [(name, j)] => quote name ++ ":" ++ compact j
  | (name, j) :: rest => quote name ++ ":" ++ compact j ++ "," ++ compactMembers rest

end

/-- The blanks in front of a line at the given depth. -/
def indent (depth : Nat) : String := String.ofList (List.replicate (2 * depth) ' ')

mutual

/-- The text of a value over several lines, two blanks per level. -/
def pretty (depth : Nat) : Json → String
  | .null => "null"
  | .bool b => if b then "true" else "false"
  | .int n => toString n
  | .float x => floatText x
  | .str s => quote s
  | .arr [] => "[]"
  | .arr items => "[" ++ prettyItems (depth + 1) items ++ "\n" ++ indent depth ++ "]"
  | .obj [] => "\x7b\x7d"
  | .obj members => "\x7b" ++ prettyMembers (depth + 1) members ++ "\n" ++ indent depth ++ "\x7d"

/-- The lines of list items. -/
def prettyItems (depth : Nat) : List Json → String
  | [] => ""
  | [j] => "\n" ++ indent depth ++ pretty depth j
  | j :: rest => "\n" ++ indent depth ++ pretty depth j ++ "," ++ prettyItems depth rest

/-- The lines of members. -/
def prettyMembers (depth : Nat) : List (String × Json) → String
  | [] => ""
  | [(name, j)] => "\n" ++ indent depth ++ quote name ++ ": " ++ pretty depth j
  | (name, j) :: rest =>
    "\n" ++ indent depth ++ quote name ++ ": " ++ pretty depth j ++ ","
      ++ prettyMembers depth rest

end

end Json

end Latchkey
