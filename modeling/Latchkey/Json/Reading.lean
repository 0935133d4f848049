import Latchkey.Json.Raw
import Latchkey.Json.Value

/-!
# Reading JSON values

What the numbers and quoted texts of a JSON text stand for. A number without a point or an exponent
is whole if it fits into 64 bits, signed or unsigned; every other number is a double and must not be
too large for one. An escape by number may be a pair that stands for one character, but half of
such a pair stands for nothing.
-/

namespace Latchkey.Json

/-- The value of a hexadecimal digit. -/
def hexValue (c : Char) : Nat :=
  if c.isDigit then c.toNat - '0'.toNat
  else if 'a' ≤ c then c.toNat - 'a'.toNat + 10
  else c.toNat - 'A'.toNat + 10

/-- The value of four hexadecimal digits. -/
def hexValue4 (a b c d : Char) : Nat :=
  ((hexValue a * 16 + hexValue b) * 16 + hexValue c) * 16 + hexValue d

/-- The character a one-letter escape stands for. -/
def simpleEscape (c : Char) : Char :=
  if c = 'n' then '\n'
  else if c = 't' then '\t'
  else if c = 'r' then '\r'
  else if c = 'b' then Char.ofNat 8
  else if c = 'f' then Char.ofNat 12
  else c

/-- The characters a quoted text stands for. -/
def unquote? : List Char → Option (List Char)
  | '\\' :: 'u' :: a :: b :: c :: d :: '\\' :: 'u' :: e :: f :: g :: h :: rest =>
    let first := hexValue4 a b c d
    let second := hexValue4 e f g h
    if 0xD800 ≤ first ∧ first < 0xDC00 then
      if 0xDC00 ≤ second ∧ second < 0xE000 then
        (unquote? rest).map
          (Char.ofNat (0x10000 + (first - 0xD800) * 0x400 + (second - 0xDC00)) :: ·)
      else none
    else if 0xDC00 ≤ first ∧ first < 0xE000 then none
    else (unquote? ('\\' :: 'u' :: e :: f :: g :: h :: rest)).map (Char.ofNat first :: ·)
  | '\\' :: 'u' :: a :: b :: c :: d :: rest =>
    let n := hexValue4 a b c d
    if 0xD800 ≤ n ∧ n < 0xE000 then none else (unquote? rest).map (Char.ofNat n :: ·)
  | '\\' :: c :: rest => (unquote? rest).map (simpleEscape c :: ·)
  | c :: rest => (unquote? rest).map (c :: ·)
  | [] => some []

/-- The text a quoted text stands for. -/
def text? (written : List Char) : Option String := (unquote? written).map String.ofList

/-- The greatest number of 64 bits. -/
def maxWord : Nat := 18446744073709551615

/-- The whole number written by digits with an optional minus, if it fits into 64 bits. -/
def whole? (written : List Char) : Option Int :=
  match written with
  | '-' :: ds =>
    let n := Decimal.digitsValue ds
    if ds.all Char.isDigit ∧ 0 < n ∧ n ≤ 9223372036854775808 then some (-(n : Int)) else none
  | ds =>
    let n := Decimal.digitsValue ds
    if ds.all Char.isDigit ∧ n ≤ maxWord then some n else none

/-- The double a number stands for, if it is not too large. -/
def float? (written : List Char) : Option Float :=
  match Decimal.read? (String.ofList written) with
  | some x => if x.isInf then none else some x
  | none => none

mutual

/-- The value of a tree. -/
def ofRaw? : Raw → Option Json
  | .null => some .null
  | .bool b => some (.bool b)
  | .number written =>
    match whole? written with
    | some n => some (.int n)
    | none => (float? written).map .float
  | .quoted written => (text? written).map .str
  | .list items => (itemsOfRaw? items).map .arr
  | .object members => (membersOfRaw? members).map .obj

/-- The values of the items of a list. -/
def itemsOfRaw? : List Raw → Option (List Json)
  | [] => some []
  | r :: rest =>
    match ofRaw? r, itemsOfRaw? rest with
    | some j, some js => some (j :: js)
    | _, _ => none

/-- The names and values of the members of an object. -/
def membersOfRaw? : List (List Char × Raw) → Option (List (String × Json))
  | [] => some []
  | (name, r) :: rest =>
    match text? name, ofRaw? r, membersOfRaw? rest with
    | some n, some j, some js => some ((n, j) :: js)
    | _, _, _ => none

end

/-- The value of a whole text. -/
def parse? (s : String) : Option Json := (raw? s).bind ofRaw?

end Latchkey.Json
