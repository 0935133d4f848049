import Latchkey.Text.Digits

/-!
# Internet addresses

An address of version 4 is four bytes and one of version 6 is eight groups of sixteen bits; with a
port it is a socket address. The written form that is read is strict: a byte has no leading zeros,
and nothing may stand before or after the address. The form that is written is the shortest one.
-/

namespace Latchkey.Net

open Text (digit? digitsValue takeDigits)

/-- An address. -/
inductive IpAddress where
  /-- Version 4, by its four bytes. -/
  | four (bytes : List Nat)
  /-- Version 6, by its eight groups. -/
  | six (groups : List Nat)
  deriving Repr, DecidableEq

/-- An address with a port. -/
structure SocketAddress where
  /-- The address. -/
  ip : IpAddress
  /-- The number of the interface, for an address of version 6; zero if none is given. -/
  scope : Nat := 0
  /-- The port. -/
  port : Nat
  deriving Repr, DecidableEq

/-! ## Reading -/

/-- Reads a decimal number up to a limit. -/
def decimal? (limit : Nat) (s : List Char) : Option (Nat × List Char) :=
  match takeDigits 10 s with
  | ([], _) => none
  | (ds, rest) =>
    let n := digitsValue 10 ds
    if n ≤ limit then some (n, rest) else none

/-- Reads a byte, which has no leading zeros. -/
def byte? (s : List Char) : Option (Nat × List Char) :=
  match takeDigits 10 s with
  | ([], _) => none
  | (0 :: _ :: _, _) => none
  | (ds, rest) =>
    let n := digitsValue 10 ds
    if n ≤ 255 then some (n, rest) else none

/-- Reads bytes with a point before each. -/
def moreBytes? : (count : Nat) → List Char → Option (List Nat × List Char)
  | 0, s => some ([], s)
  | count + 1, '.' :: s => do
    let (b, s) ← byte? s
    let (bs, s) ← moreBytes? count s
    return (b :: bs, s)
  | _ + 1, _ => none

/-- Reads an address of version 4. -/
def four? (s : List Char) : Option (List Nat × List Char) := do
  let (b, s) ← byte? s
  let (bs, s) ← moreBytes? 3 s
  return (b :: bs, s)

/-- Reads a group, of at most four digits. -/
def group? (s : List Char) : Option (Nat × List Char) :=
  match takeDigits 16 s with
  | ([], _) => none
  | (ds, rest) => if ds.length ≤ 4 then some (digitsValue 16 ds, rest) else none

/-- What is behind the colon that stands before all but the first group. -/
def behindColon? (isFirst : Bool) (s : List Char) : Option (List Char) :=
  match isFirst, s with
  | true, s => some s
  | false, ':' :: s => some s
  | false, _ => none

/-- The groups in front, as far as they go. -/
structure Groups where
  /-- The groups. -/
  groups : List Nat
  /-- The last two are written as an address of version 4. -/
  embedded : Bool
  /-- What is behind them. -/
  rest : List Char

/-- Reads at most so many groups with colons between them. -/
def takeGroups (isFirst : Bool) : (count : Nat) → List Char → Groups
  | 0, s => ⟨[], false, s⟩
  | count + 1, s =>
    let four := if count = 0 then none else (behindColon? isFirst s).bind four?
    match four with
    | some ([a, b, c, d], rest) => ⟨[a * 256 + b, c * 256 + d], true, rest⟩
    | _ =>
      match (behindColon? isFirst s).bind group? with
      | some (g, rest) =>
        let r := takeGroups false count rest
        { r with groups := g :: r.groups }
      | none => ⟨[], false, s⟩

/-- Reads an address of version 6. Two colons stand for at least one group of zero. -/
def six? (s : List Char) : Option (List Nat × List Char) :=
  let head := takeGroups true 8 s
  if head.groups.length = 8 then some (head.groups, head.rest)
  else if head.embedded then none
  else
    match head.rest with
    | ':' :: ':' :: rest =>
      let tail := takeGroups true (7 - head.groups.length) rest
      let zeros := 8 - head.groups.length - tail.groups.length
      some (head.groups ++ List.replicate zeros 0 ++ tail.groups, tail.rest)
    | _ => none

/-- Reads the number of an interface, if one is given. -/
def scope? : List Char → Option (Nat × List Char)
  | '%' :: s => decimal? 4294967295 s
  | s => some (0, s)

/-- Reads the port behind an address, with nothing behind it. -/
def port? : List Char → Option Nat
  | ':' :: s =>
    match decimal? 65535 s with
    | some (n, []) => some n
    | _ => none
  | _ => none

/-- Reads an address of version 6 in brackets. -/
def bracketed? : List Char → Option SocketAddress
  | '[' :: s => do
    let (groups, s) ← six? s
    let (scope, s) ← scope? s
    match s with
    | ']' :: s => return ⟨.six groups, scope, ← port? s⟩
    | _ => none
  | _ => none

/-- Reads a socket address. -/
def SocketAddress.read? (text : String) : Option SocketAddress :=
  let s := text.toList
  match four? s with
  | some (bytes, rest) => (port? rest).map fun p => ⟨.four bytes, 0, p⟩
  | none => bracketed? s

/-! ## Writing -/

/-- Writes a group. -/
def groupText (g : Nat) : String := String.ofList (Nat.toDigits 16 g)

/-- Writes the bytes of an address of version 4. -/
def fourText (bytes : List Nat) : String := String.intercalate "." (bytes.map Nat.repr)

/-- The number of zeros in front. -/
def zerosInFront : List Nat → Nat
  | 0 :: rest => zerosInFront rest + 1
  | _ => 0

/-- The start and the length of the first of the longest intervals of zeros, looking from a
position on. -/
def longestZeros (position : Nat) : List Nat → Nat × Nat
  | [] => (position, 0)
  | g :: rest =>
    let here := zerosInFront (g :: rest)
    let later := longestZeros (position + 1) rest
    if later.2 ≤ here then (position, here) else later

/-- Writes the groups of an address of version 6: two colons stand for the longest interval of two
or more zeros, and an address that stands for one of version 4 shows it. -/
def sixText (groups : List Nat) : String :=
  match groups with
  | [0, 0, 0, 0, 0, 65535, g, h] =>
    "::ffff:" ++ fourText [g / 256, g % 256, h / 256, h % 256]
  | _ =>
    let (start, length) := longestZeros 0 groups
    if 2 ≤ length then
      String.intercalate ":" ((groups.take start).map groupText) ++ "::"
        ++ String.intercalate ":" ((groups.drop (start + length)).map groupText)
    else String.intercalate ":" (groups.map groupText)

/-- Writes a socket address. -/
def SocketAddress.text (a : SocketAddress) : String :=
  match a.ip with
  | .four bytes => fourText bytes ++ ":" ++ Nat.repr a.port
  | .six groups =>
    let scope := if a.scope = 0 then "" else "%" ++ Nat.repr a.scope
    "[" ++ sixText groups ++ scope ++ "]:" ++ Nat.repr a.port

end Latchkey.Net
