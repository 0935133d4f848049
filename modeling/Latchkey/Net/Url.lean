import Latchkey.Net.Address

/-!
# Locators

A locator has a scheme and, behind two slashes, perhaps credentials, a host and a port; then come a
path and a query. Blanks around it do not belong to it and line ends within it are passed over. A
host is a name without delimiters, or an address of version 6 in brackets.
-/

namespace Latchkey.Net

/-- A locator. -/
structure Url where
  /-- The scheme, in small letters. -/
  scheme : String
  /-- The user, as written; empty if there is none. -/
  user : String := ""
  /-- The password, as written; empty if there is none. -/
  password : String := ""
  /-- The host. -/
  host : Option String := none
  /-- The port. -/
  port : Option Nat := none
  /-- The parts of the path between its slashes. -/
  path : List String := []
  /-- What is behind the question mark. -/
  query : String := ""
  deriving Repr, DecidableEq

namespace Url

/-! ## Escapes -/

/-- Decodes the escapes of bytes: a percent sign and two digits. -/
def unescape : List UInt8 → List UInt8
  | 0x25 :: a :: b :: rest =>
    match Text.digit? 16 (Char.ofNat a.toNat), Text.digit? 16 (Char.ofNat b.toNat) with
    | some x, some y => UInt8.ofNat (16 * x + y) :: unescape rest
    | _, _ => 0x25 :: unescape (a :: b :: rest)
  | b :: rest => b :: unescape rest
  | [] => []

/-- The text that an escaped text stands for, if it is one. -/
def unescaped? (s : String) : Option String :=
  String.fromUTF8? ⟨(unescape s.toUTF8.toList).toArray⟩

/-- The names and values of a query; a plus sign stands for a blank. -/
def queryPairs (query : String) : List (String × String) :=
  let clean (cs : List Char) : String :=
    let s := String.ofList (cs.map fun c => if c = '+' then ' ' else c)
    (unescaped? s).getD s
  (query.toList.splitOn '&').map fun cs =>
    (clean (cs.takeWhile (· != '=')), clean ((cs.dropWhile (· != '=')).drop 1))

/-! ## Parts -/

/-- The characters of a locator: without blanks around it and without line ends and tabs. -/
def clean (cs : List Char) : List Char :=
  let isBlank (c : Char) : Bool := c ≤ ' '
  let isBreak (c : Char) : Bool := c == '\t' || c == '\n' || c == '\r'
  let front := cs.dropWhile isBlank
  ((front.reverse.dropWhile isBlank).reverse).filter fun c => !isBreak c

/-- Reads the scheme in front. -/
def scheme? (cs : List Char) : Option (String × List Char) :=
  let isPart (c : Char) : Bool := c.isAlphanum || c == '+' || c == '-' || c == '.'
  match cs.takeWhile isPart, cs.dropWhile isPart with
  | c :: name, ':' :: rest =>
    if c.isAlpha then some (String.ofList ((c :: name).map Char.toLower), rest) else none
  | _, _ => none

/-- The characters that no host has. -/
def hostDelimiters : List Char :=
  ['\x00', '\t', '\n', '\r', ' ', '#', '/', ':', '<', '>', '?', '@', '[', '\\', ']', '^', '|']

/-- Reads a host. -/
def host? (cs : List Char) : Option String :=
  match cs with
  | '[' :: inner =>
    match six? inner with
    | some (groups, [']']) => some (sixText groups)
    | _ => none
  | _ => if cs.any hostDelimiters.contains then none else some (String.ofList cs)

/-- Divides at the first colon that is not in brackets. -/
def divideAtColon (inBrackets : Bool) : List Char → List Char × Option (List Char)
  | [] => ([], none)
  | c :: rest =>
    if c = ':' && !inBrackets then ([], some rest)
    else
      let r := divideAtColon (if c = '[' then true else if c = ']' then false else inBrackets) rest
      (c :: r.1, r.2)

/-- Reads a port, which may be empty. -/
def portPart? : Option (List Char) → Option (Option Nat)
  | none => some none
  | some [] => some none
  | some cs =>
    match decimal? 65535 cs with
    | some (n, []) => some (some n)
    | _ => none

/-- Divides at the last at sign. -/
def divideAtSign (cs : List Char) : List Char × List Char :=
  if cs.contains '@' then
    let back := cs.reverse
    (((back.dropWhile (· != '@')).drop 1).reverse, (back.takeWhile (· != '@')).reverse)
  else ([], cs)

/-- Reads what is behind the two slashes into a locator. -/
def authority? (u : Url) (cs : List Char) : Option Url := do
  let (credentials, place) := divideAtSign cs
  let (hostPart, portText) := divideAtColon false place
  let host ← host? hostPart
  let port ← portPart? portText
  if host.isEmpty && (portText.isSome || !credentials.isEmpty) then none
  else
    return { u with
      user := String.ofList (credentials.takeWhile (· != ':'))
      password := String.ofList ((credentials.dropWhile (· != ':')).drop 1)
      host := if host.isEmpty then none else some host
      port := port }

/-- Whether a part of a path is as many points, each perhaps escaped. -/
def isPoints (count : Nat) (part : List Char) : Bool :=
  let rec points : List Char → Option Nat
    | [] => some 0
    | '.' :: rest => (points rest).map (· + 1)
    | '%' :: '2' :: e :: rest =>
      if e = 'e' || e = 'E' then (points rest).map (· + 1) else none
    | _ => none
  points part == some count

/-- The parts of a path, with one point for "here" and two points for "one back" resolved. -/
def resolve (done : List String) : List (List Char) → List String
  | [] => done.reverse
  | part :: rest =>
    let isLast := rest.isEmpty
    if isPoints 2 part then resolve (if isLast then "" :: done.drop 1 else done.drop 1) rest
    else if isPoints 1 part then resolve (if isLast then "" :: done else done) rest
    else resolve (String.ofList part :: done) rest

/-- Reads a path. -/
def pathParts (cs : List Char) : List String :=
  match cs with
  | [] => []
  | '/' :: rest => resolve [] (rest.splitOn '/')
  | _ => resolve [] (cs.splitOn '/')

/-- Reads a locator. -/
def read? (text : String) : Option Url := do
  let (scheme, rest) ← scheme? (clean text.toList)
  let rest := rest.takeWhile (· != '#')
  let query := String.ofList ((rest.dropWhile (· != '?')).drop 1)
  let rest := rest.takeWhile (· != '?')
  let u : Url := { scheme := scheme, query := query }
  match rest with
  | '/' :: '/' :: rest =>
    let u ← authority? u (rest.takeWhile (· != '/'))
    return { u with path := pathParts (rest.dropWhile (· != '/')) }
  | _ => return { u with path := pathParts rest }

end Url

end Latchkey.Net
