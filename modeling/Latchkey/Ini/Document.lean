import Latchkey.Json.Value
import Latchkey.Text.Blank
import Latchkey.Text.Digits

/-!
# INI documents

A document has entries, each a key and a text, and sections that entries belong to. A key goes up to
the next equals sign or colon and a text up to the end of its line; parts of a text in quotes keep
their blanks. A backslash escapes the character behind it. A comment takes a whole line.
-/

namespace Latchkey.Ini

/-- The characters that escapes of one letter stand for, of those that do not stand for
themselves. -/
def escapes : List (Char × Nat) :=
  [('0', 0), ('a', 7), ('b', 8), ('t', 9), ('r', 13), ('n', 10)]

/-- Reads up to one of the given characters: what is before it, and what starts with it. Only where
`mayEnd` is set may the document end first. -/
def upTo (stops : List Char) (mayEnd : Bool) : List Char → Option (List Char × List Char)
  | [] => if mayEnd then some ([], []) else none
  | '\\' :: 'x' :: a :: b :: c :: d :: rest => do
    let e ← Text.numbered? [a, b, c, d]
    let r ← upTo stops mayEnd rest
    return (e :: r.1, r.2)
  | '\\' :: '\n' :: rest => upTo stops mayEnd rest
  | '\\' :: c :: rest =>
    if c = 'x' then none
    else
      (upTo stops mayEnd rest).map fun r =>
        (((escapes.lookup c).elim c Char.ofNat) :: r.1, r.2)
  | c :: rest =>
    if stops.contains c then some ([], c :: rest)
    else (upTo stops mayEnd rest).map fun r => (c :: r.1, r.2)

/-- Reads the text of an entry. A part in quotes goes up to the next such quote; what is not in
quotes takes the rest of the line. Each part takes a character at least, so their number is fuel
enough. -/
def textOf? (isFirst : Bool) : (fuel : Nat) → List Char → Option (List Char × List Char)
  | 0, _ => none
  | _, [] => some ([], [])
  | fuel + 1, c :: rest =>
    if c = '"' || c = '\'' then do
      let (part, rest) ← upTo [c] false rest
      let (more, rest) ← textOf? false fuel (rest.drop 1)
      return (part ++ more, rest)
    else do
      let (part, rest) ← upTo ['\n', '\r'] true (c :: rest)
      return (if isFirst then Text.trim part else Text.trimEnd Text.isBlank part, rest)

/-- The sections of a document; the entries before the first header are in the one without a
name. -/
abbrev Sections := List (Option String × List (String × Json))

/-- The sections with an entry added to the last one. -/
def addEntry (s : Sections) (key : String) (v : Json) : Sections :=
  match s with
  | [] => [(none, [(key, v)])]
  | (name, entries) :: rest => (name, (entries.filter fun e => e.1 != key) ++ [(key, v)]) :: rest

/-- Whether a character is a blank that does not end a line. -/
def isInnerBlank (c : Char) : Bool := Text.isBlank c && c != '\n' && c != '\r'

/-- Reads the sections that are left; `atStart` tells that nothing precedes on the line. Each round
takes a character at least, so their number is fuel enough. -/
def readAll : (fuel : Nat) → (atStart : Bool) → Sections → List Char → Option Sections
  | 0, _, _, _ => none
  | _, _, s, [] => some s
  | fuel + 1, atStart, s, c :: rest =>
    if Text.isBlank c then readAll fuel (c = '\n') s rest
    else if c = ';' || c = '#' then
      if atStart then readAll fuel false s (rest.dropWhile (· != '\n')) else none
    else if c = '[' then do
      let (name, rest) ← upTo [']'] false rest
      readAll fuel false ((some (String.ofList (Text.trim name)), []) :: s) (rest.drop 1)
    else do
      let (key, rest) ← upTo ['=', ':'] false (c :: rest)
      let key := Text.trim key
      if key.isEmpty then none
      let rest := (rest.drop 1).dropWhile isInnerBlank
      let (text, rest) ← textOf? true (rest.length + 1) rest
      readAll fuel false (addEntry s (String.ofList key) (.str (String.ofList text))) rest

/-- The members that sections stand for; of two with one name the later one counts. -/
def membersOf (s : Sections) : List (String × Json) :=
  s.reverse.foldl
    (fun ms part =>
      let put (ms : List (String × Json)) (e : String × Json) :=
        (ms.filter fun m => m.1 != e.1) ++ [e]
      match part with
      | (none, entries) => entries.foldl put ms
      | (some name, entries) => put ms (name, .obj entries))
    []

/-- The tree of a document. -/
def parse? (text : String) : Option Json :=
  let cs := text.toList
  (readAll (cs.length + 1) true [] cs).map fun s => .obj (membersOf s)

end Latchkey.Ini
