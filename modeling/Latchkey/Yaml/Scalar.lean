import Latchkey.Text.Digits

/-!
# YAML scalars

The texts that stand for themselves in a YAML document: plain ones, ones in single or double quotes,
and blocks of lines. In all but the last a single line break counts as a blank and further ones as
breaks, without the blanks around them. Lines end with a line feed here, whatever ended them in the
document.
-/

namespace Latchkey.Yaml

/-- Whether a character separates words on a line. -/
def isBlank (c : Char) : Bool := c == ' ' || c == '\t'

/-- Whether a word ends here: at a blank, a line break or the end of the document. -/
def endsWord : List Char → Bool
  | [] => true
  | c :: _ => isBlank c || c == '\n'

/-- Whether a character is a mark within brackets and braces. -/
def isFlowMark (c : Char) : Bool := [',', '[', ']', '\x7b', '\x7d'].contains c

/-- Whether a line that starts here begins or ends a document. -/
def isDocumentMark : List Char → Bool
  | '-' :: '-' :: '-' :: rest => endsWord rest
  | '.' :: '.' :: '.' :: rest => endsWord rest
  | _ => false

/-- The blanks and line breaks between two words of a scalar. -/
structure Gap where
  /-- The blanks, if there is no line break, the last one first. -/
  blanks : List Char := []
  /-- There is a line break. -/
  broken : Bool := false
  /-- The line break is escaped, so that it does not count. -/
  escaped : Bool := false
  /-- The number of further line breaks. -/
  further : Nat := 0

namespace Gap

/-- The gap with one more blank. -/
def blank (g : Gap) (c : Char) : Gap := if g.broken then g else { g with blanks := c :: g.blanks }

/-- The gap with one more line break. -/
def lineBreak (g : Gap) : Gap :=
  if g.broken then { g with further := g.further + 1 }
  else { broken := true }

/-- Whether there is no gap. -/
def isNone (g : Gap) : Bool := !g.broken && g.blanks.isEmpty

/-- What the gap counts as, backwards. -/
def folded (g : Gap) : List Char :=
  if !g.broken then g.blanks
  else if g.further = 0 then (if g.escaped then [] else [' '])
  else List.replicate g.further '\n'

end Gap

/-! ## Plain scalars -/

/-- The place of a plain scalar. -/
structure PlainPlace where
  /-- It is within brackets or braces. -/
  inFlow : Bool
  /-- Outside of brackets and braces, further lines start at this column at least. -/
  leastColumn : Int

/-- Whether a plain scalar ends before a character, given what is between them. -/
def PlainPlace.endsBefore (p : PlainPlace) (gap : Gap) (column : Nat) (cs : List Char) : Bool :=
  match cs with
  | [] => true
  | c :: rest =>
    (c == '#' && !gap.isNone)
      || (gap.broken && ((column == 0 && isDocumentMark cs)
        || (!p.inFlow && decide ((column : Int) < p.leastColumn))))
      || (c == ':' && (endsWord rest || (p.inFlow && rest.head?.any isFlowMark)))
      || (p.inFlow && isFlowMark c)

/-- Reads a plain scalar on from a gap: its text, backwards, and what is behind its last word. -/
def plain (p : PlainPlace) (column : Nat) (text : List Char) (behind : List Char) (gap : Gap) :
    List Char → List Char × List Char
  | [] => (text, behind)
  | c :: rest =>
    if isBlank c then plain p (column + 1) text behind (gap.blank c) rest
    else if c = '\n' then plain p 0 text behind gap.lineBreak rest
    else if p.endsBefore gap column (c :: rest) then (text, behind)
    else plain p (column + 1) (c :: gap.folded ++ text) rest {} rest

/-! ## Quoted scalars -/

/-- Reads a scalar in single quotes behind the opening one: its text, backwards, and what is behind
the closing quote. A quote in it is written twice. -/
def singleQuoted (column : Nat) (text : List Char) (gap : Gap) :
    List Char → Option (List Char × List Char)
  | [] => none
  | '\'' :: '\'' :: rest => singleQuoted (column + 2) ('\'' :: gap.folded ++ text) {} rest
  | '\'' :: rest => some (gap.folded ++ text, rest)
  | '\n' :: rest => singleQuoted 0 text gap.lineBreak rest
  | c :: rest =>
    if column = 0 && isDocumentMark (c :: rest) then none
    else if isBlank c then singleQuoted (column + 1) text (gap.blank c) rest
    else singleQuoted (column + 1) (c :: gap.folded ++ text) {} rest

/-- The characters that escapes of one letter stand for. -/
def escapes : List (Char × Nat) :=
  [('0', 0), ('a', 7), ('b', 8), ('t', 9), ('\t', 9), ('n', 10), ('v', 11), ('f', 12), ('r', 13),
    ('e', 27), (' ', 32), ('"', 34), ('/', 47), ('\\', 92), ('N', 0x85), ('_', 0xa0),
    ('L', 0x2028), ('P', 0x2029)]

/-- The number of digits of an escape by number. -/
def escapeDigits? (c : Char) : Option Nat :=
  if c = 'x' then some 2 else if c = 'u' then some 4 else if c = 'U' then some 8 else none

/-- Reads a scalar in double quotes behind the opening one: its text, backwards, and what is behind
the closing quote. Every character read leaves one less, so their number is fuel enough. -/
def doubleQuoted : (fuel : Nat) → (column : Nat) → (text : List Char) → Gap → List Char →
    Option (List Char × List Char)
  | 0, _, _, _, _ => none
  | _, _, _, _, [] => none
  | _, _, text, gap, '"' :: rest => some (gap.folded ++ text, rest)
  | fuel + 1, _, text, gap, '\n' :: rest => doubleQuoted fuel 0 text gap.lineBreak rest
  | fuel + 1, _, text, gap, '\\' :: '\n' :: rest =>
    doubleQuoted fuel 0 (gap.folded ++ text) { broken := true, escaped := true } rest
  | fuel + 1, column, text, gap, '\\' :: c :: rest =>
    match escapes.lookup c, escapeDigits? c with
    | some n, _ => doubleQuoted fuel (column + 2) (Char.ofNat n :: gap.folded ++ text) {} rest
    | none, some count => do
      if rest.length < count then none
      let d ← Text.numbered? (rest.take count)
      doubleQuoted fuel (column + 2 + count) (d :: gap.folded ++ text) {} (rest.drop count)
    | none, none => none
  | fuel + 1, column, text, gap, c :: rest =>
    if column = 0 && isDocumentMark (c :: rest) then none
    else if isBlank c then doubleQuoted fuel (column + 1) text (gap.blank c) rest
    else doubleQuoted fuel (column + 1) (c :: gap.folded ++ text) {} rest

/-! ## Blocks of lines -/

/-- What becomes of the line breaks at the end of a block. -/
inductive Chomping where
  /-- None is kept. -/
  | strip
  /-- One is kept. -/
  | clip
  /-- All are kept. -/
  | keep
  deriving Repr, DecidableEq

/-- The head of a block. -/
structure BlockHead where
  /-- What becomes of the line breaks at its end. -/
  chomping : Chomping := .clip
  /-- The number of blanks in front of each line, beyond those of the surroundings. -/
  increment : Option Nat := none

/-- Reads the head of a block, which ends its line; gives what is behind the line break. -/
def blockHead? (h : BlockHead) (afterBlank : Bool) : List Char → Option (BlockHead × List Char)
  | [] => some (h, [])
  | '\n' :: rest => some (h, rest)
  | c :: rest =>
    if isBlank c then blockHead? h true rest
    else if afterBlank then
      if c = '#' then some (h, (rest.dropWhile (· != '\n')).drop 1) else none
    else if c = '+' then blockHead? { h with chomping := .keep } false rest
    else if c = '-' then blockHead? { h with chomping := .strip } false rest
    else if c.isDigit && c != '0' && h.increment.isNone then
      blockHead? { h with increment := some (c.toNat - '0'.toNat) } false rest
    else none

/-- The number of blanks in front. -/
def leadingBlanks (cs : List Char) : Nat := (cs.takeWhile (· == ' ')).length

/-- The line in front, and what is behind its line break if it has one. -/
def takeLine (cs : List Char) : List Char × Option (List Char) :=
  match cs.dropWhile (· != '\n') with
  | [] => (cs, none)
  | _ :: rest => (cs.takeWhile (· != '\n'), some rest)

/-- The lines of a text, the last one of which has no line break behind it. -/
def allLines (cs : List Char) : List (List Char) := cs.splitOn '\n'

/-- The blanks in front of the lines of a block, as its first line that has anything else shows. -/
def detectIndent (least : Nat) : List (List Char) → Nat
  | [] => least
  | line :: rest =>
    let blanks := leadingBlanks line
    if blanks = line.length then detectIndent (max least blanks) rest else max least blanks

/-- What is read of a block. -/
structure BlockText where
  /-- The text, backwards. -/
  text : List Char := []
  /-- The last line has a line break behind it. -/
  broken : Bool := false
  /-- The last line starts with a blank. -/
  blankFirst : Bool := false
  /-- The number of empty lines since the last line. -/
  empties : Nat := 0

/-- The block text with one more line. -/
def BlockText.add (literal : Bool) (b : BlockText) (line : List Char) (broken : Bool) : BlockText :=
  let blankFirst := line.head?.any isBlank
  let joint :=
    if !b.broken then []
    else if !literal && !b.blankFirst && !blankFirst then (if b.empties = 0 then [' '] else [])
    else ['\n']
  { text := line.reverse ++ List.replicate b.empties '\n' ++ joint ++ b.text
    broken := broken
    blankFirst := blankFirst }

/-- Reads the lines of a block: those that start with at least so many blanks, and the empty ones
among them. Each line read leaves less, so the number of characters is fuel enough. -/
def blockLines (literal : Bool) (indent : Nat) :
    (fuel : Nat) → BlockText → List Char → BlockText × List Char
  | 0, b, cs => (b, cs)
  | fuel + 1, b, cs =>
    let (line, rest) := takeLine cs
    let blanks := leadingBlanks line
    if indent ≤ blanks && indent < line.length then
      match rest with
      | some rest => blockLines literal indent fuel (b.add literal (line.drop indent) true) rest
      | none => (b.add literal (line.drop indent) false, [])
    else if blanks = line.length then
      match rest with
      | some rest => blockLines literal indent fuel { b with empties := b.empties + 1 } rest
      | none => (b, [])
    else (b, cs)

/-- Reads a block behind the mark that starts it, given the column of its surroundings: its text,
and what is behind it. -/
def block? (literal : Bool) (surrounding : Int) (cs : List Char) :
    Option (List Char × List Char) := do
  let (head, cs) ← blockHead? {} false cs
  let outer := surrounding.toNat
  let indent := match head.increment with
    | some n => outer + n
    | none => detectIndent (max 1 (surrounding + 1).toNat) (allLines cs)
  let (b, rest) := blockLines literal indent cs.length {} cs
  let ending := match head.chomping with
    | .strip => []
    | .clip => if b.broken then ['\n'] else []
    | .keep => List.replicate (b.empties + if b.broken then 1 else 0) '\n'
  return ((ending ++ b.text).reverse, rest)

end Latchkey.Yaml
