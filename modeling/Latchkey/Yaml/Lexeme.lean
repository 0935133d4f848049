import Latchkey.Yaml.Scalar

/-!
# The lexemes of a YAML document

A document is divided into marks and scalars, and its layout into marks too: a deeper column starts
a mapping or a sequence and a lesser one ends it. That something is a key is seen only at the colon
behind it, so the marks for it are put in at the place where it started. Within brackets and braces
the layout does not count.
-/

namespace Latchkey.Yaml

/-- One piece of a document. -/
inductive Lexeme where
  /-- A line that instructs the reader. -/
  | directive
  /-- The start of a document. -/
  | documentStart
  /-- The end of a document. -/
  | documentEnd
  /-- The start of a sequence by layout. -/
  | sequenceStart
  /-- The start of a mapping by layout. -/
  | mappingStart
  /-- The end of what was started by layout. -/
  | layoutEnd
  /-- An opening square bracket. -/
  | openList
  /-- A closing square bracket. -/
  | closeList
  /-- An opening brace. -/
  | openMap
  /-- A closing brace. -/
  | closeMap
  /-- A comma. -/
  | comma
  /-- A hyphen in front of an item. -/
  | item
  /-- What follows is a key. -/
  | key
  /-- What follows is the value of a key. -/
  | value
  /-- A node that was named before. -/
  | alias (name : String)
  /-- A name for the node that follows. -/
  | anchor (name : String)
  /-- The type of the node that follows. -/
  | tag (text : String)
  /-- A scalar; a plain one may stand for something else than a text. -/
  | scalar (plain : Bool) (text : String)
  deriving Repr, DecidableEq

/-- Something that may turn out to be a key. -/
structure Candidate where
  /-- It has to be one. -/
  required : Bool
  /-- The number of lexemes before it. -/
  place : Nat
  /-- The line on which it starts. -/
  line : Nat
  /-- The column in which it starts. -/
  column : Nat
  /-- The number of characters before it. -/
  index : Nat
  deriving Repr, DecidableEq

/-- The state of dividing a document. -/
structure Lexer where
  /-- What is left of the document. -/
  rest : List Char
  /-- The line. -/
  line : Nat := 0
  /-- The column. -/
  column : Nat := 0
  /-- The number of characters read. -/
  index : Nat := 0
  /-- The column of the innermost mapping or sequence by layout; negative for none. -/
  indent : Int := -1
  /-- The columns around it. -/
  outer : List Int := []
  /-- The candidates, one for each open bracket or brace and one for what is around them, the
  innermost first. -/
  candidates : List (Option Candidate) := [none]
  /-- A key may start here. -/
  keyAllowed : Bool := true
  /-- The lexemes found. -/
  found : Array Lexeme := #[]

namespace Lexer

/-- Whether a bracket or a brace is open. -/
def inFlow (s : Lexer) : Bool := 1 < s.candidates.length

/-- The state after one character. -/
def next (s : Lexer) : Lexer :=
  match s.rest with
  | [] => s
  | c :: rest =>
    if c = '\n' then { s with rest := rest, line := s.line + 1, column := 0, index := s.index + 1 }
    else { s with rest := rest, column := s.column + 1, index := s.index + 1 }

/-- The state after so many characters. -/
def skip (s : Lexer) : Nat → Lexer
  | 0 => s
  | n + 1 => s.next.skip n

/-- The state at a later place, given what is left there. -/
def goTo (s : Lexer) (rest : List Char) : Lexer := s.skip (s.rest.length - rest.length)

/-- The state with one more lexeme. -/
def emit (s : Lexer) (t : Lexeme) : Lexer := { s with found := s.found.push t }

/-! ## Layout -/

/-- Ends all that was started by layout in a deeper column. -/
def unroll (s : Lexer) (column : Int) : Lexer :=
  if s.inFlow then s
  else
    let deeper := s.indent :: s.outer
    let ended := (deeper.takeWhile fun i => decide (column < i)).length
    let left := deeper.drop ended
    { s with
      indent := left.headD (-1)
      outer := left.drop 1
      found := s.found ++ Array.replicate ended .layoutEnd }

/-- Starts a mapping or a sequence by layout if the column is a deeper one, at a place among the
lexemes. -/
def roll (s : Lexer) (column place : Nat) (t : Lexeme) : Lexer :=
  if !s.inFlow && decide (s.indent < column) then
    { s with
      indent := column
      outer := s.indent :: s.outer
      found := s.found.insertIdxIfInBounds place t }
  else s

/-! ## Keys -/

/-- The innermost candidate. -/
def candidate? (s : Lexer) : Option Candidate := s.candidates.head?.join

/-- The state with another innermost candidate. -/
def setCandidate (s : Lexer) (c : Option Candidate) : Lexer :=
  { s with candidates := c :: s.candidates.drop 1 }

/-- Gives up the innermost candidate; one that has to be a key must not be given up. -/
def giveUp (s : Lexer) : Option Lexer :=
  if s.candidate?.any (·.required) then none else some (s.setCandidate none)

/-- Makes what starts here the innermost candidate, where a key is allowed. -/
def propose (s : Lexer) : Option Lexer :=
  if s.keyAllowed then
    s.giveUp.map fun t => t.setCandidate <| some
      { required := !s.inFlow && s.indent == s.column
        place := s.found.size
        line := s.line
        column := s.column
        index := s.index }
  else some s

/-- Gives up the candidates that started on another line or too far before. -/
def dropStale (s : Lexer) : Option Lexer :=
  let isStale (c : Candidate) : Bool :=
    decide (c.line < s.line) || decide (c.index + 1024 < s.index)
  if s.candidates.any fun c => c.any fun c => isStale c && c.required then none
  else
    some { s with candidates := s.candidates.map fun c => c.filter fun c => !isStale c }

/-! ## Gaps -/

/-- Passes over blanks, comments and line breaks; each character is looked at once, so their number
is fuel enough. -/
def skipGap (s : Lexer) : Nat → Lexer
  | 0 => s
  | fuel + 1 =>
    match s.rest with
    | ' ' :: _ => s.next.skipGap fuel
    | '\t' :: _ => if s.inFlow || !s.keyAllowed then s.next.skipGap fuel else s
    | '#' :: _ => (s.goTo (s.rest.dropWhile (· != '\n'))).skipGap fuel
    | '\n' :: _ =>
      let t := s.next
      { t with keyAllowed := s.keyAllowed || !s.inFlow }.skipGap fuel
    | _ => s

/-! ## Marks -/

/-- Reads a mark that opens brackets or braces. -/
def openFlow (s : Lexer) (t : Lexeme) : Option Lexer := do
  let s ← s.propose
  let s := { s with candidates := none :: s.candidates, keyAllowed := true }
  return s.next.emit t

/-- Reads a mark that closes brackets or braces. -/
def closeFlow (s : Lexer) (t : Lexeme) : Option Lexer := do
  let s ← s.giveUp
  let s := { s with candidates := if s.inFlow then s.candidates.drop 1 else s.candidates }
  return { s with keyAllowed := false }.next.emit t

/-- Reads a comma. -/
def readComma (s : Lexer) : Option Lexer := do
  let s ← s.giveUp
  return { s with keyAllowed := true }.next.emit .comma

/-- Reads a hyphen in front of an item. -/
def readItem (s : Lexer) : Option Lexer :=
  if s.inFlow || !s.keyAllowed then none
  else do
    let s ← (s.roll s.column s.found.size .sequenceStart).giveUp
    return { s with keyAllowed := true }.next.emit .item

/-- Reads a question mark in front of a key. -/
def readKey (s : Lexer) : Option Lexer :=
  if !s.inFlow && !s.keyAllowed then none
  else do
    let s ← (s.roll s.column s.found.size .mappingStart).giveUp
    return { s with keyAllowed := !s.inFlow }.next.emit .key

/-- Reads a colon in front of a value. -/
def readValue (s : Lexer) : Option Lexer :=
  match s.candidate? with
  | some c =>
    let s := { s with found := s.found.insertIdxIfInBounds c.place .key }
    let s := s.roll c.column c.place .mappingStart
    some <| ({ s.setCandidate none with keyAllowed := false }.next).emit .value
  | none =>
    if s.inFlow then some (({ s with keyAllowed := false }.next).emit .value)
    else if s.keyAllowed then
      let s := s.roll s.column s.found.size .mappingStart
      some (({ s with keyAllowed := true }.next).emit .value)
    else none

/-- Reads a mark that starts or ends a document. -/
def readDocumentMark (s : Lexer) (t : Lexeme) : Option Lexer := do
  let s ← (s.unroll (-1)).giveUp
  return ({ s with keyAllowed := false }.skip 3).emit t

/-- Reads a line that instructs the reader. -/
def readDirective (s : Lexer) : Option Lexer := do
  let s ← (s.unroll (-1)).giveUp
  return ({ s with keyAllowed := false }.goTo (s.rest.dropWhile (· != '\n'))).emit .directive

/-- Whether a character belongs to a name behind a mark. -/
def isNameChar (c : Char) : Bool := !isBlank c && c != '\n' && !isFlowMark c

/-- Reads a name behind its mark. -/
def readName (s : Lexer) (make : String → Lexeme) : Option Lexer := do
  let s ← s.propose
  let name := (s.rest.drop 1).takeWhile isNameChar
  if name.isEmpty then none
  return ({ s with keyAllowed := false }.skip (name.length + 1)).emit (make (String.ofList name))

/-- Reads a tag. -/
def readTag (s : Lexer) : Option Lexer := do
  let s ← s.propose
  let text := s.rest.takeWhile fun c => !isBlank c && c != '\n' && !(s.inFlow && isFlowMark c)
  return ({ s with keyAllowed := false }.skip text.length).emit (.tag (String.ofList text))

/-! ## Scalars -/

/-- Reads a scalar in quotes. -/
def readQuoted (s : Lexer) (double : Bool) : Option Lexer := do
  let s ← s.propose
  let inner := s.rest.drop 1
  let (text, rest) ←
    if double then doubleQuoted (inner.length + 1) (s.column + 1) [] {} inner
    else singleQuoted (s.column + 1) [] {} inner
  return ({ s with keyAllowed := false }.goTo rest).emit
    (.scalar false (String.ofList text.reverse))

/-- Reads a block of lines. -/
def readBlock (s : Lexer) (literal : Bool) : Option Lexer := do
  let s ← s.giveUp
  let (text, rest) ← block? literal s.indent (s.rest.drop 1)
  return ({ s with keyAllowed := true }.goTo rest).emit (.scalar false (String.ofList text))

/-- Whether a plain scalar starts with these characters. -/
def startsPlain (inFlow : Bool) : List Char → Bool
  | [] => false
  | c :: rest =>
    if c = '-' then !endsWord rest && !(inFlow && rest.head?.any isFlowMark)
    else if c = '?' || c = ':' then !inFlow && !endsWord rest
    else
      !([',', '[', ']', '\x7b', '\x7d', '#', '&', '*', '!', '|', '>', '\'', '"', '%', '@',
        '\x60', '\t'].contains c)

/-- Reads a plain scalar. -/
def readPlain (s : Lexer) : Option Lexer :=
  if startsPlain s.inFlow s.rest then do
    let s ← s.propose
    let (text, rest) :=
      match s.rest with
      | [] => ([], [])
      | c :: rest => plain ⟨s.inFlow, s.indent + 1⟩ (s.column + 1) [c] rest {} rest
    return ({ s with keyAllowed := false }.goTo rest).emit
      (.scalar true (String.ofList text.reverse))
  else none

/-! ## All of it -/

/-- Reads the lexeme that starts here. -/
def readLexeme (s : Lexer) : Option Lexer :=
  match s.rest with
  | [] => some s
  | c :: rest =>
    if s.column = 0 && c = '%' then s.readDirective
    else if s.column = 0 && isDocumentMark s.rest then
      s.readDocumentMark (if c = '-' then .documentStart else .documentEnd)
    else if c = '[' then s.openFlow .openList
    else if c = '\x7b' then s.openFlow .openMap
    else if c = ']' then s.closeFlow .closeList
    else if c = '\x7d' then s.closeFlow .closeMap
    else if c = ',' then s.readComma
    else if c = '-' && endsWord rest then s.readItem
    else if c = '?' && (s.inFlow || endsWord rest) then s.readKey
    else if c = ':' && (s.inFlow || endsWord rest) then s.readValue
    else if c = '*' then s.readName .alias
    else if c = '&' then s.readName .anchor
    else if c = '!' then s.readTag
    else if c = '|' && !s.inFlow then s.readBlock true
    else if c = '>' && !s.inFlow then s.readBlock false
    else if c = '\'' then s.readQuoted false
    else if c = '"' then s.readQuoted true
    else s.readPlain

/-- Passes over the gap before the next lexeme, and ends what ends there. -/
def approach (s : Lexer) : Option Lexer := do
  let s ← (s.skipGap (s.rest.length + 1)).dropStale
  let s := s.unroll (if s.rest.isEmpty then -1 else s.column)
  if !s.rest.isEmpty && decide ((s.column : Int) < s.indent) then none else return s

/-- Reads all lexemes that are left; each takes a character at least, so the number of characters
is fuel enough. -/
def readAll (s : Lexer) : (fuel : Nat) → Option (Array Lexeme)
  | 0 => none
  | fuel + 1 => do
    let s ← s.approach
    if s.rest.isEmpty then
      let s ← s.giveUp
      if s.inFlow then none else return s.found
    else (← s.readLexeme).readAll fuel

end Lexer

/-- The characters of a document with every line break written as a line feed. -/
def normalized : List Char → List Char
  | '\r' :: '\n' :: rest => '\n' :: normalized rest
  | '\r' :: rest => '\n' :: normalized rest
  | c :: rest => c :: normalized rest
  | [] => []

/-- The lexemes of a document. -/
def lexemes? (text : String) : Option (List Lexeme) :=
  let cs := normalized text.toList
  (({ rest := cs } : Lexer).readAll (cs.length + 1)).map Array.toList

end Latchkey.Yaml
