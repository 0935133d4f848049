import Latchkey.Json.Lexeme

/-!
# The structure of a JSON text

A `Raw` tree has the structure of a JSON text, with numbers and quoted texts as they were written.
It is built from the lexemes one after the other, on a stack of the lists and objects that are still
open. A value that nobody reads need only be a `Raw` tree: its numbers may be out of range.
-/

namespace Latchkey.Json

/-- A JSON text with its numbers and quoted texts as written. -/
inductive Raw where
  /-- Nothing. -/
  | null
  /-- A truth value. -/
  | bool (b : Bool)
  /-- A number. -/
  | number (written : List Char)
  /-- A quoted text, with its escapes. -/
  | quoted (written : List Char)
  /-- A list. -/
  | list (items : List Raw)
  /-- Named members, in order. -/
  | object (members : List (List Char × Raw))
  deriving Repr, Inhabited

/-- What follows the longest run of digits, if there is at least one digit. -/
def afterDigits? (cs : List Char) : Option (List Char) :=
  match cs with
  | c :: _ => if c.isDigit then some (cs.dropWhile Char.isDigit) else none
  | [] => none

/-- What follows the whole part of a number: a zero, or digits that start with another one. -/
def afterWhole? : List Char → Option (List Char)
  | '0' :: rest => some rest
  | cs => afterDigits? cs

/-- What follows the fraction of a number, which may be missing. -/
def afterFraction? : List Char → Option (List Char)
  | '.' :: rest => afterDigits? rest
  | cs => some cs

/-- What follows the exponent of a number, which may be missing. -/
def afterExponent? : List Char → Option (List Char)
  | c :: rest =>
    if c = 'e' ∨ c = 'E' then
      match rest with
      | '+' :: ds => afterDigits? ds
      | '-' :: ds => afterDigits? ds
      | ds => afterDigits? ds
    else some (c :: rest)
  | [] => some []

/-- Whether a word is a number. -/
def isNumber (cs : List Char) : Bool :=
  let unsigned := match cs with
    | '-' :: rest => rest
    | rest => rest
  ((afterWhole? unsigned).bind afterFraction?).bind afterExponent? == some []

/-- The value of a word. -/
def ofWord? (cs : List Char) : Option Raw :=
  if cs = "null".toList then some .null
  else if cs = "true".toList then some (.bool true)
  else if cs = "false".toList then some (.bool false)
  else if isNumber cs then some (.number cs)
  else none

/-- A list or object that is still open. -/
inductive Frame where
  /-- A list, with the items read, the last one first. -/
  | list (items : List Raw)
  /-- An object, with the members read, the last one first, and the name whose value is due. -/
  | object (members : List (List Char × Raw)) (name : List Char)
  deriving Repr

/-- What may come next. -/
inductive Expectation where
  /-- A value. -/
  | value
  /-- The first item of a list, or its end. -/
  | itemOrEnd
  /-- The first name of an object, or its end. -/
  | nameOrEnd
  /-- A name. -/
  | name
  /-- The colon after a name. -/
  | colon
  /-- A comma, or the end of the innermost list or object. -/
  | commaOrEnd
  /-- Nothing: this value is complete. -/
  | nothing (result : Raw)
  deriving Repr

/-- The state of building a tree. -/
structure Builder where
  /-- The open lists and objects, the innermost first. -/
  frames : List Frame
  /-- What may come next. -/
  next : Expectation
  deriving Repr

/-- The state after a complete value. -/
def Builder.put (frames : List Frame) (v : Raw) : Builder :=
  match frames with
  | [] => ⟨[], .nothing v⟩
  | .list items :: outer => ⟨.list (v :: items) :: outer, .commaOrEnd⟩
  | .object members name :: outer => ⟨.object ((name, v) :: members) [] :: outer, .commaOrEnd⟩

/-- The state after a lexeme that starts a value. -/
def Builder.value? (frames : List Frame) : Lexeme → Option Builder
  | .openList => some ⟨.list [] :: frames, .itemOrEnd⟩
  | .openObject => some ⟨.object [] [] :: frames, .nameOrEnd⟩
  | .word cs => (ofWord? cs).map (Builder.put frames)
  | .quoted cs => some (Builder.put frames (.quoted cs))
  | _ => none

/-- The state after the end of the innermost list or object. -/
def Builder.close? (frames : List Frame) : Lexeme → Option Builder
  | .closeList =>
    match frames with
    | .list items :: outer => some (Builder.put outer (.list items.reverse))
    | _ => none
  | .closeObject =>
    match frames with
    | .object members _ :: outer => some (Builder.put outer (.object members.reverse))
    | _ => none
  | _ => none

/-- The state after a name. -/
def Builder.name? (frames : List Frame) : Lexeme → Option Builder
  | .quoted cs =>
    match frames with
    | .object members _ :: outer => some ⟨.object members cs :: outer, .colon⟩
    | _ => none
  | _ => none

/-- The state after one more lexeme; none if no JSON text goes on like this. -/
def Builder.step (b : Builder) (l : Lexeme) : Option Builder :=
  match b.next with
  | .value => Builder.value? b.frames l
  | .itemOrEnd =>
    match Builder.close? b.frames l with
    | some b => some b
    | none => Builder.value? b.frames l
  | .nameOrEnd =>
    match Builder.close? b.frames l with
    | some b => some b
    | none => Builder.name? b.frames l
  | .name => Builder.name? b.frames l
  | .colon => if l = .colon then some ⟨b.frames, .value⟩ else none
  | .commaOrEnd =>
    match Builder.close? b.frames l with
    | some b => some b
    | none =>
      if l = .comma then
        match b.frames with
        | .list _ :: _ => some ⟨b.frames, .value⟩
        | _ => some ⟨b.frames, .name⟩
      else none
  | .nothing _ => none

/-- The tree of a whole text. -/
def raw? (s : String) : Option Raw := do
  let ls ← lexemes? s.toList
  let b ← ls.foldlM Builder.step ⟨[], .value⟩
  match b.next with
  | .nothing v => some v
  | _ => none

end Latchkey.Json
