/-!
# Command scripts

A script is a sequence of simple commands. Each is a list of words, and is run always, only after a
success or only after a failure of what was run before it. Its streams may be redirected.

Words are separated by blanks. Single quotes keep everything, double quotes everything but
parameters, which are a dollar sign and a name, and a backslash keeps the next character.
-/

namespace Latchkey.Launch

/-- A part of a word. -/
inductive Piece where
  /-- A character that stands for itself. -/
  | char (c : Char)
  /-- A parameter, to be replaced by its value. -/
  | parameter (name : String)
  deriving Repr, DecidableEq

/-- A word, before its parameters are replaced. -/
abbrev Word := List Piece

/-- When a command is run. -/
inductive Condition where
  /-- In any case. -/
  | always
  /-- If what was run before succeeded. -/
  | onSuccess
  /-- If what was run before failed. -/
  | onFailure
  deriving Repr, DecidableEq

/-- Where a stream of a command goes. -/
inductive Target where
  /-- Where the output of the script goes. -/
  | output
  /-- Where the errors of the script go. -/
  | errors
  /-- Nowhere. -/
  | nowhere
  deriving Repr, DecidableEq

/-- A lexeme of a script. -/
inductive Lexeme where
  /-- A word. -/
  | word (w : Word)
  /-- The end of a command, with the condition of the next one. -/
  | next (c : Condition)
  /-- The output of the command is redirected. -/
  | output (t : Target)
  /-- The errors of the command are redirected. -/
  | errors (t : Target)
  deriving Repr, DecidableEq

/-- A simple command. -/
structure SimpleCommand where
  /-- When it is run. -/
  condition : Condition
  /-- Its words. -/
  words : List Word := []
  /-- Where its output goes. -/
  output : Target := .output
  /-- Where its errors go. -/
  errors : Target := .errors
  deriving Repr, DecidableEq

/-! ## Lexemes -/

/-- Whether a character may be in the name of a parameter. -/
def isNameChar (c : Char) : Bool := c.isAlphanum || c = '_'

/-- What a dollar sign stands for, given what follows it, and what is left. -/
def parameter (cs : List Char) : Piece × List Char :=
  match cs with
  | '$' :: rest => (.parameter "$", rest)
  | '?' :: rest => (.parameter "?", rest)
  | c :: rest =>
    if isNameChar c && !c.isDigit then
      (.parameter (String.ofList (c :: rest.takeWhile isNameChar)), rest.dropWhile isNameChar)
    else (.char '$', cs)
  | [] => (.char '$', [])

/-- Redirections, as they are written. -/
def redirections : List (String × Lexeme) :=
  [("2>&1", .errors .output), ("2>/dev/null", .errors .nowhere), ("1>&2", .output .errors),
    (">&2", .output .errors), ("1>/dev/null", .output .nowhere), (">/dev/null", .output .nowhere)]

/-- The redirection in front, and what follows it. -/
def redirection? (cs : List Char) : Option (Lexeme × List Char) :=
  redirections.findSome? fun r =>
    if r.1.toList.isPrefixOf cs then some (r.2, cs.drop r.1.length) else none

/-- Which quotes a character is within. -/
inductive Quoting where
  /-- None. -/
  | plain
  /-- Single quotes. -/
  | single
  /-- Double quotes. -/
  | double
  deriving Repr, DecidableEq

/-- The lexeme of a word that is over, if one was begun. -/
def endWord (word : Option Word) : List Lexeme := (word.map fun w => Lexeme.word w.reverse).toList

/-- The lexemes of a script; none if a quote is not closed or an operator is unknown. The pieces of
the word begun are given last first. Every round takes a character at least. -/
def lexemes? : (fuel : Nat) → Quoting → (word : Option Word) → List Char → Option (List Lexeme)
  | 0, _, _, _ => none
  | _ + 1, .plain, word, [] => some (endWord word)
  | _ + 1, _, _, [] => none
  | fuel + 1, .single, word, c :: rest =>
    if c = '\'' then lexemes? fuel .plain word rest
    else lexemes? fuel .single (some (.char c :: word.getD [])) rest
  | fuel + 1, .double, word, c :: rest =>
    let push (p : Piece) : Option Word := some (p :: word.getD [])
    match c, rest with
    | '"', _ => lexemes? fuel .plain word rest
    | '$', _ =>
      let r := parameter rest
      lexemes? fuel .double (push r.1) r.2
    | '\\', d :: rest' =>
      if d = '"' || d = '\\' || d = '$' then lexemes? fuel .double (push (.char d)) rest'
      else lexemes? fuel .double (push (.char c)) rest
    | _, _ => lexemes? fuel .double (push (.char c)) rest
  | fuel + 1, .plain, word, c :: rest =>
    let push (p : Piece) : Option Word := some (p :: word.getD [])
    let separate (l : List Lexeme) (rest : List Char) : Option (List Lexeme) :=
      (lexemes? fuel .plain none rest).map fun ls => endWord word ++ l ++ ls
    match (if word.isNone || c = '>' then redirection? (c :: rest) else none) with
    | some (l, rest) => separate [l] rest
    | none =>
      match c, rest with
      | '\'', _ => lexemes? fuel .single (some (word.getD [])) rest
      | '"', _ => lexemes? fuel .double (some (word.getD [])) rest
      | '\\', d :: rest => lexemes? fuel .plain (push (.char d)) rest
      | '$', _ =>
        let r := parameter rest
        lexemes? fuel .plain (push r.1) r.2
      | ';', _ => separate [.next .always] rest
      | '\n', _ => separate [.next .always] rest
      | '&', '&' :: rest => separate [.next .onSuccess] rest
      | '|', '|' :: rest => separate [.next .onFailure] rest
      | _, _ =>
        if c = ' ' || c = '\t' then separate [] rest
        else if "&|<>()`".toList.contains c then none
        else lexemes? fuel .plain (push (.char c)) rest

/-! ## Commands -/

/-- The commands of lexemes, given the one begun; none if one that has to be there is missing. -/
def commands? (begun : SimpleCommand) : List Lexeme → Option (List SimpleCommand)
  | [] => if begun.words.isEmpty && begun.condition != .always then none else some [begun]
  | .word w :: rest => commands? { begun with words := begun.words ++ [w] } rest
  | .output t :: rest => commands? { begun with output := t } rest
  | .errors t :: rest => commands? { begun with errors := t } rest
  | .next c :: rest =>
    if begun.words.isEmpty && (begun.condition != .always || c != .always) then none
    else (commands? { condition := c } rest).map fun cs => begun :: cs

/-- Reads a script; commands without words are left out. -/
def readScript? (text : String) : Option (List SimpleCommand) := do
  let cs := text.toList
  let commands ← commands? { condition := .always } (← lexemes? (cs.length + 1) .plain none cs)
  return commands.filter fun c => !c.words.isEmpty

end Latchkey.Launch
