import Latchkey.Decimal.Layout

/-!
# Grammars of command lines

A command has named parameters, positional ones and subcommands. Its command line is read from left
to right. A word with two hyphens in front, or with one, stands for named parameters; behind a
word of two hyphens alone every word is positional. What is read for a parameter is checked as soon
as the next parameter begins, so of two faults the one on the left is reported.

A named parameter may be given on each level of subcommands: the innermost value counts. One that
is not given on a level may come from the environment, and is checked then on that level.
-/

namespace Latchkey.Arguments

/-- Why a command line is not carried out. -/
inductive Rejection where
  /-- Help is asked for. -/
  | help
  /-- There are no words at all where a subcommand has to be, which gets help. -/
  | helpInstead
  /-- The version is asked for. -/
  | version
  /-- There is no subcommand where one has to be. -/
  | missingSubcommand
  /-- There is no such subcommand. -/
  | unknownSubcommand
  /-- There is no such parameter, or a word too many. -/
  | unknownParameter
  /-- A parameter that has to be there is missing. -/
  | missingParameter
  /-- A value is not of the kind that the parameter takes. -/
  | malformedValue
  /-- The value of a parameter is missing. -/
  | missingValue
  /-- A parameter is given twice on one level. -/
  | repeated
  /-- A parameter that takes no value has one. -/
  | needlessValue
  deriving Repr, DecidableEq

/-- What a parameter takes. -/
inductive Kind where
  /-- Nothing. -/
  | flag
  /-- Any text. -/
  | text
  /-- A natural number of 64 bits. -/
  | number
  /-- The number of a port. -/
  | port
  /-- A double. -/
  | double
  deriving Repr, DecidableEq

/-- The natural number of 64 bits that a text stands for. -/
def number? (s : String) : Option Nat :=
  (Decimal.natural? s.toList).filter (· < 18446744073709551616)

/-- The number of a port that a text stands for. -/
def port? (s : String) : Option Nat :=
  match Decimal.signedInteger? s.toList with
  | some n => if 0 ≤ n ∧ n ≤ 65535 then some n.toNat else none
  | none => none

/-- Whether a text is of a kind. -/
def Kind.admits : Kind → String → Bool
  | .flag, _ => true
  | .text, _ => true
  | .number, s => (number? s).isSome
  | .port, s => (port? s).isSome
  | .double, s => (Decimal.read? s).isSome

/-- A parameter with a name; `ι` is the type of identifiers of parameters. -/
structure Named (ι : Type) where
  /-- Its identifier. -/
  id : ι
  /-- The name behind two hyphens. -/
  long : String
  /-- The letter behind one hyphen. -/
  short : Option Char := none
  /-- What it takes. -/
  kind : Kind
  /-- The environment variable that stands in for it. -/
  environmentName : Option String := none
  deriving Repr

/-- A parameter with a place; it has to be given. -/
structure Positional (ι : Type) where
  /-- Its identifier. -/
  id : ι
  /-- It takes all words that are left. -/
  many : Bool := false
  /-- It is given behind two hyphens alone, and nowhere else. -/
  behindEscape : Bool := false
  deriving Repr

/-- A command; it has either positional parameters or subcommands. -/
structure Grammar (ι : Type) where
  /-- Its name. -/
  name : String
  /-- Its named parameters. -/
  named : List (Named ι)
  /-- Its positional parameters. -/
  positionals : List (Positional ι) := []
  /-- Its subcommands, one of which has to be given if there are any. -/
  subcommands : List (Grammar ι) := []
  /-- It can be asked for its version. -/
  versioned : Bool := false

/-- Where a value comes from. -/
inductive Source where
  /-- From the environment. -/
  | environment
  /-- From the command line. -/
  | commandLine
  deriving Repr, DecidableEq

/-- What was given for a parameter. -/
structure Given (ι : Type) where
  /-- The parameter. -/
  id : ι
  /-- Where the values come from. -/
  source : Source
  /-- The values. -/
  values : List String
  deriving Repr

/-- What was given on a command line: the names of the subcommands, and the values. -/
structure Matches (ι : Type) where
  /-- The names of the subcommands, the outermost first. -/
  path : List String := []
  /-- The values. -/
  given : List (Given ι) := []
  deriving Repr

/-- A parameter that is being read. -/
structure Pending (ι : Type) where
  /-- The parameter. -/
  id : ι
  /-- What it takes. -/
  kind : Kind
  /-- It is one that takes all words that are left. -/
  many : Bool
  /-- The values read so far. -/
  values : List String

/-- How far the words of one command are read. -/
structure Progress (ι : Type) where
  /-- What was given. -/
  given : List (Given ι) := []
  /-- The parameter that is being read. -/
  pending : Option (Pending ι) := none
  /-- The next word is the value of the parameter that is being read, if it has no hyphens. -/
  awaiting : Bool := false
  /-- Two hyphens alone were read. -/
  escaped : Bool := false
  /-- The place of the next positional parameter. -/
  place : Nat := 0

namespace Grammar

variable {ι : Type} [DecidableEq ι]

/-- The subcommand of a name. -/
def subcommand? (g : Grammar ι) (name : String) : Option (Grammar ι) :=
  g.subcommands.find? fun c => c.name == name

/-- Whether a word is the name of a subcommand or asks for help as one. -/
def isSubcommand (g : Grammar ι) (name : String) : Bool :=
  !g.subcommands.isEmpty && (name == "help" || (g.subcommand? name).isSome)

/-- The answer to the word `help` with words behind it, which have to lead to a subcommand. -/
def helpAbout (g : Grammar ι) : List String → Rejection
  | [] => .help
  | name :: rest =>
    match g.subcommand? name with
    | some c => c.helpAbout rest
    | none => if g.isSubcommand name && rest.isEmpty then .help else .unknownSubcommand

/-- What was given for a parameter. -/
def find? (given : List (Given ι)) (id : ι) : Option (Given ι) := given.find? fun v => v.id = id

/-- Adds what was read for a parameter. -/
def settle (given : List (Given ι)) (p : Pending ι) : Except Rejection (List (Given ι)) :=
  if p.values.isEmpty && p.kind != .flag then .error .missingValue
  else
    let old := find? given p.id
    if old.isSome && !p.many then .error .repeated
    else if !p.values.all p.kind.admits then .error .malformedValue
    else
      let values := (old.elim [] (·.values)) ++ p.values
      .ok ((given.filter fun v => v.id ≠ p.id) ++ [⟨p.id, .commandLine, values⟩])

/-- The progress after the parameter that was being read is added. -/
def settled (s : Progress ι) : Except Rejection (Progress ι) :=
  match s.pending with
  | none => .ok { s with awaiting := false }
  | some p => do
    return { s with given := ← settle s.given p, pending := none, awaiting := false }

/-- Begins to read a named parameter, perhaps with a value attached to it. -/
def beginNamed (s : Progress ι) (n : Named ι) (attached : Option String) :
    Except Rejection (Progress ι) := do
  let s ← settled s
  match n.kind, attached with
  | .flag, _ => return { s with given := ← settle s.given ⟨n.id, .flag, false, []⟩ }
  | kind, some v => return { s with given := ← settle s.given ⟨n.id, kind, false, [v]⟩ }
  | kind, none => return { s with pending := some ⟨n.id, kind, false, []⟩, awaiting := true }

/-- Reads a word with two hyphens in front, given what is behind them. -/
def readLong (g : Grammar ι) (s : Progress ι) (word : List Char) :
    Except Rejection (Progress ι) :=
  let name := String.ofList (word.takeWhile (· != '='))
  let attached := match word.dropWhile (· != '=') with
    | [] => none
    | _ :: v => some (String.ofList v)
  let asks (question : Rejection) : Except Rejection (Progress ι) := do
    if attached.isSome then throw .needlessValue
    let _ ← settled s
    throw question
  if name = "help" then asks .help
  else if name = "version" && g.versioned then asks .version
  else
    match g.named.find? fun n => n.long == name with
    | none => .error .unknownParameter
    | some n =>
      if n.kind = .flag && attached.isSome then .error .needlessValue
      else beginNamed s n attached

/-- Reads a word with one hyphen in front, given the letters behind it. -/
def readShort (g : Grammar ι) (s : Progress ι) : List Char → Except Rejection (Progress ι)
  | [] => .ok s
  | c :: rest =>
    let asks (question : Rejection) : Except Rejection (Progress ι) := do
      let _ ← settled s
      throw question
    if c = 'h' then asks .help
    else if c = 'V' && g.versioned then asks .version
    else
      match g.named.find? fun n => n.short == some c with
      | none => .error .unknownParameter
      | some n =>
        if n.kind = .flag then do g.readShort (← beginNamed s n none) rest
        else
          match rest with
          | [] => beginNamed s n none
          | '=' :: v => beginNamed s n (some (String.ofList v))
          | v => beginNamed s n (some (String.ofList v))

/-- Reads a word that is the value of a positional parameter. -/
def readPositional (g : Grammar ι) (s : Progress ι) (word : String) :
    Except Rejection (Progress ι) :=
  let place :=
    if s.escaped && g.positionals.any (·.behindEscape) then g.positionals.length - 1 else s.place
  match g.positionals[place]? with
  | none =>
    if g.subcommands.isEmpty || (s.escaped && g.isSubcommand word) then .error .unknownParameter
    else .error .unknownSubcommand
  | some p =>
    if p.behindEscape && !s.escaped then .error .unknownParameter
    else
      match s.pending with
      | some q =>
        if q.id = p.id && p.many then
          .ok { s with pending := some { q with values := q.values ++ [word] }, place := place }
        else begin p place
      | none => begin p place
where
  /-- Begins to read a positional parameter. -/
  begin (p : Positional ι) (place : Nat) : Except Rejection (Progress ι) := do
    let s ← settled s
    return { s with
      pending := some ⟨p.id, .text, p.many, [word]⟩
      place := if p.many then place else place + 1 }

/-- Reads one word that is not a subcommand. -/
def readWord (g : Grammar ι) (s : Progress ι) (word : String) : Except Rejection (Progress ι) :=
  if s.escaped then g.readPositional s word
  else
    match word.toList with
    | ['-', '-'] => .ok { s with escaped := true, awaiting := false }
    | '-' :: '-' :: rest => g.readLong s rest
    | '-' :: c :: rest => g.readShort s (c :: rest)
    | _ =>
      match s.awaiting, s.pending with
      | true, some p =>
        .ok { s with pending := some { p with values := [word] }, awaiting := false }
      | _, _ => g.readPositional s word

/-- Adds what the environment gives for parameters that were not given. -/
def addVariables (environment : String → Option String) :
    List (Named ι) → List (Given ι) → Except Rejection (List (Given ι))
  | [], given => .ok given
  | n :: rest, given =>
    match find? given n.id, n.environmentName.bind environment with
    | none, some v =>
      if n.kind.admits v then addVariables environment rest (given ++ [⟨n.id, .environment, [v]⟩])
      else .error .malformedValue
    | _, _ => addVariables environment rest given

/-- Joins what was given on a level with what was given below it: the value below counts, unless
only the upper one is from the command line. -/
def join (upper lower : List (Given ι)) : List (Given ι) :=
  let stays (v : Given ι) : Bool :=
    match find? lower v.id with
    | none => true
    | some w => v.source == .commandLine && w.source == .environment
  let kept := upper.filter stays
  kept ++ lower.filter fun w => (find? kept w.id).isNone

/-- What was given for a command all of whose words are read. -/
def finish (g : Grammar ι) (environment : String → Option String) (s : Progress ι)
    (below : Option (Matches ι)) : Except Rejection (Matches ι) := do
  let s ← settled s
  let given ← addVariables environment g.named s.given
  match below with
  | some m => return { m with given := join given m.given }
  | none =>
    if !g.subcommands.isEmpty then
      throw (if given.isEmpty then .helpInstead else .missingSubcommand)
    else if g.positionals.any fun p => (find? given p.id).isNone then throw .missingParameter
    else return { given := given }

/-- Reads the words that are left of a command. -/
def readWords (environment : String → Option String) (g : Grammar ι) (s : Progress ι) :
    List String → Except Rejection (Matches ι)
  | [] => g.finish environment s none
  | word :: rest =>
    if !s.escaped && !s.awaiting && g.isSubcommand word then
      match g.subcommand? word with
      | none => .error (g.helpAbout rest)
      | some c => do
        let m ← readWords environment c {} rest
        g.finish environment s (some { m with path := word :: m.path })
    else do readWords environment g (← g.readWord s word) rest

/-- Reads the words of a command line. -/
def read (g : Grammar ι) (environment : String → Option String) (words : List String) :
    Except Rejection (Matches ι) :=
  readWords environment g {} words

end Grammar

end Latchkey.Arguments
