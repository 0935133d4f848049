import Latchkey.Arguments.Grammar

/-!
# Invocations

The command line of the client: its grammar, and what is asked for by one that follows it.
-/

namespace Latchkey.Arguments

/-- A parameter of the client. -/
inductive Parameter where
  /-- The configuration file. -/
  | config
  /-- The address of the store. -/
  | address
  /-- The port of the store. -/
  | port
  /-- The store has a single primary. -/
  | standalone
  /-- The store is in memory. -/
  | memory
  /-- The name of a lock or a filter. -/
  | name
  /-- The lifetime of a lock. -/
  | ttl
  /-- How long replicas are waited for. -/
  | wait
  /-- How long acquiring is tried again. -/
  | retry
  /-- How long a lock is held. -/
  | hold
  /-- A lock held elsewhere is a failure. -/
  | throws
  /-- The program to run and its arguments. -/
  | program
  /-- The number of elements expected. -/
  | expected
  /-- The rate of false positives. -/
  | errorRate
  /-- The lifetime of a filter. -/
  | expiration
  /-- The elements to add or to test. -/
  | elements
  deriving Repr, DecidableEq

/-! ## The grammar -/

/-- The parameters that every command has. -/
def globals : List (Named Parameter) :=
  [{ id := .config, long := "config", short := some 'c', kind := .text },
    { id := .address, long := "address", short := some 'a', kind := .text
      environmentName := some "KVGUARD_ADDRESS" },
    { id := .port, long := "port", short := some 'p', kind := .port
      environmentName := some "KVGUARD_PORT" },
    { id := .standalone, long := "standalone", kind := .flag },
    { id := .memory, long := "memory", kind := .flag }]

/-- A named parameter that takes a number. -/
def numeric (id : Parameter) (long : String) : Named Parameter :=
  { id := id, long := long, kind := .number }

/-- The command that acquires a lock. -/
def acquireGrammar : Grammar Parameter where
  name := "acquire"
  named := globals ++
    [numeric .ttl "ttl-ms", numeric .wait "wait-ms", numeric .retry "retry-ms",
      numeric .hold "hold-ms"]
  positionals := [{ id := .name }]

/-- The command that runs a program under a lock. -/
def runGrammar : Grammar Parameter where
  name := "run"
  named := globals ++ [numeric .ttl "ttl-ms", { id := .throws, long := "throw", kind := .flag }]
  positionals := [{ id := .name }, { id := .program, many := true, behindEscape := true }]

/-- The parameters of every command on filters. -/
def filterNamed : List (Named Parameter) :=
  globals ++
    [numeric .expected "expected", { id := .errorRate, long := "error-rate", kind := .double },
      numeric .expiration "expire-ms"]

/-- A command on a filter that takes elements. -/
def elementsGrammar (name : String) : Grammar Parameter where
  name := name
  named := filterNamed
  positionals := [{ id := .name }, { id := .elements, many := true }]

/-- The command that shows a filter. -/
def infoGrammar : Grammar Parameter where
  name := "info"
  named := filterNamed
  positionals := [{ id := .name }]

/-- The command line of the client. -/
def clientGrammar : Grammar Parameter where
  name := "kvguard"
  named := globals
  versioned := true
  subcommands :=
    [{ name := "lock", named := globals, subcommands := [acquireGrammar, runGrammar] },
      { name := "filter", named := globals
        subcommands := [elementsGrammar "add", elementsGrammar "test", infoGrammar] }]

/-! ## What is asked for -/

/-- What is given for every command. -/
structure Globals where
  /-- The configuration file. -/
  config : Option String := none
  /-- The address of the store. -/
  address : Option String := none
  /-- The port of the store. -/
  port : Option Nat := none
  /-- The store has a single primary. -/
  standalone : Bool := false
  /-- The store is in memory. -/
  memory : Bool := false
  deriving Repr, DecidableEq

/-- What is given for a filter. -/
structure FilterChoice where
  /-- Its name. -/
  name : String
  /-- The number of elements expected. -/
  expected : Nat := 1000000
  /-- The rate of false positives. -/
  errorRate : Option Float := none
  /-- The lifetime, in milliseconds. -/
  expiration : Option Nat := none
  deriving Repr

/-- A command of the client. All times are in milliseconds. -/
inductive Request where
  /-- Acquires a lock, holds it and releases it. -/
  | acquire (lock : String) (ttl wait retry : Option Nat) (hold : Nat)
  /-- Runs a program with arguments under a lock. -/
  | run (lock : String) (ttl : Option Nat) (throws : Bool) (program : List String)
  /-- Adds elements to a filter. -/
  | add (filter : FilterChoice) (elements : List String)
  /-- Tests elements of a filter. -/
  | test (filter : FilterChoice) (elements : List String)
  /-- Shows a filter. -/
  | info (filter : FilterChoice)
  deriving Repr

/-- What a command line asks for. -/
structure Invocation where
  /-- What is given for every command. -/
  globals : Globals
  /-- The command. -/
  request : Request
  deriving Repr

namespace Matches

/-- The values given for a parameter. -/
def values (m : Matches Parameter) (p : Parameter) : List String :=
  (Grammar.find? m.given p).elim [] (·.values)

/-- The value given for a parameter. -/
def value? (m : Matches Parameter) (p : Parameter) : Option String := (m.values p).head?

/-- The number given for a parameter. -/
def number? (m : Matches Parameter) (p : Parameter) : Option Nat :=
  (m.value? p).bind Arguments.number?

/-- Whether a parameter is given. -/
def has (m : Matches Parameter) (p : Parameter) : Bool := (Grammar.find? m.given p).isSome

/-- What is given for every command. -/
def globals (m : Matches Parameter) : Globals where
  config := m.value? .config
  address := m.value? .address
  port := (m.value? .port).bind Arguments.port?
  standalone := m.has .standalone
  memory := m.has .memory

/-- What is given for a filter. -/
def filter (m : Matches Parameter) : FilterChoice where
  name := (m.value? .name).getD ""
  expected := (m.number? .expected).getD 1000000
  errorRate := (m.value? .errorRate).bind Decimal.read?
  expiration := m.number? .expiration

/-- The command. -/
def request? (m : Matches Parameter) : Option Request :=
  let name := (m.value? .name).getD ""
  match m.path with
  | ["lock", "acquire"] =>
    some (.acquire name (m.number? .ttl) (m.number? .wait) (m.number? .retry)
      ((m.number? .hold).getD 0))
  | ["lock", "run"] => some (.run name (m.number? .ttl) (m.has .throws) (m.values .program))
  | ["filter", "add"] => some (.add m.filter (m.values .elements))
  | ["filter", "test"] => some (.test m.filter (m.values .elements))
  | ["filter", "info"] => some (.info m.filter)
  | _ => none

end Matches

/-- Reads the words of a command line, with the environment variables that stand in for
parameters. -/
def Invocation.read (environment : String → Option String) (words : List String) :
    Except Rejection Invocation := do
  let m ← clientGrammar.read environment words
  match m.request? with
  | some request => return ⟨m.globals, request⟩
  | none => throw .missingSubcommand

end Latchkey.Arguments
