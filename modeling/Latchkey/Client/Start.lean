import Latchkey.Client.Session
import Latchkey.Log.Filter

/-!
# Starting and ending the client

Before the client runs a command it reads its arguments, its configuration and what is wanted of its
log. Each of these may be wrong, and then the client ends. It ends with an exit code and with what
is to see on the terminal, where a failure is told by a line of the log.
-/

namespace Latchkey.Client

/-- The name of the client, which is also the target of its log. -/
def clientName : String := "kvguard"

/-- The version of the client. -/
def clientVersion : String := "0.1.0"

/-- The variable that says what is wanted of the log. -/
def logVariable : String := "RUST_LOG"

/-- The exit code of a failure. -/
def exitFailure : Nat := 1

/-- The exit code of wrong arguments. -/
def exitMisused : Nat := 2

/-- The end of the client. -/
structure Ending where
  /-- The exit code. -/
  exit : Nat
  /-- What is to see on the terminal. -/
  screen : Screen := {}
  deriving Repr, DecidableEq

/-- The line of the log that tells a failure; none if it is not wanted. -/
def failureLine (log : Log.Filter) (text : String) : String :=
  if log.enables clientName .error then "ERROR " ++ clientName ++ ": " ++ text ++ "\n" else ""

/-- What the client starts with. -/
structure Start where
  /-- The configuration. -/
  configuration : Config.Configuration
  /-- What is wanted of the log. -/
  log : Log.Filter
  /-- The command. -/
  request : Arguments.Request

/-- Why the client ends without running a command. -/
inductive StartError where
  /-- The arguments ask for no command. -/
  | arguments (rejection : Arguments.Rejection)
  /-- There is no configuration. -/
  | configuration (cause : Config.ConfigError)
  /-- The address at which metrics are to be served is none. -/
  | metrics (log : Log.Filter)
  deriving Repr

/-- What is wanted of the log: what the variable for it says, unless it is missing or wrong, and
else what the configuration says. -/
def logFilter (environment : String → Option String) (c : Config.Configuration) : Log.Filter :=
  ((environment logVariable).bind Log.Filter.read?).getD (.readValid c.logLevel)

/-- Reads what the client starts with. -/
def Start.read (files : String → Option String) (environment : List (String × String))
    (words : List String) : Except StartError Start := do
  let value (name : String) : Option String := environment.lookup name
  let invocation ← (Arguments.Invocation.read value words).mapError .arguments
  let c ← (Config.Configuration.load files environment invocation.globals).mapError .configuration
  let log := logFilter value c
  match c.metricsAddress with
  | some none => throw (.metrics log)
  | _ => return ⟨c, log, invocation.request⟩

/-- The names of the files that the client may look at when it is started with arguments: those of
the configuration, and the words of the program that it is asked to launch. -/
def fileNames (environment : String → Option String) (words : List String) : List String :=
  let names (config : String) : List String :=
    config :: Config.endings.map fun e => config ++ "." ++ e.1
  match Arguments.Invocation.read environment words with
  | .error _ => []
  | .ok i =>
    let program := match i.request with
      | .run _ _ _ program => program.flatMap fun w => w :: w.splitOn " "
      | _ => []
    names (i.globals.config.getD Config.defaultFile) ++ program

/-- The end of a client that does not run a command. -/
def StartError.ending : StartError → Ending
  | .arguments .help => ⟨exitSuccess, {}⟩
  | .arguments .version =>
    ⟨exitSuccess, { printed := clientName ++ " " ++ clientVersion ++ "\n" }⟩
  | .arguments _ => ⟨exitMisused, { warned := "error: wrong arguments for " ++ clientName ++ "\n" }⟩
  | .configuration _ =>
    ⟨exitFailure, { warned := clientName ++ ": failed to load configuration\n" }⟩
  | .metrics log =>
    ⟨exitFailure,
      { warned :=
          failureLine log "Failed to initialize metrics error=invalid socket address syntax" }⟩

/-- The end of a client that has run a command, given what is to see of that. -/
def Start.ending (s : Start) (screen : Screen) : Except ClientError Nat → Ending
  | .ok code => ⟨code, screen⟩
  | .error e =>
    ⟨exitFailure, { screen with warned := screen.warned ++ failureLine s.log e.logText }⟩

/-- The end of the client that is started with arguments. -/
def ending {σ : Type} (s : Surroundings σ) (n : σ) (files : String → Option String)
    (environment : List (String × String)) (words : List String) : Ending :=
  match Start.read files environment words with
  | .error e => e.ending
  | .ok start =>
    let c := conclude s n start.configuration start.request
    start.ending c.screen c.result

end Latchkey.Client
