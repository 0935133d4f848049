import Latchkey.Client.Start
import Latchkey.Launch.Launcher

/-!
# The client

Runs the client in real time: it reads the environment and files, sleeps and writes. Everything else
is decided by the definitions that this module calls. There is no network here, so that a Redis
store is found to refuse connections.
-/

namespace Latchkey.Client

/-- The text of a file, if it can be read. -/
def fileText? (path : String) : IO (Option String) :=
  try
    return some (← IO.FS.readFile path)
  catch _ =>
    return none

/-- The environment variables. -/
def environment : IO (List (String × String)) := do
  let text := (← fileText? "/proc/self/environ").getD ""
  return (text.splitOn "\x00").filterMap fun entry =>
    match entry.splitOn "=" with
    | name :: value@(_ :: _) => some (name, String.intercalate "=" value)
    | _ => none

/-- The files of some names that can be read, with their texts. -/
def filesOf (names : List String) : IO (List (String × String)) :=
  names.filterMapM fun name => do
    return (← fileText? name).map fun text => (name, text)

/-- Performs an operation of the terminal. -/
def act (launcher : Launcher) : (op : terminal.Op) → IO (terminal.Reply op)
  | .print text => IO.print text
  | .warn text => IO.eprint text
  | .launch program args =>
    match launcher program args with
    | .error e => return .error e
    | .ok e => do
      IO.print e.printed
      IO.eprint e.warned
      return .ok e.status

/-- Sleeps if an effect is a sleep. -/
def pause : Effect → IO Unit
  | .sleep ms => IO.sleep (min ms 4294967295).toUInt32
  | _ => return ()

/-- Runs a program in a world whose clock is the real one, which was `started` at time zero. -/
def live {α : Type} (launcher : Launcher) (started : Nat) (w : World) :
    Program terminal α → IO α
  | .done a => return a
  | .effect e next => do
    let r := (w.atTime ((← IO.monoMsNow) - started)).perform e
    pause e
    live launcher started r.1 (next r.2)
  | .extended op next => do
    live launcher started w (next (← act launcher op))

/-- Runs the command that the client is started with, giving the exit code. -/
def runLive (s : Surroundings Unit) (start : Start) : IO Nat := do
  let result ←
    if start.configuration.usesMemory then
      let j := job start.configuration s.context start.request
      live s.launcher (← IO.monoMsNow) (memoryWorld s.firstToken) j.run
    else
      pure (conclude s () start.configuration start.request).result
  let ending := start.ending {} result
  IO.eprint ending.screen.warned
  return ending.exit

/-- Starts the client. -/
def start (words : List String) : IO Nat := do
  let env ← environment
  let value (name : String) : Option String := env.lookup name
  let files ← filesOf (fileNames value words)
  let file (name : String) : Option String := files.lookup name
  match Start.read file env words with
  | .error e =>
    IO.print e.ending.screen.printed
    IO.eprint e.ending.screen.warned
    return e.ending.exit
  | .ok start =>
    let firstToken ← IO.rand 0 (Nat.pow 2 128 - 1)
    runLive
      { launcher := Launch.launch ⟨file, value⟩
        network := .unreachable
        firstToken := firstToken
        context := "client" }
      start

end Latchkey.Client

/-- The command line of the client. -/
def main (words : List String) : IO UInt32 := do
  return (← Latchkey.Client.start words).toUInt32
