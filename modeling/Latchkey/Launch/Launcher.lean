import Latchkey.Launch.Script
import Latchkey.Launch.Status

/-!
# Launching programs

The programs that can be launched: the ones that only succeed or fail, the one that prints its
arguments, the one that prints files, the one that waits, and the one that runs a script. They are
functions of the files and variables around them, so what a program leaves behind is known as soon
as it is launched.
-/

namespace Latchkey.Launch

/-- What programs find around them. -/
structure Surroundings where
  /-- The text of a file. -/
  file : String → Option String
  /-- The value of an environment variable. -/
  variableValue : String → Option String

/-! ## Printing -/

/-- A text with its escapes replaced; `\c` ends it, which is told by the second result. -/
def unescape : List Char → List Char × Bool
  | [] => ([], true)
  | '\\' :: c :: rest =>
    let r := unescape rest
    match c with
    | 'n' => ('\n' :: r.1, r.2)
    | 't' => ('\t' :: r.1, r.2)
    | 'r' => ('\r' :: r.1, r.2)
    | 'a' => ('\x07' :: r.1, r.2)
    | 'b' => ('\x08' :: r.1, r.2)
    | 'f' => ('\x0c' :: r.1, r.2)
    | 'v' => ('\x0b' :: r.1, r.2)
    | '\\' => ('\\' :: r.1, r.2)
    | 'c' => ([], false)
    | _ => ('\\' :: c :: r.1, r.2)
  | c :: rest =>
    let r := unescape rest
    (c :: r.1, r.2)

/-- Words with blanks between them, and the end of the line if it is asked for. -/
def echoText (escapes newline : Bool) (words : List String) : String :=
  let text := String.intercalate " " words
  let r := if escapes then unescape text.toList else (text.toList, true)
  String.ofList r.1 ++ if newline && r.2 then "\n" else ""

/-- Whether a word is made of options of the program that prints its arguments. -/
def isEchoOption (word : String) : Bool :=
  match word.toList with
  | '-' :: c :: cs => (c :: cs).all fun d => d = 'n' || d = 'e' || d = 'E'
  | _ => false

/-- What the program that prints its arguments prints. -/
def echoed (args : List String) : String :=
  let options := (args.takeWhile isEchoOption).flatMap fun w => w.toList.drop 1
  let escapes := options.foldl (fun on c => if c = 'e' then true else if c = 'E' then false else on)
    false
  echoText escapes (!options.contains 'n') (args.dropWhile isEchoOption)

/-- What the command of a script that prints its arguments prints. -/
def echoedInScript : List String → String
  | "-n" :: args => echoText true false args
  | args => echoText true true args

/-- What the program that prints files leaves behind. -/
def concatenated (s : Surroundings) (paths : List String) : Ended :=
  let one (path : String) : Ended :=
    if path = "-" then { status := .code 0 }
    else
      match s.file path with
      | some text => { status := .code 0, printed := text }
      | none =>
        { status := .code 1, warned := "cat: " ++ path ++ ": No such file or directory\n" }
  paths.foldl
    (fun done path =>
      let e := one path
      { status := if e.status = .code 0 then done.status else e.status
        printed := done.printed ++ e.printed
        warned := done.warned ++ e.warned })
    { status := .code 0 }

/-! ## Running scripts -/

/-- How a script is getting on. -/
structure Progress where
  /-- The code of the last command. -/
  last : Nat := 0
  /-- How it ended, if it has. -/
  ended : Option ExitStatus := none
  /-- What was printed. -/
  printed : String := ""
  /-- What was written to the error stream. -/
  warned : String := ""
  deriving Repr, DecidableEq

/-- What a script has for its own process number. -/
def ownNumber : String := "4242"

/-- The numbers of the signals that have names. -/
def signalNumbers : List (String × Nat) :=
  [("HUP", 1), ("INT", 2), ("QUIT", 3), ("ABRT", 6), ("KILL", 9), ("USR1", 10), ("SEGV", 11),
    ("USR2", 12), ("PIPE", 13), ("ALRM", 14), ("TERM", 15)]

/-- The signal that an option of the command that sends one stands for. -/
def signal? (option : String) : Option Nat :=
  match option.toList with
  | '-' :: cs =>
    let name := String.ofList cs
    name.toNat? <|> signalNumbers.lookup name
  | _ => none

/-- A word with its parameters replaced. -/
def expand (s : Surroundings) (p : Progress) (w : Word) : String :=
  String.join <| w.map fun piece =>
    match piece with
    | .char c => c.toString
    | .parameter "$" => ownNumber
    | .parameter "?" => Nat.repr p.last
    | .parameter name => (s.variableValue name).getD ""

/-- The script after a command has left something behind. -/
def Progress.after (p : Progress) (c : SimpleCommand) (e : Ended) : Progress :=
  let written (t : Target) : String :=
    (if c.output = t then e.printed else "") ++ if c.errors = t then e.warned else ""
  { p with
    last := match e.status with
      | .code n => n
      | .signal n => 128 + n
    printed := p.printed ++ written .output
    warned := p.warned ++ written .errors }

/-- The script after it was told to end. -/
def Progress.exit (p : Progress) : List String → Progress
  | [] => { p with ended := some (.code p.last) }
  | code :: _ =>
    match code.toNat? with
    | some n => { p with ended := some (.code (n % 256)) }
    | none =>
      { p with
        ended := some (.code 2)
        warned := p.warned ++ "sh: 1: exit: Illegal number: " ++ code ++ "\n" }

/-- The script after it has sent a signal, to itself or to nobody. -/
def Progress.kill (p : Progress) (args : List String) : Progress :=
  let (number, targets) := match args with
    | option :: rest =>
      match signal? option with
      | some n => (n, rest)
      | none => (15, args)
    | [] => (15, [])
  if targets.contains ownNumber then
    if number = 0 then { p with last := 0 } else { p with ended := some (.signal number) }
  else { p with last := 1 }

/-- The script after a command, given what comes of launching programs from it. -/
def Progress.command (s : Surroundings) (launch : Launcher) (p : Progress) (c : SimpleCommand) :
    Progress :=
  let external (program : String) (args : List String) : Progress :=
    match launch program args with
    | .ok e => p.after c e
    | .error .notFound =>
      p.after c { status := .code 127, warned := "sh: 1: " ++ program ++ ": not found\n" }
    | .error _ =>
      p.after c { status := .code 126, warned := "sh: 1: " ++ program ++ ": Permission denied\n" }
  match c.words.map (expand s p) with
  | [] => p
  | ":" :: _ => { p with last := 0 }
  | "exit" :: args => p.exit args
  | "kill" :: args => p.kill args
  | "echo" :: args => p.after c { status := .code 0, printed := echoedInScript args }
  | "exec" :: program :: args =>
    let p := external program args
    { p with ended := some (.code p.last) }
  | program :: args => external program args

/-- The script after a command, if it is to be run. -/
def Progress.step (s : Surroundings) (launch : Launcher) (p : Progress) (c : SimpleCommand) :
    Progress :=
  let due := match c.condition with
    | .always => true
    | .onSuccess => p.last = 0
    | .onFailure => p.last ≠ 0
  if p.ended.isSome || !due then p else p.command s launch c

/-- What a script leaves behind. -/
def runScript (s : Surroundings) (launch : Launcher) (text : String) : Ended :=
  match readScript? text with
  | none => { status := .code 2, warned := "sh: 1: Syntax error\n" }
  | some commands =>
    let p := commands.foldl (Progress.step s launch) {}
    { status := p.ended.getD (.code p.last), printed := p.printed, warned := p.warned }

/-! ## Launching -/

/-- The directories in which programs are. -/
def programDirectories : List String := ["/bin/", "/usr/bin/"]

/-- The name of the program that is meant, without the directory in which it is. -/
def programName (program : String) : String :=
  match programDirectories.find? fun d => d.toList.isPrefixOf program.toList with
  | some d => String.ofList (program.toList.drop d.length)
  | none => program

/-- Why what is no program cannot be launched. -/
def launchError (s : Surroundings) (program : String) : LaunchError :=
  let path := program.toList
  let parents := ((List.range path.length).filter fun i => path[i]? = some '/').map path.take
  if ¬ path.contains '/' then .notFound
  else if (s.file program).isSome then .notExecutable
  else if parents.any fun p => (s.file (String.ofList p)).isSome then .notDirectory
  else .notFound

/-- Launches programs, of which scripts may launch others to a given depth. -/
def launchWithin (s : Surroundings) : (depth : Nat) → Launcher
  | depth, program, args =>
    match programName program, args with
    | "true", _ => .ok { status := .code 0 }
    | "false", _ => .ok { status := .code 1 }
    | "sleep", _ => .ok { status := .code 0 }
    | "echo", _ => .ok { status := .code 0, printed := echoed args }
    | "cat", _ => .ok (concatenated s args)
    | "sh", "-c" :: text :: _ =>
      match depth with
      | 0 => .ok { status := .code 2 }
      | depth + 1 => .ok (runScript s (launchWithin s depth) text)
    | "sh", _ => .ok { status := .code 0 }
    | _, _ => .error (launchError s program)

/-- Launches programs. A script that launches a script is longer than that one, so the length of the
arguments is depth enough. -/
def launch (s : Surroundings) : Launcher := fun program args =>
  launchWithin s (args.foldl (fun n a => n + a.length) 1) program args

end Latchkey.Launch
