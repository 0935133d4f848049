import Latchkey.Launch.Status
import Latchkey.Program.Basic

/-!
# Terminals

What the commands of the client do besides lock and filter operations: they print, they write to the
error stream and they launch programs.
-/

namespace Latchkey

/-- What a command does to the terminal. -/
inductive TerminalOp where
  /-- Prints a text. -/
  | print (text : String)
  /-- Writes a text to the error stream. -/
  | warn (text : String)
  /-- Launches a program with arguments and waits for its end. -/
  | launch (program : String) (args : List String)
  deriving Repr, DecidableEq

/-- The terminal, as an extension of programs. -/
def terminal : Extension where
  Op := TerminalOp
  Reply
    | .print _ => Unit
    | .warn _ => Unit
    | .launch _ _ => Except LaunchError ExitStatus

/-- What there is to see on a terminal. -/
structure Screen where
  /-- What was printed. -/
  printed : String := ""
  /-- What was written to the error stream. -/
  warned : String := ""
  deriving Repr, DecidableEq

namespace Screen

/-- The screen after a process has ended. -/
def after (s : Screen) (e : Ended) : Screen := ⟨s.printed ++ e.printed, s.warned ++ e.warned⟩

/-- The screen after an operation, and the reply to it; programs are launched by `launcher`. -/
def handle (launcher : Launcher) (s : Screen) : (op : terminal.Op) → Screen × terminal.Reply op
  | .print text => ({ s with printed := s.printed ++ text }, ())
  | .warn text => ({ s with warned := s.warned ++ text }, ())
  | .launch program args =>
    match launcher program args with
    | .error e => (s, .error e)
    | .ok e => (s.after e, .ok e.status)

end Screen

end Latchkey
