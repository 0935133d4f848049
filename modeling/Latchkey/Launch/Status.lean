/-!
# Processes

How a process that was launched ended and what it wrote, or why it could not be launched.
-/

namespace Latchkey

/-- How a process ended. -/
inductive ExitStatus where
  /-- By itself, with a code. -/
  | code (n : Nat)
  /-- By a signal. -/
  | signal (n : Nat)
  deriving Repr, DecidableEq

namespace ExitStatus

/-- The code with which somebody ends who passes the status on; a signal counts as a failure. -/
def passedOn : ExitStatus → Nat
  | .code n => n % 256
  | .signal _ => 1

end ExitStatus

/-- Why a program could not be launched. -/
inductive LaunchError where
  /-- There is no such file. -/
  | notFound
  /-- The file is not a program. -/
  | notExecutable
  /-- A part of the path is a file, not a directory. -/
  | notDirectory
  deriving Repr, DecidableEq

/-- The text of a launch error. -/
def LaunchError.message : LaunchError → String
  | .notFound => "No such file or directory (os error 2)"
  | .notExecutable => "Permission denied (os error 13)"
  | .notDirectory => "Not a directory (os error 20)"

/-- What a process left behind. -/
structure Ended where
  /-- How it ended. -/
  status : ExitStatus
  /-- What it printed. -/
  printed : String := ""
  /-- What it wrote to the error stream. -/
  warned : String := ""
  deriving Repr, DecidableEq

/-- What comes of launching a program with arguments. -/
abbrev Launcher := (program : String) → (args : List String) → Except LaunchError Ended

end Latchkey
