import Latchkey.Decimal.Layout

/-!
# Log levels

How grave a line of the log is, and how much of the log is wanted.
-/

namespace Latchkey.Log

/-- How much of the log is wanted: lines of a level and of those above it, the gravest of which is
`error`. -/
inductive Level where
  /-- Nothing. -/
  | off
  /-- Failures. -/
  | error
  /-- And what may become one. -/
  | warn
  /-- And what is worth knowing. -/
  | info
  /-- And what helps to find a fault. -/
  | debug
  /-- And everything else. -/
  | trace
  deriving Repr, DecidableEq

namespace Level

/-- The levels with their names, each at the place that is its number. -/
def all : List (String × Level) :=
  [("off", .off), ("error", .error), ("warn", .warn), ("info", .info), ("debug", .debug),
    ("trace", .trace)]

/-- The number of a level. -/
def rank : Level → Nat
  | .off => 0
  | .error => 1
  | .warn => 2
  | .info => 3
  | .debug => 4
  | .trace => 5

/-- Whether lines of a level are wanted. -/
def includes (wanted level : Level) : Bool := decide (level.rank ≤ wanted.rank)

/-- Reads a level: its number, or its name in small or capital letters. -/
def read? (text : String) : Option Level :=
  match (Decimal.natural? text.toList).bind fun n => (all.map (·.2))[n]? with
  | some l => some l
  | none => all.lookup (text.map Char.toLower)

end Level

end Latchkey.Log
