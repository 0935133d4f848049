import Latchkey.Program.Effect

/-!
# Ledgers

What is kept beside the store when lock and filter operations run: the registries of the managers
that share it, the count of the tokens minted, and the events counted.
-/

namespace Latchkey

/-- What is kept beside the store. -/
structure Ledger where
  /-- The registries of the managers. -/
  registries : Table ManagerId Registry := ∅
  /-- The serial number of the next token. -/
  nextToken : Nat := 0
  /-- The events counted, the last one first. -/
  measures : List Measure := []

namespace Ledger

/-- The registry of a manager. -/
def registry (l : Ledger) (manager : ManagerId) : Registry :=
  (l.registries.find? manager).getD ∅

/-- The ledger with the registry of a manager replaced. -/
def setRegistry (l : Ledger) (manager : ManagerId) (r : Registry) : Ledger :=
  { l with registries := l.registries.insert manager r }

/-- The answer to an access of a registry. -/
def access (l : Ledger) (manager : ManagerId) : (a : RegistryAccess) → Ledger × a.Answer
  | .held ctx lock => (l, (l.registry manager).held ctx lock)
  | .record ctx lock token =>
    (l.setRegistry manager ((l.registry manager).record ctx lock token), ())
  | .forget ctx lock =>
    (l.setRegistry manager ((l.registry manager).forget ctx lock),
      (l.registry manager).held ctx lock)
  | .dispose ctx =>
    (l.setRegistry manager ((l.registry manager).dispose ctx),
      (l.registry manager).heldCount ctx)

/-- Mints a token. -/
def mint (l : Ledger) : Ledger × Token :=
  ({ l with nextToken := l.nextToken + 1 }, Token.ofSerial l.nextToken)

/-- Counts an event. -/
def count (l : Ledger) (measure : Measure) : Ledger :=
  { l with measures := measure :: l.measures }

end Ledger

end Latchkey
