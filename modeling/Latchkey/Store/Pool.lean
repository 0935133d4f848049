/-!
# Connection pools

A pool lends a limited number of connections. Borrowers that find none free wait in a queue, in the
order in which they came. A connection that comes back goes to the borrower that has waited longest:
it is set aside for that borrower, who picks it up when it next looks, or passes it on if it has
given up.
-/

namespace Latchkey

/-- The number a waiting borrower has drawn. -/
abbrev Ticket := Nat

/-- The state of a pool. -/
structure Pool where
  /-- The connections nobody has. -/
  free : Nat
  /-- The borrowers that wait, the longest first. -/
  waiting : List Ticket
  /-- The borrowers for which a connection is set aside. -/
  granted : List Ticket
  /-- The next number to be drawn. -/
  nextTicket : Ticket
  deriving Repr, DecidableEq

namespace Pool

/-- The pool with `limit` connections, all free. -/
def ofLimit (limit : Nat) : Pool := ⟨limit, [], [], 0⟩

/-- Takes a free connection. -/
def take? (p : Pool) : Option Pool :=
  match p.free with
  | 0 => none
  | n + 1 => some { p with free := n }

/-- Draws a number and queues up. -/
def enqueue (p : Pool) : Pool × Ticket :=
  ({ p with waiting := p.waiting ++ [p.nextTicket], nextTicket := p.nextTicket + 1 }, p.nextTicket)

/-- Takes a connection back, or passes it on. -/
def putBack (p : Pool) : Pool :=
  match p.waiting with
  | t :: rest => { p with waiting := rest, granted := p.granted ++ [t] }
  | [] => { p with free := p.free + 1 }

/-- Whether a connection is set aside for a borrower. -/
def isGranted (p : Pool) (t : Ticket) : Bool := p.granted.contains t

/-- The borrower picks up the connection set aside for it. -/
def claim (p : Pool) (t : Ticket) : Pool := { p with granted := p.granted.erase t }

/-- The borrower gives up, passing on what is set aside for it. -/
def withdraw (p : Pool) (t : Ticket) : Pool :=
  if p.isGranted t then (p.claim t).putBack else { p with waiting := p.waiting.erase t }

end Pool

end Latchkey
