import Latchkey.Lock.Settings
import Latchkey.Table

/-!
# The registry of a lock manager

Which locks each context holds, and with which tokens. A context is listed only while it holds
something.
-/

namespace Latchkey

/-- The identity of a caller: locks are re-entrant within one context. -/
abbrev Context := String

/-- The proof of ownership stored under the key of a lock. -/
abbrev Token := String

/-- The token with a serial number: at least 32 lower-case hexadecimal digits. -/
def Token.ofSerial (n : Nat) : Token :=
  let digits := Nat.toDigits 16 n
  String.ofList (List.replicate (32 - digits.length) '0' ++ digits)

/-- The locks held, by context. -/
abbrev Registry := Table Context (Table String Token)

namespace Registry

/-- The locks a context holds. -/
def locksOf (r : Registry) (ctx : Context) : Table String Token := (r.find? ctx).getD ∅

/-- The token a context holds for a lock. -/
def held (r : Registry) (ctx : Context) (lock : String) : Option Token :=
  (r.find? ctx).bind fun locks => locks.find? lock

/-- Notes or overwrites the token a context holds for a lock. -/
def record (r : Registry) (ctx : Context) (lock : String) (token : Token) : Registry :=
  r.insert ctx ((r.locksOf ctx).insert lock token)

/-- Forgets a lock of a context. -/
def forget (r : Registry) (ctx : Context) (lock : String) : Registry :=
  r.alter ctx fun locks? =>
    (locks?.map fun locks => locks.erase lock).filter fun locks => !locks.entries.isEmpty

/-- Forgets all locks of a context. -/
def dispose (r : Registry) (ctx : Context) : Registry := r.erase ctx

/-- The number of locks a context holds. -/
def heldCount (r : Registry) (ctx : Context) : Nat := (r.locksOf ctx).size

/-- The locks a context holds with their tokens, in no particular order. -/
def holdings (r : Registry) (ctx : Context) : List Holding :=
  (r.locksOf ctx).entries.map fun e => ⟨e.1, e.2⟩

/-- The number of contexts that hold something. -/
def contextCount (r : Registry) : Nat := r.size

end Registry

end Latchkey
