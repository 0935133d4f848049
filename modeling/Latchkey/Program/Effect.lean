import Latchkey.Store.Command
import Latchkey.Lock.Registry
import Latchkey.Measure

/-!
# Effects

What a lock or filter operation does besides computing: it looks at the clock, sleeps, calls the
store, gives connections back, reads and changes the registry of its manager, mints tokens, guards
sections, and counts. Each effect has its own type of reply.
-/

namespace Latchkey

/-- The number of a lock manager among those that share a store. -/
abbrev ManagerId := Nat

/-- A change of a registry, or a look at it. -/
inductive RegistryAccess where
  /-- The token a context holds for a lock. -/
  | held (ctx : Context) (lock : String)
  /-- Notes the token a context holds for a lock. -/
  | record (ctx : Context) (lock : String) (token : Token)
  /-- Forgets a lock of a context, giving the token it held. -/
  | forget (ctx : Context) (lock : String)
  /-- Forgets all locks of a context, giving their number. -/
  | dispose (ctx : Context)
  deriving Repr, DecidableEq

/-- What an access answers. -/
abbrev RegistryAccess.Answer : RegistryAccess → Type
  | .held _ _ => Option Token
  | .record _ _ _ => Unit
  | .forget _ _ => Option Token
  | .dispose _ => Nat

/-- A lock to be given up should the section that it guards be dropped. -/
structure Guard where
  /-- The manager of the lock. -/
  manager : ManagerId
  /-- The context that holds it. -/
  ctx : Context
  /-- Its name. -/
  lock : String
  deriving Repr, DecidableEq

/-- An effect. -/
inductive Effect where
  /-- The present time, in milliseconds. -/
  | clock
  /-- Sleeps for so many milliseconds. -/
  | sleep (ms : Nat)
  /-- Is the store closing? -/
  | closing
  /-- How is the store deployed? -/
  | deployment
  /-- Calls the store. -/
  | call (c : StoreCall)
  /-- Gives a connection back to its pool. -/
  | release (conn : Connection)
  /-- Accesses the registry of a manager. -/
  | registry (manager : ManagerId) (access : RegistryAccess)
  /-- Mints a fresh token. -/
  | mint
  /-- Starts to guard a section. -/
  | arm (guard : Guard)
  /-- Ends the innermost guarded section. -/
  | disarm
  /-- Counts an event. -/
  | count (measure : Measure)
  deriving Repr, DecidableEq

/-- What an effect replies. -/
abbrev Effect.Reply : Effect → Type
  | .clock => Nat
  | .sleep _ => Unit
  | .closing => Bool
  | .deployment => Deployment
  | .call c => Except StoreError c.Answer
  | .release _ => Unit
  | .registry _ access => access.Answer
  | .mint => Token
  | .arm _ => Unit
  | .disarm => Unit
  | .count _ => Unit

end Latchkey
