import Latchkey.Lock.Manager
import Latchkey.Filter.Membership
import Latchkey.Store.Memory

/-!
# Steps of a scenario

A scenario is a list of steps that exercise locks, filters and a store in memory. Steps may run side
by side, and a guarded section holds steps of its own. The values that guarded sections may give are
a parameter.
-/

namespace Latchkey.Scenario

/-- Who acts on which lock. -/
structure Caller where
  /-- The manager. -/
  manager : ManagerId
  /-- The context. -/
  ctx : Context
  /-- The lock. -/
  lock : String
  deriving Repr, DecidableEq

/-- The inside of a guarded section, with steps of type `σ` and values of type `ν`. -/
structure Body (σ ν : Type) where
  /-- A panic before anything is done. -/
  panicAtOnce : Option String
  /-- What is done. -/
  steps : List σ
  /-- How it ends. -/
  finish : Finish Failure ν

/-- A guarded section. -/
structure GuardedCall (σ ν : Type) where
  /-- Who runs it under which lock. -/
  caller : Caller
  /-- The lifetime of the lock. -/
  ttl : Nat
  /-- A lock held by another owner is a failure. -/
  throws : Bool
  /-- Its inside. -/
  body : Body σ ν

/-- The kinds of calls to a store. -/
inductive Method where
  /-- The owner of a key. -/
  | nodeOwning
  /-- The replicas of a node. -/
  | replicaCount
  /-- A connection. -/
  | connect
  /-- Writing a value. -/
  | set
  /-- Deleting an expected value. -/
  | compareAndDelete
  /-- A new lifetime for an expected value. -/
  | compareAndExpire
  /-- Asking for a key. -/
  | present
  /-- Reading a bit. -/
  | getBit
  /-- Writing a bit. -/
  | setBit
  /-- A new lifetime. -/
  | expire
  /-- The rest of a lifetime. -/
  | remaining
  /-- Waiting for replicas. -/
  | awaitReplicas
  deriving Repr, DecidableEq

/-- The kind of a call. -/
def Method.ofCall : StoreCall → Method
  | .nodeOwning _ => .nodeOwning
  | .replicaCount _ => .replicaCount
  | .connect _ => .connect
  | .command _ cmd => match cmd with
    | .set .. => .set
    | .compareAndDelete .. => .compareAndDelete
    | .compareAndExpire .. => .compareAndExpire
    | .present _ => .present
    | .getBit .. => .getBit
    | .setBit .. => .setBit
    | .expire .. => .expire
    | .remaining _ => .remaining
    | .awaitReplicas .. => .awaitReplicas

/-- A fault of the store: calls of a kind fail after some more have passed. -/
structure Fault where
  /-- The error of the failing calls. -/
  error : StoreError
  /-- The calls that still pass. -/
  skip : Nat
  /-- The calls that still fail; none means all. -/
  times : Option Nat
  deriving Repr, DecidableEq

/-- A look at the store in memory, or a change of it, that goes past its connections. -/
inductive StoreAccess where
  /-- The number of keys that have a value. -/
  | count
  /-- Whether a key has a value. -/
  | contains (key : String)
  /-- Removes what is gone, giving the number of entries. -/
  | purge
  /-- Purges at once and then periodically; a period of zero does nothing. -/
  | purgeEvery (period : Nat)
  /-- Stalls replication or lets it go on. -/
  | stall (on : Bool)
  /-- Makes waits for replicas fail or not. -/
  | failReplication (on : Bool)
  /-- Sets the delay of writes. -/
  | latency (ms : Nat)
  /-- Makes the nodes unreachable or reachable. -/
  | unavailable (on : Bool)
  /-- Closes the store. -/
  | close
  /-- Makes calls of a kind fail. -/
  | inject (method : Method) (fault : Fault)
  /-- Ends all such failing. -/
  | heal
  deriving Repr, DecidableEq

/-- What an access to the store answers. -/
abbrev StoreAccess.Answer : StoreAccess → Type
  | .count => Nat
  | .contains _ => Bool
  | .purge => Nat
  | _ => Unit

/-- One step. -/
inductive Step (ν : Type) where
  /-- Lets time pass. -/
  | advance (ms : Nat)
  /-- Runs lists of steps side by side. -/
  | parallel (branches : List (List (Step ν)))
  /-- Acquires a lock. -/
  | acquire (caller : Caller) (ttl wait : Nat)
  /-- Acquires a lock, trying again. -/
  | acquireRetry (caller : Caller) (ttl wait budget : Nat)
  /-- Acquires a lock with the manager's times. -/
  | tryLock (caller : Caller)
  /-- Acquires a lock with the manager's times, trying again. -/
  | tryLockRetry (caller : Caller)
  /-- Releases a lock. -/
  | release (caller : Caller)
  /-- Runs a guarded section, dropping it after a time if it is not done. -/
  | guarded (call : GuardedCall (Step ν) ν) (cancel : Option Nat)
  /-- Forgets all locks of a context. -/
  | dispose (manager : ManagerId) (ctx : Context)
  /-- The settings of the managers. -/
  | settings
  /-- The token held for a lock. -/
  | held (caller : Caller)
  /-- The number of locks held. -/
  | heldCount (manager : ManagerId) (ctx : Context)
  /-- The locks held. -/
  | records (manager : ManagerId) (ctx : Context)
  /-- The number of contexts that hold a lock. -/
  | contextCount (manager : ManagerId)
  /-- Notes a token as held. -/
  | record (caller : Caller) (token : Token)
  /-- Forgets a lock. -/
  | forget (caller : Caller)
  /-- Makes a filter, kept under a name. -/
  | filterNew (name : String) (settings : FilterSettings)
  /-- Adds an element to a filter. -/
  | add (filter element : String)
  /-- Asks a filter for an element. -/
  | test (filter element : String)
  /-- The key of a filter. -/
  | filterName (filter : String)
  /-- How the store is deployed. -/
  | deployment
  /-- Whether the store is closing. -/
  | isClosing
  /-- The node that owns a key. -/
  | nodeOwning (key : String)
  /-- The number of replicas of a node. -/
  | replicaCount (node : NodeId)
  /-- Borrows a connection to a node, kept under a name. -/
  | connect (node : NodeId) (name : String)
  /-- Borrows a connection to the owner of a key, kept under a name. -/
  | connectionFor (key : String) (name : String)
  /-- Gives a connection back. -/
  | drop (conn : String)
  /-- The node of a connection. -/
  | node (conn : String)
  /-- Sends a command over a connection. -/
  | command (conn : String) (cmd : Command)
  /-- Accesses the store directly. -/
  | store (access : StoreAccess)
  /-- Whether the store has no keys. -/
  | isEmpty

/-- How a guarded section of a scenario ended. -/
inductive Outcome (ν : Type) where
  /-- With a value. -/
  | value (v : ν)
  /-- It was not run. -/
  | skipped
  /-- It was dropped. -/
  | cancelled
  /-- In a panic. -/
  | panicked (text : String)
  /-- In a failure. -/
  | failed (failure : Failure)

/-- What a step answers. Lists of steps answer lists of results, each with the time of its end. -/
inductive Result (ν : Type) where
  /-- Nothing. -/
  | nothing
  /-- A truth value. -/
  | truth (b : Bool)
  /-- A number. -/
  | number (n : Nat)
  /-- A number that may be missing. -/
  | optionalNumber (n : Option Nat)
  /-- A text. -/
  | text (s : String)
  /-- A text that may be missing. -/
  | optionalText (s : Option String)
  /-- A failure. -/
  | failure (f : Failure)
  /-- A store error. -/
  | storeError (e : StoreError)
  /-- There is no connection of that name. -/
  | noConnection
  /-- There is no filter of that name. -/
  | noFilter
  /-- The plan of a filter. -/
  | plan (p : FilterPlan)
  /-- The settings of a manager. -/
  | settings (s : LockSettings)
  /-- Locks held. -/
  | holdings (hs : List Holding)
  /-- What the branches answered. -/
  | branches (entries : List (List (Result ν × Nat)))
  /-- How a guarded section ended, and what its steps answered. -/
  | guarded (outcome : Outcome ν) (body : List (Result ν × Nat))

/-- The result of something that may fail. -/
def Result.ofFailure {ν α : Type} (f : α → Result ν) : Except Failure α → Result ν
  | .ok a => f a
  | .error e => .failure e

/-- The result of a store call. -/
def Result.ofCall {ν α : Type} (f : α → Result ν) : Except StoreError α → Result ν
  | .ok a => f a
  | .error e => .storeError e

/-- The result of a command. -/
def Result.ofAnswer {ν : Type} : (cmd : Command) → cmd.Answer → Result ν
  | .remaining _, n => .optionalNumber n
  | .awaitReplicas _ _, n => .number n
  | .set .., b => .truth b
  | .compareAndDelete .., b => .truth b
  | .compareAndExpire .., b => .truth b
  | .present _, b => .truth b
  | .getBit .., b => .truth b
  | .setBit .., b => .truth b
  | .expire .., b => .truth b

/-- The result of an access to the store. -/
def Result.ofAccess {ν : Type} : (a : StoreAccess) → a.Answer → Result ν
  | .count, n => .number n
  | .contains _, b => .truth b
  | .purge, n => .number n
  | .purgeEvery _, _ => .nothing
  | .stall _, _ => .nothing
  | .failReplication _, _ => .nothing
  | .latency _, _ => .nothing
  | .unavailable _, _ => .nothing
  | .close, _ => .nothing
  | .inject .., _ => .nothing
  | .heal, _ => .nothing

end Latchkey.Scenario
