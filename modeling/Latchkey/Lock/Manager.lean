import Latchkey.Program.Basic
import Latchkey.Lock.Key

/-!
# Lock managers

A lock is a key of the store that holds the token of its owner and lives for a limited time. A
manager acquires, refreshes and releases locks for calling contexts. It is correct by the atomic
commands of the store alone: it writes a token only where there is none, and deletes or refreshes a
key only if the key has the token that it expects.

On a sharded store an acquisition also waits for the replicas of the node, and takes its token back
if that fails or takes too long.
-/

namespace Latchkey

/-- At most so many replicas are waited for. -/
def maxReplicaQuorum : Nat := 2

/-- A lock manager. -/
structure Manager where
  /-- Its number among the managers that share a store; it selects the registry. -/
  id : ManagerId := 0
  /-- The times its short forms use. -/
  settings : LockSettings := {}
  deriving Repr, DecidableEq

/-- How a section that was run ended. -/
inductive Finish (ε α : Type) where
  /-- With a value. -/
  | value (a : α)
  /-- With an error of its own. -/
  | failed (e : ε)
  /-- In a panic. -/
  | panicked (text : String)
  deriving Repr

/-- What became of a guarded section. -/
inductive Guarded (ε α : Type) where
  /-- It was not run, and that is a failure. -/
  | refused (failure : Failure)
  /-- It was not run, as the lock is held by another owner. -/
  | skipped
  /-- It was run under the lock. -/
  | ran (finish : Finish ε α)
  deriving Repr

namespace Manager

variable {X : Extension}

/-! ## Acquiring -/

/-- Gives the key of a lock that the context holds a new lifetime. -/
def refresh (key : String) (token : Token) (ttl : Nat) : Action X StoreError AcquireOutcome :=
  Action.withConnection (Action.connectionFor key) fun conn => do
    if ← Action.send conn (.compareAndExpire key token ttl) then return .refreshed
    else return .refreshFailed

/-- Writes a token on a store that is not sharded, for a call that started at the given time. -/
def acquireSingle (key : String) (token : Token) (ttl started : Nat) :
    Action X StoreError AcquireOutcome :=
  Action.withConnection (Action.connectionFor key) fun conn => do
    if ← Action.send conn (.set key token ttl true) then
      if (← Action.perform .clock) - started ≥ ttl then return .timedOut
      else return .acquired
    else return .contended

/-- Waits for the replicas of a node, as many as there are but not more than the quorum. -/
def awaitReplicas (conn : Connection) (node : NodeId) (wait : Nat) :
    Action X StoreError Unit := do
  let quorum := min (← Action.call (.replicaCount node)) maxReplicaQuorum
  if quorum = 0 then return ()
  else
    -- too few acknowledgments in time are no error
    let _ ← Action.send conn (.awaitReplicas quorum wait)
    return ()

/-- Takes a token back; whether that succeeds does not matter. -/
def rollback (conn : Connection) (key : String) (token : Token) : Action X StoreError Unit :=
  ExceptT.mk do
    let _ ← (Action.send conn (.compareAndDelete key token)).run
    return .ok ()

/-- Writes a token on a sharded store and waits for replicas. -/
def acquireSharded (key : String) (token : Token) (ttl wait : Nat) :
    Action X StoreError AcquireOutcome := do
  let node ← Action.call (.nodeOwning key)
  Action.withConnection (Action.call (.connect node)) fun conn => do
    let started ← Action.perform .clock
    if ← Action.send conn (.set key token ttl true) then
      match ← ExceptT.lift (awaitReplicas conn node wait).run with
      | .ok () =>
        if (← Action.perform .clock) - started < ttl then return .acquired
        else
          rollback conn key token
          return .timedOut
      | .error e =>
        rollback conn key token
        throw e
    else return .contended

/-- An attempt to acquire or refresh a lock, for a call that started at the given time. -/
def attempt (m : Manager) (ctx : Context) (lock : String) (ttl wait started : Nat) :
    Action X StoreError AcquireOutcome := do
  let key := lockKey lock
  match ← Action.registry m.id (.held ctx lock) with
  | some token => refresh key token ttl
  | none =>
    let token ← Action.perform .mint
    let outcome ←
      if (← Action.perform .deployment).isSharded then acquireSharded key token ttl wait
      else acquireSingle key token ttl started
    if outcome = .acquired then
      Action.registry m.id (.record ctx lock token)
    return outcome

/-- Acquires a lock for a context, or refreshes it if the context holds it. The answer is false if
the lock is held elsewhere, if the lifetime is zero, if the store is closing or if the attempt took
the whole lifetime. -/
def acquire (m : Manager) (ctx : Context) (lock : String) (ttl wait : Nat) :
    Action X Failure Bool := do
  if ttl = 0 then return false
  else
    let started ← Action.perform .clock
    if ← Action.perform .closing then
      Action.perform (.count (.acquire .closing 0))
      return false
    else
      let result ← ExceptT.lift (m.attempt ctx lock ttl (min wait ttl) started).run
      let outcome := match result with
        | .ok outcome => outcome
        | .error _ => .error
      let ended ← Action.perform .clock
      Action.perform (.count (.acquire outcome (ended - started)))
      match result with
      | .ok outcome => return outcome.isHeld
      | .error e => throw (Failure.ofStore e)

/-- Attempts to acquire a lock, with pauses between them, until one succeeds or fails, the store is
closing or the deadline is over. The loop has no count of attempts; `attempts` bounds it here, so
that it is a function, and with a pause the bound is out of reach (`attemptLimit`). -/
def acquireUntil (m : Manager) (ctx : Context) (lock : String) (ttl wait deadline : Nat) :
    (attempts : Nat) → Action X Failure Bool
  | 0 => return false
  | attempts + 1 => do
    if ← m.acquire ctx lock ttl wait then return true
    else if ← Action.perform .closing then return false
    else if (← Action.perform .clock) ≥ deadline then return false
    else
      Action.perform (.sleep m.settings.pollInterval)
      m.acquireUntil ctx lock ttl wait deadline attempts

/-- As many attempts as fit into a retry budget, given the pause between two of them: with a pause
of at least a millisecond the deadline is over before they are used up. Without a pause nothing
bounds the attempts at one instant, and the number, two more than the milliseconds of the budget, is
a cut-off that the loop as such does not have. -/
def attemptLimit (budget poll : Nat) : Nat := budget / max poll 1 + 2

/-- Acquires a lock, trying again until the budget is used up. A budget above the ceiling is wrong
use. -/
def acquireWithRetry (m : Manager) (ctx : Context) (lock : String) (ttl wait budget : Nat) :
    Action X Failure Bool := do
  if budget > maxRetryBudget then throw (.configuration (.retryBudget budget))
  else
    let deadline := (← Action.perform .clock) + budget
    m.acquireUntil ctx lock ttl wait deadline (attemptLimit budget m.settings.pollInterval)

/-- Acquires a lock with the manager's own times. -/
def tryLock (m : Manager) (ctx : Context) (lock : String) : Action X Failure Bool :=
  m.acquire ctx lock m.settings.ttl m.settings.replicationWait

/-- Acquires a lock with the manager's own times, trying again. -/
def tryLockWithRetry (m : Manager) (ctx : Context) (lock : String) : Action X Failure Bool :=
  m.acquireWithRetry ctx lock m.settings.ttl m.settings.replicationWait m.settings.retryBudget

/-! ## Releasing -/

/-- Deletes the key of a lock if it has the token, and says what was found. -/
def giveUp (conn : Connection) (key : String) (token : Token) :
    Action X StoreError ReleaseOutcome := do
  if ← Action.send conn (.compareAndDelete key token) then return .released
  else if ← Action.send conn (.present key) then return .ownerMismatch
  else return .expired

/-- Releases a lock that the registry has under a token. The connection is given back last. -/
def releaseHeld (m : Manager) (ctx : Context) (lock : String) (token : Token) :
    Action X StoreError Bool :=
  Action.withConnection (Action.connectionFor (lockKey lock)) fun conn => do
    let outcome ← giveUp conn (lockKey lock) token
    let _ ← Action.registry m.id (.forget ctx lock)
    Action.perform (.count (.release outcome))
    return outcome.isSuccess

/-- Releases a lock that a context holds. The answer is false if the context holds nothing or the
key has another owner's token by now. If a store call fails the context keeps its entry. -/
def release (m : Manager) (ctx : Context) (lock : String) : Action X Failure Bool := do
  match ← Action.registry m.id (.held ctx lock) with
  | none =>
    Action.perform (.count (.release .notHeld))
    return false
  | some token => Action.orFail (m.releaseHeld ctx lock token)

/-- Deletes the key of a lock whose guarded section was dropped. -/
def releaseAbandoned (lock : String) (token : Token) : Action X StoreError Bool :=
  Action.withConnection (Action.connectionFor (lockKey lock)) fun conn =>
    Action.send conn (.compareAndDelete (lockKey lock) token)

/-! ## Guarded sections -/

/-- Runs a section while holding a lock, and releases the lock however the section ends. -/
def runGuarded {ε α : Type} (m : Manager) (ctx : Context) (lock : String) (ttl : Nat)
    (throws : Bool) (body : Program X (Finish ε α)) : Program X (Guarded ε α) := do
  match ← (m.acquire ctx lock ttl m.settings.replicationWait).run with
  | .error failure => return .refused failure
  | .ok false => return if throws then .refused (.contention lock) else .skipped
  | .ok true =>
    Program.perform (.arm ⟨m.id, ctx, lock⟩)
    let finish ← body
    -- a lock that cannot be released is left to expire
    let _ ← (m.release ctx lock).run
    Program.perform .disarm
    return .ran finish

end Manager

end Latchkey
