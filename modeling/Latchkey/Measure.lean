/-!
# Measures

What lock managers and filters count: how each attempt to acquire a lock ended and how long it took,
how each release ended, and the operations of filters.
-/

namespace Latchkey

/-- How an attempt to acquire a lock ended. -/
inductive AcquireOutcome where
  /-- The lock was free and is held now. -/
  | acquired
  /-- The lock was held by the context and has a new lifetime. -/
  | refreshed
  /-- The context believed to hold the lock, but its token is not in force. -/
  | refreshFailed
  /-- The lock is held by another owner. -/
  | contended
  /-- The attempt itself took the whole lifetime. -/
  | timedOut
  /-- The store is closing. -/
  | closing
  /-- A store call failed. -/
  | error
  deriving Repr, DecidableEq

/-- The label of an outcome. -/
def AcquireOutcome.label : AcquireOutcome → String
  | .acquired => "acquired"
  | .refreshed => "refreshed"
  | .refreshFailed => "refresh_failed"
  | .contended => "contended"
  | .timedOut => "timed_out"
  | .closing => "closing"
  | .error => "error"

/-- Whether the lock is held after an attempt with this outcome. -/
def AcquireOutcome.isHeld : AcquireOutcome → Bool
  | .acquired => true
  | .refreshed => true
  | _ => false

/-- How a release ended. -/
inductive ReleaseOutcome where
  /-- The context held nothing. -/
  | notHeld
  /-- The key was deleted. -/
  | released
  /-- The key has another owner's token. -/
  | ownerMismatch
  /-- The key was gone already. -/
  | expired
  deriving Repr, DecidableEq

/-- The label of an outcome. -/
def ReleaseOutcome.label : ReleaseOutcome → String
  | .notHeld => "not_held"
  | .released => "released"
  | .ownerMismatch => "owner_mismatch"
  | .expired => "expired"

/-- Whether the release was one, as far as its caller can tell. -/
def ReleaseOutcome.isSuccess : ReleaseOutcome → Bool
  | .released => true
  | .expired => true
  | _ => false

/-- An operation of a filter. -/
inductive FilterOperation where
  /-- A filter was made or adopted. -/
  | create
  /-- An element was added. -/
  | add
  /-- An element was asked for. -/
  | test
  deriving Repr, DecidableEq

/-- The label of an operation. -/
def FilterOperation.label : FilterOperation → String
  | .create => "create"
  | .add => "add"
  | .test => "test"

/-- One event that is counted. -/
inductive Measure where
  /-- An attempt to acquire a lock ended after so many milliseconds. -/
  | acquire (outcome : AcquireOutcome) (duration : Nat)
  /-- A release ended. -/
  | release (outcome : ReleaseOutcome)
  /-- A filter was used. -/
  | filter (operation : FilterOperation)
  deriving Repr, DecidableEq

namespace Measure

/-- The name of the counter of acquisitions. -/
def acquireTotal : String := "kvguard_lock_acquire_total"

/-- The name of the counter of releases. -/
def releaseTotal : String := "kvguard_lock_release_total"

/-- The name of the histogram of acquisition times. -/
def acquireDuration : String := "kvguard_lock_acquire_duration_seconds"

/-- The name of the counter of filter operations. -/
def filterTotal : String := "kvguard_filter_ops_total"

/-- What each metric is about, with its kind in front. -/
def descriptions : List (String × String) :=
  [(acquireTotal, "counter: Total number of lock acquisition attempts by outcome"),
    (releaseTotal, "counter: Total number of lock releases by outcome"),
    (acquireDuration, "histogram: Lock acquisition latency in seconds"),
    (filterTotal, "counter: Total number of membership filter operations")]

/-- A counter name with a label. -/
def labelled (name label value : String) : String :=
  name ++ "\x7b" ++ label ++ "=" ++ value ++ "\x7d"

/-- The counter that an event increases. -/
def counter : Measure → String
  | .acquire outcome _ => labelled acquireTotal "outcome" outcome.label
  | .release outcome => labelled releaseTotal "outcome" outcome.label
  | .filter operation => labelled filterTotal "op" operation.label

/-- The time that an event adds to the histogram. -/
def duration? : Measure → Option Nat
  | .acquire _ duration => some duration
  | _ => none

end Measure

end Latchkey
