import Latchkey.Json.Record

/-!
# Settings of a lock manager

The times, in milliseconds, that the short forms of the lock operations use.
-/

namespace Latchkey

/-- The default times of a lock manager. -/
structure LockSettings where
  /-- How long a lock lives. -/
  ttl : Nat := 5000
  /-- The longest wait for replicas. -/
  replicationWait : Nat := 500
  /-- How long an acquisition is tried again. -/
  retryBudget : Nat := 60000
  /-- The pause between two attempts. -/
  pollInterval : Nat := 5
  deriving Repr, DecidableEq

namespace LockSettings

/-- The names of the fields in records. -/
def fieldNames : List String :=
  ["ttl_ms", "replication_wait_ms", "retry_budget_ms", "poll_interval_ms"]

/-- The record of the settings. -/
def toJson (s : LockSettings) : Json :=
  .obj
    [("ttl_ms", .nat s.ttl), ("replication_wait_ms", .nat s.replicationWait),
      ("retry_budget_ms", .nat s.retryBudget), ("poll_interval_ms", .nat s.pollInterval)]

/-- Reads the settings; every field has a default. -/
def read? (r : Json.Raw) : Option LockSettings := do
  let fs ← Json.fields? fieldNames r
  let word := Json.readNat Json.maxWord
  let d : LockSettings := {}
  return {
    ttl := ← fs.default "ttl_ms" d.ttl word
    replicationWait := ← fs.default "replication_wait_ms" d.replicationWait word
    retryBudget := ← fs.default "retry_budget_ms" d.retryBudget word
    pollInterval := ← fs.default "poll_interval_ms" d.pollInterval word }

end LockSettings

/-- A lock held by a context, with the token that proves it. -/
structure Holding where
  /-- The name of the lock. -/
  lock : String
  /-- The token stored under the key of the lock. -/
  token : String
  deriving Repr, DecidableEq

namespace Holding

/-- The record of a holding. -/
def toJson (h : Holding) : Json := .obj [("lock_name", .str h.lock), ("owner_token", .str h.token)]

/-- Reads a holding. -/
def read? (r : Json.Raw) : Option Holding := do
  let fs ← Json.fields? ["lock_name", "owner_token"] r
  return {
    lock := ← fs.required "lock_name" Json.readText
    token := ← fs.required "owner_token" Json.readText }

end Holding

end Latchkey
