import Latchkey.Redis.Endpoint
import Latchkey.Redis.Value
import Latchkey.Store.Deployment
import Latchkey.Store.Settings
import Latchkey.Text.Blank

/-!
# Stores with one primary

A store with one primary asks it, when it is opened, how many replicas are connected; that decides
how the store is deployed.
-/

namespace Latchkey.Redis

/-- An open store with one primary. -/
structure SingleStore where
  /-- Where the primary is reached. -/
  endpoint : Endpoint
  /-- The primary and its replicas. -/
  topology : SingleNode
  /-- No more connections are lent. -/
  closing : Bool := false

/-- What stands before the number of connected replicas. -/
def replicasLabel : List Char := "connected_slaves:".toList

/-- What is behind a label in front of a text. -/
def behindLabel? (label cs : List Char) : Option (List Char) :=
  if label.isPrefixOf cs then some (cs.drop label.length) else none

/-- The number of connected replicas in a report on replication: the first line that gives one
counts, and a number that cannot be read is zero. -/
def connectedReplicas (report : String) : Nat :=
  let given := (Text.lines report.toList).findSome? fun l =>
    behindLabel? replicasLabel (Text.trim l)
  match given.bind fun cs => Decimal.natural? (Text.trim cs) with
  | some n => if n < 18446744073709551616 then n else 0
  | none => 0

namespace SingleStore

/-- The store that is opened when the primary, reached at the given endpoint, answers. -/
def ofReport (s : StoreSettings) (endpoint : Endpoint) (answer : Except StoreError Value) :
    Except StoreError SingleStore := do
  let report ← (← answer).toText.mapError .redis
  return {
    endpoint := endpoint
    topology := ⟨s.address ++ ":" ++ Nat.repr s.port, connectedReplicas report⟩ }

/-- How the store is deployed. -/
def deployment (s : SingleStore) : Deployment :=
  if 0 < s.topology.replicas then .primaryReplica else .standalone

/-- Where the node is reached that a connection is wanted to. -/
def connect (s : SingleStore) (node : NodeId) : Except StoreError Endpoint :=
  if s.closing then .error .closed
  else if node = s.topology.node then .ok s.endpoint
  else .error (.topology ("unknown node " ++ node))

end SingleStore

end Latchkey.Redis
