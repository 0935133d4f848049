import Latchkey.Store.Command
import Latchkey.Store.Keyspace
import Latchkey.Store.Pool

/-!
# In-memory stores

A store in memory, deployed in any of the three ways. Its nodes share one keyspace and one pool.
Replicas are only pretended: they acknowledge at once, unless replication is stalled, when a wait
for them takes all its time and finds none, or failing, when the wait fails. Writes may be delayed,
and the nodes may be unreachable.
-/

namespace Latchkey

/-- A store in memory. -/
structure Memory where
  /-- How it is deployed. -/
  deployment : Deployment
  /-- The number of its primaries. -/
  shards : Nat
  /-- There is at least one primary. -/
  shards_pos : 0 < shards
  /-- The number of replicas of each primary. -/
  replicas : Nat
  /-- The keys and values. -/
  keyspace : Keyspace := ∅
  /-- The pool of connections. -/
  pool : Pool := .ofLimit 1024
  /-- How long a borrower waits for a connection, in milliseconds. -/
  poolWait : Nat := 300
  /-- The connections lent so far. -/
  loans : Nat := 0
  /-- Replicas do not acknowledge. -/
  stalled : Bool := false
  /-- Waits for replicas fail. -/
  failing : Bool := false
  /-- The delay of every write, in milliseconds. -/
  latency : Nat := 0
  /-- No node can be reached. -/
  unavailable : Bool := false
  /-- No more connections are lent. -/
  closing : Bool := false

namespace Memory

/-- A single node. -/
def standalone : Memory := ⟨.standalone, 1, by decide, 0, ∅, .ofLimit 1024, 300, 0, false, false, 0,
  false, false⟩

/-- One primary with replicas. -/
def primaryReplica (replicas : Nat) : Memory :=
  { standalone with deployment := .primaryReplica, replicas := replicas }

/-- Several primaries, at least one, each with replicas. -/
def sharded (shards replicas : Nat) : Memory :=
  { standalone with
    deployment := .sharded
    shards := max 1 shards
    shards_pos := by omega
    replicas := replicas }

/-- The store with a pool of `limit` connections for which a borrower waits so many milliseconds. -/
def withPool (m : Memory) (limit wait : Nat) : Memory :=
  { m with pool := .ofLimit limit, poolWait := wait }

instance : Inhabited Memory := ⟨standalone⟩

/-- The name of a primary. -/
def nodeName (index : Nat) : NodeId := "memory-" ++ Nat.repr index

/-- The primaries. -/
def nodes (m : Memory) : List NodeId := (List.range m.shards).map nodeName

/-- The primary that owns a key. -/
def nodeOwning (m : Memory) (key : String) : NodeId := nodeName (keySlot key % m.shards)

/-- The error about a node that the store does not have. -/
def unknownNode (node : NodeId) : StoreError := .topology ("unknown node " ++ node)

/-- The number of replicas of a node. -/
def replicaCount (m : Memory) (node : NodeId) : Except StoreError Nat :=
  if node ∈ m.nodes then .ok m.replicas else .error (unknownNode node)

/-- Why no connection to a node is lent, apart from the pool. -/
def refusal? (m : Memory) (node : NodeId) : Option StoreError :=
  if m.closing then some .closed
  else if m.unavailable then some (.unavailable (node ++ " is unreachable"))
  else if node ∈ m.nodes then none
  else some (unknownNode node)

/-- Lends a connection that is taken from the pool already. -/
def lend (m : Memory) (node : NodeId) : Memory × Connection :=
  ({ m with loans := m.loans + 1 }, ⟨m.loans, node⟩)

/-- The error of a borrower that has waited in vain. -/
def poolTimeout (m : Memory) : StoreError := .poolTimeout (m.poolWait * 1000000)

/-- The error of a wait for replicas that fails. -/
def lostLink (node : NodeId) : StoreError := .unavailable (node ++ " lost its replication link")

/-- Executes a command that is not a wait for replicas; a wait is answered with nothing gained. -/
def execute (m : Memory) (now : Nat) : (cmd : Command) → Memory × cmd.Answer
  | .set key value ttl onlyIfAbsent =>
    let r := m.keyspace.set now key value ttl onlyIfAbsent
    ({ m with keyspace := r.1 }, r.2)
  | .compareAndDelete key expected =>
    let r := m.keyspace.compareAndDelete now key expected
    ({ m with keyspace := r.1 }, r.2)
  | .compareAndExpire key expected ttl =>
    let r := m.keyspace.compareAndExpire now key expected ttl
    ({ m with keyspace := r.1 }, r.2)
  | .present key => (m, m.keyspace.present now key)
  | .getBit key offset => (m, m.keyspace.getBit now key offset)
  | .setBit key offset bit =>
    let r := m.keyspace.setBit now key offset bit
    ({ m with keyspace := r.1 }, r.2)
  | .expire key ttl =>
    let r := m.keyspace.expire now key ttl
    ({ m with keyspace := r.1 }, r.2)
  | .remaining key => (m, m.keyspace.remaining now key)
  | .awaitReplicas _ _ => (m, 0)

/-- Removes what is gone from the keyspace, and tells how many entries that were. -/
def purge (m : Memory) (now : Nat) : Memory × Nat :=
  let r := m.keyspace.purge now
  ({ m with keyspace := r.1 }, r.2)

end Memory

end Latchkey
