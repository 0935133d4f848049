import Latchkey.Redis.ClusterStore
import Latchkey.Redis.SingleStore
import Latchkey.Redis.Network

/-!
# Redis stores

A Redis store is sharded or has one primary. Opening it asks one question over the network; then it
answers calls, of which commands and connecting use the network again.
-/

namespace Latchkey.Redis

/-- An open store. -/
inductive Store where
  /-- A store with one primary. -/
  | single (s : SingleStore)
  /-- A sharded store. -/
  | cluster (c : ClusterStore)

namespace Store

/-- How the store is deployed. -/
def deployment : Store → Deployment
  | .single s => s.deployment
  | .cluster _ => .sharded

/-- Whether the store is closing. -/
def closing : Store → Bool
  | .single s => s.closing
  | .cluster c => c.closing

/-- The closed store. -/
def close : Store → Store
  | .single s => .single { s with closing := true }
  | .cluster c => .cluster c.close

/-- The node that owns a key. -/
def nodeOwning (s : Store) (key : String) : Except StoreError NodeId :=
  match s with
  | .single s => .ok (s.topology.nodeOwning key)
  | .cluster c => c.view.nodeOwning key

/-- The number of replicas of a node. -/
def replicaCount (s : Store) (node : NodeId) : Except StoreError Nat :=
  match s with
  | .single s => .ok (s.topology.replicaCount node)
  | .cluster c => c.view.replicaCount node

/-- The store that is asked to connect to a node, and where the node is reached. -/
def connect (s : Store) (node : NodeId) : Store × Except StoreError Endpoint :=
  match s with
  | .single s => (.single s, s.connect node)
  | .cluster c =>
    let r := c.connect node
    (.cluster r.1, r.2)

/-- Where the server of a connection is reached. -/
def endpoint? (s : Store) (node : NodeId) : Option Endpoint :=
  match s with
  | .single s => some s.endpoint
  | .cluster c => (c.pools.find? node).map (·.endpoint)

end Store

variable {σ : Type}

/-- Asks a question over a connection that is borrowed for it. -/
def askOnce (net : Network σ) (n : σ) (endpoint : Endpoint) (request : Request) :
    Exchange σ (Except RedisError Value) :=
  let c := net.connect n endpoint
  match c.reply with
  | .error e => ⟨c.net, c.elapsed, .error e⟩
  | .ok () =>
    let r := net.ask c.net endpoint request
    ⟨r.net, c.elapsed + r.elapsed, .ok r.reply⟩

/-- The answer to a question, its errors seen as errors of the store. -/
def answerOf (reply : Except RedisError (Except RedisError Value)) : Except StoreError Value :=
  match reply with
  | .error e => .error (.pool (.backend e))
  | .ok (.error e) => .error (.redis e)
  | .ok (.ok v) => .ok v

/-- A store that was to be opened, with the network afterwards and the time it took. -/
structure Opening (σ : Type) where
  /-- The network. -/
  net : σ
  /-- The time it took, in milliseconds. -/
  elapsed : Nat
  /-- The store, if it could be opened. -/
  store : Except StoreError Store

/-- Opens the store that settings describe. -/
def openStore (net : Network σ) (n : σ) (s : StoreSettings) : Opening σ :=
  match poolEndpoint s.url with
  | .error e => ⟨n, 0, .error e⟩
  | .ok endpoint =>
    if s.cluster then
      let r := askOnce net n endpoint .clusterSlots
      ⟨r.net, r.elapsed, (ClusterStore.ofSeed s endpoint (answerOf r.reply)).map .cluster⟩
    else
      let r := askOnce net n endpoint .replicationInfo
      ⟨r.net, r.elapsed, (SingleStore.ofReport s endpoint (answerOf r.reply)).map .single⟩

end Latchkey.Redis
