import Latchkey.Redis.ClusterView
import Latchkey.Redis.Endpoint

/-!
# Sharded stores

A sharded store keeps a view of the cluster and a pool of connections for each primary that it has
been asked to connect to. The seed node is asked for the layout when the store is opened and then
from time to time. A layout that can be read replaces the view as a whole and the pools of primaries
that left are dropped; whatever else the seed answers leaves the store as it is.
-/

namespace Latchkey.Redis

/-- A pool of connections to a primary. -/
structure NodePool where
  /-- Its number among the pools that the store has made. -/
  serial : Nat
  /-- Where the primary is reached. -/
  endpoint : Endpoint
  deriving Repr, DecidableEq

/-- An open sharded store. -/
structure ClusterStore where
  /-- The settings. -/
  settings : StoreSettings
  /-- Where the seed node is reached. -/
  seed : Endpoint
  /-- The layout. -/
  view : ClusterView
  /-- The pools of primaries. -/
  pools : Table NodeId NodePool := ∅
  /-- How many pools were made. -/
  poolsMade : Nat := 0
  /-- No more connections are lent. -/
  closing : Bool := false

/-- Why no pool can be made for a locator. -/
def poolEndpoint (url : String) : Except StoreError Endpoint :=
  (Endpoint.ofUrl url).mapError fun e => .createPool (.config e)

namespace ClusterStore

/-- The layout that the seed's answer gives. -/
def discover (s : StoreSettings) (answer : Except StoreError Value) :
    Except StoreError ClusterView := do
  ClusterView.ofReply (← answer) s.address

/-- The store with a new pool for a primary. -/
def addPool (c : ClusterStore) (node : NodeId) (endpoint : Endpoint) : ClusterStore :=
  { c with
    pools := c.pools.insert node ⟨c.poolsMade, endpoint⟩
    poolsMade := c.poolsMade + 1 }

/-- The store with a pool for a primary, and where the primary is reached. -/
def poolFor (c : ClusterStore) (node : NodeId) : Except StoreError (ClusterStore × Endpoint) :=
  match c.pools.find? node with
  | some pool => .ok (c, pool.endpoint)
  | none =>
    match c.view.nodes.find? node with
    | none => .error (.topology ("unknown node " ++ node))
    | some info => do
      let endpoint ← poolEndpoint info.url
      return (c.addPool node endpoint, endpoint)

/-- The store with pools for primaries. -/
def prepare (c : ClusterStore) : List NodeId → Except StoreError ClusterStore
  | [] => .ok c
  | node :: rest => do
    let r ← c.poolFor node
    r.1.prepare rest

/-- The store that is opened when the seed, reached at the given endpoint, answers. -/
def ofSeed (s : StoreSettings) (seed : Endpoint) (answer : Except StoreError Value) :
    Except StoreError ClusterStore := do
  let c : ClusterStore := { settings := s, seed := seed, view := ← discover s answer }
  if s.preparePool then c.prepare c.view.primaries else return c

/-- The store after the seed is asked anew. -/
def refresh (c : ClusterStore) (answer : Except StoreError Value) : ClusterStore :=
  match discover c.settings answer with
  | .error _ => c
  | .ok view =>
    { c with view := view, pools := c.pools.filter fun node _ => view.nodes.contains node }

/-- The store after a tick of the timer that asks the seed anew; a closed store does not ask. -/
def tick (c : ClusterStore) (answer : Except StoreError Value) : ClusterStore :=
  if c.closing then c else c.refresh answer

/-- The store that is asked to connect to a primary, and where the primary is reached. -/
def connect (c : ClusterStore) (node : NodeId) : ClusterStore × Except StoreError Endpoint :=
  if c.closing then (c, .error .closed)
  else
    match c.poolFor node with
    | .ok (c, endpoint) => (c, .ok endpoint)
    | .error e => (c, .error e)

/-- The closed store. -/
def close (c : ClusterStore) : ClusterStore := { c with closing := true }

/-- The time between two refreshes, in milliseconds. -/
def refreshPeriod (c : ClusterStore) : Nat := max c.settings.topologyRefresh 100

end ClusterStore

end Latchkey.Redis
