import Latchkey.Redis.Value
import Latchkey.Store.Settings
import Latchkey.Store.Deployment
import Latchkey.Table

/-!
# The view of a cluster

A cluster tells which of its primaries serves which slots: a list of entries, each with a first and
a last slot, a primary and its replicas. The view made from this keeps the slot ranges sorted by
their first slot, and for each primary its URL and its number of replicas. An entry without a host
is about the node that answered.
-/

namespace Latchkey.Redis

/-- The slots from `first` to `last`, served by one primary. -/
structure SlotRange where
  /-- The first slot. -/
  first : Nat
  /-- The last slot. -/
  last : Nat
  /-- The primary. -/
  node : NodeId
  deriving Repr, DecidableEq

/-- What is known of a primary. -/
structure NodeInfo where
  /-- Where it is reached. -/
  url : String
  /-- The number of its replicas. -/
  replicas : Nat
  deriving Repr, DecidableEq

/-- A snapshot of the layout of a cluster. -/
structure ClusterView where
  /-- The slot ranges, sorted by first slot. -/
  ranges : List SlotRange
  /-- The primaries. -/
  nodes : Table NodeId NodeInfo

/-- One entry of the layout, as read from the reply. -/
structure SlotEntry where
  /-- The slots and the primary that serves them. -/
  range : SlotRange
  /-- What the entry says about the primary. -/
  info : NodeInfo
  deriving Repr, DecidableEq

/-- Reads a value or fails with the store's error. -/
def orStoreError {α : Type} (r : Except RedisError α) : Except StoreError α :=
  r.mapError .redis

/-- Reads one entry, which has at least three elements. -/
def SlotEntry.read (seedHost : String) (first last primary : Value) (replicas : List Value) :
    Except StoreError SlotEntry := do
  let first ← orStoreError first.toPort
  let last ← orStoreError last.toPort
  match ← orStoreError primary.toList with
  | host :: port :: _ =>
    let host ← orStoreError host.toText
    let port ← orStoreError port.toPort
    let host := if host.isEmpty then seedHost else host
    let node := host ++ ":" ++ Nat.repr port
    return ⟨⟨first, last, node⟩, ⟨StoreSettings.nodeUrl host port, replicas.length⟩⟩
  | _ =>
    throw (.topology ("malformed primary for slots " ++ Nat.repr first ++ "-" ++ Nat.repr last))

/-- Reads the entries in order, passing over those with fewer than three elements. -/
def readEntries (seedHost : String) : List (List Value) → Except StoreError (List SlotEntry)
  | [] => .ok []
  | (first :: last :: primary :: replicas) :: rest => do
    let e ← SlotEntry.read seedHost first last primary replicas
    let es ← readEntries seedHost rest
    return e :: es
  | _ :: rest => readEntries seedHost rest

namespace ClusterView

/-- The view before anything is known. -/
def empty : ClusterView := ⟨[], ∅⟩

/-- The view that entries give; of several entries about one primary the last one counts. -/
def ofEntries (es : List SlotEntry) : ClusterView where
  ranges := (es.map (·.range)).mergeSort fun a b => a.first ≤ b.first
  nodes := es.foldl (fun t e => t.insert e.range.node e.info) ∅

/-- The view that a reply of the cluster gives. -/
def ofReply (reply : Value) (seedHost : String) : Except StoreError ClusterView := do
  let lists ← orStoreError (do (← reply.toList).mapM Value.toList)
  match ← readEntries seedHost lists with
  | [] => throw (.topology "cluster reported no slots")
  | es => return ofEntries es

/-- Binary search among the positions from `base` on, of which there are `size`: the first position
that is not `below`, if all positions before it are and all behind it are not. -/
def search (below : Nat → Bool) (base size : Nat) : Nat :=
  if size ≤ 1 then if below base then base + 1 else base
  else
    let half := size / 2
    search below (if below (base + half) then base + half else base) (size - half)
termination_by size
decreasing_by omega

/-- The position of the first range that does not end before a slot. -/
def position (v : ClusterView) (slot : Nat) : Nat :=
  if v.ranges.isEmpty then 0
  else search (fun i => v.ranges[i]?.any fun r => decide (r.last < slot)) 0 v.ranges.length

/-- The primary that serves a slot. -/
def nodeForSlot (v : ClusterView) (slot : Nat) : Option NodeId :=
  match v.ranges[v.position slot]? with
  | some r => if r.first ≤ slot then some r.node else none
  | none => none

/-- The primaries, sorted by name. -/
def primaries (v : ClusterView) : List NodeId := v.nodes.keys.mergeSort fun a b => a ≤ b

/-- The node that owns a key. -/
def nodeOwning (v : ClusterView) (key : String) : Except StoreError NodeId :=
  let slot := keySlot key
  match v.nodeForSlot slot with
  | some node => .ok node
  | none => .error (.topology ("no node owns slot " ++ Nat.repr slot))

/-- The number of replicas of a node. -/
def replicaCount (v : ClusterView) (node : NodeId) : Except StoreError Nat :=
  match v.nodes.find? node with
  | some info => .ok info.replicas
  | none => .error (.topology ("unknown node " ++ node))

end ClusterView

end Latchkey.Redis
