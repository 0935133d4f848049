import Latchkey.Json.Record

/-!
# Deployments and nodes

A store is one node, one primary with replicas, or sharded over several primaries.
-/

namespace Latchkey

/-- How a store is deployed. -/
inductive Deployment where
  /-- One node without replicas. -/
  | standalone
  /-- One primary with replicas. -/
  | primaryReplica
  /-- Keys divided over several primaries, each with replicas. -/
  | sharded
  deriving Repr, DecidableEq

namespace Deployment

/-- Whether keys are divided over several primaries. -/
def isSharded (d : Deployment) : Bool := d == .sharded

/-- The name shown to people. -/
def display : Deployment → String
  | .standalone => "standalone"
  | .primaryReplica => "primary-replica"
  | .sharded => "sharded"

/-- The name in records. -/
def tag : Deployment → String
  | .standalone => "standalone"
  | .primaryReplica => "primary_replica"
  | .sharded => "sharded"

/-- The deployment with the given name in records. -/
def ofTag? (s : String) : Option Deployment :=
  [standalone, primaryReplica, sharded].find? fun d => d.tag == s

/-- Reads a deployment: its name, or an object that gives the name a null. -/
def read? : Json.Raw → Option Deployment
  | .quoted written => (Json.text? written).bind ofTag?
  | .object [(written, .null)] => (Json.text? written).bind ofTag?
  | _ => none

end Deployment

/-- The identifier of a node. -/
abbrev NodeId := String

/-- A store with a single primary: every key belongs to it. -/
structure SingleNode where
  /-- The primary. -/
  node : NodeId
  /-- The number of its replicas. -/
  replicas : Nat
  deriving Repr, DecidableEq

/-- The node that owns a key. -/
def SingleNode.nodeOwning (s : SingleNode) (_key : String) : NodeId := s.node

/-- The number of replicas of a node, whichever it is. -/
def SingleNode.replicaCount (s : SingleNode) (_node : NodeId) : Nat := s.replicas

end Latchkey
