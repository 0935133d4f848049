import Latchkey.Store.Deployment
import Latchkey.Error

/-!
# Store commands

What is said to a store. A *command* goes over a connection to one node and is atomic there; a
*call* is a command, a question about the topology, or the request for a connection. Each has its
own type of answer.
-/

namespace Latchkey

/-- A command to one node. -/
inductive Command where
  /-- Writes a value with a lifetime, perhaps only if the key has no value; was it written? -/
  | set (key value : String) (ttl : Nat) (onlyIfAbsent : Bool)
  /-- Deletes the key if it has the expected value; was it deleted? -/
  | compareAndDelete (key expected : String)
  /-- Gives the key a new lifetime if it has the expected value; was it given? -/
  | compareAndExpire (key expected : String) (ttl : Nat)
  /-- Does the key have a value? -/
  | present (key : String)
  /-- Is the bit set? -/
  | getBit (key : String) (offset : Nat)
  /-- Writes a bit; was it set before? -/
  | setBit (key : String) (offset : Nat) (bit : Bool)
  /-- Gives the key a new lifetime if it has a value; was it given? -/
  | expire (key : String) (ttl : Nat)
  /-- The rest of the key's lifetime; none without a value or without a lifetime. -/
  | remaining (key : String)
  /-- Waits until so many replicas have the writes of this connection, at most for the given time;
  how many have them? -/
  | awaitReplicas (count timeout : Nat)
  deriving Repr, DecidableEq

/-- What a command answers. -/
abbrev Command.Answer : Command → Type
  | .remaining _ => Option Nat
  | .awaitReplicas _ _ => Nat
  | _ => Bool

/-- The commands that a store with write latency delays. -/
def Command.isWrite : Command → Bool
  | .set .. => true
  | .setBit .. => true
  | _ => false

/-- A connection borrowed from the pool of a node. -/
structure Connection where
  /-- The number of the loan. -/
  id : Nat
  /-- The node it leads to. -/
  node : NodeId
  deriving Repr, DecidableEq

/-- A call to a store. -/
inductive StoreCall where
  /-- Which node owns the key? -/
  | nodeOwning (key : String)
  /-- How many replicas does the node have? -/
  | replicaCount (node : NodeId)
  /-- Borrows a connection to the node. -/
  | connect (node : NodeId)
  /-- Sends a command over a connection. -/
  | command (conn : Connection) (cmd : Command)
  deriving Repr, DecidableEq

/-- What a call answers if it does not fail. -/
abbrev StoreCall.Answer : StoreCall → Type
  | .nodeOwning _ => NodeId
  | .replicaCount _ => Nat
  | .connect _ => Connection
  | .command _ cmd => cmd.Answer

end Latchkey
