import Latchkey.Hash.Sha1
import Latchkey.Redis.Value
import Latchkey.Store.Command

/-!
# Redis requests

The words of the requests that are sent to a server, and how the reply to a command is read. The
two commands that depend on the present value of a key are scripts, which the server runs as one
step; a script is sent by its hash, and in full to a server that does not know it.
-/

namespace Latchkey.Redis

/-- A script. -/
inductive Script where
  /-- Deletes a key if it has the expected value. -/
  | compareAndDelete
  /-- Gives a key a new lifetime if it has the expected value. -/
  | compareAndExpire
  deriving Repr, DecidableEq

/-- The text of a script. -/
def Script.text : Script → String
  | .compareAndDelete =>
    "\nif redis.call(\"get\", KEYS[1]) == ARGV[1] then\n    return redis.call(\"del\", KEYS[1])\n"
      ++ "else\n    return 0\nend"
  | .compareAndExpire =>
    "\nif redis.call(\"get\", KEYS[1]) == ARGV[1] then\n"
      ++ "    return redis.call(\"pexpire\", KEYS[1], ARGV[2])\nelse\n    return 0\nend"

/-- The hash by which a script is sent. -/
def Script.hash (s : Script) : String := Hash.Sha1.hex (textBytes s.text)

/-- A request. -/
inductive Request where
  /-- Asks for the state of replication. -/
  | replicationInfo
  /-- Asks which nodes serve which slots. -/
  | clusterSlots
  /-- Makes a script known. -/
  | loadScript (script : Script)
  /-- Runs a script on a key. -/
  | runScript (script : Script) (key : String) (args : List String)
  /-- Writes a value with a lifetime, perhaps only if the key has none. -/
  | set (key value : String) (ttl : Nat) (onlyIfAbsent : Bool)
  /-- Asks whether a key has a value. -/
  | present (key : String)
  /-- Asks for a bit. -/
  | getBit (key : String) (offset : Nat)
  /-- Writes a bit. -/
  | setBit (key : String) (offset : Nat) (bit : Bool)
  /-- Gives a key a new lifetime. -/
  | expire (key : String) (ttl : Nat)
  /-- Asks for the rest of a key's lifetime. -/
  | remaining (key : String)
  /-- Waits for replicas; a server takes a time of zero for no limit. -/
  | awaitReplicas (count timeout : Nat)
  deriving Repr, DecidableEq

/-- The words of a request. -/
def Request.words : Request → List String
  | .replicationInfo => ["INFO", "replication"]
  | .clusterSlots => ["CLUSTER", "SLOTS"]
  | .loadScript script => ["SCRIPT", "LOAD", script.text]
  | .runScript script key args => ["EVALSHA", script.hash, "1", key] ++ args
  | .set key value ttl onlyIfAbsent =>
    ["SET", key, value, "PX", Nat.repr ttl] ++ if onlyIfAbsent then ["NX"] else []
  | .present key => ["EXISTS", key]
  | .getBit key offset => ["GETBIT", key, Nat.repr offset]
  | .setBit key offset bit => ["SETBIT", key, Nat.repr offset, if bit then "1" else "0"]
  | .expire key ttl => ["PEXPIRE", key, Nat.repr ttl]
  | .remaining key => ["PTTL", key]
  | .awaitReplicas count timeout => ["WAIT", Nat.repr count, Nat.repr timeout]

/-- The request for a command. -/
def Request.ofCommand : Command → Request
  | .set key value ttl onlyIfAbsent => .set key value ttl onlyIfAbsent
  | .compareAndDelete key expected => .runScript .compareAndDelete key [expected]
  | .compareAndExpire key expected ttl =>
    .runScript .compareAndExpire key [expected, Nat.repr ttl]
  | .present key => .present key
  | .getBit key offset => .getBit key offset
  | .setBit key offset bit => .setBit key offset bit
  | .expire key ttl => .expire key ttl
  | .remaining key => .remaining key
  | .awaitReplicas count timeout => .awaitReplicas count timeout

/-- Reads the reply to a command. -/
def readAnswer (v : Value) : (cmd : Command) → Except RedisError cmd.Answer
  | .set .. => v.toText?.map Option.isSome
  | .compareAndDelete .. => v.toInt.map fun n => decide (0 < n)
  | .compareAndExpire .. => v.toInt.map (· == 1)
  | .present _ => v.toInt.map fun n => decide (0 < n)
  | .getBit .. => v.toInt.map (· == 1)
  | .setBit .. => v.toInt.map (· == 1)
  | .expire .. => v.toInt.map (· == 1)
  | .remaining _ => v.toInt.map fun n => if 0 ≤ n then some n.toNat else none
  | .awaitReplicas .. => v.toInt.map Int.toNat

end Latchkey.Redis
