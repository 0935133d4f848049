import Latchkey.Json.Record

/-!
# Settings of a store

Where a Redis store is reached, and the sizes and times of its connection pools. All times are in
milliseconds.
-/

namespace Latchkey

/-- How to reach a Redis store. -/
structure StoreSettings where
  /-- A host name, an address, or a URL with a scheme; a seed node when sharded. -/
  address : String := "127.0.0.1"
  /-- The port, where the address does not say it. -/
  port : Nat := 6379
  /-- The most connections pooled per node. -/
  maxTotal : Nat := 20
  /-- The most connections kept idle; a pool keeps up to `maxTotal` all the same. -/
  maxIdle : Nat := 20
  /-- The connections opened in advance when `preparePool` is set. -/
  minIdle : Nat := 10
  /-- How long a caller waits for a free connection. -/
  poolWait : Nat := 300
  /-- How long making a new connection may take. -/
  connectTimeout : Nat := 2000
  /-- The store is sharded. -/
  cluster : Bool := true
  /-- Connections are opened when the store is. -/
  preparePool : Bool := false
  /-- The period of reading the topology of a sharded store anew. -/
  topologyRefresh : Nat := 5000
  deriving Repr, DecidableEq

namespace StoreSettings

/-- The URL of a node. -/
def nodeUrl (host : String) (port : Nat) : String :=
  "redis://" ++ host ++ ":" ++ Nat.repr port

/-- Whether a list of characters has another one as an interval. -/
def hasInfix (part : List Char) : List Char → Bool
  | [] => part.isEmpty
  | c :: rest => part.isPrefixOf (c :: rest) || hasInfix part rest

/-- The URL of the store: the address itself if it has a scheme. -/
def url (s : StoreSettings) : String :=
  if hasInfix "://".toList s.address.toList then s.address else nodeUrl s.address s.port

/-- The names of the fields in records. -/
def fieldNames : List String :=
  ["address", "port", "max_total", "max_idle", "min_idle", "pool_wait_ms", "connect_timeout_ms",
    "cluster", "prepare_pool", "topology_refresh_ms"]

/-- The record of the settings. -/
def toJson (s : StoreSettings) : Json :=
  .obj
    [("address", .str s.address), ("port", .nat s.port), ("max_total", .nat s.maxTotal),
      ("max_idle", .nat s.maxIdle), ("min_idle", .nat s.minIdle), ("pool_wait_ms", .nat s.poolWait),
      ("connect_timeout_ms", .nat s.connectTimeout), ("cluster", .bool s.cluster),
      ("prepare_pool", .bool s.preparePool), ("topology_refresh_ms", .nat s.topologyRefresh)]

/-- Reads the settings; every field must be there. -/
def read? (r : Json.Raw) : Option StoreSettings := do
  let fs ← Json.fields? fieldNames r
  let word := Json.readNat Json.maxWord
  return {
    address := ← fs.required "address" Json.readText
    port := ← fs.required "port" (Json.readNat 65535)
    maxTotal := ← fs.required "max_total" word
    maxIdle := ← fs.required "max_idle" word
    minIdle := ← fs.required "min_idle" word
    poolWait := ← fs.required "pool_wait_ms" word
    connectTimeout := ← fs.required "connect_timeout_ms" word
    cluster := ← fs.required "cluster" Json.readBool
    preparePool := ← fs.required "prepare_pool" Json.readBool
    topologyRefresh := ← fs.required "topology_refresh_ms" word }

end StoreSettings

end Latchkey
