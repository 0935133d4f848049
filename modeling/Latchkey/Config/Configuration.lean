import Latchkey.Arguments.Invocation
import Latchkey.Config.Source
import Latchkey.Lock.Settings
import Latchkey.Net.Address
import Latchkey.Store.Settings
import Latchkey.Filter.Plan

/-!
# The configuration of the client

The settings of the client come from a file, then from environment variables, and then from the
command line, each written over what is there. A setting that is missing or cannot be taken for
what is wanted has its default.
-/

namespace Latchkey.Config

/-- The configuration of the client. -/
structure Configuration where
  /-- The tree of settings. -/
  tree : Members := []

/-- Why there is no configuration. -/
inductive ConfigError where
  /-- The configuration file gives none. -/
  | file (cause : FileError)
  /-- The path of a setting is none. -/
  | path
  deriving Repr, DecidableEq

/-- The name of the configuration file, without its ending, that is read if there is one. -/
def defaultFile : String := "conf/kvguard"

namespace Configuration

/-! ## Making one -/

/-- The configuration with a setting written over what is there. -/
def override (c : Configuration) (path : String) (v : Json) : Except ConfigError Configuration :=
  match Path.read? path with
  | some p => .ok ⟨set c.tree p v⟩
  | none => .error .path

/-- The configuration with several settings written, one after the other. -/
def overrideAll (c : Configuration) : Members → Except ConfigError Configuration
  | [] => .ok c
  | (path, v) :: rest => do (← c.override path v).overrideAll rest

/-- The settings that a command line gives. -/
def ofGlobals (g : Arguments.Globals) : Members :=
  (g.address.map fun a => ("store.address", Json.str a)).toList
    ++ (g.port.map fun p => ("store.port", Json.nat p)).toList
    ++ (if g.standalone then [("store.cluster", .bool false)] else [])
    ++ if g.memory then [("store.memory", .bool true)] else []

/-- The members of the configuration file; only one that is asked for has to be there. -/
def fileMembers (files : String → Option String) (g : Arguments.Globals) :
    Except ConfigError Members :=
  match g.config with
  | some name => (readFile files name).mapError .file
  | none =>
    match readFile files defaultFile with
    | .ok ms => .ok ms
    | .error .notFound => .ok []
    | .error e => .error (.file e)

/-- The configuration that files, environment variables and a command line give. -/
def load (files : String → Option String) (environment : List (String × String))
    (g : Arguments.Globals) : Except ConfigError Configuration := do
  let write (ms : Members) (m : String × Json) : Members := setText ms m.1 m.2
  let ms := (← fileMembers files g).foldl write []
  let ms := (environment.filterMap ofEnvironment?).foldl write ms
  overrideAll ⟨ms⟩ (ofGlobals g)

/-! ## Looking settings up -/

/-- The setting at the end of a path of names, as what it is wanted for. -/
def find {α : Type} (c : Configuration) (path : List String) (read : Json → Option α)
    (fallback : α) : α :=
  ((get? c.tree path).bind read).getD fallback

/-- A natural number of the configuration. -/
def natural (c : Configuration) (part name : String) (fallback : Nat) : Nat :=
  c.find [part, name] natural? fallback

/-- The level of the log. -/
def logLevel (c : Configuration) : String := c.find ["log", "level"] text? "info"

/-- The address at which metrics are served: none is given, or a text that has to be one. -/
def metricsAddress (c : Configuration) : Option (Option Net.SocketAddress) :=
  match c.find ["metrics", "prometheus_address"] text? "" with
  | "" => none
  | text => some (Net.SocketAddress.read? text)

/-- Whether the store is in memory. -/
def usesMemory (c : Configuration) : Bool := c.find ["store", "memory"] truth? false

/-- The settings of the store. -/
def storeSettings (c : Configuration) : StoreSettings :=
  let d : StoreSettings := {}
  let port := c.natural "store" "port" d.port
  { address := c.find ["store", "address"] text? d.address
    port := if port ≤ 65535 then port else d.port
    maxTotal := c.natural "store" "max_total" d.maxTotal
    maxIdle := c.natural "store" "max_idle" d.maxIdle
    minIdle := c.natural "store" "min_idle" d.minIdle
    poolWait := c.natural "store" "pool_wait_ms" d.poolWait
    connectTimeout := c.natural "store" "connect_timeout_ms" d.connectTimeout
    cluster := c.find ["store", "cluster"] truth? d.cluster
    preparePool := c.find ["store", "prepare_pool"] truth? d.preparePool
    topologyRefresh := c.natural "store" "topology_refresh_ms" d.topologyRefresh }

/-- The settings of lock managers. -/
def lockSettings (c : Configuration) : LockSettings :=
  let d : LockSettings := {}
  { ttl := c.natural "lock" "ttl_ms" d.ttl
    replicationWait := c.natural "lock" "replication_wait_ms" d.replicationWait
    retryBudget := c.natural "lock" "retry_budget_ms" d.retryBudget
    pollInterval := c.natural "lock" "poll_interval_ms" d.pollInterval }

/-- The rate of false positives of filters. -/
def filterErrorRate (c : Configuration) : Float :=
  c.find ["filter", "error_rate"] double? defaultErrorRate

end Configuration

end Latchkey.Config
