import Latchkey.Text.Duration
import Latchkey.Decimal.Layout
import Latchkey.Error.Code

/-!
# What can go wrong

A *store error* says what the store met; a *failure* says what the caller of a lock or a filter is
told. Failures are of three kinds: wrong use, found before the store is touched; a lock held by
someone else, where the caller asked for that to be a failure; and trouble with the store, which
keeps its cause. Each error is a cause with a text, and each kind of failure has a code for reports.
-/

namespace Latchkey

/-! ## Errors of a store -/

/-- The kind of an error of the Redis protocol. -/
inductive RedisErrorKind where
  /-- A reply of the wrong type. -/
  | typeMismatch
  /-- The connection was refused or closed. -/
  | io
  /-- A server error with the code `ERR`. -/
  | response
  /-- The script is not known to the server. -/
  | noScript
  /-- The slot is served by another node. -/
  | moved
  /-- The slot is being moved to another node. -/
  | ask
  /-- A write was sent to a read-only replica. -/
  | readOnly
  /-- The server is still loading its data. -/
  | loading
  /-- The request may succeed later. -/
  | tryAgain
  /-- The cluster does not serve requests. -/
  | clusterDown
  /-- The keys of one request belong to different slots. -/
  | crossSlot
  /-- The primary of a replica is down. -/
  | masterDown
  /-- A transaction was given up. -/
  | execAbort
  /-- A script was to be stopped, but none is running. -/
  | notBusy
  /-- A server error with a code of its own. -/
  | serverExtension
  /-- The configuration of the client is not usable. -/
  | invalidClientConfig
  deriving Repr, DecidableEq

/-- The name under which an error kind is reported. -/
def RedisErrorKind.name : RedisErrorKind → String
  | .typeMismatch => "TypeError"
  | .io => "IoError"
  | .response => "ResponseError"
  | .noScript => "NoScriptError"
  | .moved => "Moved"
  | .ask => "Ask"
  | .readOnly => "ReadOnly"
  | .loading => "BusyLoadingError"
  | .tryAgain => "TryAgain"
  | .clusterDown => "ClusterDown"
  | .crossSlot => "CrossSlot"
  | .masterDown => "MasterDown"
  | .execAbort => "ExecAbortError"
  | .notBusy => "NotBusy"
  | .serverExtension => "ExtensionError"
  | .invalidClientConfig => "InvalidClientConfig"

/-- An error of the Redis protocol. -/
structure RedisError where
  /-- What kind of error it is. -/
  kind : RedisErrorKind
  /-- The code the server gave, if the error came from the server. -/
  code : Option String
  /-- The text shown for it. -/
  text : String
  deriving Repr, DecidableEq

/-- An error of a connection pool. -/
inductive PoolError where
  /-- No place in the pool became free in time. -/
  | waitTimeout
  /-- A new connection was not made in time. -/
  | createTimeout
  /-- An idle connection was not checked in time. -/
  | recycleTimeout
  /-- The pool is closed. -/
  | closed
  /-- Timeouts were asked for where nothing can measure time. -/
  | noRuntime
  /-- Connecting failed. -/
  | backend (cause : RedisError)
  deriving Repr, DecidableEq

/-- The text of a pool error. -/
def PoolError.message : PoolError → String
  | .waitTimeout => "Timeout occurred while waiting for a slot to become available"
  | .createTimeout => "Timeout occurred while creating a new object"
  | .recycleTimeout => "Timeout occurred while recycling an object"
  | .closed => "Pool has been closed"
  | .noRuntime => "No runtime specified"
  | .backend cause => "Error occurred while creating a new object: " ++ cause.text

/-- Why a connection pool could not be set up. -/
inductive PoolSetupError where
  /-- The address is not one that can be connected to. -/
  | config (cause : RedisError)
  /-- Timeouts were asked for where nothing can measure time. -/
  | build
  deriving Repr, DecidableEq

/-- The text of a set-up error. -/
def PoolSetupError.message : PoolSetupError → String
  | .config cause => "Config: Redis: " ++ cause.text
  | .build => "Build: Error occurred while building the pool: Timeouts require a runtime"

/-- An error of a store operation. -/
inductive StoreError where
  /-- A command failed. -/
  | redis (cause : RedisError)
  /-- The connection pool gave no connection. -/
  | pool (cause : PoolError)
  /-- The connection pool could not be set up. -/
  | createPool (cause : PoolSetupError)
  /-- No pooled connection became free within so many nanoseconds. -/
  | poolTimeout (nanos : Nat)
  /-- The node or its replication link is down. -/
  | unavailable (detail : String)
  /-- The node or slot is unknown. -/
  | topology (detail : String)
  /-- The store is closing. -/
  | closed
  deriving Repr, DecidableEq

/-- The text of a store error. -/
def StoreError.message : StoreError → String
  | .redis cause => "redis error: " ++ cause.text
  | .pool cause => "connection pool error: " ++ cause.message
  | .createPool cause => "failed to create connection pool: " ++ cause.message
  | .poolTimeout nanos =>
    "timed out after " ++ Text.duration nanos ++ " waiting for a pooled connection"
  | .unavailable detail => "store unavailable: " ++ detail
  | .topology detail => "topology error: " ++ detail
  | .closed => "store is closing"

/-- The texts of the causes below a store error, the outermost first. -/
def StoreError.causes : StoreError → List String
  | .redis cause => [cause.text]
  | .pool (.backend cause) => [(PoolError.backend cause).message, cause.text]
  | .pool cause => [cause.message]
  | .createPool cause => [cause.message]
  | _ => []

/-- What the caller was doing when a store error came up. -/
def StoreError.context : StoreError → String
  | .pool _ | .createPool _ | .poolTimeout _ => "failed to obtain store connection"
  | .topology _ => "failed to resolve store topology"
  | .closed => "store is closing"
  | .redis _ | .unavailable _ => "store command failed"

/-! ## Failures of locks and filters -/

/-- The longest retry budget, in milliseconds. -/
def maxRetryBudget : Nat := 300000

/-- The largest bit array of a filter. -/
def maxBitArraySize : Nat := 4294967294

/-- A wrong use of a lock or a filter. -/
inductive Misuse where
  /-- The retry budget is above the ceiling. -/
  | retryBudget (budget : Nat)
  /-- A filter has no name. -/
  | filterName
  /-- The error rate is outside of `(0, 1]`. -/
  | errorRate (rate : Float)
  /-- The expected load and the error rate leave no bits. -/
  | noBits (expected : Nat) (rate : Float)
  /-- The bit array would be too large. -/
  | tooManyBits (bits : Float)
  /-- Any other wrong use, in words. -/
  | other (detail : String)
  deriving Repr

/-- The text of a wrong use. -/
def Misuse.message : Misuse → String
  | .retryBudget budget =>
    "retry time " ++ Nat.repr budget ++ "ms exceeds the maximum of " ++ Nat.repr maxRetryBudget
      ++ "ms"
  | .filterName => "filter name must not be empty"
  | .errorRate rate => "error rate must be within (0, 1], got " ++ Decimal.text rate .plain
  | .noBits expected rate =>
    "bit array size is zero for " ++ Nat.repr expected ++ " expected insertions at error rate "
      ++ Decimal.text rate .plain
  | .tooManyBits bits =>
    "bit array size " ++ Decimal.text bits .plain ++ " exceeds the maximum of "
      ++ Nat.repr maxBitArraySize
  | .other detail => detail

/-- What lies behind trouble with the store. -/
inductive Cause where
  /-- An error of the store. -/
  | store (error : StoreError)
  /-- Any other cause, in words. -/
  | words (detail : String)
  deriving Repr, DecidableEq

/-- The texts of a cause and of the causes below it, the outermost first. -/
def Cause.chain : Cause → List String
  | .store error => error.message :: error.causes
  | .words detail => [detail]

/-- A failed lock or filter operation. -/
inductive Failure where
  /-- Wrong use, found before the store is touched. -/
  | configuration (misuse : Misuse)
  /-- The lock is held by another owner. -/
  | contention (lock : String)
  /-- Trouble with the store. -/
  | infrastructure (context : String) (cause : Cause)
  deriving Repr

/-- The failure a store error leads to. -/
def Failure.ofStore (error : StoreError) : Failure :=
  .infrastructure error.context (.store error)

/-- The text of a failure. -/
def Failure.message : Failure → String
  | .configuration misuse => "configuration error: " ++ misuse.message
  | .contention lock => "lock '" ++ lock ++ "' is already held by another owner"
  | .infrastructure context _ => "infrastructure error: " ++ context

/-- The texts of the causes below a failure, the outermost first. -/
def Failure.chain : Failure → List String
  | .infrastructure _ cause => cause.chain
  | _ => []

/-! ## Codes -/

/-- The code a failure is reported under. -/
def Failure.code : Failure → ErrorCode
  | .configuration _ => .parameter
  | .contention _ => .contended
  | .infrastructure _ _ => .unavailable

end Latchkey
