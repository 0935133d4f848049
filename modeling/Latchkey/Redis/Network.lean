import Latchkey.Redis.Request
import Latchkey.Redis.Endpoint

/-!
# Networks

What lies between a store and the servers: it gives connections to endpoints and carries requests
and replies, and both may take time and fail. A network has a state of its own, so it may be one
that answers by a list of replies, one that never answers, or any other.
-/

namespace Latchkey.Redis

/-- What comes of using a network. -/
structure Exchange (σ α : Type) where
  /-- The network afterwards. -/
  net : σ
  /-- The time it took, in milliseconds. -/
  elapsed : Nat
  /-- The reply. -/
  reply : Except RedisError α

/-- A network with states of type `σ`. -/
structure Network (σ : Type) where
  /-- Connects to an endpoint, or finds a connection that is open and idle. -/
  connect : σ → Endpoint → Exchange σ Unit
  /-- Sends a request over a connection and waits for the reply. -/
  ask : σ → Endpoint → Request → Exchange σ Value

/-- The error of a connection that is refused. -/
def connectionRefused : RedisError := ⟨.io, none, "Connection refused (os error 111)"⟩

/-- The network on which every connection is refused. -/
def Network.unreachable : Network Unit where
  connect _ _ := ⟨(), 0, .error connectionRefused⟩
  ask _ _ _ := ⟨(), 0, .error connectionRefused⟩

/-- The codes of server errors that have a kind of their own. -/
def serverErrorKinds : List (String × RedisErrorKind) :=
  [("ERR", .response), ("EXECABORT", .execAbort), ("LOADING", .loading), ("NOSCRIPT", .noScript),
    ("MOVED", .moved), ("ASK", .ask), ("TRYAGAIN", .tryAgain), ("CLUSTERDOWN", .clusterDown),
    ("CROSSSLOT", .crossSlot), ("MASTERDOWN", .masterDown), ("READONLY", .readOnly),
    ("NOTBUSY", .notBusy)]

/-- The error that a server signals by a line: its first word is the code. -/
def serverError (line : String) : RedisError :=
  let code := String.ofList (line.toList.takeWhile (· != ' '))
  let detail := String.ofList ((line.toList.dropWhile (· != ' ')).drop 1)
  match serverErrorKinds.lookup code with
  | some kind =>
    ⟨kind, some code, "An error was signalled by the server - " ++ kind.name ++ ": " ++ detail⟩
  | none => ⟨.serverExtension, some code, code ++ ": " ++ detail⟩

/-- A server that answers by a list of replies and notes what it is sent. -/
structure Scripted where
  /-- The replies left. -/
  replies : List (Except RedisError Value)
  /-- What was sent, the last request first. -/
  sent : List (Endpoint × Request) := []

/-- The error of a server that has no replies left. -/
def noReplyLeft : RedisError := serverError "ERR no reply left"

/-- The network of a server that answers by a list of replies, at once. -/
def Network.scripted : Network Scripted where
  connect s _ := ⟨s, 0, .ok ()⟩
  ask s endpoint request :=
    let sent := (endpoint, request) :: s.sent
    match s.replies with
    | [] => ⟨{ s with sent := sent }, 0, .error noReplyLeft⟩
    | r :: rest => ⟨⟨rest, sent⟩, 0, r⟩

end Latchkey.Redis
