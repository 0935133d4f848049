import Latchkey.Net.Url
import Latchkey.Decimal.Layout
import Latchkey.Error

/-!
# Endpoints

Where a Redis server is reached, as a locator says it: over the network, or through a socket of the
same machine. A locator is refused if it is none, if its scheme is another one, if it has no host,
if the database is no number, if the credentials are no text, if it names a version of the protocol
that there is not, or if it asks for an encrypted connection, which is not provided.
-/

namespace Latchkey.Redis

/-- How a server is reached. -/
inductive Route where
  /-- Over the network. -/
  | network (host : String) (port : Nat)
  /-- Through a socket of the same machine. -/
  | socket (path : String)
  deriving Repr, DecidableEq

/-- Where a server is reached. -/
structure Endpoint where
  /-- How it is reached. -/
  route : Route
  /-- The number of the database. -/
  database : Int
  deriving Repr, DecidableEq

/-- The port of a server when none is given. -/
def defaultPort : Nat := 6379

namespace Endpoint

/-- The error of a locator that cannot be used. -/
def refused (reason : String) : RedisError :=
  ⟨.invalidClientConfig, none, reason ++ "- InvalidClientConfig"⟩

/-- Reads the number of a database. -/
def database? (text : String) : Option Int :=
  (Decimal.signedInteger? text.toList).filter fun n =>
    -9223372036854775808 ≤ n && n ≤ 9223372036854775807

/-- The text of the path without the slashes around it. -/
def pathText (parts : List String) : String :=
  let trimmed := (parts.dropWhile (·.isEmpty)).reverse.dropWhile (·.isEmpty)
  String.intercalate "/" trimmed.reverse

/-- Whether a query asks for a version of the protocol that there is. -/
def protocolKnown (pairs : List (String × String)) : Bool :=
  (pairs.reverse.lookup "protocol").all fun p => ["2", "resp2", "3", "resp3"].contains p

/-- The endpoint that a locator with a network scheme stands for. -/
def ofNetworkUrl (u : Net.Url) : Except RedisError Endpoint :=
  match u.host with
  | none => .error (refused "Missing hostname")
  | some host =>
    let path := pathText u.path
    match if path.isEmpty then some 0 else database? path with
    | none => .error (refused "Invalid database number")
    | some database =>
      if (Net.Url.unescaped? u.user).isNone then
        .error (refused "Username is not valid UTF-8 string")
      else if (Net.Url.unescaped? u.password).isNone then
        .error (refused "Password is not valid UTF-8 string")
      else if !protocolKnown (Net.Url.queryPairs u.query) then
        .error (refused "Invalid protocol version")
      else .ok ⟨.network host (u.port.getD defaultPort), database⟩

/-- The endpoint that a locator with a socket scheme stands for. -/
def ofSocketUrl (u : Net.Url) : Except RedisError Endpoint :=
  let pairs := Net.Url.queryPairs u.query
  if u.path.isEmpty || u.host.any (· != "localhost") then .error (refused "Missing path")
  else
    match (pairs.reverse.lookup "db").map database? with
    | some none => .error (refused "Invalid database number")
    | database =>
      if !protocolKnown pairs then .error (refused "Invalid protocol version")
      else .ok ⟨.socket ("/" ++ String.intercalate "/" u.path), (database.bind id).getD 0⟩

/-- The endpoint that a locator stands for. -/
def ofUrl (url : String) : Except RedisError Endpoint :=
  match Net.Url.read? url with
  | none => .error (refused "Redis URL did not parse")
  | some u =>
    match u.scheme with
    | "redis" => ofNetworkUrl u
    | "rediss" =>
      .error (refused "can't connect with TLS, the feature is not enabled")
    | "unix" => ofSocketUrl u
    | "redis+unix" => ofSocketUrl u
    | _ => .error (refused "Redis URL did not parse")

end Endpoint

end Latchkey.Redis
