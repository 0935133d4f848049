import Latchkey.Client.Command
import Latchkey.Redis.Session
import Latchkey.System.World

/-!
# Sessions of the client

A command is run on a store of its own in memory, or on the Redis store that the configuration
describes. While a program that was launched runs, the clock of the session stands still.
-/

namespace Latchkey.Client

/-- The surroundings of a session, with a network whose states are of type `σ`. -/
structure Surroundings (σ : Type) where
  /-- What comes of launching programs. -/
  launcher : Launcher
  /-- The network. -/
  network : Redis.Network σ
  /-- The serial number of the first token. -/
  firstToken : Nat
  /-- The context for which locks are held. -/
  context : Context

/-- How a command ended. -/
structure Conclusion (σ : Type) where
  /-- The network. -/
  net : σ
  /-- The time, in milliseconds. -/
  time : Nat
  /-- The events counted, in order. -/
  measures : List Measure
  /-- What is to see on the terminal. -/
  screen : Screen
  /-- The exit code, or why there is none. -/
  result : Except ClientError Nat

variable {σ ω : Type}

/-- Runs a command with whatever answers its effects. -/
def runJob (s : Surroundings σ) (perform : ω → (e : Effect) → ω × e.Reply) (w : ω) (j : Job Nat) :
    ω × Screen × Except ClientError Nat :=
  Program.run perform
    (fun w screen op =>
      let r := screen.handle s.launcher op
      (w, r.1, r.2))
    w {} j.run

/-- The world of a command that is run on a store in memory. -/
def memoryWorld (firstToken : Nat) : World := .ofStore .standalone firstToken

/-- Runs a command on a store in memory. -/
def runInMemory (s : Surroundings σ) (n : σ) (j : Job Nat) : Conclusion σ :=
  let (w, screen, result) := runJob s World.perform (memoryWorld s.firstToken) j
  ⟨n, w.now, w.measures.reverse, screen, result⟩

/-- Runs a command on a Redis store. -/
def runOnRedis (s : Surroundings σ) (n : σ) (settings : StoreSettings) (j : Job Nat) :
    Conclusion σ :=
  let opening := Redis.openStore s.network n settings
  match opening.store with
  | .error e => ⟨opening.net, opening.elapsed, [], {}, .error (.unopened settings.url e)⟩
  | .ok store =>
    let session : Redis.Session σ :=
      { nextToken := s.firstToken, now := opening.elapsed, store := store, net := opening.net }
    let (w, screen, result) := runJob s (Redis.Session.perform s.network) session j
    ⟨w.net, w.now, w.measures.reverse, screen, result⟩

/-- Runs the command that is asked for. -/
def conclude (s : Surroundings σ) (n : σ) (c : Config.Configuration) (request : Arguments.Request) :
    Conclusion σ :=
  let j := job c s.context request
  if c.usesMemory then runInMemory s n j else runOnRedis s n c.storeSettings j

end Latchkey.Client
