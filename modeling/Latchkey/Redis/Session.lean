import Latchkey.Redis.Store
import Latchkey.Program.Run
import Latchkey.System.Ledger

/-!
# Sessions with a Redis store

A session is an open store with a clock and a ledger. It answers the effects of one program that
runs alone, so that the requests which the program leads to are those of `Request.ofCommand`, sent
to the node that the program has connected to.
-/

namespace Latchkey.Redis

/-- A session over a network with states of type `σ`. -/
structure Session (σ : Type) extends Ledger where
  /-- The present time, in milliseconds. -/
  now : Nat
  /-- The store. -/
  store : Store
  /-- The network. -/
  net : σ
  /-- The connections lent so far. -/
  loans : Nat := 0

namespace Session

variable {σ : Type}

/-- The session with another ledger. -/
def withLedger (s : Session σ) (l : Ledger) : Session σ := { s with toLedger := l }

/-- The session after the network was used. -/
def after {α : Type} (s : Session σ) (x : Exchange σ α) : Session σ :=
  { s with net := x.net, now := s.now + x.elapsed }

/-- Sends a request, giving the reply. -/
def ask (net : Network σ) (s : Session σ) (endpoint : Endpoint) (request : Request) :
    Session σ × Except RedisError Value :=
  let x := net.ask s.net endpoint request
  (s.after x, x.reply)

/-- Runs a script, first making it known where the server says that it is not. -/
def askScript (net : Network σ) (s : Session σ) (endpoint : Endpoint) (script : Script)
    (key : String) (args : List String) : Session σ × Except RedisError Value :=
  match s.ask net endpoint (.runScript script key args) with
  | (s, .error e) =>
    if e.kind = .noScript then
      match s.ask net endpoint (.loadScript script) with
      | (s, .error e) => (s, .error e)
      | (s, .ok _) => s.ask net endpoint (.runScript script key args)
    else (s, .error e)
  | r => r

/-- Sends the request for a command. -/
def send (net : Network σ) (s : Session σ) (endpoint : Endpoint) (cmd : Command) :
    Session σ × Except RedisError Value :=
  match Request.ofCommand cmd with
  | .runScript script key args => s.askScript net endpoint script key args
  | request => s.ask net endpoint request

/-- Connects to a node. -/
def connect (net : Network σ) (s : Session σ) (node : NodeId) :
    Session σ × Except StoreError Connection :=
  let r := s.store.connect node
  let s := { s with store := r.1 }
  match r.2 with
  | .error e => (s, .error e)
  | .ok endpoint =>
    let x := net.connect s.net endpoint
    let s := s.after x
    match x.reply with
    | .error e => (s, .error (.pool (.backend e)))
    | .ok () => ({ s with loans := s.loans + 1 }, .ok ⟨s.loans, node⟩)

/-- Sends a command over a connection and reads the reply. -/
def command (net : Network σ) (s : Session σ) (conn : Connection) (cmd : Command) :
    Session σ × Except StoreError cmd.Answer :=
  match s.store.endpoint? conn.node with
  | none => (s, .error (.topology ("unknown node " ++ conn.node)))
  | some endpoint =>
    let r := s.send net endpoint cmd
    (r.1, (r.2.bind fun v => readAnswer v cmd).mapError .redis)

/-- Answers a call. -/
def call (net : Network σ) (s : Session σ) :
    (c : StoreCall) → Session σ × Except StoreError c.Answer
  | .nodeOwning key => (s, s.store.nodeOwning key)
  | .replicaCount node => (s, s.store.replicaCount node)
  | .connect node => s.connect net node
  | .command conn cmd => s.command net conn cmd

/-- Answers an effect. -/
def perform (net : Network σ) (s : Session σ) : (e : Effect) → Session σ × e.Reply
  | .clock => (s, s.now)
  | .sleep ms => ({ s with now := s.now + ms }, ())
  | .closing => (s, s.store.closing)
  | .deployment => (s, s.store.deployment)
  | .call c => s.call net c
  | .release _ => (s, ())
  | .registry manager a =>
    let r := s.toLedger.access manager a
    (s.withLedger r.1, r.2)
  | .mint =>
    let r := s.toLedger.mint
    (s.withLedger r.1, r.2)
  | .arm _ => (s, ())
  | .disarm => (s, ())
  | .count measure => (s.withLedger (s.toLedger.count measure), ())

end Session

end Latchkey.Redis
