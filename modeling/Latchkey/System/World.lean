import Latchkey.Program.Run
import Latchkey.Store.Memory
import Latchkey.System.Ledger

/-!
# The world of lock and filter operations

A world has a clock, a store in memory and a ledger. It answers effects. Some effects wait before
they are answered: for a time to come, or for a connection to be set aside; `wait?` says so and
`answer` gives the answer once that is over. Time itself never passes here: whoever runs programs
moves the clock.
-/

namespace Latchkey

/-- The world. -/
structure World extends Ledger where
  /-- The present time, in milliseconds. -/
  now : Nat
  /-- The store. -/
  store : Memory

/-- What an effect waits for. -/
inductive Wait where
  /-- A time. -/
  | timer (wake : Nat)
  /-- A connection, at most until a time. -/
  | permit (ticket : Ticket) (deadline : Nat)
  deriving Repr, DecidableEq

/-- The latest time at which a wait is over. -/
def Wait.latest : Wait → Nat
  | .timer wake => wake
  | .permit _ deadline => deadline

namespace World

/-- The world at time zero around a store, with tokens numbered from `firstToken`. -/
def ofStore (store : Memory) (firstToken : Nat) : World where
  nextToken := firstToken
  now := 0
  store := store

/-- The world with another ledger. -/
def withLedger (w : World) (l : Ledger) : World := { w with toLedger := l }

/-- Whether a wait is over. -/
def isOver (w : World) : Wait → Bool
  | .timer wake => decide (wake ≤ w.now)
  | .permit ticket deadline => w.store.pool.isGranted ticket || decide (deadline ≤ w.now)

/-- What a command that is just begun waits for. -/
def commandWait? (w : World) (cmd : Command) : Option Wait :=
  if cmd.isWrite then
    if 0 < w.store.latency then some (.timer (w.now + w.store.latency)) else none
  else match cmd with
    | .awaitReplicas _ timeout =>
      if w.store.stalled && !w.store.failing && decide (0 < timeout) then
        some (.timer (w.now + timeout))
      else none
    | _ => none

/-- What an effect that is just begun waits for, if it does, and the world in which it waits. -/
def wait? (w : World) : Effect → Option (World × Wait)
  | .sleep ms => if 0 < ms then some (w, .timer (w.now + ms)) else none
  | .call (.connect node) =>
    if (w.store.refusal? node).isNone && w.store.pool.free == 0
        && decide (0 < w.store.poolWait) then
      let (pool, ticket) := w.store.pool.enqueue
      some ({ w with store := { w.store with pool := pool } },
        .permit ticket (w.now + w.store.poolWait))
    else none
  | .call (.command _ cmd) => (w.commandWait? cmd).map fun wait => (w, wait)
  | _ => none

/-- The world with another pool and a connection lent from it. -/
def lend (w : World) (pool : Pool) (node : NodeId) : World × Connection :=
  let r := { w.store with pool := pool }.lend node
  ({ w with store := r.1 }, r.2)

/-- The answer to a borrower that has waited, or did not have to. -/
def connect (w : World) (node : NodeId) (waited : Option Wait) :
    World × Except StoreError Connection :=
  match waited with
  | some (.permit ticket _) =>
    if w.store.pool.isGranted ticket then
      let r := w.lend (w.store.pool.claim ticket) node
      (r.1, .ok r.2)
    else
      ({ w with store := { w.store with pool := w.store.pool.withdraw ticket } },
        .error w.store.poolTimeout)
  | _ =>
    match w.store.refusal? node with
    | some e => (w, .error e)
    | none =>
      match w.store.pool.take? with
      | some pool =>
        let r := w.lend pool node
        (r.1, .ok r.2)
      | none => (w, .error w.store.poolTimeout)

/-- The answer to a command that has waited, or did not have to. -/
def command (w : World) (conn : Connection) (waited : Option Wait) :
    (cmd : Command) → World × Except StoreError cmd.Answer
  | .awaitReplicas count _ =>
    if waited.isSome then (w, .ok 0)
    else if w.store.failing then (w, .error (Memory.lostLink conn.node))
    else if w.store.stalled then (w, .ok 0)
    else (w, .ok count)
  | cmd =>
    let r := w.store.execute w.now cmd
    ({ w with store := r.1 }, .ok r.2)

/-- The answer to a call that has waited, or did not have to. -/
def call (w : World) (waited : Option Wait) : (c : StoreCall) → World × Except StoreError c.Answer
  | .nodeOwning key => (w, .ok (w.store.nodeOwning key))
  | .replicaCount node => (w, w.store.replicaCount node)
  | .connect node => w.connect node waited
  | .command conn cmd => w.command conn waited cmd

/-- The world after a connection is given back. -/
def giveBack (w : World) : World :=
  { w with store := { w.store with pool := w.store.pool.putBack } }

/-- The answer to an effect that has waited, or did not have to. -/
def answer (w : World) (waited : Option Wait) : (e : Effect) → World × e.Reply
  | .clock => (w, w.now)
  | .sleep _ => (w, ())
  | .closing => (w, w.store.closing)
  | .deployment => (w, w.store.deployment)
  | .call c => w.call waited c
  | .release _ => (w.giveBack, ())
  | .registry manager a =>
    let r := w.toLedger.access manager a
    (w.withLedger r.1, r.2)
  | .mint =>
    let r := w.toLedger.mint
    (w.withLedger r.1, r.2)
  | .arm _ => (w, ())
  | .disarm => (w, ())
  | .count measure => (w.withLedger (w.toLedger.count measure), ())

/-- The world after a waiting effect is given up: a borrower leaves the queue, or passes on what is
set aside for it. -/
def abandonWait (w : World) : Wait → World
  | .timer _ => w
  | .permit ticket _ =>
    { w with store := { w.store with pool := w.store.pool.withdraw ticket } }

/-- The world at a later time. -/
def atTime (w : World) (t : Nat) : World := { w with now := max w.now t }

/-! ## One program alone -/

/-- Answers an effect while nothing else goes on: a wait lasts as long as it can. -/
def perform (w : World) (e : Effect) : World × e.Reply :=
  match w.wait? e with
  | none => w.answer none e
  | some (w', wait) => (w'.atTime wait.latest).answer (some wait) e

end World

end Latchkey
