import Latchkey.Scenario.Script
import Latchkey.System.Task

/-!
# The test bench

A bench runs the scripts of steps on a world of its own, with virtual time. Scripts that run side by
side are *fibers* on one thread: each runs until it waits, in a fixed order in which the scripts
started by a fiber come before it and the deletion of keys of dropped sections comes last. When all
fibers wait, time jumps to the earliest moment at which one of them can go on.

The bench notes the calls made to the store and lets those fail that are to fail; it counts what is
measured, and it reports all this after each step.
-/

namespace Latchkey.Scenario

/-- A script on its way. -/
structure Fiber (ν : Type) where
  /-- Its number. -/
  id : Nat
  /-- What is left of it. -/
  task : Task (bench ν) Unit
  /-- The fibers it waits for, and the time until which it does. -/
  joining : Option (List Nat × Option Nat) := none

/-- A task that purges the store periodically. -/
structure Ticker where
  /-- The time of its next tick. -/
  next : Nat
  /-- The time between two ticks. -/
  period : Nat
  deriving Repr, DecidableEq

/-- A test bench. -/
structure Bench (ν : Type) where
  /-- The world. -/
  world : World
  /-- The settings of all managers. -/
  settings : LockSettings
  /-- The fibers, in the order in which they run. -/
  fibers : List (Fiber ν) := []
  /-- The number of the next fiber. -/
  nextFiber : Nat := 0
  /-- The journals, each with the last note first. -/
  journals : Table Nat (List (Result ν × Nat)) := ∅
  /-- The number of the next journal. -/
  nextJournal : Nat := 0
  /-- The filters kept. -/
  filters : Table String FilterPlan := ∅
  /-- The connections kept. -/
  connections : Table String Connection := ∅
  /-- The faults of the store. -/
  faults : Table Method Fault := ∅
  /-- The calls made to the store since the last report, the last one first. -/
  calls : List StoreCall := []
  /-- The locks used. -/
  locks : List String := []
  /-- The tasks that purge the store. -/
  tickers : List Ticker := []

/-- What a fiber's step leads to: the bench, and the fibers to be run next and after all others. -/
structure Turn (ν : Type) where
  /-- The bench. -/
  bench : Bench ν
  /-- The fibers to be run next. -/
  front : List Nat := []
  /-- The fibers to be run after all others. -/
  back : List Nat := []

namespace Bench

variable {ν : Type}

/-! ## Fibers -/

/-- The fiber of a number. -/
def fiber? (b : Bench ν) (id : Nat) : Option (Fiber ν) := b.fibers.find? fun f => f.id == id

/-- Whether a fiber is on its way. -/
def has (b : Bench ν) (id : Nat) : Bool := (b.fiber? id).isSome

/-- The bench with a fiber replaced. -/
def setFiber (b : Bench ν) (f : Fiber ν) : Bench ν :=
  { b with fibers := b.fibers.map fun g => if g.id == f.id then f else g }

/-- The bench without a fiber. -/
def removeFiber (b : Bench ν) (id : Nat) : Bench ν :=
  { b with fibers := b.fibers.filter fun f => f.id != id }

/-- Whether a fiber can go on. -/
def isReady (b : Bench ν) (f : Fiber ν) : Bool :=
  match f.joining with
  | some (children, limit) =>
    children.all (fun c => !b.has c) || limit.any fun t => decide (t ≤ b.world.now)
  | none => f.task.wait.all b.world.isOver

/-- The time at which a fiber can go on at the latest. -/
def latest? (f : Fiber ν) : Option Nat :=
  match f.joining with
  | some (_, limit) => limit
  | none => f.task.wait.map Wait.latest

/-- The script that deletes the key of a dropped section. -/
def deletion (a : Abandoned) : Script ν Unit := do
  let _ ← (Manager.releaseAbandoned (X := bench ν) a.lock a.token).run
  return ()

/-- Starts the deletion of the keys of dropped sections, giving the numbers of the fibers. -/
def startDeletions (b : Bench ν) : List Abandoned → Bench ν × List Nat
  | [] => (b, [])
  | a :: rest =>
    let f : Fiber ν := { id := b.nextFiber, task := { program := deletion a } }
    let r := startDeletions
      { b with fibers := b.fibers ++ [f], nextFiber := b.nextFiber + 1 } rest
    (r.1, f.id :: r.2)

/-- Drops fibers and all that they wait for, those first, to a given depth. -/
def dropFibers (b : Bench ν) : (depth : Nat) → List Nat → Bench ν × List Abandoned
  | 0, _ => (b, [])
  | depth + 1, ids =>
    ids.foldl
      (fun (acc : Bench ν × List Abandoned) id =>
        match acc.1.fiber? id with
        | none => acc
        | some f =>
          let inner := match f.joining with
            | some (children, _) => dropFibers acc.1 depth children
            | none => (acc.1, [])
          let dropped := f.task.drop inner.1.world
          (({ inner.1 with world := dropped.1 } : Bench ν).removeFiber id,
            acc.2 ++ inner.2 ++ dropped.2))
      (b, [])

/-- Starts scripts, which run before the fiber that starts them. -/
def startChildren (b : Bench ν) (parent : Nat) (children : List (Child ν)) : Bench ν × List Nat :=
  let started : List (Fiber ν) := children.zipIdx.map fun c =>
    { id := b.nextFiber + c.2, task := { program := c.1.script } }
  let (before, after) := b.fibers.span fun f => f.id != parent
  ({ b with fibers := before ++ started ++ after, nextFiber := b.nextFiber + started.length },
    started.map (·.id))

/-! ## Operations -/

/-- Accesses the store directly. -/
def accessStore (b : Bench ν) : (a : StoreAccess) → Bench ν × a.Answer
  | .count => (b, b.world.store.keyspace.count b.world.now)
  | .contains key => (b, b.world.store.keyspace.present b.world.now key)
  | .purge =>
    let r := b.world.store.purge b.world.now
    ({ b with world := { b.world with store := r.1 } }, r.2)
  | .purgeEvery period =>
    (if period = 0 then b
      else { b with tickers := b.tickers ++ [⟨b.world.now, period⟩] }, ())
  | .stall on =>
    ({ b with world := { b.world with store := { b.world.store with stalled := on } } }, ())
  | .failReplication on =>
    ({ b with world := { b.world with store := { b.world.store with failing := on } } }, ())
  | .latency ms =>
    ({ b with world := { b.world with store := { b.world.store with latency := ms } } }, ())
  | .unavailable on =>
    ({ b with world := { b.world with store := { b.world.store with unavailable := on } } }, ())
  | .close =>
    ({ b with world := { b.world with store := { b.world.store with closing := true } } }, ())
  | .inject method fault => ({ b with faults := b.faults.insert method fault }, ())
  | .heal => ({ b with faults := ∅ }, ())

/-- Gives a connection back to the pool. -/
def giveBack (b : Bench ν) : Bench ν := { b with world := b.world.giveBack }

/-- Answers a request. -/
def answer (b : Bench ν) : (r : Request ν) → Bench ν × r.Answer
  | .openJournal =>
    ({ b with
        journals := b.journals.insert b.nextJournal []
        nextJournal := b.nextJournal + 1 }, b.nextJournal)
  | .note journal result =>
    let entries := (b.journals.find? journal).getD []
    ({ b with journals := b.journals.insert journal ((result, b.world.now) :: entries) }, ())
  | .readJournal journal => (b, ((b.journals.find? journal).getD []).reverse)
  | .mention lock => (if lock ∈ b.locks then b else { b with locks := lock :: b.locks }, ())
  | .registry manager => (b, b.world.registry manager)
  | .settings => (b, b.settings)
  | .keepFilter name plan => ({ b with filters := b.filters.insert name plan }, ())
  | .findFilter name => (b, b.filters.find? name)
  | .keepConnection name conn =>
    let kept := { b with connections := b.connections.insert name conn }
    (if b.connections.contains name then kept.giveBack else kept, ())
  | .findConnection name => (b, b.connections.find? name)
  | .dropConnection name =>
    if b.connections.contains name then
      ({ b with connections := b.connections.erase name }.giveBack, true)
    else (b, false)
  | .store access => b.accessStore access

/-- The connections of a fiber that has made a request: one that is kept is no longer its own. -/
def connectionsAfter (held : List Connection) : Request ν → List Connection
  | .keepConnection _ conn => held.erase conn
  | _ => held

/-- Notes a call to the store, and says whether it is to fail. -/
def intercept (b : Bench ν) (c : StoreCall) : Bench ν × Option StoreError :=
  let b := { b with calls := c :: b.calls }
  let method := Method.ofCall c
  match b.faults.find? method with
  | none => (b, none)
  | some fault =>
    if 0 < fault.skip then
      ({ b with faults := b.faults.insert method { fault with skip := fault.skip - 1 } }, none)
    else
      match fault.times with
      | none => (b, some fault.error)
      | some 0 => (b, none)
      | some (n + 1) =>
        ({ b with faults := b.faults.insert method { fault with times := some n } },
          some fault.error)

/-! ## Running fibers -/

/-- The fiber goes on, and is run next. -/
def goOn (b : Bench ν) (f : Fiber ν) : Turn ν := { bench := b.setFiber f, front := [f.id] }

/-- The step of a fiber by an effect, after the bench has looked at it. -/
def moveFiber (b : Bench ν) (f : Fiber ν) : Turn ν :=
  match f.task.step b.world with
  | .finished _ => { bench := b.removeFiber f.id }
  | .moved w t => { b with world := w }.goOn { f with task := t }
  | .waits w t => { bench := { b with world := w }.setFiber { f with task := t } }
  | .asks _ _ => { bench := b }

/-- The fiber starts scripts and waits for them. -/
def startRun (b : Bench ν) (f : Fiber ν) (children : List (Child ν)) (limit : Option Nat) :
    Turn ν :=
  let started := b.startChildren f.id children
  let f := { f with joining := some (started.2, limit.map (b.world.now + ·)) }
  { bench := started.1.setFiber f, front := started.2 ++ [f.id] }

/-- The fiber goes on after scripts that it has waited for; those that are not done are dropped. -/
def endRun (b : Bench ν) (f : Fiber ν) (children : List Nat) (runtime : Bool)
    (next : Bool → Script ν Unit) : Turn ν :=
  let done := children.all fun c => !b.has c
  let dropped := b.dropFibers (b.fibers.length + 1) children
  let deletions := if runtime then dropped.1.startDeletions dropped.2 else (dropped.1, [])
  let f := { f with joining := none, task := { f.task with program := next done } }
  { bench := deletions.1.setFiber f, front := [f.id], back := deletions.2 }

/-- The step of a fiber, if it can go on. -/
def stepFiber (b : Bench ν) (f : Fiber ν) : Turn ν :=
  if b.isReady f then
    match f.task.program with
    | .extended (.request r) next =>
      let a := b.answer r
      a.1.goOn { f with
        task := { f.task with
          program := next a.2
          connections := connectionsAfter f.task.connections r } }
    | .extended (.run children limit runtime) next =>
      match f.joining with
      | none => b.startRun f children limit
      | some (ids, _) => b.endRun f ids runtime next
    | .effect (.call c) next =>
      if f.task.wait.isSome then b.moveFiber f
      else
        match b.intercept c with
        | (b, some e) => b.goOn { f with task := { f.task with program := next (.error e) } }
        | (b, none) => b.moveFiber f
    | _ => b.moveFiber f
  else { bench := b }

/-- The ticks that are due: a closed store ends the task, an open one is purged. -/
def tick (b : Bench ν) : Bench ν :=
  let now := b.world.now
  let due := b.tickers.any fun t => decide (t.next ≤ now)
  if due then
    let kept := b.tickers.filterMap fun t =>
      if now < t.next then some t
      else if b.world.store.closing then none
      else some { t with next := now + t.period }
    let store := if b.world.store.closing then b.world.store else (b.world.store.purge now).1
    { b with world := { b.world with store := store }, tickers := kept }
  else b

/-- The earliest time at which something can go on. -/
def nextTime? (b : Bench ν) : Option Nat :=
  (b.fibers.filterMap latest? ++ b.tickers.map (·.next)).min?

/-- Runs fibers until the fiber `root` is done and nothing more can go on. First those listed are
run, then all that can go on; when none can, time jumps. At most `fuel` steps are made. -/
def drive (root : Nat) : (fuel : Nat) → List Nat → Bench ν → Bench ν
  | 0, _, b => b
  | fuel + 1, id :: rest, b =>
    match b.fiber? id with
    | none => drive root fuel rest b
    | some f =>
      let turn := b.stepFiber f
      drive root fuel (turn.front ++ rest ++ turn.back) turn.bench
  | fuel + 1, [], b =>
    let b := b.tick
    if b.fibers.any b.isReady then drive root fuel (b.fibers.map (·.id)) b
    else if b.has root then
      match b.nextTime? with
      | some t =>
        let b := { b with world := b.world.atTime t }
        drive root fuel (b.fibers.map (·.id)) b
      | none => b
    else b

/-! ## Steps and reports -/

/-- What is seen after a step. -/
structure Report (ν : Type) where
  /-- What the step answered; none if it did not end. -/
  result : Option (Result ν)
  /-- The time at which it ended. -/
  time : Nat
  /-- The calls made to the store, in order. -/
  calls : List StoreCall
  /-- The events counted, in order. -/
  measures : List Measure
  /-- The locks held, by manager and context. -/
  held : List (ManagerId × Context × List (String × Token))
  /-- The locks used whose keys have a value, with the rest of their lifetimes. -/
  live : List (String × Option Nat)

/-- The locks held, by manager and context. -/
def heldLocks (b : Bench ν) : List (ManagerId × Context × List (String × Token)) :=
  b.world.registries.entries.flatMap fun m =>
    m.2.entries.map fun c => (m.1, c.1, c.2.entries)

/-- The locks used whose keys have a value, with the rest of their lifetimes. -/
def liveLocks (b : Bench ν) : List (String × Option Nat) :=
  let w := b.world
  b.locks.filterMap fun lock =>
    if w.store.keyspace.present w.now (lockKey lock) then
      some (lock, w.store.keyspace.remaining w.now (lockKey lock))
    else none

/-- The bench around a store. -/
def ofStore (store : Memory) (settings : LockSettings) (firstToken : Nat) : Bench ν :=
  { world := .ofStore store firstToken, settings := settings }

/-- Runs a script as the fiber that all wait for, giving its journal. -/
def runRoot (b : Bench ν) (fuel : Nat) (script : Script ν (Result ν)) :
    Bench ν × List (Result ν × Nat) :=
  let journal := b.nextJournal
  let program : Script ν Unit := do
    let result ← script
    ask (.note journal result)
  let root : Fiber ν := { id := b.nextFiber, task := { program := program } }
  let b := { b with
    fibers := root :: b.fibers
    nextFiber := b.nextFiber + 1
    nextJournal := b.nextJournal + 1 }
  let b := b.drive root.id fuel (b.fibers.map (·.id))
  (b, ((b.journals.find? journal).getD []))

/-- Plays one step and reports. -/
def play (b : Bench ν) (fuel : Nat) (s : Step ν) : Bench ν × Report ν :=
  let r := b.runRoot fuel s.script
  let b := r.1
  let entry := r.2.head?
  ({ b with calls := [], world := { b.world with measures := [] }, journals := ∅ },
    { result := entry.map (·.1)
      time := (entry.map (·.2)).getD b.world.now
      calls := b.calls.reverse
      measures := b.world.measures.reverse
      held := b.heldLocks
      live := b.liveLocks })

end Bench

/-! ## Sections dropped outside of any runtime -/

/-- What is left of a guarded section that was dropped outside of any runtime. -/
structure Remains where
  /-- The section was done before. -/
  finished : Bool
  /-- The number of locks the context holds. -/
  held : Nat
  /-- The key of the lock has a value. -/
  live : Bool
  /-- The time. -/
  time : Nat
  deriving Repr, DecidableEq

/-- Runs a guarded section on a single node for a time, and drops it outside of any runtime. -/
def abandon (fuel firstToken : Nat) (call : GuardedCall (Step Unit) Unit) (after : Nat) :
    Remains :=
  let b : Bench Unit := .ofStore .standalone {} firstToken
  let r := b.runRoot fuel do
    let journal ← ask .openJournal
    let outcome ← runSectionWithin call journal after false
    return .guarded outcome []
  let w := r.1.world
  { finished := match r.2 with
      | (.guarded .cancelled _, _) :: _ => false
      | _ => true
    held := (w.registry call.caller.manager).heldCount call.caller.ctx
    live := w.store.keyspace.present w.now (lockKey call.caller.lock)
    time := w.now }

end Latchkey.Scenario
