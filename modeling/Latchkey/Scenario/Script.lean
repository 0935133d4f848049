import Latchkey.Scenario.Step

/-!
# Scripts

The program of a step. Besides the effects of locks and filters it uses operations of the test
bench: running other scripts until they are done or a time is over, journals in which scripts note
what their steps answered, and named connections and filters.
-/

namespace Latchkey.Scenario

/-- A script that is run beside others. -/
inductive Child (ν : Type) where
  /-- Steps, whose results are noted in a journal. -/
  | branch (steps : List (Step ν)) (journal : Nat)
  /-- A guarded section: its steps note their results in one journal, and its outcome is noted in
  the other. -/
  | guarded (call : GuardedCall (Step ν) ν) (body outcome : Nat)

/-- A request to the test bench that is answered at once. -/
inductive Request (ν : Type) where
  /-- Opens an empty journal. -/
  | openJournal
  /-- Notes a result, with the present time. -/
  | note (journal : Nat) (result : Result ν)
  /-- Reads a journal. -/
  | readJournal (journal : Nat)
  /-- Notes that a lock is used. -/
  | mention (lock : String)
  /-- The registry of a manager. -/
  | registry (manager : ManagerId)
  /-- The settings of the managers. -/
  | settings
  /-- Keeps a filter under a name. -/
  | keepFilter (name : String) (plan : FilterPlan)
  /-- The filter of a name. -/
  | findFilter (name : String)
  /-- Keeps a connection under a name, giving back the one that had it. -/
  | keepConnection (name : String) (conn : Connection)
  /-- The connection of a name. -/
  | findConnection (name : String)
  /-- Gives back the connection of a name; was there one? -/
  | dropConnection (name : String)
  /-- Accesses the store directly. -/
  | store (access : StoreAccess)

/-- What a request answers. -/
abbrev Request.Answer {ν : Type} : Request ν → Type
  | .openJournal => Nat
  | .note _ _ => Unit
  | .readJournal _ => List (Result ν × Nat)
  | .mention _ => Unit
  | .registry _ => Registry
  | .settings => LockSettings
  | .keepFilter _ _ => Unit
  | .findFilter _ => Option FilterPlan
  | .keepConnection _ _ => Unit
  | .findConnection _ => Option Connection
  | .dropConnection _ => Bool
  | .store access => access.Answer

/-- An operation of the test bench. -/
inductive Op (ν : Type) where
  /-- A request. -/
  | request (r : Request ν)
  /-- Runs scripts side by side until all are done, or drops them when the time is over; were they
  done? Outside of any runtime nobody deletes the keys of the locks that are dropped. -/
  | run (children : List (Child ν)) (limit : Option Nat) (runtime : Bool)

/-- What an operation replies. -/
abbrev Op.Reply {ν : Type} : Op ν → Type
  | .request r => r.Answer
  | .run _ _ _ => Bool

/-- The test bench as surroundings of lock and filter operations. -/
abbrev bench (ν : Type) : Extension := ⟨Op ν, Op.Reply⟩

/-- A script with a result. -/
abbrev Script (ν α : Type) := Program (bench ν) α

variable {ν : Type}

/-- Makes a request to the test bench. -/
def ask (r : Request ν) : Script ν r.Answer := Program.extend (X := bench ν) (.request r)

/-- Runs scripts side by side. -/
def runChildren (children : List (Child ν)) (limit : Option Nat) (runtime : Bool) :
    Script ν Bool :=
  Program.extend (X := bench ν) (.run children limit runtime)

/-- The manager of a number. -/
def manager (id : ManagerId) : Script ν Manager := do return ⟨id, ← ask .settings⟩

/-- Runs a lock operation for a caller. -/
def lockStep (caller : Caller) (op : Manager → Action (bench ν) Failure Bool) :
    Script ν (Result ν) := do
  ask (.mention caller.lock)
  let m ← manager caller.manager
  return .ofFailure .truth (← (op m).run)

/-- The outcome of a guarded section. -/
def Outcome.ofGuarded : Guarded Failure ν → Outcome ν
  | .refused failure => .failed failure
  | .skipped => .skipped
  | .ran (.value v) => .value v
  | .ran (.failed failure) => .failed failure
  | .ran (.panicked text) => .panicked text

/-- Runs a guarded section whose steps note their results in a journal. -/
def runSection (call : GuardedCall (Step ν) ν) (journal : Nat) : Script ν (Outcome ν) := do
  ask (.mention call.caller.lock)
  let m ← manager call.caller.manager
  let body : Script ν (Finish Failure ν) :=
    match call.body.panicAtOnce with
    | some text => return .panicked text
    | none => do
      let _ ← runChildren [.branch call.body.steps journal] none true
      return call.body.finish
  return .ofGuarded
    (← m.runGuarded call.caller.ctx call.caller.lock call.ttl call.throws body)

/-- Runs a guarded section, dropping it when the time is over. -/
def runSectionWithin (call : GuardedCall (Step ν) ν) (journal ms : Nat) (runtime : Bool) :
    Script ν (Outcome ν) := do
  let outcome ← ask .openJournal
  let _ ← runChildren [.guarded call journal outcome] (some ms) runtime
  match ← ask (.readJournal outcome) with
  | (.guarded o _, _) :: _ => return o
  | _ => return .cancelled

/-- Uses a named connection. -/
def withNamed (name : String) (use : Connection → Script ν (Result ν)) : Script ν (Result ν) := do
  match ← ask (.findConnection name) with
  | some conn => use conn
  | none => return .noConnection

/-- Uses a named filter. -/
def withFilter (name : String) (use : FilterPlan → Script ν (Result ν)) : Script ν (Result ν) := do
  match ← ask (.findFilter name) with
  | some plan => use plan
  | none => return .noFilter

/-- Keeps a borrowed connection under a name. -/
def keep (name : String) (borrow : Action (bench ν) StoreError Connection) :
    Script ν (Result ν) := do
  match ← borrow.run with
  | .error e => return .storeError e
  | .ok conn =>
    ask (.keepConnection name conn)
    return .text conn.node

/-- Opens a journal for each of several lists of steps. -/
def openBranches : List (List (Step ν)) → Script ν (List (Child ν × Nat))
  | [] => return []
  | steps :: rest => do
    let journal ← ask .openJournal
    return (.branch steps journal, journal) :: (← openBranches rest)

/-- Reads several journals. -/
def readJournals : List Nat → Script ν (List (List (Result ν × Nat)))
  | [] => return []
  | journal :: rest => do
    let entries ← ask (.readJournal journal)
    return entries :: (← readJournals rest)

/-- The script of a step. -/
def Step.script : Step ν → Script ν (Result ν)
  | .advance ms => do
    Program.perform (.sleep ms)
    return .nothing
  | .parallel branches => do
    let children ← openBranches branches
    let _ ← runChildren (children.map (·.1)) none true
    return .branches (← readJournals (children.map (·.2)))
  | .acquire c ttl wait => lockStep c fun m => m.acquire c.ctx c.lock ttl wait
  | .acquireRetry c ttl wait budget =>
    lockStep c fun m => m.acquireWithRetry c.ctx c.lock ttl wait budget
  | .tryLock c => lockStep c fun m => m.tryLock c.ctx c.lock
  | .tryLockRetry c => lockStep c fun m => m.tryLockWithRetry c.ctx c.lock
  | .release c => lockStep c fun m => m.release c.ctx c.lock
  | .guarded call cancel => do
    let journal ← ask .openJournal
    let outcome ←
      match cancel with
      | none => runSection call journal
      | some ms => runSectionWithin call journal ms true
    return .guarded outcome (← ask (.readJournal journal))
  | .dispose id ctx => do
    return .number (← Program.perform (.registry id (.dispose ctx)))
  | .settings => do return .settings (← ask .settings)
  | .held c => do
    ask (.mention c.lock)
    return .optionalText (← Program.perform (.registry c.manager (.held c.ctx c.lock)))
  | .heldCount id ctx => do return .number ((← ask (.registry id)).heldCount ctx)
  | .records id ctx => do
    let hs := (← ask (.registry id)).holdings ctx
    return .holdings (hs.mergeSort fun a b => a.lock ≤ b.lock)
  | .contextCount id => do return .number (← ask (.registry id)).contextCount
  | .record c token => do
    ask (.mention c.lock)
    Program.perform (.registry c.manager (.record c.ctx c.lock token))
    return .nothing
  | .forget c => do
    ask (.mention c.lock)
    return .optionalText (← Program.perform (.registry c.manager (.forget c.ctx c.lock)))
  | .filterNew name wanted => do
    match ← (FilterPlan.create wanted).run with
    | .error failure => return .failure failure
    | .ok plan =>
      ask (.keepFilter name plan)
      return .plan plan
  | .add filter element => withFilter filter fun plan => do
    return .ofFailure (fun _ => .nothing) (← (plan.add element).run)
  | .test filter element => withFilter filter fun plan => do
    return .ofFailure .truth (← (plan.test element).run)
  | .filterName filter => withFilter filter fun plan => return .text plan.name
  | .deployment => do return .text (← Program.perform .deployment).display
  | .isClosing => do return .truth (← Program.perform .closing)
  | .nodeOwning key => do
    return .ofCall .text (← Program.perform (.call (.nodeOwning key)))
  | .replicaCount n => do
    return .ofCall .number (← Program.perform (.call (.replicaCount n)))
  | .connect n name => keep name (Action.call (.connect n))
  | .connectionFor key name => keep name (Action.connectionFor key)
  | .drop conn => do return .truth (← ask (.dropConnection conn))
  | .node conn => withNamed conn fun c => return .text c.node
  | .command conn cmd => withNamed conn fun c => do
    return .ofCall (.ofAnswer cmd) (← Program.perform (.call (.command c cmd)))
  | .store access => do return .ofAccess access (← ask (.store access))
  | .isEmpty => do return .truth ((← ask (.store .count)) == 0)

/-- Runs steps one after the other, noting their results. -/
def runSteps (journal : Nat) : List (Step ν) → Script ν Unit
  | [] => return ()
  | s :: rest => do
    let result ← s.script
    ask (.note journal result)
    runSteps journal rest

/-- The program of a script that is run beside others. -/
def Child.script : Child ν → Script ν Unit
  | .branch steps journal => runSteps journal steps
  | .guarded call body outcome => do
    let o ← runSection call body
    ask (.note outcome (.guarded o []))

end Latchkey.Scenario
