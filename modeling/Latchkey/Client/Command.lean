import Latchkey.Client.Error
import Latchkey.Client.Terminal
import Latchkey.Config.Configuration
import Latchkey.Filter.Membership
import Latchkey.Lock.Manager

/-!
# Commands of the client

What each command does, as a program that ends with an exit code or an error. What is not given on
the command line is taken from the configuration.
-/

namespace Latchkey.Client

open Arguments (Request FilterChoice)

/-- A program of the client. -/
abbrev Job := Action terminal ClientError

/-- The exit code of success. -/
def exitSuccess : Nat := 0

/-- The exit code where a lock is held by another owner. -/
def exitContended : Nat := 2

/-- The exit code of a program that panics. -/
def exitPanicked : Nat := 101

/-- Prints a line. -/
def print (line : String) : Job Unit :=
  ExceptT.lift (Program.extend (X := terminal) (.print (line ++ "\n")))

/-- Writes a line to the error stream. -/
def warn (line : String) : Job Unit :=
  ExceptT.lift (Program.extend (X := terminal) (.warn (line ++ "\n")))

/-- A lock or filter operation, its failures seen as errors of the client. -/
def operation {α : Type} (a : Action terminal Failure α) : Job α := a.adapt ClientError.failed

/-! ## Locks -/

/-- Acquires a lock, holds it and releases it. -/
def acquire (m : Manager) (ctx : Context) (lock : String) (ttl wait : Nat) (retry : Option Nat)
    (hold : Nat) : Job Nat := do
  let acquired ← operation <| match retry with
    | some budget => m.acquireWithRetry ctx lock ttl wait budget
    | none => m.acquire ctx lock ttl wait
  if acquired then
    print (lock ++ ": acquired")
    if 0 < hold then Action.perform (.sleep hold)
    if ← operation (m.release ctx lock) then print (lock ++ ": released")
    else print (lock ++ ": lost to another owner before release")
    return exitSuccess
  else
    print (lock ++ ": not acquired")
    return exitContended

/-- Launches a program as a guarded section. -/
def launch (program : String) (args : List String) :
    Program terminal (Finish LaunchError ExitStatus) := do
  match ← Program.extend (X := terminal) (.launch program args) with
  | .ok status => return .value status
  | .error e => return .failed e

/-- Runs a program while holding a lock; its exit code is passed on. -/
def run (m : Manager) (ctx : Context) (lock : String) (ttl : Nat) (throws : Bool)
    (program : String) (args : List String) : Job Nat := do
  match ← ExceptT.lift (m.runGuarded ctx lock ttl throws (launch program args)) with
  | .refused failure => throw (.failed failure)
  | .skipped =>
    warn (lock ++ ": held by another owner, command skipped")
    return exitContended
  | .ran (.value status) => return status.passedOn
  | .ran (.failed e) => throw (.unlaunched program e)
  | .ran (.panicked _) => return exitPanicked

/-! ## Filters -/

/-- The settings of a filter that is chosen. -/
def filterSettings (c : Config.Configuration) (f : FilterChoice) : FilterSettings where
  name := f.name
  expected := f.expected
  errorRate := f.errorRate.getD c.filterErrorRate
  expiration := f.expiration

/-- Adds elements to a filter, one after the other. -/
def addAll (p : FilterPlan) : List String → Job Unit
  | [] => return ()
  | element :: rest => do
    operation (p.add element)
    addAll p rest

/-- Tests elements of a filter, and prints what is found about each before the next one. -/
def testAll (p : FilterPlan) : List String → Job Unit
  | [] => return ()
  | element :: rest => do
    let found ← operation (p.test element)
    print (element ++ "\t" ++ if found then "true" else "false")
    testAll p rest

/-! ## All commands -/

/-- What a command does. -/
def job (c : Config.Configuration) (ctx : Context) (request : Request) : Job Nat :=
  let s := c.lockSettings
  let m : Manager := { settings := s }
  match request with
  | .acquire lock ttl wait retry hold =>
    acquire m ctx lock (ttl.getD s.ttl) (wait.getD s.replicationWait) retry hold
  | .run _ _ _ [] => throw .noProgram
  | .run lock ttl throws (program :: args) =>
    run m ctx lock (ttl.getD s.ttl) throws program args
  | .add f elements => do
    let p ← operation (FilterPlan.create (filterSettings c f))
    addAll p elements
    print (p.name ++ ": added " ++ Nat.repr elements.length ++ " element(s)")
    return exitSuccess
  | .test f elements => do
    let p ← operation (FilterPlan.create (filterSettings c f))
    testAll p elements
    return exitSuccess
  | .info f => do
    let p ← operation (FilterPlan.create (filterSettings c f))
    print (p.toJson.pretty 0)
    return exitSuccess

end Latchkey.Client
