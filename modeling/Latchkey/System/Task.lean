import Latchkey.System.World
import Latchkey.Lock.Manager

/-!
# Tasks

A task is a program on its way: what is left of it, what it waits for, the connections it has
borrowed and the sections it guards. `Task.step` answers one effect. A task may be dropped at any
point: it then leaves the queue it waits in, gives its connections back and forgets the locks of the
sections it guards, whose keys are left for somebody else to delete.
-/

namespace Latchkey

/-- A program on its way. -/
structure Task (X : Extension) (α : Type) where
  /-- What is left to do. -/
  program : Program X α
  /-- What its first effect waits for. -/
  wait : Option Wait := none
  /-- The connections borrowed, the last one first. -/
  connections : List Connection := []
  /-- The guarded sections, the innermost first. -/
  guards : List Guard := []

/-- What a task does next. -/
inductive TaskStep (X : Extension) (α : Type) where
  /-- It is done. -/
  | finished (result : α)
  /-- Its first effect has been answered. -/
  | moved (w : World) (t : Task X α)
  /-- Its first effect waits. -/
  | waits (w : World) (t : Task X α)
  /-- It performs an operation of the extension. -/
  | asks (op : X.Op) (next : X.Reply op → Task X α)

/-- A lock whose guarded section was dropped. -/
structure Abandoned where
  /-- The lock. -/
  lock : String
  /-- The token under which it was held. -/
  token : Token
  deriving Repr, DecidableEq

namespace Task

variable {X : Extension} {α : Type}

/-- The connections borrowed after an effect was answered. -/
def connectionsAfter (held : List Connection) : (e : Effect) → e.Reply → List Connection
  | .call (.connect _), .ok conn => conn :: held
  | .release conn, _ => held.erase conn
  | _, _ => held

/-- The guarded sections after an effect was answered. -/
def guardsAfter (guards : List Guard) : Effect → List Guard
  | .arm guard => guard :: guards
  | .disarm => guards.tail
  | _ => guards

/-- The task after the answer to its first effect. -/
def afterReply (t : Task X α) (e : Effect) (next : e.Reply → Program X α) (r : e.Reply) :
    Task X α where
  program := next r
  connections := connectionsAfter t.connections e r
  guards := guardsAfter t.guards e

/-- The next step of a task. -/
def step (w : World) (t : Task X α) : TaskStep X α :=
  match t.program with
  | .done a => .finished a
  | .extended op next => .asks op fun r => { t with program := next r }
  | .effect e next =>
    match t.wait with
    | some wait =>
      if w.isOver wait then
        let r := w.answer (some wait) e
        .moved r.1 (t.afterReply e next r.2)
      else .waits w t
    | none =>
      match w.wait? e with
      | some (w', wait) => .waits w' { t with wait := some wait }
      | none =>
        let r := w.answer none e
        .moved r.1 (t.afterReply e next r.2)

/-- Forgets the lock of a guarded section that is dropped. -/
def forgetGuard (w : World) (g : Guard) : World × Option Abandoned :=
  match (w.registry g.manager).held g.ctx g.lock with
  | none => (w, none)
  | some token =>
    (w.withLedger (w.setRegistry g.manager ((w.registry g.manager).forget g.ctx g.lock)),
      some ⟨g.lock, token⟩)

/-- Forgets the locks of guarded sections, and lists those that were still held. -/
def forgetGuards (w : World) : List Guard → World × List Abandoned
  | [] => (w, [])
  | g :: rest =>
    let r := forgetGuard w g
    let rs := forgetGuards r.1 rest
    (rs.1, r.2.toList ++ rs.2)

/-- Drops a task. -/
def drop (w : World) (t : Task X α) : World × List Abandoned :=
  let w := match t.wait with
    | some wait => w.abandonWait wait
    | none => w
  let w := t.connections.foldl (fun w _ => w.giveBack) w
  forgetGuards w t.guards

end Task

end Latchkey
