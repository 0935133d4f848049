import Latchkey.Program.Effect

/-!
# Programs

A program is done with a result, or performs an effect and goes on with the reply. It says nothing
about what replies the effects get, so the same program can be run on a store in memory, step by
step among others, or on any list of replies.

A program may also perform operations of an *extension*, which is a parameter: the surroundings of
lock and filter operations, such as the command line, add what they need there.

The main statement is that programs form a lawful monad.
-/

namespace Latchkey

/-- Operations that programs may perform besides effects. -/
structure Extension where
  /-- The operations. -/
  Op : Type
  /-- What an operation replies. -/
  Reply : Op → Type

/-- No operations. -/
def Extension.none : Extension := ⟨Empty, fun op => nomatch op⟩

/-- A program with a result. -/
inductive Program (X : Extension) (α : Type) : Type where
  /-- Done. -/
  | done (result : α) : Program X α
  /-- Performs an effect and goes on with the reply. -/
  | effect (e : Effect) (next : e.Reply → Program X α) : Program X α
  /-- Performs an operation of the extension and goes on with the reply. -/
  | extended (op : X.Op) (next : X.Reply op → Program X α) : Program X α

namespace Program

variable {X : Extension} {α β γ : Type}

/-- One program after the other. -/
protected def bind : Program X α → (α → Program X β) → Program X β
  | .done a, f => f a
  | .effect e next, f => .effect e fun r => (next r).bind f
  | .extended op next, f => .extended op fun r => (next r).bind f

instance : Monad (Program X) where
  pure := .done
  bind := Program.bind

/-- The program that only performs an effect. -/
def perform (e : Effect) : Program X e.Reply := .effect e .done

/-- The program that only performs an operation of the extension. -/
def extend (op : X.Op) : Program X (X.Reply op) := .extended op .done

@[simp] theorem done_bind (a : α) (f : α → Program X β) : (Program.done a >>= f) = f a := rfl

@[simp] theorem effect_bind (e : Effect) (next : e.Reply → Program X α) (f : α → Program X β) :
    (Program.effect e next >>= f) = .effect e fun r => next r >>= f := rfl

@[simp] theorem extended_bind (op : X.Op) (next : X.Reply op → Program X α)
    (f : α → Program X β) :
    (Program.extended op next >>= f) = .extended op fun r => next r >>= f := rfl

theorem bind_done (p : Program X α) : p >>= .done = p := by
  induction p with
  | done a => rfl
  | effect e next ih => exact congrArg (Program.effect e) (funext ih)
  | extended op next ih => exact congrArg (Program.extended op) (funext ih)

theorem bind_assoc (p : Program X α) (f : α → Program X β) (g : β → Program X γ) :
    p >>= f >>= g = p >>= fun a => f a >>= g := by
  induction p with
  | done a => rfl
  | effect e next ih => exact congrArg (Program.effect e) (funext ih)
  | extended op next ih => exact congrArg (Program.extended op) (funext ih)

instance : LawfulMonad (Program X) :=
  LawfulMonad.mk' (Program X) (fun p => bind_done p) (fun _ _ => rfl) bind_assoc

end Program

/-- A program that may fail. -/
abbrev Action (X : Extension) (ε α : Type) := ExceptT ε (Program X) α

namespace Action

variable {X : Extension} {ε ε' α : Type}

/-- Performs an effect that cannot fail. -/
def perform (e : Effect) : Action X ε e.Reply := ExceptT.lift (Program.perform e)

/-- Calls the store. -/
def call (c : StoreCall) : Action X StoreError c.Answer :=
  ExceptT.mk (Program.perform (.call c))

/-- Sends a command over a connection. -/
def send (conn : Connection) (cmd : Command) : Action X StoreError cmd.Answer :=
  call (.command conn cmd)

/-- Accesses the registry of a manager. -/
def registry (manager : ManagerId) (access : RegistryAccess) : Action X ε access.Answer :=
  perform (.registry manager access)

/-- Borrows a connection to the node that owns a key. -/
def connectionFor (key : String) : Action X StoreError Connection := do
  let node ← call (.nodeOwning key)
  call (.connect node)

/-- Uses a connection and gives it back, whether the use succeeds or fails. -/
def withConnection (borrow : Action X StoreError Connection)
    (use : Connection → Action X StoreError α) : Action X StoreError α := ExceptT.mk do
  match ← borrow.run with
  | .error e => return .error e
  | .ok conn =>
    let result ← (use conn).run
    Program.perform (.release conn)
    return result

/-- The action with its errors seen as failures of the caller. -/
def orFail (a : Action X StoreError α) : Action X Failure α := a.adapt Failure.ofStore

end Action

end Latchkey
