import Latchkey.Filter.Membership
import Latchkey.Lock.Manager

/-!
# Clients

A client is a program that calls lock and filter operations. The calls are operations of an
extension, so that one can see where each of them begins and ends. A guarded section and an
acquisition with retries are clients too: they call `acquire` and `release`.

The main statements are that a client in which every call is replaced by the program of the
operation is the program that the manager runs.
-/

namespace Latchkey

/-- An operation that a client calls. -/
inductive Operation where
  /-- Acquires or refreshes a lock. -/
  | acquire (m : Manager) (ctx : Context) (lock : String) (ttl wait : Nat)
  /-- Releases a lock. -/
  | release (m : Manager) (ctx : Context) (lock : String)
  /-- Forgets all locks of a context. -/
  | dispose (m : Manager) (ctx : Context)
  /-- Deletes the key of a lock whose guarded section was dropped. -/
  | clear (guard : Guard) (token : Token)
  /-- Makes or adopts a filter. -/
  | createFilter (settings : FilterSettings)
  /-- Adds an element to a filter. -/
  | addElement (plan : FilterPlan) (element : String)
  /-- Looks for an element in a filter. -/
  | testElement (plan : FilterPlan) (element : String)

namespace Operation

/-- What an operation answers. -/
abbrev Answer : Operation → Type
  | .acquire .. => Except Failure Bool
  | .release .. => Except Failure Bool
  | .dispose .. => Nat
  | .clear .. => Except StoreError Bool
  | .createFilter _ => Except Failure FilterPlan
  | .addElement .. => Except Failure Unit
  | .testElement .. => Except Failure Bool

/-- The program of an operation. -/
def program {X : Extension} : (o : Operation) → Program X o.Answer
  | .acquire m ctx lock ttl wait => (m.acquire ctx lock ttl wait).run
  | .release m ctx lock => (m.release ctx lock).run
  | .dispose m ctx => Program.perform (.registry m.id (.dispose ctx))
  | .clear guard token => (Manager.releaseAbandoned guard.lock token).run
  | .createFilter settings => (FilterPlan.create settings).run
  | .addElement plan element => (plan.add element).run
  | .testElement plan element => (plan.test element).run

/-- Whether clients call the operation; a key is cleared only after its section was dropped. -/
def IsCall : Operation → Prop
  | .clear .. => False
  | _ => True

end Operation

/-- What a client does besides effects. -/
inductive ClientOp (X : Extension) where
  /-- Calls an operation. -/
  | invoke (o : Operation)
  /-- Performs an operation of its surroundings, which may take any time. -/
  | outside (op : X.Op)

/-- What a client gets to know. -/
abbrev ClientOp.Reply {X : Extension} : ClientOp X → Type
  | .invoke o => o.Answer
  | .outside op => X.Reply op

/-- The surroundings of a client. -/
abbrev client (X : Extension) : Extension := ⟨ClientOp X, ClientOp.Reply⟩

/-- A client with a result. -/
abbrev Client (X : Extension) (α : Type) := Program (client X) α

namespace Client

variable {X : Extension} {ε α β : Type}

/-- Calls an operation. -/
def invoke (o : Operation) : Client X o.Answer := Program.extend (X := client X) (.invoke o)

/-- Runs a section while holding a lock, and releases the lock however the section ends. -/
def runGuarded (m : Manager) (ctx : Context) (lock : String) (ttl : Nat) (throws : Bool)
    (body : Client X (Finish ε α)) : Client X (Guarded ε α) := do
  match ← invoke (.acquire m ctx lock ttl m.settings.replicationWait) with
  | .error failure => return .refused failure
  | .ok false => return if throws then .refused (.contention lock) else .skipped
  | .ok true =>
    Program.perform (.arm ⟨m.id, ctx, lock⟩)
    let finish ← body
    let _ ← invoke (.release m ctx lock)
    Program.perform .disarm
    return .ran finish

/-- Acquires a lock, trying again until the deadline is over; at most `attempts` times. -/
def acquireUntil (m : Manager) (ctx : Context) (lock : String) (ttl wait deadline : Nat) :
    (attempts : Nat) → Client X (Except Failure Bool)
  | 0 => return .ok false
  | attempts + 1 => do
    match ← invoke (.acquire m ctx lock ttl wait) with
    | .error failure => return .error failure
    | .ok true => return .ok true
    | .ok false =>
      if ← Program.perform .closing then return .ok false
      else if (← Program.perform .clock) ≥ deadline then return .ok false
      else
        Program.perform (.sleep m.settings.pollInterval)
        acquireUntil m ctx lock ttl wait deadline attempts

/-- Acquires a lock, trying again until the budget is used up. -/
def acquireWithRetry (m : Manager) (ctx : Context) (lock : String) (ttl wait budget : Nat) :
    Client X (Except Failure Bool) := do
  if budget > maxRetryBudget then return .error (.configuration (.retryBudget budget))
  else
    let deadline := (← Program.perform .clock) + budget
    acquireUntil m ctx lock ttl wait deadline
      (Manager.attemptLimit budget m.settings.pollInterval)

/-! ## The programs of clients -/

/-- The client with every call replaced by the program of the operation. -/
def expand : Client X α → Program X α
  | .done a => .done a
  | .effect e next => .effect e fun r => expand (next r)
  | .extended (.invoke o) next => o.program >>= fun a => expand (next a)
  | .extended (.outside op) next => .extended op fun r => expand (next r)

theorem expand_bind (c : Client X α) (f : α → Client X β) :
    expand (c >>= f) = expand c >>= fun a => expand (f a) := by
  induction c with
  | done a => rfl
  | effect e next ih => exact congrArg (Program.effect e) (funext ih)
  | extended op next ih =>
    cases op with
    | invoke o =>
      simp only [Program.extended_bind, expand, Program.bind_assoc]
      exact congrArg (o.program >>= ·) (funext ih)
    | outside op => exact congrArg (Program.extended op) (funext ih)

/-- A guarded section is what the manager runs. -/
theorem expand_runGuarded (m : Manager) (ctx : Context) (lock : String) (ttl : Nat) (throws : Bool)
    (body : Client X (Finish ε α)) :
    expand (runGuarded m ctx lock ttl throws body) =
      m.runGuarded ctx lock ttl throws (expand body) := by
  refine congrArg ((m.acquire ctx lock ttl m.settings.replicationWait).run >>= ·)
    (funext fun r => ?_)
  match r with
  | .error failure => rfl
  | .ok false => rfl
  | .ok true =>
    refine congrArg (Program.effect _) (funext fun _ => ?_)
    exact expand_bind body _

theorem expand_acquireUntil (m : Manager) (ctx : Context) (lock : String)
    (ttl wait deadline attempts : Nat) :
    expand (X := X) (acquireUntil m ctx lock ttl wait deadline attempts) =
      (m.acquireUntil ctx lock ttl wait deadline attempts).run := by
  induction attempts with
  | zero => rfl
  | succ attempts ih =>
    refine congrArg ((m.acquire ctx lock ttl wait).run >>= ·) (funext fun r => ?_)
    match r with
    | .error failure => rfl
    | .ok true => rfl
    | .ok false =>
      refine congrArg (Program.effect _) (funext fun closing => ?_)
      cases closing with
      | true => rfl
      | false =>
        refine congrArg (Program.effect _) (funext fun (now : Nat) => ?_)
        show expand (if now ≥ deadline then Program.done (.ok false)
            else Program.perform (.sleep m.settings.pollInterval) >>= fun _ =>
              acquireUntil m ctx lock ttl wait deadline attempts) =
          (if now ≥ deadline then pure false
            else Action.perform (.sleep m.settings.pollInterval) >>= fun _ =>
              m.acquireUntil ctx lock ttl wait deadline attempts : Action X Failure Bool).run
        by_cases h : now ≥ deadline
        · rw [if_pos h, if_pos h]
          rfl
        · rw [if_neg h, if_neg h]
          exact congrArg (Program.effect _) (funext fun _ => ih)

/-- An acquisition with retries is what the manager runs. -/
theorem expand_acquireWithRetry (m : Manager) (ctx : Context) (lock : String)
    (ttl wait budget : Nat) :
    expand (X := X) (acquireWithRetry m ctx lock ttl wait budget) =
      (m.acquireWithRetry ctx lock ttl wait budget).run := by
  unfold acquireWithRetry Manager.acquireWithRetry
  split
  · rfl
  · exact congrArg (Program.effect .clock) (funext fun _ => expand_acquireUntil ..)

end Client

end Latchkey
