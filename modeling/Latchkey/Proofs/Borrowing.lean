import Latchkey.Proofs.Clients
import Latchkey.Proofs.Discipline

/-!
# How operations borrow

A lock or filter operation borrows a connection only when it has none, sends commands over the one
that it has, and gives it back before it ends, whatever the store answers. It does not sleep while
it has one.

Guarded sections and acquisitions with retries leave connections to the operations that they call.

The main statements are `Operation.borrows`, `Client.abstains_runGuarded` and
`Client.abstains_acquireWithRetry`.
-/

namespace Latchkey

variable {X : Extension} {α : Type}

/-- Whether an effect takes a connection from its pool, or gives one back. -/
def Effect.Lends : Effect → Prop
  | .call (.connect _) => True
  | .release _ => True
  | _ => False

namespace Borrowing

/-- What an operation may do that has borrowed a connection, or none. -/
def permits (held : Option Connection) : Effect → Prop
  | .call (.connect _) => held = none
  | .call (.command conn _) => held = some conn
  | .release conn => held = some conn
  | .sleep _ => held = none
  | _ => True

/-- The connection borrowed after an exchange. -/
def next (held : Option Connection) : Exchange → Option Connection
  | ⟨.call (.connect _), .ok conn⟩ => some conn
  | ⟨.release _, _⟩ => none
  | _ => held

end Borrowing

/-- At most one connection at a time. -/
def borrowing : Discipline (Option Connection) := ⟨Borrowing.permits, Borrowing.next⟩

/-- The connection that is borrowed after some exchanges. -/
def borrowed? (log : List Exchange) : Option Connection := borrowing.run none log

theorem borrowed?_concat (log : List Exchange) (x : Exchange) :
    borrowed? (log ++ [x]) = Borrowing.next (borrowed? log) x :=
  Discipline.run_concat ..

namespace Borrowing

variable {e : Effect}

theorem next_of_not_lends (he : ¬ e.Lends) (held : Option Connection) (r : e.Reply) :
    next held ⟨e, r⟩ = held := by
  cases e with
  | call c =>
    cases c with
    | connect node => exact absurd trivial he
    | _ => rfl
  | release conn => exact absurd trivial he
  | _ => rfl

/-- A connection that is borrowed was so before, or it was lent in the log. -/
theorem mem_of_run {log : List Exchange} {held : Option Connection} {conn : Connection}
    (h : borrowing.run held log = some conn) :
    held = some conn ∨ ∃ node, (⟨.call (.connect node), .ok conn⟩ : Exchange) ∈ log := by
  induction log generalizing held with
  | nil => exact .inl h
  | cons x log ih =>
    rcases ih (h : borrowing.run (next held x) log = some conn) with hheld | ⟨node, hmem⟩
    · obtain ⟨e, r⟩ := x
      by_cases hlends : e.Lends
      · cases e with
        | call c =>
          cases c with
          | connect node =>
            cases r with
            | ok conn' =>
              cases hheld
              exact .inr ⟨node, List.mem_cons_self⟩
            | error e => exact .inl hheld
          | _ => exact hlends.elim
        | release conn' => cases hheld
        | _ => exact hlends.elim
      · exact .inl ((next_of_not_lends hlends held r).symm.trans hheld)
    · exact .inr ⟨node, .tail _ hmem⟩

end Borrowing

/-- The program begins without a connection and ends without one. -/
def Program.Borrows (p : Program X α) : Prop := p.Obeys borrowing none fun held _ => held = none

/-- The program uses the connection that it is given, and no other one. -/
def Program.Keeps (conn : Connection) (p : Program X α) : Prop :=
  p.Obeys borrowing (some conn) fun held _ => held = some conn

namespace Action

variable {ε β : Type} {conn : Connection}

theorem borrows_bind {x : Action X ε α} {f : α → Action X ε β} (hx : x.run.Borrows)
    (hf : ∀ a, (f a).run.Borrows) : (x >>= f).run.Borrows := by
  refine ensures_bind.2 (hx.mono ?_)
  rintro held (e | a) rfl
  · exact rfl
  · exact hf a

theorem keeps_bind {x : Action X ε α} {f : α → Action X ε β} (hx : x.run.Keeps conn)
    (hf : ∀ a, (f a).run.Keeps conn) : (x >>= f).run.Keeps conn := by
  refine ensures_bind.2 (hx.mono ?_)
  rintro held (e | a) rfl
  · exact rfl
  · exact hf a

theorem keeps_pure (a : α) : (pure a : Action X ε α).run.Keeps conn := rfl

theorem keeps_send (cmd : Command) : (send (X := X) conn cmd).run.Keeps conn :=
  ⟨rfl, fun _ => rfl⟩

theorem keeps_clock : (perform .clock : Action X ε Nat).run.Keeps conn := ⟨trivial, fun _ => rfl⟩

theorem keeps_lift {p : Program X α} (hp : p.Keeps conn) :
    (ExceptT.lift p : Action X ε α).run.Keeps conn :=
  ensures_lift.2 hp

theorem borrows_orFail {x : Action X StoreError α} (hx : x.run.Borrows) :
    x.orFail.run.Borrows :=
  ensures_orFail.2 hx

/-- A connection that is used is given back, however its use ends. -/
theorem borrows_withConnection {node : NodeId} {use : Connection → Action X StoreError α}
    (huse : ∀ conn, (use conn).run.Keeps conn) :
    (withConnection (call (.connect node)) use).run.Borrows := by
  refine ensures_withConnection.2 ⟨rfl, ?_⟩
  rintro (e | conn)
  · exact rfl
  · refine (huse conn).mono ?_
    rintro held r rfl
    exact ⟨rfl, fun _ => rfl⟩

theorem borrows_withConnectionFor {key : String} {use : Connection → Action X StoreError α}
    (huse : ∀ conn, (use conn).run.Keeps conn) :
    (withConnection (connectionFor key) use).run.Borrows := by
  refine ensures_withConnection.2 (ensures_connectionFor.2 ⟨trivial, ?_⟩)
  rintro (e | node)
  · exact rfl
  · exact ensures_withConnection.1 (@borrows_withConnection _ _ node _ huse)

end Action

open Latchkey.Action

/-! ## Locks -/

namespace Manager

variable (m : Manager) (ctx : Context) (lock key : String) (token : Token)
  (ttl wait started : Nat)

theorem refresh_borrows : (refresh (X := X) key token ttl).run.Borrows := by
  refine borrows_withConnectionFor fun conn => keeps_bind (keeps_send _) fun b => ?_
  cases b <;> exact keeps_pure _

theorem acquireSingle_borrows :
    (acquireSingle (X := X) key token ttl started).run.Borrows := by
  refine borrows_withConnectionFor fun conn => keeps_bind (keeps_send _) fun written => ?_
  cases written with
  | false => exact keeps_pure _
  | true =>
    refine keeps_bind keeps_clock fun (now : Nat) => ?_
    show Program.Keeps conn (ExceptT.run (if now - started ≥ ttl then _ else _))
    by_cases hlate : now - started ≥ ttl
    · rw [if_pos hlate]
      exact keeps_pure _
    · rw [if_neg hlate]
      exact keeps_pure _

theorem awaitReplicas_keeps (conn : Connection) (node : NodeId) :
    (awaitReplicas (X := X) conn node wait).run.Keeps conn := by
  refine keeps_bind ⟨trivial, fun _ => rfl⟩ fun (count : Nat) => ?_
  by_cases hnone : min count maxReplicaQuorum = 0
  · rw [if_pos hnone]
    exact keeps_pure _
  · rw [if_neg hnone]
    exact keeps_bind (keeps_send _) fun _ => keeps_pure _

theorem rollback_keeps (conn : Connection) : (rollback (X := X) conn key token).run.Keeps conn :=
  ⟨rfl, fun _ => rfl⟩

theorem acquireSharded_borrows :
    (acquireSharded (X := X) key token ttl wait).run.Borrows := by
  refine borrows_bind ⟨trivial, fun _ => rfl⟩ fun node => ?_
  refine borrows_withConnection fun conn => keeps_bind keeps_clock fun (since : Nat) => ?_
  refine keeps_bind (keeps_send _) fun written => ?_
  cases written with
  | false => exact keeps_pure _
  | true =>
    refine keeps_bind (keeps_lift (awaitReplicas_keeps wait conn node)) fun waited => ?_
    rcases waited with e | _
    · exact keeps_bind (rollback_keeps key token conn) fun _ => rfl
    · refine keeps_bind keeps_clock fun (now : Nat) => ?_
      show Program.Keeps conn (ExceptT.run (if now - since < ttl then _ else _))
      by_cases hin : now - since < ttl
      · rw [if_pos hin]
        exact keeps_pure _
      · rw [if_neg hin]
        exact keeps_bind (rollback_keeps key token conn) fun _ => keeps_pure _

/-- An acquired lock is recorded when the connection is given back already. -/
theorem record_borrows (outcome : AcquireOutcome) :
    (if outcome = .acquired then
        (Action.registry (X := X) m.id (.record ctx lock token) >>= fun _ => pure outcome)
      else pure outcome : Action X StoreError AcquireOutcome).run.Borrows := by
  by_cases hacquired : outcome = .acquired
  · rw [if_pos hacquired]
    exact ⟨trivial, fun _ => rfl⟩
  · rw [if_neg hacquired]
    exact rfl

theorem attempt_borrows : (m.attempt (X := X) ctx lock ttl wait started).run.Borrows := by
  refine borrows_bind ⟨trivial, fun _ => rfl⟩ fun (token? : Option Token) => ?_
  cases token? with
  | some token => exact refresh_borrows _ token ttl
  | none =>
    refine borrows_bind ⟨trivial, fun _ => rfl⟩ fun (token : Token) => ?_
    refine borrows_bind ⟨trivial, fun _ => rfl⟩ fun (d : Deployment) => ?_
    show Program.Borrows (ExceptT.run (if d.isSharded then _ else _))
    by_cases hd : d.isSharded
    · rw [if_pos hd]
      exact borrows_bind (acquireSharded_borrows _ token ttl wait) (m.record_borrows ctx lock token)
    · rw [if_neg hd]
      exact borrows_bind (acquireSingle_borrows _ token ttl started)
        (m.record_borrows ctx lock token)

theorem acquire_borrows : (m.acquire (X := X) ctx lock ttl wait).run.Borrows := by
  unfold acquire
  by_cases hzero : ttl = 0
  · rw [if_pos hzero]
    exact rfl
  · rw [if_neg hzero]
    refine borrows_bind ⟨trivial, fun _ => rfl⟩ fun (started : Nat) => ?_
    refine borrows_bind ⟨trivial, fun _ => rfl⟩ fun (closing : Bool) => ?_
    cases closing with
    | true => exact ⟨trivial, fun _ => rfl⟩
    | false =>
      have hattempt := m.attempt_borrows (X := X) ctx lock ttl (min wait ttl) started
      refine borrows_bind (ensures_lift.2 hattempt) fun result => ?_
      refine ⟨trivial, fun (ended : Nat) => ⟨trivial, fun _ => ?_⟩⟩
      cases result <;> exact rfl

theorem giveUp_keeps (conn : Connection) : (giveUp (X := X) conn key token).run.Keeps conn := by
  refine keeps_bind (keeps_send _) fun deleted => ?_
  cases deleted with
  | true => exact keeps_pure _
  | false =>
    refine keeps_bind (keeps_send _) fun present => ?_
    cases present <;> exact keeps_pure _

theorem releaseHeld_borrows : (m.releaseHeld (X := X) ctx lock token).run.Borrows := by
  refine borrows_withConnectionFor fun conn => keeps_bind (giveUp_keeps _ token conn) fun _ => ?_
  exact ⟨trivial, fun _ => ⟨trivial, fun _ => rfl⟩⟩

theorem release_borrows : (m.release (X := X) ctx lock).run.Borrows := by
  refine borrows_bind ⟨trivial, fun _ => rfl⟩ fun (token? : Option Token) => ?_
  cases token? with
  | none => exact ⟨trivial, fun _ => rfl⟩
  | some token => exact borrows_orFail (m.releaseHeld_borrows ctx lock token)

theorem releaseAbandoned_borrows : (releaseAbandoned (X := X) lock token).run.Borrows :=
  borrows_withConnectionFor fun _ => keeps_send _

end Manager

/-! ## Filters -/

namespace FilterPlan

variable (p : FilterPlan) (element : String)

theorem setBits_keeps (conn : Connection) (key : String) (offsets : List Nat) :
    (setBits (X := X) conn key offsets).run.Keeps conn := by
  induction offsets with
  | nil => exact keeps_pure _
  | cons offset rest ih => exact keeps_bind (keeps_send _) fun _ => ih

theorem allSet_keeps (conn : Connection) (key : String) (offsets : List Nat) :
    (allSet (X := X) conn key offsets).run.Keeps conn := by
  induction offsets with
  | nil => exact keeps_pure _
  | cons offset rest ih =>
    refine keeps_bind (keeps_send _) fun set => ?_
    cases set with
    | true => exact ih
    | false => exact keeps_pure _

theorem prepare_borrows : (p.prepare (X := X)).run.Borrows := by
  refine borrows_withConnectionFor fun conn => keeps_bind (keeps_send _) fun present => ?_
  cases present with
  | true => exact keeps_pure _
  | false =>
    refine keeps_bind (keeps_send _) fun _ => ?_
    cases p.expiration with
    | none => exact keeps_pure _
    | some ms =>
      show Program.Keeps conn (ExceptT.run (if 0 < ms then _ else _))
      by_cases hpos : 0 < ms
      · rw [if_pos hpos]
        exact keeps_bind (keeps_send _) fun _ => keeps_pure _
      · rw [if_neg hpos]
        exact keeps_pure _

theorem create_borrows (s : FilterSettings) : (create (X := X) s).run.Borrows := by
  unfold create
  cases ofSettings s with
  | error failure => exact rfl
  | ok p => exact borrows_bind (borrows_orFail p.prepare_borrows) fun _ => ⟨trivial, fun _ => rfl⟩

theorem add_borrows : (p.add (X := X) element).run.Borrows :=
  borrows_bind (borrows_orFail (borrows_withConnectionFor fun conn =>
    setBits_keeps conn p.name (p.offsets element))) fun _ => ⟨trivial, fun _ => rfl⟩

theorem test_borrows : (p.test (X := X) element).run.Borrows :=
  borrows_bind ⟨trivial, fun _ => rfl⟩ fun _ =>
    borrows_orFail (borrows_withConnectionFor fun conn =>
      allSet_keeps conn p.name (p.offsets element))

end FilterPlan

/-- Every operation gives back what it borrows, and borrows one connection at a time. -/
theorem Operation.borrows (o : Operation) : (o.program (X := X)).Borrows := by
  cases o with
  | acquire m ctx lock ttl wait => exact m.acquire_borrows ctx lock ttl wait
  | release m ctx lock => exact m.release_borrows ctx lock
  | dispose m ctx => exact ⟨trivial, fun _ => rfl⟩
  | clear guard token => exact Manager.releaseAbandoned_borrows guard.lock token
  | createFilter settings => exact FilterPlan.create_borrows settings
  | addElement plan element => exact plan.add_borrows element
  | testElement plan element => exact plan.test_borrows element

/-! ## Clients that leave connections to operations -/

/-- A client that neither borrows connections nor gives them back itself. -/
def Client.Abstains : Client X α → Prop
  | .done _ => True
  | .effect e next => ¬ e.Lends ∧ ∀ r, Abstains (next r)
  | .extended _ next => ∀ r, Abstains (next r)

namespace Client

variable {β ε : Type}

theorem Abstains.bind {c : Client X α} {f : α → Client X β} (hc : Abstains c)
    (hf : ∀ a, Abstains (f a)) : Abstains (c >>= f) := by
  induction c with
  | done a => exact hf a
  | effect e next ih => exact ⟨hc.1, fun r => ih r (hc.2 r)⟩
  | extended op next ih => exact fun r => ih r (hc r)

/-- A guarded section leaves connections to operations if its body does. -/
theorem abstains_runGuarded (m : Manager) (ctx : Context) (lock : String) (ttl : Nat)
    (throws : Bool) {body : Client X (Finish ε α)} (hb : Abstains body) :
    Abstains (runGuarded m ctx lock ttl throws body) := by
  intro r
  rcases r with failure | b
  · trivial
  · cases b with
    | false => trivial
    | true =>
      refine ⟨id, fun _ => hb.bind fun finish => ?_⟩
      exact fun _ => ⟨id, fun _ => trivial⟩

theorem abstains_acquireUntil (m : Manager) (ctx : Context) (lock : String)
    (ttl wait deadline attempts : Nat) :
    Abstains (X := X) (acquireUntil m ctx lock ttl wait deadline attempts) := by
  induction attempts with
  | zero => trivial
  | succ attempts ih =>
    intro r
    rcases r with failure | b
    · trivial
    · cases b with
      | true => trivial
      | false =>
        refine ⟨id, fun closing => ?_⟩
        cases closing with
        | true => trivial
        | false =>
          refine ⟨id, fun (now : Nat) => ?_⟩
          show Abstains (if now ≥ deadline then _ else _)
          by_cases hover : now ≥ deadline
          · rw [if_pos hover]
            trivial
          · rw [if_neg hover]
            exact ⟨id, fun _ => ih⟩

/-- An acquisition with retries leaves connections to its attempts. -/
theorem abstains_acquireWithRetry (m : Manager) (ctx : Context) (lock : String)
    (ttl wait budget : Nat) : Abstains (X := X) (acquireWithRetry m ctx lock ttl wait budget) := by
  unfold acquireWithRetry
  by_cases hceiling : budget > maxRetryBudget
  · rw [if_pos hceiling]
    trivial
  · rw [if_neg hceiling]
    exact ⟨id, fun now => abstains_acquireUntil m ctx lock ttl wait _ _⟩

end Client

end Latchkey
