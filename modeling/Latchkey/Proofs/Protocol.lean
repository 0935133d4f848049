import Latchkey.Proofs.Clients
import Latchkey.Proofs.Discipline

/-!
# The protocol of lock operations

What a lock operation may do depends on what it knows about a token: whether the registry of its
owner has it, whether it is fresh, whether it stands in the store and since when, and whether it
was seen there before its lifetime was over. These are the phases of an operation.

An operation writes only a token that it has minted itself, on the key of its own lock and only
where there is no value. It deletes or refreshes a key only with a token that it has read from the
registry or written itself, and it records a token only after the clock has shown that the lifetime
is not over. Once it knows that the lock is held it does nothing that could wait.

The main statement is `Operation.obeys`: all lock operations keep to this.
-/

namespace Latchkey

/-! ## Owners -/

/-- An owner of locks: a context of a manager. -/
structure Owner where
  /-- The manager. -/
  manager : ManagerId
  /-- The context. -/
  ctx : Context
  deriving Repr, DecidableEq

namespace Operation

/-- The owner for which an operation acts. -/
def owner? : Operation → Option Owner
  | .acquire m ctx .. => some ⟨m.id, ctx⟩
  | .release m ctx _ => some ⟨m.id, ctx⟩
  | .dispose m ctx => some ⟨m.id, ctx⟩
  | .clear guard _ => some ⟨guard.manager, guard.ctx⟩
  | _ => none

/-- The lock on which an operation acts. -/
def lock? : Operation → Option String
  | .acquire _ _ lock .. => some lock
  | .release _ _ lock => some lock
  | .clear guard _ => some guard.lock
  | _ => none

/-- The lifetime that an operation asks for. -/
def ttl : Operation → Nat
  | .acquire _ _ _ ttl _ => ttl
  | _ => 0

/-- Whether an operation acts for an owner on a lock. -/
def ActsFor (o : Operation) (p : Owner) (lock : String) : Prop :=
  o.owner? = some p ∧ o.lock? = some lock

/-- Whether an operation is one on locks. -/
def IsLock (o : Operation) : Prop := o.owner?.isSome

/-- Whether an operation gives up what its owner holds. -/
def IsRelease : Operation → Prop
  | .release .. => True
  | .clear .. => True
  | _ => False

theorem ActsFor.unique {o : Operation} {p p' : Owner} {lock lock' : String}
    (h : o.ActsFor p lock) (h' : o.ActsFor p' lock') : p = p' ∧ lock = lock' :=
  ⟨Option.some.inj (h.1.symm.trans h'.1), Option.some.inj (h.2.symm.trans h'.2)⟩

theorem ActsFor.isLock {o : Operation} {p : Owner} {lock : String} (h : o.ActsFor p lock) :
    o.IsLock := by
  simp [IsLock, h.1]

end Operation

/-! ## Phases -/

/-- What a lock operation knows. -/
inductive Phase where
  /-- Nothing but the last reading of the clock. -/
  | seeking (clock : Nat)
  /-- The registry has, or had, the token. -/
  | owning (token : Token)
  /-- The token is minted. -/
  | fresh (token : Token) (clock : Nat)
  /-- The token is minted, and the store is known to be sharded or not. -/
  | minted (token : Token) (clock : Nat) (sharded : Bool)
  /-- The token was written after the given time. -/
  | written (token : Token) (since : Nat) (sharded : Bool)
  /-- The token was written, and its lifetime may be over. -/
  | late (token : Token) (sharded : Bool)
  /-- The token was not written, or it was taken back. -/
  | void (token : Token)
  /-- The token was written and its lifetime is not over. -/
  | granted (token : Token)
  /-- The token is recorded and its lifetime is not over. -/
  | held (token : Token)
  deriving Repr, DecidableEq

namespace Phase

/-- The lock is held: nothing that could wait is done any more. -/
def IsFirm : Phase → Prop
  | .granted _ => True
  | .held _ => True
  | _ => False

/-- The phase after a reading of the clock, for a lifetime. -/
def afterClock (ttl now : Nat) : Phase → Phase
  | .seeking _ => .seeking now
  | .fresh token _ => .fresh token now
  | .minted token _ sharded => .minted token now sharded
  | .written token since sharded =>
    if now - since < ttl then .granted token else .late token sharded
  | s => s

@[simp] theorem afterClock_seeking (ttl now clock : Nat) :
    (Phase.seeking clock).afterClock ttl now = .seeking now := rfl

@[simp] theorem afterClock_minted (ttl now clock : Nat) (token : Token) (sharded : Bool) :
    (Phase.minted token clock sharded).afterClock ttl now = .minted token now sharded := rfl

theorem afterClock_inTime {ttl now since : Nat} (token : Token) (sharded : Bool)
    (h : now - since < ttl) :
    (Phase.written token since sharded).afterClock ttl now = .granted token :=
  if_pos h

theorem afterClock_late {ttl now since : Nat} (token : Token) (sharded : Bool)
    (h : ¬ now - since < ttl) :
    (Phase.written token since sharded).afterClock ttl now = .late token sharded :=
  if_neg h

/-- The phase after the deployment is known. -/
def afterDeployment (d : Deployment) : Phase → Phase
  | .fresh token clock => .minted token clock d.isSharded
  | s => s

/-- The phase after a token is minted. -/
def afterMint (token : Token) : Phase → Phase
  | .seeking clock => .fresh token clock
  | s => s

/-- The phase after a look at the registry. -/
def afterLook (token? : Option Token) (s : Phase) : Phase :=
  match token? with
  | some token => .owning token
  | none => s

/-- The phase after the token is recorded. -/
def afterRecord : Phase → Phase
  | .granted token => .held token
  | s => s

/-- The phase after an answer to the write of the token. -/
def afterWrite (r : Except StoreError Bool) : Phase → Phase
  | .minted token clock sharded =>
    match r with
    | .ok true => .written token clock sharded
    | _ => .void token
  | s => s

/-- The phase after an answer to the deletion of the key. -/
def afterDelete : Phase → Phase
  | .written token _ _ => .void token
  | .late token _ => .void token
  | s => s

/-- The phase after an answer to the refresh of the key. -/
def afterExpire (r : Except StoreError Bool) : Phase → Phase
  | .owning token =>
    match r with
    | .ok true => .held token
    | _ => .owning token
  | s => s

/-- Whether an acquisition may end in a phase, as one that holds the lock or not. A token may be
left in the store only by an acquisition that took too long on a store that is not sharded. -/
def Settles : Phase → Prop → Prop
  | .held _, success => success
  | .granted _, _ => False
  | .written .., _ => False
  | .late _ sharded, success => sharded = false ∧ ¬ success
  | _, success => ¬ success

/-- The last reading of the clock settles nothing new. -/
theorem Settles.afterClock {s : Phase} {success : Prop} (h : s.Settles success) (ttl now : Nat) :
    (s.afterClock ttl now).Settles success := by
  cases s with
  | written => exact h.elim
  | _ => exact h

end Phase

/-! ## The protocol -/

namespace Operation

/-- The effects that an operation may perform in a phase. -/
@[simp] def permits (o : Operation) (s : Phase) : Effect → Prop
  | .sleep _ => False
  | .arm _ => False
  | .disarm => False
  | .mint => (∃ p lock, o.ActsFor p lock) ∧ ∃ clock, s = .seeking clock
  | .registry m (.held ctx lock) => o.ActsFor ⟨m, ctx⟩ lock ∧ ∃ clock, s = .seeking clock
  | .registry m (.record ctx lock token) => o.ActsFor ⟨m, ctx⟩ lock ∧ s = .granted token
  | .registry m (.forget ctx lock) => o.ActsFor ⟨m, ctx⟩ lock
  | .registry m (.dispose ctx) => o.owner? = some ⟨m, ctx⟩
  | .call (.command _ (.set key token ttl onlyIfAbsent)) =>
    o.lock?.map lockKey = some key ∧ (∃ clock sharded, s = .minted token clock sharded) ∧
      ttl = o.ttl ∧ onlyIfAbsent = true
  | .call (.command _ (.compareAndDelete key token)) =>
    o.lock?.map lockKey = some key ∧
      (s = .owning token ∧ o.IsRelease ∨ (∃ since sharded, s = .written token since sharded) ∨
        ∃ sharded, s = .late token sharded)
  | .call (.command _ (.compareAndExpire key token ttl)) =>
    o.lock?.map lockKey = some key ∧ s = .owning token ∧ 0 < ttl
  | .call (.command _ (.setBit ..)) => False
  | .call (.command _ (.expire ..)) => False
  | .call _ => ¬ s.IsFirm
  | _ => True

/-- The phase of an operation after an exchange. -/
@[simp] def next (o : Operation) (s : Phase) : Exchange → Phase
  | ⟨.clock, now⟩ => s.afterClock o.ttl now
  | ⟨.deployment, d⟩ => s.afterDeployment d
  | ⟨.mint, token⟩ => s.afterMint token
  | ⟨.registry _ (.held _ _), token?⟩ => s.afterLook token?
  | ⟨.registry _ (.record _ _ _), _⟩ => s.afterRecord
  | ⟨.call (.command _ (.set _ _ _ _)), r⟩ => s.afterWrite r
  | ⟨.call (.command _ (.compareAndDelete _ _)), _⟩ => s.afterDelete
  | ⟨.call (.command _ (.compareAndExpire _ _ _)), r⟩ => s.afterExpire r
  | _ => s

/-- The protocol of an operation. -/
def protocol (o : Operation) : Discipline Phase := ⟨o.permits, o.next⟩

/-- The phase in which an operation begins. -/
def start : Operation → Phase
  | .clear _ token => .owning token
  | _ => .seeking 0

/-- Whether an operation may end in a phase with an answer. -/
def Settles : (o : Operation) → Phase → o.Answer → Prop
  | .acquire .., s, r => s.Settles (r = .ok true)
  | _, _, _ => True

/-- What an operation knows after some exchanges. -/
def phase (o : Operation) (log : List Exchange) : Phase := o.protocol.run o.start log

@[simp] theorem phase_nil (o : Operation) : o.phase [] = o.start := rfl

@[simp] theorem phase_concat (o : Operation) (log : List Exchange) (x : Exchange) :
    o.phase (log ++ [x]) = o.next (o.phase log) x :=
  Discipline.run_concat ..

@[simp] theorem protocol_permits (o : Operation) : o.protocol.permits = o.permits := rfl

@[simp] theorem protocol_next (o : Operation) : o.protocol.next = o.next := rfl

end Operation

/-! ## Acquisitions -/

/-- The phase after an attempt to write a token, with what came of it. -/
def Phase.Attempted (token : Token) : Phase → Except StoreError AcquireOutcome → Prop
  | s, .ok .acquired => s = .granted token
  | _, .ok .refreshed => False
  | s, _ => s.Settles False

namespace Manager

variable {X : Extension} (m : Manager) (ctx : Context) (lock : String) (ttl wait limit : Nat)

/-- A refresh is successful if the key still has the token. -/
theorem refresh_obeys (token : Token) (hpos : 0 < ttl) :
    (refresh (X := X) (lockKey lock) token ttl).run.Obeys
      (Operation.acquire m ctx lock ttl wait).protocol (.owning token)
      fun s r => s.Settles (r.map AcquireOutcome.isHeld = .ok true) := by
  simp [refresh, Phase.IsFirm, Operation.lock?, forall_except, Phase.Settles, Phase.afterExpire,
    AcquireOutcome.isHeld, Except.map, hpos]

/-- A token on a store that is not sharded is granted only if the clock shows that its lifetime is
not over. -/
theorem acquireSingle_obeys (token : Token) (started : Nat) :
    (acquireSingle (X := X) (lockKey lock) token ttl started).run.Obeys
      (Operation.acquire m ctx lock ttl wait).protocol (.minted token started false)
      fun s r => s.Attempted token r := by
  simp only [acquireSingle, ge_iff_le, Action.ensures_withConnection,
    Discipline.interpretation_before, Operation.protocol_permits, Operation.permits,
    Operation.protocol_next, Operation.next, forall_const, true_and, Action.ensures_bind,
    Action.ensures_send, Operation.lock?, Option.map_some, Bool.exists_bool, Operation.ttl,
    and_self, and_true, ExceptT.stM_eq, Phase.afterWrite, forall_except, Action.thenOk_error,
    Action.thenOk_ok, Bool.forall_bool, Bool.false_eq_true, ↓reduceIte, ExceptT.run_pure,
    Program.ensures_pure, Action.ensures_perform, Action.ensures_connectionFor, Phase.IsFirm,
    not_false_eq_true, Phase.minted.injEq, and_false, or_false, exists_eq']
  refine ⟨fun _ => by simp [Phase.Attempted, Phase.Settles], fun node =>
    ⟨fun _ => by simp [Phase.Attempted, Phase.Settles], fun conn =>
      ⟨fun _ => by simp [Phase.Attempted, Phase.Settles], by simp [Phase.Attempted, Phase.Settles],
        fun (now : Nat) => ?_⟩⟩⟩
  by_cases h : now - started < ttl
  · rw [Phase.afterClock_inTime token false h, if_neg (Nat.not_le.2 h)]
    rfl
  · rw [Phase.afterClock_late token false h, if_pos (Nat.not_lt.1 h)]
    exact ⟨rfl, not_false⟩

theorem awaitReplicas_obeys (conn : Connection) (node : NodeId) (token : Token) (since : Nat) :
    (awaitReplicas (X := X) conn node limit).run.Obeys
      (Operation.acquire m ctx lock ttl wait).protocol (.written token since true)
      fun s _ => s = .written token since true := by
  simp only [awaitReplicas, Nat.min_eq_zero_iff, bind_pure_comp, Action.ensures_bind,
    Action.ensures_call, Discipline.interpretation_before, Operation.protocol_permits,
    Operation.permits, Phase.IsFirm, not_false_eq_true, ExceptT.stM_eq, Operation.protocol_next,
    Operation.next, forall_except, Action.thenOk_error, implies_true, Action.thenOk_ok, true_and]
  intro n
  split <;> simp [Phase.IsFirm]

/-- A token taken back is void, whatever the store answers. -/
theorem rollback_obeys {s : Phase} (conn : Connection) (token : Token)
    (hs : (∃ since sharded, s = .written token since sharded) ∨
      ∃ sharded, s = .late token sharded) :
    (rollback (X := X) conn (lockKey lock) token).run.Obeys
      (Operation.acquire m ctx lock ttl wait).protocol s
      fun s' r => s' = .void token ∧ r = .ok () := by
  rcases hs with ⟨since, sharded, rfl⟩ | ⟨sharded, rfl⟩
  · simp [rollback, Operation.lock?, Phase.afterDelete]
  · simp [rollback, Operation.lock?, Phase.afterDelete]

/-- A token on a sharded store is granted only if the clock shows, after the wait for replicas, that
its lifetime is not over; else it is taken back. -/
theorem acquireSharded_obeys (token : Token) (clock : Nat) :
    (acquireSharded (X := X) (lockKey lock) token ttl limit).run.Obeys
      (Operation.acquire m ctx lock ttl wait).protocol (.minted token clock true)
      fun s r => s.Attempted token r := by
  simp only [acquireSharded, bind_pure_comp, Action.ensures_bind, Action.ensures_withConnection,
    Discipline.interpretation_before, Operation.protocol_permits, Operation.permits,
    Operation.protocol_next, Operation.next, forall_const, true_and, Action.ensures_send,
    Operation.lock?, Option.map_some, Bool.exists_bool, Operation.ttl, and_self, and_true,
    ExceptT.stM_eq, Phase.afterWrite, forall_except, Action.thenOk_error, Action.thenOk_ok,
    Bool.forall_bool, Bool.false_eq_true, ↓reduceIte, ExceptT.run_pure, Program.ensures_pure,
    ExceptT.run_bind_lift, Program.ensures_bind, Action.ensures_perform, Action.ensures_call,
    Phase.IsFirm, not_false_eq_true, Phase.afterClock_minted, Phase.minted.injEq,
    Bool.true_eq_false, and_false, false_or, exists_eq']
  refine ⟨fun _ => by simp [Phase.Attempted, Phase.Settles], fun node =>
    ⟨fun _ => by simp [Phase.Attempted, Phase.Settles], fun conn (since : Nat) =>
      ⟨fun _ => by simp [Phase.Attempted, Phase.Settles], by simp [Phase.Attempted, Phase.Settles],
        ?_⟩⟩⟩
  refine (awaitReplicas_obeys m ctx lock ttl wait limit conn node token since).mono ?_
  rintro s r rfl
  cases r with
  | error e =>
    -- the wait has failed: the token is taken back, and the error goes on
    simp only [Action.ensures_bind]
    refine (rollback_obeys m ctx lock ttl wait conn token (.inl ⟨since, true, rfl⟩)).mono ?_
    rintro s r ⟨rfl, rfl⟩
    simp [Phase.Attempted, Phase.Settles]
  | ok _ =>
    simp only [Action.ensures_bind, Action.ensures_perform, Action.thenOk_ok,
      Discipline.interpretation_before, Operation.protocol_permits, Operation.permits,
      Operation.protocol_next, Operation.next, Operation.ttl, true_and]
    intro (now : Nat)
    by_cases h : now - since < ttl
    · rw [Phase.afterClock_inTime token true h, if_pos h]
      rfl
    · rw [Phase.afterClock_late token true h, if_neg h]
      simp only [ExceptT.run_map, Program.ensures_map]
      refine (rollback_obeys m ctx lock ttl wait conn token (.inr ⟨true, rfl⟩)).mono ?_
      rintro s r ⟨rfl, rfl⟩
      exact not_false

/-- The token of a lock that was acquired is recorded. -/
theorem record_obeys {token : Token} {s : Phase} {r : Except StoreError AcquireOutcome}
    (h : s.Attempted token r) :
    Action.thenOk (fun s r => s.Settles (r.map AcquireOutcome.isHeld = .ok true))
      (fun s outcome =>
        (if outcome = .acquired then
            (fun _ => outcome) <$> Action.registry (X := X) m.id (.record ctx lock token)
          else pure outcome : Action X StoreError AcquireOutcome).run.Obeys
          (Operation.acquire m ctx lock ttl wait).protocol s
          fun s r => s.Settles (r.map AcquireOutcome.isHeld = .ok true)) s r := by
  rcases r with e | outcome
  · simpa [Phase.Attempted, Except.map] using h
  · cases outcome with
    | acquired =>
      obtain rfl : s = .granted token := h
      simp [Operation.ActsFor, Operation.owner?, Operation.lock?, Phase.afterRecord,
        Phase.Settles, Except.map, AcquireOutcome.isHeld]
    | refreshed => exact h.elim
    | _ => simpa [Phase.Attempted, Except.map, AcquireOutcome.isHeld] using h

/-- An attempt ends with a held lock or without one, and a token that was written is not left behind
on a sharded store. -/
theorem attempt_obeys (started : Nat) (hpos : 0 < ttl) :
    (m.attempt (X := X) ctx lock ttl limit started).run.Obeys
      (Operation.acquire m ctx lock ttl wait).protocol (.seeking started)
      fun s r => s.Settles (r.map AcquireOutcome.isHeld = .ok true) := by
  simp only [attempt, bind_pure_comp, Action.ensures_bind, Action.ensures_registry,
    Action.thenOk_ok, Discipline.interpretation_before, Operation.protocol_permits,
    Operation.permits, Operation.ActsFor, Operation.owner?, Operation.lock?, and_self,
    Phase.seeking.injEq, exists_eq', Operation.protocol_next, Operation.next, true_and]
  intro (token? : Option Token)
  rcases token? with _ | token
  · simp only [Phase.afterLook, Action.ensures_bind, Action.ensures_perform, Action.thenOk_ok,
      Discipline.interpretation_before, Operation.protocol_permits, Operation.permits,
      Operation.protocol_next, Operation.next, Phase.afterDeployment, true_and, Operation.ActsFor,
      Operation.owner?, Option.some.injEq, Operation.lock?, exists_and_left, exists_eq', and_true,
      Phase.seeking.injEq, and_self, Phase.afterMint]
    intro (token : Token) (d : Deployment)
    cases hd : d.isSharded with
    | true =>
      rw [if_pos rfl, Action.ensures_bind]
      exact (acquireSharded_obeys m ctx lock ttl wait limit token started).mono
        fun _ _ => record_obeys m ctx lock ttl wait
    | false =>
      rw [if_neg (by decide), Action.ensures_bind]
      exact (acquireSingle_obeys m ctx lock ttl wait token started).mono
        fun _ _ => record_obeys m ctx lock ttl wait
  · exact refresh_obeys m ctx lock ttl wait token hpos

/-- Acquisitions keep to the protocol. -/
theorem acquire_obeys :
    (m.acquire (X := X) ctx lock ttl wait).run.Obeys
      (Operation.acquire m ctx lock ttl wait).protocol (.seeking 0)
      fun s r => s.Settles (r = .ok true) := by
  unfold acquire
  split
  · simp [Phase.Settles]
  · next hne =>
    have hpos : 0 < ttl := Nat.pos_of_ne_zero hne
    simp only [bind_pure_comp, Action.ensures_bind, Action.ensures_perform, Action.thenOk_ok,
      Discipline.interpretation_before, Operation.protocol_permits, Operation.permits,
      Operation.protocol_next, Operation.next, Bool.forall_bool, Bool.false_eq_true, ↓reduceIte,
      ExceptT.run_bind_lift, Program.ensures_bind, forall_const, true_and, ExceptT.run_map,
      Program.ensures_map, Phase.afterClock_seeking]
    intro (started : Nat)
    refine ⟨?_, fun _ => by simp [Phase.Settles, Except.map]⟩
    refine (attempt_obeys m ctx lock ttl wait (min wait ttl) started hpos).mono fun s r h => ?_
    intro (ended : Nat)
    have h := h.afterClock (Operation.acquire m ctx lock ttl wait).ttl ended
    rcases r with e | outcome
    · simpa [Except.map] using h
    · simpa [Except.map] using h

end Manager

/-! ## Releases -/

namespace Manager

variable {X : Extension}

theorem releaseHeld_obeys (m : Manager) (ctx : Context) (lock : String) (token : Token) :
    (m.releaseHeld (X := X) ctx lock token).run.Obeys (Operation.release m ctx lock).protocol
      (.owning token) fun _ _ => True := by
  simp [releaseHeld, giveUp, Operation.IsRelease, Operation.ActsFor, Operation.owner?,
    Operation.lock?, Phase.IsFirm, Phase.afterDelete, forall_except]

theorem release_obeys (m : Manager) (ctx : Context) (lock : String) :
    (m.release (X := X) ctx lock).run.Obeys (Operation.release m ctx lock).protocol (.seeking 0)
      fun _ _ => True := by
  simp only [release, bind_pure_comp, Action.ensures_bind, Action.ensures_registry,
    Action.thenOk_ok, Discipline.interpretation_before, Operation.protocol_permits,
    Operation.permits, Operation.ActsFor, Operation.owner?, Operation.lock?, and_self,
    Phase.seeking.injEq, exists_eq', Operation.protocol_next, Operation.next, true_and]
  intro (token? : Option Token)
  rcases token? with _ | token
  · simp
  · exact Action.ensures_orFail.2 (releaseHeld_obeys m ctx lock token)

theorem releaseAbandoned_obeys (guard : Guard) (token : Token) :
    (releaseAbandoned (X := X) guard.lock token).run.Obeys
      (Operation.clear guard token).protocol (.owning token) fun _ _ => True := by
  simp [releaseAbandoned, Operation.IsRelease, Operation.lock?, Phase.IsFirm, forall_except]

end Manager

/-- Every operation on locks keeps to the protocol. -/
theorem Operation.obeys {X : Extension} (o : Operation) (ho : o.IsLock) :
    (o.program (X := X)).Obeys o.protocol o.start o.Settles := by
  cases o with
  | acquire m ctx lock ttl wait => exact m.acquire_obeys ctx lock ttl wait
  | release m ctx lock => exact m.release_obeys ctx lock
  | dispose m ctx =>
    refine ⟨rfl, fun _ => trivial⟩
  | clear guard token => exact Manager.releaseAbandoned_obeys guard token
  | createFilter settings => cases ho
  | addElement plan element => cases ho
  | testElement plan element => cases ho

/-! ## Minted tokens -/

/-- The token that the operation minted. -/
def Phase.minted? : Phase → Option Token
  | .seeking _ => none
  | .owning _ => none
  | .fresh token _ => some token
  | .minted token _ _ => some token
  | .written token _ _ => some token
  | .late token _ => some token
  | .void token => some token
  | .granted token => some token
  | .held token => some token

namespace Operation

variable {o : Operation} {s : Phase} {token : Token}

/-- A minted token is never exchanged for another one. -/
theorem minted?_next {x : Exchange} (hp : o.permits s x.effect) (hs : s.minted? = some token) :
    (o.next s x).minted? = some token := by
  obtain ⟨e, r⟩ := x
  cases e with
  | clock =>
    cases s with
    | written token since sharded =>
      show (ite _ _ _ : Phase).minted? = _
      split <;> exact hs
    | _ => exact hs
  | deployment => cases s <;> exact hs
  | mint =>
    obtain ⟨-, clock, rfl⟩ := hp
    cases hs
  | registry m a =>
    cases a with
    | held ctx lock =>
      obtain ⟨-, clock, rfl⟩ := hp
      cases hs
    | record ctx lock token =>
      obtain ⟨-, rfl⟩ := hp
      exact hs
    | _ => exact hs
  | call c =>
    cases c with
    | command conn cmd =>
      cases cmd with
      | set key token ttl onlyIfAbsent =>
        obtain ⟨-, ⟨clock, sharded, rfl⟩, -⟩ := hp
        rcases r with e | b
        · exact hs
        · cases b <;> exact hs
      | compareAndDelete key token => cases s <;> exact hs
      | compareAndExpire key token ttl =>
        obtain ⟨-, rfl, -⟩ := hp
        cases hs
      | _ => exact hs
    | _ => exact hs
  | _ => exact hs

/-- An operation that has minted a token knows it from then on. -/
theorem minted?_phase {X : Extension} {p : Program X o.Answer} {log : List Exchange}
    (ho : o.IsLock) (h : (o.program (X := X)).After log p)
    (hmint : (⟨.mint, token⟩ : Exchange) ∈ log) : (o.phase log).minted? = some token := by
  induction h with
  | start => cases hmint
  | @effect log e next h r ih =>
    have hp : o.permits (o.phase log) e := (o.obeys ho).permits h
    rw [phase_concat]
    rcases List.mem_append.1 hmint with hmem | hmem
    · exact minted?_next hp (ih hmem)
    · cases List.mem_singleton.1 hmem
      obtain ⟨-, clock, hclock⟩ := hp
      rw [hclock]
      rfl
  | extended h r ih => exact ih hmint

end Operation

end Latchkey
