import Latchkey.Proofs.Deeds

/-!
# How registries are used

Who holds a lock changes only when an operation of the owner writes to its registry. An acquisition
records and does not forget. A release forgets, and only after the store has answered the deletion
of the token that the registry had. The deletion that follows a dropped section leaves the registry
alone.

The main statements are `Deed.heldBy_eq` and `Operation.conducts`.
-/

namespace Latchkey

/-! ## What changes an entry -/

/-- Whether an effect writes the entry of an owner for a lock. -/
def Effect.Writes (p : Owner) (lock : String) : Effect → Prop
  | .registry m (.record ctx lock' _) => (⟨m, ctx⟩ : Owner) = p ∧ lock' = lock
  | .registry m (.forget ctx lock') => (⟨m, ctx⟩ : Owner) = p ∧ lock' = lock
  | .registry m (.dispose ctx) => (⟨m, ctx⟩ : Owner) = p
  | _ => False

/-- An entry is kept by deeds that do not write it. -/
theorem Deed.heldBy_eq {w w' : World} {o : Operation} {s s' : Phase} {x : Exchange} {p : Owner}
    {lock : String} (h : Deed w o s x w' s') (hx : ¬ x.effect.Writes p lock) :
    w'.heldBy p lock = w.heldBy p lock := by
  cases h with
  | @record q lock' ho token =>
    refine (Ledger.heldBy_recordFor ..).trans (if_neg ?_)
    rintro ⟨rfl, rfl⟩
    exact hx ⟨rfl, rfl⟩
  | @forget q lock' ho s =>
    refine (Ledger.heldBy_forgetFor ..).trans (if_neg ?_)
    rintro ⟨rfl, rfl⟩
    exact hx ⟨rfl, rfl⟩
  | @dispose q ho s =>
    refine (Ledger.heldBy_disposeFor ..).trans (if_neg ?_)
    rintro rfl
    exact hx rfl
  | other ha hplain =>
    simp only [Ledger.heldBy, Ledger.registry, ha.registries]
  | _ => rfl

/-! ## The discipline -/

/-- How far an operation has come that gives a lock up. -/
inductive Surrender where
  /-- It does not know what the registry has. -/
  | unknown
  /-- The registry has the token. -/
  | found (token : Token)
  /-- The store has answered the deletion of the token. -/
  | deleted (token : Token)
  /-- The registry has no token. -/
  | settled

namespace Operation

/-- Whether an operation is an acquisition. -/
def IsAcquire : Operation → Prop
  | .acquire .. => True
  | _ => False

/-- Which effects on registries, tokens and keys an operation may perform. -/
@[simp] def mayPerform (o : Operation) (s : Surrender) : Effect → Prop
  | .mint => o.IsAcquire
  | .registry m (.held ctx lock) => o.ActsFor ⟨m, ctx⟩ lock
  | .registry m (.record ctx lock _) => o.IsAcquire ∧ o.ActsFor ⟨m, ctx⟩ lock
  | .registry m (.forget ctx lock) =>
    (∃ m', o = .release m' ctx lock ∧ m'.id = m) ∧ ∃ token, s = .deleted token
  | .registry m (.dispose ctx) => ∃ m', o = .dispose m' ctx ∧ m'.id = m
  | .call (.command _ (.set ..)) => o.IsAcquire
  | .call (.command _ (.compareAndDelete key token)) =>
    o.IsRelease → o.lock?.map lockKey = some key ∧ s = .found token
  | .call (.command _ (.compareAndExpire ..)) => o.IsAcquire
  | _ => True

/-- How far an operation has come after an exchange. -/
@[simp] def comesTo (s : Surrender) : Exchange → Surrender
  | ⟨.registry _ (.held _ _), some token⟩ => .found token
  | ⟨.registry _ (.held _ _), none⟩ => .settled
  | ⟨.registry _ (.forget _ _), _⟩ => .settled
  | ⟨.call (.command _ (.compareAndDelete _ token)), .ok _⟩ => .deleted token
  | _ => s

/-- How an operation uses registries, and deletes keys. -/
def conduct (o : Operation) : Discipline Surrender := ⟨o.mayPerform, comesTo⟩

@[simp] theorem conduct_permits (o : Operation) : o.conduct.permits = o.mayPerform := rfl

@[simp] theorem conduct_next (o : Operation) : o.conduct.next = comesTo := rfl

/-- How far an operation has come when it begins. -/
def outset : Operation → Surrender
  | .clear _ token => .found token
  | _ => .unknown

/-- What an operation that gives a lock up has come to when it ends well. -/
def Concludes : (o : Operation) → Surrender → o.Answer → Prop
  | .release .., s, r => r.toOption.isSome → s = .settled
  | .clear _ token, s, r => r.toOption.isSome → s = .deleted token
  | _, _, _ => True

/-- How far an operation has come after some exchanges. -/
def surrender (o : Operation) (log : List Exchange) : Surrender := o.conduct.run o.outset log

@[simp] theorem surrender_nil (o : Operation) : o.surrender [] = o.outset := rfl

@[simp] theorem surrender_concat (o : Operation) (log : List Exchange) (x : Exchange) :
    o.surrender (log ++ [x]) = comesTo (o.surrender log) x :=
  Discipline.run_concat ..

end Operation

namespace Manager

variable {X : Extension} (m : Manager) (ctx : Context) (lock : String) (ttl wait : Nat)

theorem awaitReplicas_conducts {o : Operation} (conn : Connection) (node : NodeId) (limit : Nat)
    (s : Surrender) :
    (awaitReplicas (X := X) conn node limit).run.Obeys o.conduct s fun _ _ => True := by
  unfold awaitReplicas
  simp only [Action.ensures_bind, Action.ensures_call, Discipline.interpretation_before,
    Operation.conduct_permits, Operation.mayPerform, forall_except, Action.thenOk_ok,
    Action.thenOk_error, implies_true, true_and]
  intro (n : Nat)
  split <;> simp

theorem acquireSharded_conducts (key : String) (token : Token) (limit : Nat) (s : Surrender) :
    (acquireSharded (X := X) key token ttl limit).run.Obeys
      (Operation.acquire m ctx lock ttl wait).conduct s fun _ _ => True := by
  simp only [acquireSharded, bind_pure_comp, Action.ensures_bind, Action.ensures_withConnection,
    Discipline.interpretation_before, Operation.conduct_permits, Operation.mayPerform,
    Operation.conduct_next, forall_except, Action.thenOk_error, Action.thenOk_ok,
    Action.ensures_call, Action.ensures_send, Action.ensures_perform, Operation.IsAcquire,
    implies_true, true_and, Bool.forall_bool, Bool.false_eq_true, ↓reduceIte,
    Program.ensures_pure, ExceptT.run_pure, Action.ensures_lift, ExceptT.stM_eq]
  intro node conn since
  refine (awaitReplicas_conducts conn node limit _).mono fun s' r _ => ?_
  cases r with
  | error e => simp [rollback, Operation.IsRelease]
  | ok _ =>
    simp only [Action.ensures_bind, Action.ensures_perform]
    refine ⟨trivial, fun (now : Nat) => ?_⟩
    show Program.Ensures _ _ (ExceptT.run (if now - since < ttl then _ else _)) _
    split <;> simp [rollback, Operation.IsRelease]

theorem acquireSingle_conducts (key : String) (token : Token) (started : Nat) (s : Surrender) :
    (acquireSingle (X := X) key token ttl started).run.Obeys
      (Operation.acquire m ctx lock ttl wait).conduct s fun _ _ => True := by
  simp only [acquireSingle, Action.ensures_bind, Action.ensures_withConnection,
    Action.ensures_connectionFor, Discipline.interpretation_before, Operation.conduct_permits,
    Operation.mayPerform, forall_except, Action.thenOk_error, Action.thenOk_ok,
    Action.ensures_send, Action.ensures_perform, Operation.IsAcquire, implies_true, true_and,
    Bool.forall_bool, Bool.false_eq_true, ↓reduceIte, Program.ensures_pure, ExceptT.run_pure,
    ExceptT.stM_eq]
  intro node conn (now : Nat)
  split <;> simp

theorem attempt_conducts (limit started : Nat) (s : Surrender) :
    (m.attempt (X := X) ctx lock ttl limit started).run.Obeys
      (Operation.acquire m ctx lock ttl wait).conduct s fun _ _ => True := by
  have hrecord : ∀ (token : Token) (s : Surrender) (r : Except StoreError AcquireOutcome),
      Action.thenOk (fun _ (_ : Except StoreError AcquireOutcome) => True) (fun s outcome =>
        (if outcome = .acquired then
            (fun _ => outcome) <$> Action.registry (X := X) m.id (.record ctx lock token)
          else pure outcome : Action X StoreError AcquireOutcome).run.Obeys
          (Operation.acquire m ctx lock ttl wait).conduct s fun _ _ => True) s r := by
    intro token s r
    rcases r with e | outcome
    · trivial
    · rw [Action.thenOk_ok]
      split <;> simp [Operation.IsAcquire, Operation.ActsFor, Operation.owner?, Operation.lock?]
  simp only [attempt, bind_pure_comp, Action.ensures_bind, Action.ensures_registry,
    Action.thenOk_ok, Discipline.interpretation_before, Operation.conduct_permits,
    Operation.mayPerform, Operation.ActsFor, Operation.owner?, Operation.lock?, and_self, true_and]
  intro (token? : Option Token)
  rcases token? with _ | token
  · simp only [Action.ensures_bind, Action.ensures_perform, Action.thenOk_ok,
      Discipline.interpretation_before, Operation.conduct_permits, Operation.mayPerform,
      Operation.IsAcquire, true_and]
    intro (token : Token) (d : Deployment)
    split
    · rw [Action.ensures_bind]
      exact (acquireSharded_conducts m ctx lock ttl wait _ _ _ _).mono fun _ _ _ => hrecord ..
    · rw [Action.ensures_bind]
      exact (acquireSingle_conducts m ctx lock ttl wait _ _ _ _).mono fun _ _ _ => hrecord ..
  · simp [refresh, forall_except, Operation.IsAcquire]

theorem acquire_conducts :
    (m.acquire (X := X) ctx lock ttl wait).run.Obeys
      (Operation.acquire m ctx lock ttl wait).conduct .unknown fun _ _ => True := by
  unfold acquire
  split
  · trivial
  · simp only [bind_pure_comp, Action.ensures_bind, Action.ensures_perform, Action.thenOk_ok,
      Discipline.interpretation_before, Operation.conduct_permits, Operation.mayPerform,
      Bool.forall_bool, Bool.false_eq_true, ↓reduceIte, ExceptT.run_bind_lift,
      Program.ensures_bind, true_and, ExceptT.run_map, Program.ensures_map, implies_true, and_true]
    intro (started : Nat)
    refine (attempt_conducts m ctx lock ttl wait (min wait ttl) started _).mono fun s r _ => ?_
    intro (ended : Nat)
    rcases r with e | outcome <;> simp

/-- A release forgets a lock only after the deletion of its key was answered. -/
theorem release_conducts :
    (m.release (X := X) ctx lock).run.Obeys (Operation.release m ctx lock).conduct .unknown
      (Operation.release m ctx lock).Concludes := by
  simp only [release, bind_pure_comp, Action.ensures_bind, Action.ensures_registry,
    Action.thenOk_ok, Discipline.interpretation_before, Operation.conduct_permits,
    Operation.mayPerform, Operation.ActsFor, Operation.owner?, Operation.lock?, and_self, true_and]
  intro (token? : Option Token)
  rcases token? with _ | token
  · simp [Operation.Concludes]
  · simp [releaseHeld, giveUp, forall_except, Operation.Concludes, Operation.lock?,
      Except.toOption]

theorem releaseAbandoned_conducts (guard : Guard) (token : Token) :
    (releaseAbandoned (X := X) guard.lock token).run.Obeys (Operation.clear guard token).conduct
      (.found token) (Operation.clear guard token).Concludes := by
  simp [releaseAbandoned, Operation.IsRelease, Operation.lock?, forall_except, Operation.Concludes,
    Except.toOption]

end Manager

/-- Every operation on locks uses registries as described. -/
theorem Operation.conducts {X : Extension} (o : Operation) (ho : o.IsLock) :
    (o.program (X := X)).Obeys o.conduct o.outset o.Concludes := by
  cases o with
  | acquire m ctx lock ttl wait => exact m.acquire_conducts ctx lock ttl wait
  | release m ctx lock => exact m.release_conducts ctx lock
  | dispose m ctx => exact ⟨⟨m, rfl, rfl⟩, fun _ => trivial⟩
  | clear guard token => exact Manager.releaseAbandoned_conducts guard token
  | createFilter settings => cases ho
  | addElement plan element => cases ho
  | testElement plan element => cases ho

end Latchkey
