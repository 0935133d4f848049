import Latchkey.Proofs.ShardedAcquire

/-!
# What a release does

A release looks the token up, asks the store to delete the key if it has this token, and looks
whether the key has another value if it was not deleted. Only when the store has answered all this
is the lock forgotten, and after that the connection is given back. If a call fails the release ends
there, and the registry is left alone.

The main statements are `Manager.release_after` and `Manager.release_forgets`.
-/

namespace Latchkey

variable {X : Extension}

/-! ## The exchanges -/

/-- The exchanges that give up a key with a token, and what came of it. If a call fails the
connection is given back, and else it is kept. -/
inductive GivesUp (key : String) (token : Token) :
    List Exchange → Except StoreError ReleaseOutcome → Prop where
  /-- The node could not be looked up. -/
  | unrouted (e : StoreError) :
      GivesUp key token [⟨.call (.nodeOwning key), .error e⟩] (.error e)
  /-- No connection was lent. -/
  | unconnected (node : NodeId) (e : StoreError) :
      GivesUp key token
        [⟨.call (.nodeOwning key), .ok node⟩, ⟨.call (.connect node), .error e⟩] (.error e)
  /-- The deletion failed. -/
  | undeleted (node : NodeId) (conn : Connection) (e : StoreError) :
      GivesUp key token
        [⟨.call (.nodeOwning key), .ok node⟩, ⟨.call (.connect node), .ok conn⟩,
          ⟨.call (.command conn (.compareAndDelete key token)), .error e⟩, ⟨.release conn, ()⟩]
        (.error e)
  /-- The key was deleted. -/
  | deleted (node : NodeId) (conn : Connection) :
      GivesUp key token
        [⟨.call (.nodeOwning key), .ok node⟩, ⟨.call (.connect node), .ok conn⟩,
          ⟨.call (.command conn (.compareAndDelete key token)), .ok true⟩]
        (.ok .released)
  /-- The key was not deleted, and one could not see whether it has a value. -/
  | unseen (node : NodeId) (conn : Connection) (e : StoreError) :
      GivesUp key token
        [⟨.call (.nodeOwning key), .ok node⟩, ⟨.call (.connect node), .ok conn⟩,
          ⟨.call (.command conn (.compareAndDelete key token)), .ok false⟩,
          ⟨.call (.command conn (.present key)), .error e⟩, ⟨.release conn, ()⟩]
        (.error e)
  /-- The key was not deleted, as it has another value or none. -/
  | seen (node : NodeId) (conn : Connection) (b : Bool) :
      GivesUp key token
        [⟨.call (.nodeOwning key), .ok node⟩, ⟨.call (.connect node), .ok conn⟩,
          ⟨.call (.command conn (.compareAndDelete key token)), .ok false⟩,
          ⟨.call (.command conn (.present key)), .ok b⟩]
        (.ok (if b then .ownerMismatch else .expired))

/-- The exchanges of a release that has ended, and its answer. -/
inductive ReleaseCall (m : Manager) (ctx : Context) (lock : String) :
    List Exchange → Except Failure Bool → Prop where
  /-- The context did not hold the lock. -/
  | notHeld :
      ReleaseCall m ctx lock
        [⟨.registry m.id (.held ctx lock), none⟩, ⟨.count (.release .notHeld), ()⟩] (.ok false)
  /-- A call failed. -/
  | failed {token : Token} {part : List Exchange} {e : StoreError}
      (h : GivesUp (lockKey lock) token part (.error e)) :
      ReleaseCall m ctx lock (⟨.registry m.id (.held ctx lock), some token⟩ :: part)
        (.error (Failure.ofStore e))
  /-- The lock was forgotten, and the connection that was lent for it was given back. -/
  | ended {token : Token} {part : List Exchange} {outcome : ReleaseOutcome} {node : NodeId}
      {conn : Connection} (h : GivesUp (lockKey lock) token part (.ok outcome))
      (hlent : ⟨.call (.connect node), .ok conn⟩ ∈ part) (removed : Option Token) :
      ReleaseCall m ctx lock
        (⟨.registry m.id (.held ctx lock), some token⟩ ::
          (part ++ [⟨.registry m.id (.forget ctx lock), removed⟩,
            ⟨.count (.release outcome), ()⟩, ⟨.release conn, ()⟩]))
        (.ok outcome.isSuccess)

/-- Whether a call of the store failed. -/
def Exchange.Fails : Exchange → Prop
  | ⟨.call _, r⟩ => ∃ e, r = .error e
  | _ => False

/-- Whether an effect looks at registries or changes them. -/
def Effect.IsRegistry : Effect → Prop
  | .registry .. => True
  | _ => False

/-- Other effects are answered without a change of registries. -/
theorem World.answer_registries (w : World) (waited : Option Wait) {e : Effect}
    (he : ¬ e.IsRegistry) : (w.answer waited e).1.registries = w.registries := by
  cases e with
  | registry m a => exact absurd trivial he
  | call c =>
    cases c with
    | connect node => exact (w.connect_alike node waited).registries
    | command conn cmd => exact congrArg Ledger.registries (w.command_frame conn waited cmd).1
    | _ => rfl
  | _ => rfl

namespace GivesUp

variable {key : String} {token : Token} {part : List Exchange}
  {r : Except StoreError ReleaseOutcome}

/-- Giving up a key is no matter of registries. -/
theorem not_isRegistry (h : GivesUp key token part r) {x : Exchange} (hx : x ∈ part) :
    ¬ x.effect.IsRegistry := by
  cases h <;>
    (simp only [List.mem_cons, List.not_mem_nil, or_false] at hx
     rcases hx with rfl | rfl | rfl | rfl | rfl) <;> exact id

/-- It fails exactly if a call fails. -/
theorem fails_iff (h : GivesUp key token part r) : (∃ e, r = .error e) ↔ ∃ x ∈ part, x.Fails := by
  cases h <;> simp [Exchange.Fails]

end GivesUp

/-! ## The discipline -/

/-- Remembers all exchanges, and permits to forget a lock only after the token that the registry had
was given up. -/
def releasing : Discipline (List Exchange) :=
  .ofLog fun log e => ∀ m ctx lock, e = .registry m (.forget ctx lock) →
    ∃ token part outcome, log = ⟨.registry m (.held ctx lock), some token⟩ :: part ∧
      GivesUp (lockKey lock) token part (.ok outcome)

@[simp] theorem releasing_permits (log : List Exchange) (e : Effect) :
    releasing.permits log e ↔ ∀ m ctx lock, e = .registry m (.forget ctx lock) →
      ∃ token part outcome, log = ⟨.registry m (.held ctx lock), some token⟩ :: part ∧
        GivesUp (lockKey lock) token part (.ok outcome) := Iff.rfl

@[simp] theorem releasing_next (log : List Exchange) (x : Exchange) :
    releasing.next log x = log ++ [x] := rfl

theorem releasing_run (log : List Exchange) : releasing.run [] log = log :=
  Discipline.ofLog_run _ [] log

namespace Manager

/-- What a release has done when it has asked the store over its connection: it has given the key
up, and if a call has failed only the return of the connection is missing from that. -/
def Asked (log : List Exchange) (key : String) (token : Token) (conn : Connection)
    (log' : List Exchange) : Except StoreError ReleaseOutcome → Prop
  | .error e => Continues log (GivesUp key token) (log' ++ [⟨.release conn, ()⟩]) (.error e)
  | .ok outcome => ∃ part node, log' = log ++ part ∧ GivesUp key token part (.ok outcome) ∧
      ⟨.call (.connect node), .ok conn⟩ ∈ part

theorem giveUp_releasing (log : List Exchange) (key : String) (token : Token) (node : NodeId)
    (conn : Connection) :
    (giveUp (X := X) conn key token).run.Obeys releasing
      (log ++ [⟨.call (.nodeOwning key), .ok node⟩, ⟨.call (.connect node), .ok conn⟩])
      (Asked log key token conn) := by
  simp only [giveUp, Discipline.interpretation_before, releasing_permits, releasing_next,
    reduceCtorEq, false_implies, implies_true, true_and, forall_except, Action.thenOk_error,
    Action.thenOk_ok, Action.ensures_bind, Action.ensures_send, Bool.forall_bool,
    Bool.false_eq_true, ↓reduceIte, ExceptT.run_pure, Program.ensures_pure, ExceptT.stM_eq,
    List.append_assoc, List.cons_append, List.nil_append]
  refine ⟨fun e => ⟨_, List.append_assoc .., .undeleted node conn e⟩,
    ⟨fun e => ⟨_, List.append_assoc .., .unseen node conn e⟩, ?_, ?_⟩, ?_⟩
  · exact ⟨_, node, rfl, .seen node conn false, by simp⟩
  · exact ⟨_, node, rfl, .seen node conn true, by simp⟩
  · exact ⟨_, node, rfl, .deleted node conn, by simp⟩

variable (m : Manager) (ctx : Context) (lock : String)

/-- Once the store has answered, the lock may be forgotten and the connection given back. -/
theorem forget_releasing {token : Token} {part : List Exchange} {outcome : ReleaseOutcome}
    {node : NodeId} {conn : Connection} (h : GivesUp (lockKey lock) token part (.ok outcome))
    (hlent : ⟨.call (.connect node), .ok conn⟩ ∈ part) :
    (do
      let _ ← Action.registry m.id (.forget ctx lock)
      Action.perform (.count (.release outcome))
      return outcome.isSuccess : Action X StoreError Bool).run.Obeys releasing
      (⟨.registry m.id (.held ctx lock), some token⟩ :: part) fun log r =>
        ReleaseCall m ctx lock (log ++ [⟨.release conn, ()⟩]) (r.mapError Failure.ofStore) := by
  refine Action.ensures_bind.2 ⟨?_, fun (removed : Option Token) => ?_⟩
  · rintro _ _ _ ⟨⟩
    exact ⟨token, part, outcome, rfl, h⟩
  · refine Action.ensures_bind.2 ⟨by rintro _ _ _ ⟨⟩, fun _ => ?_⟩
    have hended : ReleaseCall m ctx lock _ _ := .ended h hlent removed
    show ReleaseCall m ctx lock (_ ++ _ ++ _ ++ _) (.ok outcome.isSuccess)
    simpa using hended

theorem releaseHeld_releasing (token : Token) :
    (m.releaseHeld (X := X) ctx lock token).run.Obeys releasing
      [⟨.registry m.id (.held ctx lock), some token⟩] fun log r =>
        ReleaseCall m ctx lock log (r.mapError Failure.ofStore) := by
  simp only [releaseHeld, Action.ensures_withConnection, Action.ensures_connectionFor,
    Discipline.interpretation_before, releasing_permits, releasing_next, reduceCtorEq,
    false_implies, implies_true, true_and, forall_except, Action.thenOk_error, Action.thenOk_ok,
    List.append_assoc]
  refine ⟨fun e => .failed (.unrouted e), fun node => ⟨fun e => .failed (.unconnected node e),
    fun conn => ?_⟩⟩
  refine Action.ensures_bind.2 ((giveUp_releasing _ (lockKey lock) token node conn).mono ?_)
  rintro log (e | outcome) hasked
  · obtain ⟨part, hlog, hpart⟩ := hasked
    intro _
    rw [hlog]
    exact .failed hpart
  · obtain ⟨part, node, rfl, hpart, hlent⟩ := hasked
    exact (m.forget_releasing ctx lock hpart hlent).mono fun _ _ h _ => h

theorem release_releasing :
    (m.release (X := X) ctx lock).run.Obeys releasing [] (ReleaseCall m ctx lock) := by
  simp only [release, bind_pure_comp, Action.ensures_bind, Action.ensures_registry,
    Action.thenOk_ok, Discipline.interpretation_before, releasing_permits, releasing_next,
    Effect.registry.injEq, reduceCtorEq, and_false, false_implies, implies_true, true_and,
    List.nil_append]
  intro (token? : Option Token)
  rcases token? with _ | token
  · exact ⟨by rintro _ _ _ ⟨⟩, fun _ => .notHeld⟩
  · exact Action.ensures_orFail.2 (m.releaseHeld_releasing ctx lock token)

/-- The exchanges of a release that has ended. -/
theorem release_after {log : List Exchange} {r : Except Failure Bool}
    (h : (m.release (X := X) ctx lock).run.After log (.done r)) : ReleaseCall m ctx lock log r := by
  have hcall := (m.release_releasing ctx lock).final h
  rwa [releasing_run] at hcall

/-- The exchanges of a release that is about to forget a lock. -/
theorem release_forgets {log : List Exchange} {m' : ManagerId} {ctx' : Context} {lock' : String}
    {next : Option Token → Program X (Except Failure Bool)}
    (h : (m.release (X := X) ctx lock).run.After log
      (.effect (.registry m' (.forget ctx' lock')) next)) :
    ∃ token part outcome, log = ⟨.registry m' (.held ctx' lock'), some token⟩ :: part ∧
      GivesUp (lockKey lock') token part (.ok outcome) := by
  have hpermits := (m.release_releasing ctx lock).permits h
  rw [releasing_run] at hpermits
  exact hpermits _ _ _ rfl

end Manager

end Latchkey
