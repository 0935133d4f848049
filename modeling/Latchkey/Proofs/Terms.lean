import Latchkey.Proofs.Conduct

/-!
# The terms of an acquisition

An acquisition passes on what its caller has asked for. It mints a token only after the registry
has told that there is none, it asks for the lifetime of the caller whether it writes or refreshes,
and it waits for replicas as long as the caller says but not longer than the lifetime.

The main statement is `Manager.acquire_keepsTerms`.
-/

namespace Latchkey

namespace Terms

/-- What an acquisition may ask for, given what the registry has told so far. -/
@[simp] def permits (ttl wait : Nat) (told : Option (Option Token)) : Effect → Prop
  | .mint => told = some none
  | .call (.command _ (.set _ _ ttl' _)) => ttl' = ttl
  | .call (.command _ (.compareAndExpire _ _ ttl')) => ttl' = ttl
  | .call (.command _ (.awaitReplicas count timeout)) =>
    (1 ≤ count ∧ count ≤ maxReplicaQuorum) ∧ timeout = min wait ttl
  | _ => True

/-- What the registry has told after an exchange. -/
@[simp] def next (told : Option (Option Token)) : Exchange → Option (Option Token)
  | ⟨.registry _ (.held _ _), token?⟩ => some token?
  | _ => told

end Terms

/-- The terms of an acquisition for a lifetime and a wait for replicas. -/
def terms (ttl wait : Nat) : Discipline (Option (Option Token)) :=
  ⟨Terms.permits ttl wait, Terms.next⟩

@[simp] theorem terms_permits (ttl wait : Nat) :
    (terms ttl wait).permits = Terms.permits ttl wait := rfl

@[simp] theorem terms_next (ttl wait : Nat) : (terms ttl wait).next = Terms.next := rfl

namespace Manager

variable {X : Extension} (m : Manager) (ctx : Context) (lock key : String) (ttl wait : Nat)

theorem refresh_keepsTerms (token : Token) (told : Option (Option Token)) :
    (refresh (X := X) key token ttl).run.Obeys (terms ttl wait) told fun _ _ => True := by
  simp [refresh, forall_except]

theorem acquireSingle_keepsTerms (token : Token) (started : Nat) (told : Option (Option Token)) :
    (acquireSingle (X := X) key token ttl started).run.Obeys (terms ttl wait) told
      fun _ _ => True := by
  simp only [acquireSingle, Action.ensures_bind, Action.ensures_withConnection,
    Action.ensures_connectionFor, Discipline.interpretation_before, terms_permits, Terms.permits,
    forall_except, Action.thenOk_error, Action.thenOk_ok, Action.ensures_send,
    Action.ensures_perform, implies_true, true_and, and_true, Bool.forall_bool,
    Bool.false_eq_true, ↓reduceIte, Program.ensures_pure, ExceptT.run_pure, ExceptT.stM_eq]
  intro node conn (now : Nat)
  split <;> simp

theorem awaitReplicas_keepsTerms (conn : Connection) (node : NodeId)
    (told : Option (Option Token)) :
    (awaitReplicas (X := X) conn node (min wait ttl)).run.Obeys (terms ttl wait) told
      fun _ _ => True := by
  unfold awaitReplicas
  simp only [Action.ensures_bind, Action.ensures_call, Discipline.interpretation_before,
    terms_permits, Terms.permits, forall_except, Action.thenOk_ok, Action.thenOk_error,
    implies_true, true_and]
  intro (n : Nat)
  by_cases hzero : min n maxReplicaQuorum = 0
  · rw [if_pos hzero]
    trivial
  · rw [if_neg hzero]
    have hcount : 1 ≤ min n maxReplicaQuorum := Nat.one_le_iff_ne_zero.2 hzero
    have hquorum : min n maxReplicaQuorum ≤ maxReplicaQuorum := Nat.min_le_right _ _
    simp [hcount, hquorum]

theorem rollback_keepsTerms (conn : Connection) (token : Token) (told : Option (Option Token)) :
    (rollback (X := X) conn key token).run.Obeys (terms ttl wait) told fun _ _ => True := by
  simp [rollback]

theorem acquireSharded_keepsTerms (token : Token) (told : Option (Option Token)) :
    (acquireSharded (X := X) key token ttl (min wait ttl)).run.Obeys (terms ttl wait) told
      fun _ _ => True := by
  simp only [acquireSharded, bind_pure_comp, Action.ensures_bind, Action.ensures_withConnection,
    Discipline.interpretation_before, terms_permits, Terms.permits, forall_except,
    Action.thenOk_error, Action.thenOk_ok, Action.ensures_call, Action.ensures_send,
    Action.ensures_perform, implies_true, true_and, and_true, Bool.forall_bool,
    Bool.false_eq_true, ↓reduceIte, Program.ensures_pure, ExceptT.run_pure, Action.ensures_lift,
    ExceptT.stM_eq]
  intro node conn since
  refine (awaitReplicas_keepsTerms ttl wait conn node _).mono ?_
  intro told' r _
  rcases r with e | _
  · simp only [Action.ensures_bind]
    refine (rollback_keepsTerms key ttl wait conn token _).mono ?_
    rintro told'' (e | _) _ <;> trivial
  · simp only [Action.ensures_bind, Action.ensures_perform]
    refine ⟨trivial, fun (now : Nat) => ?_⟩
    show Program.Ensures _ _ (ExceptT.run (if now - since < ttl then _ else _)) _
    by_cases hin : now - since < ttl
    · rw [if_pos hin]
      trivial
    · rw [if_neg hin]
      simp only [ExceptT.run_map, Program.ensures_map]
      exact rollback_keepsTerms key ttl wait conn token _

theorem attempt_keepsTerms (started : Nat) (told : Option (Option Token)) :
    (m.attempt (X := X) ctx lock ttl (min wait ttl) started).run.Obeys (terms ttl wait) told
      fun _ _ => True := by
  have hrecord : ∀ (token : Token) (told : Option (Option Token))
      (r : Except StoreError AcquireOutcome),
      Action.thenOk (fun _ (_ : Except StoreError AcquireOutcome) => True) (fun told outcome =>
        (if outcome = .acquired then
            (fun _ => outcome) <$> Action.registry (X := X) m.id (.record ctx lock token)
          else pure outcome : Action X StoreError AcquireOutcome).run.Obeys (terms ttl wait) told
          fun _ _ => True) told r := by
    intro token told r
    rcases r with e | outcome
    · trivial
    · rw [Action.thenOk_ok]
      split <;> simp
  simp only [attempt, bind_pure_comp, Action.ensures_bind, Action.ensures_registry,
    Action.thenOk_ok, Discipline.interpretation_before, terms_permits, Terms.permits, terms_next,
    Terms.next, true_and]
  intro (token? : Option Token)
  rcases token? with _ | token
  · simp only [Action.ensures_bind, Action.ensures_perform, Action.thenOk_ok,
      Discipline.interpretation_before, terms_permits, Terms.permits, true_and]
    intro (token : Token) (d : Deployment)
    by_cases hd : d.isSharded
    · rw [if_pos hd, Action.ensures_bind]
      exact (acquireSharded_keepsTerms _ ttl wait token _).mono fun _ _ _ => hrecord ..
    · rw [if_neg hd, Action.ensures_bind]
      exact (acquireSingle_keepsTerms _ ttl wait token started _).mono fun _ _ _ => hrecord ..
  · exact refresh_keepsTerms _ ttl wait token _

/-- An acquisition asks for what its caller has asked for. -/
theorem acquire_keepsTerms :
    (m.acquire (X := X) ctx lock ttl wait).run.Obeys (terms ttl wait) none fun _ _ => True := by
  unfold acquire
  by_cases hzero : ttl = 0
  · rw [if_pos hzero]
    trivial
  · rw [if_neg hzero]
    simp only [bind_pure_comp, Action.ensures_bind, Action.ensures_perform, Action.thenOk_ok,
      Discipline.interpretation_before, terms_permits, Terms.permits, Bool.forall_bool,
      Bool.false_eq_true, ↓reduceIte, ExceptT.run_bind_lift, Program.ensures_bind, true_and,
      ExceptT.run_map, Program.ensures_map, implies_true, and_true]
    intro (started : Nat)
    refine (attempt_keepsTerms m ctx lock ttl wait started _).mono ?_
    intro told r _ (ended : Nat)
    rcases r with e | outcome <;> simp

end Manager

end Latchkey
