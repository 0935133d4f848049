import Latchkey.Proofs.Conduct
import Latchkey.Proofs.LateTokens
import Latchkey.Proofs.Releases

/-!
# What an acquisition does

An acquisition looks the lock up in the registry. If it has a token it asks the store to refresh the
key. If not it mints one, writes it the way the deployment demands, and notes it if that has
succeeded. Before and after this it looks at the clock, and counts what came of it.

The exchanges are listed part by part, as `RefreshCall`, `FirstWrite`, `AttemptCall` and
`AcquireCall`. The main statement is `Manager.acquire_after`.
-/

namespace Latchkey

variable {X : Extension} {α : Type}

/-- What holds of every log after which a program has ended is what it obeys when all exchanges are
remembered. -/
theorem Program.obeys_recorder {p : Program X α} {log : List Exchange}
    {Q : List Exchange → α → Prop}
    (h : ∀ part a, p.After part (.done a) → Q (log ++ part) a) : p.Obeys .recorder log Q := by
  induction p generalizing log with
  | done a =>
    have hend := h [] a .start
    rwa [List.append_nil] at hend
  | effect e next ih =>
    refine ⟨trivial, fun r => ih r fun part a ha => ?_⟩
    have hend := h (⟨e, r⟩ :: part) a ha.cons
    rwa [List.append_cons] at hend
  | extended op next ih =>
    have hfirst : ∀ r, (Program.extended op next).After [] (next r) := fun r => .extended .start r
    exact ⟨trivial, fun r => ih r fun part a ha => h part a ((hfirst r).trans ha)⟩

/-! ## The exchanges -/

/-- The exchanges of a refresh, and what came of it. -/
inductive RefreshCall (key : String) (token : Token) (ttl : Nat) :
    List Exchange → Except StoreError AcquireOutcome → Prop where
  /-- The node could not be looked up. -/
  | unrouted (e : StoreError) :
      RefreshCall key token ttl [⟨.call (.nodeOwning key), .error e⟩] (.error e)
  /-- No connection was lent. -/
  | unconnected (node : NodeId) (e : StoreError) :
      RefreshCall key token ttl
        [⟨.call (.nodeOwning key), .ok node⟩, ⟨.call (.connect node), .error e⟩] (.error e)
  /-- The store was asked for a new lifetime. -/
  | asked (node : NodeId) (conn : Connection) (r : Except StoreError Bool) :
      RefreshCall key token ttl
        [⟨.call (.nodeOwning key), .ok node⟩, ⟨.call (.connect node), .ok conn⟩,
          ⟨.call (.command conn (.compareAndExpire key token ttl)), r⟩, ⟨.release conn, ()⟩]
        (r.map fun b => if b then .refreshed else .refreshFailed)

/-- The exchanges in which a token is written on a store, given how that is deployed, and what came
of it. -/
inductive FirstWrite (key : String) (token : Token) (ttl wait started : Nat) (d : Deployment)
    (part : List Exchange) (r : Except StoreError AcquireOutcome) : Prop where
  /-- The store is not sharded. -/
  | single (hd : d.isSharded = false) (h : SingleWrite key token ttl started part r)
  /-- It is sharded. -/
  | sharded (hd : d.isSharded = true) (h : ShardedWrite key token ttl wait part r)

/-- The exchanges of an attempt that began at a time, and what came of it. -/
inductive AttemptCall (m : Manager) (ctx : Context) (lock : String) (ttl wait started : Nat) :
    List Exchange → Except StoreError AcquireOutcome → Prop where
  /-- The context has the lock. -/
  | refresh {token : Token} {part : List Exchange} {r : Except StoreError AcquireOutcome}
      (h : RefreshCall (lockKey lock) token ttl part r) :
      AttemptCall m ctx lock ttl wait started
        (⟨.registry m.id (.held ctx lock), some token⟩ :: part) r
  /-- A token was written in time, and noted. -/
  | granted {token : Token} {d : Deployment} {part : List Exchange}
      (h : FirstWrite (lockKey lock) token ttl wait started d part (.ok .acquired)) :
      AttemptCall m ctx lock ttl wait started
        ([⟨.registry m.id (.held ctx lock), none⟩, ⟨.mint, token⟩, ⟨.deployment, d⟩] ++
          (part ++ [⟨.registry m.id (.record ctx lock token), ()⟩])) (.ok .acquired)
  /-- It was not. -/
  | denied {token : Token} {d : Deployment} {part : List Exchange}
      {r : Except StoreError AcquireOutcome}
      (h : FirstWrite (lockKey lock) token ttl wait started d part r) (hr : r ≠ .ok .acquired) :
      AttemptCall m ctx lock ttl wait started
        ([⟨.registry m.id (.held ctx lock), none⟩, ⟨.mint, token⟩, ⟨.deployment, d⟩] ++ part) r

/-- What is counted of an attempt. -/
def AcquireOutcome.counted (r : Except StoreError AcquireOutcome) : AcquireOutcome :=
  r.toOption.getD .error

/-- What the caller is told of an attempt. -/
def AcquireOutcome.told (r : Except StoreError AcquireOutcome) : Except Failure Bool :=
  (r.map AcquireOutcome.isHeld).mapError Failure.ofStore

/-- The exchanges of an acquisition that has ended, and its answer. -/
inductive AcquireCall (m : Manager) (ctx : Context) (lock : String) (ttl wait : Nat) :
    List Exchange → Except Failure Bool → Prop where
  /-- The lifetime is zero. -/
  | vain (h : ttl = 0) : AcquireCall m ctx lock ttl wait [] (.ok false)
  /-- The store is closing. -/
  | closing (h : ttl ≠ 0) (started : Nat) :
      AcquireCall m ctx lock ttl wait
        [⟨.clock, started⟩, ⟨.closing, true⟩, ⟨.count (.acquire .closing 0), ()⟩] (.ok false)
  /-- An attempt was made. -/
  | attempted (h : ttl ≠ 0) {started : Nat} {part : List Exchange}
      {r : Except StoreError AcquireOutcome}
      (hpart : AttemptCall m ctx lock ttl (min wait ttl) started part r) (ended : Nat) :
      AcquireCall m ctx lock ttl wait
        ([⟨.clock, started⟩, ⟨.closing, false⟩] ++ (part ++ [⟨.clock, ended⟩,
          ⟨.count (.acquire (.counted r) (ended - started)), ()⟩]))
        (AcquireOutcome.told r)

namespace Manager

variable (m : Manager) (ctx : Context) (lock : String) (ttl wait started : Nat)
  (log : List Exchange)

theorem refresh_calls (key : String) (token : Token) :
    (refresh (X := X) key token ttl).run.Obeys .recorder log
      (Continues log (RefreshCall key token ttl)) := by
  simp only [refresh, Action.ensures_withConnection, Action.ensures_connectionFor,
    Discipline.interpretation_before, Discipline.recorder_permits, Discipline.recorder_next,
    true_and, forall_except, Action.thenOk_error, Action.thenOk_ok, Action.ensures_bind,
    Action.ensures_send, Bool.forall_bool, Bool.false_eq_true, ↓reduceIte, ExceptT.run_pure,
    Program.ensures_pure, ExceptT.stM_eq, List.append_assoc, List.cons_append, List.nil_append]
  exact ⟨fun e => ⟨_, rfl, .unrouted e⟩, fun node => ⟨fun e => ⟨_, rfl, .unconnected node e⟩,
    fun conn => ⟨fun e _ => ⟨_, rfl, .asked node conn (.error e)⟩,
      fun _ => ⟨_, rfl, .asked node conn (.ok false)⟩,
      fun _ => ⟨_, rfl, .asked node conn (.ok true)⟩⟩⟩⟩

theorem acquireSingle_calls (key : String) (token : Token) :
    (acquireSingle (X := X) key token ttl started).run.Obeys .recorder log
      (Continues log (SingleWrite key token ttl started)) := by
  refine Program.obeys_recorder fun part r h => ⟨part, rfl, ?_⟩
  obtain ⟨part', heq, hpart⟩ := (acquireSingle_brief key ttl started token unwritten_nil).final h
  rw [brief_run, List.nil_append] at heq
  exact heq ▸ hpart

/-- A token that is written in time is noted. -/
theorem firstWrite_calls {token : Token} {d : Deployment} {part : List Exchange}
    {r : Except StoreError AcquireOutcome}
    (hw : FirstWrite (lockKey lock) token ttl wait started d part r) :
    Action.thenOk (Continues log (AttemptCall m ctx lock ttl wait started))
      (fun log' outcome =>
        (if outcome = .acquired then
            (fun _ => outcome) <$> Action.registry (X := X) m.id (.record ctx lock token)
          else pure outcome : Action X StoreError AcquireOutcome).run.Obeys .recorder log'
          (Continues log (AttemptCall m ctx lock ttl wait started)))
      (log ++ [⟨.registry m.id (.held ctx lock), none⟩, ⟨.mint, token⟩, ⟨.deployment, d⟩] ++ part)
      r := by
  rw [List.append_assoc]
  rcases r with e | outcome
  · exact ⟨_, rfl, .denied hw nofun⟩
  · rw [Action.thenOk_ok]
    by_cases ha : outcome = .acquired
    · subst ha
      rw [if_pos rfl]
      refine ⟨trivial, fun _ => ⟨_, ?_, .granted hw⟩⟩
      simp
    · rw [if_neg ha]
      exact ⟨_, rfl, .denied hw fun heq => ha (Except.ok.inj heq)⟩

theorem attempt_calls :
    (m.attempt (X := X) ctx lock ttl wait started).run.Obeys .recorder log
      (Continues log (AttemptCall m ctx lock ttl wait started)) := by
  simp only [attempt, bind_pure_comp, Action.ensures_bind, Action.ensures_registry,
    Action.thenOk_ok, Discipline.interpretation_before, Discipline.recorder_permits,
    Discipline.recorder_next, true_and]
  intro (token? : Option Token)
  rcases token? with _ | token
  · simp only [Action.ensures_bind, Action.ensures_perform, Action.thenOk_ok,
      Discipline.interpretation_before, Discipline.recorder_permits, Discipline.recorder_next,
      true_and, List.append_assoc, List.cons_append, List.nil_append]
    intro (token : Token) (d : Deployment)
    cases hd : d.isSharded with
    | false =>
      rw [if_neg Bool.false_ne_true, Action.ensures_bind]
      refine (acquireSingle_calls ttl started _ (lockKey lock) token).mono ?_
      rintro log' r ⟨part, rfl, hpart⟩
      exact m.firstWrite_calls ctx lock ttl wait started log (.single hd hpart)
    | true =>
      rw [if_pos rfl, Action.ensures_bind]
      refine (acquireSharded_records (lockKey lock) token ttl wait _).mono ?_
      rintro log' r ⟨part, rfl, hpart⟩
      exact m.firstWrite_calls ctx lock ttl wait started log (.sharded hd hpart)
  · refine (refresh_calls ttl _ (lockKey lock) token).mono ?_
    rintro log' r ⟨part, rfl, hpart⟩
    exact ⟨_, List.append_assoc .., .refresh hpart⟩

theorem acquire_calls :
    (m.acquire (X := X) ctx lock ttl wait).run.Obeys .recorder []
      (AcquireCall m ctx lock ttl wait) := by
  unfold acquire
  by_cases httl : ttl = 0
  · rw [if_pos httl]
    exact .vain httl
  · rw [if_neg httl]
    simp only [bind_pure_comp, Action.ensures_bind, Action.ensures_perform, Action.thenOk_ok,
      Discipline.interpretation_before, Discipline.recorder_permits, Discipline.recorder_next,
      Bool.forall_bool, Bool.false_eq_true, ↓reduceIte, ExceptT.run_bind_lift, Program.ensures_bind,
      true_and, List.append_assoc, List.cons_append, List.nil_append, ExceptT.run_map,
      Program.ensures_map]
    intro (started : Nat)
    constructor
    · refine (m.attempt_calls ctx lock ttl (min wait ttl) started _).mono ?_
      rintro log r ⟨part, rfl, hpart⟩ (ended : Nat) u
      have hcall := AcquireCall.attempted httl hpart ended
      rcases r with e | outcome <;> exact hcall
    · exact fun _ => .closing httl started

/-- The exchanges of an acquisition that has ended. -/
theorem acquire_after {log : List Exchange} {r : Except Failure Bool}
    (h : (m.acquire (X := X) ctx lock ttl wait).run.After log (.done r)) :
    AcquireCall m ctx lock ttl wait log r := by
  have hcall := (m.acquire_calls ctx lock ttl wait).final h
  rwa [Discipline.recorder_run, List.nil_append] at hcall

end Manager

/-! ## What the store is told -/

theorem Effect.IsPlain.not_isRegistry {e : Effect} (h : e.IsPlain) : ¬ e.IsRegistry := by
  cases e with
  | registry m a => exact h.elim
  | _ => exact id

section Effects

variable {key : String} {token : Token} {ttl wait started : Nat} {part : List Exchange}
  {r : Except StoreError AcquireOutcome} {x : Exchange}

/-- A refresh asks for a new lifetime for the token that it is given. -/
theorem RefreshCall.effect_cases (h : RefreshCall key token ttl part r) (hx : x ∈ part) :
    x.effect.IsPlain ∨
      ∃ conn, x.effect = .call (.command conn (.compareAndExpire key token ttl)) := by
  revert x
  cases h <;> simp [Effect.IsPlain]

/-- A refresh succeeds only if the store has given the token a new lifetime. -/
theorem RefreshCall.exists_asked (h : RefreshCall key token ttl part r)
    (hr : AcquireOutcome.told r = .ok true) : ∃ conn,
      (⟨.call (.command conn (.compareAndExpire key token ttl)), .ok true⟩ : Exchange) ∈ part := by
  cases h with
  | unrouted e => cases hr
  | unconnected node e => cases hr
  | asked node conn b =>
    match b, hr with
    | .ok true, _ => exact ⟨conn, by simp⟩
    | .ok false, hr => cases hr
    | .error e, hr => cases hr

theorem SingleWrite.effect_cases (h : SingleWrite key token ttl started part r) (hx : x ∈ part) :
    x.effect.IsPlain ∨ ∃ conn, x.effect = .call (.command conn (.set key token ttl true)) := by
  revert x
  cases h <;> simp [Effect.IsPlain]

theorem ReplicaWait.isPlain {conn : Connection} {node : NodeId} {res : Except StoreError Unit}
    (h : ReplicaWait conn node wait part res) (hx : x ∈ part) : x.effect.IsPlain := by
  revert x
  cases h <;> simp [Effect.IsPlain]

theorem Settlement.effect_cases {conn : Connection} {since : Nat} {res : Except StoreError Unit}
    (h : Settlement conn key token ttl since res part r) (hx : x ∈ part) :
    x.effect.IsPlain ∨ x.effect = .call (.command conn (.compareAndDelete key token)) := by
  revert x
  cases h <;> simp [Effect.IsPlain]

theorem ShardedWrite.effect_cases (h : ShardedWrite key token ttl wait part r) (hx : x ∈ part) :
    x.effect.IsPlain ∨ ∃ conn, x.effect = .call (.command conn (.set key token ttl true)) ∨
      x.effect = .call (.command conn (.compareAndDelete key token)) := by
  cases h with
  | written hw hs =>
    simp only [List.mem_append] at hx
    rcases hx with hx | hx | hx
    · revert x
      simp [Effect.IsPlain]
    · exact .inl (hw.isPlain hx)
    · exact (hs.effect_cases hx).imp_right fun heq => ⟨_, .inr heq⟩
  | _ =>
    revert x
    simp [Effect.IsPlain]

namespace FirstWrite

variable {d : Deployment}

/-- A first write sends the token to be written, and perhaps to be deleted. -/
theorem effect_cases (h : FirstWrite key token ttl wait started d part r) (hx : x ∈ part) :
    x.effect.IsPlain ∨ ∃ conn, x.effect = .call (.command conn (.set key token ttl true)) ∨
      x.effect = .call (.command conn (.compareAndDelete key token)) := by
  cases h with
  | single hd h => exact (h.effect_cases hx).imp_right fun ⟨conn, heq⟩ => ⟨conn, .inl heq⟩
  | sharded hd h => exact h.effect_cases hx

/-- A first write succeeds by acquiring the lock. -/
theorem told_iff (h : FirstWrite key token ttl wait started d part r) :
    AcquireOutcome.told r = .ok true ↔ r = .ok .acquired := by
  have htold : AcquireOutcome.told r = .ok true ↔ r.map AcquireOutcome.isHeld = .ok true := by
    cases r <;> simp [AcquireOutcome.told, Except.map]
  rw [htold]
  cases h with
  | sharded hd h => exact h.isHeld_iff
  | single hd h =>
    cases h with
    | @unwritten node conn b hb => cases b <;> simp [Except.map, AcquireOutcome.isHeld]
    | written node conn now =>
      by_cases hin : now - started < ttl <;> simp [hin, Except.map, AcquireOutcome.isHeld]
    | _ => simp [Except.map]

/-- The lock is acquired only if the store has written the token. -/
theorem exists_written (h : FirstWrite key token ttl wait started d part r)
    (hr : r = .ok .acquired) : ∃ conn,
      (⟨.call (.command conn (.set key token ttl true)), .ok true⟩ : Exchange) ∈ part := by
  cases h with
  | single hd h =>
    cases h with
    | unrouted e => cases hr
    | unconnected node e => cases hr
    | @unwritten node conn b hb => cases b <;> cases hr
    | written node conn now => exact ⟨conn, by simp⟩
  | sharded hd h =>
    cases h with
    | unrouted e => cases hr
    | unconnected node e => cases hr
    | @unwritten node conn since b hb => cases b <;> cases hr
    | @written node conn since waited settled res r hw hs => exact ⟨conn, by simp⟩

end FirstWrite

end Effects

end Latchkey
