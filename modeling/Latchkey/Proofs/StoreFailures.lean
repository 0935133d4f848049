import Latchkey.Lock.Manager
import Latchkey.Filter.Membership
import Latchkey.Proofs.Discipline

/-!
# Failures of the store

A lock or filter operation never takes a failed call for an answer: it fails as soon as a call
fails, with the error of that call, and makes no further call. The one exception is the deletion
that takes a token back. It may follow a failed call, and whether it fails itself is not looked at.

`Action.Reports` says this of one action, by a discipline that remembers the first failed call; it
is closed under all ways to build actions. `Program.Surfaces` says it of the logs of a whole
operation, and the main statement `store_failures_surface` is that it holds of all operations.
-/

namespace Latchkey

/-- Whether a call asks for a deletion. -/
def StoreCall.isDelete : StoreCall → Bool
  | .command _ (.compareAndDelete ..) => true
  | _ => false

/-- The failed call that an operation has met, if any. -/
inductive Outlook where
  /-- No call has failed. -/
  | sound
  /-- A call has failed, and none was made since. -/
  | failed (e : StoreError)
  /-- A call has failed, and one was made since to undo what was done before. -/
  | undone (e : StoreError)

variable {X : Extension} {α β ε : Type} {undo : StoreCall → Bool}

/-! ## The discipline -/

/-- After a failed call only one that undoes may be made, and only once; `undo` says which ones do.
Whether these fail does not count. -/
def Discipline.frank (undo : StoreCall → Bool) : Discipline Outlook where
  permits
    | .sound, _ => True
    | .failed _, .call c => undo c = true
    | .undone _, .call _ => False
    | _, _ => True
  next
    | .sound, ⟨.call c, .error e⟩ => if undo c then .sound else .failed e
    | .sound, _ => .sound
    | .failed e, ⟨.call _, _⟩ => .undone e
    | s, _ => s

/-- What an operation has met is what it says: an error if a call has failed, a value otherwise. -/
def Outlook.Told (tag : StoreError → ε) : Outlook → Except ε α → Prop
  | .sound, r => ∃ a, r = .ok a
  | .failed e, r => r = .error (tag e)
  | .undone e, r => r = .error (tag e)

/-- If no call has failed before, the action keeps to the discipline and tells of a failure. -/
def Action.Reports (undo : StoreCall → Bool) (tag : StoreError → ε) (x : Action X ε α) : Prop :=
  x.run.Obeys (.frank undo) .sound (Outlook.Told tag)

namespace Action.Reports

variable {tag : StoreError → ε} {x : Action X ε α} {f : α → Action X ε β}

theorem pure (a : α) : (pure a : Action X ε α).Reports undo tag := ⟨a, rfl⟩

theorem ite {c : Prop} [Decidable c] {y : Action X ε α} (hx : x.Reports undo tag)
    (hy : y.Reports undo tag) : (if c then x else y).Reports undo tag := by
  by_cases h : c
  · rwa [if_pos h]
  · rwa [if_neg h]

/-- After a failure nothing else is done. -/
theorem bind (hx : x.Reports undo tag) (hf : ∀ a, (f a).Reports undo tag) :
    (x >>= f).Reports undo tag := by
  refine Action.ensures_bind.2 (hx.mono fun s r h => ?_)
  cases s with
  | sound =>
    obtain ⟨a, rfl⟩ := h
    exact hf a
  | failed e =>
    obtain rfl := h
    rfl
  | undone e =>
    obtain rfl := h
    rfl

/-- An effect other than a call does not fail. -/
theorem perform {e : Effect} (he : ∀ c, e ≠ .call c) :
    (Action.perform e : Action X ε e.Reply).Reports undo tag := by
  refine ⟨trivial, fun r => ?_⟩
  cases e with
  | call c => exact absurd rfl (he c)
  | _ => exact ⟨_, rfl⟩

theorem registry (m : ManagerId) (a : RegistryAccess) :
    (Action.registry m a : Action X ε a.Answer).Reports undo tag :=
  perform fun _ h => nomatch h

/-- The failure of a call that matters is passed on. -/
theorem call {c : StoreCall} (hc : undo c = false) :
    (Action.call c : Action X StoreError c.Answer).Reports undo id := by
  refine ⟨trivial, fun r => ?_⟩
  cases r with
  | error e =>
    show Outlook.Told id (if undo c = true then _ else _) (Except.error e : Except _ c.Answer)
    rw [hc]
    rfl
  | ok a => exact ⟨a, rfl⟩

theorem send {conn : Connection} {cmd : Command} (hc : undo (.command conn cmd) = false) :
    (Action.send conn cmd : Action X StoreError cmd.Answer).Reports undo id :=
  call hc

/-- A connection is given back after a failure too. -/
theorem withConnection {borrow : Action X StoreError Connection}
    {use : Connection → Action X StoreError α} (hb : borrow.Reports undo id)
    (hu : ∀ conn, (use conn).Reports undo id) :
    (Action.withConnection borrow use).Reports undo id := by
  refine Action.ensures_withConnection.2 (hb.mono fun s r h => ?_)
  cases s with
  | sound =>
    obtain ⟨conn, rfl⟩ := h
    refine (hu conn).mono fun s' r' h' => ?_
    cases s' <;> exact ⟨trivial, fun _ => h'⟩
  | failed e =>
    obtain rfl := h
    rfl
  | undone e =>
    obtain rfl := h
    rfl

theorem orFail {x : Action X StoreError α} (hx : x.Reports undo id) :
    x.orFail.Reports undo Failure.ofStore := by
  refine Action.ensures_orFail.2 (hx.mono fun s r h => ?_)
  cases s with
  | sound =>
    obtain ⟨a, rfl⟩ := h
    exact ⟨a, rfl⟩
  | failed e =>
    obtain rfl := h
    rfl
  | undone e =>
    obtain rfl := h
    rfl

theorem connectionFor {key : String} (h₁ : undo (.nodeOwning key) = false)
    (h₂ : ∀ node, undo (.connect node) = false) :
    (Action.connectionFor key : Action X StoreError Connection).Reports undo id :=
  (call h₁).bind fun node => call (h₂ node)

/-! ## Locks -/

theorem refresh (key : String) (token : Token) (ttl : Nat) :
    (Manager.refresh (X := X) key token ttl).Reports StoreCall.isDelete id :=
  withConnection (connectionFor rfl fun _ => rfl) fun _ =>
    (send rfl).bind fun _ => ite (pure _) (pure _)

theorem acquireSingle (key : String) (token : Token) (ttl started : Nat) :
    (Manager.acquireSingle (X := X) key token ttl started).Reports StoreCall.isDelete id := by
  refine withConnection (connectionFor rfl fun _ => rfl) fun _ => (send rfl).bind fun _ =>
    ite ?_ (pure _)
  exact (perform (by nofun)).bind fun _ => ite (pure _) (pure _)

/-- A wait for replicas does not undo anything, so a failure of it is the last call. -/
theorem awaitReplicas (conn : Connection) (node : NodeId) (wait : Nat) :
    (Manager.awaitReplicas (X := X) conn node wait).run.Obeys (.frank StoreCall.isDelete) .sound
      fun s r => s = .sound ∧ r = .ok () ∨ ∃ e, s = .failed e ∧ r = .error e := by
  unfold Manager.awaitReplicas
  simp only [Action.ensures_bind, Action.ensures_call, Discipline.interpretation_before,
    forall_except, Action.thenOk_ok, Action.thenOk_error]
  refine ⟨trivial, fun e => .inr ⟨e, rfl, rfl⟩, fun n => ?_⟩
  by_cases h : min n maxReplicaQuorum = 0
  · rw [if_pos h]
    exact .inl ⟨rfl, rfl⟩
  · rw [if_neg h]
    refine ⟨trivial, fun r => ?_⟩
    cases r with
    | error e => exact .inr ⟨e, rfl, rfl⟩
    | ok k => exact .inl ⟨rfl, rfl⟩

/-- Whether a token could be taken back is not looked at. -/
theorem rollback (conn : Connection) (key : String) (token : Token) :
    (Manager.rollback (X := X) conn key token).Reports StoreCall.isDelete id := by
  refine ⟨trivial, fun r => ?_⟩
  cases r <;> exact ⟨_, rfl⟩

/-- The failure of a wait is told, whatever comes of the deletion that follows it. -/
theorem acquireSharded (key : String) (token : Token) (ttl wait : Nat) :
    (Manager.acquireSharded (X := X) key token ttl wait).Reports StoreCall.isDelete id := by
  refine (call rfl).bind fun node => withConnection (call rfl) fun conn =>
    (perform (by nofun)).bind fun started => (send rfl).bind fun b => ite ?_ (pure _)
  refine Action.ensures_bind.2 (Action.ensures_lift.2 ((awaitReplicas conn node wait).mono ?_))
  rintro s r (⟨rfl, rfl⟩ | ⟨e, rfl, rfl⟩)
  · exact bind (perform (by nofun)) fun now => ite (pure _)
      ((rollback conn key token).bind fun _ => pure _)
  · exact ⟨rfl, fun r => rfl⟩

theorem attempt (m : Manager) (ctx : Context) (lock : String) (ttl wait started : Nat) :
    (m.attempt (X := X) ctx lock ttl wait started).Reports StoreCall.isDelete id := by
  refine (registry m.id (.held ctx lock)).bind fun (token? : Option Token) => ?_
  cases token? with
  | some token => exact refresh (lockKey lock) token ttl
  | none =>
    refine (perform (by nofun)).bind fun token => (perform (by nofun)).bind fun d => ite ?_ ?_
    · exact (acquireSharded ..).bind fun _ => ite ((registry ..).bind fun _ => pure _) (pure _)
    · exact (acquireSingle ..).bind fun _ => ite ((registry ..).bind fun _ => pure _) (pure _)

/-- An acquisition fails with the error of its attempt, after it has counted it. -/
theorem acquire (m : Manager) (ctx : Context) (lock : String) (ttl wait : Nat) :
    (m.acquire (X := X) ctx lock ttl wait).Reports StoreCall.isDelete Failure.ofStore := by
  refine ite (pure _) ((perform (by nofun)).bind fun started => (perform (by nofun)).bind fun _ =>
    ite ((perform (by nofun)).bind fun _ => pure _) ?_)
  refine Action.ensures_bind.2 (Action.ensures_lift.2
    ((attempt m ctx lock ttl (min wait ttl) started).mono fun s r h => ?_))
  cases s with
  | sound =>
    obtain ⟨outcome, rfl⟩ := h
    exact bind (perform (by nofun)) fun _ => (perform (by nofun)).bind fun _ => pure _
  | failed e =>
    obtain rfl := h
    exact ⟨trivial, fun _ => ⟨trivial, fun _ => rfl⟩⟩
  | undone e =>
    obtain rfl := h
    exact ⟨trivial, fun _ => ⟨trivial, fun _ => rfl⟩⟩

theorem acquireUntil (m : Manager) (ctx : Context) (lock : String) (ttl wait deadline : Nat)
    (attempts : Nat) :
    (m.acquireUntil (X := X) ctx lock ttl wait deadline attempts).Reports StoreCall.isDelete
      Failure.ofStore := by
  induction attempts with
  | zero => exact pure false
  | succ attempts ih =>
    refine (acquire m ctx lock ttl wait).bind fun _ => ite (pure _) ?_
    refine (perform (by nofun)).bind fun _ => ite (pure _) ?_
    refine (perform (by nofun)).bind fun _ => ite (pure _) ?_
    exact (perform (by nofun)).bind fun _ => ih

theorem acquireWithRetry (m : Manager) (ctx : Context) (lock : String) (ttl wait : Nat)
    {budget : Nat} (h : budget ≤ maxRetryBudget) :
    (m.acquireWithRetry (X := X) ctx lock ttl wait budget).Reports StoreCall.isDelete
      Failure.ofStore := by
  unfold Manager.acquireWithRetry
  rw [if_neg (Nat.not_lt.2 h)]
  exact (perform (by nofun)).bind fun _ => acquireUntil ..

theorem giveUp (conn : Connection) (key : String) (token : Token) :
    (Manager.giveUp (X := X) conn key token).Reports (fun _ => false) id :=
  (send rfl).bind fun _ => ite (pure _) ((send rfl).bind fun _ => ite (pure _) (pure _))

/-- The deletion of a release is no exception: its failure is the failure of the release. -/
theorem release (m : Manager) (ctx : Context) (lock : String) :
    (m.release (X := X) ctx lock).Reports (fun _ => false) Failure.ofStore := by
  refine (registry m.id (.held ctx lock)).bind fun (token? : Option Token) => ?_
  cases token? with
  | none => exact (perform (by nofun)).bind fun _ => pure _
  | some token =>
    refine orFail (withConnection (connectionFor rfl fun _ => rfl) fun conn => ?_)
    exact (giveUp conn _ token).bind fun _ => (registry ..).bind fun _ =>
      (perform (by nofun)).bind fun _ => pure _

/-! ## Filters -/

theorem prepare (p : FilterPlan) : (p.prepare (X := X)).Reports (fun _ => false) id := by
  refine withConnection (connectionFor rfl fun _ => rfl) fun _ => (send rfl).bind fun _ =>
    ite (pure _) ((send rfl).bind fun _ => ?_)
  cases p.expiration with
  | none => exact pure _
  | some ms => exact ite ((send rfl).bind fun _ => pure _) (pure _)

theorem create {s : FilterSettings} {p : FilterPlan} (h : FilterPlan.ofSettings s = .ok p) :
    (FilterPlan.create (X := X) s).Reports (fun _ => false) Failure.ofStore := by
  unfold FilterPlan.create
  rw [h]
  exact (orFail (prepare p)).bind fun _ => (perform (by nofun)).bind fun _ => pure _

theorem setBits (conn : Connection) (key : String) (offsets : List Nat) :
    (FilterPlan.setBits (X := X) conn key offsets).Reports (fun _ => false) id := by
  induction offsets with
  | nil => exact pure ()
  | cons offset rest ih => exact (send rfl).bind fun _ => ih

theorem allSet (conn : Connection) (key : String) (offsets : List Nat) :
    (FilterPlan.allSet (X := X) conn key offsets).Reports (fun _ => false) id := by
  induction offsets with
  | nil => exact pure true
  | cons offset rest ih => exact (send rfl).bind fun _ => ite ih (pure false)

theorem add (p : FilterPlan) (element : String) :
    (p.add (X := X) element).Reports (fun _ => false) Failure.ofStore :=
  (orFail (withConnection (connectionFor rfl fun _ => rfl) fun _ => setBits ..)).bind fun _ =>
    perform (by nofun)

theorem test (p : FilterPlan) (element : String) :
    (p.test (X := X) element).Reports (fun _ => false) Failure.ofStore :=
  (perform (by nofun)).bind fun _ =>
    orFail (withConnection (connectionFor rfl fun _ => rfl) fun _ => allSet ..)

end Action.Reports

/-! ## Logs -/

namespace Discipline

theorem frank_next_failed (undo : StoreCall → Bool) (e : StoreError) (x : Exchange) :
    (frank undo).next (.failed e) x = .failed e ∨ (frank undo).next (.failed e) x = .undone e := by
  obtain ⟨effect, reply⟩ := x
  cases effect with
  | call c => exact .inr rfl
  | _ => exact .inl rfl

theorem frank_run_undone (undo : StoreCall → Bool) (e : StoreError) (log : List Exchange) :
    (frank undo).run (.undone e) log = .undone e := by
  induction log with
  | nil => rfl
  | cons x log ih => exact ih

/-- The first failed call is remembered. -/
theorem frank_run_failed (undo : StoreCall → Bool) (e : StoreError) (log : List Exchange) :
    (frank undo).run (.failed e) log = .failed e ∨
      (frank undo).run (.failed e) log = .undone e := by
  induction log with
  | nil => exact .inl rfl
  | cons x log ih =>
    show (frank undo).run ((frank undo).next (.failed e) x) log = _ ∨
      (frank undo).run ((frank undo).next (.failed e) x) log = _
    rcases frank_next_failed undo e x with h | h
    · rw [h]
      exact ih
    · rw [h]
      exact .inr (frank_run_undone undo e log)

/-- Only a failed call that counts is remembered. -/
theorem frank_next_sound (undo : StoreCall → Bool) (x : Exchange) :
    (frank undo).next .sound x = .sound ∨ ∃ c e, x = ⟨.call c, .error e⟩ ∧ undo c = false := by
  obtain ⟨effect, reply⟩ := x
  cases effect with
  | call c =>
    cases reply with
    | ok a => exact .inl rfl
    | error e =>
      cases hc : undo c with
      | true => exact .inl (if_pos hc)
      | false => exact .inr ⟨c, e, rfl, hc⟩
  | _ => exact .inl rfl

theorem frank_run_sound (undo : StoreCall → Bool) (log : List Exchange) :
    (frank undo).run .sound log = .sound ∨
      ∃ c e, (⟨.call c, .error e⟩ : Exchange) ∈ log ∧ undo c = false := by
  induction log with
  | nil => exact .inl rfl
  | cons x log ih =>
    rcases frank_next_sound undo x with h | ⟨c, e, rfl, hc⟩
    · show (frank undo).run ((frank undo).next .sound x) log = _ ∨ _
      rw [h]
      rcases ih with ih | ⟨c, e, hx, hc⟩
      · exact .inl ih
      · exact .inr ⟨c, e, .tail _ hx, hc⟩
    · exact .inr ⟨c, e, .head _, hc⟩

end Discipline

/-- An operation surfaces the failures of the store, but for those of calls that only undo. -/
structure Program.Surfaces (undo : StoreCall → Bool) (p : Program X (Except Failure α)) : Prop where
  /-- It ends, whatever the replies are. -/
  ends (reply : List Exchange → (e : Effect) → e.Reply) (hear : (op : X.Op) → X.Reply op) :
    ∃ log r, p.After log (.done r) ∧ RepliesBy reply log
  /-- It fails if and only if a call that counts has failed. -/
  fails_iff {log : List Exchange} {r : Except Failure α} (h : p.After log (.done r)) :
    (∃ failure, r = .error failure) ↔
      ∃ c e, (⟨.call c, .error e⟩ : Exchange) ∈ log ∧ undo c = false
  /-- Its failure has the error of that call as its cause. -/
  cause {log : List Exchange} {r : Except Failure α} (h : p.After log (.done r)) {c : StoreCall}
    {e : StoreError} (hx : (⟨.call c, .error e⟩ : Exchange) ∈ log) (hc : undo c = false) :
    r = .error (.infrastructure e.context (.store e))
  /-- After such a call, up to any point, at most one call is made, and that one undoes. -/
  stops {before after : List Exchange} {p' : Program X (Except Failure α)} {c : StoreCall}
    {e : StoreError} (h : p.After (before ++ ⟨.call c, .error e⟩ :: after) p')
    (hc : undo c = false) {mid rest : List Exchange} {c' : StoreCall}
    {r : Except StoreError c'.Answer} (hafter : after = mid ++ ⟨.call c', r⟩ :: rest) :
    undo c' = true ∧ ∀ c'' r', (⟨.call c'', r'⟩ : Exchange) ∉ rest
  /-- If it gives an answer, all calls that count were answered. -/
  answers {log : List Exchange} {a : α} (h : p.After log (.done (.ok a))) {c : StoreCall}
    {r : Except StoreError c.Answer} (hx : (⟨.call c, r⟩ : Exchange) ∈ log)
    (hc : undo c = false) : ∃ b, r = .ok b

namespace Action.Reports

variable {x : Action X Failure α} {p' : Program X (Except Failure α)} {c : StoreCall}
  {e : StoreError} {before after : List Exchange}

/-- A failed call that counts is the first one, and it is remembered. -/
theorem run_failed (hx : x.Reports undo Failure.ofStore)
    (h : x.run.After (before ++ ⟨.call c, .error e⟩ :: after) p') (hc : undo c = false) :
    (Discipline.frank undo).run .sound (before ++ [⟨.call c, .error e⟩]) = .failed e := by
  obtain ⟨next, hbefore, -⟩ := h.split
  have hpermits := Program.Obeys.permits hx hbefore
  rw [Discipline.run_concat]
  cases hs : (Discipline.frank undo).run .sound before with
  | sound =>
    show (if undo c = true then Outlook.sound else .failed e) = _
    rw [hc]
    rfl
  | failed e' =>
    rw [hs] at hpermits
    exact absurd (hc.symm.trans hpermits) Bool.false_ne_true
  | undone e' =>
    rw [hs] at hpermits
    exact hpermits.elim

theorem cause (hx : x.Reports undo Failure.ofStore) {log : List Exchange} {r : Except Failure α}
    (h : x.run.After log (.done r)) (hmem : (⟨.call c, .error e⟩ : Exchange) ∈ log)
    (hc : undo c = false) : r = .error (Failure.ofStore e) := by
  obtain ⟨before, after, rfl⟩ := List.append_of_mem hmem
  have hfailed := hx.run_failed h hc
  have htold := Program.Obeys.final hx h
  rw [List.append_cons, Discipline.run_append, hfailed] at htold
  rcases Discipline.frank_run_failed undo e after with hs | hs
  · rw [hs] at htold
    exact htold
  · rw [hs] at htold
    exact htold

theorem stops (hx : x.Reports undo Failure.ofStore) {mid rest : List Exchange} {c' : StoreCall}
    {r : Except StoreError c'.Answer}
    (h : x.run.After (before ++ ⟨.call c, .error e⟩ :: (mid ++ ⟨.call c', r⟩ :: rest)) p')
    (hc : undo c = false) :
    undo c' = true ∧ ∀ c'' r', (⟨.call c'', r'⟩ : Exchange) ∉ rest := by
  have hfailed := hx.run_failed h hc
  rw [← List.cons_append, ← List.append_assoc] at h
  obtain ⟨next, hmid, hrest⟩ := h.split
  have hleft := Program.Obeys.after hx hmid
  rw [List.append_cons, Discipline.run_append, hfailed] at hleft
  rcases Discipline.frank_run_failed undo e mid with hs | hs
  · rw [hs] at hleft
    refine ⟨hleft.1, fun c'' r' hmem => ?_⟩
    -- once it has undone, no state permits a call
    obtain ⟨mid', rest', rfl⟩ := List.append_of_mem hmem
    obtain ⟨next', hmid', -⟩ := hrest.split
    have hpermits := Program.Obeys.permits (hleft.2 r) hmid'
    have hundone : (Discipline.frank undo).next (.failed e) ⟨.call c', r⟩ = .undone e := rfl
    rw [hundone, Discipline.frank_run_undone] at hpermits
    exact hpermits
  · rw [hs] at hleft
    exact hleft.1.elim

/-- What an action reports, its logs show. -/
theorem surfaces (hx : x.Reports undo Failure.ofStore) : x.run.Surfaces undo where
  ends reply hear := Program.After.start.ends (fun _ _ _ heq => by simp at heq) hear
  fails_iff {log r} h := by
    refine ⟨fun ⟨failure, hr⟩ => ?_, fun ⟨c, e, hmem, hc⟩ => ⟨_, hx.cause h hmem hc⟩⟩
    rcases Discipline.frank_run_sound undo log with hs | hfailed
    · have htold := Program.Obeys.final hx h
      rw [hs] at htold
      obtain ⟨a, ha⟩ := htold
      exact absurd (ha.symm.trans hr) (by simp)
    · exact hfailed
  cause h _ _ hmem hc := hx.cause h hmem hc
  stops h hc _ _ _ _ hafter := by
    subst hafter
    exact hx.stops h hc
  answers {log a} h {c r} hmem hc := by
    cases r with
    | ok b => exact ⟨b, rfl⟩
    | error e => cases hx.cause h hmem hc

end Action.Reports

/-- Settings that are not in order are refused before the store is called. -/
theorem FilterPlan.create_refuses {s : FilterSettings} {failure : Failure}
    (h : ofSettings s = .error failure) {log : List Exchange} {r : Except Failure FilterPlan}
    (hafter : (create (X := X) s).run.After log (.done r)) : log = [] ∧ r = .error failure := by
  have hrun : (create (X := X) s).run = .done (.error failure) := by
    unfold create
    rw [h]
    rfl
  rw [hrun] at hafter
  obtain ⟨hlog, hr⟩ := hafter.of_done
  cases hr
  exact ⟨hlog, rfl⟩

/-- No operation takes a failed call of the store for an answer.

An acquisition, with or without trying again, a release, and the creation of a filter from settings
that are in order, an addition to it and a test of it fail if and only if one of their calls failed,
with the error of that call as the cause, and make no call after it. Among the calls of an
acquisition the deletion that takes its token back does not count; it may follow a failed wait for
replicas. -/
theorem store_failures_surface (m : Manager) (ctx : Context) (lock : String) (ttl wait : Nat) :
    (m.acquire (X := X) ctx lock ttl wait).run.Surfaces StoreCall.isDelete ∧
    (∀ budget ≤ maxRetryBudget,
      (m.acquireWithRetry (X := X) ctx lock ttl wait budget).run.Surfaces StoreCall.isDelete) ∧
    (m.release (X := X) ctx lock).run.Surfaces (fun _ => false) ∧
    (∀ s : FilterSettings,
      match FilterPlan.ofSettings s with
      | .ok _ => (FilterPlan.create (X := X) s).run.Surfaces fun _ => false
      | .error failure => ∀ log r, (FilterPlan.create (X := X) s).run.After log (.done r) →
          log = [] ∧ r = .error failure) ∧
    ∀ (p : FilterPlan) (element : String),
      (Action.orFail (X := X) p.prepare).run.Surfaces (fun _ => false) ∧
      (p.add (X := X) element).run.Surfaces (fun _ => false) ∧
      (p.test (X := X) element).run.Surfaces fun _ => false := by
  refine ⟨?_, fun budget hbudget => ?_, ?_, fun s => ?_, fun p element => ⟨?_, ?_, ?_⟩⟩
  · exact (Action.Reports.acquire m ctx lock ttl wait).surfaces
  · exact (Action.Reports.acquireWithRetry m ctx lock ttl wait hbudget).surfaces
  · exact (Action.Reports.release m ctx lock).surfaces
  · cases h : FilterPlan.ofSettings s with
    | ok p => exact (Action.Reports.create h).surfaces
    | error failure => exact fun log r hafter => FilterPlan.create_refuses h hafter
  · exact (Action.Reports.orFail (.prepare p)).surfaces
  · exact (Action.Reports.add p element).surfaces
  · exact (Action.Reports.test p element).surfaces

/-- The exchanges of an acquisition that found the lock held, tried again, could not wait for the
replica, and could not take its token back either. -/
def failedWaitLog : List Exchange :=
  [⟨.clock, (0 : Nat)⟩, ⟨.clock, (0 : Nat)⟩, ⟨.closing, false⟩,
    ⟨.registry 0 (.held "a" "L"), (none : Option Token)⟩, ⟨.mint, "t"⟩,
    ⟨.deployment, Deployment.sharded⟩, ⟨.call (.nodeOwning (lockKey "L")), .ok "n"⟩,
    ⟨.call (.connect "n"), .ok ⟨0, "n"⟩⟩, ⟨.clock, (0 : Nat)⟩,
    ⟨.call (.command ⟨0, "n"⟩ (.set (lockKey "L") "t" 20 true)), .ok false⟩,
    ⟨.release ⟨0, "n"⟩, ()⟩, ⟨.clock, (0 : Nat)⟩, ⟨.count (.acquire .contended 0), ()⟩,
    ⟨.closing, false⟩, ⟨.clock, (0 : Nat)⟩, ⟨.sleep 5, ()⟩,
    ⟨.clock, (5 : Nat)⟩, ⟨.closing, false⟩,
    ⟨.registry 0 (.held "a" "L"), (none : Option Token)⟩, ⟨.mint, "u"⟩,
    ⟨.deployment, Deployment.sharded⟩, ⟨.call (.nodeOwning (lockKey "L")), .ok "n"⟩,
    ⟨.call (.connect "n"), .ok ⟨1, "n"⟩⟩, ⟨.clock, (5 : Nat)⟩,
    ⟨.call (.command ⟨1, "n"⟩ (.set (lockKey "L") "u" 20 true)), .ok true⟩,
    ⟨.call (.replicaCount "n"), .ok (1 : Nat)⟩,
    ⟨.call (.command ⟨1, "n"⟩ (.awaitReplicas 1 10)), .error (.unavailable "link down")⟩,
    ⟨.call (.command ⟨1, "n"⟩ (.compareAndDelete (lockKey "L") "u")), .error .closed⟩,
    ⟨.release ⟨1, "n"⟩, ()⟩, ⟨.clock, (5 : Nat)⟩, ⟨.count (.acquire .error 0), ()⟩]

/-- The error of the failed wait is the cause, not that of the deletion. -/
theorem failed_wait_surfaces :
    1000 ≤ maxRetryBudget ∧ ∃ r,
      (({} : Manager).acquireWithRetry (X := .none) "a" "L" 20 10 1000).run.After failedWaitLog
        (.done r) ∧
      r = .error (.infrastructure "store command failed" (.store (.unavailable "link down"))) := by
  have hbudget : 1000 ≤ maxRetryBudget := by decide
  have hafter : ∃ r, (({} : Manager).acquireWithRetry (X := .none) "a" "L" 20 10 1000).run.After
      failedWaitLog (.done r) := by
    refine ⟨?_, ?_⟩
    rotate_left
    · iterate 31 refine .cons ?_
      exact .start
  obtain ⟨r, hafter⟩ := hafter
  have hwait : (⟨.call (.command ⟨1, "n"⟩ (.awaitReplicas 1 10)),
      .error (.unavailable "link down")⟩ : Exchange) ∈ failedWaitLog := by
    simp [failedWaitLog]
  obtain ⟨-, hretry, -⟩ := store_failures_surface (X := .none) {} "a" "L" 20 10
  exact ⟨hbudget, r, hafter, (hretry 1000 hbudget).cause hafter hwait rfl⟩

end Latchkey
