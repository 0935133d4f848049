import Latchkey.Proofs.ShardedAcquire

/-!
# Tokens that come too late

On a store that is not sharded an acquisition writes its token, looks at the clock and waits no
more. If by then the lifetime is over it answers false, but its token stays where it was written,
and nobody knows it: the key has it for a whole lifetime from the return on. The path for sharded
stores takes such a token back.

The main statement is `late_token_is_left`.
-/

namespace Latchkey

variable {X : Extension}

/-! ## Nothing waits after the write -/

/-- A value was written. -/
def Exchange.IsWritten : Exchange → Prop
  | ⟨.call (.command _ (.set ..)), r⟩ => r = .ok true
  | _ => False

/-- No value was written. -/
def Unwritten (log : List Exchange) : Prop := ∀ x ∈ log, ¬ x.IsWritten

@[simp] theorem unwritten_append {log log' : List Exchange} :
    Unwritten (log ++ log') ↔ Unwritten log ∧ Unwritten log' := List.forall_mem_append

@[simp] theorem unwritten_cons {x : Exchange} {log : List Exchange} :
    Unwritten (x :: log) ↔ ¬ x.IsWritten ∧ Unwritten log := List.forall_mem_cons

@[simp] theorem unwritten_nil : Unwritten [] := fun _ hmem => nomatch hmem

/-- The store was found to be sharded. -/
def FoundSharded (log : List Exchange) : Prop :=
  ∃ d : Deployment, (⟨.deployment, d⟩ : Exchange) ∈ log ∧ d.isSharded = true

theorem FoundSharded.append {log : List Exchange} (h : FoundSharded log) (log' : List Exchange) :
    FoundSharded (log ++ log') := by
  obtain ⟨d, hmem, hd⟩ := h
  exact ⟨d, List.mem_append_left _ hmem, hd⟩

/-- After a value was written nothing waits, unless the store is sharded. -/
def brief : Discipline (List Exchange) :=
  .ofLog fun log e => Unwritten log ∨ FoundSharded log ∨ ¬ e.MayWait

@[simp] theorem brief_permits (log : List Exchange) (e : Effect) :
    brief.permits log e ↔ Unwritten log ∨ FoundSharded log ∨ ¬ e.MayWait := Iff.rfl

@[simp] theorem brief_next (log : List Exchange) (x : Exchange) :
    brief.next log x = log ++ [x] := rfl

theorem brief_run (log : List Exchange) : brief.run [] log = log :=
  Discipline.ofLog_run _ [] log

/-- On a sharded store everything may wait. -/
theorem Program.brief_of_sharded {α : Type} (p : Program X α) {log : List Exchange}
    (h : FoundSharded log) : p.Obeys brief log fun log' _ => FoundSharded log' := by
  induction p generalizing log with
  | done a => exact h
  | effect e next ih => exact ⟨.inr (.inl h), fun r => ih r (h.append _)⟩
  | extended op next ih => exact ⟨trivial, fun r => ih r h⟩

/-- The exchanges of a first acquisition on a store that is not sharded, from the look-up of the
node on, and what came of it. -/
inductive SingleWrite (key : String) (token : Token) (ttl started : Nat) :
    List Exchange → Except StoreError AcquireOutcome → Prop where
  /-- The node could not be looked up. -/
  | unrouted (e : StoreError) :
      SingleWrite key token ttl started [⟨.call (.nodeOwning key), .error e⟩] (.error e)
  /-- No connection was lent. -/
  | unconnected (node : NodeId) (e : StoreError) :
      SingleWrite key token ttl started
        [⟨.call (.nodeOwning key), .ok node⟩, ⟨.call (.connect node), .error e⟩] (.error e)
  /-- The token was not written. -/
  | unwritten (node : NodeId) (conn : Connection) {r : Except StoreError Bool} (hr : r ≠ .ok true) :
      SingleWrite key token ttl started
        [⟨.call (.nodeOwning key), .ok node⟩, ⟨.call (.connect node), .ok conn⟩,
          ⟨.call (.command conn (.set key token ttl true)), r⟩, ⟨.release conn, ()⟩]
        (r.map fun _ => .contended)
  /-- The token was written, and the clock says what that is worth. -/
  | written (node : NodeId) (conn : Connection) (now : Nat) :
      SingleWrite key token ttl started
        [⟨.call (.nodeOwning key), .ok node⟩, ⟨.call (.connect node), .ok conn⟩,
          ⟨.call (.command conn (.set key token ttl true)), .ok true⟩, ⟨.clock, now⟩,
          ⟨.release conn, ()⟩]
        (.ok (if now - started < ttl then .acquired else .timedOut))

/-- If a token was written by an attempt that began at a time, after some exchanges, the clock was
read then, and this reading has decided about the attempt. -/
def Clocked (ttl started : Nat) (before log : List Exchange)
    (r : Except StoreError AcquireOutcome) : Prop :=
  ∀ x ∈ log, x.IsWritten → FoundSharded log ∨ ∃ (pre : List Exchange) (now : Nat)
    (post : List Exchange), log = before ++ (pre ++ x :: ⟨.clock, now⟩ :: post) ∧
      r.map AcquireOutcome.isHeld = .ok (decide (now - started < ttl))

/-- A first acquisition is decided by the reading of the clock after the write. -/
theorem SingleWrite.clocked {key : String} {token : Token} {ttl started : Nat}
    {log pre write post : List Exchange} {r : Except StoreError AcquireOutcome}
    (h : SingleWrite key token ttl started write r) (hlog : Unwritten log) (hpre : Unwritten pre)
    (hpost : Unwritten post) : Clocked ttl started log (log ++ (pre ++ (write ++ post))) r := by
  intro x hmem hx
  simp only [List.mem_append] at hmem
  rcases hmem with hmem | hmem | hmem | hmem
  · exact absurd hx (hlog x hmem)
  · exact absurd hx (hpre x hmem)
  · cases h with
    | unrouted e =>
      obtain rfl := List.mem_singleton.1 hmem
      exact hx.elim
    | unconnected node e =>
      simp only [List.mem_cons, List.not_mem_nil, or_false] at hmem
      rcases hmem with rfl | rfl <;> exact hx.elim
    | unwritten node conn hr =>
      simp only [List.mem_cons, List.not_mem_nil, or_false] at hmem
      rcases hmem with rfl | rfl | rfl | rfl
      · exact hx.elim
      · exact hx.elim
      · exact absurd hx hr
      · exact hx.elim
    | written node conn now =>
      simp only [List.mem_cons, List.not_mem_nil, or_false] at hmem
      rcases hmem with rfl | rfl | rfl | rfl | rfl
      · exact hx.elim
      · exact hx.elim
      · refine .inr ⟨pre ++
          [⟨.call (.nodeOwning key), .ok node⟩, ⟨.call (.connect node), .ok conn⟩],
          now, ⟨.release conn, ()⟩ :: post, by simp, ?_⟩
        by_cases hin : now - started < ttl
        · simp [hin, Except.map, AcquireOutcome.isHeld]
        · simp [hin, Except.map, AcquireOutcome.isHeld]
      · exact hx.elim
      · exact hx.elim
  · exact absurd hx (hpost x hmem)

/-- If a token was written by an acquisition, the clock was read then, and the time since the call
has decided whether the acquisition succeeds. -/
def Decided (ttl : Nat) (log : List Exchange) (r : Except Failure Bool) : Prop :=
  ∀ x ∈ log, x.IsWritten → FoundSharded log ∨ ∃ (started : Nat) (pre : List Exchange) (now : Nat)
    (post : List Exchange), log = ⟨.clock, started⟩ :: (pre ++ x :: ⟨.clock, now⟩ :: post) ∧
      r = .ok (decide (now - started < ttl))

/-- What an attempt has come to is what the acquisition comes to. -/
theorem Clocked.decided {ttl started : Nat} {before log post : List Exchange}
    {r : Except StoreError AcquireOutcome} {r' : Except Failure Bool}
    (h : Clocked ttl started (⟨.clock, started⟩ :: before) log r) (hpost : Unwritten post)
    (hr : ∀ b, r.map AcquireOutcome.isHeld = .ok b → r' = .ok b) :
    Decided ttl (log ++ post) r' := by
  intro x hmem hx
  rcases List.mem_append.1 hmem with hmem | hmem
  · rcases h x hmem hx with hfound | ⟨pre, now, post', rfl, hheld⟩
    · exact .inl (hfound.append post)
    · exact .inr ⟨started, before ++ pre, now, post' ++ post, by simp, hr _ hheld⟩
  · exact absurd hx (hpost x hmem)

namespace Manager

variable (m : Manager) (ctx : Context) (lock key : String) (ttl wait started : Nat)

theorem refresh_brief (token : Token) {log : List Exchange} (hlog : Unwritten log) :
    (refresh (X := X) key token ttl).run.Obeys brief log fun log' _ => Unwritten log' := by
  simp [refresh, hlog, forall_except, Exchange.IsWritten]

/-- The exchanges of a first acquisition on a store that is not sharded. -/
theorem acquireSingle_brief (token : Token) {log : List Exchange} (hlog : Unwritten log) :
    (acquireSingle (X := X) key token ttl started).run.Obeys brief log
      (Continues log (SingleWrite key token ttl started)) := by
  simp only [acquireSingle, Action.ensures_bind, Action.ensures_withConnection,
    Action.ensures_connectionFor, Discipline.interpretation_before, brief_permits, brief_next,
    forall_except, Action.thenOk_error, Action.thenOk_ok, Action.ensures_send,
    Action.ensures_perform, Bool.forall_bool, unwritten_append, unwritten_cons, unwritten_nil,
    Exchange.IsWritten, not_false_eq_true, and_self, hlog, true_or, true_and, Effect.MayWait,
    or_true, List.append_assoc, List.cons_append, List.nil_append,
    Bool.false_eq_true, ↓reduceIte, Program.ensures_pure, ExceptT.run_pure, ExceptT.stM_eq]
  have hfailed : ∀ e : StoreError, (.error e : Except StoreError Bool) ≠ .ok true := by simp
  have hrefused : (.ok false : Except StoreError Bool) ≠ .ok true := by simp
  refine ⟨fun e => ⟨_, rfl, .unrouted e⟩, fun node => ⟨fun e => ⟨_, rfl, .unconnected node e⟩,
    fun conn => ⟨fun e _ => ⟨_, rfl, .unwritten node conn (hfailed e)⟩,
      fun _ => ⟨_, rfl, .unwritten node conn hrefused⟩, fun (now : Nat) => ?_⟩⟩⟩
  have hwritten := @SingleWrite.written key token ttl started node conn now
  by_cases hin : now - started < ttl
  · rw [if_pos hin] at hwritten
    rw [if_neg (Nat.not_le.2 hin)]
    exact fun _ => ⟨_, by simp, hwritten⟩
  · rw [if_neg hin] at hwritten
    rw [if_pos (Nat.not_lt.1 hin)]
    exact fun _ => ⟨_, by simp, hwritten⟩

/-- What follows a first acquisition only notes the token. -/
theorem record_brief {log pre write : List Exchange} {token : Token}
    {r : Except StoreError AcquireOutcome} (hlog : Unwritten log) (hpre : Unwritten pre)
    (hw : SingleWrite (lockKey lock) token ttl started write r) :
    Action.thenOk (Clocked ttl started log)
      (fun log' outcome =>
        (if outcome = .acquired then
            (fun _ => outcome) <$> Action.registry (X := X) m.id (.record ctx lock token)
          else pure outcome : Action X StoreError AcquireOutcome).run.Obeys brief log'
          (Clocked ttl started log))
      (log ++ (pre ++ write)) r := by
  have hunnoted := hw.clocked hlog hpre unwritten_nil
  rw [List.append_nil] at hunnoted
  rcases r with e | outcome
  · exact hunnoted
  · rw [Action.thenOk_ok]
    by_cases ha : outcome = .acquired
    · rw [if_pos ha]
      refine ⟨.inr (.inr not_false), fun _ => ?_⟩
      have hpost : Unwritten [⟨.registry m.id (.record ctx lock token), ()⟩] := by
        simp [Exchange.IsWritten]
      have hnoted := hw.clocked hlog hpre hpost
      rw [← List.append_assoc pre, ← List.append_assoc log] at hnoted
      exact hnoted
    · rw [if_neg ha]
      exact hunnoted

theorem attempt_brief {log : List Exchange} (hlog : Unwritten log) :
    (m.attempt (X := X) ctx lock ttl wait started).run.Obeys brief log
      (Clocked ttl started log) := by
  simp only [attempt, bind_pure_comp, Action.ensures_bind, Action.ensures_registry,
    Action.thenOk_ok, Discipline.interpretation_before, brief_permits, brief_next, hlog, true_or,
    true_and]
  intro (token? : Option Token)
  have hlooked : Unwritten (log ++ [⟨.registry m.id (.held ctx lock), token?⟩]) := by
    simp [hlog, Exchange.IsWritten]
  rcases token? with _ | token
  · simp only [Action.ensures_bind, Action.ensures_perform, Action.thenOk_ok,
      Discipline.interpretation_before, brief_permits, brief_next, hlooked, true_or, true_and]
    intro (token : Token)
    have hminted : Unwritten (log ++ [⟨.registry m.id (.held ctx lock), (none : Option Token)⟩] ++
        [⟨.mint, token⟩]) := by
      simp [hlog, Exchange.IsWritten]
    refine ⟨.inl hminted, fun (d : Deployment) => ?_⟩
    cases hd : d.isSharded with
    | true =>
      have hfound : FoundSharded (log ++ [⟨.registry m.id (.held ctx lock),
          (none : Option Token)⟩] ++ [⟨.mint, token⟩] ++ [⟨.deployment, d⟩]) := ⟨d, by simp, hd⟩
      refine (Program.brief_of_sharded _ hfound).mono ?_
      exact fun log' r hfound' x _ _ => .inl hfound'
    | false =>
      let pre : List Exchange := [⟨.registry m.id (.held ctx lock), (none : Option Token)⟩,
        ⟨.mint, token⟩, ⟨.deployment, d⟩]
      have hpre : Unwritten pre := by simp [pre, Exchange.IsWritten]
      have hbefore : log ++ [⟨.registry m.id (.held ctx lock), (none : Option Token)⟩] ++
          [⟨.mint, token⟩] ++ [⟨.deployment, d⟩] = log ++ pre := by simp [pre]
      rw [if_neg Bool.false_ne_true, Action.ensures_bind, hbefore]
      refine (acquireSingle_brief (lockKey lock) ttl started token
        (unwritten_append.2 ⟨hlog, hpre⟩)).mono ?_
      rintro log' r ⟨write, rfl, hw⟩
      rw [List.append_assoc]
      exact record_brief m ctx lock ttl started hlog hpre hw
  · refine (refresh_brief (lockKey lock) ttl token hlooked).mono ?_
    intro log' r hnone x hmem hx
    exact absurd hx (hnone x hmem)

/-- After the write of a token on a store that is not sharded an acquisition does not wait. The next
reading of the clock decides whether it succeeds. -/
theorem acquire_brief :
    (m.acquire (X := X) ctx lock ttl wait).run.Obeys brief [] (Decided ttl) := by
  unfold acquire
  split
  · exact List.forall_mem_nil _
  · simp only [bind_pure_comp, Action.ensures_bind, Action.ensures_perform, Action.thenOk_ok,
      Discipline.interpretation_before, brief_permits, brief_next, unwritten_append,
      unwritten_cons, unwritten_nil, Exchange.IsWritten, not_false_eq_true, and_self,
      Bool.forall_bool, Bool.false_eq_true, ↓reduceIte, ExceptT.run_bind_lift,
      Program.ensures_bind, true_and, List.append_assoc, List.cons_append, List.nil_append,
      ExceptT.run_map, Program.ensures_map, Effect.MayWait, or_true]
    intro (started : Nat)
    have hcalled : Unwritten [(⟨.clock, started⟩ : Exchange), ⟨.closing, false⟩] := by
      simp [Exchange.IsWritten]
    constructor
    · refine (attempt_brief m ctx lock ttl (min wait ttl) started hcalled).mono ?_
      intro log r h (ended : Nat) u
      have hpost : Unwritten [(⟨.clock, ended⟩ : Exchange), ⟨.count _, u⟩] := by
        simp [Exchange.IsWritten]
      rcases r with e | outcome
      · exact h.decided hpost fun b hb => by cases hb
      · exact h.decided hpost fun b hb => congrArg Except.ok (Except.ok.inj hb)
    · intro u x hmem hx
      have hnone : Unwritten [(⟨.clock, started⟩ : Exchange), ⟨.closing, true⟩,
          ⟨.count (.acquire .closing 0), u⟩] := by
        simp [Exchange.IsWritten]
      exact absurd hx (hnone x hmem)

end Manager

/-! ## What is left in the store -/

/-- The phases after the write of a token, with what is known of it until it is recorded. -/
def Phase.Deposited (P : Token → Prop) : Phase → Prop
  | .written token _ _ => P token
  | .late token _ => P token
  | .granted token => P token
  | .held _ => True
  | _ => False

/-- Whoever has been told that the store is not sharded has not found it sharded. -/
theorem not_foundSharded {log : List Exchange} {d : Deployment}
    (h : ∀ d', (⟨.deployment, d'⟩ : Exchange) ∈ log → d' = d) (hd : d.isSharded = false) :
    ¬ FoundSharded log := by
  rintro ⟨d', hmem, hd'⟩
  rw [h d' hmem, hd] at hd'
  cases hd'

theorem Phase.Deposited.mono {P P' : Token → Prop} {s : Phase} (h : s.Deposited P)
    (hP : ∀ token, s.secret? = some token → P token → P' token) : s.Deposited P' := by
  cases s with
  | written token since sharded => exact hP token rfl h
  | late token sharded => exact hP token rfl h
  | granted token => exact hP token rfl h
  | held token => trivial
  | _ => exact h.elim

/-- A deed that is no call moves no token that was written. -/
theorem Phase.Deposited.deed {w w' : World} {o : Operation} {s s' : Phase} {x : Exchange}
    {P : Token → Prop} (h : s.Deposited P) (hd : Deed w o s x w' s') (hx : ¬ x.effect.MayWait) :
    s'.Deposited P ∧ w'.store.keyspace = w.store.keyspace := by
  cases hd with
  | clock s =>
    refine ⟨?_, rfl⟩
    cases s with
    | written token since sharded =>
      show (ite _ _ _ : Phase).Deposited P
      split <;> exact h
    | _ => exact h
  | deployment s =>
    refine ⟨?_, rfl⟩
    cases s <;> exact h
  | mint ho clock => exact h.elim
  | look ho clock => exact h.elim
  | record ho token => exact ⟨trivial, rfl⟩
  | forget ho s => exact ⟨h, rfl⟩
  | dispose ho s => exact ⟨h, rfl⟩
  | write ho conn clock sharded hks => exact absurd trivial hx
  | delete ho conn hs hks => exact absurd trivial hx
  | expire ho conn hpos hks => exact absurd trivial hx
  | other ha hplain => exact ⟨h, ha.keyspace⟩

/-- A token that was just written is there for a whole lifetime. -/
theorem Deed.deposits {w w' : World} {o : Operation} {s s' : Phase} {x : Exchange} {lock : String}
    (hd : Deed w o s x w' s') (ho : o.lock? = some lock) (hx : x.IsWritten) :
    s'.Deposited fun token => w'.Stores (lockKey lock) token (w'.now + o.ttl) := by
  cases hd with
  | @write lock' token ho' conn clock sharded ks b hks =>
    obtain rfl : lock' = lock := Option.some.inj (ho'.symm.trans ho)
    obtain rfl : b = true := Except.ok.inj hx
    have hfind := Keyspace.find?_of_set hks (lockKey lock')
    rw [if_pos ⟨rfl, rfl⟩] at hfind
    exact hfind
  | @other s x w' ha hplain =>
    obtain ⟨e, r⟩ := x
    cases e with
    | call c =>
      cases c with
      | command conn cmd =>
        cases cmd with
        | set => exact hplain.elim
        | _ => exact hx.elim
      | _ => exact hx.elim
    | _ => exact hx.elim
  | _ => exact hx.elim

/-- An operation that has failed either knows that its token is late, or that it was not written and
is nowhere. -/
theorem Phase.Fits.late_or_nowhere {mode : Scheduling} {tr : List Event} {w : World} {o : Operation}
    {wait : Option Wait} {s : Phase} {token : Token} {success : Prop}
    (h : s.Fits mode tr w o wait) (hsettles : s.Settles success) (hfail : ¬ success)
    (hminted : s.minted? = some token) : s = .late token false ∨
      (∀ P, ¬ s.Deposited P) ∧ ∀ key, ¬ w.Carries key token := by
  cases s with
  | seeking clock => cases hminted
  | owning token' => cases hminted
  | fresh token' clock =>
    cases hminted
    exact .inr ⟨fun _ => id, h.2.2⟩
  | minted token' clock sharded =>
    cases hminted
    exact .inr ⟨fun _ => id, h.2.2.1⟩
  | written token' since sharded => exact hsettles.elim
  | late token' sharded =>
    cases hminted
    obtain ⟨rfl, -⟩ := hsettles
    exact .inl rfl
  | void token' =>
    cases hminted
    exact .inr ⟨fun _ => id, h.2⟩
  | granted token' => exact hsettles.elim
  | held token' => exact absurd hsettles hfail

/-- The token was written, and it is not recorded. -/
def Phase.IsStored : Phase → Prop
  | .written .. => True
  | .late .. => True
  | .granted _ => True
  | _ => False

/-- Only a write makes an operation know that its token was written. -/
theorem Phase.not_isStored_next {o : Operation} {s : Phase} {x : Exchange} (h : ¬ s.IsStored)
    (hx : ¬ x.IsWritten) : ¬ (o.next s x).IsStored := by
  obtain ⟨e, r⟩ := x
  cases e with
  | clock =>
    cases s with
    | written token since sharded => exact absurd trivial h
    | _ => exact h
  | deployment => cases s <;> exact h
  | mint => cases s <;> exact h
  | registry m a =>
    cases a with
    | held ctx lock =>
      cases r with
      | none => exact h
      | some token => exact id
    | record ctx lock token =>
      cases s with
      | granted token => exact id
      | _ => exact h
    | _ => exact h
  | call c =>
    cases c with
    | command conn cmd =>
      cases cmd with
      | set key token ttl onlyIfAbsent =>
        cases s with
        | minted token clock sharded =>
          rcases r with e | b
          · exact id
          · cases b with
            | true => exact absurd rfl hx
            | false => exact id
        | _ => exact h
      | compareAndDelete key token =>
        cases s with
        | written token since sharded => exact id
        | late token sharded => exact id
        | _ => exact h
      | compareAndExpire key token ttl =>
        cases s with
        | owning token =>
          rcases r with e | b
          · exact id
          · cases b <;> exact id
        | _ => exact h
      | _ => exact h
    | _ => exact h
  | _ => exact h

theorem Operation.not_isStored_of_unwritten {o : Operation} {s : Phase} {log : List Exchange}
    (hs : ¬ s.IsStored) (h : Unwritten log) : ¬ (o.protocol.run s log).IsStored := by
  induction log generalizing s with
  | nil => exact hs
  | cons x log ih =>
    obtain ⟨hx, hlog⟩ := unwritten_cons.1 h
    exact ih (Phase.not_isStored_next hs hx) hlog

/-- What an acquisition on a store that is not sharded has written is there for a whole lifetime,
from whenever one looks, until it is recorded; and the acquisition does not wait. -/
def Thread.Leaves (w : World) : Thread X → Prop
  | .inside (.acquire m ctx lock ttl wait) log t _ =>
    (∀ d, (⟨.deployment, d⟩ : Exchange) ∈ log → d = w.store.deployment) ∧
      (w.store.deployment.isSharded = false → ¬ Unwritten log → t.wait = none ∧ 0 < ttl ∧
        ((Operation.acquire m ctx lock ttl wait).phase log).Deposited fun token =>
          w.Stores (lockKey lock) token (w.now + ttl))
  | _ => True

namespace Thread.Leaves

variable {w w' : World} {m : Manager} {ctx : Context} {lock : String} {ttl wait : Nat}
  {log : List Exchange} {next : Except Failure Bool → Client X Unit}

/-- What was written stays while others are at work. -/
theorem frame {th : Thread X} (h : th.Leaves w)
    (hdeployment : w'.store.deployment = w.store.deployment)
    (hnow : ¬ th.Suspended → w'.now = w.now)
    (hstores : ∀ token lock deadline, th.secret? = some token → w.now < deadline →
      w.Stores (lockKey lock) token deadline → w'.Stores (lockKey lock) token deadline) :
    th.Leaves w' := by
  cases th with
  | between t => trivial
  | inside o log t next =>
    cases o with
    | acquire m ctx lock ttl wait =>
      obtain ⟨htold, h⟩ := h
      rw [← hdeployment] at htold h
      refine ⟨htold, fun hsingle hwritten => ?_⟩
      obtain ⟨hwait, hpos, hdeposited⟩ := h hsingle hwritten
      refine ⟨hwait, hpos, hdeposited.mono fun token hsecret hst => ?_⟩
      have hnow : w'.now = w.now := hnow (by simp [Suspended, hwait])
      rw [hnow]
      exact hstores token lock _ hsecret (Nat.lt_add_of_pos_right hpos) hst
    | _ => trivial

/-- An acquisition makes an exchange. -/
theorem work {t t' : Task X (Except Failure Bool)} {x : Exchange}
    {k : x.effect.Reply → Program X (Except Failure Bool)}
    (h : (Thread.inside (.acquire m ctx lock ttl wait) log t next).Leaves w)
    (hafter : (m.acquire (X := X) ctx lock ttl wait).run.After log (.effect x.effect k))
    (hanswer : (w', x.reply) = w.answer t.wait x.effect) (hwait : t'.wait = none) :
    (Thread.inside (.acquire m ctx lock ttl wait) (log ++ [x]) t' next).Leaves w' := by
  obtain ⟨htold, h⟩ := h
  let o : Operation := .acquire m ctx lock ttl wait
  have hd : Deed w o (o.phase log) x w' (o.next (o.phase log) x) :=
    .of_answer ((o.obeys rfl).permits hafter) hanswer
  have htold' : ∀ d, (⟨.deployment, d⟩ : Exchange) ∈ log ++ [x] → d = w'.store.deployment := by
    intro d hmem
    rw [hd.deployment_eq]
    rcases List.mem_append.1 hmem with hmem | hmem
    · exact htold d hmem
    · cases List.mem_singleton.1 hmem
      exact congrArg Prod.snd hanswer
  refine ⟨htold', fun hsingle hwritten => ⟨hwait, ?_, ?_⟩⟩
  · refine Nat.pos_of_ne_zero fun hzero => ?_
    subst hzero
    obtain ⟨-, heq⟩ := hafter.of_done
    cases heq
  · rw [Operation.phase_concat]
    by_cases hunwritten : Unwritten log
    · -- this exchange was the write
      have hx : x.IsWritten :=
        Classical.byContradiction fun hno => hwritten (by simp [hunwritten, hno])
      exact hd.deposits rfl hx
    · rw [hd.deployment_eq] at hsingle
      obtain ⟨-, -, hdeposited⟩ := h hsingle hunwritten
      have hwaits : ¬ x.effect.MayWait := by
        have hbrief := (m.acquire_brief ctx lock ttl wait).permits hafter
        rw [brief_run] at hbrief
        rcases hbrief with hno | hfound | hno
        · exact absurd hno hunwritten
        · exact absurd hfound (not_foundSharded htold hsingle)
        · exact hno
      obtain ⟨hdeposited, hkeyspace⟩ := hdeposited.deed hd hwaits
      refine hdeposited.mono fun token _ hst => ?_
      rw [World.Stores, hkeyspace, hd.now_eq]
      exact hst

/-- An acquisition that waits has written nothing yet. -/
theorem await {t t' : Task X (Except Failure Bool)}
    (h : (Thread.inside (.acquire m ctx lock ttl wait) log t next).Leaves w)
    (hafter : (m.acquire (X := X) ctx lock ttl wait).run.After log t.program)
    (hs : t.step w = .waits w' t') :
    (Thread.inside (.acquire m ctx lock ttl wait) log t' next).Leaves w' := by
  obtain ⟨htold, h⟩ := h
  have hdeployment := (Task.alike_of_waits hs).deployment
  rw [← hdeployment] at htold h
  refine ⟨htold, fun hsingle hwritten => ?_⟩
  obtain ⟨hnone, -⟩ := h hsingle hwritten
  rcases Task.step_eq_waits hs with ⟨-, -, hwait⟩ | ⟨e, k, wait, hp, -, hwait, -⟩
  · rw [hnone] at hwait
    cases hwait
  · rw [hp] at hafter
    have hbrief := (m.acquire_brief ctx lock ttl _).permits hafter
    rw [brief_run] at hbrief
    rcases hbrief with hno | hfound | hno
    · exact absurd hno hwritten
    · exact absurd hfound (not_foundSharded htold hsingle)
    · cases (World.wait?_eq_none hno w).symm.trans hwait

end Thread.Leaves

namespace Machine

variable {mode : Scheduling} {tr tr' : List Event} {s s' : Machine X} {ev : Event}

/-- What acquisitions on a store that is not sharded have written is there. -/
def Leaves (s : Machine X) : Prop := ∀ th ∈ s.threads, th.Leaves s.world

/-- What was written stays while no operation makes an exchange. -/
theorem Leaves.quiet (h : s.Leaves) (hl : s.Lawful mode tr) (hs : s.LockStep mode ev s')
    (hkey : ∀ key, KeyChange tr none s.world ev s'.world key)
    (hthreads : ∀ th ∈ s'.threads, th.Leaves s'.world ∨
      th ∈ s.threads ∧ (¬ th.Suspended → s'.world.now = s.world.now)) : s'.Leaves := by
  intro th hth
  rcases hthreads th hth with hleaves | ⟨hmem, hnow⟩
  · exact hleaves
  · refine (h th hmem).frame (hl.deployment_eq hs) hnow ?_
    intro token lock deadline hsecret hlive hst
    have hrec := hl.hidden token (List.mem_filterMap.2 ⟨th, hmem, hsecret⟩)
    exact (hkey _).stores_after hrec nofun hst hlive

theorem Leaves.step (h : s.Leaves) (hl : s.Lawful mode tr) (hs : s.LockStep mode ev s') :
    s'.Leaves := by
  have hstep := hs.step
  cases hstep with
  | @thread w w' pre post th th' ev hm hth =>
    have hmem : th ∈ pre ++ th :: post := List.mem_append_right _ List.mem_cons_self
    have hout := hth.outcome hl.world (hl.threads th hmem) hs.spares
    have hother : ∀ t ∈ pre ++ post, t.Leaves w' := by
      intro t ht
      refine (h t (mem_middle_of_mem ht)).frame hout.deployment (fun _ => hout.now) ?_
      intro token lock deadline hsecret hlive hst
      obtain ⟨hown, hrec⟩ := hl.apart t ht token hsecret
      exact (hout.key _).stores_after hrec hown hst hlive
    intro t ht
    simp only [List.mem_append, Option.mem_toList] at ht
    rcases ht with (ht | ht) | ht
    · exact hother t (List.mem_append_left _ ht)
    · cases hth with
      | @call t o next hasks ho =>
        cases ht
        cases o with
        | acquire m ctx lock ttl wait =>
          exact ⟨fun _ hmem => (nomatch hmem), fun _ hno => absurd unwritten_nil hno⟩
        | _ => trivial
      | @work o log t t' next w' x hmoved hx =>
        cases ht
        cases o with
        | acquire m ctx lock ttl wait =>
          obtain ⟨hafter, -⟩ := hl.threads _ hmem rfl
          obtain ⟨k, hp, -, hanswer, rfl⟩ := Task.step_eq_moved hmoved hx
          rw [hp] at hafter
          exact (h _ hmem).work hafter hanswer rfl
        | _ => trivial
      | @await o log t t' next w' hwaits =>
        cases ht
        cases o with
        | acquire m ctx lock ttl wait =>
          obtain ⟨hafter, -⟩ := hl.threads _ hmem rfl
          exact (h _ hmem).await hafter hwaits
        | _ => trivial
      | finish hfinished => cases ht
      | _ =>
        cases ht
        trivial
    · exact hother t (List.mem_append_right _ ht)
  | start c =>
    refine h.quiet hl hs (fun _ => .same rfl) fun t ht => ?_
    rcases List.mem_append.1 ht with ht | ht
    · exact .inr ⟨ht, fun _ => rfl⟩
    · cases List.mem_singleton.1 ht
      exact .inl trivial
  | @drop w pre post th runtime hsuspended =>
    have hforgets := th.drop_forgets w
    refine h.quiet hl hs (fun _ => .same (by rw [hforgets.keyspace])) fun t ht => ?_
    rcases List.mem_append.1 ht with ht | ht
    · exact .inr ⟨mem_middle_of_mem ht, fun _ => hforgets.now⟩
    · cases runtime with
      | true =>
        obtain ⟨d, -, rfl⟩ := List.mem_map.1 ht
        exact .inl trivial
      | false => cases ht
  | purge =>
    exact h.quiet hl hs (.of_purge s.world none) fun _ ht => .inr ⟨ht, fun _ => rfl⟩
  | elapse ms hall =>
    exact h.quiet hl hs (fun _ => .same rfl) fun t ht =>
      .inr ⟨ht, fun hrest => absurd (hall t ht) hrest⟩
  | configure d hd =>
    exact h.quiet hl hs (fun _ => .same rfl) fun _ ht => .inr ⟨ht, fun _ => rfl⟩

theorem leaves_of_run {s₀ : Machine X} (h₀ : s₀.Initial) (h : Run (LockStep mode) s₀ tr s) :
    s.Leaves := by
  induction h with
  | nil =>
    intro th hth
    rw [h₀.threads] at hth
    cases hth
  | snoc h hs ih => exact ih.step (lawful_of_run h₀ h) hs

/-- What is known of an acquisition that returns. -/
theorem Leaves.returned {m : Manager} {ctx : Context} {lock : String} {ttl wait : Nat}
    {log : List Exchange} {r : Except Failure Bool} (h : s.Leaves)
    (hs : s.LockStep mode (.returned (.acquire m ctx lock ttl wait) log r) s') :
    ∃ t next,
      (Thread.inside (X := X) (.acquire m ctx lock ttl wait) log t next).Leaves s.world := by
  have hstep := hs.step
  cases hstep with
  | @thread w w' pre post th th' ev hm hth =>
    cases hth with
    | @«return» _ _ t next _ hfinished =>
      exact ⟨t, next, h _ (List.mem_append_right _ List.mem_cons_self)⟩

/-- What an acquisition that fails on a store that is not sharded leaves behind, in every run of any
clients.

If the store has answered that the token was written, the time from the call to the reading of the
clock after the write was as long as the lifetime or longer, the answer is false, and when the
acquisition returns the key of the lock has the token for a whole lifetime more. Otherwise no key
has the token; other keys never have it. -/
theorem late_token_is_left {s₀ s₁ s₂ : Machine X} {m : Manager} {ctx : Context} {lock : String}
    {ttl wait : Nat} {log : List Exchange} {r : Except Failure Bool} {token : Token}
    (h₀ : s₀.Initial) (hsingle : s₀.world.store.deployment.isSharded = false)
    (h : Run (LockStep mode) s₀ tr s₁)
    (hs : s₁.LockStep mode (.returned (.acquire m ctx lock ttl wait) log r) s₂) (hr : r ≠ .ok true)
    (hmint : (⟨.mint, token⟩ : Exchange) ∈ log) :
    (∀ key, s₂.world.Carries key token ↔ key = lockKey lock ∧ ∃ x ∈ log, x.IsWritten) ∧
      ∀ x ∈ log, x.IsWritten →
        s₂.world.store.keyspace.live? s₂.world.now (lockKey lock) =
          some ⟨Entry.ofText token, some (s₂.world.now + ttl)⟩ ∧
        r = .ok false ∧ ∃ (started : Nat) (pre : List Exchange) (now : Nat) (post : List Exchange),
          log = ⟨.clock, started⟩ :: (pre ++ x :: ⟨.clock, now⟩ :: post) ∧ ttl ≤ now - started := by
  have hl := lawful_of_run h₀ h
  rw [← deployment_of_run h₀ h] at hsingle
  obtain ⟨hworld, hafter, hsettles, wait', hfits⟩ := hl.returned hs rfl
  have hminted := Operation.minted?_phase (o := .acquire m ctx lock ttl wait) rfl hafter hmint
  obtain ⟨t, next, htold, hleaves⟩ := (leaves_of_run h₀ h).returned hs
  have hdecided := (m.acquire_brief ctx lock ttl wait).final hafter
  rw [brief_run] at hdecided
  have hcases := hfits.late_or_nowhere hsettles hr hminted
  have hstored : ∀ x ∈ log, x.IsWritten →
      s₁.world.Stores (lockKey lock) token (s₁.world.now + ttl) ∧ 0 < ttl := by
    intro x hmem hx
    obtain ⟨-, hpos, hdeposited⟩ := hleaves hsingle fun hno => hno x hmem hx
    rcases hcases with hlate | ⟨hno, -⟩
    · rw [hlate] at hdeposited
      exact ⟨hdeposited, hpos⟩
    · exact absurd hdeposited (hno _)
  rw [hworld]
  refine ⟨fun key => ⟨fun hc => ?_, ?_⟩, fun x hmem hx => ?_⟩
  · rcases hcases with hlate | ⟨-, hno⟩
    · have hphase : ((Operation.acquire m ctx lock ttl wait).phase log).IsStored := by
        rw [hlate]
        trivial
      rw [hlate] at hfits
      obtain ⟨p, -, hm⟩ := hfits.1.mintedFor rfl
      refine ⟨hl.world.key_of_carries hm hc, Classical.byContradiction fun hno => ?_⟩
      have hunwritten : Unwritten log := fun x hmem hx => hno ⟨x, hmem, hx⟩
      have hstart : ¬ (Phase.seeking 0).IsStored := id
      exact Operation.not_isStored_of_unwritten hstart hunwritten hphase
    · exact absurd hc (hno key)
  · rintro ⟨rfl, x, hmem, hx⟩
    obtain ⟨hst, hpos⟩ := hstored x hmem hx
    exact hst.carries (Nat.lt_add_of_pos_right hpos)
  · obtain ⟨hst, hpos⟩ := hstored x hmem hx
    have hlive : Entry.isLive ⟨Entry.ofText token, some (s₁.world.now + ttl)⟩ s₁.world.now = true :=
      decide_eq_true (Nat.lt_add_of_pos_right hpos)
    refine ⟨Keyspace.live?_eq_some.2 ⟨hst, hlive⟩, ?_⟩
    rcases hdecided x hmem hx with hfound | ⟨started, pre, now, post, heq, rfl⟩
    · exact absurd hfound (not_foundSharded htold hsingle)
    · have hover : ¬ now - started < ttl := fun hin => hr (by rw [decide_eq_true hin])
      rw [decide_eq_false hover]
      exact ⟨rfl, started, pre, now, post, heq, Nat.not_lt.1 hover⟩

end Machine

/-- A store on which every write takes 30 milliseconds. -/
def World.slow : World := .ofStore { Memory.standalone with latency := 30 } 0

namespace Machine

/-- An acquisition for 20 milliseconds on a store on which a write takes longer than that fails, and
the key of the lock has its token for 20 milliseconds more. -/
theorem late_token_is_left_slow :
    ∃ (s₁ s₂ : Machine Extension.none) (tr : List Event) (log : List Exchange)
        (r : Except Failure Bool) (token : Token),
      World.slow.store.deployment.isSharded = false ∧
      Run (LockStep .cooperative) ⟨World.slow, []⟩ tr s₁ ∧
      s₁.LockStep .cooperative (.returned (.acquire {} "a" "L" 20 0) log r) s₂ ∧
      (⟨.mint, token⟩ : Exchange) ∈ log ∧ (∃ x ∈ log, x.IsWritten) ∧ r = .ok false ∧
      s₂.world.Carries (lockKey "L") token ∧
      s₂.world.store.keyspace.live? s₂.world.now (lockKey "L") =
        some ⟨Entry.ofText token, some (s₂.world.now + 20)⟩ := by
  have hfails : ((Operation.acquire {} "a" "L" 20 0).program (X := .none)).Ensures World.solo
      World.slow fun w r => r.toOption = some false ∧
        (w.store.keyspace.live? w.now (lockKey "L")).any (·.holds (Token.ofSerial 0)) = true := by
    decide +kernel
  obtain ⟨tr, r, s₁, s₂, ⟨hanswer, hc⟩, hrun, hreturn⟩ :=
    @run_call_solo .none .cooperative (.acquire {} "a" "L" 20 0) rfl trivial World.slow _ hfails
  let log := ((Operation.acquire {} "a" "L" 20 0).program (X := .none)).soloExchanges World.slow
  have h₀ : (⟨World.slow, []⟩ : Machine Extension.none).Initial := initial_ofStore rfl 0
  have hr : r ≠ .ok true := by
    rintro rfl
    cases hanswer
  have hmint : (⟨.mint, Token.ofSerial 0⟩ : Exchange) ∈ log :=
    .tail _ (.tail _ (.tail _ (.head _)))
  have hcarries : s₂.world.Carries (lockKey "L") (Token.ofSerial 0) := (Option.any_eq_true _ _).1 hc
  obtain ⟨hiff, hleft⟩ := late_token_is_left h₀ rfl hrun hreturn hr hmint
  obtain ⟨-, x, hmem, hx⟩ := (hiff _).1 hcarries
  obtain ⟨hlive, hfalse, -⟩ := hleft x hmem hx
  exact ⟨s₁, s₂, tr, log, r, _, rfl, hrun, hreturn, hmint, ⟨x, hmem, hx⟩, hfalse, hcarries, hlive⟩

end Machine

end Latchkey
