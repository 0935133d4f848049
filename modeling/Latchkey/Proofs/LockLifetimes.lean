import Latchkey.Proofs.LostTokens
import Latchkey.Proofs.Terms

/-!
# The lifetimes of locks

A lock key gets a deadline whenever it gets a value, and a new deadline only together with a token
that an acquisition writes or refreshes. So a lock whose owner is silent is free again once the
lifetime of the last acquisition is over, whatever has become of the owner.

The main statement is `locks_heal`, for runs in which nobody but lock operations writes lock keys.
-/

namespace Latchkey

variable {X : Extension}

/-! ## Time in traces -/

/-- The time that passes in an event. -/
def Event.duration : Event → Nat
  | .elapsed ms => ms
  | _ => 0

/-- The time that passes in a trace. -/
def elapsed : List Event → Nat
  | [] => 0
  | ev :: tr => ev.duration + elapsed tr

@[simp] theorem elapsed_nil : elapsed [] = 0 := rfl

theorem elapsed_append (tr tr' : List Event) : elapsed (tr ++ tr') = elapsed tr + elapsed tr' := by
  induction tr with
  | nil => simp
  | cons ev tr ih =>
    simp only [List.cons_append, elapsed, ih]
    omega

theorem elapsed_snoc (tr : List Event) (ev : Event) :
    elapsed (tr ++ [ev]) = elapsed tr + ev.duration := by
  rw [elapsed_append]
  rfl

theorem Task.now_of_moved {α : Type} {w w' : World} {t t' : Task X α} {x : Exchange}
    (hs : t.step w = .moved w' t') (hx : t.exchange? w = some x) : w'.now = w.now := by
  obtain ⟨k, -, -, hanswer, -⟩ := Task.step_eq_moved hs hx
  obtain rfl := congrArg Prod.fst hanswer
  exact w.answer_now ..

/-- No time passes while a thread goes on. -/
theorem Thread.Step.now {w w' : World} {th : Thread X} {ev : Event} {th' : Option (Thread X)}
    (h : th.Step w ev w' th') : w'.now = w.now ∧ ev.duration = 0 := by
  cases h with
  | perform hs hx => exact ⟨Task.now_of_moved hs hx, rfl⟩
  | work hs hx => exact ⟨Task.now_of_moved hs hx, rfl⟩
  | rest hs => exact ⟨(Task.alike_of_waits hs).now, rfl⟩
  | await hs => exact ⟨(Task.alike_of_waits hs).now, rfl⟩
  | _ => exact ⟨rfl, rfl⟩

/-! ## Renewals -/

/-- An acquisition gives the key of a lock a token for a lifetime: the store has written the token,
or refreshed it. -/
inductive Event.Renews (lock : String) (token : Token) (ttl : Nat) : Event → Prop where
  /-- The token is written. -/
  | wrote (m : Manager) (ctx : Context) (wait : Nat) (conn : Connection) :
      Renews lock token ttl (.did (.acquire m ctx lock ttl wait)
        ⟨.call (.command conn (.set (lockKey lock) token ttl true)), .ok true⟩)
  /-- The token is refreshed. -/
  | refreshed (m : Manager) (ctx : Context) (wait : Nat) (conn : Connection) :
      Renews lock token ttl (.did (.acquire m ctx lock ttl wait)
        ⟨.call (.command conn (.compareAndExpire (lockKey lock) token ttl)), .ok true⟩)

/-- Whether an event renews a lock. -/
def Event.IsRenewal (lock : String) (ev : Event) : Prop := ∃ token ttl, ev.Renews lock token ttl

theorem Event.IsRenewal.isDeed {lock : String} {ev : Event} (h : ev.IsRenewal lock) :
    ev.IsDeed := by
  obtain ⟨token, ttl, h⟩ := h
  cases h <;> exact ⟨_, _, rfl, rfl⟩

/-- What an event does to the key of a lock: it is a renewal, or it gives the key no value. -/
inductive KeyFate (lock : String) (w : World) (ev : Event) (w' : World) : Prop where
  /-- The lock is renewed. -/
  | renewed {token : Token} {ttl : Nat} (hev : ev.Renews lock token ttl)
      (h : w'.Stores (lockKey lock) token (w.now + ttl))
  /-- The key stays as it is. -/
  | same (hev : ¬ ev.IsRenewal lock)
      (h : w'.store.keyspace.find? (lockKey lock) = w.store.keyspace.find? (lockKey lock))
  /-- The key is removed. -/
  | gone (hev : ¬ ev.IsRenewal lock) (h : w'.store.keyspace.find? (lockKey lock) = none)

namespace Deed

variable {w w' : World} {s s' : Phase} {x : Exchange} {o : Operation}

/-- An acquisition that writes or refreshes a token does so for its lock and its lifetime. -/
theorem eq_acquire {lock : String} (hacquire : o.IsAcquire) (ho : o.lock? = some lock) :
    ∃ m ctx ttl wait, o = .acquire m ctx lock ttl wait := by
  cases o with
  | acquire m ctx lock' ttl wait =>
    cases ho
    exact ⟨m, ctx, ttl, wait, rfl⟩
  | _ => cases hacquire

/-- A deed that is no renewal of a lock gives its key no value. -/
theorem keyFate (h : Deed w o s x w' s') {sur : Surrender} (hmay : o.mayPerform sur x.effect)
    (hterms : ∀ m ctx lock ttl wait, o = .acquire m ctx lock ttl wait →
      ∃ told, Terms.permits ttl wait told x.effect) (lock : String) :
    KeyFate lock w (.did o x) w' := by
  cases h with
  | @write lock' token ho conn clock sharded ks b hks =>
    obtain ⟨m, ctx, ttl, wait, rfl⟩ := eq_acquire hmay ho
    have hfind := Keyspace.find?_of_set hks (lockKey lock)
    by_cases hwrites : lock = lock' ∧ b = true
    · obtain ⟨rfl, rfl⟩ := hwrites
      exact .renewed (.wrote m ctx wait conn) (hfind.trans (if_pos ⟨rfl, rfl⟩))
    · refine .same ?_ (hfind.trans (if_neg fun hw => hwrites ⟨lockKey_inj.1 hw.1, hw.2⟩))
      rintro ⟨token', ttl', hrenews⟩
      cases hrenews
      exact hwrites ⟨rfl, rfl⟩
  | @expire lock' token ttl ho conn hpos ks b hks =>
    obtain ⟨m, ctx, ttl', wait, rfl⟩ := eq_acquire hmay ho
    obtain ⟨told, hterm⟩ := hterms m ctx lock' ttl' wait rfl
    obtain rfl : ttl = ttl' := hterm
    have hfind := Keyspace.find?_of_compareAndExpire hks (lockKey lock)
    by_cases hwrites : lock = lock' ∧ b = true
    · obtain ⟨rfl, rfl⟩ := hwrites
      exact .renewed (.refreshed m ctx wait conn) (hfind.trans (if_pos ⟨rfl, rfl⟩))
    · refine .same ?_ (hfind.trans (if_neg fun hw => hwrites ⟨lockKey_inj.1 hw.1, hw.2⟩))
      rintro ⟨token', ttl', hrenews⟩
      cases hrenews
      exact hwrites ⟨rfl, rfl⟩
  | @delete lock' token s ho conn hs ks b hks =>
    have hfind := Keyspace.find?_of_compareAndDelete hks (lockKey lock)
    have hno : ¬ (Event.did o ⟨.call (.command conn (.compareAndDelete (lockKey lock') token)),
        .ok b⟩).IsRenewal lock := by
      rintro ⟨token', ttl', hrenews⟩
      cases hrenews
    by_cases hdeletes : lockKey lock = lockKey lock' ∧ b = true
    · exact .gone hno (hfind.trans (if_pos hdeletes))
    · exact .same hno (hfind.trans (if_neg hdeletes))
  | other ha hplain =>
    refine .same ?_ (by rw [ha.keyspace])
    rintro ⟨token', ttl', hrenews⟩
    cases hrenews <;> exact hplain
  | _ =>
    refine .same ?_ rfl
    rintro ⟨token', ttl', hrenews⟩
    cases hrenews

end Deed

/-! ## Steps and runs of machines -/

namespace Machine

variable {mode : Scheduling} {tr : List Event} {s s' s₀ : Machine X} {ev : Event} {lock : String}
  {token : Token}

theorem Step.now (h : Step mode s ev s') : s'.world.now = s.world.now + ev.duration := by
  cases h with
  | thread hm hth =>
    obtain ⟨hnow, hzero⟩ := hth.now
    rw [hzero]
    exact hnow
  | @drop w pre post th runtime hs => exact (th.drop_forgets w).now
  | _ => rfl

/-- The clock shows what time has passed. -/
theorem now_of_run (h : Run (Step mode) s₀ tr s) :
    s.world.now = s₀.world.now + elapsed tr := by
  induction h with
  | nil => rfl
  | snoc h hs ih =>
    rw [hs.now, ih, elapsed_snoc]
    omega

/-- An exchange of a lock operation renews the lock or gives its key no value. -/
theorem Logged.keyFate {o : Operation} {x : Exchange} (h : s.Logged tr)
    (hs : s.Step mode (.did o x) s') (ho : o.IsLock) (lock : String) :
    KeyFate lock s.world (.did o x) s'.world := by
  obtain ⟨log, next, waited, -, hafter, hanswer⟩ := h.did hs
  have hdeed : Deed s.world o (o.phase log) x s'.world (o.next (o.phase log) x) :=
    .of_answer ((o.obeys ho).permits hafter) hanswer
  have hmay : o.mayPerform (o.surrender log) x.effect := (o.conducts ho).permits hafter
  refine hdeed.keyFate hmay ?_ lock
  rintro m ctx lock' ttl wait rfl
  exact ⟨_, (m.acquire_keepsTerms ctx lock' ttl wait).permits hafter⟩

/-- In a step the key of a lock gets a value by a renewal only. -/
theorem KeyStep.keyFate (h : s.KeyStep mode ev s') (hlog : s.Logged tr) (lock : String) :
    KeyFate lock s.world ev s'.world := by
  obtain ⟨hstep, hkeys⟩ := h
  by_cases hdeed : ev.IsDeed
  · obtain ⟨o, x, rfl, ho⟩ := hdeed
    exact hlog.keyFate hstep ho lock
  · have hno : ¬ ev.IsRenewal lock := fun hrenewal => hdeed hrenewal.isDeed
    by_cases hforeign : ev.IsForeign
    · exact .same hno (hkeys hforeign lock)
    · cases hstep with
      | @thread w w' pre post th th' ev hm hth =>
        cases hth with
        | perform hs hx => exact absurd trivial hforeign
        | @work o log t t' next w' x hs hx =>
          by_cases ho : o.IsLock
          · exact absurd ⟨o, x, rfl, ho⟩ hdeed
          · exact absurd ho hforeign
        | rest hs => exact .same hno (by rw [(Task.alike_of_waits hs).keyspace])
        | await hs => exact .same hno (by rw [(Task.alike_of_waits hs).keyspace])
        | _ => exact .same hno rfl
      | @drop w pre post th runtime hs => exact .same hno (by rw [(th.drop_forgets w).keyspace])
      | purge =>
        have hfind := Keyspace.find?_purge s.world.store.keyspace s.world.now (lockKey lock)
        cases hlive : s.world.store.keyspace.live? s.world.now (lockKey lock) with
        | none => exact .gone hno (hfind.trans hlive)
        | some e =>
          have hsame := (Keyspace.live?_eq_some.1 hlive).1
          exact .same hno ((hfind.trans hlive).trans hsame.symm)
      | _ => exact .same hno rfl

/-- An entry was left under the key of a lock by the last renewal of the lock in a trace that began
at a time. -/
def LeftByRenewal (start : Nat) (tr : List Event) (lock : String) (e : Entry) : Prop :=
  ∃ token ttl tr₁ ev tr₂, tr = tr₁ ++ ev :: tr₂ ∧ ev.Renews lock token ttl ∧
    (∀ ev' ∈ tr₂, ¬ ev'.IsRenewal lock) ∧
    e = ⟨Entry.ofText token, some (start + elapsed tr₁ + ttl)⟩

theorem LeftByRenewal.snoc {start : Nat} {e : Entry} (h : LeftByRenewal start tr lock e)
    (hev : ¬ ev.IsRenewal lock) : LeftByRenewal start (tr ++ [ev]) lock e := by
  obtain ⟨token, ttl, tr₁, ev₁, tr₂, rfl, hrenews, hlast, he⟩ := h
  refine ⟨token, ttl, tr₁, ev₁, tr₂ ++ [ev], by simp, hrenews, ?_, he⟩
  intro ev' hmem
  rcases List.mem_append.1 hmem with hmem | hmem
  · exact hlast ev' hmem
  · rw [List.mem_singleton.1 hmem]
    exact hev

/-- What is under the key of a lock was left there by the last renewal. -/
theorem leftByRenewal_of_run (hthreads : s₀.threads = [])
    (hvacant : ∀ lock, s₀.world.store.keyspace.find? (lockKey lock) = none)
    (h : Run (KeyStep mode) s₀ tr s) {e : Entry}
    (he : s.world.store.keyspace.find? (lockKey lock) = some e) :
    LeftByRenewal s₀.world.now tr lock e := by
  induction h generalizing e with
  | nil =>
    rw [hvacant] at he
    cases he
  | @snoc tr s₁ s₂ ev h hs ih =>
    have hrun : Run (Step mode) s₀ tr s₁ := h.mono KeyStep.step
    cases hs.keyFate (logged_of_run hthreads hrun) lock with
    | @renewed token ttl hev hst =>
      refine ⟨token, ttl, tr, ev, [], rfl, hev, List.forall_mem_nil _, ?_⟩
      rw [← now_of_run hrun]
      exact Option.some.inj (he.symm.trans hst)
    | same hev hsame =>
      rw [hsame] at he
      exact (ih he).snoc hev
    | gone hev hgone =>
      rw [hgone] at he
      cases he

/-- Locks heal by themselves, in every run of any clients in which nobody but lock operations writes
lock keys.

A value under the key of a lock is the token of the last renewal of the lock, with a deadline which
is the time of that renewal and the lifetime that the acquisition was called with. If no renewal
with a token comes after a time, the key does not have the token any more when the longest lifetime
that such renewals had has passed after that time. -/
theorem locks_heal (hthreads : s₀.threads = [])
    (hvacant : ∀ lock, s₀.world.store.keyspace.find? (lockKey lock) = none)
    (h : Run (KeyStep mode) s₀ tr s) :
    s.world.now = s₀.world.now + elapsed tr ∧
    (∀ {lock : String} {e : Entry}, s.world.store.keyspace.find? (lockKey lock) = some e →
      ∃ token ttl tr₁ ev tr₂, tr = tr₁ ++ ev :: tr₂ ∧ ev.Renews lock token ttl ∧
        (∀ ev' ∈ tr₂, ∀ token' ttl', ¬ ev'.Renews lock token' ttl') ∧
        e = ⟨Entry.ofText token, some (s₀.world.now + elapsed tr₁ + ttl)⟩) ∧
    ∀ {lock : String} {token : Token} {t longest : Nat},
      (∀ {tr₁ ev tr₂ ttl}, tr = tr₁ ++ ev :: tr₂ → ev.Renews lock token ttl →
        s₀.world.now + elapsed tr₁ ≤ t ∧ ttl ≤ longest) →
      t + longest ≤ s.world.now → ¬ s.world.Carries (lockKey lock) token := by
  refine ⟨now_of_run (h.mono KeyStep.step), ?_, ?_⟩
  · intro lock e he
    obtain ⟨token, ttl, tr₁, ev, tr₂, heq, hrenews, hlast, hentry⟩ :=
      leftByRenewal_of_run hthreads hvacant h he
    exact ⟨token, ttl, tr₁, ev, tr₂, heq, hrenews,
      fun ev' hmem token' ttl' hr => hlast ev' hmem ⟨token', ttl', hr⟩, hentry⟩
  · intro lock token t longest hrenewals hle hc
    obtain ⟨e, he, ht⟩ := id hc
    obtain ⟨token', ttl, tr₁, ev, tr₂, heq, hrenews, -, hentry⟩ :=
      leftByRenewal_of_run hthreads hvacant h (Keyspace.live?_eq_some.1 he).1
    have hst : s.world.Stores (lockKey lock) token' (s₀.world.now + elapsed tr₁ + ttl) :=
      (Keyspace.live?_eq_some.1 he).1.trans (congrArg some hentry)
    obtain rfl : token = token' := hst.eq_of_carries hc
    obtain ⟨hbefore, hlifetime⟩ := hrenewals heq hrenews
    exact hst.not_carries (by omega) token hc

/-- A client that calls a lock operation that never waits, on a machine without others: nothing but
this operation does anything. -/
theorem run_only {o : Operation} (ho : o.IsLock) (hc : o.IsCall) {w : World}
    {Q : World → o.Answer → Prop} (h : (o.program (X := .none)).Ensures World.alone w Q) :
    ∃ tr, Run (LockStep (X := .none) mode) ⟨w, []⟩ tr ⟨(o.program.runOn w).1, []⟩ ∧
      ∀ o' x, .did o' x ∈ tr → o' = o := by
  let c : Client .none Unit := Client.invoke o >>= fun _ => .done ()
  obtain ⟨w', a, conns, guards, ⟨hrun, -⟩, hcall, hreturned⟩ :=
    @run_operation .none mode o hc w _
      (h.exact (fun _ _ (op : Extension.none.Op) => Empty.elim op) ()) (fun _ => .done ()) [] []
  have hworld : (o.program.runOn w).1 = w' := by
    rw [Program.runOn, hrun]
  have hstart : LockStep mode (⟨w, []⟩ : Machine .none) .silent
      ⟨w, [.between { program := c }]⟩ := ⟨.start c, fun hforeign => hforeign.elim⟩
  have hreturn : LockStep mode _ (.returned o (o.program.exchanges w) a) _ :=
    ⟨hreturned, fun hforeign => hforeign.elim⟩
  rw [hworld]
  refine ⟨_, (((Run.single hstart).append (LockStep.of_isLock ho hcall)).snoc hreturn).append
    (.single (step_finish w' conns guards)), ?_⟩
  intro o' x hmem
  have hdid : Event.did o' x ∈ (o.program (X := .none).exchanges w).map (.did o) := by
    simpa using hmem
  obtain ⟨y, -, heq⟩ := List.mem_map.1 hdid
  cases heq
  rfl

/-- A context acquires a lock for 20 milliseconds and is not heard of any more: its token is gone
when they are over. -/
theorem locks_heal_after_lapse :
    ∃ (s₀ s₁ s : Machine Extension.none) (tr₁ : List Event),
      s₀.threads = [] ∧ (∀ lock, s₀.world.store.keyspace.find? (lockKey lock) = none) ∧
      Run (KeyStep .cooperative) s₀ tr₁ s₁ ∧
      s₁.world.Carries (lockKey "L") (Token.ofSerial 0) ∧
      Run (KeyStep .cooperative) s₀ (tr₁ ++ [.elapsed 20]) s ∧
      s.world.now = s₀.world.now + elapsed (tr₁ ++ [.elapsed 20]) ∧
      ¬ s.world.Carries (lockKey "L") (Token.ofSerial 0) := by
  have hvacant : ∀ lock, World.fresh.store.keyspace.find? (lockKey lock) = none := fun _ => rfl
  have hgone : World.fresh.store.keyspace.live? World.fresh.now (lockKey "L") = none := rfl
  obtain ⟨tr₁, hcall, honly⟩ := @run_only .cooperative (.acquire {} "a" "L" 20 0) rfl trivial
    World.fresh _ (Manager.acquire_ensures World.fresh_ready {} "a" 0 (by decide) hgone)
  let w := ((({} : Manager).acquire "a" "L" 20 0).run.runOn World.fresh).1
  have h₁ : Run (KeyStep .cooperative) (⟨World.fresh, []⟩ : Machine .none) tr₁ ⟨w, []⟩ :=
    hcall.mono LockStep.keyStep
  have hc : w.Carries (lockKey "L") (Token.ofSerial 0) := by
    refine (Option.any_eq_true _ _).1 ?_
    decide +kernel
  have htime : Step .cooperative (⟨w, []⟩ : Machine .none) (.elapsed 20) ⟨w.later 20, []⟩ :=
    .elapse 20 fun _ hmem => nomatch hmem
  have h := h₁.snoc ⟨htime, fun hforeign => hforeign.elim⟩
  obtain ⟨hnow, -, hhealed⟩ := locks_heal rfl hvacant h
  have hzero : elapsed tr₁ = 0 := by
    have hnow₁ : w.now = World.fresh.now + elapsed tr₁ := now_of_run (h₁.mono KeyStep.step)
    have hw : w.now = 0 := by decide +kernel
    have hfresh : World.fresh.now = 0 := rfl
    omega
  refine ⟨_, _, _, tr₁, rfl, hvacant, h₁, hc, h, hnow, ?_⟩
  refine @hhealed "L" (Token.ofSerial 0) 0 20 ?_ (by decide +kernel)
  intro before ev after ttl heq hrenews
  rcases List.eq_nil_or_concat after with rfl | ⟨after', last, rfl⟩
  · obtain ⟨-, hev⟩ := List.append_inj' heq rfl
    cases hev
    cases hrenews
  · rw [List.concat_eq_append, ← List.cons_append, ← List.append_assoc] at heq
    obtain ⟨hinit, -⟩ := List.append_inj' heq rfl
    constructor
    · rw [hinit, elapsed_append] at hzero
      show 0 + elapsed before ≤ 0
      omega
    · have hmem : ev ∈ tr₁ := by simp [hinit]
      cases hrenews with
      | wrote m ctx wait conn =>
        cases honly _ _ hmem
        exact Nat.le_refl _
      | refreshed m ctx wait conn =>
        cases honly _ _ hmem
        exact Nat.le_refl _

end Machine

end Latchkey
