import Latchkey.Proofs.Invariant

/-!
# Schedules

What a machine does next is open: any thread may go on, be dropped, or wait while time passes. A
schedule makes these choices, and playing it finds the trace and the machine that it leads to, or
that the machine cannot do as it says.

The main statements are `Machine.run_of_play` and `Machine.lockRun_of_play`: what is played is a
run.
-/

namespace Latchkey

variable {X : Extension}

/-- What is to happen next. -/
inductive Move (X : Extension) where
  /-- A client begins. -/
  | start (c : Client X Unit)
  /-- A thread goes on. -/
  | go (i : Nat)
  /-- A thread is dropped. -/
  | drop (i : Nat) (runtime : Bool)
  /-- Time passes. -/
  | elapse (ms : Nat)
  /-- The store is disturbed, repaired or closed. -/
  | configure (d : Disturbance)

instance : DecidablePred Operation.IsCall
  | .clear .. => .isFalse id
  | .acquire .. => .isTrue trivial
  | .release .. => .isTrue trivial
  | .dispose .. => .isTrue trivial
  | .createFilter _ => .isTrue trivial
  | .addElement .. => .isTrue trivial
  | .testElement .. => .isTrue trivial

instance (m : Manager) (ctx : Context) (lock : String) (ttl wait : Nat) :
    DecidablePred (· = Operation.acquire m ctx lock ttl wait)
  | .acquire m' ctx' lock' ttl' wait' =>
    decidable_of_iff (m' = m ∧ ctx' = ctx ∧ lock' = lock ∧ ttl' = ttl ∧ wait' = wait)
      (Operation.acquire.injEq ..).symm.to_iff
  | .release .. => .isFalse Operation.noConfusion
  | .dispose .. => .isFalse Operation.noConfusion
  | .clear .. => .isFalse Operation.noConfusion
  | .createFilter _ => .isFalse Operation.noConfusion
  | .addElement .. => .isFalse Operation.noConfusion
  | .testElement .. => .isFalse Operation.noConfusion

instance (m : Manager) (ctx : Context) (lock : String) :
    DecidablePred (· = Operation.release m ctx lock)
  | .release m' ctx' lock' =>
    decidable_of_iff (m' = m ∧ ctx' = ctx ∧ lock' = lock)
      (Operation.release.injEq ..).symm.to_iff
  | .acquire .. => .isFalse Operation.noConfusion
  | .dispose .. => .isFalse Operation.noConfusion
  | .clear .. => .isFalse Operation.noConfusion
  | .createFilter _ => .isFalse Operation.noConfusion
  | .addElement .. => .isFalse Operation.noConfusion
  | .testElement .. => .isFalse Operation.noConfusion

/-- Whether an event is an exchange of a given operation. -/
def Event.IsOf (o : Operation) : Event → Prop
  | .did o' _ => o' = o
  | _ => False

instance (o : Operation) [DecidablePred (· = o)] : DecidablePred (Event.IsOf o)
  | .did o' _ => inferInstanceAs (Decidable (o' = o))
  | .silent => .isFalse id
  | .began _ => .isFalse id
  | .returned .. => .isFalse id
  | .performed _ => .isFalse id
  | .dropped _ => .isFalse id
  | .purged => .isFalse id
  | .elapsed _ => .isFalse id
  | .configured => .isFalse id

instance : DecidablePred Event.IsForeign
  | .did o _ => inferInstanceAs (Decidable (¬ o.owner?.isSome = true))
  | .performed _ => .isTrue trivial
  | .silent => .isFalse id
  | .began _ => .isFalse id
  | .returned .. => .isFalse id
  | .dropped _ => .isFalse id
  | .purged => .isFalse id
  | .elapsed _ => .isFalse id
  | .configured => .isFalse id

/-- Whether an event is the return of an operation with an answer that passes a check. -/
def Event.isReturn (o : Operation) [DecidablePred (· = o)] (check : o.Answer → Bool) :
    Event → Bool
  | .returned o' _ a => if h : o' = o then check (h ▸ a) else false
  | _ => false

theorem Event.eq_of_isReturn {o : Operation} [DecidablePred (· = o)] {check : o.Answer → Bool}
    {ev : Event} (h : ev.isReturn o check = true) :
    ∃ log a, ev = .returned o log a ∧ check a = true := by
  unfold isReturn at h
  split at h
  · next o' log a =>
    split at h
    · next ho =>
      cases ho
      exact ⟨log, a, rfl, h⟩
    · cases h
  · cases h

/-- Whether an event is a deletion of a key, or an attempt at it. -/
def Event.isDeletion : Event → Bool
  | .did _ ⟨.call (.command _ (.compareAndDelete ..)), _⟩ => true
  | _ => false

theorem not_deletedBy_of_isDeletion {tr : List Event} (h : tr.all (!·.isDeletion) = true)
    (p : Owner) (lock : String) (token : Token) : ¬ DeletedBy tr p lock token := by
  rintro ⟨o, conn, -, hmem⟩
  cases List.all_eq_true.1 h _ hmem

namespace Thread

/-- Whether a thread waits for time or for a connection. -/
def isWaiting : Thread X → Bool
  | .between t => t.wait.isSome
  | .inside _ _ t _ => t.wait.isSome

theorem suspended_of_isWaiting {th : Thread X} (h : th.isWaiting = true) : th.Suspended := by
  cases th with
  | between t => exact .inl h
  | inside o log t next => exact h

/-- The next step of a thread that does not ask its surroundings. -/
def step? (w : World) : Thread X → Option (Event × World × Option (Thread X))
  | .between t =>
    match t.step w with
    | .moved w' t' => (t.exchange? w).map fun x => (.performed x, w', some (.between t'))
    | .waits w' t' => some (.silent, w', some (.between t'))
    | .finished () => some (.silent, w, none)
    | .asks (.invoke o) next =>
      if o.IsCall then
        some (.began o, w, some (.inside o []
          { program := o.program, connections := t.connections, guards := t.guards }
          fun a => (next a).program))
      else none
    | .asks (.outside _) _ => none
  | .inside o log t next =>
    match t.step w with
    | .moved w' t' =>
      (t.exchange? w).map fun x => (.did o x, w', some (.inside o (log ++ [x]) t' next))
    | .waits w' t' => some (.silent, w', some (.inside o log t' next))
    | .finished a => some (.returned o log a, w, some (.between
        { program := next a, connections := t.connections, guards := t.guards }))
    | .asks _ _ => none

theorem step_of_step? {w w' : World} {th : Thread X} {ev : Event} {th' : Option (Thread X)}
    (h : th.step? w = some (ev, w', th')) : th.Step w ev w' th' := by
  cases th with
  | between t =>
    simp only [step?] at h
    split at h
    · next w₁ t₁ hs =>
      obtain ⟨x, hx, heq⟩ := Option.map_eq_some_iff.1 h
      cases heq
      exact .perform hs hx
    · next w₁ t₁ hs =>
      cases h
      exact .rest hs
    · next hs =>
      cases h
      exact .finish hs
    · next o next hs =>
      split at h
      · next ho =>
        cases h
        exact .call hs ho
      · cases h
    · cases h
  | inside o log t next =>
    simp only [step?] at h
    split at h
    · next w₁ t₁ hs =>
      obtain ⟨x, hx, heq⟩ := Option.map_eq_some_iff.1 h
      cases heq
      exact .work hs hx
    · next w₁ t₁ hs =>
      cases h
      exact .await hs
    · next a hs =>
      cases h
      exact .return hs
    · cases h

end Thread

/-- An exchange that is due can be made. -/
theorem Task.step_of_exchange? {α : Type} {w : World} {t : Task X α} {x : Exchange}
    (h : t.exchange? w = some x) : ∃ w' t', t.step w = .moved w' t' := by
  unfold exchange? at h
  unfold step
  split at h
  · next e next hp =>
    rw [hp]
    cases hwait : t.wait with
    | some wait =>
      rw [hwait] at h
      dsimp only at h ⊢
      split at h
      · next hover =>
        rw [if_pos hover]
        exact ⟨_, _, rfl⟩
      · cases h
    | none =>
      rw [hwait] at h
      dsimp only at h ⊢
      split at h
      · cases h
      · next hnone =>
        rw [Option.not_isSome_iff_eq_none.1 hnone]
        exact ⟨_, _, rfl⟩
  · cases h

/-- The answer of a task that is done. -/
def Task.answer? {α : Type} (t : Task X α) : Option α :=
  match t.program with
  | .done a => some a
  | .effect .. => none
  | .extended .. => none

theorem Task.step_of_answer? {α : Type} {t : Task X α} {a : α} (w : World)
    (h : t.answer? = some a) : t.step w = .finished a := by
  unfold answer? at h
  unfold step
  split at h
  · next hp =>
    cases h
    rw [hp]
  · cases h
  · cases h

/-- The reply in an exchange, if it is one of a given effect. -/
def Exchange.replyTo? (e : Effect) (x : Exchange) : Option e.Reply :=
  if h : x.effect = e then some (h ▸ x.reply) else none

theorem Exchange.eq_of_replyTo? {e : Effect} {x : Exchange} {r : e.Reply}
    (h : x.replyTo? e = some r) : x = ⟨e, r⟩ := by
  obtain ⟨e', r'⟩ := x
  unfold replyTo? at h
  split at h
  · next heq =>
    obtain rfl : e' = e := heq
    cases h
    rfl
  · cases h

/-- Whether a thread may go on beside others, as far as that can be seen from what they wait for. -/
def Scheduling.allows : Scheduling → List (Thread X) → Bool
  | .cooperative, others => others.all Thread.isWaiting
  | .parallel, _ => true

theorem Scheduling.admits_of_allows {mode : Scheduling} {others : List (Thread X)}
    (h : mode.allows others = true) : mode.Admits others := by
  cases mode with
  | cooperative =>
    exact fun th hmem => Thread.suspended_of_isWaiting (List.all_eq_true.1 h th hmem)
  | parallel => trivial

namespace Machine

/-- What a move comes to. -/
def next? (mode : Scheduling) (s : Machine X) : Move X → Option (Event × Machine X)
  | .start c => some (.silent, ⟨s.world, s.threads ++ [.between { program := c }]⟩)
  | .go i =>
    let others := s.threads.take i ++ s.threads.drop (i + 1)
    (s.threads[i]?).bind fun th =>
      if mode.allows others then
        (th.step? s.world).map fun r =>
          (r.1, ⟨r.2.1, s.threads.take i ++ r.2.2.toList ++ s.threads.drop (i + 1)⟩)
      else none
  | .drop i runtime =>
    (s.threads[i]?).bind fun th =>
      if th.isWaiting then
        let given := Task.forsaken s.world th.guards
        some (.dropped given, ⟨th.drop s.world, s.threads.take i ++ s.threads.drop (i + 1) ++
          if runtime then given.map Thread.deletion else []⟩)
      else none
  | .elapse ms =>
    if s.threads.all Thread.isWaiting then
      some (.elapsed ms, { s with world := { s.world with now := s.world.now + ms } })
    else none
  | .configure d =>
    if s.world.store.closing && !d.closing then none
    else some (.configured, s.withStore (s.world.store.disturb d))

variable {mode : Scheduling} {s s' : Machine X} {ev : Event} {tr : List Event}

theorem step_of_next? {move : Move X} (h : s.next? mode move = some (ev, s')) :
    Step mode s ev s' := by
  have hsplit : ∀ {i : Nat} {th : Thread X}, s.threads[i]? = some th →
      s.threads = s.threads.take i ++ th :: s.threads.drop (i + 1) := by
    intro i th hth
    obtain ⟨hi, rfl⟩ := List.getElem?_eq_some_iff.1 hth
    rw [List.getElem_cons_drop, List.take_append_drop]
  cases move with
  | start c =>
    cases h
    exact .start c
  | go i =>
    obtain ⟨th, hth, h⟩ := Option.bind_eq_some_iff.1 h
    split at h
    · next hallows =>
      obtain ⟨⟨ev', w', th'⟩, hstep, heq⟩ := Option.map_eq_some_iff.1 h
      cases heq
      have hmachine : s = ⟨s.world, s.threads.take i ++ th :: s.threads.drop (i + 1)⟩ := by
        rw [← hsplit hth]
      have hgo : Step mode ⟨s.world, s.threads.take i ++ th :: s.threads.drop (i + 1)⟩ _ _ :=
        .thread (Scheduling.admits_of_allows hallows) (Thread.step_of_step? hstep)
      rwa [← hmachine] at hgo
    · cases h
  | drop i runtime =>
    obtain ⟨th, hth, h⟩ := Option.bind_eq_some_iff.1 h
    split at h
    · next hwaits =>
      cases h
      have hmachine : s = ⟨s.world, s.threads.take i ++ th :: s.threads.drop (i + 1)⟩ := by
        rw [← hsplit hth]
      have hdrop : Step mode ⟨s.world, s.threads.take i ++ th :: s.threads.drop (i + 1)⟩ _ _ :=
        .drop runtime (Thread.suspended_of_isWaiting hwaits)
      rwa [← hmachine] at hdrop
    · cases h
  | elapse ms =>
    simp only [next?] at h
    split at h
    · next hall =>
      cases h
      exact .elapse ms fun th hmem =>
        Thread.suspended_of_isWaiting (List.all_eq_true.1 hall th hmem)
    · cases h
  | configure d =>
    simp only [next?] at h
    split at h
    · cases h
    · next hopen =>
      cases h
      refine .configure d fun hclosed => ?_
      simpa [hclosed] using hopen

/-- What a schedule comes to. -/
def play (mode : Scheduling) (s : Machine X) : List (Move X) → Option (List Event × Machine X)
  | [] => some ([], s)
  | move :: rest =>
    (s.next? mode move).bind fun r => (r.2.play mode rest).map fun q => (r.1 :: q.1, q.2)

/-- What is played is a run. -/
theorem run_of_play {moves : List (Move X)} (h : s.play mode moves = some (tr, s')) :
    Run (Step mode) s tr s' := by
  induction moves generalizing s tr with
  | nil =>
    cases h
    exact .nil
  | cons move rest ih =>
    obtain ⟨⟨ev, s₁⟩, hnext, h⟩ := Option.bind_eq_some_iff.1 h
    obtain ⟨⟨tr', s₂⟩, hplay, heq⟩ := Option.map_eq_some_iff.1 h
    cases heq
    exact Run.append (.single (step_of_next? hnext)) (ih hplay)

/-- Whether there is one thread only, inside an operation that is asked for, and what is left of it
passes a check. -/
def isInside (s : Machine X) (o : Operation) [DecidablePred (· = o)]
    (check : List Exchange → Task X o.Answer → (o.Answer → Client X Unit) → Bool) : Bool :=
  match s.threads with
  | [] => false
  | [.between _] => false
  | [.inside o' log t next] => if h : o' = o then check log (h ▸ t) (h ▸ next) else false
  | _ :: _ :: _ => false

theorem inside_of_isInside {o : Operation} [DecidablePred (· = o)]
    {check : List Exchange → Task X o.Answer → (o.Answer → Client X Unit) → Bool}
    (h : s.isInside o check = true) :
    ∃ log t next, s.threads = [.inside o log t next] ∧ check log t next = true := by
  unfold isInside at h
  split at h
  · cases h
  · cases h
  · next o' log t next heq =>
    split at h
    · next ho =>
      cases ho
      exact ⟨log, t, next, heq, h⟩
    · cases h
  · cases h

/-- What is played by lock operations alone is a run in which nobody else touches locks. -/
theorem lockRun_of_play {moves : List (Move X)} (h : s.play mode moves = some (tr, s'))
    (htr : ∀ ev ∈ tr, ¬ ev.IsForeign) : Run (LockStep mode) s tr s' :=
  (run_of_play h).imp fun hmem hs => ⟨hs, fun hforeign => absurd hforeign (htr _ hmem)⟩

theorem lockStep_of_next? {move : Move X} (h : s.next? mode move = some (ev, s'))
    (hev : ¬ ev.IsForeign) : s.LockStep mode ev s' :=
  ⟨step_of_next? h, fun hforeign => absurd hforeign hev⟩

end Machine

end Latchkey
