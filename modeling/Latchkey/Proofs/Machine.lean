import Latchkey.Proofs.Clients
import Latchkey.Proofs.Discipline
import Latchkey.System.Task

/-!
# Clients side by side

A machine runs any number of clients on one world. Each step is a step of one task, in any order:
nothing is said about who is next. A client that does several things at once, or that drops a part
of its work, is several threads. Time passes only while all threads are suspended, since to compute
takes none; a timer may be late. A suspended thread may be dropped, which starts the deletion of the
keys of its guarded sections unless there is nothing left to run it.

A trace lists what happened. For an operation that returned it also has the exchanges of the call.

The main statements say what the exchanges of a task do, and that what is left of an operation is
what is left of its program after the exchanges of the call.
-/

namespace Latchkey

variable {X : Extension} {α : Type}

/-! ## What happens -/

/-- What a step of a machine was. -/
inductive Event where
  /-- A thread began, ended or waited, or heard from its surroundings. -/
  | silent
  /-- A client called an operation. -/
  | began (o : Operation)
  /-- An effect of an operation was answered. -/
  | did (o : Operation) (x : Exchange)
  /-- An operation returned after some exchanges. -/
  | returned (o : Operation) (log : List Exchange) (answer : o.Answer)
  /-- An effect of a client outside of any operation was answered. -/
  | performed (x : Exchange)
  /-- A thread was dropped, and the locks of guarded sections were given up. -/
  | dropped (given : List (Guard × Token))
  /-- Expired values were removed. -/
  | purged
  /-- Time passed. -/
  | elapsed (ms : Nat)
  /-- The store was disturbed, repaired or closed. -/
  | configured

/-- The exchange that is due for a task, if it can go on with one. -/
def Task.exchange? (w : World) (t : Task X α) : Option Exchange :=
  match t.program with
  | .effect e _ =>
    match t.wait with
    | some wait => if w.isOver wait then some ⟨e, (w.answer (some wait) e).2⟩ else none
    | none => if (w.wait? e).isSome then none else some ⟨e, (w.answer none e).2⟩
  | _ => none

/-- The locks of guarded sections that are still held when the sections are dropped. -/
def Task.forsaken (w : World) : List Guard → List (Guard × Token)
  | [] => []
  | g :: rest =>
    let r := Task.forgetGuard w g
    r.2.toList.map (fun a => (g, a.token)) ++ Task.forsaken r.1 rest

/-! ## Threads -/

/-- A client on its way. -/
inductive Thread (X : Extension) where
  /-- Outside of any operation. -/
  | between (t : Task (client X) Unit)
  /-- In a call of an operation, after some exchanges; the client goes on with the answer. -/
  | inside (o : Operation) (log : List Exchange) (t : Task X o.Answer)
      (next : o.Answer → Client X Unit)

namespace Thread

/-- The thread waits for time, for a connection or for its surroundings. -/
def Suspended : Thread X → Prop
  | .between t => t.wait.isSome ∨ ∃ op next, t.program = .extended (.outside op) next
  | .inside _ _ t _ => t.wait.isSome

/-- The world after a thread is dropped. -/
def drop (w : World) : Thread X → World
  | .between t => (t.drop w).1
  | .inside _ _ t _ => (t.drop w).1

/-- The guarded sections of a thread, the innermost first. -/
def guards : Thread X → List Guard
  | .between t => t.guards
  | .inside _ _ t _ => t.guards

/-- The thread that deletes the key of a lock whose guarded section was dropped. -/
def deletion (d : Guard × Token) : Thread X :=
  .inside (.clear d.1 d.2) [] { program := (Operation.clear d.1 d.2).program } fun _ => .done ()

/-- The steps of a thread; there is nothing left of one that is done. -/
inductive Step (w : World) : Thread X → Event → World → Option (Thread X) → Prop where
  /-- An effect outside of any operation is answered. -/
  | perform {t t' : Task (client X) Unit} {w' : World} {x : Exchange}
      (hs : t.step w = .moved w' t') (hx : t.exchange? w = some x) :
      Step w (.between t) (.performed x) w' (some (.between t'))
  /-- An effect outside of any operation waits. -/
  | rest {t t' : Task (client X) Unit} {w' : World} (hs : t.step w = .waits w' t') :
      Step w (.between t) .silent w' (some (.between t'))
  /-- The surroundings reply. -/
  | hear {t : Task (client X) Unit} {op : X.Op} {next : X.Reply op → Task (client X) Unit}
      (hs : t.step w = .asks (.outside op) next) (r : X.Reply op) :
      Step w (.between t) .silent w (some (.between (next r)))
  /-- The client is done. -/
  | finish {t : Task (client X) Unit} (hs : t.step w = .finished ()) :
      Step w (.between t) .silent w none
  /-- The client calls an operation. -/
  | call {t : Task (client X) Unit} {o : Operation} {next : o.Answer → Task (client X) Unit}
      (hs : t.step w = .asks (.invoke o) next) (ho : o.IsCall) :
      Step w (.between t) (.began o) w (some (.inside o []
        { program := o.program, connections := t.connections, guards := t.guards }
        fun a => (next a).program))
  /-- An effect of an operation is answered. -/
  | work {o : Operation} {log : List Exchange} {t t' : Task X o.Answer}
      {next : o.Answer → Client X Unit} {w' : World} {x : Exchange}
      (hs : t.step w = .moved w' t') (hx : t.exchange? w = some x) :
      Step w (.inside o log t next) (.did o x) w' (some (.inside o (log ++ [x]) t' next))
  /-- An effect of an operation waits. -/
  | await {o : Operation} {log : List Exchange} {t t' : Task X o.Answer}
      {next : o.Answer → Client X Unit} {w' : World} (hs : t.step w = .waits w' t') :
      Step w (.inside o log t next) .silent w' (some (.inside o log t' next))
  /-- An operation returns. -/
  | return {o : Operation} {log : List Exchange} {t : Task X o.Answer}
      {next : o.Answer → Client X Unit} {a : o.Answer} (hs : t.step w = .finished a) :
      Step w (.inside o log t next) (.returned o log a) w (some (.between
        { program := next a, connections := t.connections, guards := t.guards }))

end Thread

/-! ## Machines -/

/-- A world with the clients that run on it. -/
structure Machine (X : Extension) where
  /-- The world. -/
  world : World
  /-- The clients on their way. -/
  threads : List (Thread X)

/-- How threads share the processor. -/
inductive Scheduling where
  /-- A thread runs until it is suspended before another one goes on. -/
  | cooperative
  /-- Threads run side by side. -/
  | parallel
  deriving Repr, DecidableEq

/-- Whether a thread may go on beside others. -/
def Scheduling.Admits : Scheduling → List (Thread X) → Prop
  | .cooperative, others => ∀ th ∈ others, th.Suspended
  | .parallel, _ => True

/-- What can be disturbed about a store in memory. -/
structure Disturbance where
  /-- Replicas do not acknowledge. -/
  stalled : Bool
  /-- Waits for replicas fail. -/
  failing : Bool
  /-- The delay of every write. -/
  latency : Nat
  /-- No node can be reached. -/
  unavailable : Bool
  /-- No more connections are lent. -/
  closing : Bool

/-- The store with a disturbance. -/
def Memory.disturb (m : Memory) (d : Disturbance) : Memory :=
  { m with
    stalled := d.stalled
    failing := d.failing
    latency := d.latency
    unavailable := d.unavailable
    closing := d.closing }

namespace Machine

/-- The machine with another store. -/
def withStore (s : Machine X) (m : Memory) : Machine X :=
  { s with world := { s.world with store := m } }

/-- The steps of a machine. -/
inductive Step (mode : Scheduling) : Machine X → Event → Machine X → Prop where
  /-- A thread goes on. -/
  | thread {w w' : World} {pre post : List (Thread X)} {th : Thread X} {th' : Option (Thread X)}
      {ev : Event} (hm : mode.Admits (pre ++ post)) (h : th.Step w ev w' th') :
      Step mode ⟨w, pre ++ th :: post⟩ ev ⟨w', pre ++ th'.toList ++ post⟩
  /-- A client begins. -/
  | start {w : World} {threads : List (Thread X)} (c : Client X Unit) :
      Step mode ⟨w, threads⟩ .silent ⟨w, threads ++ [.between { program := c }]⟩
  /-- A suspended thread is dropped. -/
  | drop {w : World} {pre post : List (Thread X)} {th : Thread X} (runtime : Bool)
      (hs : th.Suspended) :
      Step mode ⟨w, pre ++ th :: post⟩ (.dropped (Task.forsaken w th.guards))
        ⟨th.drop w, pre ++ post ++
          if runtime then (Task.forsaken w th.guards).map Thread.deletion else []⟩
  /-- Expired values are removed. -/
  | purge {s : Machine X} :
      Step mode s .purged (s.withStore (s.world.store.purge s.world.now).1)
  /-- Time passes. -/
  | elapse {s : Machine X} (ms : Nat) (hs : ∀ th ∈ s.threads, th.Suspended) :
      Step mode s (.elapsed ms) { s with world := { s.world with now := s.world.now + ms } }
  /-- The store is disturbed, repaired or closed; a closed one stays closed. -/
  | configure {s : Machine X} (d : Disturbance)
      (hd : s.world.store.closing = true → d.closing = true) :
      Step mode s .configured (s.withStore (s.world.store.disturb d))

end Machine

/-! ## Runs -/

/-- A run of a relation between states, with its trace. -/
inductive Run {σ ε : Type} (R : σ → ε → σ → Prop) (s : σ) : List ε → σ → Prop where
  /-- Nothing has happened. -/
  | nil : Run R s [] s
  /-- One more step. -/
  | snoc {tr : List ε} {s' s'' : σ} {ev : ε} (h : Run R s tr s') (hstep : R s' ev s'') :
      Run R s (tr ++ [ev]) s''

namespace Run

variable {σ ε : Type} {R : σ → ε → σ → Prop} {s s' s'' : σ} {tr tr' : List ε}

theorem single {ev : ε} (h : R s ev s') : Run R s [ev] s' := .snoc .nil h

theorem append (h : Run R s tr s') (h' : Run R s' tr' s'') : Run R s (tr ++ tr') s'' := by
  induction h' with
  | nil => simpa using h
  | snoc _ hstep ih => exact List.append_assoc .. ▸ ih.snoc hstep

/-- A run of one relation is one of another if the other has the steps with these events. -/
theorem imp {R' : σ → ε → σ → Prop} (h : Run R s tr s')
    (hR : ∀ {s ev s'}, ev ∈ tr → R s ev s' → R' s ev s') : Run R' s tr s' := by
  induction h with
  | nil => exact .nil
  | snoc _ hstep ih =>
    exact (ih fun hmem => hR (List.mem_append_left _ hmem)).snoc
      (hR (List.mem_append_right _ (List.mem_singleton.2 rfl)) hstep)

theorem mono {R' : σ → ε → σ → Prop} (h : Run R s tr s')
    (hR : ∀ {s ev s'}, R s ev s' → R' s ev s') : Run R' s tr s' :=
  h.imp fun _ => hR

/-- A run leads through each of its events. -/
theorem split {ev : ε} (h : Run R s (tr ++ ev :: tr') s') :
    ∃ s₁ s₂, Run R s tr s₁ ∧ R s₁ ev s₂ ∧ Run R s₂ tr' s' := by
  generalize heq : tr ++ ev :: tr' = events at h
  induction h generalizing tr' with
  | nil => simp at heq
  | @snoc events s₃ s₄ ev' h hs ih =>
    rcases List.eq_nil_or_concat tr' with rfl | ⟨tr'', ev'', rfl⟩
    · obtain ⟨rfl, hev⟩ := List.append_inj' heq rfl
      cases hev
      exact ⟨s₃, s₄, h, hs, .nil⟩
    · rw [List.concat_eq_append, ← List.cons_append, ← List.append_assoc] at heq
      obtain ⟨hinit, hev⟩ := List.append_inj' heq rfl
      cases hev
      obtain ⟨s₁, s₂, h₁, hmid, h₂⟩ := ih hinit
      exact ⟨s₁, s₂, h₁, hmid, by simpa using h₂.snoc hs⟩

end Run

/-! ## Steps of tasks -/

/-- An effect that may have to wait. -/
def Effect.MayWait : Effect → Prop
  | .sleep _ => True
  | .call _ => True
  | _ => False

theorem World.wait?_eq_none {e : Effect} (h : ¬ e.MayWait) (w : World) : w.wait? e = none := by
  cases e with
  | sleep ms => exact absurd trivial h
  | call c => exact absurd trivial h
  | _ => rfl

namespace Task

variable {w w' : World} {t t' : Task X α}

/-- A task that moves gets the reply of the world to its first effect, which has waited or need not
wait. -/
theorem step_eq_moved {x : Exchange} (hs : t.step w = .moved w' t')
    (hx : t.exchange? w = some x) :
    ∃ next : x.effect.Reply → Program X α,
      t.program = .effect x.effect next ∧ (t.wait = none → w.wait? x.effect = none) ∧
      (w', x.reply) = w.answer t.wait x.effect ∧ t' = t.afterReply x.effect next x.reply := by
  unfold step at hs
  unfold exchange? at hx
  split at hs
  · cases hs
  · cases hs
  · next e next hp =>
    simp only [hp] at hx
    split at hs
    · next wait hw =>
      simp only [hw] at hx
      split at hs
      · next hover =>
        simp only [hover, if_true, Option.some.injEq] at hx
        cases hx
        cases hs
        exact ⟨next, hp, by simp [hw], by rw [hw], rfl⟩
      · cases hs
    · next hw =>
      simp only [hw] at hx
      split at hs
      · cases hs
      · next hwait =>
        simp only [hwait, Option.isSome_none, Bool.false_eq_true, if_false,
          Option.some.injEq] at hx
        cases hx
        cases hs
        exact ⟨next, hp, fun _ => hwait, by rw [hw], rfl⟩

/-- A task that waits either waits on, or has just begun to wait for its first effect. -/
theorem step_eq_waits (hs : t.step w = .waits w' t') :
    (w' = w ∧ t' = t ∧ t.wait.isSome) ∨
      ∃ e next wait, t.program = .effect e next ∧ t.wait = none ∧ w.wait? e = some (w', wait) ∧
        t' = { t with wait := some wait } := by
  unfold step at hs
  split at hs
  · cases hs
  · cases hs
  · next e next hp =>
    split at hs
    · next wait hw =>
      split at hs
      · cases hs
      · cases hs
        exact .inl ⟨rfl, rfl, by simp [hw]⟩
    · next hw =>
      split at hs
      · next w₁ wait hwait =>
        cases hs
        exact .inr ⟨e, next, wait, hp, hw, hwait, rfl⟩
      · cases hs

theorem step_eq_finished {a : α} (hs : t.step w = .finished a) : t.program = .done a := by
  unfold step at hs
  split at hs
  · next b hp =>
    cases hs
    exact hp
  · cases hs
  · split at hs
    · split at hs <;> cases hs
    · split at hs <;> cases hs

theorem step_eq_asks {op : X.Op} {next : X.Reply op → Task X α} (hs : t.step w = .asks op next) :
    ∃ k, t.program = .extended op k ∧ next = fun r => { t with program := k r } := by
  unfold step at hs
  split at hs
  · cases hs
  · next k hp =>
    cases hs
    exact ⟨k, hp, rfl⟩
  · split at hs
    · split at hs <;> cases hs
    · split at hs <;> cases hs

theorem forgetGuards_snd (w : World) (gs : List Guard) :
    (forgetGuards w gs).2 = (forsaken w gs).map fun d => ⟨d.1.lock, d.2⟩ := by
  induction gs generalizing w with
  | nil => rfl
  | cons g rest ih =>
    have hg : (forgetGuard w g).2.toList =
        ((forgetGuard w g).2.toList.map fun a => (g, a.token)).map fun d => ⟨d.1.lock, d.2⟩ := by
      unfold forgetGuard
      split <;> rfl
    simp only [forgetGuards, forsaken, List.map_append, ← ih, ← hg]

end Task

/-! ## Logs and traces -/

namespace Machine

variable {mode : Scheduling} {tr : List Event} {s s' : Machine X} {ev : Event}

/-- What is left of an operation is what is left of its program after the exchanges in the log of
the call, and these are events of the trace. -/
def Logged (tr : List Event) (s : Machine X) : Prop :=
  ∀ (o : Operation) (log : List Exchange) (t : Task X o.Answer) (next : o.Answer → Client X Unit),
    .inside o log t next ∈ s.threads →
      o.program.After log t.program ∧ ∀ x ∈ log, Event.did o x ∈ tr

theorem Logged.append (h : s.Logged tr) (tr' : List Event) : s.Logged (tr ++ tr') := by
  intro o log t next hmem
  obtain ⟨hafter, hlog⟩ := h o log t next hmem
  exact ⟨hafter, fun x hx => List.mem_append_left _ (hlog x hx)⟩

theorem Logged.step (h : s.Logged tr) (hs : s.Step mode ev s') : s'.Logged (tr ++ [ev]) := by
  have h' : s.Logged (tr ++ [ev]) := h.append [ev]
  cases hs with
  | @thread w w' pre post th th' ev hm hth =>
    have hthread : th ∈ pre ++ th :: post := List.mem_append_right _ List.mem_cons_self
    intro o log t next hmem
    simp only [List.mem_append, Option.mem_toList] at hmem
    rcases hmem with (hmem | hmem) | hmem
    · exact h' o log t next (List.mem_append_left _ hmem)
    · cases hth with
      | call hs ho =>
        cases hmem
        exact ⟨.start, fun x hx => nomatch hx⟩
      | @work o log t t' next w' x hs hx =>
        cases hmem
        obtain ⟨hafter, hlog⟩ := h' o log t next hthread
        obtain ⟨k, hp, -, -, rfl⟩ := Task.step_eq_moved hs hx
        rw [hp] at hafter
        refine ⟨hafter.effect x.reply, fun y hy => ?_⟩
        rcases List.mem_append.1 hy with hy | hy
        · exact hlog y hy
        · cases List.mem_singleton.1 hy
          exact List.mem_append_right _ (List.mem_singleton.2 rfl)
      | @await o log t t' next w' hs =>
        cases hmem
        obtain ⟨hafter, hlog⟩ := h' o log t next hthread
        refine ⟨?_, hlog⟩
        rcases Task.step_eq_waits hs with ⟨-, rfl, -⟩ | ⟨e, k, wait, -, -, -, rfl⟩
        · exact hafter
        · exact hafter
      | _ => cases hmem
    · exact h' o log t next (List.mem_append_right _ (List.mem_cons_of_mem _ hmem))
  | start c =>
    intro o log t next hmem
    rcases List.mem_append.1 hmem with hmem | hmem
    · exact h' o log t next hmem
    · cases List.mem_singleton.1 hmem
  | @drop w pre post th runtime hs =>
    intro o log t next hmem
    rcases List.mem_append.1 hmem with hmem | hmem
    · exact h' o log t next (by simpa using (List.mem_append.1 hmem).imp_right .inr)
    · cases runtime with
      | true =>
        obtain ⟨d, -, hd⟩ := List.mem_map.1 hmem
        cases hd
        exact ⟨.start, fun x hx => nomatch hx⟩
      | false => cases hmem
  | purge => exact h'
  | elapse ms hs => exact h'
  | configure d hd => exact h'

theorem Logged.run {tr' : List Event} (h : s.Logged tr) (hr : Run (Step mode) s tr' s') :
    s'.Logged (tr ++ tr') := by
  induction hr with
  | nil => simpa using h
  | snoc hr hs ih => simpa using ih.step hs

/-- In a run that starts without threads all calls are on their way as their logs say. -/
theorem logged_of_run (hs : s.threads = []) (h : Run (Step mode) s tr s') : s'.Logged tr := by
  have hnil : s.Logged [] := by
    intro o log t next hmem
    rw [hs] at hmem
    cases hmem
  exact hnil.run h

/-- An operation that returns has come to its end, by exchanges that are events of the trace. -/
theorem Logged.returned {o : Operation} {log : List Exchange} {a : o.Answer} (h : s.Logged tr)
    (hs : s.Step mode (.returned o log a) s') :
    (o.program (X := X)).After log (.done a) ∧ ∀ x ∈ log, Event.did o x ∈ tr := by
  cases hs with
  | @thread w w' pre post th th' ev hm hth =>
    cases hth with
    | @«return» _ _ t next _ hfin =>
      obtain ⟨hafter, hlog⟩ := h _ _ _ _ (List.mem_append_right _ List.mem_cons_self)
      rw [Task.step_eq_finished hfin] at hafter
      exact ⟨hafter, hlog⟩

/-- An exchange of an operation comes of an effect that was the next one left of its program. -/
theorem Logged.did {o : Operation} {x : Exchange} (h : s.Logged tr)
    (hs : s.Step mode (.did o x) s') :
    ∃ log next waited, (∀ y ∈ log, Event.did o y ∈ tr) ∧
      (o.program (X := X)).After log (.effect x.effect next) ∧
      (s'.world, x.reply) = s.world.answer waited x.effect := by
  cases hs with
  | @thread w w' pre post th th' ev hm hth =>
    cases hth with
    | @work _ log t t' next w' _ hs hx =>
      obtain ⟨hafter, hlog⟩ := h _ _ _ _ (List.mem_append_right _ List.mem_cons_self)
      obtain ⟨k, hp, -, hanswer, -⟩ := Task.step_eq_moved hs hx
      rw [hp] at hafter
      exact ⟨log, k, t.wait, hlog, hafter, hanswer⟩

end Machine

end Latchkey
