import Latchkey.Proofs.Frames
import Latchkey.Proofs.Machine

/-!
# Threads and their tasks

A thread knows where the operations of its client begin and end; the task that runs does not. The
task of a thread is its client with every call replaced by the program of the operation.

The main statements say that the two go on alike: `Step.task` that a step of a thread is a step of
its task, or a call or a return, which leave the task alone; `follows` that for each step of the
task the thread has one, after some calls and returns.
-/

namespace Latchkey

variable {X Y : Extension} {α β : Type}

namespace Task

variable {w w' : World} {t : Task X α} {e : Effect} {next : e.Reply → Program X α}

/-- The task with another program. -/
def withProgram (t : Task X α) (p : Program Y β) : Task Y β where
  program := p
  wait := t.wait
  connections := t.connections
  guards := t.guards

/-- The answer to an effect is the same for a task whose program is seen through a function that
keeps the effects. -/
theorem step_effect (w : World) (hp : t.program = .effect e next)
    (F : Program X α → Program Y β)
    (hF : ∀ (e : Effect) (next : e.Reply → Program X α),
      F (.effect e next) = .effect e fun r => F (next r)) :
    (∃ w' t', t.step w = .waits w' t' ∧
      (t.withProgram (F t.program)).step w = .waits w' (t'.withProgram (F t'.program))) ∨
    ∃ w' r t', t.step w = .moved w' t' ∧ t.exchange? w = some ⟨e, r⟩ ∧
      (t.withProgram (F t.program)).step w = .moved w' (t'.withProgram (F t'.program)) := by
  obtain ⟨p, wait, connections, guards⟩ := t
  obtain rfl : p = .effect e next := hp
  have hwith : ∀ wait, (⟨.effect e next, wait, connections, guards⟩ : Task X α).withProgram
      (F (.effect e next)) = ⟨.effect e fun r => F (next r), wait, connections, guards⟩ := by
    intro wait
    rw [hF]
    rfl
  show (∃ w' t', _ ∧ (withProgram _ (F (.effect e next))).step w = _) ∨
    ∃ w' r t', _ ∧ _ ∧ (withProgram _ (F (.effect e next))).step w = _
  rw [hwith]
  cases wait with
  | some wait =>
    by_cases hover : w.isOver wait
    · exact .inr ⟨(w.answer (some wait) e).1, (w.answer (some wait) e).2, _, if_pos hover,
        if_pos hover, if_pos hover⟩
    · exact .inl ⟨w, _, if_neg hover, (if_neg hover).trans (congrArg _ (hwith _).symm)⟩
  | none =>
    cases hw : w.wait? e with
    | some r =>
      refine .inl ⟨r.1, ⟨.effect e next, some r.2, connections, guards⟩, ?_, ?_⟩
      · simp only [step, hw]
      · rw [hwith]
        simp only [step, hw]
    | none =>
      refine .inr ⟨(w.answer none e).1, (w.answer none e).2,
        Task.afterReply ⟨.effect e next, none, connections, guards⟩ e next (w.answer none e).2,
        ?_, ?_, ?_⟩
      · simp only [step, hw]
      · simp [exchange?, hw]
      · simp only [step, hw]
        rfl

theorem forsaken_congr {w w' : World} (h : w'.registries = w.registries) (gs : List Guard) :
    forsaken w' gs = forsaken w gs := by
  induction gs generalizing w w' with
  | nil => rfl
  | cons g rest ih =>
    have hreg : w'.registry g.manager = w.registry g.manager := by
      rw [Ledger.registry, Ledger.registry, h]
    have hg : (forgetGuard w' g).2 = (forgetGuard w g).2 ∧
        (forgetGuard w' g).1.registries = (forgetGuard w g).1.registries := by
      unfold forgetGuard
      rw [hreg]
      cases (w.registry g.manager).held g.ctx g.lock with
      | none => exact ⟨rfl, h⟩
      | some token =>
        refine ⟨rfl, ?_⟩
        show (w'.setRegistry _ _).registries = (w.setRegistry _ _).registries
        unfold Ledger.setRegistry
        rw [h]
    rw [forsaken, forsaken, hg.1, ih hg.2]

/-- Only a task waits whose next effect may have to. -/
def Orderly (t : Task X α) : Prop :=
  t.wait.isSome → ∃ e next, t.program = .effect e next ∧ e.MayWait

theorem Orderly.of_waits {w₁ : World} {wait : Wait} {e : Effect} {next : e.Reply → Program X α}
    (hp : t.program = .effect e next) (hwait : w.wait? e = some (w₁, wait)) : t.Orderly := by
  refine fun _ => ⟨e, next, hp, Classical.byContradiction fun h => ?_⟩
  rw [World.wait?_eq_none h] at hwait
  cases hwait

theorem Orderly.effect_of_waits {t' : Task X α} (ho : t.Orderly) (hs : t.step w = .waits w' t') :
    ∃ e next, t.program = .effect e next := by
  rcases step_eq_waits hs with ⟨-, -, hw⟩ | ⟨e, next, wait, hp, -⟩
  · obtain ⟨e, next, hp, -⟩ := ho hw
    exact ⟨e, next, hp⟩
  · exact ⟨e, next, hp⟩

theorem Orderly.wait_eq_none (ho : t.Orderly) (hp : ∀ e next, t.program ≠ .effect e next) :
    t.wait = none := by
  rw [← Option.not_isSome_iff_eq_none]
  intro hw
  obtain ⟨e, next, he, -⟩ := ho hw
  exact hp e next he

section

variable {t' : Task X α} (F : Program X α → Program Y β)
  (hF : ∀ (e : Effect) (next : e.Reply → Program X α),
    F (.effect e next) = .effect e fun r => F (next r))

include hF

theorem moved_withProgram {x : Exchange} (hs : t.step w = .moved w' t')
    (hx : t.exchange? w = some x) :
    (t.withProgram (F t.program)).step w = .moved w' (t'.withProgram (F t'.program)) := by
  obtain ⟨next, hp, -⟩ := step_eq_moved hs hx
  rcases step_effect w hp F hF with ⟨w₁, t₁, h₁, h⟩ | ⟨w₁, r, t₁, h₁, -, h⟩
  · cases hs.symm.trans h₁
  · cases hs.symm.trans h₁
    exact h

theorem waits_withProgram (ho : t.Orderly) (hs : t.step w = .waits w' t') :
    (t.withProgram (F t.program)).step w = .waits w' (t'.withProgram (F t'.program)) := by
  obtain ⟨e, next, hp⟩ := ho.effect_of_waits hs
  rcases step_effect w hp F hF with ⟨w₁, t₁, h₁, h⟩ | ⟨w₁, r, t₁, h₁, -, h⟩
  · cases hs.symm.trans h₁
    exact h
  · cases hs.symm.trans h₁

end

end Task

/-- A client that calls only what clients call. -/
def Client.Calls : Client X α → Prop
  | .done _ => True
  | .effect _ next => ∀ r, Calls (next r)
  | .extended (.invoke o) next => o.IsCall ∧ ∀ a, Calls (next a)
  | .extended (.outside _) next => ∀ r, Calls (next r)

namespace Client

variable {ε : Type}

theorem Calls.bind {c : Client X α} {f : α → Client X β} (hc : Calls c) (hf : ∀ a, Calls (f a)) :
    Calls (c >>= f) := by
  induction c with
  | done a => exact hf a
  | effect e next ih => exact fun r => ih r (hc r)
  | extended op next ih =>
    cases op with
    | invoke o => exact ⟨hc.1, fun a => ih a (hc.2 a)⟩
    | outside op => exact fun r => ih r (hc r)

theorem calls_runGuarded (m : Manager) (ctx : Context) (lock : String) (ttl : Nat) (throws : Bool)
    {body : Client X (Finish ε α)} (hb : Calls body) :
    Calls (runGuarded m ctx lock ttl throws body) := by
  refine ⟨trivial, fun r => ?_⟩
  rcases r with failure | b
  · trivial
  · cases b with
    | false => trivial
    | true => exact fun _ => hb.bind fun finish => ⟨trivial, fun _ _ => trivial⟩

theorem calls_acquireUntil (m : Manager) (ctx : Context) (lock : String)
    (ttl wait deadline attempts : Nat) :
    Calls (X := X) (acquireUntil m ctx lock ttl wait deadline attempts) := by
  induction attempts with
  | zero => trivial
  | succ attempts ih =>
    refine ⟨trivial, fun r => ?_⟩
    rcases r with failure | b
    · trivial
    · cases b with
      | true => trivial
      | false =>
        intro closing
        cases closing with
        | true => trivial
        | false =>
          intro (now : Nat)
          show Calls (if now ≥ deadline then _ else _)
          by_cases h : now ≥ deadline
          · rw [if_pos h]
            trivial
          · rw [if_neg h]
            exact fun _ => ih

theorem calls_acquireWithRetry (m : Manager) (ctx : Context) (lock : String)
    (ttl wait budget : Nat) : Calls (X := X) (acquireWithRetry m ctx lock ttl wait budget) := by
  unfold acquireWithRetry
  split
  · trivial
  · exact fun now => calls_acquireUntil m ctx lock ttl wait _ _

end Client

namespace Thread

/-- The task of a thread. -/
def task : Thread X → Task X Unit
  | .between t => t.withProgram (Client.expand t.program)
  | .inside _ _ t next => t.withProgram (t.program >>= fun a => Client.expand (next a))

/-- The task of a client that runs a guarded section runs what the manager runs. -/
theorem task_runGuarded {ε : Type} (m : Manager) (ctx : Context) (lock : String) (ttl : Nat)
    (throws : Bool) (body : Client X (Finish ε α)) (next : Guarded ε α → Client X Unit) :
    (Thread.between { program := Client.runGuarded m ctx lock ttl throws body >>= next }).task =
      { program := m.runGuarded ctx lock ttl throws (Client.expand body) >>= fun g =>
          Client.expand (next g) } := by
  rw [← Client.expand_runGuarded, ← Client.expand_bind]
  rfl

theorem task_acquireWithRetry (m : Manager) (ctx : Context) (lock : String) (ttl wait budget : Nat)
    (next : Except Failure Bool → Client X Unit) :
    (Thread.between
        { program := Client.acquireWithRetry m ctx lock ttl wait budget >>= next }).task =
      { program := (m.acquireWithRetry ctx lock ttl wait budget).run >>= fun r =>
          Client.expand (next r) } := by
  rw [← Client.expand_acquireWithRetry, ← Client.expand_bind]
  rfl

/-- Only a thread waits whose next effect may have to. -/
def Orderly : Thread X → Prop
  | .between t => t.Orderly
  | .inside _ _ t _ => t.Orderly

/-- What is left of the client calls only what clients call. -/
def Calls : Thread X → Prop
  | .between t => Client.Calls t.program
  | .inside _ _ _ next => ∀ a, Client.Calls (next a)

/-- What a step of a thread may be for its task. -/
inductive Seen (w : World) (t : Task X Unit) : World → Option (Task X Unit) → Prop where
  /-- A call or a return. -/
  | same : Seen w t w (some t)
  /-- An answer to an effect. -/
  | moved {w' : World} {t' : Task X Unit} (h : t.step w = .moved w' t') : Seen w t w' (some t')
  /-- Waiting. -/
  | waits {w' : World} {t' : Task X Unit} (h : t.step w = .waits w' t') : Seen w t w' (some t')
  /-- A reply of the surroundings. -/
  | asked {op : X.Op} {next : X.Reply op → Task X Unit} (h : t.step w = .asks op next)
      (r : X.Reply op) : Seen w t w (some (next r))
  /-- The end. -/
  | finished (h : t.step w = .finished ()) : Seen w t w none

variable {w w' : World} {th th' : Thread X} {ev : Event}

theorem Step.orderly (h : th.Step w ev w' (some th')) (ho : th.Orderly) : th'.Orderly := by
  cases h with
  | perform hs hx =>
    obtain ⟨next, -, -, -, rfl⟩ := Task.step_eq_moved hs hx
    exact fun hw => by cases hw
  | work hs hx =>
    obtain ⟨next, -, -, -, rfl⟩ := Task.step_eq_moved hs hx
    exact fun hw => by cases hw
  | rest hs =>
    rcases Task.step_eq_waits hs with ⟨-, rfl, -⟩ | ⟨e, next, wait, hp, -, hwait, rfl⟩
    · exact ho
    · exact Task.Orderly.of_waits hp hwait
  | await hs =>
    rcases Task.step_eq_waits hs with ⟨-, rfl, -⟩ | ⟨e, next, wait, hp, -, hwait, rfl⟩
    · exact ho
    · exact Task.Orderly.of_waits hp hwait
  | hear hs r =>
    obtain ⟨k, hp, rfl⟩ := Task.step_eq_asks hs
    intro hw
    obtain ⟨e, next, he, -⟩ := ho hw
    cases he.symm.trans hp
  | call hs hcall => exact fun hw => by cases hw
  | «return» hs => exact fun hw => by cases hw

theorem Step.calls (h : th.Step w ev w' (some th')) (hc : th.Calls) : th'.Calls := by
  cases h with
  | perform hs hx =>
    obtain ⟨next, hp, -, -, rfl⟩ := Task.step_eq_moved hs hx
    rw [Calls, hp] at hc
    exact hc _
  | rest hs =>
    rcases Task.step_eq_waits hs with ⟨-, rfl, -⟩ | ⟨e, next, wait, hp, -, -, rfl⟩
    · exact hc
    · exact hc
  | hear hs r =>
    obtain ⟨k, hp, rfl⟩ := Task.step_eq_asks hs
    rw [Calls, hp] at hc
    exact hc r
  | call hs hcall =>
    obtain ⟨k, hp, rfl⟩ := Task.step_eq_asks hs
    rw [Calls, hp] at hc
    exact hc.2
  | work hs hx => exact hc
  | await hs => exact hc
  | «return» hs => exact hc _

theorem task_call {t : Task (client X) Unit} {o : Operation} {next : o.Answer → Client X Unit}
    (ho : t.Orderly) (hp : t.program = .extended (.invoke o) next) :
    (Thread.inside o [] ⟨o.program, none, t.connections, t.guards⟩ next).task =
      (Thread.between t).task := by
  have hwait : t.wait = none := ho.wait_eq_none fun e next he => by
    cases he.symm.trans hp
  show _ = t.withProgram (Client.expand t.program)
  rw [hp, Task.withProgram, hwait]
  rfl

theorem task_return {o : Operation} {log : List Exchange} {t : Task X o.Answer}
    {next : o.Answer → Client X Unit} {a : o.Answer} (ho : t.Orderly)
    (hp : t.program = .done a) :
    (Thread.between ⟨next a, none, t.connections, t.guards⟩).task =
      (Thread.inside o log t next).task := by
  have hwait : t.wait = none := ho.wait_eq_none fun e next he => by
    cases he.symm.trans hp
  show _ = t.withProgram (t.program >>= _)
  rw [hp, Task.withProgram, hwait]
  rfl

/-- A step of a thread is one of its task, or leaves the task alone. -/
theorem Step.task {th' : Option (Thread X)} (h : th.Step w ev w' th') (ho : th.Orderly) :
    Seen w th.task w' (th'.map Thread.task) := by
  cases h with
  | perform hs hx => exact .moved (Task.moved_withProgram _ (fun _ _ => rfl) hs hx)
  | work hs hx => exact .moved (Task.moved_withProgram (· >>= _) (fun _ _ => rfl) hs hx)
  | rest hs => exact .waits (Task.waits_withProgram _ (fun _ _ => rfl) ho hs)
  | await hs => exact .waits (Task.waits_withProgram (· >>= _) (fun _ _ => rfl) ho hs)
  | @hear t op next hs r =>
    obtain ⟨k, hp, rfl⟩ := Task.step_eq_asks hs
    have hstep : (Thread.between t).task.step w =
        .asks op fun r => t.withProgram (Client.expand (k r)) := by
      rw [task, hp]
      rfl
    exact .asked hstep r
  | @finish t hs =>
    have hstep : (Thread.between t).task.step w = .finished () := by
      rw [task, Task.step_eq_finished hs]
      rfl
    exact .finished hstep
  | call hs hcall =>
    obtain ⟨k, hp, rfl⟩ := Task.step_eq_asks hs
    have htask := task_call ho hp
    rw [← htask]
    exact .same
  | @«return» o log t next a hs =>
    have htask : _ = (Thread.inside o log t next).task := task_return ho (Task.step_eq_finished hs)
    rw [← htask]
    exact .same

/-- The steps of a thread that leave the world alone. -/
abbrev Shift (w : World) (th : Thread X) (ev : Event) (th' : Thread X) : Prop :=
  th.Step w ev w (some th')

/-- The thread is neither about to call nor about to return. -/
def AtWork : Thread X → Prop
  | .between t => ∀ o next, t.program ≠ .extended (.invoke o) next
  | .inside _ _ t _ => ∀ a, t.program ≠ .done a

/-- After some calls and returns a client is at work, or done. -/
theorem exists_atWork_between (w : World) (c : Client X Unit) (hc : Client.Calls c)
    (conns : List Connection) (guards : List Guard) :
    ∃ tr th, Run (Shift w) (.between ⟨c, none, conns, guards⟩) tr th ∧
      th.task = ⟨Client.expand c, none, conns, guards⟩ ∧ th.AtWork ∧ th.Orderly := by
  have hfresh : ∀ {α : Type} {Y : Extension} (p : Program Y α),
      Task.Orderly ⟨p, none, conns, guards⟩ := fun _ hw => by cases hw
  induction c with
  | done a => exact ⟨[], _, .nil, rfl, (fun _ _ h => by cases h), hfresh _⟩
  | effect e next ih => exact ⟨[], _, .nil, rfl, (fun _ _ h => by cases h), hfresh _⟩
  | extended op next ih =>
    cases op with
    | outside op => exact ⟨[], _, .nil, rfl, (fun _ _ h => by cases h), hfresh _⟩
    | invoke o =>
      have hcall : Shift w (.between ⟨.extended (.invoke o) next, none, conns, guards⟩) (.began o)
          (.inside o [] ⟨o.program, none, conns, guards⟩ fun a => next a) :=
        @Step.call _ _ _ o (fun a => ⟨next a, none, conns, guards⟩) rfl hc.1
      -- an operation may be done at once, and then the client may call again
      by_cases hdone : ∃ a, (o.program (X := X)) = .done a
      · obtain ⟨a, ha⟩ := hdone
        have hreturn : Shift w (.inside o [] ⟨o.program, none, conns, guards⟩ fun a => next a)
            (.returned o [] a) (.between ⟨next a, none, conns, guards⟩) := .return (by rw [ha]; rfl)
        obtain ⟨tr, th, hrun, htask, hwork, ho⟩ := ih a (hc.2 a)
        refine ⟨_, th, ((Run.single hcall).snoc hreturn).append hrun, ?_, hwork, ho⟩
        rw [htask, Client.expand, ha]
        rfl
      · exact ⟨_, _, .single hcall, rfl, fun a ha => hdone ⟨a, ha⟩, hfresh _⟩

theorem exists_atWork (w : World) (ho : th.Orderly) (hc : th.Calls) :
    ∃ tr th', Run (Shift w) th tr th' ∧ th'.task = th.task ∧ th'.AtWork ∧ th'.Orderly := by
  cases th with
  | between t =>
    by_cases hcall : ∃ o next, t.program = .extended (.invoke o) next
    · obtain ⟨o, next, hp⟩ := hcall
      have hwait : t.wait = none := ho.wait_eq_none fun e next he => by
        cases he.symm.trans hp
      have ht : (⟨t.program, none, t.connections, t.guards⟩ : Task (client X) Unit) = t := by
        rw [← hwait]
      obtain ⟨tr, th', hrun, htask, hwork, ho'⟩ :=
        exists_atWork_between w t.program hc t.connections t.guards
      rw [ht] at hrun
      refine ⟨tr, th', hrun, ?_, hwork, ho'⟩
      rw [htask, ← hwait]
      rfl
    · exact ⟨[], _, .nil, rfl, fun o next hp => hcall ⟨o, next, hp⟩, ho⟩
  | inside o log t next =>
    by_cases hdone : ∃ a, t.program = .done a
    · obtain ⟨a, ha⟩ := hdone
      have hreturn : Shift w (.inside o log t next) (.returned o log a)
          (.between ⟨next a, none, t.connections, t.guards⟩) := by
        refine .return ?_
        rw [Task.step, ha]
      obtain ⟨tr, th', hrun, htask, hwork, ho'⟩ :=
        exists_atWork_between w (next a) (hc a) t.connections t.guards
      refine ⟨_, th', (Run.single hreturn).append hrun, ?_, hwork, ho'⟩
      rw [htask]
      exact task_return ho ha
    · exact ⟨[], _, .nil, rfl, fun a ha => hdone ⟨a, ha⟩, ho⟩

/-- A thread at work does what its task does, unless the task asks something of its surroundings. -/
theorem AtWork.step (hwork : th.AtWork) (w : World) :
    (∃ w' ev th', th.Step w ev w' (some th') ∧
      (th.task.step w = .moved w' th'.task ∨ th.task.step w = .waits w' th'.task)) ∨
    th.Step w .silent w none ∧ th.task.step w = .finished () ∨
    ∃ op next, th.task.step w = .asks op next := by
  cases th with
  | between t =>
    cases hp : t.program with
    | done a =>
      refine .inr (.inl ⟨.finish ?_, ?_⟩)
      · rw [Task.step, hp]
      · rw [task, hp]
        rfl
    | effect e next =>
      rcases Task.step_effect w hp Client.expand fun _ _ => rfl with
        ⟨w', t', hs, h⟩ | ⟨w', r, t', hs, hx, h⟩
      · exact .inl ⟨w', _, .between t', .rest hs, .inr h⟩
      · exact .inl ⟨w', _, .between t', .perform hs hx, .inl h⟩
    | extended op next =>
      cases op with
      | invoke o => exact absurd hp (hwork o next)
      | outside op =>
        refine .inr (.inr ⟨op, fun r => t.withProgram (Client.expand (next r)), ?_⟩)
        rw [task, hp]
        rfl
  | inside o log t next =>
    cases hp : t.program with
    | done a => exact absurd hp (hwork a)
    | effect e k =>
      rcases Task.step_effect w hp (· >>= fun a => Client.expand (next a)) fun _ _ => rfl with
        ⟨w', t', hs, h⟩ | ⟨w', r, t', hs, hx, h⟩
      · exact .inl ⟨w', _, .inside o log t' next, .await hs, .inr h⟩
      · exact .inl ⟨w', _, .inside o _ t' next, .work hs hx, .inl h⟩
    | extended op k =>
      refine .inr (.inr ⟨op, fun r => t.withProgram (k r >>= fun a => Client.expand (next a)), ?_⟩)
      rw [task, hp]
      rfl

/-- When the task of a thread goes on by itself, so does the thread, after some calls and returns.
-/
theorem follows (ho : th.Orderly) (hc : th.Calls) (w : World) :
    ∃ tr th₁, Run (Shift w) th tr th₁ ∧ th₁.task = th.task ∧
      ((∃ w' ev th', th₁.Step w ev w' (some th') ∧
        (th.task.step w = .moved w' th'.task ∨ th.task.step w = .waits w' th'.task)) ∨
      th₁.Step w .silent w none ∧ th.task.step w = .finished () ∨
      ∃ op next, th.task.step w = .asks op next) := by
  obtain ⟨tr, th₁, hrun, htask, hwork, -⟩ := exists_atWork w ho hc
  refine ⟨tr, th₁, hrun, htask, ?_⟩
  rw [← htask]
  exact hwork.step w

theorem task_drop (th : Thread X) (w : World) :
    th.task.drop w = (th.drop w, (Task.forsaken w th.guards).map fun d => ⟨d.1.lock, d.2⟩) := by
  have hfst : (th.task.drop w).1 = th.drop w := by cases th <;> rfl
  have hguards : th.task.guards = th.guards := by cases th <;> rfl
  obtain ⟨w', halike, hdrop⟩ := Task.drop_eq w th.task
  refine Prod.ext hfst ?_
  rw [hdrop, Task.forgetGuards_snd, hguards, Task.forsaken_congr halike.registries]

end Thread

namespace Machine

variable {mode : Scheduling} {tr : List Event} {s s' : Machine X} {ev : Event}

theorem Step.orderly (h : Step mode s ev s') (ho : ∀ th ∈ s.threads, th.Orderly) :
    ∀ th ∈ s'.threads, th.Orderly := by
  intro t ht
  cases h with
  | @thread w w' pre post th th' ev hm hth =>
    rcases List.mem_append.1 ht with ht | ht
    · rcases List.mem_append.1 ht with ht | ht
      · exact ho t (List.mem_append_left _ ht)
      · obtain rfl := Option.mem_toList.1 ht
        exact hth.orderly (ho th (List.mem_append_right _ List.mem_cons_self))
    · exact ho t (List.mem_append_right _ (List.mem_cons_of_mem _ ht))
  | start c =>
    rcases List.mem_append.1 ht with ht | ht
    · exact ho t ht
    · obtain rfl := List.mem_singleton.1 ht
      exact fun hw => by cases hw
  | @drop w pre post th runtime hs =>
    rcases List.mem_append.1 ht with ht | ht
    · rcases List.mem_append.1 ht with ht | ht
      · exact ho t (List.mem_append_left _ ht)
      · exact ho t (List.mem_append_right _ (List.mem_cons_of_mem _ ht))
    · split at ht
      · obtain ⟨d, -, rfl⟩ := List.mem_map.1 ht
        exact fun hw => by cases hw
      · cases ht
  | purge => exact ho t ht
  | elapse ms hs => exact ho t ht
  | configure d hd => exact ho t ht

/-- On the way of a machine that began without threads all threads are orderly. -/
theorem orderly_of_run (h₀ : s.threads = []) (h : Run (Step mode) s tr s') :
    ∀ th ∈ s'.threads, th.Orderly := by
  induction h with
  | nil =>
    intro th hth
    rw [h₀] at hth
    cases hth
  | snoc h hs ih => exact hs.orderly ih

end Machine

end Latchkey
