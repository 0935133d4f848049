import Latchkey.Proofs.Contenders

/-!
# Contenders as threads

A contender is a thread of a machine whose timers are on time. It is about to sleep, sleeps, is
about to call, is in its call, waits there until its token is written, has returned, or is gone.
Each of these comes with a bound on the steps that are left, which every step and every wait that
comes to its end makes less; and a contender that is not gone always has a next step.

The main statements are `Contest.At.step`, `Contest.At.elapse` and `Contest.At.exists_step`.
-/

namespace Latchkey

variable {X : Extension}

/-! ## Prompt machines -/

namespace Thread

/-- What a thread waits for. -/
def wait? : Thread X → Option Wait
  | .between t => t.wait
  | .inside _ _ t _ => t.wait

/-- A thread can go on: it does not wait, or no longer has to. -/
def Ready (w : World) (th : Thread X) : Prop :=
  ∀ wait, th.wait? = some wait → w.isOver wait = true

/-- The time at which a thread can go on at the latest, if it waits. -/
def wake? (th : Thread X) : Option Nat := th.wait?.map Wait.latest

theorem ready_of_wait? {w : World} {th : Thread X} (h : th.wait? = none) : th.Ready w := by
  intro wait hwait
  rw [h] at hwait
  cases hwait

theorem ready_of_timer {w : World} {th : Thread X} {wake : Nat}
    (h : th.wait? = some (.timer wake)) : th.Ready w ↔ wake ≤ w.now := by
  constructor
  · exact fun hready => of_decide_eq_true (hready _ h)
  · intro hle wait hwait
    cases h.symm.trans hwait
    exact decide_eq_true hle

theorem wake?_of_timer {th : Thread X} {wake : Nat} (h : th.wait? = some (.timer wake)) :
    th.wake? = some wake := by
  rw [wake?, h]
  rfl

/-- A thread that waits for a timer is not passed by when time passes until the first can go on. -/
theorem timer_of_rest {w : World} {th : Thread X} {wake ms : Nat} (hrest : ¬ th.Ready w)
    (hfirst : ∀ wake, th.wake? = some wake → w.now + ms ≤ wake)
    (h : th.wait? = some (.timer wake)) :
    w.now < wake ∧ w.now + ms ≤ wake ∧ (th.wake? = some (w.now + ms) → wake = w.now + ms) := by
  have hwake := wake?_of_timer h
  rw [ready_of_timer h] at hrest
  refine ⟨Nat.lt_of_not_le hrest, hfirst _ hwake, fun hnext => ?_⟩
  exact Option.some.inj (hwake.symm.trans hnext)

end Thread

/-- The steps of a machine that nobody disturbs and whose timers are on time: threads that can go on
do so in any order, and time passes only when none can, until the first of them can again. -/
inductive Machine.PromptStep : Machine X → Event → Machine X → Prop where
  /-- A thread goes on. -/
  | thread {w w' : World} {pre post : List (Thread X)} {th : Thread X} {th' : Option (Thread X)}
      {ev : Event} (hready : th.Ready w) (h : th.Step w ev w' th') :
      PromptStep ⟨w, pre ++ th :: post⟩ ev ⟨w', pre ++ th'.toList ++ post⟩
  /-- Time passes. -/
  | elapse {s : Machine X} (ms : Nat) (hrest : ∀ th ∈ s.threads, ¬ th.Ready s.world)
      (hwake : ∃ th ∈ s.threads, th.wake? = some (s.world.now + ms))
      (hfirst : ∀ th ∈ s.threads, ∀ wake, th.wake? = some wake → s.world.now + ms ≤ wake) :
      PromptStep s (.elapsed ms) { s with world := { s.world with now := s.world.now + ms } }

/-- A machine whose timers are on time is a machine. -/
theorem Machine.PromptStep.step {s s' : Machine X} {ev : Event} (h : s.PromptStep ev s') :
    s.Step .parallel ev s' := by
  cases h with
  | thread hready h => exact .thread trivial h
  | elapse ms hrest hwake hfirst =>
    refine .elapse ms fun th hth => ?_
    have hwaits : th.wait?.isSome := by
      cases hwait : th.wait? with
      | none => exact absurd (Thread.ready_of_wait? hwait) (hrest th hth)
      | some wait => rfl
    cases th with
    | between t => exact .inl hwaits
    | inside o log t next => exact hwaits

/-! ## Steps of threads -/

namespace Thread.Step

variable {w w' : World} {t : Task (client X) Unit} {ev : Event} {th' : Option (Thread X)}

/-- What a thread does that is outside of any operation, by what is left of its program. -/
theorem of_between (h : (Thread.between t).Step w ev w' th') :
    match t.program with
    | .done _ => ev = .silent ∧ w' = w ∧ th' = none
    | .effect e next =>
      (∃ r, (t.wait = none → w.wait? e = none) ∧ (w', r) = w.answer t.wait e ∧
        ev = .performed ⟨e, r⟩ ∧ th' = some (.between (t.afterReply e next r))) ∨
      ∃ t', t.step w = .waits w' t' ∧ ev = .silent ∧ th' = some (.between t')
    | .extended (.invoke o) next => ev = .began o ∧ w' = w ∧ th' = some (.inside o []
        { program := o.program, connections := t.connections, guards := t.guards } next)
    | .extended (.outside _) _ => True := by
  cases h with
  | perform hs hx =>
    obtain ⟨next, hp, hwait, hanswer, rfl⟩ := Task.step_eq_moved hs hx
    rw [hp]
    exact .inl ⟨_, hwait, hanswer, rfl, rfl⟩
  | rest hs =>
    cases hp : t.program with
    | done a => simp [Task.step, hp] at hs
    | effect e next => exact .inr ⟨_, hs, rfl, rfl⟩
    | extended op next => simp [Task.step, hp] at hs
  | hear hs r =>
    obtain ⟨next, hp, -⟩ := Task.step_eq_asks hs
    rw [hp]
    trivial
  | finish hs =>
    rw [Task.step_eq_finished hs]
    exact ⟨rfl, rfl, rfl⟩
  | call hs ho =>
    obtain ⟨next, hp, rfl⟩ := Task.step_eq_asks hs
    rw [hp]
    exact ⟨rfl, rfl, rfl⟩

end Thread.Step

theorem Task.step_of_done {α : Type} {t : Task X α} {a : α} (hp : t.program = .done a)
    (w : World) : t.step w = .finished a := by
  unfold step
  rw [hp]

/-- A task whose next effect is due gets an answer to it, or waits. -/
theorem Task.step_of_effect {α : Type} {t : Task X α} {e : Effect}
    {next : e.Reply → Program X α} (hp : t.program = .effect e next) (w : World) :
    (∃ w' t' x, t.step w = .moved w' t' ∧ t.exchange? w = some x) ∨
      ∃ w' t', t.step w = .waits w' t' := by
  unfold step exchange?
  rw [hp]
  cases t.wait with
  | some wait =>
    by_cases hover : w.isOver wait = true
    · exact .inl ⟨_, _, _, if_pos hover, if_pos hover⟩
    · exact .inr ⟨_, _, if_neg hover⟩
  | none =>
    cases hwait : w.wait? e with
    | some r => exact .inr ⟨r.1, { t with wait := some r.2 }, by simp [hwait, hp]⟩
    | none =>
      exact .inl ⟨(w.answer none e).1, t.afterReply e next (w.answer none e).2,
        ⟨e, (w.answer none e).2⟩, by simp [hwait], by simp [hwait]⟩

namespace Thread

theorem exists_step_between {t : Task (client X) Unit} {e : Effect}
    {next : e.Reply → Client X Unit} (w : World) (hp : t.program = .effect e next) :
    ∃ ev w' th', (Thread.between t).Step w ev w' th' := by
  rcases Task.step_of_effect hp w with ⟨w', t', x, hs, hx⟩ | ⟨w', t', hs⟩
  · exact ⟨_, _, _, .perform hs hx⟩
  · exact ⟨_, _, _, .rest hs⟩

theorem exists_step_inside {o : Operation} {log : List Exchange} {t : Task X o.Answer}
    {k : o.Answer → Client X Unit} {e : Effect} {next : e.Reply → Program X o.Answer} (w : World)
    (hp : t.program = .effect e next) :
    ∃ ev w' th', (Thread.inside o log t k).Step w ev w' th' := by
  rcases Task.step_of_effect hp w with ⟨w', t', x, hs, hx⟩ | ⟨w', t', hs⟩
  · exact ⟨_, _, _, .work hs hx⟩
  · exact ⟨_, _, _, .await hs⟩

end Thread

/-- A wait that is over is not waited on. -/
theorem Task.not_waits {α : Type} {w w' : World} {t t' : Task X α} {wait : Wait}
    (hwait : t.wait = some wait) (hover : w.isOver wait = true) : t.step w ≠ .waits w' t' := by
  intro hs
  unfold step at hs
  rw [hwait] at hs
  split at hs
  · cases hs
  · cases hs
  · simp [hover] at hs

/-- A call has returned. -/
def Event.IsReturn : Event → Prop
  | .returned .. => True
  | _ => False

namespace Contest

variable (k : Contest)

/-! ## Contenders as threads -/

/-- The program is that of a call in a stage, which ends within a number of steps as one that has
won or lost. -/
def Goes (c : Contender) (s : Stage) (n : Nat) (p : Program X (Except Failure Bool)) : Prop :=
  p.Ensures (k.rules c) (s, n) fun s' r => ∃ b, s'.1.Ends b ∧ r = .ok b

/-- Where a contender in a stage is at a time, and how many steps it takes at most until it is gone.
Fifteen of them are those of its call. -/
inductive At (now : Nat) (c : Contender) : Stage → Nat → Option (Thread X) → Prop where
  /-- It is about to go to sleep. -/
  | begins {t : Task (client X) Unit} (hnow : now = k.world.now)
      (hp : t.program = c.client k.lock) (hwait : t.wait = none) :
      At now c .asleep 21 (some (.between t))
  /-- It sleeps. -/
  | sleeps {t : Task (client X) Unit} (hnow : now ≤ k.called c)
      (hp : t.program = c.client k.lock) (hwait : t.wait = some (.timer (k.called c))) :
      At now c .asleep (if now < k.called c then 20 else 19) (some (.between t))
  /-- It is about to call. -/
  | wakes {t : Task (client X) Unit} (hnow : now = k.called c)
      (hp : t.program = .extended (.invoke (c.call k.lock)) fun _ => .done ())
      (hwait : t.wait = none) :
      At now c .asleep 18 (some (.between t))
  /-- It is in its call. -/
  | works {s : Stage} {n : Nat} {log : List Exchange} {t : Task X (Except Failure Bool)}
      (hnow : now = k.clock c s) (hp : k.Goes c s n t.program) (hwait : t.wait = none) :
      At now c s (n + 2) (some (.inside (c.call k.lock) log t fun _ => .done ()))
  /-- It waits until its token is written. -/
  | writes {token : Token} {n : Nat} {log : List Exchange} {t : Task X (Except Failure Bool)}
      {conn : Connection} {next : Except StoreError Bool → Program X (Except Failure Bool)}
      (hnow : now ≤ k.written c)
      (hp : t.program = .effect (.call (.command conn (.set k.key token c.ttl true))) next)
      (hwon : k.Goes c (.won token) n (next (.ok true)))
      (hlost : k.Goes c .lost n (next (.ok false)))
      (hwait : t.wait = some (.timer (k.written c))) :
      At now c (.connected token) (if now < k.written c then n + 4 else n + 3)
        (some (.inside (c.call k.lock) log t fun _ => .done ()))
  /-- Its call has returned. -/
  | returned {s : Stage} {b : Bool} {t : Task (client X) Unit} (hs : s.Ends b)
      (hp : t.program = .done ()) (hwait : t.wait = none) : At now c s 1 (some (.between t))
  /-- It is gone. -/
  | gone {s : Stage} {b : Bool} (hs : s.Ends b) : At now c s 0 none

/-- What an event tells of a contender in a stage: its call returns, or no call does. -/
def Tells (c : Contender) (s : Stage) (n n' : Nat) (ev : Event) : Prop :=
  (∃ log b, ev = .returned (c.call k.lock) log (.ok b) ∧ s.Ends b ∧ 1 < n ∧ n' = 1) ∨
    ¬ ev.IsReturn ∧ (1 < n → 1 < n')

/-- A step of a thread is one of a contender, and leaves fewer of them. -/
def Proceeds (c : Contender) (w : World) (s : Stage) (n : Nat) (ev : Event) (w' : World)
    (th' : Option (Thread X)) : Prop :=
  ∃ s' n', n' < n ∧ k.At w'.now c s' n' th' ∧ k.Advance c w s w' s' ∧ k.Tells c s n n' ev

variable {k : Contest} {c : Contender} {w w' : World} {s : Stage} {n : Nat} {ev : Event}
  {th' : Option (Thread X)}

/-! ### What a step comes to -/

/-- A contender that is about to sleep does so, unless it need not. -/
theorem proceeds_of_begins {t : Task (client X) Unit} (hnow : w.now = k.world.now)
    (hp : t.program = c.client k.lock) (hwait : t.wait = none)
    (h : (Thread.between t).Step w ev w' th') : k.Proceeds c w .asleep 21 ev w' th' := by
  have hstep := h.of_between
  rw [hp] at hstep
  rcases hstep with ⟨r, hnone, hanswer, rfl, rfl⟩ | ⟨t', hs, rfl, rfl⟩
  · cases hanswer
    have hdelay : c.delay = 0 := by simpa [World.wait?] using hnone hwait
    have hcalled : w.now = k.called c := by rw [called, hdelay, hnow, Nat.add_zero]
    exact ⟨.asleep, 18, by omega, .wakes hcalled rfl rfl, .stay w.lessened_self,
      .inr ⟨id, fun _ => by omega⟩⟩
  · rcases Task.step_eq_waits hs with ⟨-, -, hsome⟩ | ⟨e, next, wait, hp', -, hw', rfl⟩
    · rw [hwait] at hsome
      cases hsome
    · cases hp.symm.trans hp'
      obtain ⟨hdelay, hw'⟩ : 0 < c.delay ∧ (w, Wait.timer (w.now + c.delay)) = (w', wait) := by
        simpa [World.wait?] using hw'
      cases hw'
      have hlater : w.now < k.called c := by
        rw [called, hnow]
        omega
      have hat := At.sleeps (k := k) (c := c)
        (t := { t with wait := some (.timer (w.now + c.delay)) })
        (Nat.le_of_lt hlater) hp (by rw [hnow]; rfl)
      rw [if_pos hlater] at hat
      exact ⟨.asleep, 20, by omega, hat, .stay w.lessened_self, .inr ⟨id, fun _ => by omega⟩⟩

/-- A contender that has slept wakes up. -/
theorem proceeds_of_sleeps {t : Task (client X) Unit} (hnow : w.now ≤ k.called c)
    (hp : t.program = c.client k.lock) (hwait : t.wait = some (.timer (k.called c)))
    (hready : (Thread.between t).Ready w) (h : (Thread.between t).Step w ev w' th') :
    k.Proceeds c w .asleep (if w.now < k.called c then 20 else 19) ev w' th' := by
  have hover : w.isOver (.timer (k.called c)) = true := hready _ hwait
  have hcalled : w.now = k.called c := Nat.le_antisymm hnow (of_decide_eq_true hover)
  rw [if_neg (by omega)]
  have hstep := h.of_between
  rw [hp] at hstep
  rcases hstep with ⟨r, -, hanswer, rfl, rfl⟩ | ⟨t', hs, -⟩
  · cases hanswer
    exact ⟨.asleep, 18, by omega, .wakes hcalled rfl rfl, .stay w.lessened_self,
      .inr ⟨id, fun _ => by omega⟩⟩
  · exact absurd hs (Task.not_waits hwait hover)

/-- A contender in its call does what is next. -/
theorem proceeds_of_works {log : List Exchange} {t : Task X (Except Failure Bool)}
    (hw : k.Steady w) (hheld : s = .seeking → w.heldBy c.owner k.lock = none)
    (hfree : ∀ token, s = .minted token → 0 < w.store.pool.free) (hnow : w.now = k.clock c s)
    (hp : k.Goes c s n t.program) (hwait : t.wait = none)
    (h : (Thread.inside (c.call k.lock) log t fun _ => .done ()).Step w ev w' th') :
    k.Proceeds c w s (n + 2) ev w' th' := by
  cases h with
  | @work _ _ _ t' _ w' x hs hx =>
    obtain ⟨next, hprogram, hnone, hanswer, rfl⟩ := Task.step_eq_moved hs hx
    rw [hwait] at hanswer
    rw [hprogram] at hp
    obtain ⟨hsteps, hhears⟩ := hp
    obtain ⟨s', hadvance, hclock, hgoes⟩ := exchange hw hheld hfree hnow (hnone hwait) hhears
    rw [← hanswer] at hadvance hgoes
    have hgoes' : k.Goes c s' (n - x.effect.steps) (next x.reply) := hgoes
    have hpos : 0 < x.effect.steps := by
      unfold Effect.steps
      split <;> decide
    have hsame : w'.now = w.now := (congrArg (·.1.now) hanswer).trans (w.answer_now none x.effect)
    exact ⟨s', _, by omega, .works (hsame.trans hclock) hgoes' rfl, hadvance,
      .inr ⟨id, fun _ => by omega⟩⟩
  | await hs =>
    -- all that is waited for in a call is a write that is delayed
    rcases Task.step_eq_waits hs with ⟨-, -, hsome⟩ | ⟨e, next, wait, hprogram, -, hw', rfl⟩
    · rw [hwait] at hsome
      cases hsome
    · rw [hprogram] at hp
      obtain ⟨hsteps, hhears⟩ := hp
      rcases wait?_of_hears hw hfree hhears with
        hnone | ⟨⟨conn, token, rfl, rfl⟩, hlatency, hwait'⟩
      · rw [hw'] at hnone
        cases hnone
      · cases hw'.symm.trans hwait'
        obtain ⟨-, -, -, -, hwon, hlost⟩ := hhears
        have hwritten : w.now + k.world.store.latency = k.written c := by rw [hnow]; rfl
        have hlater : w.now < k.written c := by omega
        have hat : ∀ log, k.At w.now c _ _ (some (.inside _ log _ _)) := fun _ =>
          At.writes (k := k) (c := c) (n := n - 3)
            (t := { t with wait := some (.timer (w.now + k.world.store.latency)) })
            (Nat.le_of_lt hlater) hprogram hwon hlost (by rw [hwritten])
        simp only [if_pos hlater] at hat
        have hsteps' : 3 ≤ n := hsteps
        exact ⟨_, _, by omega, hat log, .stay w.lessened_self, .inr ⟨id, fun _ => by omega⟩⟩
  | «return» hs =>
    rw [Task.step_eq_finished hs] at hp
    obtain ⟨b, hends, rfl⟩ := hp
    exact ⟨s, 1, by omega, .returned hends rfl rfl, .stay w.lessened_self,
      .inl ⟨log, b, rfl, hends, by omega, rfl⟩⟩

/-- A contender whose token was to be written hears whether it was. -/
theorem proceeds_of_writes {token : Token} {log : List Exchange}
    {t : Task X (Except Failure Bool)} {conn : Connection}
    {next : Except StoreError Bool → Program X (Except Failure Bool)} (hnow : w.now ≤ k.written c)
    (hp : t.program = .effect (.call (.command conn (.set k.key token c.ttl true))) next)
    (hwon : k.Goes c (.won token) n (next (.ok true)))
    (hlost : k.Goes c .lost n (next (.ok false)))
    (hwait : t.wait = some (.timer (k.written c)))
    (hready : (Thread.inside (c.call k.lock) log t fun _ => .done ()).Ready w)
    (h : (Thread.inside (c.call k.lock) log t fun _ => .done ()).Step w ev w' th') :
    k.Proceeds c w (.connected token) (if w.now < k.written c then n + 4 else n + 3) ev w' th' := by
  -- the wait is over, and time has not gone on beyond its end
  have hover : w.isOver (.timer (k.written c)) = true := hready _ hwait
  have hwritten : w.now = k.written c := Nat.le_antisymm hnow (of_decide_eq_true hover)
  rw [if_neg (by omega)]
  cases h with
  | @work _ _ _ t' _ w' x hs hx =>
    obtain ⟨next', hprogram, -, hanswer, rfl⟩ := Task.step_eq_moved hs hx
    obtain ⟨e, r⟩ := x
    cases hp.symm.trans hprogram
    obtain ⟨s', hadvance, hclock, hgoes⟩ := exchange_write (k := k) (c := c)
      (Q := fun s' r => k.Goes c s' n (next r)) hwritten hwon hlost t.wait conn
    rw [← hanswer] at hadvance hgoes
    have hsame : w'.now = w.now := (congrArg (·.1.now) hanswer).trans (w.answer_now _ _)
    exact ⟨s', n + 2, by omega, .works (hsame.trans hclock) hgoes rfl, hadvance,
      .inr ⟨id, fun _ => by omega⟩⟩
  | await hs => exact absurd hs (Task.not_waits hwait hover)
  | «return» hs => cases hp.symm.trans (Task.step_eq_finished hs)

namespace At

/-- Every step of a contender brings it further. -/
theorem step {th : Thread X} (hat : k.At w.now c s n (some th)) (hw : k.Steady w)
    (hlatency : k.world.store.latency < c.ttl)
    (hheld : s = .seeking → w.heldBy c.owner k.lock = none)
    (hfree : ∀ token, s = .minted token → 0 < w.store.pool.free)
    (hready : th.Ready w) (h : th.Step w ev w' th') : k.Proceeds c w s n ev w' th' := by
  cases hat with
  | begins hnow hp hwait => exact proceeds_of_begins hnow hp hwait h
  | sleeps hnow hp hwait => exact proceeds_of_sleeps hnow hp hwait hready h
  | wakes hnow hp hwait =>
    have hstep := h.of_between
    rw [hp] at hstep
    obtain ⟨rfl, rfl, rfl⟩ := hstep
    exact ⟨.seeking, 17, by omega, .works hnow (k.acquire_keeps c hlatency) rfl, .call,
      .inr ⟨id, fun _ => by omega⟩⟩
  | works hnow hp hwait => exact proceeds_of_works hw hheld hfree hnow hp hwait h
  | writes hnow hp hwon hlost hwait =>
    exact proceeds_of_writes hnow hp hwon hlost hwait hready h
  | returned hs hp hwait =>
    have hstep := h.of_between
    rw [hp] at hstep
    obtain ⟨rfl, rfl, rfl⟩ := hstep
    exact ⟨_, 0, by omega, .gone hs, .stay (World.lessened_self _), .inr ⟨id, fun h => by omega⟩⟩

/-- A contender that is gone has come to an end. -/
theorem of_gone {now : Nat} (hat : k.At (X := X) now c s n none) : n = 0 ∧ ∃ b, s.Ends b := by
  cases hat with
  | gone hs => exact ⟨rfl, _, hs⟩

/-- All that a contender waits for is a time. -/
theorem wait?_cases {th : Thread X} (hat : k.At w.now c s n (some th)) :
    th.wait? = none ∨ ∃ wake, th.wait? = some (.timer wake) := by
  cases hat with
  | begins hnow hp hwait | wakes hnow hp hwait | works hnow hp hwait | returned hs hp hwait =>
    exact .inl hwait
  | sleeps hnow hp hwait => exact .inr ⟨_, hwait⟩
  | writes hnow hp hwon hlost hwait => exact .inr ⟨_, hwait⟩

/-- A contender that cannot go on waits for a time to come. -/
theorem wake_of_not_ready {th : Thread X} (hat : k.At w.now c s n (some th))
    (hrest : ¬ th.Ready w) : ∃ wake, th.wake? = some wake ∧ w.now < wake := by
  rcases hat.wait?_cases with hnone | ⟨wake, hwake⟩
  · exact absurd (Thread.ready_of_wait? hnone) hrest
  · rw [Thread.ready_of_timer hwake] at hrest
    exact ⟨wake, Thread.wake?_of_timer hwake, Nat.lt_of_not_le hrest⟩

/-- No contender waits beyond the time at which its token is written. -/
theorem wake_le {th : Thread X} {now wake : Nat} (hat : k.At now c s n (some th))
    (hwake : th.wake? = some wake) : wake ≤ k.written c := by
  obtain ⟨wait, hwait', rfl⟩ := Option.map_eq_some_iff.1 hwake
  cases hat with
  | begins hnow hp hwait | wakes hnow hp hwait | works hnow hp hwait | returned hs hp hwait =>
    cases hwait.symm.trans hwait'
  | sleeps hnow hp hwait =>
    cases hwait.symm.trans hwait'
    exact Nat.le_add_right _ _
  | writes hnow hp hwon hlost hwait =>
    cases hwait.symm.trans hwait'
    exact Nat.le_refl _

/-- While time passes until a contender can go on again, it stays where it is. -/
theorem elapse {th? : Option (Thread X)} (hat : k.At w.now c s n th?) (ms : Nat)
    (hrest : ∀ th, th? = some th → ¬ th.Ready w)
    (hfirst : ∀ th, th? = some th → ∀ wake, th.wake? = some wake → w.now + ms ≤ wake) :
    ∃ n', k.At (w.now + ms) c s n' th? ∧ n' ≤ n ∧ (1 < n → 1 < n') ∧
      ∀ th, th? = some th → th.wake? = some (w.now + ms) → n' < n := by
  cases hat with
  | begins hnow hp hwait | wakes hnow hp hwait | works hnow hp hwait | returned hs hp hwait =>
    -- whoever does not wait can go on, so no time passes
    exact (hrest _ rfl (Thread.ready_of_wait? hwait)).elim
  | sleeps hnow hp hwait =>
    obtain ⟨hlater, hle, hnext⟩ := Thread.timer_of_rest (hrest _ rfl) (hfirst _ rfl) hwait
    rw [if_pos hlater]
    refine ⟨_, .sleeps hle hp hwait, ?_, ?_, ?_⟩
    · split <;> omega
    · intro _
      split <;> omega
    · rintro th ⟨⟩ hwake
      rw [if_neg (Nat.not_lt.2 (Nat.le_of_eq (hnext hwake)))]
      omega
  | writes hnow hp hwon hlost hwait =>
    obtain ⟨hlater, hle, hnext⟩ := Thread.timer_of_rest (hrest _ rfl) (hfirst _ rfl) hwait
    rw [if_pos hlater]
    refine ⟨_, .writes hle hp hwon hlost hwait, ?_, ?_, ?_⟩
    · split <;> omega
    · intro _
      split <;> omega
    · rintro th ⟨⟩ hwake
      rw [if_neg (Nat.not_lt.2 (Nat.le_of_eq (hnext hwake)))]
      omega
  | gone hs => exact ⟨0, .gone hs, Nat.le_refl _, id, nofun⟩

/-- A contender that is not gone has a next step. -/
theorem exists_step {th : Thread X} (hat : k.At w.now c s n (some th)) :
    ∃ ev w' th', th.Step w ev w' th' := by
  cases hat with
  | begins hnow hp hwait => exact Thread.exists_step_between w hp
  | sleeps hnow hp hwait => exact Thread.exists_step_between w hp
  | @wakes t hnow hp hwait =>
    have hs : t.step w =
        .asks (.invoke (c.call k.lock)) fun _ => { t with program := .done () } := by
      unfold Task.step
      rw [hp]
    exact ⟨_, _, _, .call hs trivial⟩
  | @works s n log t hnow hp hwait =>
    cases hprogram : t.program with
    | done a => exact ⟨_, _, _, .return (Task.step_of_done hprogram w)⟩
    | effect e next => exact Thread.exists_step_inside w hprogram
    | extended op next =>
      rw [hprogram] at hp
      exact hp.1.elim
  | writes hnow hp hwon hlost hwait => exact Thread.exists_step_inside w hp
  | returned hs hp hwait => exact ⟨_, _, _, .finish (Task.step_of_done hp w)⟩

end At

end Contest

end Latchkey
