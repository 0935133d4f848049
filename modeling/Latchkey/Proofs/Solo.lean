import Latchkey.Proofs.Ensures
import Latchkey.Proofs.Invariant

/-!
# Calls that never wait

A call alone on a world goes from effect to effect as long as none of them waits. What it ensures in
this reading is what it comes to: when it is run by itself, and when it is a thread of a machine.

The main statements are `Program.Ensures.run_alone` and `Machine.run_call`.
-/

namespace Latchkey

variable {X : Extension} {α : Type}

/-- Effects are answered by a world, and none of them waits. -/
def World.alone : Interpretation World where
  before w e Q := w.wait? e = none ∧ Q (w.answer none e).1 (w.answer none e).2
  outside := False
  mono h hQ := ⟨h.1, hQ _ _ h.2⟩

@[simp] theorem World.alone_before (w : World) (e : Effect) (Q : World → e.Reply → Prop) :
    World.alone.before w e Q ↔ w.wait? e = none ∧ Q (w.answer none e).1 (w.answer none e).2 :=
  Iff.rfl

theorem World.perform_of_wait? {w : World} {e : Effect} (h : w.wait? e = none) :
    w.perform e = w.answer none e := by
  unfold perform
  rw [h]

namespace Program.Ensures

variable {p : Program X α} {w : World} {Q : World → α → Prop}

/-- A program that never waits comes to what it comes to when it is run by itself. -/
theorem exact {σ : Type} (h : p.Ensures World.alone w Q)
    (handle : World → σ → (op : X.Op) → World × σ × X.Reply op) (s : σ) :
    p.Ensures World.alone w fun w' a => p.run World.perform handle w s = (w', s, a) ∧ Q w' a := by
  induction p generalizing w with
  | done a => exact ⟨rfl, h⟩
  | effect e next ih =>
    obtain ⟨hwait, h⟩ := h
    refine ⟨hwait, (ih _ h).mono fun w' a ⟨hrun, hq⟩ => ⟨?_, hq⟩⟩
    rw [← hrun, ← World.perform_of_wait? hwait]
    rfl
  | extended op next ih => exact h.1.elim

theorem ends (h : p.Ensures World.alone w Q) : ∃ w' a, Q w' a := by
  induction p generalizing w with
  | done a => exact ⟨w, a, h⟩
  | effect e next ih => exact ih _ h.2
  | extended op next ih => exact h.1.elim

/-- A program that never waits ends as ensured when it is run by itself. -/
theorem run_alone {σ : Type} (h : p.Ensures World.alone w Q)
    (handle : World → σ → (op : X.Op) → World × σ × X.Reply op) (s : σ) :
    ∃ w' a, p.run World.perform handle w s = (w', s, a) ∧ Q w' a :=
  (h.exact handle s).ends

end Program.Ensures

/-- Effects are answered by a world in which nothing else goes on: a wait is as long as it can
be. -/
def World.solo : Interpretation World where
  before w e Q := Q (w.perform e).1 (w.perform e).2
  outside := False
  mono h hQ := hQ _ _ h

@[simp] theorem World.solo_before (w : World) (e : Effect) (Q : World → e.Reply → Prop) :
    World.solo.before w e Q ↔ Q (w.perform e).1 (w.perform e).2 := Iff.rfl

/-- A program ends as ensured when it is run by itself, waits included. -/
theorem Program.Ensures.run_solo {p : Program X α} {w : World} {Q : World → α → Prop} {σ : Type}
    (h : p.Ensures World.solo w Q)
    (handle : World → σ → (op : X.Op) → World × σ × X.Reply op) (s : σ) :
    ∃ w' a, p.run World.perform handle w s = (w', s, a) ∧ Q w' a := by
  induction p generalizing w with
  | done a => exact ⟨w, a, rfl, h⟩
  | effect e next ih => exact ih _ h
  | extended op next ih => exact h.1.elim

/-- Effects are answered by a world in which nothing else goes on, and they wait only if that is
allowed. -/
def World.quiet (mayWait : Prop) : Interpretation World where
  before w e Q := (mayWait ∨ w.wait? e = none) ∧ Q (w.perform e).1 (w.perform e).2
  outside := False
  mono h hQ := ⟨h.1, hQ _ _ h.2⟩

@[simp] theorem World.quiet_before (mayWait : Prop) (w : World) (e : Effect)
    (Q : World → e.Reply → Prop) :
    (World.quiet mayWait).before w e Q ↔
      (mayWait ∨ w.wait? e = none) ∧ Q (w.perform e).1 (w.perform e).2 := Iff.rfl

/-- A program that may not wait never waits. -/
theorem Program.Ensures.alone {p : Program X α} {w : World} {Q : World → α → Prop}
    (h : p.Ensures (World.quiet False) w Q) : p.Ensures World.alone w Q := by
  induction p generalizing w with
  | done a => exact h
  | effect e next ih =>
    obtain ⟨hwait, h⟩ := h
    have hnone : w.wait? e = none := hwait.resolve_left id
    rw [World.perform_of_wait? hnone] at h
    exact ⟨hnone, ih _ h⟩
  | extended op next ih => exact h.1.elim

theorem Program.Ensures.solo {p : Program X α} {w : World} {Q : World → α → Prop} {mayWait : Prop}
    (h : p.Ensures (World.quiet mayWait) w Q) : p.Ensures World.solo w Q := by
  induction p generalizing w with
  | done a => exact h
  | effect e next ih => exact ih _ h.2
  | extended op next ih => exact h.1.elim

/-- Whether a program alone never waits and ends as required can be found out by running it. -/
instance Program.decideAlone : (p : Program X α) → (w : World) → (Q : World → α → Prop) →
    [∀ w a, Decidable (Q w a)] → Decidable (p.Ensures World.alone w Q)
  | .done a, w, Q, _ => inferInstanceAs (Decidable (Q w a))
  | .effect e next, w, Q, _ =>
    have := decideAlone (next (w.answer none e).2) (w.answer none e).1 Q
    inferInstanceAs (Decidable (w.wait? e = none ∧
      (next (w.answer none e).2).Ensures World.alone (w.answer none e).1 Q))
  | .extended _ _, _, _, _ => .isFalse fun h => h.1

/-- The exchanges of a program that never waits, when it is run by itself. -/
def Program.exchanges : Program X α → World → List Exchange
  | .done _, _ => []
  | .effect e next, w =>
    ⟨e, (w.answer none e).2⟩ :: (next (w.answer none e).2).exchanges (w.answer none e).1
  | .extended _ _, _ => []

/-- Whether a program ends as required when it is run by itself can be found out by running it. -/
instance Program.decideSolo : (p : Program X α) → (w : World) → (Q : World → α → Prop) →
    [∀ w a, Decidable (Q w a)] → Decidable (p.Ensures World.solo w Q)
  | .done a, w, Q, _ => inferInstanceAs (Decidable (Q w a))
  | .effect e next, w, Q, _ =>
    have := decideSolo (next (w.perform e).2) (w.perform e).1 Q
    inferInstanceAs (Decidable ((next (w.perform e).2).Ensures World.solo (w.perform e).1 Q))
  | .extended _ _, _, _, _ => .isFalse fun h => h.1

/-- The exchanges of a program when it is run by itself, waits included. -/
def Program.soloExchanges : Program X α → World → List Exchange
  | .done _, _ => []
  | .effect e next, w =>
    ⟨e, (w.perform e).2⟩ :: (next (w.perform e).2).soloExchanges (w.perform e).1
  | .extended _ _, _ => []

/-- A wait is over at the latest time at which it can be. -/
theorem World.isOver_atTime (w : World) (wait : Wait) :
    (w.atTime wait.latest).isOver wait = true := by
  cases wait with
  | timer wake => exact decide_eq_true (Nat.le_max_right _ _)
  | permit ticket deadline =>
    have hover : decide (deadline ≤ max w.now deadline) = true :=
      decide_eq_true (Nat.le_max_right _ _)
    exact (congrArg (_ || ·) hover).trans (Bool.or_true _)

namespace Machine

variable {mode : Scheduling} {o : Operation}

/-- An operation that never waits goes on to its end in a machine in which all others rest. -/
theorem run_inside {p : Program X o.Answer} {w : World}
    {Q : World → o.Answer → Prop} (h : p.Ensures World.alone w Q) {pre post : List (Thread X)}
    (hm : mode.Admits (pre ++ post)) (log : List Exchange) (conns : List Connection)
    (guards : List Guard) (next : o.Answer → Client X Unit) :
    ∃ w' a conns' guards', Q w' a ∧
      Run (Step mode) ⟨w, pre ++ .inside o log ⟨p, none, conns, guards⟩ next :: post⟩
        ((p.exchanges w).map (.did o))
        ⟨w', pre ++ .inside o (log ++ p.exchanges w) ⟨.done a, none, conns', guards'⟩ next ::
          post⟩ := by
  induction p generalizing w log conns guards with
  | done a => exact ⟨w, a, conns, guards, h, by simpa [Program.exchanges] using Run.nil⟩
  | effect e k ih =>
    obtain ⟨hwait, h⟩ := h
    let t : Task X o.Answer := ⟨.effect e k, none, conns, guards⟩
    have hs : t.step w = .moved (w.answer none e).1 (t.afterReply e k (w.answer none e).2) := by
      simp [Task.step, t, hwait]
    have hx : t.exchange? w = some ⟨e, (w.answer none e).2⟩ := by
      simp [Task.exchange?, t, hwait]
    obtain ⟨w', a, conns', guards', hq, hrun⟩ :=
      ih _ h (log ++ [⟨e, (w.answer none e).2⟩])
        (Task.connectionsAfter conns e (w.answer none e).2) (Task.guardsAfter guards e)
    have hstep : Step mode ⟨w, pre ++ .inside o log t next :: post⟩ (.did o ⟨e, _⟩)
        ⟨_, pre ++ (some (.inside o _ _ next)).toList ++ post⟩ := .thread hm (.work hs hx)
    rw [Option.toList_some, List.append_assoc, List.singleton_append] at hstep
    rw [List.append_assoc] at hrun
    exact ⟨w', a, conns', guards', hq,
      Run.append (.single hstep) hrun⟩
  | extended op k ih => exact h.1.elim

theorem admits_nil : mode.Admits ([] ++ [] : List (Thread X)) := by
  cases mode with
  | cooperative => exact fun _ hmem => by cases hmem
  | parallel => trivial

theorem Step.only {w w' : World} {ev : Event} {th : Thread X} {th' : Option (Thread X)}
    (h : th.Step w ev w' th') : Step mode ⟨w, [th]⟩ ev ⟨w', th'.toList⟩ := by
  have hstep : Step mode ⟨w, [] ++ th :: []⟩ ev ⟨w', [] ++ th'.toList ++ []⟩ :=
    .thread admits_nil h
  simpa using hstep

/-- A client on a machine without others performs an effect that does not wait, outside of any
operation. -/
theorem step_perform {w : World} {e : Effect} (hwait : w.wait? e = none)
    (hspares : w.Spares (w.answer none e).1) (next : e.Reply → Client X Unit)
    (conns : List Connection) (guards : List Guard) :
    LockStep mode ⟨w, [.between ⟨.effect e next, none, conns, guards⟩]⟩
      (.performed ⟨e, (w.answer none e).2⟩)
      ⟨(w.answer none e).1, [.between ⟨next (w.answer none e).2, none,
        Task.connectionsAfter conns e (w.answer none e).2, Task.guardsAfter guards e⟩]⟩ := by
  let t : Task (client X) Unit := ⟨.effect e next, none, conns, guards⟩
  have hs : t.step w = .moved (w.answer none e).1 (t.afterReply e next (w.answer none e).2) := by
    simp [Task.step, t, hwait]
  have hx : t.exchange? w = some ⟨e, (w.answer none e).2⟩ := by
    simp [Task.exchange?, t, hwait]
  exact ⟨.only (.perform hs hx), fun _ => hspares⟩

/-- A client on a machine without others ends. -/
theorem step_finish (w : World) (conns : List Connection) (guards : List Guard) :
    LockStep (X := X) mode ⟨w, [.between ⟨.done (), none, conns, guards⟩]⟩ .silent ⟨w, []⟩ := by
  have hfinish : Thread.Step (X := X) w (.between ⟨.done (), none, conns, guards⟩) .silent w none :=
    .finish rfl
  exact ⟨.only hfinish, fun hforeign => hforeign.elim⟩

/-- A client on a machine without others calls an operation that never waits: what happens up to the
return of the operation, and the return. -/
theorem run_operation (hc : o.IsCall) {w : World} {Q : World → o.Answer → Prop}
    (h : (o.program (X := X)).Ensures World.alone w Q) (next : o.Answer → Client X Unit)
    (conns : List Connection) (guards : List Guard) :
    ∃ w' a conns' guards', Q w' a ∧
      Run (Step mode)
        ⟨w, [.between ⟨.extended (.invoke o) next, none, conns, guards⟩]⟩
        (.began o :: ((o.program (X := X)).exchanges w).map (.did o))
        ⟨w', [.inside o ((o.program (X := X)).exchanges w) ⟨.done a, none, conns', guards'⟩ next]⟩ ∧
      Step mode
        ⟨w', [.inside o ((o.program (X := X)).exchanges w) ⟨.done a, none, conns', guards'⟩ next]⟩
        (.returned o ((o.program (X := X)).exchanges w) a)
        ⟨w', [.between ⟨next a, none, conns', guards'⟩]⟩ := by
  have hm : mode.Admits ([] ++ [] : List (Thread X)) := admits_nil
  obtain ⟨w', a, conns', guards', hq, hrun⟩ := run_inside h hm [] conns guards next
  have hcalled : Thread.Step w (.between ⟨.extended (.invoke o) next, none, conns, guards⟩)
      (.began o) w (some (.inside o [] ⟨o.program, none, conns, guards⟩ next)) :=
    @Thread.Step.call X w _ o (fun a => ⟨next a, none, conns, guards⟩) rfl hc
  have hreturned : Thread.Step (X := X) w'
      (.inside o ((o.program (X := X)).exchanges w) ⟨.done a, none, conns', guards'⟩ next)
      (.returned o ((o.program (X := X)).exchanges w) a) w'
      (some (.between ⟨next a, none, conns', guards'⟩)) := .return rfl
  exact ⟨w', a, conns', guards', hq, Run.append (.single (.only hcalled)) hrun, .only hreturned⟩

/-- A lock operation touches locks as it may. -/
theorem LockStep.of_isLock {s s' : Machine X} {log : List Exchange} (ho : o.IsLock)
    (h : Run (Step mode) s (.began o :: log.map (.did o)) s') :
    Run (LockStep mode) s (.began o :: log.map (.did o)) s' := by
  refine h.imp fun {s ev s'} hmem hs => ⟨hs, fun hforeign => ?_⟩
  rcases List.mem_cons.1 hmem with rfl | hmem
  · exact hforeign.elim
  · obtain ⟨x, -, rfl⟩ := List.mem_map.1 hmem
    exact absurd ho hforeign

/-- What is answered to an effect of a lock operation of a client on a machine without others, after
a wait that lasts as long as it can. -/
theorem run_perform (ho : o.IsLock) (w : World) (e : Effect) (k : e.Reply → Program X o.Answer)
    (log : List Exchange) (conns : List Connection) (guards : List Guard)
    (next : o.Answer → Client X Unit) :
    ∃ tr conns' guards',
      Run (LockStep mode) ⟨w, [.inside o log ⟨.effect e k, none, conns, guards⟩ next]⟩ tr
        ⟨(w.perform e).1, [.inside o (log ++ [⟨e, (w.perform e).2⟩])
          ⟨k (w.perform e).2, none, conns', guards'⟩ next]⟩ := by
  let t : Task X o.Answer := ⟨.effect e k, none, conns, guards⟩
  have hlock : ∀ {s s' : Machine X} {x : Exchange}, Step mode s (.did o x) s' →
      s.LockStep mode (.did o x) s' := fun hs => ⟨hs, fun hforeign => absurd ho hforeign⟩
  cases hw : w.wait? e with
  | none =>
    rw [World.perform_of_wait? hw]
    have hs : t.step w = .moved (w.answer none e).1 (t.afterReply e k (w.answer none e).2) := by
      simp [Task.step, t, hw]
    have hx : t.exchange? w = some ⟨e, (w.answer none e).2⟩ := by
      simp [Task.exchange?, t, hw]
    exact ⟨_, _, _, .single (hlock (.only (.work hs hx)))⟩
  | some v =>
    obtain ⟨w₁, wait⟩ := v
    let t₁ : Task X o.Answer := { t with wait := some wait }
    let w₂ := w₁.atTime wait.latest
    have hperform : w.perform e = w₂.answer (some wait) e := by
      unfold World.perform
      rw [hw]
    have hover := w₁.isOver_atTime wait
    have hwaits : t.step w = .waits w₁ t₁ := by simp [Task.step, t, t₁, hw]
    have hs : t₁.step w₂ = .moved (w₂.answer (some wait) e).1
        (t₁.afterReply e k (w₂.answer (some wait) e).2) := by
      simp [Task.step, t₁, t, w₂, hover]
    have hx : t₁.exchange? w₂ = some ⟨e, (w₂.answer (some wait) e).2⟩ := by
      simp [Task.exchange?, t₁, t, w₂, hover]
    have hbegins : LockStep mode ⟨w, [.inside o log t next]⟩ .silent
        ⟨w₁, [.inside o log t₁ next]⟩ := ⟨.only (.await hwaits), fun hforeign => hforeign.elim⟩
    have hpasses : LockStep mode (⟨w₁, [.inside o log t₁ next]⟩ : Machine X)
        (.elapsed (wait.latest - w₁.now)) ⟨w₂, [.inside o log t₁ next]⟩ := by
      have htime : w₁.now + (wait.latest - w₁.now) = max w₁.now wait.latest := by omega
      have helapse : Step mode (⟨w₁, [.inside o log t₁ next]⟩ : Machine X)
          (.elapsed (wait.latest - w₁.now)) _ := .elapse _ fun th hmem => by
        cases List.mem_singleton.1 hmem
        rfl
      rw [htime] at helapse
      exact ⟨helapse, fun hforeign => hforeign.elim⟩
    rw [hperform]
    exact ⟨_, _, _, ((Run.single hbegins).snoc hpasses).snoc (hlock (.only (.work hs hx)))⟩

/-- A lock operation of a client on a machine without others goes on to its end, waits included. -/
theorem run_inside_solo (ho : o.IsLock) {p : Program X o.Answer} {w : World}
    {Q : World → o.Answer → Prop} (h : p.Ensures World.solo w Q) (log : List Exchange)
    (conns : List Connection) (guards : List Guard) (next : o.Answer → Client X Unit) :
    ∃ tr w' a conns' guards', Q w' a ∧
      Run (LockStep mode) ⟨w, [.inside o log ⟨p, none, conns, guards⟩ next]⟩ tr
        ⟨w', [.inside o (log ++ p.soloExchanges w) ⟨.done a, none, conns', guards'⟩ next]⟩ := by
  induction p generalizing w log conns guards with
  | done a => exact ⟨[], w, a, conns, guards, h, by simpa [Program.soloExchanges] using Run.nil⟩
  | effect e k ih =>
    obtain ⟨tr, conns', guards', hfirst⟩ := @run_perform X mode o ho w e k log conns guards next
    obtain ⟨tr', w', a, conns'', guards'', hq, hrest⟩ :=
      ih _ h (log ++ [⟨e, (w.perform e).2⟩]) conns' guards'
    rw [List.append_assoc] at hrest
    exact ⟨_, w', a, conns'', guards'', hq, hfirst.append hrest⟩
  | extended op k ih => exact h.1.elim

/-- A client that only calls a lock operation, on a machine without others: what happens up to the
return of the operation, waits included, and the return. -/
theorem run_call_solo (ho : o.IsLock) (hc : o.IsCall) {w : World} {Q : World → o.Answer → Prop}
    (h : (o.program (X := X)).Ensures World.solo w Q) :
    ∃ tr a s s', Q s'.world a ∧ Run (LockStep (X := X) mode) ⟨w, []⟩ tr s ∧
      s.LockStep mode (.returned o ((o.program (X := X)).soloExchanges w) a) s' := by
  let next : o.Answer → Client X Unit := fun _ => .done ()
  obtain ⟨tr, w', a, conns, guards, hq, hrun⟩ :=
    @run_inside_solo X mode o ho _ w Q h [] [] [] next
  have hstart : LockStep mode (⟨w, []⟩ : Machine X) .silent
      ⟨w, [.between { program := Client.invoke o >>= next }]⟩ :=
    ⟨.start _, fun hforeign => hforeign.elim⟩
  have hcalled : Thread.Step (X := X) w (.between { program := Client.invoke o >>= next })
      (.began o) w (some (.inside o [] ⟨o.program, none, [], []⟩ next)) :=
    @Thread.Step.call X w _ o (fun a => ⟨next a, none, [], []⟩) rfl hc
  have hbegan : LockStep mode (⟨w, [.between { program := Client.invoke o >>= next }]⟩ : Machine X)
      (.began o) ⟨w, [.inside o [] ⟨o.program, none, [], []⟩ next]⟩ :=
    ⟨.only hcalled, fun hforeign => hforeign.elim⟩
  have hreturned : Thread.Step (X := X) w'
      (.inside o ((o.program (X := X)).soloExchanges w) ⟨.done a, none, conns, guards⟩ next)
      (.returned o _ a) w' _ := .return rfl
  exact ⟨_, a, _, _, hq, ((Run.single hstart).snoc hbegan).append hrun, .only hreturned,
    fun hforeign => hforeign.elim⟩

/-- A client that only calls a lock operation that never waits, on a machine without others: what
happens up to the return of the operation, the return, and the end of the client. -/
theorem run_call (ho : o.IsLock) (hc : o.IsCall) {w : World} {Q : World → o.Answer → Prop}
    (h : (o.program (X := X)).Ensures World.alone w Q) :
    ∃ tr w' a s' s'', Q w' a ∧ Run (LockStep (X := X) mode) ⟨w, []⟩ tr s' ∧
      s'.LockStep mode (.returned o ((o.program (X := X)).exchanges w) a) s'' ∧
      Run (LockStep mode) s'' [.silent] ⟨w', []⟩ := by
  let c : Client X Unit := Client.invoke o >>= fun _ => .done ()
  obtain ⟨w', a, conns, guards, hq, hrun, hreturned⟩ :=
    @run_operation X mode o hc w Q h (fun _ => .done ()) [] []
  have hstart : LockStep mode ⟨w, []⟩ .silent ⟨w, [.between { program := c }]⟩ :=
    ⟨.start c, fun hf => hf.elim⟩
  exact ⟨_, w', a, _, _, hq, Run.append (.single hstart) (LockStep.of_isLock ho hrun),
    ⟨hreturned, fun hf => hf.elim⟩, .single (step_finish w' conns guards)⟩

end Machine

end Latchkey
