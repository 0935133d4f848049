import Mathlib.Data.List.Perm.Subperm
import Latchkey.Proofs.PoolBalance
import Latchkey.Proofs.Schedules

/-!
# Closed stores

A store that is closed turns away whoever asks for a connection. It does not look at those that
asked before and still wait in the queue of the pool: as connections come back these are served, one
after another, as if the store were open.

The main statement is `closed_store_serves_queue`.
-/

namespace Latchkey

variable {X : Extension} {α : Type}

/-! ## Answers of a closed store -/

/-- Whether a connection was lent. -/
def Exchange.isLoan : Exchange → Bool
  | ⟨.call (.connect _), .ok _⟩ => true
  | _ => false

/-- Whether a connection was lent. -/
def Event.isLoan : Event → Bool
  | .did _ x => x.isLoan
  | .performed x => x.isLoan
  | _ => false

/-- The event is an exchange, be it of an operation or of a client. -/
def Event.Shows (ev : Event) (x : Exchange) : Prop := ev = .performed x ∨ ∃ o, ev = .did o x

theorem Exchange.eq_loan {x : Exchange} (h : x.isLoan = true) :
    ∃ node conn, x = ⟨.call (.connect node), .ok conn⟩ := by
  obtain ⟨e, r⟩ := x
  cases e with
  | call c =>
    cases c with
    | connect node =>
      cases r with
      | ok conn => exact ⟨node, conn, rfl⟩
      | error e => cases h
    | _ => cases h
  | _ => cases h

namespace World

variable {w w' : World} {e : Effect}

/-- What a closed store answers to a borrower who has drawn a ticket, or none. -/
def afterClosing (w : World) (node : NodeId) : Option Ticket → Except StoreError Connection
  | none => .error .closed
  | some ticket =>
    if w.store.pool.isGranted ticket then .ok ⟨w.store.loans, node⟩
    else .error w.store.poolTimeout

theorem refusal?_of_closed (h : w.store.closing = true) (node : NodeId) :
    w.store.refusal? node = some .closed := by
  simp [Memory.refusal?, h]

/-- Only a borrower that has waited is not turned away. -/
theorem connect_closed (h : w.store.closing = true) (node : NodeId) (waited : Option Wait) :
    (w.connect node waited).2 = w.afterClosing node (waited.bind Wait.ticket?) := by
  have hrefused : ∀ waited, waited.bind Wait.ticket? = none →
      (w.connect node waited).2 = .error .closed := by
    intro waited hnone
    rcases waited with _ | (wake | ⟨ticket, deadline⟩)
    · simp [connect, refusal?_of_closed h]
    · simp [connect, refusal?_of_closed h]
    · cases hnone
  rcases waited with _ | (wake | ⟨ticket, deadline⟩)
  · exact hrefused none rfl
  · exact hrefused (some (.timer wake)) rfl
  · show (connect ..).2 = if w.store.pool.isGranted ticket = true then _ else _
    by_cases hgranted : w.store.pool.isGranted ticket = true
    · simp [connect, lend, Memory.lend, hgranted]
    · simp [connect, hgranted]

/-- Nobody queues up for a connection of a closed store. -/
theorem ticket?_of_closed {wait : Wait} (h : w.store.closing = true)
    (hwait : w.wait? e = some (w', wait)) : wait.ticket? = none := by
  cases hticket : wait.ticket? with
  | none => rfl
  | some ticket =>
    obtain ⟨node, rfl⟩ := (wait?_passes hwait 0).2 (by rw [hticket]; rfl)
    simp [wait?, refusal?_of_closed h] at hwait

theorem connect_closing (w : World) (node : NodeId) (waited : Option Wait) :
    (w.connect node waited).1.store.closing = w.store.closing := by
  unfold connect
  split
  · split <;> rfl
  · split
    · rfl
    · split <;> rfl

/-- No answer opens or closes a store. -/
theorem answer_closing (w : World) (waited : Option Wait) (e : Effect) :
    (w.answer waited e).1.store.closing = w.store.closing := by
  cases e with
  | call c =>
    cases c with
    | connect node => exact w.connect_closing node waited
    | command conn cmd =>
      cases cmd with
      | awaitReplicas count timeout =>
        show (w.command conn waited _).1.store.closing = _
        unfold command
        split
        · rfl
        · split
          · rfl
          · split <;> rfl
      | _ => rfl
    | _ => rfl
  | _ => rfl

theorem wait?_closing {wait : Wait} (h : w.wait? e = some (w', wait)) :
    w'.store.closing = w.store.closing := by
  unfold wait? at h
  split at h
  · split at h <;> cases h
    rfl
  · split at h <;> cases h
    rfl
  · obtain ⟨wait', -, heq⟩ := Option.map_eq_some_iff.1 h
    cases heq
    rfl
  · cases h

end World

/-! ## Tasks and threads -/

namespace Task

variable {w w' : World} {t t' : Task X α}

/-- Of a closed store a task gets a connection only for the ticket that it waits with, and waits no
more. -/
theorem served_of_moved {x : Exchange} (h : w.store.closing = true)
    (hs : t.step w = .moved w' t') (hx : t.exchange? w = some x) :
    w'.store.closing = true ∧ t'.tickets = [] ∧
      ∃ served : List Ticket, served.length = x.isLoan.toNat ∧ served.Sublist t.tickets := by
  obtain ⟨next, hp, -, hanswer, rfl⟩ := step_eq_moved hs hx
  obtain rfl : w' = _ := congrArg Prod.fst hanswer
  refine ⟨(w.answer_closing t.wait x.effect).trans h, rfl, ?_⟩
  by_cases hloan : x.isLoan = true
  · obtain ⟨node, conn, rfl⟩ := Exchange.eq_loan hloan
    have hreply : .ok conn = (w.connect node t.wait).2 := congrArg Prod.snd hanswer
    rw [World.connect_closed h] at hreply
    cases hticket : t.wait.bind Wait.ticket? with
    | none =>
      rw [hticket] at hreply
      cases hreply
    | some ticket =>
      refine ⟨t.tickets, ?_, List.Sublist.refl _⟩
      rw [tickets, hticket]
      rfl
  · rw [Bool.not_eq_true] at hloan
    exact ⟨[], by rw [hloan]; rfl, List.nil_sublist _⟩

/-- A task that waits for a closed store to answer waits with the ticket that it had. -/
theorem tickets_of_waits (h : w.store.closing = true) (hs : t.step w = .waits w' t') :
    w'.store.closing = true ∧ t'.tickets = t.tickets := by
  rcases step_eq_waits hs with ⟨rfl, rfl, -⟩ | ⟨e, next, wait, -, hnone, hwait, rfl⟩
  · exact ⟨h, rfl⟩
  · refine ⟨(World.wait?_closing hwait).trans h, ?_⟩
    show wait.ticket?.toList = (t.wait.bind Wait.ticket?).toList
    rw [World.ticket?_of_closed h hwait, hnone]
    rfl

theorem drop_closing (w : World) (t : Task X α) :
    (t.drop w).1.store.closing = w.store.closing := by
  have hback : ∀ (conns : List Connection) (w : World),
      (conns.foldl (fun w _ => w.giveBack) w).store.closing = w.store.closing := by
    intro conns
    induction conns with
    | nil => exact fun _ => rfl
    | cons conn conns ih => exact fun w => ih w.giveBack
  unfold drop
  rw [forgetGuards_store, hback]
  cases t.wait with
  | none => rfl
  | some wait => cases wait <;> rfl

end Task

namespace Thread

variable {w w' : World} {th : Thread X} {th' : Option (Thread X)} {ev : Event}

/-- A step of a thread on a closed store lends only for a ticket, and draws none. -/
theorem Step.served (h : th.Step w ev w' th') (hclosed : w.store.closing = true) :
    w'.store.closing = true ∧ ∃ served : List Ticket, served.length = ev.isLoan.toNat ∧
      (served ++ th'.toList.flatMap tickets).Sublist th.tickets := by
  have hnone : ∀ tickets : List Ticket, ([] ++ []).Sublist tickets := List.nil_sublist
  cases h with
  | perform hs hx =>
    obtain ⟨hclosed', hleft, served, hlength, hsub⟩ := Task.served_of_moved hclosed hs hx
    exact ⟨hclosed', served, hlength, by simpa [tickets, hleft] using hsub⟩
  | work hs hx =>
    obtain ⟨hclosed', hleft, served, hlength, hsub⟩ := Task.served_of_moved hclosed hs hx
    exact ⟨hclosed', served, hlength, by simpa [tickets, hleft] using hsub⟩
  | rest hs =>
    obtain ⟨hclosed', hsame⟩ := Task.tickets_of_waits hclosed hs
    exact ⟨hclosed', [], rfl, by simp [tickets, hsame]⟩
  | await hs =>
    obtain ⟨hclosed', hsame⟩ := Task.tickets_of_waits hclosed hs
    exact ⟨hclosed', [], rfl, by simp [tickets, hsame]⟩
  | hear hs r =>
    obtain ⟨k, -, rfl⟩ := Task.step_eq_asks hs
    exact ⟨hclosed, [], rfl, by simp [tickets, Task.tickets]⟩
  | finish hs => exact ⟨hclosed, [], rfl, hnone _⟩
  | call hs ho => exact ⟨hclosed, [], rfl, hnone _⟩
  | «return» hs => exact ⟨hclosed, [], rfl, hnone _⟩

/-- What a closed store answers to a thread that asks for a connection. -/
theorem Step.answer_closed (h : th.Step w ev w' th') (hclosed : w.store.closing = true)
    {node : NodeId} {r : Except StoreError Connection}
    (hev : ev.Shows ⟨.call (.connect node), r⟩) :
    ∃ ticket?, th.tickets = ticket?.toList ∧ r = w.afterClosing node ticket? := by
  have htask : ∀ {α : Type} {Y : Extension} {t t' : Task Y α}, t.step w = .moved w' t' →
      t.exchange? w = some ⟨.call (.connect node), r⟩ →
      r = w.afterClosing node (t.wait.bind Wait.ticket?) := by
    intro α Y t t' hs hx
    obtain ⟨next, -, -, hanswer, -⟩ := Task.step_eq_moved hs hx
    rw [← World.connect_closed hclosed]
    exact congrArg Prod.snd hanswer
  cases h with
  | perform hs hx =>
    rcases hev with heq | ⟨o, heq⟩
    · cases heq
      exact ⟨_, rfl, htask hs hx⟩
    · cases heq
  | work hs hx =>
    rcases hev with heq | ⟨o, heq⟩
    · cases heq
    · cases heq
      exact ⟨_, rfl, htask hs hx⟩
  | _ =>
    rcases hev with heq | ⟨o, heq⟩
    · cases heq
    · cases heq

end Thread

/-! ## Machines -/

namespace Machine

variable {mode : Scheduling} {tr : List Event} {s s' s₁ s₂ : Machine X} {ev : Event}

/-- The tickets that threads wait with. -/
def tickets (s : Machine X) : List Ticket := s.threads.flatMap Thread.tickets

theorem Step.served (h : Step mode s ev s') (hclosed : s.world.store.closing = true) :
    s'.world.store.closing = true ∧ ∃ served : List Ticket, served.length = ev.isLoan.toNat ∧
      (served ++ s'.tickets).Subperm s.tickets := by
  cases h with
  | @thread w w' pre post th th' ev hm hth =>
    obtain ⟨hclosed', served, hlength, hsub⟩ := hth.served hclosed
    refine ⟨hclosed', served, hlength, ?_⟩
    let others := (pre ++ post).flatMap Thread.tickets
    have hbefore : (th.tickets ++ others).Perm ((pre ++ th :: post).flatMap Thread.tickets) := by
      simp only [others, List.flatMap_append, List.flatMap_cons]
      exact List.perm_append_comm_assoc ..
    have hafter : (th'.toList.flatMap Thread.tickets ++ others).Perm
        ((pre ++ th'.toList ++ post).flatMap Thread.tickets) := by
      simp only [others, List.flatMap_append, List.append_assoc]
      exact List.perm_append_comm_assoc ..
    have hmiddle : (served ++ (th'.toList.flatMap Thread.tickets ++ others)).Subperm
        (th.tickets ++ others) := by
      rw [← List.append_assoc]
      exact (hsub.append_right others).subperm
    exact ((hafter.append_left served).symm.subperm.trans hmiddle).trans hbefore.subperm
  | start c =>
    refine ⟨hclosed, [], rfl, ?_⟩
    have hbegins : (Thread.between (X := X) { program := c }).tickets = [] := rfl
    simp [tickets, hbegins, List.Subperm.refl]
  | @drop w pre post th runtime hs =>
    have hdropped : (th.drop w).store.closing = true := by
      cases th with
      | between t => exact (t.drop_closing w).trans hclosed
      | inside o log t next => exact (t.drop_closing w).trans hclosed
    refine ⟨hdropped, [], rfl, ?_⟩
    have hdeletions : (if runtime then (Task.forsaken w th.guards).map (Thread.deletion (X := X))
        else []).flatMap Thread.tickets = [] := by
      refine List.flatMap_eq_nil_iff.2 fun t hmem => ?_
      cases runtime with
      | true =>
        obtain ⟨d, -, rfl⟩ := List.mem_map.1 hmem
        rfl
      | false => cases hmem
    simp only [tickets, List.flatMap_append, hdeletions, List.append_nil, List.nil_append,
      List.flatMap_cons]
    exact ((List.sublist_append_right _ _).append_left _).subperm
  | purge => exact ⟨hclosed, [], rfl, List.Subperm.refl _⟩
  | elapse ms hs => exact ⟨hclosed, [], rfl, List.Subperm.refl _⟩
  | configure d hd => exact ⟨hd hclosed, [], rfl, List.Subperm.refl _⟩

theorem served_of_run (hclosed : s.world.store.closing = true) (h : Run (Step mode) s tr s') :
    s'.world.store.closing = true ∧ ∃ served : List Ticket,
      served.length = tr.countP Event.isLoan ∧ (served ++ s'.tickets).Subperm s.tickets := by
  induction h with
  | nil => exact ⟨hclosed, [], rfl, List.Subperm.refl _⟩
  | @snoc tr s₁ s₂ ev h hs ih =>
    obtain ⟨hclosed₁, served, hlength, hsub⟩ := ih
    obtain ⟨hclosed₂, served', hlength', hsub'⟩ := hs.served hclosed₁
    refine ⟨hclosed₂, served ++ served', ?_, ?_⟩
    · rw [List.length_append, hlength, hlength', List.countP_append, List.countP_singleton]
      cases ev.isLoan <;> rfl
    · rw [List.append_assoc]
      exact ((List.subperm_append_left served).2 hsub').trans hsub

/-- What a closed store still lends, in every run of any clients.

Those that get a connection and those that wait for one afterwards are among those that waited when
the store was closed, each of them counted once; so nothing is lent if nobody waited. Who asks
without having waited is told at once that the store is closed, and does not begin to wait. Who has
waited gets a connection if one is set aside, and else is told that the time is over: nobody is told
that the store is closed. -/
theorem closed_store_serves_queue (hclosed : s.world.store.closing = true)
    (h : Run (Step mode) s tr s₁) :
    (∃ served : List Ticket, served.length = tr.countP Event.isLoan ∧
      (served ++ s₁.tickets).Subperm s.tickets) ∧
    (s.tickets = [] → ∀ ev ∈ tr, ev.isLoan = false) ∧
    ∀ {ev : Event} {s₂ : Machine X} {node : NodeId} {r : Except StoreError Connection},
      Step mode s₁ ev s₂ → ev.Shows ⟨.call (.connect node), r⟩ → ∃ th ∈ s₁.threads,
        (th.tickets = [] ∧ r = .error .closed) ∨
        ∃ ticket ∈ s.tickets, th.tickets = [ticket] ∧
          r = if s₁.world.store.pool.isGranted ticket then .ok ⟨s₁.world.store.loans, node⟩
            else .error s₁.world.store.poolTimeout := by
  obtain ⟨hclosed₁, served, hlength, hsub⟩ := served_of_run hclosed h
  refine ⟨⟨served, hlength, hsub⟩, fun hnobody ev hmem => ?_, ?_⟩
  · rw [hnobody] at hsub
    obtain ⟨hserved, -⟩ := List.append_eq_nil_iff.1 (List.subperm_nil.1 hsub)
    rw [hserved] at hlength
    exact Bool.eq_false_iff.2 (List.countP_eq_zero.1 hlength.symm ev hmem)
  · intro ev s₂ node r hs hev
    cases hs with
    | @thread w w' pre post th th' ev hm hth =>
      obtain ⟨ticket?, htickets, hr⟩ := hth.answer_closed hclosed₁ hev
      have hmem : th ∈ pre ++ th :: post := List.mem_append_right _ List.mem_cons_self
      refine ⟨th, hmem, ?_⟩
      cases ticket? with
      | none => exact .inl ⟨htickets, hr⟩
      | some ticket =>
        have hwaits : ticket ∈ tickets ⟨w, pre ++ th :: post⟩ :=
          List.mem_flatMap.2 ⟨th, hmem, htickets ▸ List.mem_singleton_self ticket⟩
        exact .inr ⟨ticket, hsub.subset (List.mem_append_right _ hwaits), htickets, hr⟩
    | _ =>
      rcases hev with heq | ⟨o, heq⟩
      · cases heq
      · cases heq

/-- A client waits for the only connection while another one has it. Then the store is closed, the
connection comes back, and the client that waits gets it. -/
theorem closed_store_serves_last :
    ∃ (s s₁ : Machine Extension.none) (tr₀ tr : List Event),
      Run (Step .cooperative) ⟨.ofStore (Memory.standalone.withPool 1 300) 0, []⟩ tr₀ s ∧
      s.world.store.closing = true ∧ Run (Step .cooperative) s tr s₁ ∧
      (∃ ev ∈ tr, ev.isLoan = true) ∧ s₁.tickets = [] := by
  let borrow (use : Connection → Client .none Unit) : Client .none Unit :=
    .effect (.call (.connect "memory-0")) fun
      | .ok conn => use conn
      | .error _ => .done ()
  let user : Client .none Unit := borrow fun conn =>
    .effect (.sleep 10) fun _ => .effect (.release conn) fun _ => .done ()
  let closed : Disturbance := ⟨false, false, 0, false, true⟩
  let before : List (Move .none) :=
    [.start user, .go 0, .go 0, .start (borrow fun _ => .done ()), .go 1, .configure closed]
  let after : List (Move .none) := [.elapse 10, .go 0, .go 0, .go 0, .go 0]
  have hplay : ((play .cooperative ⟨.ofStore (Memory.standalone.withPool 1 300) 0, []⟩ before).any
      fun r => r.2.world.store.closing && r.2.tickets.length == 1 &&
        (r.2.play .cooperative after).any fun q => q.1.countP Event.isLoan == 1) = true := by
    decide +kernel
  obtain ⟨⟨tr₀, s⟩, hbefore, hs⟩ := (Option.any_eq_true _ _).1 hplay
  simp only [Bool.and_eq_true, beq_iff_eq] at hs
  obtain ⟨⟨hclosed, hone⟩, hafter⟩ := hs
  obtain ⟨⟨tr, s₁⟩, hafter, hloans⟩ := (Option.any_eq_true _ _).1 hafter
  have hloans : tr.countP Event.isLoan = 1 := by simpa using hloans
  have hrun := run_of_play hafter
  obtain ⟨⟨served, hlength, hsub⟩, -⟩ := closed_store_serves_queue hclosed hrun
  have hle := hsub.length_le
  rw [List.length_append, hlength, hloans, hone] at hle
  have hloan : 0 < tr.countP Event.isLoan := by omega
  exact ⟨s, s₁, tr₀, tr, run_of_play hbefore, hclosed, hrun, List.countP_pos_iff.1 hloan,
    List.length_eq_zero_iff.1 (by omega)⟩

end Machine

end Latchkey
