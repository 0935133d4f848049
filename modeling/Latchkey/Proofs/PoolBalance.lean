import Latchkey.Proofs.FreeLock
import Latchkey.Proofs.PoolAccounts
import Latchkey.Proofs.Threads

/-!
# The balance of a pool

A pool lends a fixed number of connections. Each of them is free, set aside for a thread that waits,
or borrowed by a thread; and whoever stands in the queue is a thread that waits. Every step of a
machine keeps this, also when a thread is dropped while it waits or has a connection.

The main statement is `connections_come_back`.
-/

namespace Latchkey

variable {X : Extension}

/-! ## Threads -/

namespace Thread

variable {w w' : World} {th : Thread X} {ev : Event} {th' : Option (Thread X)}

/-- The connections that a thread has borrowed. -/
def connections : Thread X → List Connection
  | .between t => t.connections
  | .inside _ _ t _ => t.connections

/-- The tickets that a thread waits with. -/
def tickets : Thread X → List Ticket
  | .between t => t.tickets
  | .inside _ _ t _ => t.tickets

/-- A thread outside of operations has borrowed nothing, and one in an operation what the exchanges
of the operation say. -/
def Tidy : Thread X → Prop
  | .between t => t.Fair none ∧ Client.Abstains t.program
  | .inside _ log t next => t.Fair (borrowed? log) ∧ ∀ a, Client.Abstains (next a)

/-- A thread is tidy after a step, and changes its own share of the pool only. -/
theorem Step.settles (h : th.Step w ev w' th') (ht : th.Tidy)
    (hafter : ∀ o log (t : Task X o.Answer) next, th = .inside o log t next →
      o.program.After log t.program) :
    (∀ t ∈ th', t.Tidy) ∧
      w.store.pool.Passes th.tickets th.connections.length w'.store.pool
        (th'.toList.flatMap tickets) (th'.toList.flatMap connections).length := by
  have hone : ∀ t : Thread X, (some t).toList.flatMap tickets = t.tickets ∧
      (some t).toList.flatMap connections = t.connections := fun t => by simp
  cases h with
  | @perform t t' w' x hs hx =>
    obtain ⟨hfair, habstains⟩ := ht
    obtain ⟨next, hp, -, -, ht'⟩ := Task.step_eq_moved hs hx
    rw [hp] at habstains
    obtain ⟨hfair', hpasses⟩ := hfair.moved hs hx fun hlends => absurd hlends habstains.1
    obtain ⟨e, r⟩ := x
    rw [Borrowing.next_of_not_lends habstains.1] at hfair'
    refine ⟨?_, ?_⟩
    · rintro _ ⟨⟩
      refine ⟨hfair', ?_⟩
      rw [ht']
      exact habstains.2 r
    · rw [(hone _).1, (hone _).2]
      exact hpasses
  | @rest t t' w' hs =>
    obtain ⟨hfair, habstains⟩ := ht
    obtain ⟨hfair', hp, hpasses⟩ := hfair.waits hs
    refine ⟨?_, ?_⟩
    · rintro _ ⟨⟩
      exact ⟨hfair', hp ▸ habstains⟩
    · rw [(hone _).1, (hone _).2]
      exact hpasses
  | @hear t op next hs r =>
    obtain ⟨hfair, habstains⟩ := ht
    obtain ⟨k, hp, rfl⟩ := Task.step_eq_asks hs
    have hnil : t.tickets = [] := hfair.tickets_eq_nil fun node next hconnect => by
      cases hp.symm.trans hconnect
    rw [hp] at habstains
    refine ⟨?_, ?_⟩
    · rintro _ ⟨⟩
      refine ⟨⟨hfair.connections, fun hsome => ?_⟩, habstains r⟩
      obtain ⟨node, next, hconnect⟩ := hfair.queued hsome
      cases hp.symm.trans hconnect
    · rw [(hone _).1, (hone _).2]
      exact Pool.Passes.refl _ _ _
  | @finish t hs =>
    obtain ⟨hfair, -⟩ := ht
    have hp := Task.step_eq_finished hs
    have hnil : t.tickets = [] := hfair.tickets_eq_nil fun node next hconnect => by
      cases hp.symm.trans hconnect
    refine ⟨(fun _ hmem => nomatch hmem), ?_⟩
    show w.store.pool.Passes t.tickets t.connections.length w.store.pool [] 0
    rw [hnil, hfair.connections]
    exact Pool.Passes.refl _ _ _
  | @call t o next hs ho =>
    obtain ⟨hfair, habstains⟩ := ht
    obtain ⟨k, hp, rfl⟩ := Task.step_eq_asks hs
    have hnil : t.tickets = [] := hfair.tickets_eq_nil fun node next hconnect => by
      cases hp.symm.trans hconnect
    rw [hp] at habstains
    refine ⟨?_, ?_⟩
    · rintro _ ⟨⟩
      exact ⟨⟨hfair.connections, fun hsome => nomatch hsome⟩, habstains⟩
    · rw [(hone _).1, (hone _).2]
      show w.store.pool.Passes t.tickets t.connections.length w.store.pool [] t.connections.length
      rw [hnil]
      exact Pool.Passes.refl _ _ _
  | @work o log t t' next w' x hs hx =>
    obtain ⟨hfair, habstains⟩ := ht
    have hafter := hafter o log t next rfl
    obtain ⟨k, hp, -⟩ := Task.step_eq_moved hs hx
    rw [hp] at hafter
    obtain ⟨hfair', hpasses⟩ := hfair.moved hs hx fun _ => o.borrows.permits hafter
    rw [← borrowed?_concat] at hfair'
    refine ⟨?_, ?_⟩
    · rintro _ ⟨⟩
      exact ⟨hfair', habstains⟩
    · rw [(hone _).1, (hone _).2]
      exact hpasses
  | @await o log t t' next w' hs =>
    obtain ⟨hfair, habstains⟩ := ht
    obtain ⟨hfair', -, hpasses⟩ := hfair.waits hs
    refine ⟨?_, ?_⟩
    · rintro _ ⟨⟩
      exact ⟨hfair', habstains⟩
    · rw [(hone _).1, (hone _).2]
      exact hpasses
  | @«return» o log t next a hs =>
    obtain ⟨hfair, habstains⟩ := ht
    have hafter := hafter o log t next rfl
    have hp := Task.step_eq_finished hs
    rw [hp] at hafter
    have hended : borrowed? log = none := o.borrows.final hafter
    have hnil : t.tickets = [] := hfair.tickets_eq_nil fun node next hconnect => by
      cases hp.symm.trans hconnect
    have hconnections := hfair.connections
    rw [hended] at hconnections
    refine ⟨?_, ?_⟩
    · rintro _ ⟨⟩
      exact ⟨⟨hconnections, fun hsome => nomatch hsome⟩, habstains a⟩
    · rw [(hone _).1, (hone _).2]
      show w.store.pool.Passes t.tickets t.connections.length w.store.pool [] t.connections.length
      rw [hnil]
      exact Pool.Passes.refl _ _ _

/-- A thread outside of operations does not wait in the queue. -/
theorem Tidy.tickets_eq_nil {t : Task (client X) Unit} (h : (between t).Tidy) :
    (between t).tickets = [] := by
  obtain ⟨hfair, habstains⟩ := h
  refine hfair.tickets_eq_nil fun node next hconnect => ?_
  rw [hconnect] at habstains
  exact habstains.1 trivial

/-- A thread that is about to sleep has borrowed nothing. -/
theorem Tidy.connections_of_sleep (h : th.Tidy)
    (hafter : ∀ o log (t : Task X o.Answer) next, th = .inside o log t next →
      o.program.After log t.program) {ms : Nat} {next : Unit → Program X Unit}
    (hp : th.task.program = .effect (.sleep ms) next) : th.connections = [] := by
  cases th with
  | between t => exact h.1.connections
  | inside o log t rest =>
    have hafter := hafter o log t rest rfl
    have hnone : borrowed? log = none := by
      have hp : (t.program >>= fun a => Client.expand (rest a)) = .effect (.sleep ms) next := hp
      cases hprogram : t.program with
      | done a =>
        rw [hprogram] at hafter
        exact o.borrows.final hafter
      | effect e k =>
        rw [hprogram] at hp hafter
        cases hp
        exact o.borrows.permits hafter
      | extended op k =>
        rw [hprogram] at hp
        cases hp
    have hconnections := h.1.connections
    rw [hnone] at hconnections
    exact hconnections

/-- A thread that waits in the queue has borrowed nothing. -/
theorem Tidy.connections_of_queued (h : th.Tidy)
    (hafter : ∀ o log (t : Task X o.Answer) next, th = .inside o log t next →
      o.program.After log t.program) (hqueued : th.tickets ≠ []) : th.connections = [] := by
  cases th with
  | between t => exact h.1.connections
  | inside o log t rest =>
    have hafter := hafter o log t rest rfl
    have hsome : (t.wait.bind Wait.ticket?).isSome := by
      cases hwait : t.wait.bind Wait.ticket? with
      | some ticket => rfl
      | none =>
        have hnil : t.tickets = [] := by
          rw [Task.tickets, hwait]
          rfl
        exact absurd hnil hqueued
    obtain ⟨node, k, hp⟩ := h.1.queued hsome
    rw [hp] at hafter
    have hnone : borrowed? log = none := o.borrows.permits hafter
    have hconnections := h.1.connections
    rw [hnone] at hconnections
    exact hconnections

theorem drop_passes (w : World) (th : Thread X) :
    w.store.pool.Passes th.tickets th.connections.length (th.drop w).store.pool [] 0 := by
  cases th with
  | between t => exact Task.drop_passes w t
  | inside o log t next => exact Task.drop_passes w t

/-- The deletion that a dropped section leaves behind begins without a connection. -/
theorem tidy_deletion (d : Guard × Token) : (deletion (X := X) d).Tidy :=
  ⟨⟨rfl, fun hsome => nomatch hsome⟩, fun _ => trivial⟩

end Thread

/-! ## Machines -/

/-- The account of a pool that some threads use. -/
def Pool.AccountOf (p : Pool) (n : Nat) (threads : List (Thread X)) : Prop :=
  p.Account n (threads.flatMap Thread.tickets) (threads.flatMap Thread.connections).length

/-- The shares of a few threads and those of the others. -/
theorem Pool.accountOf_middle {p : Pool} {n : Nat} {pre threads post : List (Thread X)} :
    p.AccountOf n (pre ++ threads ++ post) ↔
      p.Account n (threads.flatMap Thread.tickets ++ (pre ++ post).flatMap Thread.tickets)
        ((threads.flatMap Thread.connections).length +
          ((pre ++ post).flatMap Thread.connections).length) := by
  have hmiddle : ∀ {β : Type} (f : Thread X → List β), ((pre ++ threads ++ post).flatMap f).Perm
      (threads.flatMap f ++ (pre ++ post).flatMap f) := by
    intro β f
    simp only [List.flatMap_append, List.append_assoc]
    exact List.perm_append_comm_assoc _ _ _
  have hlength : ((pre ++ threads ++ post).flatMap Thread.connections).length =
      (threads.flatMap Thread.connections).length +
        ((pre ++ post).flatMap Thread.connections).length := by
    rw [(hmiddle Thread.connections).length_eq, List.length_append]
  constructor
  · exact fun h => h.congr (hmiddle _) hlength
  · exact fun h => h.congr (hmiddle _).symm hlength.symm

namespace Machine

variable {mode : Scheduling} {tr : List Event} {s s' s₀ : Machine X} {ev : Event} {n : Nat}

/-- A step of a machine whose clients leave connections to operations. -/
structure PoolStep (mode : Scheduling) (s : Machine X) (ev : Event) (s' : Machine X) : Prop where
  step : Step mode s ev s'
  clients : ∀ c, s'.threads = s.threads ++ [.between { program := c }] → Client.Abstains c

/-- Every connection is accounted for, and every thread is tidy. -/
structure Balanced (n : Nat) (s : Machine X) : Prop where
  threads : ∀ th ∈ s.threads, th.Tidy
  account : s.world.store.pool.AccountOf n s.threads

theorem Balanced.step (h : s.Balanced n) (hlog : s.Logged tr) (hs : s.PoolStep mode ev s') :
    s'.Balanced n := by
  obtain ⟨hstep, hclients⟩ := hs
  cases hstep with
  | @thread w w' pre post th th' ev hm hth =>
    have hmem : th ∈ pre ++ th :: post := List.mem_append_right _ List.mem_cons_self
    obtain ⟨htidy, hpasses⟩ := hth.settles (h.threads th hmem) fun o log t next heq =>
      (hlog o log t next (heq ▸ hmem)).1
    have haccount : w.store.pool.AccountOf n (pre ++ [th] ++ post) := by
      simpa using h.account
    refine ⟨?_, Pool.accountOf_middle.2 (hpasses _ _ _ ?_)⟩
    · intro t ht
      simp only [List.mem_append, Option.mem_toList] at ht
      rcases ht with (ht | ht) | ht
      · exact h.threads t (List.mem_append_left _ ht)
      · exact htidy t ht
      · exact h.threads t (List.mem_append_right _ (.tail _ ht))
    · simpa using Pool.accountOf_middle.1 haccount
  | @start w threads c =>
    have habstains : Client.Abstains c := hclients c rfl
    refine ⟨?_, ?_⟩
    · intro t ht
      rcases List.mem_append.1 ht with ht | ht
      · exact h.threads t ht
      · cases List.mem_singleton.1 ht
        exact ⟨⟨rfl, fun hsome => nomatch hsome⟩, habstains⟩
    · have haccount := h.account
      unfold Pool.AccountOf at haccount ⊢
      simpa [Thread.tickets, Task.tickets, Thread.connections] using haccount
  | @drop w pre post th runtime hs =>
    have hpasses := th.drop_passes w
    have haccount : w.store.pool.AccountOf n (pre ++ [th] ++ post) := by
      simpa using h.account
    -- the deletions that the thread leaves behind have borrowed nothing yet
    let left : List (Thread X) :=
      if runtime then (Task.forsaken w th.guards).map Thread.deletion else []
    have hleft : ∀ t ∈ left, ∃ d, t = Thread.deletion d := by
      intro t ht
      by_cases hruntime : runtime = true
      · have ht : t ∈ (Task.forsaken w th.guards).map Thread.deletion := by
          simpa [left, hruntime] using ht
        obtain ⟨d, -, rfl⟩ := List.mem_map.1 ht
        exact ⟨d, rfl⟩
      · simp [left, hruntime] at ht
    have hnone : left.flatMap Thread.tickets = [] ∧ left.flatMap Thread.connections = [] := by
      constructor
      · refine List.flatMap_eq_nil_iff.2 fun t ht => ?_
        obtain ⟨d, rfl⟩ := hleft t ht
        rfl
      · refine List.flatMap_eq_nil_iff.2 fun t ht => ?_
        obtain ⟨d, rfl⟩ := hleft t ht
        rfl
    refine ⟨?_, ?_⟩
    · intro t ht
      rcases List.mem_append.1 ht with ht | ht
      · exact h.threads t (by simpa using (List.mem_append.1 ht).imp_right .inr)
      · obtain ⟨d, rfl⟩ := hleft t ht
        exact Thread.tidy_deletion d
    · have hrest := hpasses n _ _ (by simpa using Pool.accountOf_middle.1 haccount)
      show (th.drop w).store.pool.Account n ((pre ++ post ++ left).flatMap Thread.tickets)
        ((pre ++ post ++ left).flatMap Thread.connections).length
      have hsplit : ∀ {β : Type} (f : Thread X → List β), left.flatMap f = [] →
          (pre ++ post ++ left).flatMap f = (pre ++ post).flatMap f := by
        intro β f hnil
        rw [List.flatMap_append, hnil, List.append_nil]
      rw [hsplit _ hnone.1, hsplit _ hnone.2]
      simpa using hrest
  | purge => exact ⟨h.threads, h.account⟩
  | elapse ms hs => exact ⟨h.threads, h.account⟩
  | configure d hd => exact ⟨h.threads, h.account⟩

theorem balanced_of_run (hthreads : s₀.threads = []) (hpool : s₀.world.store.pool = .ofLimit n)
    (h : Run (PoolStep mode) s₀ tr s) : s.Balanced n := by
  induction h with
  | nil =>
    refine ⟨?_, ?_⟩
    · rw [hthreads]
      exact List.forall_mem_nil _
    · rw [hpool, hthreads]
      exact Pool.account_ofLimit n
  | snoc h hs ih => exact ih.step (logged_of_run hthreads (h.mono PoolStep.step)) hs

/-- The connections that threads have borrowed. -/
def borrowed (s : Machine X) : List Connection := s.threads.flatMap Thread.connections

/-- Connections come back, in every run of any clients that leave them to lock and filter
operations, on a store with a pool of some size. Guarded sections and acquisitions with retries are
such clients, by `Client.abstains_runGuarded` and `Client.abstains_acquireWithRetry`.

Each connection is free, set aside for a thread that waits, or borrowed, so no more than there are
get borrowed. A thread outside of operations has borrowed nothing, be it in the body of a guarded
section; a thread in an operation has borrowed at most one connection, in this call of the
operation. A thread that is about to sleep, or that waits for a connection, has borrowed nothing.
Once no operation is on its way any more, all connections are free. -/
theorem connections_come_back (hthreads : s₀.threads = [])
    (hpool : s₀.world.store.pool = .ofLimit n) (h : Run (PoolStep mode) s₀ tr s) :
    s.world.store.pool.free + s.world.store.pool.granted.length + s.borrowed.length = n ∧
    s.borrowed.length ≤ n ∧
    (∀ t, .between t ∈ s.threads → t.connections = []) ∧
    (∀ o log t next, .inside o log t next ∈ s.threads → t.connections.length ≤ 1 ∧
      ∀ conn ∈ t.connections, ∃ node,
        (⟨.call (.connect node), .ok conn⟩ : Exchange) ∈ log) ∧
    (∀ th ∈ s.threads, ∀ ms next, th.task.program = .effect (.sleep ms) next →
      th.connections = []) ∧
    (∀ th ∈ s.threads, th.tickets ≠ [] → th.connections = []) ∧
    ((∀ th ∈ s.threads, ∃ t, th = .between t) →
      s.world.store.pool.free = n ∧ s.world.store.pool.waiting = [] ∧
        s.world.store.pool.granted = []) := by
  have hb : s.Balanced n := balanced_of_run hthreads hpool h
  have hlog : s.Logged tr := logged_of_run hthreads (h.mono PoolStep.step)
  have htotal : _ + _ + s.borrowed.length = n := hb.account.total
  have hafter : ∀ th ∈ s.threads, ∀ o log (t : Task X o.Answer) next, th = .inside o log t next →
      o.program.After log t.program := by
    rintro th hmem o log t next rfl
    exact (hlog o log t next hmem).1
  have hbetween : ∀ t, .between t ∈ s.threads → t.connections = [] := fun t hmem =>
    (hb.threads _ hmem).1.connections
  refine ⟨htotal, by omega, hbetween, ?_, ?_, ?_, ?_⟩
  · intro o log t next hmem
    have hconnections := (hb.threads _ hmem).1.connections
    cases hborrowed : borrowed? log with
    | none =>
      rw [hborrowed] at hconnections
      rw [hconnections]
      exact ⟨Nat.zero_le _, fun _ hconn => nomatch hconn⟩
    | some conn =>
      rw [hborrowed] at hconnections
      rw [hconnections]
      refine ⟨Nat.le_refl _, ?_⟩
      intro conn' hconn
      rw [List.mem_singleton.1 hconn]
      exact (Borrowing.mem_of_run hborrowed).resolve_left nofun
  · intro th hmem ms next hp
    exact (hb.threads th hmem).connections_of_sleep (hafter th hmem) hp
  · intro th hmem hqueued
    exact (hb.threads th hmem).connections_of_queued (hafter th hmem) hqueued
  · intro hidle
    have hnone : s.borrowed = [] := by
      refine List.flatMap_eq_nil_iff.2 fun th hmem => ?_
      obtain ⟨t, rfl⟩ := hidle th hmem
      exact hbetween t hmem
    have hunqueued : s.threads.flatMap Thread.tickets = [] := by
      refine List.flatMap_eq_nil_iff.2 fun th hmem => ?_
      obtain ⟨t, rfl⟩ := hidle th hmem
      exact (hb.threads _ hmem).tickets_eq_nil
    have hqueue := hb.account.queue
    rw [hunqueued] at hqueue
    obtain ⟨hwaiting, hgranted⟩ := List.append_eq_nil_iff.1 hqueue.eq_nil
    rw [hgranted, hnone] at htotal
    exact ⟨htotal, hwaiting, hgranted⟩

/-- A step that is seen, and that drops nothing, begins no client. -/
theorem Step.poolStep {s' : Machine X} {ev : Event} (h : Step mode s ev s') (hev : ev ≠ .silent)
    (hdrop : ∀ given, ev ≠ .dropped given) : PoolStep mode s ev s' := by
  have hlength : s'.threads.length ≤ s.threads.length := by
    cases h with
    | @thread w w' pre post th th' ev hm hth => cases th' <;> simp
    | start c => exact absurd rfl hev
    | drop runtime hs => exact absurd rfl (hdrop _)
    | _ => exact Nat.le_refl _
  refine ⟨h, fun c hthreads => ?_⟩
  rw [hthreads, List.length_append, List.length_singleton] at hlength
  omega

/-- A client acquires a lock over the only connection of a store. Afterwards the lock is held, and
the connection is free. -/
theorem sole_connection_comes_back :
    ∃ (s₀ s : Machine Extension.none) (tr : List Event) (log : List Exchange),
      s₀.threads = [] ∧ s₀.world.store.pool = .ofLimit 1 ∧ Run (PoolStep .cooperative) s₀ tr s ∧
      .returned (.acquire {} "a" "L" 20 0) log (.ok true) ∈ tr ∧ s.threads = [] ∧
      s.world.store.pool.free = 1 ∧ s.world.store.pool.granted = [] := by
  let w : World := .ofStore (Memory.standalone.withPool 1 300) 0
  have hready : w.Ready := ⟨rfl, rfl, rfl, rfl, rfl, by decide⟩
  have hgone : w.store.keyspace.live? w.now (lockKey "L") = none := rfl
  let c : Client .none Unit := Client.invoke (.acquire {} "a" "L" 20 0) >>= fun _ => .done ()
  obtain ⟨w', a, conns, guards, ⟨rfl, -⟩, hcalled, hreturned⟩ :=
    @run_operation .none .cooperative (.acquire {} "a" "L" 20 0) trivial w _
      (Manager.acquire_ensures hready {} "a" 0 (by decide) hgone) (fun _ => .done ()) [] []
  have hstart : PoolStep .cooperative (⟨w, []⟩ : Machine .none) .silent
      ⟨w, [.between { program := c }]⟩ := by
    refine ⟨.start c, fun c' heq => ?_⟩
    cases heq
    exact fun _ => trivial
  have hcalled : Run (PoolStep .cooperative) _ _ _ := hcalled.imp fun {s ev s'} hmem hs => by
    refine hs.poolStep ?_ ?_
    · rintro rfl
      simp at hmem
    · rintro given rfl
      simp at hmem
  have htrue : (w.heldBy ⟨0, "a"⟩ "L").isNone = true := rfl
  have hreturned := hreturned.poolStep nofun nofun
  rw [htrue] at hreturned
  have hfinish : PoolStep .cooperative
      (⟨w', [.between ⟨.done (), none, conns, guards⟩]⟩ : Machine .none) .silent ⟨w', []⟩ :=
    ⟨(step_finish w' conns guards).step, fun c heq => nomatch heq⟩
  have hrun := (((Run.single hstart).append hcalled).snoc hreturned).snoc hfinish
  obtain ⟨-, -, -, -, -, -, hfree⟩ := connections_come_back (n := 1) rfl rfl hrun
  obtain ⟨hfree, -, hgranted⟩ := hfree fun th hmem => nomatch hmem
  exact ⟨_, _, _, _, rfl, rfl, hrun,
    List.mem_append_left _ (List.mem_append_right _ (List.mem_singleton.2 rfl)), rfl, hfree,
    hgranted⟩

end Machine

end Latchkey
