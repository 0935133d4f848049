import Latchkey.Proofs.Borrowing
import Latchkey.Proofs.Machine

/-!
# Accounts of pools

Each connection of a pool is free, set aside for a borrower that waits, or lent, and the tickets in
the queue are those of the borrowers that wait. A task has a share of this, the tickets that it
waits with and the connections that it has borrowed, and changes nothing but its own share.

The main statements are `Task.Fair.moved`, `Task.Fair.waits` and `Task.drop_passes`.
-/

namespace Latchkey

variable {X : Extension} {α : Type}

/-! ## Pools -/

namespace Pool

variable {p p' p'' : Pool} {n lent lent' lent'' : Nat} {t : Ticket}
  {tickets tickets' tickets'' others : List Ticket}

/-- The connections of a pool are free, set aside or lent, and the tickets in use are those of the
borrowers that wait. -/
structure Account (p : Pool) (n : Nat) (tickets : List Ticket) (lent : Nat) : Prop where
  total : p.free + p.granted.length + lent = n
  queue : (p.waiting ++ p.granted).Perm tickets
  drawn : ∀ t ∈ tickets, t < p.nextTicket
  distinct : tickets.Nodup

theorem account_ofLimit (n : Nat) : (ofLimit n).Account n [] 0 where
  total := rfl
  queue := .nil
  drawn := fun _ ht => nomatch ht
  distinct := List.nodup_nil

namespace Account

theorem congr (h : p.Account n tickets lent) (hperm : tickets.Perm tickets')
    (hlent : lent = lent') : p.Account n tickets' lent' where
  total := hlent ▸ h.total
  queue := h.queue.trans hperm
  drawn := fun t ht => h.drawn t (hperm.mem_iff.2 ht)
  distinct := hperm.nodup_iff.1 h.distinct

theorem take (h : p.Account n tickets lent) (hp : p.take? = some p') :
    p'.Account n tickets (lent + 1) := by
  unfold take? at hp
  split at hp
  · cases hp
  · next k hfree =>
    cases hp
    have htotal := h.total
    refine { h with total := ?_ }
    show k + p.granted.length + (lent + 1) = n
    omega

theorem enqueue (h : p.Account n tickets lent) :
    p.enqueue.1.Account n (p.nextTicket :: tickets) lent where
  total := h.total
  queue := by
    show (p.waiting ++ [p.nextTicket] ++ p.granted).Perm (p.nextTicket :: tickets)
    rw [List.append_assoc]
    exact List.perm_middle.trans (h.queue.cons _)
  drawn := by
    intro t ht
    rcases List.mem_cons.1 ht with rfl | ht
    · exact Nat.lt_succ_self _
    · exact Nat.lt_succ_of_lt (h.drawn t ht)
  distinct := by
    refine List.nodup_cons.2 ⟨?_, h.distinct⟩
    intro hmem
    exact Nat.lt_irrefl _ (h.drawn _ hmem)

/-- A connection that comes back is free, or set aside for the borrower that has waited longest. -/
theorem putBack (h : p.Account n tickets (lent + 1)) : p.putBack.Account n tickets lent := by
  have htotal := h.total
  have hqueue := h.queue
  unfold Pool.putBack
  split
  · next t rest hwaiting =>
    rw [hwaiting] at hqueue
    refine { h with total := ?_, queue := ?_ }
    · simp only [List.length_append, List.length_singleton]
      omega
    · rw [← List.append_assoc]
      exact (List.perm_append_singleton t (rest ++ p.granted)).trans hqueue
  · refine { h with total := ?_ }
    show p.free + 1 + p.granted.length + lent = n
    omega

theorem claim (h : p.Account n (t :: others) lent) (hgranted : p.isGranted t = true) :
    (p.claim t).Account n others (lent + 1) := by
  have hmem : t ∈ p.granted := by simpa [isGranted] using hgranted
  have hnodup : (p.waiting ++ p.granted).Nodup := h.queue.nodup_iff.2 h.distinct
  have hnot : t ∉ p.waiting := fun hw => (List.nodup_append.1 hnodup).2.2 t hw t hmem rfl
  have hqueue := h.queue.erase t
  rw [List.erase_append_right _ hnot, List.erase_cons_head] at hqueue
  have hlength := List.length_erase_of_mem hmem
  have hpos := List.length_pos_of_mem hmem
  have htotal := h.total
  refine ⟨?_, hqueue, fun t' ht' => h.drawn t' (.tail _ ht'), (List.nodup_cons.1 h.distinct).2⟩
  show p.free + (p.granted.erase t).length + (lent + 1) = n
  omega

/-- A borrower that gives up passes on what is set aside for it. -/
theorem withdraw (h : p.Account n (t :: others) lent) : (p.withdraw t).Account n others lent := by
  unfold Pool.withdraw
  by_cases hgranted : p.isGranted t = true
  · rw [if_pos hgranted]
    exact (h.claim hgranted).putBack
  · rw [if_neg hgranted]
    have hnot : t ∉ p.granted := by simpa [isGranted] using hgranted
    have hwaits : t ∈ p.waiting := by
      have hmem : t ∈ p.waiting ++ p.granted := h.queue.mem_iff.2 List.mem_cons_self
      exact (List.mem_append.1 hmem).resolve_right hnot
    have hqueue := h.queue.erase t
    rw [List.erase_append_left _ hwaits, List.erase_cons_head] at hqueue
    exact ⟨h.total, hqueue, fun t' ht' => h.drawn t' (.tail _ ht'),
      (List.nodup_cons.1 h.distinct).2⟩

end Account

/-- One borrower changes its share of a pool, whatever the shares of the others are. -/
def Passes (p : Pool) (tickets : List Ticket) (lent : Nat) (p' : Pool) (tickets' : List Ticket)
    (lent' : Nat) : Prop :=
  ∀ n others rest, p.Account n (tickets ++ others) (lent + rest) →
    p'.Account n (tickets' ++ others) (lent' + rest)

theorem Passes.refl (p : Pool) (tickets : List Ticket) (lent : Nat) :
    p.Passes tickets lent p tickets lent :=
  fun _ _ _ h => h

theorem Passes.trans (h : p.Passes tickets lent p' tickets' lent')
    (h' : p'.Passes tickets' lent' p'' tickets'' lent'') :
    p.Passes tickets lent p'' tickets'' lent'' :=
  fun n others rest ha => h' n others rest (h n others rest ha)

theorem passes_take (hp : p.take? = some p') : p.Passes [] 0 p' [] 1 := by
  intro n others rest h
  exact (h.take hp).congr (.refl _) (by omega)

theorem passes_enqueue (p : Pool) : p.Passes [] lent p.enqueue.1 [p.nextTicket] lent :=
  fun _ _ _ h => h.enqueue

theorem passes_claim (hgranted : p.isGranted t = true) : p.Passes [t] 0 (p.claim t) [] 1 := by
  intro n others rest h
  exact (h.claim hgranted).congr (.refl _) (by omega)

theorem passes_withdraw (p : Pool) (t : Ticket) (lent : Nat) :
    p.Passes [t] lent (p.withdraw t) [] lent :=
  fun _ _ _ h => h.withdraw

theorem passes_putBack (p : Pool) (lent : Nat) :
    p.Passes [] (lent + 1) p.putBack [] lent := by
  intro n others rest h
  exact (h.congr (.refl _) (by omega) : p.Account n others (lent + rest + 1)).putBack

end Pool

/-! ## Answers -/

/-- The ticket of a borrower that waits. -/
def Wait.ticket? : Wait → Option Ticket
  | .timer _ => none
  | .permit ticket _ => some ticket

namespace World

variable {w w' : World} {e : Effect} {waited : Option Wait}

/-- Only connecting and giving back change the pool. -/
theorem answer_pool (w : World) (waited : Option Wait) (he : ¬ e.Lends) :
    (w.answer waited e).1.store.pool = w.store.pool := by
  cases e with
  | call c =>
    cases c with
    | connect node => exact absurd trivial he
    | command conn cmd =>
      cases cmd with
      | awaitReplicas count timeout =>
        show (w.command conn waited _).1.store.pool = _
        unfold command
        split
        · rfl
        · split
          · rfl
          · split <;> rfl
      | _ => rfl
    | _ => rfl
  | release conn => exact absurd trivial he
  | _ => rfl

/-- A borrower gets a connection, or it gives up; either way it waits no more. -/
theorem connect_passes (w : World) (node : NodeId) (waited : Option Wait) :
    w.store.pool.Passes (waited.bind Wait.ticket?).toList 0 (w.connect node waited).1.store.pool []
      (Task.connectionsAfter [] (.call (.connect node)) (w.connect node waited).2).length := by
  have hfirst : w.store.pool.Passes [] 0 (w.connect node none).1.store.pool []
      (Task.connectionsAfter [] (.call (.connect node)) (w.connect node none).2).length := by
    cases hrefusal : w.store.refusal? node with
    | some e =>
      have heq : w.connect node none = (w, .error e) := by simp only [connect, hrefusal]
      rw [heq]
      exact Pool.Passes.refl _ _ _
    | none =>
      cases htake : w.store.pool.take? with
      | none =>
        have heq : w.connect node none = (w, .error w.store.poolTimeout) := by
          simp only [connect, hrefusal, htake]
        rw [heq]
        exact Pool.Passes.refl _ _ _
      | some pool =>
        have heq : w.connect node none = ((w.lend pool node).1, .ok (w.lend pool node).2) := by
          simp only [connect, hrefusal, htake]
        rw [heq]
        exact Pool.passes_take htake
  cases waited with
  | none => exact hfirst
  | some wait =>
    cases wait with
    | timer wake => exact hfirst
    | permit ticket deadline =>
      by_cases hgranted : w.store.pool.isGranted ticket
      · have heq : w.connect node (some (.permit ticket deadline)) =
            ((w.lend (w.store.pool.claim ticket) node).1,
              .ok (w.lend (w.store.pool.claim ticket) node).2) := if_pos hgranted
        rw [heq]
        exact Pool.passes_claim hgranted
      · have heq : w.connect node (some (.permit ticket deadline)) =
            ({ w with store := { w.store with pool := w.store.pool.withdraw ticket } },
              .error w.store.poolTimeout) := if_neg hgranted
        rw [heq]
        exact Pool.passes_withdraw _ _ _

/-- A borrower that begins to wait draws a ticket; whatever else waits draws none. -/
theorem wait?_passes {wait : Wait} (h : w.wait? e = some (w', wait)) (lent : Nat) :
    w.store.pool.Passes [] lent w'.store.pool wait.ticket?.toList lent ∧
      (wait.ticket?.isSome → ∃ node, e = .call (.connect node)) := by
  cases e with
  | sleep ms =>
    simp only [wait?] at h
    split at h <;> cases h
    exact ⟨Pool.Passes.refl _ _ _, fun hsome => nomatch hsome⟩
  | call c =>
    cases c with
    | connect node =>
      simp only [wait?] at h
      split at h <;> cases h
      exact ⟨Pool.passes_enqueue _, fun _ => ⟨node, rfl⟩⟩
    | command conn cmd =>
      obtain ⟨wait', hwait, heq⟩ := Option.map_eq_some_iff.1 h
      cases heq
      have htimer : ∃ wake, wait = .timer wake := by
        unfold commandWait? at hwait
        split at hwait
        · split at hwait <;> cases hwait
          exact ⟨_, rfl⟩
        · split at hwait
          · split at hwait <;> cases hwait
            exact ⟨_, rfl⟩
          · cases hwait
      obtain ⟨wake, rfl⟩ := htimer
      exact ⟨Pool.Passes.refl _ _ _, fun hsome => nomatch hsome⟩
    | _ => cases h
  | _ => cases h

end World

/-! ## Tasks -/

namespace Task

variable {w w' : World} {t t' : Task X α} {held : Option Connection}

theorem connectionsAfter_of_not_lends {e : Effect} (he : ¬ e.Lends) (held : List Connection)
    (r : e.Reply) :
    connectionsAfter held e r = held := by
  cases e with
  | call c =>
    cases c with
    | connect node => exact absurd trivial he
    | _ => rfl
  | release conn => exact absurd trivial he
  | _ => rfl

/-- The tickets that a task has drawn and still waits with. -/
def tickets (t : Task X α) : List Ticket := (t.wait.bind Wait.ticket?).toList

/-- The task has borrowed what it is known to have, and waits in the queue only to connect. -/
structure Fair (t : Task X α) (held : Option Connection) : Prop where
  connections : t.connections = held.toList
  queued : (t.wait.bind Wait.ticket?).isSome →
    ∃ node next, t.program = .effect (.call (.connect node)) next

theorem Fair.tickets_eq_nil (h : t.Fair held)
    (hp : ∀ node next, t.program ≠ .effect (.call (.connect node)) next) : t.tickets = [] := by
  have hnone : t.wait.bind Wait.ticket? = none := by
    rw [← Option.not_isSome_iff_eq_none]
    intro hsome
    obtain ⟨node, next, hconnect⟩ := h.queued hsome
    exact hp node next hconnect
  rw [tickets, hnone]
  rfl

/-- A task gives back what it has borrowed, and borrows when it has nothing. -/
theorem Fair.moved {x : Exchange} (h : t.Fair held) (hs : t.step w = .moved w' t')
    (hx : t.exchange? w = some x) (hmay : x.effect.Lends → Borrowing.permits held x.effect) :
    t'.Fair (Borrowing.next held x) ∧
      w.store.pool.Passes t.tickets t.connections.length w'.store.pool t'.tickets
        t'.connections.length := by
  obtain ⟨next, hp, -, hanswer, rfl⟩ := step_eq_moved hs hx
  obtain ⟨e, r⟩ := x
  have hw : w' = (w.answer t.wait e).1 := congrArg Prod.fst hanswer
  have hr : r = (w.answer t.wait e).2 := congrArg Prod.snd hanswer
  have hconnections := h.connections
  -- the wait is over, so all there is to see is the connections
  have hfair : ∀ {held' : Option Connection}, connectionsAfter t.connections e r = held'.toList →
      (t.afterReply e next r).Fair held' := fun heq => ⟨heq, fun hsome => nomatch hsome⟩
  have hidle : (∀ node, e ≠ .call (.connect node)) → t.tickets = [] := by
    intro hne
    refine h.tickets_eq_nil fun node next' hconnect => ?_
    cases hp.symm.trans hconnect
    exact hne node rfl
  by_cases hlends : e.Lends
  · have hmay := hmay hlends
    cases e with
    | call c =>
      cases c with
      | connect node =>
        obtain rfl : held = none := hmay
        have hempty : t.connections = [] := hconnections
        have hpasses := w.connect_passes node t.wait
        have hr : r = (w.connect node t.wait).2 := hr
        rw [hempty] at hfair ⊢
        refine ⟨hfair ?_, ?_⟩
        · cases r <;> rfl
        · show w.store.pool.Passes t.tickets 0 w'.store.pool []
            (connectionsAfter t.connections (.call (.connect node)) r).length
          rw [hempty, hw, hr]
          exact hpasses
      | _ => exact hlends.elim
    | release conn =>
      obtain rfl : held = some conn := hmay
      have hone : t.connections = [conn] := hconnections
      have hnone : t.connections.erase conn = [] := by simp [hone]
      refine ⟨hfair hnone, ?_⟩
      show w.store.pool.Passes t.tickets t.connections.length w'.store.pool []
        (t.connections.erase conn).length
      have hnil : t.tickets = [] := hidle fun node heq => nomatch heq
      rw [hnil, hnone, hone, hw]
      exact Pool.passes_putBack w.store.pool 0
    | _ => exact hlends.elim
  · have hsame := connectionsAfter_of_not_lends hlends t.connections r
    rw [Borrowing.next_of_not_lends hlends]
    refine ⟨hfair (hsame.trans hconnections), ?_⟩
    have hne : ∀ node, e ≠ .call (.connect node) := by
      rintro node rfl
      exact hlends trivial
    show w.store.pool.Passes t.tickets t.connections.length w'.store.pool []
      (connectionsAfter t.connections e r).length
    rw [hidle hne, hsame, hw, w.answer_pool t.wait hlends]
    exact Pool.Passes.refl _ _ _

theorem Fair.waits (h : t.Fair held) (hs : t.step w = .waits w' t') :
    t'.Fair held ∧ t'.program = t.program ∧
      w.store.pool.Passes t.tickets t.connections.length w'.store.pool t'.tickets
        t'.connections.length := by
  rcases step_eq_waits hs with ⟨rfl, rfl, -⟩ | ⟨e, next, wait, hp, hwait, hbegins, rfl⟩
  · exact ⟨h, rfl, Pool.Passes.refl _ _ _⟩
  · obtain ⟨hpasses, hqueued⟩ := World.wait?_passes hbegins t.connections.length
    have hnil : t.tickets = [] := by
      rw [tickets, hwait]
      rfl
    refine ⟨⟨h.connections, ?_⟩, rfl, ?_⟩
    · intro hsome
      obtain ⟨node, rfl⟩ := hqueued hsome
      exact ⟨node, next, hp⟩
    · rw [hnil]
      exact hpasses

theorem forgetGuards_store (w : World) (gs : List Guard) :
    (forgetGuards w gs).1.store = w.store := by
  induction gs generalizing w with
  | nil => rfl
  | cons g rest ih =>
    have hfirst : (forgetGuard w g).1.store = w.store := by
      unfold forgetGuard
      split <;> rfl
    exact (ih _).trans hfirst

theorem giveBacks_passes (w : World) (conns : List Connection) :
    w.store.pool.Passes [] conns.length
      (conns.foldl (fun w _ => w.giveBack) w).store.pool [] 0 := by
  induction conns generalizing w with
  | nil => exact Pool.Passes.refl _ _ _
  | cons conn conns ih =>
    exact (Pool.passes_putBack w.store.pool conns.length).trans (ih w.giveBack)

/-- A task that is dropped leaves the queue and gives back what it has borrowed. -/
theorem drop_passes (w : World) (t : Task X α) :
    w.store.pool.Passes t.tickets t.connections.length (t.drop w).1.store.pool [] 0 := by
  unfold drop tickets
  rw [forgetGuards_store]
  cases t.wait with
  | none => exact giveBacks_passes w t.connections
  | some wait =>
    have hgives := giveBacks_passes (w.abandonWait wait) t.connections
    cases wait with
    | timer wake => exact hgives
    | permit ticket deadline =>
      exact (Pool.passes_withdraw w.store.pool ticket t.connections.length).trans hgives

end Task

end Latchkey
