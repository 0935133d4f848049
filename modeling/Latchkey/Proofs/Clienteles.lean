import Latchkey.Proofs.ReleaseOutcomes
import Latchkey.Proofs.Tallies
import Latchkey.Proofs.Threads
import Latchkey.Redis.Session

/-!
# Clients in any environment

A clientele is any number of clients that use one environment, whatever that is: a store in memory,
an open Redis store, or anything else that answers effects. Each step is a step of one client, in
any order, or one of the environment. Nothing is said about waiting: what takes time is answered
when it is, and others may change the environment before that. A client may be dropped unless it has
got the answer to a call, which it takes without a pause when it has given its connection back.

The main statements are `World.counting_records` and `Redis.Session.counting_records`, that both
kinds of stores note what is counted, and `Machine.clientele_of_run`, that the runs of machines are
runs of clienteles.
-/

namespace Latchkey

variable {X : Extension} {σ : Type}

/-- A client on its way. -/
inductive Party (X : Extension) where
  /-- Outside of any operation. -/
  | between (c : Client X Unit)
  /-- In a call of an operation, after some exchanges; the client goes on with the answer. -/
  | inside (o : Operation) (log : List Exchange) (p : Program X o.Answer)
      (next : o.Answer → Client X Unit)

/-- An environment with the clients that use it. -/
structure Clientele (X : Extension) (σ : Type) where
  /-- The state of the environment. -/
  state : σ
  /-- The clients on their way. -/
  parties : List (Party X)

/-- Whether an event is no deed of a client. -/
def Event.IsIdle : Event → Prop
  | .silent => True
  | .purged => True
  | .elapsed _ => True
  | .configured => True
  | _ => False

/-- What a program has come to, when all that it has left to do is to give connections back. -/
def Program.outcome? {α : Type} : Program X α → Option α
  | .done a => some a
  | .effect (.release _) next => (next ()).outcome?
  | .effect _ _ => none
  | .extended _ _ => none

namespace Party

/-- The party has the answer to a call and is about to take it. -/
def Answers : Party X → Prop
  | .between _ => False
  | .inside _ _ p _ => ∃ a, p.outcome? = some a

/-- The party that deletes the key of a lock whose guarded section was dropped. -/
def deletion (d : Guard × Token) : Party X :=
  .inside (.clear d.1 d.2) [] (Operation.clear d.1 d.2).program fun _ => .done ()

/-- The steps of a party; there is nothing left of one that is done. -/
inductive Step (E : Environment σ) (s : σ) : Party X → Event → σ → Option (Party X) → Prop where
  /-- An effect outside of any operation is answered. -/
  | perform {e : Effect} {next : e.Reply → Client X Unit} {s' : σ} {r : e.Reply}
      (h : E.answers s e s' r) :
      Step E s (.between (.effect e next)) (.performed ⟨e, r⟩) s' (some (.between (next r)))
  /-- The surroundings reply. -/
  | hear {op : X.Op} {next : X.Reply op → Client X Unit} (r : X.Reply op) :
      Step E s (.between (.extended (.outside op) next)) .silent s (some (.between (next r)))
  /-- The client is done. -/
  | finish : Step E s (.between (.done ())) .silent s none
  /-- The client calls an operation. -/
  | call {o : Operation} {next : o.Answer → Client X Unit} (ho : o.IsCall) :
      Step E s (.between (.extended (.invoke o) next)) (.began o) s
        (some (.inside o [] o.program next))
  /-- An effect of an operation is answered. -/
  | work {o : Operation} {log : List Exchange} {e : Effect} {p : e.Reply → Program X o.Answer}
      {next : o.Answer → Client X Unit} {s' : σ} {r : e.Reply} (h : E.answers s e s' r) :
      Step E s (.inside o log (.effect e p) next) (.did o ⟨e, r⟩) s'
        (some (.inside o (log ++ [⟨e, r⟩]) (p r) next))
  /-- An operation returns. -/
  | return {o : Operation} {log : List Exchange} {a : o.Answer} {next : o.Answer → Client X Unit} :
      Step E s (.inside o log (.done a) next) (.returned o log a) s (some (.between (next a)))

end Party

namespace Clientele

/-- The steps of a clientele. -/
inductive Step (E : Environment σ) : Clientele X σ → Event → Clientele X σ → Prop where
  /-- A party goes on. -/
  | party {s s' : σ} {pre post : List (Party X)} {p : Party X} {p' : Option (Party X)} {ev : Event}
      (h : p.Step E s ev s' p') :
      Step E ⟨s, pre ++ p :: post⟩ ev ⟨s', pre ++ p'.toList ++ post⟩
  /-- A client begins. -/
  | start {s : σ} {parties : List (Party X)} (c : Client X Unit) :
      Step E ⟨s, parties⟩ .silent ⟨s, parties ++ [.between c]⟩
  /-- A party is dropped, and the locks of its guarded sections are given up. -/
  | drop {s s' : σ} {pre post : List (Party X)} {p : Party X} (hp : ¬ p.Answers)
      (h : E.others s s') (given : List (Guard × Token)) (runtime : Bool) :
      Step E ⟨s, pre ++ p :: post⟩ (.dropped given)
        ⟨s', pre ++ post ++ if runtime then given.map Party.deletion else []⟩
  /-- Others change the state. -/
  | others {s s' : σ} {parties : List (Party X)} {ev : Event} (hev : ev.IsIdle)
      (h : E.others s s') : Step E ⟨s, parties⟩ ev ⟨s', parties⟩

end Clientele

/-! ## What is counted -/

/-- An environment notes the events that are counted, the last one first, and nothing else. -/
structure Environment.Records (E : Environment σ) (measures : σ → List Measure) : Prop where
  answers : ∀ s e s' r, E.answers s e s' r → measures s' = e.measure?.toList ++ measures s
  others : E.Spares measures

namespace World

variable {w w' : World}

theorem connect_ledger (w : World) (node : NodeId) (waited : Option Wait) :
    (w.connect node waited).1.toLedger = w.toLedger := by
  unfold connect
  split
  · split <;> rfl
  · split
    · rfl
    · split <;> rfl

theorem wait?_ledger {e : Effect} {wait : Wait} (h : w.wait? e = some (w', wait)) :
    w'.toLedger = w.toLedger := by
  unfold wait? at h
  split at h
  · split at h <;> cases h
    rfl
  · split at h <;> cases h
    rfl
  · obtain ⟨_, _, h⟩ := Option.map_eq_some_iff.1 h
    cases h
    rfl
  · cases h

theorem answer_measures (w : World) (waited : Option Wait) (e : Effect) :
    (w.answer waited e).1.measures = e.measure?.toList ++ w.measures := by
  cases e with
  | call c =>
    cases c with
    | connect node => exact congrArg Ledger.measures (w.connect_ledger node waited)
    | command conn cmd => exact congrArg Ledger.measures (w.command_frame conn waited cmd).1
    | _ => rfl
  | registry m a => cases a <;> rfl
  | _ => rfl

/-- A world that responds, while others count nothing. -/
def counting : Environment World := serving fun w w' => w'.measures = w.measures

/-- A store in memory notes what is counted, whatever fails. -/
theorem counting_records : counting.Records (·.measures) where
  answers w e w' r h := by
    cases h with
    | answered waited e => exact w.answer_measures waited e
    | failed c err => rfl
    | lost waited c err => exact w.answer_measures waited (.call c)
  others _ _ h := h

end World

namespace Redis.Session

variable {ν : Type} (net : Network ν)

theorem askScript_ledger (s : Session ν) (endpoint : Endpoint) (script : Script) (key : String)
    (args : List String) :
    (s.askScript net endpoint script key args).1.toLedger = s.toLedger := by
  have hask : ∀ (s : Session ν) (request : Request),
      (s.ask net endpoint request).1.toLedger = s.toLedger := fun _ _ => rfl
  have hrun := hask s (.runScript script key args)
  unfold askScript
  split
  · next s₁ e heq =>
    rw [heq] at hrun
    split
    · have hload := hask s₁ (.loadScript script)
      split
      · next s₂ e' heq' =>
        rw [heq'] at hload
        exact hload.trans hrun
      · next s₂ v heq' =>
        rw [heq'] at hload
        exact (hask s₂ _).trans (hload.trans hrun)
    · exact hrun
  · exact hrun

theorem send_ledger (s : Session ν) (endpoint : Endpoint) (cmd : Command) :
    (s.send net endpoint cmd).1.toLedger = s.toLedger := by
  unfold send
  split
  · exact s.askScript_ledger net endpoint _ _ _
  · rfl

theorem connect_ledger (s : Session ν) (node : NodeId) :
    (s.connect net node).1.toLedger = s.toLedger := by
  simp only [connect]
  cases (s.store.connect node).2 with
  | error e => rfl
  | ok endpoint =>
    dsimp only
    cases (net.connect s.net endpoint).reply with
    | error e => rfl
    | ok u => rfl

theorem perform_measures (s : Session ν) (e : Effect) :
    (s.perform net e).1.measures = e.measure?.toList ++ s.measures := by
  cases e with
  | call c =>
    cases c with
    | connect node => exact congrArg Ledger.measures (s.connect_ledger net node)
    | command conn cmd =>
      show (s.command net conn cmd).1.measures = s.measures
      unfold command
      split
      · rfl
      · exact congrArg Ledger.measures (s.send_ledger net _ cmd)
    | _ => rfl
  | registry m a => cases a <;> rfl
  | _ => rfl

/-- A session that answers, while others count nothing. -/
def counting : Environment (Session ν) where
  answers s e s' r := (s', r) = s.perform net e
  others s s' := s'.measures = s.measures

/-- An open Redis store notes what is counted, whatever the network does. -/
theorem counting_records : (counting net).Records (·.measures) where
  answers s e s' r h := by
    obtain ⟨rfl, rfl⟩ := Prod.mk.inj h
    exact s.perform_measures net e
  others _ _ h := h

end Redis.Session

/-! ## Machines -/

/-- The thread, whatever it waits for. -/
def Thread.party : Thread X → Party X
  | .between t => .between t.program
  | .inside o log t next => .inside o log t.program next

/-- The world of a machine with the clients on their way. -/
def Machine.clientele (s : Machine X) : Clientele X World := ⟨s.world, s.threads.map Thread.party⟩

namespace Task

theorem forgetGuards_measures (w : World) (gs : List Guard) :
    (forgetGuards w gs).1.measures = w.measures := by
  induction gs generalizing w with
  | nil => rfl
  | cons g rest ih =>
    have hg : (forgetGuard w g).1.measures = w.measures := by
      unfold forgetGuard
      split <;> rfl
    exact (ih _).trans hg

theorem drop_measures {α : Type} (w : World) (t : Task X α) :
    (t.drop w).1.measures = w.measures := by
  have hback : ∀ (conns : List Connection) (w : World),
      (conns.foldl (fun w _ => w.giveBack) w).measures = w.measures := by
    intro conns
    induction conns with
    | nil => exact fun _ => rfl
    | cons conn conns ih => exact fun w => ih w.giveBack
  unfold drop
  rw [forgetGuards_measures, hback]
  cases t.wait with
  | none => rfl
  | some wait => cases wait <;> rfl

/-- A task that waits has counted nothing. -/
theorem measures_of_waits {α : Type} {w w' : World} {t t' : Task X α}
    (h : t.step w = .waits w' t') : w'.measures = w.measures ∧ t'.program = t.program := by
  rcases step_eq_waits h with ⟨rfl, rfl, -⟩ | ⟨e, next, wait, -, -, hwait, rfl⟩
  · exact ⟨rfl, rfl⟩
  · exact ⟨congrArg Ledger.measures (World.wait?_ledger hwait), rfl⟩

end Task

/-- A step of a thread is one of its party, or it waits. -/
theorem Thread.Step.party {w w' : World} {th : Thread X} {th' : Option (Thread X)} {ev : Event}
    (h : th.Step w ev w' th') :
    th.party.Step World.counting w ev w' (th'.map Thread.party) ∨
      ev = .silent ∧ th'.map Thread.party = some th.party ∧ w'.measures = w.measures := by
  have hanswers {e : Effect} {waited : Option Wait} {w' : World} {r : e.Reply}
      (heq : (w', r) = w.answer waited e) : World.counting.answers w e w' r := by
    obtain ⟨rfl, rfl⟩ := Prod.mk.inj heq
    exact .answered waited e
  cases h with
  | @perform t t' w' x hs hx =>
    obtain ⟨next, hp, -, heq, rfl⟩ := Task.step_eq_moved hs hx
    refine .inl ?_
    show Party.Step World.counting w (.between t.program) _ _ _
    rw [hp]
    exact .perform (hanswers heq)
  | rest hs =>
    obtain ⟨hmeasures, hp⟩ := Task.measures_of_waits hs
    exact .inr ⟨rfl, congrArg (some <| Party.between ·) hp, hmeasures⟩
  | @hear t op next hs r =>
    obtain ⟨k, hp, rfl⟩ := Task.step_eq_asks hs
    refine .inl ?_
    show Party.Step World.counting w (.between t.program) _ _ _
    rw [hp]
    exact .hear r
  | @finish t hs =>
    refine .inl ?_
    show Party.Step World.counting w (.between t.program) _ _ _
    rw [Task.step_eq_finished hs]
    exact .finish
  | @call t o next hs ho =>
    obtain ⟨k, hp, rfl⟩ := Task.step_eq_asks hs
    refine .inl ?_
    show Party.Step World.counting w (.between t.program) _ _ _
    rw [hp]
    exact .call ho
  | @work o log t t' next w' x hs hx =>
    obtain ⟨k, hp, -, heq, rfl⟩ := Task.step_eq_moved hs hx
    refine .inl ?_
    show Party.Step World.counting w (.inside o log t.program next) _ _ _
    rw [hp]
    exact .work (hanswers heq)
  | @await o log t t' next w' hs =>
    obtain ⟨hmeasures, hp⟩ := Task.measures_of_waits hs
    exact .inr ⟨rfl, congrArg (some <| Party.inside o log · next) hp, hmeasures⟩
  | @«return» o log t next a hs =>
    refine .inl ?_
    show Party.Step World.counting w (.inside o log t.program next) _ _ _
    rw [Task.step_eq_finished hs]
    exact .return

theorem Thread.map_party_deletion (given : List (Guard × Token)) (runtime : Bool) :
    (if runtime then given.map Thread.deletion else []).map (Thread.party (X := X)) =
      if runtime then given.map Party.deletion else [] := by
  cases runtime with
  | true => exact List.map_map
  | false => rfl

/-- Only what has not got an answer is suspended. -/
theorem Thread.Suspended.not_answers {th : Thread X} (h : th.Suspended) (ho : th.Orderly) :
    ¬ th.party.Answers := by
  cases th with
  | between t => exact id
  | inside o log t next =>
    rintro ⟨a, ha⟩
    obtain ⟨e, k, he, hmay⟩ := ho h
    rw [he] at ha
    cases e with
    | release conn => exact hmay
    | _ => cases ha

namespace Machine

variable {mode : Scheduling} {s s' : Machine X} {tr : List Event} {ev : Event}

/-- A step of a machine is one of its clientele. -/
theorem Step.clientele (h : s.Step mode ev s') (ho : ∀ th ∈ s.threads, th.Orderly) :
    s.clientele.Step World.counting ev s'.clientele := by
  cases h with
  | @thread w w' pre post th th' ev hm hth =>
    simp only [Machine.clientele, List.map_append, List.map_cons]
    rcases hth.party with hstep | ⟨rfl, hparty, hmeasures⟩
    · rw [Option.toList_map.symm]
      exact .party hstep
    · obtain ⟨th'', rfl, heq⟩ := Option.map_eq_some_iff.1 hparty
      simp only [Option.toList_some, List.map_cons, List.map_nil, heq, List.append_assoc,
        List.singleton_append]
      exact .others trivial hmeasures
  | start c =>
    simp only [Machine.clientele, List.map_append, List.map_cons, List.map_nil]
    exact .start c
  | @drop w pre post th runtime hs =>
    have hmeasures : (th.drop w).measures = w.measures := by
      cases th with
      | between t => exact t.drop_measures w
      | inside o log t next => exact t.drop_measures w
    have horderly : th.Orderly := ho th (List.mem_append_right _ List.mem_cons_self)
    simp only [Machine.clientele, List.map_append, List.map_cons, Thread.map_party_deletion]
    exact .drop (hs.not_answers horderly) hmeasures (Task.forsaken w th.guards) runtime
  | purge => exact .others trivial rfl
  | elapse ms hs => exact .others trivial rfl
  | configure d hd => exact .others trivial rfl

/-- The runs of machines are runs of clienteles. -/
theorem clientele_of_run (h₀ : s.threads = []) (h : Run (Step mode) s tr s') :
    Run (Clientele.Step World.counting) s.clientele tr s'.clientele := by
  induction h with
  | nil => exact .nil
  | snoc h hs ih => exact ih.snoc (hs.clientele (orderly_of_run h₀ h))

end Machine

end Latchkey
