import Latchkey.Proofs.Clienteles
import Latchkey.Proofs.Schedules

/-!
# The balance of lock metrics

In a run of any clients in any environment the counters of acquisitions and releases add up to the
calls that were answered, and each to those with its answer. The attempts of an acquisition with
retries are calls like others, and so are the two calls of a guarded section. A call that is dropped
has counted nothing, since a call that has counted only gives its connection back.

The main statement is `Clientele.lock_metrics_balance`.
-/

namespace Latchkey

variable {X : Extension} {σ : Type}

/-! ## Calls that were answered -/

/-- The call that an event ends. -/
def Event.answered? : Event → Option Answered
  | .returned o _ a => some ⟨o, a⟩
  | _ => none

/-- The call whose answer a party is about to take. -/
def Party.answered? : Party X → Option Answered
  | .inside o _ p _ => p.outcome?.map fun a => ⟨o, a⟩
  | .between _ => none

/-- The calls that ran to completion: those that have returned, and those whose answer is about to
be taken. -/
def Clientele.answered (tr : List Event) (c : Clientele X σ) : List Answered :=
  tr.filterMap Event.answered? ++ c.parties.filterMap Party.answered?

/-- The verdict in the answer that an event is about. -/
def Event.verdict? (ev : Event) : Option Verdict := ev.answered?.bind Answered.verdict?

/-- The verdict in the answer that a party is about to take. -/
def Party.verdict? (p : Party X) : Option Verdict := p.answered?.bind Answered.verdict?

/-- Whether a client counts a verdict itself, outside of any operation. -/
def Event.isOwnCount : Event → Bool
  | .performed x => x.effect.verdict?.isSome
  | _ => false

/-- The verdicts that were counted by exchanges. -/
def verdicts (log : List Exchange) : List Verdict := log.filterMap fun x => x.effect.verdict?

theorem verdicts_concat (log : List Exchange) (x : Exchange) :
    verdicts (log ++ [x]) = verdicts log ++ x.effect.verdict?.toList := by
  cases hx : x.effect.verdict? <;> simp [verdicts, hx]

/-! ## Adding up -/

section Adding

variable {α β : Type} {f : α → Option Verdict} {v : Verdict}

theorem tally_append (as bs : List α) :
    tally f (as ++ bs) (some v) = tally f as (some v) + tally f bs (some v) :=
  List.countP_append

theorem tally_toList (a : Option α) :
    tally f a.toList (some v) = if a.bind f = some v then 1 else 0 := by
  cases a with
  | none => rfl
  | some a => simp [tally, List.countP_singleton]

theorem tally_filterMap (g : β → Option α) (bs : List β) :
    tally f (bs.filterMap g) (some v) = tally (fun b => (g b).bind f) bs (some v) := by
  rw [tally, tally, List.countP_filterMap]
  refine congrArg (bs.countP ·) (funext fun b => ?_)
  cases g b <;> rfl

theorem tally_eq_zero {as : List α} (h : ∀ a ∈ as, f a = none) : tally f as (some v) = 0 := by
  refine List.countP_eq_zero.2 fun a ha => ?_
  simp [h a ha]

end Adding

/-- What is answered in a run is answered by its events and by its parties. -/
theorem Clientele.tally_answered (tr : List Event) (c : Clientele X σ) (v : Verdict) :
    tally Answered.verdict? (c.answered tr) (some v) =
      tally Event.verdict? tr (some v) + tally Party.verdict? c.parties (some v) := by
  rw [answered, tally_append, tally_filterMap, tally_filterMap]
  rfl

/-! ## Parties -/

/-- Whatever a party has counted so far, it will have counted the verdict of its answer in the
end. -/
def Party.Sound : Party X → Prop
  | .between _ => True
  | .inside o log p _ => ∃ counted : Option Verdict, verdicts log = counted.toList ∧
      p.Ensures tallying counted fun s a => s = (Answered.mk o a).verdict?

namespace Party

/-- A call that just begins has counted nothing. -/
theorem sound_call (o : Operation) (next : o.Answer → Client X Unit) :
    (Party.inside o [] o.program next).Sound :=
  ⟨none, rfl, o.tallies⟩

/-- What was counted is the verdict of the answer, if there is one yet, and else nothing. -/
theorem verdict?_eq {o : Operation} {p : Program X o.Answer} {counted : Option Verdict}
    (h : p.Ensures tallying counted fun s a => s = (Answered.mk o a).verdict?)
    (log : List Exchange) (next : o.Answer → Client X Unit) :
    (Party.inside o log p next).verdict? = counted := by
  induction p generalizing counted with
  | done a => exact h.symm
  | effect e k ih =>
    obtain ⟨hlast, hnext⟩ := h
    cases e with
    | release conn => exact (ih () (hnext ())).trans (Option.or_none ..)
    | _ => exact (hlast.resolve_right fun ⟨conn, heq⟩ => nomatch heq).symm
  | extended op k ih => exact h.1.elim

theorem verdict?_call (o : Operation) (next : o.Answer → Client X Unit) :
    (Party.inside o [] o.program next).verdict? = none :=
  verdict?_eq o.tallies [] next

theorem verdict?_of_not_answers {p : Party X} (h : ¬ p.Answers) : p.verdict? = none := by
  cases p with
  | between c => rfl
  | inside o log p next =>
    have hnone : p.outcome? = none := Option.eq_none_iff_forall_ne_some.2 fun a ha => h ⟨a, ha⟩
    simp [verdict?, answered?, hnone]

/-- Parties that delete keys are sound, and take no answer with a verdict. -/
theorem deletion_cases {given : List (Guard × Token)} {runtime : Bool} {p : Party X}
    (h : p ∈ if runtime then given.map deletion else []) : p.Sound ∧ p.verdict? = none := by
  cases runtime with
  | true =>
    obtain ⟨d, -, rfl⟩ := List.mem_map.1 h
    exact ⟨sound_call _ _, verdict?_call _ _⟩
  | false => cases h

variable {E : Environment σ} {measures : σ → List Measure} {s s' : σ} {p : Party X}
  {p' : Option (Party X)} {ev : Event}

theorem Step.sound (h : p.Step E s ev s' p') (hp : p.Sound) : ∀ q ∈ p', q.Sound := by
  cases h with
  | @call o next ho =>
    rintro q ⟨⟩
    exact sound_call o next
  | @work o log e k next s' r ha =>
    obtain ⟨counted, hlog, hlast, hnext⟩ := hp
    rintro q ⟨⟩
    refine ⟨counted.or e.verdict?, ?_, hnext r⟩
    rw [verdicts_concat, hlog]
    rcases hlast with rfl | ⟨conn, rfl⟩
    · rfl
    · exact (List.append_nil _).trans (congrArg Option.toList (Option.or_none ..).symm)
  | finish => exact nofun
  | _ =>
    rintro q ⟨⟩
    trivial

/-- The exchanges of a call that returns have counted the verdict of its answer, and no other. -/
theorem Step.returned {o : Operation} {log : List Exchange} {a : o.Answer}
    (h : p.Step E s (.returned o log a) s' p') (hp : p.Sound) :
    verdicts log = (Answered.mk o a).verdict?.toList := by
  cases h with
  | «return» =>
    obtain ⟨counted, hlog, rfl⟩ := hp
    exact hlog

/-- What a step counts is the verdict of the answer that the party then has. -/
theorem Step.adds (h : p.Step E s ev s' p') (hE : E.Records measures) (hp : p.Sound)
    (hown : ev.isOwnCount = false) (v : Verdict) :
    tally Measure.verdict? (measures s') (some v) + tally verdict? [p] (some v) =
      tally Measure.verdict? (measures s) (some v) + tally Event.verdict? [ev] (some v) +
        tally verdict? p'.toList (some v) := by
  -- what an effect adds is its verdict
  have hadds {e : Effect} {r : e.Reply} (ha : E.answers s e s' r) :
      tally Measure.verdict? (measures s') (some v) =
        (if e.verdict? = some v then 1 else 0) +
          tally Measure.verdict? (measures s) (some v) := by
    rw [hE.answers s e s' r ha, tally_append, tally_toList]
    rfl
  cases h with
  | @perform e next s' r ha =>
    have hnone : e.verdict? = none := Option.not_isSome_iff_eq_none.1 (Bool.eq_false_iff.1 hown)
    rw [hadds ha, hnone, if_neg nofun, Nat.zero_add]
    rfl
  | @work o log e k next s' r ha =>
    obtain ⟨counted, -, hcounts⟩ := hp
    have hparty : tally verdict? [Party.inside o log (.effect e k) next] (some v) =
        if counted = some v then 1 else 0 := by
      rw [← verdict?_eq hcounts log next]
      exact tally_toList (some _)
    have hevent : tally Event.verdict? [.did o ⟨e, r⟩] (some v) = 0 := rfl
    rw [hadds ha, tally_toList, Option.bind_some, verdict?_eq (hcounts.2 r), hparty, hevent]
    rcases hcounts.1 with rfl | ⟨conn, rfl⟩
    · rw [if_neg (Option.some_ne_none v).symm]
      show _ = _ + if e.verdict? = some v then 1 else 0
      omega
    · have hnone : Effect.verdict? (.release conn) = none := rfl
      rw [hnone, if_neg nofun, Option.or_none]
      omega
  | @call o next ho =>
    rw [tally_toList, Option.bind_some, verdict?_call]
    rfl
  | «return» => rfl
  | hear r => rfl
  | finish => rfl

end Party

/-! ## Runs -/

namespace Clientele

variable {E : Environment σ} {measures : σ → List Measure} {c c' : Clientele X σ}
  {tr : List Event} {ev : Event}

/-- On the way of a run as many events were counted as calls answered, with each verdict. -/
structure Balanced (measures : σ → List Measure) (tr : List Event) (c : Clientele X σ) : Prop where
  tallies : ∀ v, tally Measure.verdict? (measures c.state) (some v) =
    tally Event.verdict? tr (some v) + tally Party.verdict? c.parties (some v)
  sound : ∀ p ∈ c.parties, p.Sound
  returned : ∀ o log a, Event.returned o log a ∈ tr →
    verdicts log = (Answered.mk o a).verdict?.toList

theorem Balanced.step (h : c.Balanced measures tr) (hE : E.Records measures)
    (hs : c.Step E ev c') (hown : ev.isOwnCount = false) :
    c'.Balanced measures (tr ++ [ev]) := by
  have hreturned (hlast : ∀ o log a, ev = .returned o log a →
      verdicts log = (Answered.mk o a).verdict?.toList) : ∀ o log a,
      Event.returned o log a ∈ tr ++ [ev] → verdicts log = (Answered.mk o a).verdict?.toList := by
    intro o log a hmem
    rcases List.mem_append.1 hmem with hmem | hmem
    · exact h.returned o log a hmem
    · exact hlast o log a (List.mem_singleton.1 hmem).symm
  have htallies := h.tallies
  cases hs with
  | @party s s' pre post p p' ev hp =>
    have hsound : p.Sound := h.sound p (List.mem_append_right _ List.mem_cons_self)
    refine ⟨fun v => ?_, fun q hq => ?_, hreturned ?_⟩
    · have hadds := hp.adds hE hsound hown v
      have hbefore := htallies v
      rw [List.append_cons] at hbefore
      simp only [tally_append] at hbefore ⊢
      omega
    · simp only [List.mem_append, Option.mem_toList] at hq
      rcases hq with (hq | hq) | hq
      · exact h.sound q (List.mem_append_left _ hq)
      · exact hp.sound hsound q hq
      · exact h.sound q (List.mem_append_right _ (List.mem_cons_of_mem _ hq))
    · rintro o log a rfl
      exact hp.returned hsound
  | @start s parties client =>
    refine ⟨fun v => ?_, fun q hq => ?_, hreturned fun o log a heq => ?_⟩
    · simp only [tally_append, htallies]
      rfl
    · rcases List.mem_append.1 hq with hq | hq
      · exact h.sound q hq
      · cases List.mem_singleton.1 hq
        trivial
    · cases heq
  | @drop s s' pre post p hp ho given runtime =>
    refine ⟨fun v => ?_, fun q hq => ?_, hreturned fun o log a heq => ?_⟩
    · have hbefore := htallies v
      have hparty : tally Party.verdict? [p] (some v) = 0 :=
        tally_eq_zero (List.forall_mem_singleton.2 (Party.verdict?_of_not_answers hp))
      have hdeletions : tally Party.verdict?
          (if runtime then given.map (Party.deletion (X := X)) else []) (some v) = 0 :=
        tally_eq_zero fun q hq => (Party.deletion_cases hq).2
      have hevent : tally Event.verdict? [.dropped given] (some v) = 0 := rfl
      rw [List.append_cons] at hbefore
      simp only [tally_append, hE.others s s' ho] at hbefore ⊢
      omega
    · simp only [List.mem_append] at hq
      rcases hq with (hq | hq) | hq
      · exact h.sound q (List.mem_append_left _ hq)
      · exact h.sound q (List.mem_append_right _ (List.mem_cons_of_mem _ hq))
      · exact (Party.deletion_cases hq).1
    · cases heq
  | @others s s' parties ev hev ho =>
    have hevent : ev.verdict? = none := by
      cases ev with
      | returned o log a => exact hev.elim
      | _ => rfl
    refine ⟨fun v => ?_, h.sound, hreturned fun o log a heq => ?_⟩
    · have hnone : tally Event.verdict? [ev] (some v) = 0 :=
        tally_eq_zero (List.forall_mem_singleton.2 hevent)
      simp only [tally_append, hnone, hE.others s s' ho, htallies]
      rfl
    · subst heq
      exact hev.elim

/-- The run of a clientele that begins without clients and without anything counted is balanced. -/
theorem balanced_of_run (hE : E.Records measures) (hfresh : measures c.state = [])
    (hparties : c.parties = []) (h : Run (Step E) c tr c')
    (hown : ∀ ev ∈ tr, ev.isOwnCount = false) :
    c'.Balanced measures tr := by
  induction h with
  | nil =>
    refine ⟨fun v => ?_, fun p hp => ?_, fun o log a hmem => nomatch hmem⟩
    · rw [hfresh, hparties]
      rfl
    · rw [hparties] at hp
      cases hp
  | snoc h hs ih =>
    have hbefore := ih fun ev hev => hown ev (List.mem_append_left _ hev)
    exact hbefore.step hE hs (hown _ (List.mem_append_right _ List.mem_cons_self))

/-- Lock metrics balance. Whatever answers the effects of clients that leave it to lock managers to
count verdicts, the counters agree with the calls that ran to completion, and each call that has
returned has counted the verdict of its answer and no other. -/
theorem lock_metrics_balance (hE : E.Records measures) (hfresh : measures c.state = [])
    (hparties : c.parties = []) (h : Run (Step E) c tr c')
    (hown : ∀ ev ∈ tr, ev.isOwnCount = false) :
    CountersAgree (measures c'.state) (c'.answered tr) ∧
      ∀ o log a, Event.returned o log a ∈ tr →
        verdicts log = (Answered.mk o a).verdict?.toList := by
  have hbalanced := balanced_of_run hE hfresh hparties h hown
  refine ⟨.of_tally fun v => ?_, hbalanced.returned⟩
  rw [hbalanced.tallies, tally_answered]

/-- A context acquires a lock for a guarded section and refreshes it there, while another one tries
twice in vain. The other one then asks for no lifetime, and releases what it does not hold. A third
one fails, and when it tries again it is dropped. -/
theorem lock_metrics_balance_mixed :
    ∃ (tr : List Event) (c : Clientele .none World),
      Run (Step World.counting) ⟨.ofStore .standalone 0, []⟩ tr c ∧
      c.state.measures.reverse = [.acquire .acquired 0, .acquire .refreshed 0,
        .acquire .contended 0, .acquire .contended 0, .release .released, .release .notHeld,
        .acquire .error 0] ∧
      (c.answered tr).countP Answered.isAttempt = 5 ∧
      tally Answered.verdict? (c.answered tr) (some .granted) = 2 ∧
      tally Answered.verdict? (c.answered tr) (some .failed) = 1 ∧
      (c.answered tr).countP Answered.isRelease = 2 := by
  let start : Machine Extension.none := ⟨.ofStore .standalone 0, []⟩
  let mine : Client Extension.none Unit := do
    let _ ← Client.runGuarded (ε := Unit) (α := Unit) {} "a" "L" 1000 false do
      let _ ← Client.invoke (.acquire {} "a" "L" 1000 0)
      let _ ← Client.acquireWithRetry {} "b" "L" 1000 0 5
      return .value ()
    let _ ← Client.invoke (.acquire {} "b" "L" 0 0)
    let _ ← Client.invoke (.release {} "b" "L")
  let yours : Client Extension.none Unit := do
    let _ ← Client.invoke (.acquire {} "c" "M" 1000 0)
  let go (n : Nat) : List (Move .none) := List.replicate n (.go 0)
  let moves : List (Move .none) :=
    .start mine :: go 44 ++ .elapse 5 :: go 33 ++
    -- no node can be reached, and then a write takes its time
    .configure ⟨false, false, 0, true, false⟩ :: .start yours :: go 12 ++
    .configure ⟨false, false, 10, false, false⟩ :: .start yours :: go 9 ++ [.drop 0 true]
  have hplay : ((Machine.play .cooperative start moves).any fun r =>
      r.1.all (fun ev => !ev.isOwnCount) && decide (r.2.world.measures.reverse =
        [.acquire .acquired 0, .acquire .refreshed 0, .acquire .contended 0, .acquire .contended 0,
          .release .released, .release .notHeld, .acquire .error 0])) = true := by
    decide +kernel
  obtain ⟨⟨tr, s⟩, hr, hs⟩ := (Option.any_eq_true _ _).1 hplay
  obtain ⟨hown, hmeasures⟩ := Bool.and_eq_true_iff.1 hs
  have hmeasures := of_decide_eq_true hmeasures
  have hrun := Machine.clientele_of_run rfl (Machine.run_of_play hr)
  obtain ⟨hagree, -⟩ := lock_metrics_balance World.counting_records rfl rfl hrun
    fun ev hev => by simpa using List.all_eq_true.1 hown ev hev
  have hcounted : s.clientele.state.measures = List.reverse _ := List.reverse_eq_iff.1 hmeasures
  rw [hcounted] at hagree
  exact ⟨tr, s.clientele, hrun, hmeasures, hagree.attempts.symm, hagree.granted.symm,
    hagree.failed.symm, hagree.releases.symm⟩

end Clientele

end Latchkey
