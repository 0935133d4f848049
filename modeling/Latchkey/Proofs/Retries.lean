import Mathlib.Algebra.Order.Floor.Div
import Mathlib.Data.List.Chain
import Latchkey.Proofs.Deployments
import Latchkey.Proofs.Environments
import Latchkey.Proofs.Sessions

/-!
# Trying again

An acquisition that tries again makes one attempt after the other, with a pause between two of them.
It ends with the first attempt that does not answer false, and it makes no further one when the
store is closing or the deadline is over.

`Retries` says which attempts are made, whatever each of them does and however long it takes. It has
one rule for an attempt after which others are made and one for the last attempt, and
`Manager.takes_acquireUntil` says that it is what the program does. The main statement is
`retries_end_in_time`.
-/

namespace Latchkey

variable {X : Extension} {α β : Type}

/-! ## Time -/

/-- Only a look at the clock, and one at whether the store is closing, take no time. A sleep takes
what it is told, and everything else as long as it does; any reply may come. -/
def timing : Environment Nat where
  answers
    | t, .clock, t', now => t' = t ∧ now = t
    | t, .closing, t', _ => t' = t
    | t, .sleep ms, t', _ => t' = t + ms
    | t, _, t', _ => t ≤ t'
  others _ _ := False

theorem timing_answers_le {t t' : Nat} {e : Effect} {r : e.Reply} (h : timing.answers t e t' r) :
    t ≤ t' := by
  cases e with
  | clock => exact Nat.le_of_eq h.1.symm
  | closing => exact Nat.le_of_eq h.symm
  | sleep ms => exact h ▸ Nat.le_add_right t ms
  | _ => exact h

theorem Environment.Leads.le_of_timing {t t' : Nat} {log : List Exchange}
    (h : timing.Leads t log t') : t ≤ t' :=
  h.keeps (fun _ _ ho => ho.elim)
    (fun _ _ _ _ ha hle => Nat.le_trans hle (timing_answers_le ha)) (Nat.le_refl t)

/-- Whenever an effect is performed there is a reply at some time. -/
theorem exists_timing_answers (t : Nat) (e : Effect) : ∃ t' r, timing.answers t e t' r := by
  cases e with
  | clock => exact ⟨t, t, rfl, rfl⟩
  | closing => exact ⟨t, false, rfl⟩
  | sleep ms => exact ⟨t + ms, (), rfl⟩
  | _ => exact ⟨t, (World.fresh.perform _).2, Nat.le_refl t⟩

namespace Program

/-- A program is begun at a time and ends at another one with a result, after some exchanges. -/
structure Takes (p : Program X α) (began : Nat) (log : List Exchange) (a : α) (ended : Nat) :
    Prop where
  /-- These are its exchanges. -/
  after : p.After log (.done a)
  /-- They take so long. -/
  leads : timing.Leads began log ended

variable {t t' : Nat} {log : List Exchange}

theorem Takes.le {p : Program X α} {a : α} (h : p.Takes t log a t') : t ≤ t' := h.leads.le_of_timing

@[simp] theorem takes_done {a b : α} :
    (Program.done a : Program X α).Takes t log b t' ↔ log = [] ∧ b = a ∧ t' = t := by
  constructor
  · intro h
    obtain ⟨rfl, heq⟩ := h.after.of_done
    cases heq
    exact ⟨rfl, rfl, h.leads.eq_of_nil (f := id) fun _ _ ho => ho.elim⟩
  · rintro ⟨rfl, rfl, rfl⟩
    exact ⟨.start, .done t'⟩

theorem takes_effect {e : Effect} {next : e.Reply → Program X α} {a : α} :
    (Program.effect e next).Takes t log a t' ↔ ∃ r log' t₁, log = ⟨e, r⟩ :: log' ∧
      timing.answers t e t₁ r ∧ (next r).Takes t₁ log' a t' := by
  constructor
  · intro h
    obtain ⟨-, heq⟩ | ⟨r, log', rfl, hafter⟩ := h.after.of_effect
    · cases heq
    obtain ⟨t₀, t₁, hidle, ha, hleads⟩ := h.leads.of_cons
    obtain rfl : t₀ = t := hidle.eq_of_nil (f := id) fun _ _ ho => ho.elim
    exact ⟨r, log', t₁, rfl, ha, hafter, hleads⟩
  · rintro ⟨r, log', t₁, rfl, ha, hafter, hleads⟩
    exact ⟨hafter.cons, .exchange ha hleads⟩

@[simp] theorem takes_clock {next : Nat → Program X α} {a : α} :
    (Program.effect .clock next).Takes t log a t' ↔ ∃ log', log = ⟨.clock, t⟩ :: log' ∧
      (next t).Takes t log' a t' := by
  rw [takes_effect]
  constructor
  · rintro ⟨now, log', t₁, rfl, ⟨rfl, rfl⟩, h⟩
    exact ⟨log', rfl, h⟩
  · rintro ⟨log', rfl, h⟩
    exact ⟨t, log', t, rfl, ⟨rfl, rfl⟩, h⟩

@[simp] theorem takes_closing {next : Bool → Program X α} {a : α} :
    (Program.effect .closing next).Takes t log a t' ↔ ∃ closing log',
      log = ⟨.closing, closing⟩ :: log' ∧ (next closing).Takes t log' a t' := by
  rw [takes_effect]
  constructor
  · rintro ⟨closing, log', t₁, rfl, rfl, h⟩
    exact ⟨closing, log', rfl, h⟩
  · rintro ⟨closing, log', rfl, h⟩
    exact ⟨closing, log', t, rfl, rfl, h⟩

@[simp] theorem takes_sleep {ms : Nat} {next : Unit → Program X α} {a : α} :
    (Program.effect (.sleep ms) next).Takes t log a t' ↔ ∃ log', log = ⟨.sleep ms, ()⟩ :: log' ∧
      (next ()).Takes (t + ms) log' a t' := by
  rw [takes_effect]
  constructor
  · rintro ⟨_, log', t₁, rfl, rfl, h⟩
    exact ⟨log', rfl, h⟩
  · rintro ⟨log', rfl, h⟩
    exact ⟨(), log', t + ms, rfl, rfl, h⟩

theorem takes_bind {p : Program X α} {f : α → Program X β} {b : β} :
    (p >>= f).Takes t log b t' ↔ ∃ log₁ a t₁ log₂, log = log₁ ++ log₂ ∧ p.Takes t log₁ a t₁ ∧
      (f a).Takes t₁ log₂ b t' := by
  constructor
  · intro h
    obtain ⟨log₁, log₂, a, rfl, hp, hf⟩ := h.after.of_bind_done
    obtain ⟨t₁, hlog₁, hlog₂⟩ := h.leads.split
    exact ⟨log₁, a, t₁, log₂, rfl, ⟨hp, hlog₁⟩, hf, hlog₂⟩
  · rintro ⟨log₁, a, t₁, log₂, rfl, hp, hf⟩
    exact ⟨hp.after.bind hf.after, hp.leads.trans hf.leads⟩

end Program

/-! ## Attempts -/

/-- An acquisition among others that are tried one after the other. -/
structure Attempt where
  /-- Its exchanges. -/
  log : List Exchange
  /-- When it began. -/
  began : Nat
  /-- When it ended. -/
  ended : Nat
  /-- Its answer. -/
  answer : Except Failure Bool
  /-- Whether the store was closing then; that is asked only if the answer is false. -/
  closing : Bool

namespace Attempt

variable (poll deadline : Nat) (a : Attempt)

/-- It is an acquisition that took its time. -/
def Made (X : Extension) (m : Manager) (ctx : Context) (lock : String) (ttl wait : Nat) : Prop :=
  (m.acquire (X := X) ctx lock ttl wait).run.Takes a.began a.log a.answer a.ended

/-- It answered false, with the store open and the deadline not over, so that another is made. -/
def GoesOn : Prop := a.answer = .ok false ∧ a.closing = false ∧ a.ended < deadline

/-- The exchanges that decide whether another attempt is made, and the pause before it. -/
def trail : List Exchange :=
  match a.answer with
  | .ok false =>
    ⟨.closing, a.closing⟩ :: if a.closing then [] else
      ⟨.clock, a.ended⟩ :: if deadline ≤ a.ended then [] else [⟨.sleep poll, ()⟩]
  | _ => []

/-- Its exchanges, and those that follow. -/
def exchanges : List Exchange := a.log ++ a.trail poll deadline

end Attempt

/-- The attempts that are made from a time on, at most so many, with the answer of the last one and
the time when it was given. -/
inductive Retries (X : Extension) (m : Manager) (ctx : Context) (lock : String)
    (ttl wait deadline : Nat) :
    Nat → Nat → List Attempt → Except Failure Bool → Nat → Prop where
  /-- No more attempts may be made. -/
  | exhausted (t : Nat) : Retries X m ctx lock ttl wait deadline 0 t [] (.ok false) t
  /-- An attempt is the last one. -/
  | last (n : Nat) {a : Attempt} (ha : a.Made X m ctx lock ttl wait) (hstop : ¬ a.GoesOn deadline) :
      Retries X m ctx lock ttl wait deadline (n + 1) a.began [a] a.answer a.ended
  /-- After an attempt and a pause others are made. -/
  | again {n : Nat} {a : Attempt} {as : List Attempt} {r : Except Failure Bool} {t : Nat}
      (ha : a.Made X m ctx lock ttl wait) (hgo : a.GoesOn deadline)
      (hrest : Retries X m ctx lock ttl wait deadline n (a.ended + m.settings.pollInterval) as r
        t) :
      Retries X m ctx lock ttl wait deadline (n + 1) a.began (a :: as) r t

namespace Manager

variable (m : Manager) (ctx : Context) (lock : String) (ttl wait deadline n : Nat)

/-- What follows an attempt, if so many more may be made. -/
def resume : Except Failure Bool → Program X (Except Failure Bool)
  | .ok false => .effect .closing fun closing : Bool =>
    if closing then .done (.ok false)
    else .effect .clock fun now : Nat =>
      if deadline ≤ now then .done (.ok false)
      else .effect (.sleep m.settings.pollInterval) fun _ =>
        (m.acquireUntil ctx lock ttl wait deadline n).run
  | r => .done r

theorem acquireUntil_succ :
    (m.acquireUntil (X := X) ctx lock ttl wait deadline (n + 1)).run =
      (m.acquire ctx lock ttl wait).run >>= m.resume ctx lock ttl wait deadline n := by
  refine congrArg ((m.acquire ctx lock ttl wait).run >>= ·) (funext fun r => ?_)
  match r with
  | .error failure => rfl
  | .ok true => rfl
  | .ok false =>
    refine congrArg (Program.effect .closing) (funext fun closing => ?_)
    cases closing with
    | true => rfl
    | false =>
      refine congrArg (Program.effect .clock) (funext fun (now : Nat) => ?_)
      show (if now ≥ deadline then pure false
          else Action.perform (.sleep m.settings.pollInterval) >>= fun _ =>
            m.acquireUntil ctx lock ttl wait deadline n : Action X Failure Bool).run =
        if deadline ≤ now then Program.done (.ok false)
          else .effect (.sleep m.settings.pollInterval) fun _ =>
            (m.acquireUntil ctx lock ttl wait deadline n).run
      by_cases h : deadline ≤ now
      · rw [if_pos h, if_pos h]
        rfl
      · rw [if_neg h, if_neg h]
        rfl

/-- What follows an attempt: nothing more is done, or others are made after a pause. -/
theorem takes_resume {a : Attempt} {t' : Nat} {log : List Exchange} {r : Except Failure Bool} :
    (m.resume (X := X) ctx lock ttl wait deadline n a.answer).Takes a.ended log r t' ↔
      ∃ closing b, b = { a with closing } ∧
        ((¬ b.GoesOn deadline ∧ log = b.trail m.settings.pollInterval deadline ∧ r = b.answer ∧
            t' = b.ended) ∨
          b.GoesOn deadline ∧ ∃ log', log = b.trail m.settings.pollInterval deadline ++ log' ∧
            (m.acquireUntil (X := X) ctx lock ttl wait deadline n).run.Takes
              (b.ended + m.settings.pollInterval) log' r t') := by
  obtain ⟨log₀, began, ended, answer, closing₀⟩ := a
  match answer with
  | .error failure => simp [resume, Attempt.GoesOn, Attempt.trail]
  | .ok true => simp [resume, Attempt.GoesOn, Attempt.trail]
  | .ok false =>
    rcases Nat.lt_or_ge ended deadline with hearly | hlate
    · have hnot : ¬ deadline ≤ ended := Nat.not_le.2 hearly
      simp [resume, Attempt.GoesOn, Attempt.trail, hearly, hnot]
    · have hnot : ¬ ended < deadline := Nat.not_lt.2 hlate
      simp [resume, Attempt.GoesOn, Attempt.trail, hlate, hnot, or_and_right]

/-- `Retries` says what a program that tries again does. -/
theorem takes_acquireUntil {t t' : Nat} {log : List Exchange} {r : Except Failure Bool} :
    (m.acquireUntil (X := X) ctx lock ttl wait deadline n).run.Takes t log r t' ↔
      ∃ as, log = as.flatMap (·.exchanges m.settings.pollInterval deadline) ∧
        Retries X m ctx lock ttl wait deadline n t as r t' := by
  -- each attempt takes one off the number of those that may still be made
  induction n generalizing t log with
  | zero =>
    refine Program.takes_done.trans ⟨?_, ?_⟩
    · rintro ⟨rfl, rfl, rfl⟩
      exact ⟨[], rfl, .exhausted t'⟩
    · rintro ⟨as, rfl, h⟩
      cases h
      exact ⟨rfl, rfl, rfl⟩
  | succ n ih =>
    rw [acquireUntil_succ, Program.takes_bind]
    constructor
    · rintro ⟨log₁, r₀, t₁, log₂, rfl, hmade, hrest⟩
      have hfollow := (m.takes_resume ctx lock ttl wait deadline n
        (a := ⟨log₁, t, t₁, r₀, false⟩)).1 hrest
      obtain ⟨closing, a, rfl, ⟨hstop, rfl, rfl, rfl⟩ | ⟨hgo, log', rfl, h⟩⟩ := hfollow
      · have hlast := Retries.last (a := ⟨log₁, t, t', r, closing⟩) n hmade hstop
        exact ⟨_, by simp [Attempt.exchanges], hlast⟩
      · obtain ⟨as, rfl, has⟩ := ih.1 h
        have hagain := Retries.again (a := ⟨log₁, t, t₁, r₀, closing⟩) hmade hgo has
        exact ⟨_, by simp [Attempt.exchanges], hagain⟩
    · rintro ⟨as, rfl, h⟩
      cases h with
      | @last _ a hmade hstop =>
        refine ⟨a.log, a.answer, a.ended, _, List.flatMap_singleton .., hmade, ?_⟩
        exact (m.takes_resume ctx lock ttl wait deadline n).2
          ⟨a.closing, a, rfl, .inl ⟨hstop, rfl, rfl, rfl⟩⟩
      | @again _ a as _ _ hmade hgo hrest =>
        refine ⟨a.log, a.answer, a.ended, _, List.append_assoc .., hmade, ?_⟩
        exact (m.takes_resume ctx lock ttl wait deadline n).2
          ⟨a.closing, a, rfl, .inr ⟨hgo, _, rfl, ih.2 ⟨as, rfl, hrest⟩⟩⟩

/-- An acquisition that tries again until so many milliseconds are over, at most so often. -/
def acquireWithin (budget : Nat) : Program X (Except Failure Bool) :=
  .effect .clock fun now : Nat => (m.acquireUntil ctx lock ttl wait (now + budget) n).run

theorem acquireWithRetry_of_lt {budget : Nat} (h : maxRetryBudget < budget) :
    (m.acquireWithRetry (X := X) ctx lock ttl wait budget).run =
      .done (.error (.configuration (.retryBudget budget))) := by
  unfold acquireWithRetry
  rw [if_pos h]
  rfl

theorem acquireWithRetry_of_le {budget : Nat} (h : budget ≤ maxRetryBudget) :
    (m.acquireWithRetry (X := X) ctx lock ttl wait budget).run =
      m.acquireWithin ctx lock ttl wait (attemptLimit budget m.settings.pollInterval) budget := by
  unfold acquireWithRetry
  rw [if_neg (Nat.not_lt.2 h)]
  rfl

theorem takes_acquireWithin {budget t t' : Nat} {log : List Exchange} {r : Except Failure Bool} :
    (m.acquireWithin (X := X) ctx lock ttl wait n budget).Takes t log r t' ↔
      ∃ as, log = ⟨.clock, t⟩ ::
          as.flatMap (·.exchanges m.settings.pollInterval (t + budget)) ∧
        Retries X m ctx lock ttl wait (t + budget) n t as r t' := by
  simp only [acquireWithin, Program.takes_clock, takes_acquireUntil]
  constructor
  · rintro ⟨log', rfl, as, rfl, h⟩
    exact ⟨as, rfl, h⟩
  · rintro ⟨as, rfl, h⟩
    exact ⟨_, rfl, as, rfl, h⟩

end Manager

/-! ## How many attempts there are -/

/-- A pause takes one off the number of pauses that fit into what is left of the time. -/
theorem ceilDiv_pause {poll left : Nat} (hp : 1 ≤ poll) (hleft : 0 < left) :
    (left - poll) ⌈/⌉ poll + 1 = left ⌈/⌉ poll := by
  have hzero : ∀ ms < poll, ms / poll = 0 := fun ms hms => Nat.div_eq_of_lt hms
  rw [Nat.ceilDiv_eq_add_pred_div, Nat.ceilDiv_eq_add_pred_div, ← Nat.add_div_right _ hp]
  -- both sides are one if the pause lasts at least as long as what is left
  rcases Nat.le_total left poll with hle | hle
  · have hfirst : left - poll + poll - 1 + poll = poll - 1 + poll := by omega
    have hsecond : left + poll - 1 = left - 1 + poll := by omega
    rw [hfirst, hsecond, Nat.add_div_right _ hp, Nat.add_div_right _ hp, hzero _ (by omega),
      hzero _ (by omega)]
  · have hfirst : left - poll + poll - 1 + poll = left + poll - 1 := by omega
    rw [hfirst]

/-- After another attempt and its pause fewer pauses fit into the time until the deadline. -/
theorem Attempt.GoesOn.pauses_lt {a : Attempt} {poll deadline : Nat} (h : a.GoesOn deadline)
    (hp : 1 ≤ poll) (hle : a.began ≤ a.ended) :
    (deadline - (a.ended + poll)) ⌈/⌉ poll < (deadline - a.began) ⌈/⌉ poll := by
  have hpause := ceilDiv_pause hp (Nat.sub_pos_of_lt h.2.2)
  rw [Nat.sub_sub] at hpause
  have hmono := (gc_mul_ceilDiv hp).monotone_l (Nat.sub_le_sub_left hle deadline)
  exact Nat.lt_of_lt_of_le (hpause ▸ Nat.lt_succ_self _) hmono

theorem ceilDiv_lt_attemptLimit {poll budget : Nat} (hp : 1 ≤ poll) :
    budget ⌈/⌉ poll < Manager.attemptLimit budget poll := by
  have hle : budget ⌈/⌉ poll ≤ budget / poll + 1 := by
    rw [Nat.ceilDiv_eq_add_pred_div, ← Nat.add_div_right _ hp]
    exact Nat.div_le_div_right (by omega)
  rw [Manager.attemptLimit, Nat.max_eq_left hp]
  exact Nat.lt_succ_of_le hle

/-- Attempts that are made one after the other, the first one at a time. -/
structure InTurn (X : Extension) (m : Manager) (ctx : Context) (lock : String) (ttl wait t : Nat)
    (as : List Attempt) : Prop where
  /-- Each of them is an acquisition. -/
  made : ∀ a ∈ as, a.Made X m ctx lock ttl wait
  /-- The first one begins at the time. -/
  first : ∀ a ∈ as.head?, a.began = t
  /-- Every other one begins when the pause after the one before is over. -/
  spaced : as.IsChain fun a b => b.began = a.ended + m.settings.pollInterval

namespace Retries

variable {m : Manager} {ctx : Context} {lock : String} {ttl wait deadline n t t' : Nat}
  {as : List Attempt} {r : Except Failure Bool}

theorem inTurn (h : Retries X m ctx lock ttl wait deadline n t as r t') :
    InTurn X m ctx lock ttl wait t as := by
  induction h with
  | exhausted t => exact ⟨List.forall_mem_nil _, by simp, .nil⟩
  | last n ha hstop => exact ⟨by simpa using ha, by simp, .singleton _⟩
  | @again n a as r t ha hgo hrest ih =>
    refine ⟨List.forall_mem_cons.2 ⟨ha, ih.made⟩, by simp, ?_⟩
    exact List.isChain_cons.2 ⟨ih.first, ih.spaced⟩

/-- After all attempts but the last one others are made. -/
theorem goesOn (h : Retries X m ctx lock ttl wait deadline n t as r t') :
    ∀ a ∈ as.dropLast, a.GoesOn deadline := by
  induction h with
  | exhausted t => exact List.forall_mem_nil _
  | last n ha hstop => exact List.forall_mem_nil _
  | @again n a as r t ha hgo hrest ih =>
    cases as with
    | nil => exact List.forall_mem_nil _
    | cons b as => exact List.forall_mem_cons.2 ⟨hgo, ih⟩

/-- Not more attempts are made than pauses fit into the time until the deadline, and one. -/
theorem length_le (h : Retries X m ctx lock ttl wait deadline n t as r t')
    (hp : 1 ≤ m.settings.pollInterval) :
    as.length ≤ (deadline - t) ⌈/⌉ m.settings.pollInterval + 1 := by
  induction h with
  | exhausted t => exact Nat.zero_le _
  | last n ha hstop => exact Nat.le_add_left ..
  | @again n a as r t ha hgo hrest ih =>
    have hpause := hgo.pauses_lt hp ha.le
    rw [List.length_cons]
    omega

/-- If so many attempts may be made there is a last one, which decides. -/
theorem exists_last (h : Retries X m ctx lock ttl wait deadline n t as r t')
    (hp : 1 ≤ m.settings.pollInterval) (hn : (deadline - t) ⌈/⌉ m.settings.pollInterval < n) :
    ∃ init last, as = init ++ [last] ∧ ¬ last.GoesOn deadline ∧ r = last.answer ∧
      t' = last.ended := by
  induction h with
  | exhausted t => exact absurd hn (Nat.not_lt_zero _)
  | @last n a ha hstop => exact ⟨[], a, rfl, hstop, rfl, rfl⟩
  | @again n a as r t ha hgo hrest ih =>
    have hpause := hgo.pauses_lt hp ha.le
    obtain ⟨init, last, rfl, hlast⟩ := ih (by omega)
    exact ⟨a :: init, last, rfl, hlast⟩

/-- If the attempts take no time, and none of them succeeds or fails or finds the store closing, all
pauses are made that fit into the time until the deadline. -/
theorem ended_eq (h : Retries X m ctx lock ttl wait deadline n t as r t')
    (hp : 1 ≤ m.settings.pollInterval) (hn : (deadline - t) ⌈/⌉ m.settings.pollInterval < n)
    (has : ∀ a ∈ as, a.ended = a.began ∧ a.answer = .ok false ∧ a.closing = false) :
    r = .ok false ∧
      t' = t + m.settings.pollInterval * ((deadline - t) ⌈/⌉ m.settings.pollInterval) := by
  induction h with
  | exhausted t => exact absurd hn (Nat.not_lt_zero _)
  | @last n a ha hstop =>
    obtain ⟨hended, hanswer, hclosing⟩ := has a (List.mem_singleton_self a)
    have hover : deadline - a.began = 0 := by
      rw [← hended]
      exact Nat.sub_eq_zero_of_le (Nat.not_lt.1 fun hlt => hstop ⟨hanswer, hclosing, hlt⟩)
    rw [hover, zero_ceilDiv, Nat.mul_zero, Nat.add_zero]
    exact ⟨hanswer, hended⟩
  | @again n a as r t ha hgo hrest ih =>
    obtain ⟨hfirst, has⟩ := List.forall_mem_cons.1 has
    -- the attempt took no time, so the pause is all that is missing
    have hpause := ceilDiv_pause hp (Nat.sub_pos_of_lt hgo.2.2)
    rw [Nat.sub_sub, hfirst.1] at hpause
    rw [hfirst.1] at ih
    obtain ⟨hr, ht⟩ := ih (by omega) has
    refine ⟨hr, ht.trans ?_⟩
    rw [← hpause, Nat.mul_succ]
    omega

end Retries

/-! ## The budget -/

/-- The exchanges of an acquisition that tries again for so many milliseconds, from a time on, and
its attempts. -/
structure Tries (X : Extension) (m : Manager) (ctx : Context) (lock : String)
    (ttl wait budget t : Nat) (as : List Attempt) (log : List Exchange) : Prop where
  /-- It has looked at the clock and made the attempts. -/
  log_eq : log = ⟨.clock, t⟩ ::
    as.flatMap (·.exchanges m.settings.pollInterval (t + budget))
  /-- Each attempt but the first one began when the pause after the one before was over. -/
  inTurn : InTurn X m ctx lock ttl wait t as

/-- What an acquisition that tries again has done when it has come to an end. -/
structure Tried (X : Extension) (m : Manager) (ctx : Context) (lock : String)
    (ttl wait budget t : Nat) (init : List Attempt) (last : Attempt) (log : List Exchange)
    (r : Except Failure Bool) (t' : Nat) : Prop where
  /-- It has made these attempts. -/
  tries : Tries X m ctx lock ttl wait budget t (init ++ [last]) log
  /-- There are not more of them than pauses fit into the budget, and one. -/
  length_le : (init ++ [last]).length ≤ budget ⌈/⌉ m.settings.pollInterval + 1
  /-- All but the last one answered false, and ended in time and with the store open. -/
  goesOn : ∀ a ∈ init, a.GoesOn (t + budget)
  /-- The answer is that of the last one. -/
  answer_eq : r = last.answer
  /-- It is given at once. -/
  ended_eq : t' = last.ended
  /-- It is false only if the store was closing or the budget used up. -/
  used_up : r = .ok false → last.closing = true ∨ t + budget ≤ last.ended
  /-- If the attempts took no time, and none of them succeeded or failed or found the store closing,
  it is false, and was given when all pauses were over that fit into the budget. -/
  idle : (∀ a ∈ init ++ [last], a.ended = a.began ∧ a.answer = .ok false ∧ a.closing = false) →
    r = .ok false ∧
      t' = t + m.settings.pollInterval * (budget ⌈/⌉ m.settings.pollInterval)

theorem Manager.acquireWithRetry_tried {m : Manager} {ctx : Context} {lock : String}
    {ttl wait budget t t' : Nat} {log : List Exchange} {r : Except Failure Bool}
    (hp : 1 ≤ m.settings.pollInterval) (hb : budget ≤ maxRetryBudget)
    (h : (m.acquireWithRetry (X := X) ctx lock ttl wait budget).run.Takes t log r t') :
    ∃ init last, Tried X m ctx lock ttl wait budget t init last log r t' := by
  rw [m.acquireWithRetry_of_le ctx lock ttl wait hb, takes_acquireWithin] at h
  obtain ⟨as, rfl, h⟩ := h
  have hleft : t + budget - t = budget := Nat.add_sub_cancel_left t budget
  have hn : (t + budget - t) ⌈/⌉ m.settings.pollInterval <
      Manager.attemptLimit budget m.settings.pollInterval := by
    rw [hleft]
    exact ceilDiv_lt_attemptLimit hp
  obtain ⟨init, last, rfl, hstop, hanswer, hended⟩ := h.exists_last hp hn
  have hlength := h.length_le hp
  have hidle := h.ended_eq hp hn
  rw [hleft] at hlength hidle
  refine ⟨init, last, ⟨rfl, h.inTurn⟩, hlength, ?_, hanswer, hended, fun hfalse => ?_, hidle⟩
  · have hgo := h.goesOn
    rwa [List.dropLast_concat] at hgo
  · by_contra hnot
    rw [not_or, Bool.not_eq_true, Nat.not_le] at hnot
    exact hstop ⟨hanswer ▸ hfalse, hnot.1, hnot.2⟩

/-- An acquisition that tries again fails at once if its budget is above the ceiling. Otherwise,
whatever the attempts do and however long they take, it comes to an end, and has then made a limited
number of attempts, each after a pause. The last one decides the answer: it is the first that does
not answer false, or the first at whose end the store is closing or the budget used up. -/
theorem retries_end_in_time (m : Manager) (ctx : Context) (lock : String) (ttl wait budget : Nat)
    (hear : (op : X.Op) → X.Reply op) (hp : 1 ≤ m.settings.pollInterval) :
    (maxRetryBudget < budget → (m.acquireWithRetry (X := X) ctx lock ttl wait budget).run =
      .done (.error (.configuration (.retryBudget budget)))) ∧
    (budget ≤ maxRetryBudget →
      (∀ log p t t', (m.acquireWithRetry (X := X) ctx lock ttl wait budget).run.After log p →
        timing.Leads t log t' → ∃ log' r t'', p.Takes t' log' r t'') ∧
      ∀ log r t t', (m.acquireWithRetry (X := X) ctx lock ttl wait budget).run.Takes t log r t' →
        ∃ init last, Tried X m ctx lock ttl wait budget t init last log r t') := by
  refine ⟨m.acquireWithRetry_of_lt ctx lock ttl wait, fun hb => ⟨?_, ?_⟩⟩
  · intro log p t t' _ _
    obtain ⟨log', r, t'', hafter, hleads⟩ := Environment.ends exists_timing_answers hear p t'
    exact ⟨log', r, t'', hafter, hleads⟩
  · exact fun log r t t' h => Manager.acquireWithRetry_tried hp hb h

/-- A world performs an effect in its time. -/
theorem timing_perform (w : World) (e : Effect) :
    timing.Leads w.now [⟨e, (w.perform e).2⟩] (w.perform e).1.now := by
  refine .exchange ?_ (.done _)
  cases e with
  | clock => exact ⟨rfl, rfl⟩
  | closing => exact rfl
  | sleep ms =>
    show (w.perform (.sleep ms)).1.now = w.now + ms
    rw [w.perform_sleep]
    rfl
  | _ => exact w.now_le_perform _

theorem Program.takes_solo (p : Program .none α) (w : World) :
    p.Takes w.now (p.soloExchanges w) (p.runOn w).2 (p.runOn w).1.now :=
  ⟨p.after_solo w, Environment.leads_solo timing_perform p w⟩

/-- A context whose hold has lapsed is refused, and tries again until its budget is used up, which
takes three pauses. -/
theorem retries_end_in_time_lapsed :
    1 ≤ ({} : Manager).settings.pollInterval ∧ ∃ init last log,
      Tried .none {} "a" "L" 20 0 12 20 init last log (.ok false) 35 ∧ init.length ≤ 3 ∧
      last.ended = 35 := by
  have hp : 1 ≤ ({} : Manager).settings.pollInterval := by decide
  let p := (({} : Manager).acquireWithRetry (X := .none) "a" "L" 20 0 12).run
  have htakes := p.takes_solo World.lapsed
  have hfalse : (p.runOn World.lapsed).2 = .ok false := eq_ok_of_toOption (by decide +kernel)
  have hnow : World.lapsed.now = 20 := by decide +kernel
  have hend : (p.runOn World.lapsed).1.now = 35 := by decide +kernel
  rw [hfalse, hnow, hend] at htakes
  obtain ⟨-, hin⟩ := retries_end_in_time (X := .none) {} "a" "L" 20 0 12 nofun hp
  obtain ⟨init, last, htried⟩ := (hin (by decide)).2 _ _ _ _ htakes
  refine ⟨hp, init, last, _, htried, ?_, htried.ended_eq.symm⟩
  have hlength := htried.length_le
  rw [List.length_append, List.length_singleton] at hlength
  exact Nat.le_of_succ_le_succ hlength

end Latchkey
