import Latchkey.Proofs.FreeLock

/-!
# Programs in an environment

An environment answers the effects of a program, and its state may change between them for other
reasons. It is a relation: calls may fail, take their time, or reply anything.

What a program has come to in an environment is told by its log. The log says which effects were
performed and what they replied, and the environment which states such a log leads to.

The main statements are `Environment.Leads.keeps`, that what each exchange of a log keeps is kept,
and `Environment.leads_solo`, that a program that is run by itself is in every environment that
answers as a world does.
-/

namespace Latchkey

variable {X : Extension} {α σ τ : Type}

/-- What answers the effects of a program, and what else may happen. -/
structure Environment (σ : Type) where
  /-- An effect may lead from a state to another one with a reply. -/
  answers : σ → (e : Effect) → σ → e.Reply → Prop
  /-- Others may change the state while the program performs no effect. -/
  others : σ → σ → Prop

namespace Environment

variable {E : Environment σ} {s s₁ s' : σ} {log log' : List Exchange}

/-- Exchanges lead from a state to another one, while others are at work between them. -/
inductive Leads (E : Environment σ) : σ → List Exchange → σ → Prop where
  /-- There are no more exchanges. -/
  | done (s : σ) : Leads E s [] s
  /-- Others change the state. -/
  | others {s s₁ s' : σ} {log : List Exchange} (h : E.others s s₁) (hrest : Leads E s₁ log s') :
      Leads E s log s'
  /-- An effect is answered. -/
  | exchange {s s₁ s' : σ} {e : Effect} {r : e.Reply} {log : List Exchange}
      (h : E.answers s e s₁ r) (hrest : Leads E s₁ log s') : Leads E s (⟨e, r⟩ :: log) s'

/-- Others leave a part of the state alone. -/
def Spares (E : Environment σ) (f : σ → τ) : Prop := ∀ s s', E.others s s' → f s' = f s

/-- Others do not end what holds. -/
def Keeps (E : Environment σ) (P : σ → Prop) : Prop := ∀ s s', E.others s s' → P s → P s'

/-- There are no others. -/
def Idle (E : Environment σ) : Prop := ∀ s s', ¬ E.others s s'

theorem Idle.spares (h : E.Idle) (f : σ → τ) : E.Spares f := fun s s' ho => absurd ho (h s s')

theorem Spares.keeps {f : σ → τ} (h : E.Spares f) (Q : τ → Prop) : E.Keeps fun s => Q (f s) := by
  intro s s' ho hQ
  rw [h s s' ho]
  exact hQ

/-- Exchanges that leave a state as it is lead back to it. -/
theorem leads_self (h : ∀ x ∈ log, E.answers s x.effect s x.reply) : E.Leads s log s := by
  induction log with
  | nil => exact .done s
  | cons x log ih =>
    obtain ⟨hx, hlog⟩ := List.forall_mem_cons.1 h
    exact .exchange hx (ih hlog)

namespace Leads

theorem trans (h : E.Leads s log s₁) (h' : E.Leads s₁ log' s') : E.Leads s (log ++ log') s' := by
  induction h with
  | done s => exact h'
  | others ho _ ih => exact .others ho (ih h')
  | exchange ha _ ih => exact .exchange ha (ih h')

/-- The first exchange of a log is answered once others have done what they do. -/
theorem of_cons {x : Exchange} (h : E.Leads s (x :: log) s') :
    ∃ s₁ s₂, E.Leads s [] s₁ ∧ E.answers s₁ x.effect s₂ x.reply ∧ E.Leads s₂ log s' := by
  generalize hall : x :: log = all at h
  induction h with
  | done s => cases hall
  | others ho _ ih =>
    obtain ⟨s₁, s₂, hidle, ha, hrest⟩ := ih hall
    exact ⟨s₁, s₂, .others ho hidle, ha, hrest⟩
  | exchange ha hrest _ =>
    cases hall
    exact ⟨_, _, .done _, ha, hrest⟩

/-- A log leads through a state between any two of its parts. -/
theorem split (h : E.Leads s (log ++ log') s') :
    ∃ s₁, E.Leads s log s₁ ∧ E.Leads s₁ log' s' := by
  induction log generalizing s with
  | nil => exact ⟨s, .done s, h⟩
  | cons x log ih =>
    obtain ⟨s₁, s₂, hidle, ha, hrest⟩ := h.of_cons
    obtain ⟨s₃, hlog, hlog'⟩ := ih hrest
    exact ⟨s₃, hidle.trans (.exchange ha hlog), hlog'⟩

/-- Where an exchange stands in a log it is answered in a state to which those before it lead. -/
theorem split_at {x : Exchange} (h : E.Leads s (log ++ x :: log') s') :
    ∃ s₁ s₂, E.Leads s log s₁ ∧ E.answers s₁ x.effect s₂ x.reply ∧ E.Leads s₂ log' s' := by
  obtain ⟨s₀, hlog, hrest⟩ := h.split
  obtain ⟨s₁, s₂, hidle, ha, hlog'⟩ := hrest.of_cons
  have hbefore := hlog.trans hidle
  rw [List.append_nil] at hbefore
  exact ⟨s₁, s₂, hbefore, ha, hlog'⟩

/-- What neither the exchanges of a log nor others end holds on. -/
theorem keeps {P : σ → Prop} (h : E.Leads s log s') (hothers : E.Keeps P)
    (hlog : ∀ x ∈ log, ∀ s s', E.answers s x.effect s' x.reply → P s → P s') (hs : P s) : P s' := by
  induction h with
  | done s => exact hs
  | others ho _ ih => exact ih hlog (hothers _ _ ho hs)
  | exchange ha _ ih =>
    obtain ⟨hfirst, hrest⟩ := List.forall_mem_cons.1 hlog
    exact ih hrest (hfirst _ _ ha hs)

/-- What neither the exchanges of a log nor others change stays the same. -/
theorem eq_of_spares {f : σ → τ} (h : E.Leads s log s') (hothers : E.Spares f)
    (hlog : ∀ x ∈ log, ∀ s s', E.answers s x.effect s' x.reply → f s' = f s) : f s' = f s :=
  h.keeps (hothers.keeps (· = f s)) (fun x hx s₁ s₂ ha => (hlog x hx s₁ s₂ ha).trans) rfl

/-- Without exchanges only others change the state. -/
theorem eq_of_nil {f : σ → τ} (h : E.Leads s [] s') (hothers : E.Spares f) : f s' = f s :=
  h.eq_of_spares hothers fun _ hx => absurd hx List.not_mem_nil

end Leads

/-! ## Programs -/

/-- Where every effect is answered somehow, every program comes to an end. -/
theorem ends (hanswers : ∀ s e, ∃ s' r, E.answers s e s' r) (hear : (op : X.Op) → X.Reply op)
    (p : Program X α) (s : σ) : ∃ log a s', p.After log (.done a) ∧ E.Leads s log s' := by
  induction p generalizing s with
  | done a => exact ⟨[], a, s, .start, .done s⟩
  | effect e next ih =>
    obtain ⟨s₁, r, ha⟩ := hanswers s e
    obtain ⟨log, a, s', hafter, hleads⟩ := ih r s₁
    exact ⟨⟨e, r⟩ :: log, a, s', hafter.cons, .exchange ha hleads⟩
  | extended op next ih =>
    obtain ⟨log, a, s', hafter, hleads⟩ := ih (hear op) s
    have hfirst : (Program.extended op next).After [] (next (hear op)) := .extended .start _
    exact ⟨log, a, s', hfirst.trans hafter, hleads⟩

end Environment

theorem eq_ok_of_toOption {ε : Type} {r : Except ε α} {a : α} (h : r.toOption = some a) :
    r = .ok a := by
  cases r with
  | error e => cases h
  | ok b => exact congrArg Except.ok (Option.some.inj h)

/-- A program that is run by itself comes to its result after the exchanges it then has. -/
theorem Program.after_solo (p : Program .none α) (w : World) :
    p.After (p.soloExchanges w) (.done (p.runOn w).2) := by
  induction p generalizing w with
  | done a => exact .start
  | effect e next ih => exact (ih (w.perform e).2 (w.perform e).1).cons
  | extended op next ih => exact op.elim

/-- The exchanges of a program that is run by itself lead where the world gets to, in an environment
that sees a part of the world and answers as the world does. -/
theorem Environment.leads_solo {E : Environment σ} {f : World → σ}
    (hf : ∀ w e, E.Leads (f w) [⟨e, (w.perform e).2⟩] (f (w.perform e).1)) (p : Program .none α)
    (w : World) : E.Leads (f w) (p.soloExchanges w) (f (p.runOn w).1) := by
  induction p generalizing w with
  | done a => exact .done (f w)
  | effect e next ih => exact (hf w e).trans (ih (w.perform e).2 (w.perform e).1)
  | extended op next ih => exact op.elim

end Latchkey
