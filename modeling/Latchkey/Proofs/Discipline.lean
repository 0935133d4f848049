import Latchkey.Proofs.Ensures

/-!
# Disciplines of programs

A discipline is an automaton that watches the effects of a program: in each state it permits some
effects, and the exchange of an effect for its reply leads to another state. A program *obeys* it if
it performs permitted effects only, whatever the replies are, and ends as required.

The main statement is that what is left of an obedient program after some exchanges is obedient in
the state that the exchanges lead to.
-/

namespace Latchkey

/-- An effect that was performed, with its reply. -/
structure Exchange where
  /-- The effect. -/
  effect : Effect
  /-- What it replied. -/
  reply : effect.Reply

/-- An automaton over exchanges. -/
structure Discipline (σ : Type) where
  /-- The effects permitted in a state. -/
  permits : σ → Effect → Prop
  /-- The state after an exchange. -/
  next : σ → Exchange → σ

namespace Discipline

variable {σ : Type} (D : Discipline σ)

/-- The state after several exchanges. -/
def run (s : σ) (log : List Exchange) : σ := log.foldl D.next s

@[simp] theorem run_nil (s : σ) : D.run s [] = s := rfl

@[simp] theorem run_concat (s : σ) (log : List Exchange) (x : Exchange) :
    D.run s (log ++ [x]) = D.next (D.run s log) x := by
  simp [run]

theorem run_append (s : σ) (log log' : List Exchange) :
    D.run s (log ++ log') = D.run (D.run s log) log' :=
  List.foldl_append

/-- The automaton that remembers all exchanges. -/
def ofLog (permits : List Exchange → Effect → Prop) : Discipline (List Exchange) where
  permits := permits
  next log x := log ++ [x]

theorem ofLog_run (permits : List Exchange → Effect → Prop) (log log' : List Exchange) :
    (ofLog permits).run log log' = log ++ log' := by
  induction log' generalizing log with
  | nil => exact (List.append_nil log).symm
  | cons x log' ih => exact (ih (log ++ [x])).trans (by simp)

/-- A permitted effect may get any reply. -/
def interpretation : Interpretation σ where
  before s e Q := D.permits s e ∧ ∀ r, Q (D.next s ⟨e, r⟩) r
  outside := True
  mono h hQ := ⟨h.1, fun r => hQ _ _ (h.2 r)⟩

@[simp] theorem interpretation_before (s : σ) (e : Effect) (Q : σ → e.Reply → Prop) :
    D.interpretation.before s e Q ↔ D.permits s e ∧ ∀ r, Q (D.next s ⟨e, r⟩) r := Iff.rfl

end Discipline

namespace Program

variable {X : Extension} {α β σ : Type} {D : Discipline σ} {s : σ}

/-- From a state the program performs permitted effects only, and ends in a state and with a result
as required. -/
abbrev Obeys (D : Discipline σ) (s : σ) (p : Program X α) (Q : σ → α → Prop) : Prop :=
  p.Ensures D.interpretation s Q

/-- What may be left of a program after some exchanges. -/
inductive After (p : Program X α) : List Exchange → Program X α → Prop where
  /-- All of it. -/
  | start : After p [] p
  /-- The first effect left has got its reply. -/
  | effect {log : List Exchange} {e : Effect} {next : e.Reply → Program X α}
      (h : After p log (.effect e next)) (r : e.Reply) : After p (log ++ [⟨e, r⟩]) (next r)
  /-- The first operation left has got its reply. -/
  | extended {log : List Exchange} {op : X.Op} {next : X.Reply op → Program X α}
      (h : After p log (.extended op next)) (r : X.Reply op) : After p log (next r)

/-- What may be left of what follows the first effect may be left of the program. -/
theorem After.cons {e : Effect} {next : e.Reply → Program X α} {r : e.Reply} {p' : Program X α}
    {log : List Exchange} (h : (next r).After log p') :
    (Program.effect e next).After (⟨e, r⟩ :: log) p' := by
  induction h with
  | start => exact After.start.effect r
  | effect _ r' ih => exact ih.effect r'
  | extended _ r' ih => exact ih.extended r'

theorem After.trans {p p' p'' : Program X α} {log log' : List Exchange} (h : p.After log p')
    (h' : p'.After log' p'') : p.After (log ++ log') p'' := by
  induction h' with
  | start => rwa [List.append_nil]
  | effect _ r ih =>
    rw [← List.append_assoc]
    exact ih.effect r
  | extended _ r ih => exact ih.extended r

theorem After.bind_left {p p' : Program X α} {log : List Exchange} (h : p.After log p')
    (f : α → Program X β) : (p >>= f).After log (p' >>= f) := by
  induction h with
  | start => exact .start
  | effect _ r ih => exact ih.effect r
  | extended _ r ih => exact ih.extended r

theorem After.bind {p : Program X α} {f : α → Program X β} {q : Program X β} {a : α}
    {log log' : List Exchange} (h : p.After log (.done a)) (h' : (f a).After log' q) :
    (p >>= f).After (log ++ log') q :=
  (h.bind_left f).trans h'

/-- Nothing follows the end of a program. -/
theorem After.of_done {a : α} {p : Program X α} {log : List Exchange}
    (h : (Program.done a).After log p) : log = [] ∧ p = .done a := by
  induction h with
  | start => exact ⟨rfl, rfl⟩
  | effect _ _ ih => exact nomatch ih.2
  | extended _ _ ih => exact nomatch ih.2

/-- The first exchange of a program is that of its first effect. -/
theorem After.of_effect {e : Effect} {next : e.Reply → Program X α} {p : Program X α}
    {log : List Exchange} (h : (Program.effect e next).After log p) :
    log = [] ∧ p = .effect e next ∨
      ∃ r log', log = ⟨e, r⟩ :: log' ∧ (next r).After log' p := by
  induction h with
  | start => exact .inl ⟨rfl, rfl⟩
  | effect h r ih =>
    rcases ih with ⟨rfl, heq⟩ | ⟨r', log', rfl, h'⟩
    · cases heq
      exact .inr ⟨r, [], rfl, .start⟩
    · exact .inr ⟨r', _, rfl, h'.effect r⟩
  | extended h r ih =>
    rcases ih with ⟨-, heq⟩ | ⟨r', log', rfl, h'⟩
    · cases heq
    · exact .inr ⟨r', log', rfl, h'.extended r⟩

/-- What is left of one program followed by another is in the first or in the second. -/
theorem After.of_bind {p : Program X α} {f : α → Program X β} {q : Program X β}
    {log : List Exchange} (h : (p >>= f).After log q) :
    (∃ p', p.After log p' ∧ q = p' >>= f) ∨
      ∃ log₁ log₂ a, log = log₁ ++ log₂ ∧ p.After log₁ (.done a) ∧ (f a).After log₂ q := by
  induction h with
  | start => exact .inl ⟨p, .start, rfl⟩
  | @effect log e next h r ih =>
    rcases ih with ⟨p', hp, heq⟩ | ⟨log₁, log₂, a, rfl, hp, hf⟩
    · cases p' with
      | done a =>
        have hfirst : (f a).After [] (.effect e next) := heq ▸ .start
        exact .inr ⟨log, [⟨e, r⟩], a, rfl, hp, hfirst.effect r⟩
      | effect e' next' =>
        cases heq
        exact .inl ⟨next' r, hp.effect r, rfl⟩
      | extended op next' => cases heq
    · exact .inr ⟨log₁, log₂ ++ [⟨e, r⟩], a, by simp, hp, hf.effect r⟩
  | @extended log op next h r ih =>
    rcases ih with ⟨p', hp, heq⟩ | ⟨log₁, log₂, a, rfl, hp, hf⟩
    · cases p' with
      | done a =>
        have hfirst : (f a).After [] (.extended op next) := heq ▸ .start
        exact .inr ⟨log, [], a, by simp, hp, hfirst.extended r⟩
      | effect e next' => cases heq
      | extended op' next' =>
        cases heq
        exact .inl ⟨next' r, hp.extended r, rfl⟩
    · exact .inr ⟨log₁, log₂, a, rfl, hp, hf.extended r⟩

/-- A program followed by another one ends in what the second ends in. -/
theorem After.of_bind_done {p : Program X α} {f : α → Program X β} {b : β} {log : List Exchange}
    (h : (p >>= f).After log (.done b)) :
    ∃ log₁ log₂ a, log = log₁ ++ log₂ ∧ p.After log₁ (.done a) ∧ (f a).After log₂ (.done b) := by
  rcases h.of_bind with ⟨p', hp, heq⟩ | h
  · cases p' with
    | done a => exact ⟨log, [], a, by simp, hp, heq ▸ .start⟩
    | effect e next => cases heq
    | extended op next => cases heq
  · exact h

/-- Where an exchange stands in the log its effect was the first one left. -/
theorem After.split {p p' : Program X α} {x : Exchange} {log log' : List Exchange}
    (h : p.After (log ++ x :: log') p') :
    ∃ next : x.effect.Reply → Program X α,
      p.After log (.effect x.effect next) ∧ (next x.reply).After log' p' := by
  generalize hall : log ++ x :: log' = all at h
  induction h generalizing log' with
  | start => simp at hall
  | @effect init e next h r ih =>
    rcases List.eq_nil_or_concat log' with rfl | ⟨rest, y, rfl⟩
    · obtain ⟨rfl, hx⟩ := List.append_inj' hall rfl
      cases hx
      exact ⟨next, h, .start⟩
    · rw [List.concat_eq_append, ← List.cons_append, ← List.append_assoc] at hall
      obtain ⟨hinit, hy⟩ := List.append_inj' hall rfl
      cases hy
      obtain ⟨next', hbefore, hafter⟩ := ih hinit
      exact ⟨next', hbefore, by simpa using hafter.effect r⟩
  | extended _ r ih =>
    obtain ⟨next', hbefore, hafter⟩ := ih hall
    exact ⟨next', hbefore, hafter.extended r⟩

/-- What is left of an obedient program is obedient. -/
theorem Obeys.after {Q : σ → α → Prop} {p p' : Program X α} {log : List Exchange}
    (h : p.Obeys D s Q) (ha : p.After log p') : p'.Obeys D (D.run s log) Q := by
  induction ha with
  | start => exact h
  | effect _ r ih =>
    rw [Discipline.run_concat]
    exact ih.2 r
  | extended _ r ih => exact ih.2 r

/-- Each effect of an obedient program is permitted when it is performed. -/
theorem Obeys.permits {Q : σ → α → Prop} {p : Program X α} {log : List Exchange} {e : Effect}
    {next : e.Reply → Program X α} (h : p.Obeys D s Q) (ha : p.After log (.effect e next)) :
    D.permits (D.run s log) e :=
  (h.after ha).1

/-- An obedient program ends as required. -/
theorem Obeys.final {Q : σ → α → Prop} {p : Program X α} {log : List Exchange} {a : α}
    (h : p.Obeys D s Q) (ha : p.After log (.done a)) : Q (D.run s log) a :=
  h.after ha

/-- The replies of a log are given by a way to reply, which may depend on what happened before. -/
def RepliesBy (reply : List Exchange → (e : Effect) → e.Reply) (log : List Exchange) : Prop :=
  ∀ before x after, log = before ++ x :: after → x.reply = reply before x.effect

theorem RepliesBy.concat {reply : List Exchange → (e : Effect) → e.Reply} {log : List Exchange}
    (h : RepliesBy reply log) (e : Effect) : RepliesBy reply (log ++ [⟨e, reply log e⟩]) := by
  intro before x after heq
  rcases List.eq_nil_or_concat after with rfl | ⟨after, y, rfl⟩
  · obtain ⟨rfl, hx⟩ := List.append_inj' heq rfl
    cases hx
    rfl
  · rw [List.concat_eq_append, ← List.cons_append, ← List.append_assoc] at heq
    exact h before x after (List.append_inj' heq rfl).1

/-- However its effects are replied to, a program ends. -/
theorem After.ends {p p' : Program X α} {log : List Exchange} (ha : p.After log p')
    {reply : List Exchange → (e : Effect) → e.Reply} (hr : RepliesBy reply log)
    (hear : (op : X.Op) → X.Reply op) :
    ∃ log' a, p.After log' (.done a) ∧ RepliesBy reply log' := by
  -- programs are well-founded: each reply leads to a smaller one
  induction p' generalizing log with
  | done a => exact ⟨log, a, ha, hr⟩
  | effect e next ih => exact ih _ (ha.effect (reply log e)) (hr.concat e)
  | extended op next ih => exact ih _ (ha.extended (hear op)) hr

end Program

end Latchkey
