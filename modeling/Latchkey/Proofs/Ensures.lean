import Latchkey.Program.Basic

/-!
# What programs ensure

What a program ensures depends on how its effects are answered. An *interpretation* says, of a state
and an effect, what has to hold for a condition on the state and the reply to hold afterwards; the
condition for a whole program is found by going through it.

The main statements are the rules for composed programs and actions.
-/

namespace Latchkey

/-- A way to answer effects, by what has to hold before for a condition to hold afterwards. -/
structure Interpretation (σ : Type) where
  /-- What has to hold before an effect. -/
  before : σ → (e : Effect) → (σ → e.Reply → Prop) → Prop
  /-- Whether operations of the extension may be performed. -/
  outside : Prop
  /-- Less has to hold before for a weaker condition. -/
  mono : ∀ {s e Q Q'}, before s e Q → (∀ s' r, Q s' r → Q' s' r) → before s e Q'

namespace Program

variable {X : Extension} {α β σ : Type} {I : Interpretation σ} {s : σ}

/-! ## Programs -/

/-- From a state the program ends in a state and with a result as required; operations of the
extension may reply anything and leave the state alone. -/
def Ensures (I : Interpretation σ) (s : σ) (p : Program X α) (Q : σ → α → Prop) : Prop :=
  match p with
  | .done a => Q s a
  | .effect e next => I.before s e fun s' r => Ensures I s' (next r) Q
  | .extended _ next => I.outside ∧ ∀ r, Ensures I s (next r) Q

@[simp] theorem ensures_pure {Q : σ → α → Prop} {a : α} :
    (pure a : Program X α).Ensures I s Q ↔ Q s a := Iff.rfl

@[simp] theorem ensures_effect {Q : σ → α → Prop} {e : Effect} {next : e.Reply → Program X α} :
    (effect e next).Ensures I s Q ↔ I.before s e fun s' r => (next r).Ensures I s' Q := Iff.rfl

@[simp] theorem ensures_perform {e : Effect} {Q : σ → e.Reply → Prop} :
    @Ensures X (no_index e.Reply) σ I s (@perform X e) Q ↔ I.before s e Q := Iff.rfl

/-- A program followed by another one. -/
@[simp] theorem ensures_bind {Q : σ → β → Prop} {p : Program X α} {f : α → Program X β} :
    (p >>= f).Ensures I s Q ↔ p.Ensures I s fun s' a => (f a).Ensures I s' Q := by
  induction p generalizing s with
  | done a => rfl
  | effect e next ih => simp only [effect_bind, ensures_effect, ih]
  | extended op next ih => exact and_congr_right fun _ => forall_congr' fun r => ih r

@[simp] theorem ensures_map {Q : σ → β → Prop} {p : Program X α} {f : α → β} :
    (f <$> p).Ensures I s Q ↔ p.Ensures I s fun s' a => Q s' (f a) := by
  rw [map_eq_pure_bind, ensures_bind]
  rfl

theorem Ensures.mono {Q Q' : σ → α → Prop} {p : Program X α} (h : p.Ensures I s Q)
    (hQ : ∀ s' a, Q s' a → Q' s' a) : p.Ensures I s Q' := by
  induction p generalizing s with
  | done a => exact hQ s a h
  | effect e next ih => exact I.mono h fun s' r hr => ih r hr
  | extended op next ih => exact ⟨h.1, fun r => ih r (h.2 r)⟩

end Program

/-! ## Actions -/

/-- What holds for all replies holds for errors and for values. -/
theorem forall_except {ε α : Type} {p : Except ε α → Prop} :
    (∀ r, p r) ↔ (∀ e, p (.error e)) ∧ ∀ a, p (.ok a) :=
  ⟨fun h => ⟨fun _ => h _, fun _ => h _⟩, fun h r => by
    cases r with
    | error e => exact h.1 e
    | ok a => exact h.2 a⟩

namespace Action

variable {X : Extension} {ε α β σ : Type} {I : Interpretation σ} {s : σ}

/-- What the first part of an action has to ensure: a value satisfies `P`, an error ends it. -/
def thenOk (Q : σ → Except ε β → Prop) (P : σ → α → Prop) : σ → Except ε α → Prop
  | s, .ok a => P s a
  | s, .error e => Q s (.error e)

@[simp] theorem thenOk_ok {Q : σ → Except ε β → Prop} {P : σ → α → Prop} {a : α} :
    thenOk Q P s (.ok a) ↔ P s a := Iff.rfl

@[simp] theorem thenOk_error {Q : σ → Except ε β → Prop} {P : σ → α → Prop} {e : ε} :
    thenOk Q P s (.error e) ↔ Q s (.error e) := Iff.rfl

/-- One action after the other. -/
@[simp] theorem ensures_bind {Q : σ → Except ε β → Prop} {x : Action X ε α}
    {f : α → Action X ε β} :
    (x >>= f).run.Ensures I s Q ↔
      x.run.Ensures I s (thenOk Q fun s' a => (f a).run.Ensures I s' Q) := by
  have hrun : (x >>= f).run = x.run >>= ExceptT.bindCont f := rfl
  have hpost : ∀ s' r, (ExceptT.bindCont f r : Program X (Except ε β)).Ensures I s' Q ↔
      thenOk Q (fun s' a => (f a).run.Ensures I s' Q) s' r := by
    intro s' r
    cases r <;> rfl
  rw [hrun, Program.ensures_bind]
  simp only [hpost]

@[simp] theorem ensures_pure {Q : σ → Except ε α → Prop} {a : α} :
    (pure a : Action X ε α).run.Ensures I s Q ↔ Q s (.ok a) := Iff.rfl

@[simp] theorem ensures_perform {e : Effect} {Q : σ → Except ε e.Reply → Prop} :
    @Program.Ensures X (no_index (Except ε e.Reply)) σ I s
        (@ExceptT.run ε (Program X) (no_index e.Reply) (perform e)) Q ↔
      I.before s e fun s' r => Q s' (.ok r) := Iff.rfl

@[simp] theorem ensures_lift {p : Program X α} {Q : σ → Except ε α → Prop} :
    (ExceptT.lift p : Action X ε α).run.Ensures I s Q ↔ p.Ensures I s fun s' a => Q s' (.ok a) := by
  exact Program.ensures_map

@[simp] theorem ensures_call {c : StoreCall} {Q : σ → Except StoreError c.Answer → Prop} :
    @Program.Ensures X (no_index (Except StoreError c.Answer)) σ I s
        (@ExceptT.run StoreError (Program X) (no_index c.Answer) (call c)) Q ↔
      I.before s (.call c) Q := Iff.rfl

@[simp] theorem ensures_send {conn : Connection} {cmd : Command}
    {Q : σ → Except StoreError cmd.Answer → Prop} :
    @Program.Ensures X (no_index (Except StoreError cmd.Answer)) σ I s
        (@ExceptT.run StoreError (Program X) (no_index cmd.Answer) (send conn cmd)) Q ↔
      I.before s (.call (.command conn cmd)) Q := Iff.rfl

@[simp] theorem ensures_registry {m : ManagerId} {a : RegistryAccess}
    {Q : σ → Except ε a.Answer → Prop} :
    @Program.Ensures X (no_index (Except ε a.Answer)) σ I s
        (@ExceptT.run ε (Program X) (no_index a.Answer) (registry m a)) Q ↔
      I.before s (.registry m a) fun s' r => Q s' (.ok r) := Iff.rfl

@[simp] theorem mapError_ok {ε' : Type} (f : ε → ε') (a : α) :
    (Except.ok a : Except ε α).mapError f = .ok a := rfl

@[simp] theorem mapError_error {ε' : Type} (f : ε → ε') (e : ε) :
    (Except.error e : Except ε α).mapError f = .error (f e) := rfl

@[simp] theorem ensures_orFail {x : Action X StoreError α} {Q : σ → Except Failure α → Prop} :
    x.orFail.run.Ensures I s Q ↔
      x.run.Ensures I s fun s' r => Q s' (r.mapError Failure.ofStore) := by
  exact Program.ensures_map

/-- The use of a connection: it is given back however the use ends. -/
@[simp] theorem ensures_withConnection {borrow : Action X StoreError Connection}
    {use : Connection → Action X StoreError α} {Q : σ → Except StoreError α → Prop} :
    (withConnection borrow use).run.Ensures I s Q ↔
      borrow.run.Ensures I s (thenOk Q fun s' conn => (use conn).run.Ensures I s' fun s'' r =>
        I.before s'' (.release conn) fun s''' _ => Q s''' r) := by
  let giveBack (conn : Connection) : Action X StoreError α :=
    ExceptT.mk ((use conn).run >>= fun r => Program.perform (.release conn) >>= fun _ => pure r)
  have hrun : (withConnection borrow use).run = (borrow >>= giveBack).run := by
    refine congrArg (borrow.run >>= ·) (funext fun r => ?_)
    cases r <;> rfl
  have hgive : ∀ s' conn, (giveBack conn).run.Ensures I s' Q ↔ (use conn).run.Ensures I s'
      fun s'' r => I.before s'' (.release conn) fun s''' _ => Q s''' r :=
    fun _ _ => Program.ensures_bind
  rw [hrun, ensures_bind]
  simp only [hgive]

@[simp] theorem ensures_connectionFor {key : String} {Q : σ → Except StoreError Connection → Prop} :
    (connectionFor key : Action X StoreError Connection).run.Ensures I s Q ↔
      I.before s (.call (.nodeOwning key))
        (thenOk Q fun s' node => I.before s' (.call (.connect node)) Q) :=
  ensures_bind

end Action

end Latchkey
