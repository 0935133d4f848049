import Latchkey.Proofs.Conduct
import Latchkey.Proofs.GuardedSections

/-!
# Calls of guarded sections

A call of a guarded section runs its body once if its acquisition has succeeded, and not otherwise,
and its answer is what the body came to. Sections are nested: each one that is begun is ended by a
release and by leaving it, in this order, whatever the body does in between.

The main statements are `Manager.runGuarded_after_iff` and `Client.keeps_runGuarded`.
-/

namespace Latchkey

variable {X : Extension} {ε α β : Type}

/-! ## What a call does -/

/-- The exchanges of a guarded section that has ended, and what became of it. -/
inductive GuardedCall (m : Manager) (ctx : Context) (lock : String) (ttl : Nat) (throws : Bool)
    (body : Program X (Finish ε α)) : List Exchange → Guarded ε α → Prop where
  /-- The acquisition failed. -/
  | refused {log : List Exchange} {failure : Failure}
      (h : (m.acquire (X := X) ctx lock ttl m.settings.replicationWait).run.After log
        (.done (.error failure))) :
      GuardedCall m ctx lock ttl throws body log (.refused failure)
  /-- The lock was not acquired. -/
  | contended {log : List Exchange}
      (h : (m.acquire (X := X) ctx lock ttl m.settings.replicationWait).run.After log
        (.done (.ok false))) :
      GuardedCall m ctx lock ttl throws body log
        (if throws then .refused (.contention lock) else .skipped)
  /-- The lock was acquired, the body was run, and the lock was released with any result. -/
  | ran {log₁ log₂ log₃ : List Exchange} {f : Finish ε α} {r : Except Failure Bool}
      (h₁ : (m.acquire (X := X) ctx lock ttl m.settings.replicationWait).run.After log₁
        (.done (.ok true)))
      (h₂ : body.After log₂ (.done f))
      (h₃ : (m.release (X := X) ctx lock).run.After log₃ (.done r)) :
      GuardedCall m ctx lock ttl throws body
        (log₁ ++ ⟨.arm ⟨m.id, ctx, lock⟩, ()⟩ :: (log₂ ++ (log₃ ++ [⟨.disarm, ()⟩]))) (.ran f)

namespace Manager

variable (m : Manager) (ctx : Context) (lock : String) (ttl : Nat) (throws : Bool)
  (body : Program X (Finish ε α))

/-- What a guarded section does after the answer to its acquisition. -/
def afterAcquire : Except Failure Bool → Program X (Guarded ε α)
  | .error failure => .done (.refused failure)
  | .ok false => .done (if throws then .refused (.contention lock) else .skipped)
  | .ok true => .effect (.arm ⟨m.id, ctx, lock⟩) fun _ => body >>= fun f =>
      (m.release ctx lock).run >>= fun _ => .effect .disarm fun _ => .done (.ran f)

theorem runGuarded_eq : m.runGuarded ctx lock ttl throws body =
    (m.acquire ctx lock ttl m.settings.replicationWait).run >>=
      m.afterAcquire ctx lock throws body := by
  refine congrArg ((m.acquire ctx lock ttl m.settings.replicationWait).run >>= ·)
    (funext fun r => ?_)
  rcases r with failure | b
  · rfl
  · cases b <;> rfl

/-- The logs of a guarded section are as described, and all such logs are possible. -/
theorem runGuarded_after_iff {log : List Exchange} {g : Guarded ε α} :
    (m.runGuarded ctx lock ttl throws body).After log (.done g) ↔
      GuardedCall m ctx lock ttl throws body log g := by
  rw [runGuarded_eq]
  constructor
  · intro h
    obtain ⟨log₁, log', r, rfl, h₁, h⟩ := h.of_bind_done
    rcases r with failure | b
    · obtain ⟨rfl, hg⟩ := h.of_done
      cases hg
      rw [List.append_nil]
      exact .refused h₁
    · cases b with
      | false =>
        obtain ⟨rfl, hg⟩ := h.of_done
        cases hg
        rw [List.append_nil]
        exact .contended h₁
      | true =>
        rcases h.of_effect with ⟨-, heq⟩ | ⟨_, log', rfl, hbody⟩
        · cases heq
        · obtain ⟨log₂, log', f, rfl, h₂, hrelease⟩ := hbody.of_bind_done
          obtain ⟨log₃, log', r, rfl, h₃, hdisarm⟩ := hrelease.of_bind_done
          rcases hdisarm.of_effect with ⟨-, heq⟩ | ⟨_, log', rfl, hend⟩
          · cases heq
          · obtain ⟨rfl, hg⟩ := hend.of_done
            cases hg
            exact .ran h₁ h₂ h₃
  · intro h
    cases h with
    | refused h => exact List.append_nil log ▸ h.bind .start
    | contended h => exact List.append_nil log ▸ h.bind .start
    | ran h₁ h₂ h₃ => exact h₁.bind (.cons (h₂.bind (h₃.bind (.cons .start))))

end Manager

/-! ## What clients do with sections -/

/-- The guard of a lock of an owner. -/
def Owner.guard (p : Owner) (lock : String) : Guard := ⟨p.manager, p.ctx, lock⟩

/-- The owner for which a guard stands. -/
def Guard.owner (g : Guard) : Owner := ⟨g.manager, g.ctx⟩

/-- Whether an effect begins or ends a guarded section. -/
def Effect.IsSection : Effect → Prop
  | .arm _ => True
  | .disarm => True
  | _ => False

/-- What a client that uses a lock has to do next. -/
inductive Turn where
  /-- Nothing in particular. -/
  | free
  /-- It has acquired the lock outside of any section, and has to begin one. -/
  | due
  /-- It has released the lock, and may leave the last section. -/
  | cleared

/-- Whether a client may perform an effect: the last section for a lock is left only after a
release. -/
def Turn.Admits (guard : Guard) (guards : List Guard) : Turn → Effect → Prop
  | .due, e => e = .arm guard
  | .free, .disarm => guards.head? = some guard → guard ∈ guards.tail
  | _, _ => True

/-- What a client has to do after the answer of an operation. -/
def Operation.turn (guard : Guard) (guards : List Guard) : (o : Operation) → o.Answer → Turn
  | .acquire m ctx lock _ _, r =>
    if (⟨m.id, ctx, lock⟩ : Guard) = guard ∧ guard ∉ guards ∧ r.toOption = some true then .due
    else .free
  | .release m ctx lock, _ => if (⟨m.id, ctx, lock⟩ : Guard) = guard then .cleared else .free
  | _, _ => .free

namespace Client

/-- The client has nothing to do with an owner. -/
def Avoids (p : Owner) : Client X α → Prop
  | .done _ => True
  | .effect e next => (∀ g, e = .arm g → g.owner ≠ p) ∧ ∀ r, Avoids p (next r)
  | .extended (.invoke o) next => o.owner? ≠ some p ∧ ∀ a, Avoids p (next a)
  | .extended (.outside _) next => ∀ r, Avoids p (next r)

/-- Of the operations for an owner the client uses only acquisitions, releases and guarded sections,
one after another. -/
inductive Tame (p : Owner) : {α : Type} → Client X α → Prop where
  /-- It is done. -/
  | done {α : Type} (a : α) : Tame p (.done a)
  /-- It performs an effect that neither begins nor ends a section. -/
  | effect {α : Type} {e : Effect} {next : e.Reply → Client X α} (he : ¬ e.IsSection)
      (h : ∀ r, Tame p (next r)) : Tame p (.effect e next)
  /-- It hears from its surroundings. -/
  | outside {α : Type} {op : X.Op} {next : X.Reply op → Client X α} (h : ∀ r, Tame p (next r)) :
      Tame p (.extended (.outside op) next)
  /-- It calls an operation that does not dispose of the context. -/
  | invoke {α : Type} {o : Operation} {next : o.Answer → Client X α}
      (ho : ∀ m ctx, o = .dispose m ctx → (⟨m.id, ctx⟩ : Owner) ≠ p) (h : ∀ a, Tame p (next a)) :
      Tame p (.extended (.invoke o) next)
  /-- It runs a guarded section. -/
  | guarded {ε α β : Type} {m : Manager} {ctx : Context} {lock : String} {ttl : Nat} {throws : Bool}
      {body : Client X (Finish ε α)} {next : Guarded ε α → Client X β} (hbody : Tame p body)
      (h : ∀ g, Tame p (next g)) : Tame p (runGuarded m ctx lock ttl throws body >>= next)

/-- The client, which is in the middle of some sections, leaves the last section for a lock only
after a release, acquires the lock outside of a section only to begin one, and ends outside. -/
def Keeps (guard : Guard) : Client X α → List Guard → Turn → Prop
  | .done _, guards, turn => turn ≠ .due ∧ guard ∉ guards
  | .effect e next, guards, turn =>
    turn.Admits guard guards e ∧ ∀ r, Keeps guard (next r) (Task.guardsAfter guards e) .free
  | .extended (.invoke o) next, guards, turn =>
    turn ≠ .due ∧ (∀ m ctx, o = .dispose m ctx → (⟨m.id, ctx⟩ : Owner) ≠ guard.owner) ∧
      ∀ a, Keeps guard (next a) guards (o.turn guard guards a)
  | .extended (.outside _) next, guards, turn =>
    turn ≠ .due ∧ ∀ r, Keeps guard (next r) guards .free

variable {guard : Guard} {guards : List Guard} {turn : Turn} {c : Client X α}

theorem Keeps.of_free (h : Keeps guard c guards .free) (hturn : turn ≠ .due) :
    Keeps guard c guards turn := by
  cases turn with
  | free => exact h
  | due => exact absurd rfl hturn
  | cleared =>
    cases c with
    | done a => exact ⟨hturn, h.2⟩
    | effect e next => exact ⟨trivial, h.2⟩
    | extended op next =>
      cases op with
      | invoke o => exact ⟨hturn, h.2⟩
      | outside op => exact ⟨hturn, h.2⟩

/-- A client that has nothing to do with the owner, outside of its sections, keeps to the order. -/
theorem Avoids.keeps (h : Avoids guard.owner c) (hg : guard ∉ guards) :
    Keeps guard c guards .free := by
  induction c generalizing guards with
  | done a => exact ⟨fun h => (by cases h), hg⟩
  | effect e next ih =>
    refine ⟨?_, fun r => ih r (h.2 r) fun hmem => ?_⟩
    · cases e with
      | disarm => exact fun hhead => absurd (List.mem_of_head? hhead) hg
      | _ => trivial
    · cases e with
      | arm g =>
        rcases List.mem_cons.1 hmem with rfl | hmem
        · exact h.1 _ rfl rfl
        · exact hg hmem
      | disarm => exact hg (List.mem_of_mem_tail hmem)
      | _ => exact hg hmem
  | extended op next ih =>
    cases op with
    | outside op => exact ⟨fun h => (by cases h), fun r => ih r (h r) hg⟩
    | invoke o =>
      obtain ⟨ho, h⟩ := h
      have hturn : ∀ a, o.turn guard guards a = .free := by
        intro a
        cases o with
        | acquire m ctx lock ttl wait =>
          refine if_neg fun hcond => ho ?_
          rw [← hcond.1]
          rfl
        | release m ctx lock =>
          refine if_neg fun heq => ho ?_
          rw [← heq]
          rfl
        | _ => rfl
      refine ⟨fun h => (by cases h), ?_, fun a => ?_⟩
      · rintro m ctx rfl heq
        exact ho (congrArg some heq)
      · rw [hturn]
        exact ih a (h a) hg

/-- A guarded section keeps to the order if its body does, and if what follows it does. -/
theorem Keeps.runGuarded {m : Manager} {ctx : Context} {lock : String} {ttl : Nat} {throws : Bool}
    {body : Client X (Finish ε α)} {next : Guarded ε α → Client X β}
    (hbody : ∀ k : Finish ε α → Client X β,
      (∀ f, Keeps guard (k f) (⟨m.id, ctx, lock⟩ :: guards) .free) →
        Keeps guard (body >>= k) (⟨m.id, ctx, lock⟩ :: guards) .free)
    (hnext : ∀ g, Keeps guard (next g) guards .free) :
    Keeps guard (Client.runGuarded m ctx lock ttl throws body >>= next) guards .free := by
  refine ⟨fun h => (by cases h), fun _ _ h => (by cases h), fun r => ?_⟩
  have hfree : r.toOption ≠ some true →
      (Operation.acquire m ctx lock ttl m.settings.replicationWait).turn guard guards r = .free :=
    fun hr => if_neg fun h => hr h.2.2
  match r with
  | .error failure =>
    rw [hfree (by simp [Except.toOption])]
    exact hnext (.refused failure)
  | .ok false =>
    rw [hfree (by simp [Except.toOption])]
    exact hnext (if throws then .refused (.contention lock) else .skipped)
  | .ok true =>
    refine ⟨?_, fun _ => ?_⟩
    · simp only [Operation.turn]
      split
      · next h => rw [← h.1]; rfl
      · trivial
    · show Keeps guard ((body >>= _) >>= next) _ .free
      rw [Program.bind_assoc]
      refine hbody _ fun f => ⟨fun h => (by cases h), fun _ _ h => (by cases h), fun r => ⟨?_, ?_⟩⟩
      · simp only [Operation.turn]
        split
        · trivial
        · next hne => exact fun hhead => absurd (Option.some.inj hhead) hne
      · exact fun _ => hnext (.ran f)

/-- A tame client in a section for the lock keeps to the order if what follows it does. -/
theorem Tame.keeps (h : Tame guard.owner c) (hg : guard ∈ guards) {k : α → Client X β}
    (hk : ∀ a, Keeps guard (k a) guards .free) : Keeps guard (c >>= k) guards .free := by
  induction h generalizing β guards with
  | done a => exact hk a
  | @effect _ e next he _ ih =>
    refine ⟨?_, fun r => ?_⟩
    · cases e with
      | disarm => exact absurd trivial he
      | _ => trivial
    · have hsame : Task.guardsAfter guards e = guards := by
        cases e with
        | arm g => exact absurd trivial he
        | disarm => exact absurd trivial he
        | _ => rfl
      rw [hsame]
      exact ih r hg hk
  | outside _ ih => exact ⟨fun h => (by cases h), fun r => ih r hg hk⟩
  | @invoke _ o next ho _ ih =>
    refine ⟨fun h => (by cases h), ho, fun a => (ih a hg hk).of_free ?_⟩
    cases o with
    | acquire m ctx lock ttl wait =>
      simp only [Operation.turn]
      rw [if_neg fun h => h.2.1 hg]
      exact fun h => (by cases h)
    | release m ctx lock =>
      simp only [Operation.turn]
      split <;> exact fun h => (by cases h)
    | _ => exact fun h => (by cases h)
  | @guarded ε α' _ m ctx lock ttl throws body next _ _ ihBody ih =>
    rw [Program.bind_assoc]
    exact .runGuarded (fun k' hk' => ihBody (List.mem_cons_of_mem _ hg) hk') fun g => ih g hg hk

/-- A guarded section with a tame body keeps to the order. -/
theorem keeps_runGuarded {m : Manager} {ctx : Context} (lock : String) (ttl : Nat) (throws : Bool)
    {body : Client X (Finish ε α)} {next : Guarded ε α → Client X β}
    (hbody : Tame ⟨m.id, ctx⟩ body) (hnext : ∀ g, Avoids ⟨m.id, ctx⟩ (next g)) :
    Keeps ⟨m.id, ctx, lock⟩ (Client.runGuarded m ctx lock ttl throws body >>= next) [] .free := by
  have hbody' : Tame (Guard.owner ⟨m.id, ctx, lock⟩) body := hbody
  have hnext' : ∀ g, Avoids (Guard.owner ⟨m.id, ctx, lock⟩) (next g) := hnext
  exact .runGuarded (fun _ hk => hbody'.keeps List.mem_cons_self hk) fun g =>
    (hnext' g).keeps List.not_mem_nil

end Client

end Latchkey
