import Latchkey.Proofs.SoleUser

/-!
# Guarded execution

A guarded section is run once, under the lock, and only then; what becomes of the call is what
becomes of the section. When the call is over, or was dropped, and the deletions that a drop has
started are done, nothing is left of the lock that the context held: its registry has no entry for
it, and no key has a token under which it was held.

The main statement is `guarded_execution`.
-/

namespace Latchkey

variable {X : Extension}

namespace Machine

variable {mode : Scheduling} {C : Prop} {tr tr' : List Event} {p : Owner} {lock : String}
  {s s' : Machine X}

namespace SoleUse

/-- The client that begins is the only user, and what was left before is what it finds. -/
theorem start {w : World} {threads : List (Thread X)} {c : Client X Unit}
    (hapart : ∀ th ∈ threads, th.Apart p) (hkeeps : Client.Keeps (p.guard lock) c [] .free) :
    SoleUse (w.Clean tr p lock) p lock [] tr ⟨w, threads ++ [.between { program := c }]⟩ := by
  refine ⟨some (.between { program := c }), threads, List.perm_append_comm, hapart, .calm .free,
    .between hkeeps fun h => (nomatch h), trivial, ?_, ?_⟩
  · rintro ((hclean | ⟨ev, hmem, -⟩) | hcovers) token hheld hc
    · exact absurd hc (hclean.keys token hheld _)
    · cases hmem
    · exact hcovers.elim
  · rintro (hclean | ⟨ev, hmem, -⟩) hsome
    · rw [hclean.entry] at hsome
      cases hsome
    · cases hmem

/-- What is known is kept in a run in which the releases of the lock succeed. -/
theorem run {tr₁ : List Event} (h : s.SoleUse C p lock tr₁ tr) (hl : s.Lawful mode tr)
    (hlog : s.Logged tr) (hr : Run (PrivateStep mode p) s tr' s')
    (hrelease : ∀ (m : Manager) ctx log (r : Except Failure Bool),
      Event.returned (.release m ctx lock) log r ∈ tr' → (⟨m.id, ctx⟩ : Owner) = p →
        r.toOption.isSome) :
    s'.SoleUse C p lock (tr₁ ++ tr') (tr ++ tr') := by
  induction hr with
  | nil => simpa using h
  | @snoc tr' s₁ s₂ ev hr hs ih =>
    have hlocks : Run (LockStep mode) s tr' s₁ := hr.mono PrivateStep.toLockStep
    have hbefore := ih fun m ctx log r hmem => hrelease m ctx log r (List.mem_append_left _ hmem)
    have hafter := hbefore.step (hl.run hlocks) (hlog.run (hlocks.mono LockStep.step)) hs
      fun m ctx log r hev => hrelease m ctx log r (List.mem_append_right _ (by simp [hev]))
    simpa using hafter

/-- When no thread uses the owner any more, and what was given up is gone, nothing is left. -/
theorem clean (h : s.SoleUse C p lock tr' tr) (hl : s.Lawful mode tr)
    (hapart : ∀ th ∈ s.threads, th.Apart p) (hheld : C ∨ ∃ ev ∈ tr', ev.Grants p lock)
    (hgone : ∀ token, DroppedIn tr' (p.guard lock) token →
      ¬ s.world.Carries (lockKey lock) token) : s.world.Clean tr p lock := by
  obtain ⟨th?, others, hperm, -, htends⟩ := h
  have hknown : (Stage.calm .free).Known (C ∨ ∃ ev ∈ tr', ev.Grants p lock)
      (DroppedIn tr' (p.guard lock)) tr s.world p lock [] := by
    cases th? with
    | none => exact htends
    | some th =>
      obtain ⟨st, hat, hk⟩ := htends
      have hth : th.Apart p :=
        hapart th (hperm.mem_iff.2 (List.mem_append_left _ (Option.mem_toList.2 rfl)))
      have hcalm : (Stage.calm .free).Known (C ∨ ∃ ev ∈ tr', ev.Grants p lock)
          (DroppedIn tr' (p.guard lock)) tr s.world p lock th.guards :=
        hk.move trivial (hat.not_covers_of_apart hth) id
      exact hcalm.reguard fun _ hmem => absurd hmem (Thread.not_mem_of_apart hth lock)
  have hentry : s.world.heldBy p lock = none := by
    cases hentry : s.world.heldBy p lock with
    | none => rfl
    | some token =>
      rcases hknown.armed hheld (by rw [hentry]; rfl) with hmem | hcovers
      · cases hmem
      · exact hcovers.elim
  refine ⟨hentry, fun token ht key hc => ?_⟩
  obtain rfl := hl.world.key_of_carries ht.1 hc
  rcases hknown.tidy (.inl hheld) token ht hc with hsome | hdropped
  · cases hentry.symm.trans hsome
  · exact hgone token hdropped hc

end SoleUse

end Machine

open Machine in
/-- Guarded execution.

However its effects are replied to, a call ends, and then its exchanges are those of the acquisition
and, exactly if this has succeeded, of the section, which is run once, and of the release. What
became of the section is what the call comes to, whatever came of the release; without the lock the
call fails or is skipped as was asked, and a failed acquisition is a failure of the call.

Let a client run a guarded section on a machine on which nothing else uses the context, and let the
body use the context only by acquisitions, releases and guarded sections, one after another, and
let the releases of the lock succeed. When nothing uses the context any more, be it that the client
is done with it or that it was dropped, and the deletions for sections that were dropped have
succeeded, then nothing is left of the lock, if the context held nothing before or the lock was
acquired. -/
theorem guarded_execution (m : Manager) (ctx : Context) (lock : String) (ttl : Nat)
    (throws : Bool) :
    (∀ {ε α : Type} (body : Program X (Finish ε α)),
      (∀ (reply : List Exchange → (e : Effect) → e.Reply), ((op : X.Op) → X.Reply op) →
        ∃ log g, (m.runGuarded ctx lock ttl throws body).After log (.done g) ∧
          Program.RepliesBy reply log) ∧
      ∀ log g, (m.runGuarded ctx lock ttl throws body).After log (.done g) ↔
        GuardedCall m ctx lock ttl throws body log g) ∧
    (∀ {ε α : Type} {mode : Scheduling} {s₀ s : Machine X} {w : World}
        {threads : List (Thread X)} {tr tr' : List Event} {body : Client X (Finish ε α)}
        {next : Guarded ε α → Client X Unit},
      s₀.Initial → Run (LockStep mode) s₀ tr ⟨w, threads⟩ →
      (∀ th ∈ threads, th.Apart ⟨m.id, ctx⟩) → Client.Tame ⟨m.id, ctx⟩ body →
      (∀ g, Client.Avoids ⟨m.id, ctx⟩ (next g)) →
      Run (PrivateStep mode ⟨m.id, ctx⟩) ⟨w, threads ++
        [.between { program := Client.runGuarded m ctx lock ttl throws body >>= next }]⟩ tr' s →
      (∀ (m' : Manager) ctx' log (r : Except Failure Bool),
        Event.returned (.release m' ctx' lock) log r ∈ tr' →
          (⟨m'.id, ctx'⟩ : Owner) = ⟨m.id, ctx⟩ → r.toOption.isSome) →
      (∀ token, DroppedIn tr' ⟨m.id, ctx, lock⟩ token →
        ∃ log b, Event.returned (.clear ⟨m.id, ctx, lock⟩ token) log (.ok b) ∈ tr') →
      (∀ th ∈ s.threads, th.Apart ⟨m.id, ctx⟩) →
      w.Clean tr ⟨m.id, ctx⟩ lock ∨ (∃ ev ∈ tr', ev.Grants ⟨m.id, ctx⟩ lock) →
      s.world.Clean (tr ++ .silent :: tr') ⟨m.id, ctx⟩ lock) := by
  constructor
  · intro ε α body
    refine ⟨fun reply hear => ?_, fun log g => m.runGuarded_after_iff ctx lock ttl throws body⟩
    have hnil : Program.RepliesBy reply [] := by
      intro before x after heq
      simp at heq
    exact Program.After.start.ends hnil hear
  · intro ε α mode s₀ s w threads tr tr' body next h₀ h₁ hapart htame havoids h₂ hrelease hcleared
      hend hheld
    have hbegin : LockStep mode ⟨w, threads⟩ .silent ⟨w, threads ++ [.between
        { program := Client.runGuarded m ctx lock ttl throws body >>= next }]⟩ :=
      ⟨.start _, fun hforeign => hforeign.elim⟩
    have h₁' := h₁.snoc hbegin
    have hl := lawful_of_run h₀ h₁'
    have hlog := logged_of_run h₀.threads (h₁'.mono LockStep.step)
    have hrun : Run (LockStep mode) s₀ (tr ++ .silent :: tr') s := by
      simpa using h₁'.append (h₂.mono PrivateStep.toLockStep)
    have huse := (SoleUse.start hapart (Client.keeps_runGuarded lock ttl throws htame havoids)).run
      hl hlog h₂ hrelease
    rw [List.nil_append, List.append_assoc, List.singleton_append] at huse
    refine huse.clean (lawful_of_run h₀ hrun) hend (hheld.imp_left fun hclean => ?_) ?_
    · exact hclean.concat fun _ _ h => nomatch h
    · intro token hdropped
      obtain ⟨log, b, hmem⟩ := hcleared token hdropped
      have hmem' := List.mem_append_right tr (List.mem_cons_of_mem Event.silent hmem)
      exact not_carries_of_cleared h₀ hrun hmem'

namespace Machine

/-- Only a silent step or a drop adds a thread. -/
theorem LockStep.toPrivateStep {mode : Scheduling} {s s' : Machine X} {ev : Event} (p : Owner)
    (h : LockStep mode s ev s') (hsilent : ev ≠ .silent) (hdrop : ∀ given, ev ≠ .dropped given) :
    PrivateStep mode p s ev s' := by
  refine ⟨h, fun c heq => ?_⟩
  have hlength : s'.threads.length ≤ s.threads.length := by
    cases h.step with
    | @thread w w' pre post th th' ev hm hth => cases th' <;> simp
    | start c => exact absurd rfl hsilent
    | drop runtime hs => exact absurd rfl (hdrop _)
    | purge => exact Nat.le_refl _
    | elapse ms hs => exact Nat.le_refl _
    | configure d hd => exact Nat.le_refl _
  rw [heq, List.length_append] at hlength
  exact absurd hlength (Nat.not_succ_le_self _)

end Machine

open Machine in
/-- On a fresh store a client runs an empty guarded section, and nothing is left of the lock. -/
theorem guarded_execution_fresh :
    ∃ (tr : List Event) (s : Machine Extension.none),
      Run (PrivateStep .cooperative ⟨0, "a"⟩) ⟨World.fresh, [.between
        ⟨Client.runGuarded {} "a" "L" 1000 false (.done (.value () : Finish Unit Unit)) >>=
          fun _ => .done (), none, [], []⟩]⟩ tr s ∧
        s.threads = [] ∧ (∃ ev ∈ tr, ev.Grants ⟨0, "a"⟩ "L") ∧
        s.world.Clean (.silent :: tr) ⟨0, "a"⟩ "L" := by
  let p : Owner := ⟨0, "a"⟩
  let acquire : Operation := .acquire {} "a" "L" 1000 500
  let release : Operation := .release {} "a" "L"
  let leave : Except Failure Bool → Client Extension.none Unit := fun _ =>
    .effect .disarm fun _ => .done ()
  let enter : Except Failure Bool → Client Extension.none Unit := fun r =>
    bif r.toOption.getD false then
      .effect (.arm (p.guard "L")) fun _ => .extended (.invoke release) leave
    else .done ()
  have hclient : (Client.runGuarded {} "a" "L" 1000 false (.done (.value () : Finish Unit Unit)) >>=
      fun _ => .done ()) = (.extended (.invoke acquire) enter : Client Extension.none Unit) := by
    refine congrArg (Program.extended _) (funext fun r => ?_)
    rcases r with failure | b
    · rfl
    · cases b <;> rfl
  have hidle : World.fresh.Idle := ⟨World.fresh_ready, rfl⟩
  -- the acquisition, the begin of the section, the release, its end, and the end of the client
  obtain ⟨w₁, _, conns₁, guards₁, ⟨rfl, hturns⟩, h₁, hgranted⟩ :=
    @run_operation Extension.none .cooperative acquire trivial _ _
      (Manager.acquire_own hidle {} "a" (.free rfl rfl) 500 (by decide : 0 < 1000)) enter [] []
  have harm := @step_perform Extension.none .cooperative w₁ (.arm (p.guard "L")) rfl
    (World.Alike.refl w₁).spares (fun _ => .extended (.invoke release) leave) conns₁ guards₁
  obtain ⟨w₂, r, conns₂, guards₂, ⟨-, hr⟩, h₂, hreleased⟩ :=
    @run_operation Extension.none .cooperative release trivial _ _
      (Manager.release_ready hturns.idle.toReady {} "a" "L") leave conns₁ (p.guard "L" :: guards₁)
  have hdisarm := @step_perform Extension.none .cooperative w₂ .disarm rfl
    (World.Alike.refl w₂).spares (fun _ => .done ()) conns₂ guards₂
  have hend := @step_finish Extension.none .cooperative w₂ conns₂
    (Task.guardsAfter guards₂ .disarm)
  let log₁ := (acquire.program (X := Extension.none)).exchanges World.fresh
  let log₂ := (release.program (X := Extension.none)).exchanges w₁
  let tr₁ : List Event := .began acquire :: log₁.map (.did acquire) ++
    [.returned acquire log₁ (.ok true)] ++ [.performed ⟨.arm (p.guard "L"), ()⟩]
  let tr₂ : List Event := .began release :: log₂.map (.did release) ++
    [.returned release log₂ r] ++ [.performed ⟨.disarm, ()⟩]
  have hlocks : Run (LockStep .cooperative) _ (tr₁ ++ tr₂) _ :=
    (((LockStep.of_isLock (o := acquire) rfl h₁).snoc ⟨hgranted, fun hf => hf.elim⟩).snoc
      harm).append (((LockStep.of_isLock (o := release) rfl h₂).snoc
        ⟨hreleased, fun hf => hf.elim⟩).snoc hdisarm)
  have hquiet : ∀ ev ∈ tr₁ ++ tr₂, ev ≠ .silent ∧ ∀ given, ev ≠ .dropped given := by
    simp only [tr₁, tr₂, List.mem_append, List.mem_cons, List.mem_map, List.not_mem_nil, or_false]
    rintro ev ((((rfl | ⟨_, -, rfl⟩) | rfl) | rfl) | (((rfl | ⟨_, -, rfl⟩) | rfl) | rfl)) <;>
      exact ⟨by rintro ⟨⟩, by rintro _ ⟨⟩⟩
  have hprivate : Run (PrivateStep .cooperative p) _ (tr₁ ++ tr₂) _ :=
    hlocks.imp fun hmem hs => hs.toPrivateStep p (hquiet _ hmem).1 (hquiet _ hmem).2
  have hrun := hprivate.snoc ⟨hend, fun c heq => by cases heq⟩
  rw [← hclient] at hrun
  have hgrants : ∃ ev ∈ tr₁ ++ tr₂ ++ [.silent], ev.Grants p "L" :=
    ⟨.returned acquire log₁ (.ok true), by simp [tr₁], {}, "a", 1000, 500, log₁, rfl, rfl⟩
  refine ⟨tr₁ ++ tr₂ ++ [.silent], _, hrun, rfl, hgrants, ?_⟩
  refine (guarded_execution {} "a" "L" 1000 false).2 (initial_ofStore rfl 0) .nil
    (fun _ hmem => by cases hmem) (.done _) ?_ hrun ?_ ?_ (fun _ hmem => by cases hmem)
    (.inr hgrants)
  · exact fun _ => trivial
  · intro m ctx log r' hmem howner
    simp [tr₁, tr₂, acquire, release] at hmem
    rw [hmem.2.2, hr]
    rfl
  · rintro token ⟨given, hmem, -⟩
    simp [tr₁, tr₂] at hmem

end Latchkey
