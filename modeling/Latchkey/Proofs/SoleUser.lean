import Latchkey.Proofs.Users

/-!
# The only user of an owner

In a machine in which one client uses an owner, and all the other threads are apart from it, what is
known of a lock of the owner is kept by every step. What the others do does not touch it; what the
client does keeps to the order of sections; and when the client is dropped, its sections give the
lock up.

The main statement is `Machine.SoleUse.step`.
-/

namespace Latchkey

variable {X : Extension}

theorem perm_middle_toList {α : Type} (pre post : List α) (a? : Option α) :
    (pre ++ a?.toList ++ post).Perm (a?.toList ++ (pre ++ post)) := by
  rw [← List.append_assoc]
  exact List.perm_append_comm.append_right post

/-- One of two parts of a list has an element of it. -/
theorem perm_middle_cases {α : Type} {pre post others : List α} {a : α} {a? : Option α}
    (h : (pre ++ a :: post).Perm (a?.toList ++ others)) :
    a? = some a ∧ (pre ++ post).Perm others ∨
      ∃ rest, others.Perm (a :: rest) ∧ (pre ++ post).Perm (a?.toList ++ rest) := by
  have h' : (a :: (pre ++ post)).Perm (a?.toList ++ others) := List.perm_middle.symm.trans h
  rcases List.mem_append.1 (h'.mem_iff.1 List.mem_cons_self) with hmem | hmem
  · obtain rfl : a? = some a := Option.mem_toList.1 hmem
    exact .inl ⟨rfl, h'.cons_inv⟩
  · obtain ⟨l₁, l₂, rfl⟩ := List.append_of_mem hmem
    have hmiddle : (a?.toList ++ (l₁ ++ a :: l₂)).Perm (a :: (a?.toList ++ (l₁ ++ l₂))) :=
      (List.perm_middle.append_left _).trans List.perm_middle
    exact .inr ⟨l₁ ++ l₂, List.perm_middle, (h'.trans hmiddle).cons_inv⟩

namespace Machine

variable {mode : Scheduling} {F : Prop} {D : Token → Prop} {tr tr' : List Event} {p : Owner}
  {lock : String} {s s' : Machine X} {ev : Event} {st : Stage}

theorem Lawful.untouched_of_quiet (h : s.Lawful mode tr) (hs : s.LockStep mode ev s')
    (hdid : ∀ o x, ev ≠ .did o x) (hdrop : ∀ given, ev ≠ .dropped given) (p : Owner)
    (lock : String) : Untouched tr s.world ev s'.world p lock := by
  have hwrite : ∀ o x, ev = .did o x → o.IsLock → ¬ x.effect.Writes p lock :=
    fun o x hev => absurd hev (hdid o x)
  exact h.untouched hs (h.heldBy_step hs hwrite hdrop) hwrite

theorem Lawful.untouched_of_did {o : Operation} {x : Exchange} (h : s.Lawful mode tr)
    (hs : s.LockStep mode (.did o x) s') (hx : o.IsLock → ¬ x.effect.Writes p lock) :
    Untouched tr s.world (.did o x) s'.world p lock := by
  have hwrite : ∀ o' x', Event.did o x = .did o' x' → o'.IsLock → ¬ x'.effect.Writes p lock := by
    rintro o' x' ⟨⟩
    exact hx
  exact h.untouched hs (h.heldBy_step hs hwrite fun _ h => nomatch h) hwrite

/-- An exchange of the client in an operation. -/
theorem Lawful.tends_work {o : Operation} {log : List Exchange} {t t' : Task X o.Answer}
    {next : o.Answer → Client X Unit} {x : Exchange} (h : s.Lawful mode tr) (hlog : s.Logged tr)
    (hs : s.LockStep mode (.did o x) s') (hmem : .inside o log t next ∈ s.threads)
    (hstep : t.step s.world = .moved s'.world t') (hx : t.exchange? s.world = some x)
    (hat : (Thread.inside o log t next).At p lock st)
    (hk : st.Known F D tr s.world p lock t.guards) :
    Thread.Tends F D (tr ++ [.did o x]) s'.world p lock
      (some (.inside o (log ++ [x]) t' next)) := by
  obtain ⟨hafter, -⟩ := hlog o log t next hmem
  obtain ⟨k, hp, -, hanswer, rfl⟩ := Task.step_eq_moved hstep hx
  rw [hp] at hafter
  have hguards : (t.afterReply x.effect k x.reply).guards = t.guards :=
    Task.guardsAfter_eq (Operation.not_isSection hafter) t.guards
  have hdeed : o.IsLock →
      Deed s.world o (o.phase log) x s'.world (o.phase (log ++ [x])) := by
    intro ho
    rw [Operation.phase_concat]
    exact .of_answer ((o.obeys ho).permits hafter) hanswer
  have hheld : ∀ token, WasHeld (tr ++ [.did o x]) p lock token → WasHeld tr p lock token ∨
      ∃ o' : Operation, o'.ActsFor p lock ∧
        Event.did o x = .did o' ⟨.registry p.manager (.record p.ctx lock token), ()⟩ :=
    fun _ => h.wasHeld_concat hs
  cases hat with
  | @acquiring m ctx ttl wait log t next howner hnext =>
    subst howner
    have hact : (Operation.acquire m ctx lock ttl wait).ActsFor ⟨m.id, ctx⟩ lock := ⟨rfl, rfl⟩
    have hconduct := ((Operation.acquire m ctx lock ttl wait).conducts rfl).permits hafter
    refine ⟨_, .acquiring rfl (hguards.symm ▸ hnext), ?_⟩
    show Stage.Known _ _ _ _ _ _ (Task.afterReply ..).guards _
    rw [hguards]
    refine hk.acquire_deed (hdeed rfl) trivial hact hconduct (fun token ht => ?_) fun hwrite =>
      h.untouched_of_did hs fun _ => hwrite
    refine (hheld token ht).imp_right fun hrec => ?_
    obtain ⟨o', -, hev⟩ := hrec
    cases hev
    rfl
  | @releasing m ctx log t next howner hnext =>
    subst howner
    have hconduct := ((Operation.release m ctx lock).conducts rfl).permits hafter
    refine ⟨_, .releasing rfl (hguards.symm ▸ hnext), ?_⟩
    show Stage.Known _ _ _ _ _ _ (Task.afterReply ..).guards _
    rw [hguards, Operation.surrender_concat]
    refine hk.release_deed (hdeed rfl) hconduct h.world (fun token ht => ?_) fun hwrite =>
      h.untouched_of_did hs fun _ => hwrite
    rcases hheld token ht with ht | ⟨o', -, hev⟩
    · exact ht
    · cases hev
      exact hconduct.1.elim
  | aside ho hnext =>
    refine ⟨_, .aside ho (hguards.symm ▸ hnext), ?_⟩
    show Stage.Known _ _ _ _ _ _ (Task.afterReply ..).guards _
    rw [hguards]
    exact hk.frame (h.untouched_of_did hs fun hlock =>
      ho.not_writes ((o.conducts hlock).permits hafter))

/-- The return of the client from an operation. A release has succeeded. -/
theorem Lawful.tends_return {o : Operation} {log : List Exchange} {t : Task X o.Answer}
    {next : o.Answer → Client X Unit} {a : o.Answer} (h : s.Lawful mode tr) (hlog : s.Logged tr)
    (hs : s.LockStep mode (.returned o log a) s') (hmem : .inside o log t next ∈ s.threads)
    (hdone : t.program = .done a) (hat : (Thread.inside o log t next).At p lock st)
    (hk : st.Known F D tr s.world p lock t.guards)
    (hrelease : ∀ (m : Manager) ctx log' (r : Except Failure Bool),
      Event.returned o log a = .returned (.release m ctx lock) log' r →
        (⟨m.id, ctx⟩ : Owner) = p → r.toOption.isSome) :
    Thread.Tends (F ∨ (Event.returned o log a).Grants p lock) D (tr ++ [.returned o log a]) s'.world
      p lock (some (.between
        { program := next a, connections := t.connections, guards := t.guards })) := by
  obtain ⟨hafter, -⟩ := hlog o log t next hmem
  rw [hdone] at hafter
  have hquiet : Untouched tr s.world (.returned o log a) s'.world p lock :=
    h.untouched_of_quiet hs (fun _ _ h => nomatch h) (fun _ h => nomatch h) p lock
  have hk := hk.frame hquiet
  cases hat with
  | @acquiring m ctx ttl wait log t next howner hnext =>
    have hsettles := ((Operation.acquire m ctx lock ttl wait).obeys rfl).final hafter
    refine (Thread.At.return_acquire hk howner hnext hsettles).mono (Or.imp_right ?_) fun _ h => h
    rintro ⟨m', ctx', ttl', wait', log', -, hev⟩
    cases hev
    rfl
  | @releasing m ctx log t next howner hnext =>
    have hsettled : (Operation.release m ctx lock).surrender log = .settled :=
      ((Operation.release m ctx lock).conducts rfl).final hafter (hrelease m ctx _ a rfl howner)
    rw [hsettled] at hk
    have hcleared : (Stage.calm .cleared).Known F D _ s'.world p lock t.guards :=
      hk.move hk.fits id id
    refine ⟨_, .between (hnext a) fun h => (nomatch h), hcleared.mono ?_ fun _ h => h⟩
    rintro (hF | ⟨m', ctx', ttl', wait', log', -, hev⟩)
    · exact hF
    · cases hev
  | aside ho hnext =>
    refine ⟨_, .between (hnext a) fun h => (nomatch h), hk.mono ?_ fun _ h => h⟩
    rintro (hF | ⟨m', ctx', ttl', wait', log', howner, hev⟩)
    · exact hF
    · cases hev
      obtain ⟨guard, token, heq⟩ := ho.acts ⟨congrArg some howner, rfl⟩
      cases heq

/-- A step of the client that uses the lock. -/
theorem Lawful.tends_step {w w' : World} {pre post : List (Thread X)} {th : Thread X}
    {th' : Option (Thread X)} (h : Lawful mode tr ⟨w, pre ++ th :: post⟩)
    (hlog : Logged tr ⟨w, pre ++ th :: post⟩)
    (hs : LockStep mode ⟨w, pre ++ th :: post⟩ ev ⟨w', pre ++ th'.toList ++ post⟩)
    (hth : th.Step w ev w' th') (htends : Thread.Tends F D tr w p lock (some th))
    (hrelease : ∀ (m : Manager) ctx log (r : Except Failure Bool),
      ev = .returned (.release m ctx lock) log r → (⟨m.id, ctx⟩ : Owner) = p →
        r.toOption.isSome) :
    Thread.Tends (F ∨ ev.Grants p lock) D (tr ++ [ev]) w' p lock th' := by
  have hmem : th ∈ pre ++ th :: post := List.mem_append_right _ List.mem_cons_self
  obtain ⟨st, hat, hk⟩ := htends
  have hold : ¬ ev.Grants p lock → F ∨ ev.Grants p lock → F := fun hno hor => hor.resolve_right hno
  have hquiet : (∀ o x, ev ≠ .did o x) → (∀ given, ev ≠ .dropped given) →
      st.Known F D (tr ++ [ev]) w' p lock th.guards :=
    fun hdid hdrop => hk.frame (h.untouched_of_quiet hs hdid hdrop p lock)
  have hbetween : ∀ t : Task (client X) Unit, th = .between t →
      Thread.Tends (F ∨ ev.Grants p lock) D (tr ++ [ev]) w' p lock th' := by
    rintro t rfl
    have hno : (∀ o x, ev ≠ .did o x) ∧ (∀ given, ev ≠ .dropped given) ∧ ¬ ev.Grants p lock := by
      cases hth <;> exact ⟨fun _ _ h => (nomatch h), fun _ h => (nomatch h),
        fun ⟨_, _, _, _, _, _, h⟩ => nomatch h⟩
    exact (hat.step_between (hquiet hno.1 hno.2.1) hth).mono (hold hno.2.2) fun _ h => h
  cases hth with
  | work hs' hx =>
    refine (h.tends_work hlog hs hmem hs' hx hat hk).mono (hold ?_) fun _ h => h
    rintro ⟨_, _, _, _, _, _, hev⟩
    cases hev
  | await hs' =>
    obtain ⟨hat', hguards⟩ := hat.step_await hs'
    refine ⟨st, hat', ?_⟩
    show st.Known _ _ _ _ _ _ (Task.guards _)
    rw [hguards]
    refine (hquiet (fun _ _ h => (nomatch h)) fun _ h => (nomatch h)).mono (hold ?_) fun _ h => h
    rintro ⟨_, _, _, _, _, _, hev⟩
    cases hev
  | «return» hs' =>
    exact h.tends_return hlog hs hmem (Task.step_eq_finished hs') hat hk hrelease
  | _ => exact hbetween _ rfl

/-- A step of a thread that does not use the owner. -/
theorem Lawful.untouched_of_apart {w w' : World} {pre post : List (Thread X)} {th : Thread X}
    {th' : Option (Thread X)} (h : Lawful mode tr ⟨w, pre ++ th :: post⟩)
    (hlog : Logged tr ⟨w, pre ++ th :: post⟩)
    (hs : LockStep mode ⟨w, pre ++ th :: post⟩ ev ⟨w', pre ++ th'.toList ++ post⟩)
    (hth : th.Step w ev w' th') (hapart : th.Apart p) (lock : String) :
    Untouched tr w ev w' p lock ∧ ¬ ev.Grants p lock := by
  obtain ⟨hdid, hreturned⟩ := hapart.shuns hth
  constructor
  · have hwrite : ∀ o x, ev = .did o x → o.IsLock → ¬ x.effect.Writes p lock := by
      rintro o x rfl ho
      obtain ⟨log, next, -, -, hafter, -⟩ := hlog.did hs.step
      exact ((hdid o x rfl).leavesBe lock).not_writes ((o.conducts ho).permits hafter)
    have hdrop : ∀ given, ev ≠ .dropped given := by
      cases hth <;> exact fun _ h => nomatch h
    exact h.untouched hs (h.heldBy_step hs hwrite hdrop) hwrite
  · rintro ⟨m, ctx, ttl, wait, log, howner, rfl⟩
    obtain ⟨guard, token, heq⟩ := hreturned _ _ _ rfl (congrArg some howner)
    cases heq

/-- A step in which no client begins that uses an owner. -/
structure PrivateStep (mode : Scheduling) (p : Owner) (s : Machine X) (ev : Event)
    (s' : Machine X) : Prop extends LockStep mode s ev s' where
  apart : ∀ c, s'.threads = s.threads ++ [.between { program := c }] → Client.Avoids p c

/-- At most one client uses an owner, and what is known of a lock is true. `C` says that nothing was
left of the lock before the events `tr'`. -/
def SoleUse (C : Prop) (p : Owner) (lock : String) (tr' tr : List Event) (s : Machine X) : Prop :=
  ∃ (th? : Option (Thread X)) (others : List (Thread X)),
    s.threads.Perm (th?.toList ++ others) ∧ (∀ th ∈ others, th.Apart p) ∧
      Thread.Tends (C ∨ ∃ ev ∈ tr', ev.Grants p lock) (DroppedIn tr' (p.guard lock)) tr s.world p
        lock th?

namespace SoleUse

variable {C : Prop}

/-- The lock was acquired before, or just now. -/
theorem granted_concat (h : C ∨ ∃ ev' ∈ tr' ++ [ev], ev'.Grants p lock) :
    (C ∨ ∃ ev' ∈ tr', ev'.Grants p lock) ∨ ev.Grants p lock := by
  rcases h with hC | ⟨ev', hmem, hev'⟩
  · exact .inl (.inl hC)
  · rcases List.mem_append.1 hmem with hmem | hmem
    · exact .inl (.inr ⟨ev', hmem, hev'⟩)
    · cases List.mem_singleton.1 hmem
      exact .inr hev'

/-- What is known is kept when the threads that do not use the owner go on. -/
theorem of_untouched {th? : Option (Thread X)} {others : List (Thread X)} {w : World}
    (hperm : s'.threads.Perm (th?.toList ++ others)) (hapart : ∀ th ∈ others, th.Apart p)
    (htends : Thread.Tends (C ∨ ∃ ev ∈ tr', ev.Grants p lock) (DroppedIn tr' (p.guard lock)) tr w
      p lock th?) (hu : Untouched tr w ev s'.world p lock) (hgrants : ¬ ev.Grants p lock) :
    s'.SoleUse C p lock (tr' ++ [ev]) (tr ++ [ev]) := by
  exact ⟨th?, others, hperm, hapart, (htends.frame hu).mono
    (fun h => (granted_concat h).resolve_right hgrants) fun _ h => h.append _⟩

/-- What is known is kept by the steps of threads. -/
theorem thread {w w' : World} {pre post : List (Thread X)} {th : Thread X}
    {th' : Option (Thread X)} (h : SoleUse C p lock tr' tr ⟨w, pre ++ th :: post⟩)
    (hl : Lawful mode tr ⟨w, pre ++ th :: post⟩) (hlog : Logged tr ⟨w, pre ++ th :: post⟩)
    (hs : LockStep mode ⟨w, pre ++ th :: post⟩ ev ⟨w', pre ++ th'.toList ++ post⟩)
    (hth : th.Step w ev w' th')
    (hrelease : ∀ (m : Manager) ctx log (r : Except Failure Bool),
      ev = .returned (.release m ctx lock) log r → (⟨m.id, ctx⟩ : Owner) = p →
        r.toOption.isSome) :
    SoleUse C p lock (tr' ++ [ev]) (tr ++ [ev]) ⟨w', pre ++ th'.toList ++ post⟩ := by
  obtain ⟨th?, others, hperm, hapart, htends⟩ := h
  have hmiddle := perm_middle_toList pre post th'
  rcases perm_middle_cases hperm with ⟨rfl, hrest⟩ | ⟨rest, hothers, hrest⟩
  · have htends' := hl.tends_step hlog hs hth htends hrelease
    exact ⟨th', pre ++ post, hmiddle, fun t ht => hapart t (hrest.mem_iff.1 ht),
      htends'.mono granted_concat fun _ h => h.append _⟩
  · have hth' : th.Apart p := hapart th (hothers.mem_iff.2 List.mem_cons_self)
    obtain ⟨hu, hgrants⟩ := hl.untouched_of_apart hlog hs hth hth' lock
    have hstep := hth'.step hth fun o log t next heq =>
      (hlog o log t next (heq ▸ List.mem_append_right _ List.mem_cons_self)).1
    have hperm' : (pre ++ th'.toList ++ post).Perm (th?.toList ++ (th'.toList ++ rest)) := by
      refine hmiddle.trans ((hrest.append_left _).trans ?_)
      rw [← List.append_assoc, ← List.append_assoc]
      exact List.perm_append_comm.append_right rest
    refine of_untouched hperm' (fun t ht => ?_) htends hu hgrants
    rcases List.mem_append.1 ht with ht | ht
    · exact hstep t (Option.mem_toList.1 ht)
    · exact hapart t (hothers.mem_iff.2 (List.mem_cons_of_mem _ ht))

/-- What is known is kept when a thread is dropped. -/
theorem drop {w : World} {pre post : List (Thread X)} {th : Thread X} {runtime : Bool}
    (h : SoleUse C p lock tr' tr ⟨w, pre ++ th :: post⟩)
    (hl : Lawful mode tr ⟨w, pre ++ th :: post⟩) (hsuspended : th.Suspended)
    (hs : LockStep mode ⟨w, pre ++ th :: post⟩ (.dropped (Task.forsaken w th.guards))
      ⟨th.drop w, pre ++ post ++
        if runtime then (Task.forsaken w th.guards).map Thread.deletion else []⟩) :
    SoleUse C p lock (tr' ++ [.dropped (Task.forsaken w th.guards)])
      (tr ++ [.dropped (Task.forsaken w th.guards)])
      ⟨th.drop w, pre ++ post ++
        if runtime then (Task.forsaken w th.guards).map Thread.deletion else []⟩ := by
  obtain ⟨th?, others, hperm, hapart, htends⟩ := h
  let deletions : List (Thread X) :=
    if runtime then (Task.forsaken w th.guards).map Thread.deletion else []
  have hdeletions : ∀ t ∈ deletions, t.Apart p := by
    intro t ht
    cases runtime with
    | true =>
      obtain ⟨d, -, rfl⟩ := List.mem_map.1 ht
      exact Thread.apart_deletion d
    | false => exact absurd ht List.not_mem_nil
  have happend : ∀ {rest : List (Thread X)}, (∀ t ∈ rest, t.Apart p) →
      ∀ t ∈ rest ++ deletions, t.Apart p := by
    intro rest hrest t ht
    exact (List.mem_append.1 ht).elim (hrest t) (hdeletions t)
  have hentry := th.heldBy_drop w p lock
  have hgrants : ¬ (Event.dropped (Task.forsaken w th.guards)).Grants p lock :=
    fun ⟨_, _, _, _, _, _, hev⟩ => nomatch hev
  have hwrite : ∀ o x, Event.dropped (Task.forsaken w th.guards) = .did o x → o.IsLock →
      ¬ x.effect.Writes p lock := fun _ _ h => nomatch h
  rcases perm_middle_cases hperm with ⟨rfl, hrest⟩ | ⟨rest, hothers, hrest⟩
  · obtain ⟨st, hat, hk⟩ := htends
    have hcovers : ¬ st.Covers :=
      hat.not_covers_of_suspended (hl.threads th (List.mem_append_right _ List.mem_cons_self))
        hsuspended
    have hdropped : (Stage.calm .free).Known (C ∨ ∃ ev ∈ tr', ev.Grants p lock)
        (DroppedIn (tr' ++ [.dropped (Task.forsaken w th.guards)]) (p.guard lock))
        (tr ++ [.dropped (Task.forsaken w th.guards)]) (th.drop w) p lock [] := by
      refine hk.drop hcovers hentry (fun token ht => ?_) (fun token ht hc => ?_)
        (fun _ h => h.append _) fun token hheld hg => ?_
      · exact (hl.wasHeld_concat hs ht).resolve_right fun ⟨_, _, hev⟩ => nomatch hev
      · exact Classical.byContradiction fun hlost => hl.lost_step hs ht.2 hlost hc
      · exact ⟨_, List.mem_append_right _ (List.mem_singleton.2 rfl), Task.mem_forsaken hheld hg⟩
    exact ⟨none, pre ++ post ++ deletions, .refl _,
      happend fun t ht => hapart t (hrest.mem_iff.1 ht),
      Stage.Known.mono hdropped (fun h => (granted_concat h).resolve_right hgrants) fun _ h => h⟩
  · have hth' : th.Apart p := hapart th (hothers.mem_iff.2 List.mem_cons_self)
    rw [if_neg (Thread.not_mem_of_apart hth' lock)] at hentry
    have hperm' : (pre ++ post ++ deletions).Perm (th?.toList ++ (rest ++ deletions)) := by
      rw [← List.append_assoc]
      exact hrest.append_right deletions
    exact of_untouched hperm' (happend fun t ht =>
      hapart t (hothers.mem_iff.2 (List.mem_cons_of_mem _ ht))) htends
      (hl.untouched hs hentry hwrite) hgrants

/-- What is known is kept by every step. -/
theorem step (h : s.SoleUse C p lock tr' tr) (hl : s.Lawful mode tr) (hlog : s.Logged tr)
    (hs : s.PrivateStep mode p ev s')
    (hrelease : ∀ (m : Manager) ctx log (r : Except Failure Bool),
      ev = .returned (.release m ctx lock) log r → (⟨m.id, ctx⟩ : Owner) = p →
        r.toOption.isSome) :
    s'.SoleUse C p lock (tr' ++ [ev]) (tr ++ [ev]) := by
  obtain ⟨hlock, hnew⟩ := hs
  have hstep := hlock.step
  have hquiet : (∀ o x, ev ≠ .did o x) → (∀ given, ev ≠ .dropped given) → ¬ ev.Grants p lock →
      s'.threads = s.threads → s'.SoleUse C p lock (tr' ++ [ev]) (tr ++ [ev]) := by
    intro hdid hdrop hgrants hthreads
    obtain ⟨th?, rest, hperm, hapart, htends⟩ := h
    exact of_untouched (hthreads ▸ hperm) hapart htends
      (hl.untouched_of_quiet hlock hdid hdrop p lock) hgrants
  cases hstep with
  | thread hm hth => exact h.thread hl hlog hlock hth hrelease
  | drop runtime hsuspended => exact h.drop hl hsuspended hlock
  | @start w threads c =>
    obtain ⟨th?, rest, hperm, hapart, htends⟩ := h
    have hperm' : (threads ++ [Thread.between { program := c }]).Perm
        (th?.toList ++ (rest ++ [Thread.between { program := c }])) := by
      rw [← List.append_assoc]
      exact hperm.append_right _
    refine of_untouched hperm' (fun t ht => ?_) htends
      (hl.untouched_of_quiet hlock (fun _ _ h => nomatch h) (fun _ h => nomatch h) p lock)
      fun ⟨_, _, _, _, _, _, hev⟩ => nomatch hev
    rcases List.mem_append.1 ht with ht | ht
    · exact hapart t ht
    · cases List.mem_singleton.1 ht
      exact ⟨hnew c rfl, fun _ hg => nomatch hg⟩
  | _ =>
    exact hquiet (fun _ _ h => nomatch h) (fun _ h => nomatch h)
      (fun ⟨_, _, _, _, _, _, hev⟩ => nomatch hev) rfl

end SoleUse

end Machine

end Latchkey
