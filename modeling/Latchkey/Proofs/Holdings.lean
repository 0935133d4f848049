import Latchkey.Proofs.GuardedCalls

/-!
# What an owner has held

The tokens under which an owner has held a lock are those that were minted for it and recorded. They
become more only when the owner records one, and its entry changes only when it writes to its
registry or when its guarded sections are dropped. A release deletes under a token that is recorded,
so what it has asked the store to delete is gone for good.

The main statements are `Machine.Lawful.untouched`, for the steps that are not about an owner's
lock, and `Machine.Lawful.not_carries_of_cleared`.
-/

namespace Latchkey

variable {X : Extension}

/-- An owner has held a lock under a token. -/
def WasHeld (tr : List Event) (p : Owner) (lock : String) (token : Token) : Prop :=
  MintedFor tr p lock token ∧ Recorded tr token

theorem WasHeld.append {tr : List Event} {p : Owner} {lock : String} {token : Token}
    (h : WasHeld tr p lock token) (tr' : List Event) : WasHeld (tr ++ tr') p lock token :=
  ⟨h.1.append tr', h.2.append tr'⟩

/-- An owner has no entry for a lock, and no key has a token under which it held the lock. -/
structure World.Clean (tr : List Event) (w : World) (p : Owner) (lock : String) : Prop where
  entry : w.heldBy p lock = none
  keys : ∀ token, WasHeld tr p lock token → ∀ key, ¬ w.Carries key token

theorem World.Clean.concat {tr : List Event} {w : World} {p : Owner} {lock : String} {ev : Event}
    (h : w.Clean tr p lock) (hev : ∀ o x, ev ≠ .did o x) : w.Clean (tr ++ [ev]) p lock where
  entry := h.entry
  keys := by
    rintro token ⟨hm, hrec⟩
    have hm : MintedFor tr p lock token :=
      (mintedFor_concat.1 hm).resolve_right fun ⟨o, _, heq⟩ => hev o _ heq
    have hrec : Recorded tr token :=
      (recorded_concat.1 hrec).resolve_right fun ⟨o, _, _, _, heq⟩ => hev o _ heq
    exact h.keys token ⟨hm, hrec⟩

/-! ## Entries -/

theorem World.heldBy_congr {w w' : World} (h : w'.registries = w.registries) (p : Owner)
    (lock : String) : w'.heldBy p lock = w.heldBy p lock := by
  rw [Ledger.heldBy, Ledger.heldBy, Ledger.registry, Ledger.registry, h]

namespace Task

theorem heldBy_forgetGuard (w : World) (g : Guard) (p : Owner) (lock : String) :
    (forgetGuard w g).1.heldBy p lock =
      if p.guard lock = g then none else w.heldBy p lock := by
  unfold forgetGuard
  by_cases hg : p.guard lock = g
  · subst hg
    rw [if_pos rfl]
    split
    · next hnone => exact hnone
    · exact (Ledger.heldBy_forgetFor ..).trans (if_pos ⟨rfl, rfl⟩)
  · rw [if_neg hg]
    split
    · rfl
    · refine (Ledger.heldBy_forgetFor (p := g.owner) ..).trans (if_neg ?_)
      rintro ⟨rfl, rfl⟩
      exact hg rfl

theorem heldBy_forgetGuards (w : World) (gs : List Guard) (p : Owner) (lock : String) :
    (forgetGuards w gs).1.heldBy p lock =
      if p.guard lock ∈ gs then none else w.heldBy p lock := by
  induction gs generalizing w with
  | nil => rfl
  | cons g rest ih =>
    rw [forgetGuards, ih, heldBy_forgetGuard]
    by_cases hrest : p.guard lock ∈ rest
    · rw [if_pos hrest, if_pos (List.mem_cons_of_mem g hrest)]
    · rw [if_neg hrest]
      simp only [List.mem_cons, hrest, or_false]

/-- What is held under a guard is given up when the guard is dropped. -/
theorem mem_forsaken {w : World} {gs : List Guard} {p : Owner} {lock : String} {token : Token}
    (hheld : w.heldBy p lock = some token) (hg : p.guard lock ∈ gs) :
    (p.guard lock, token) ∈ forsaken w gs := by
  induction gs generalizing w with
  | nil => cases hg
  | cons g rest ih =>
    rw [forsaken, List.mem_append]
    by_cases hhead : p.guard lock = g
    · subst hhead
      have hheld' : (w.registry (p.guard lock).manager).held (p.guard lock).ctx
          (p.guard lock).lock = some token := hheld
      left
      unfold forgetGuard
      rw [hheld']
      exact List.mem_singleton.2 rfl
    · right
      apply ih
      · rw [heldBy_forgetGuard, if_neg hhead]
        exact hheld
      · exact (List.mem_cons.1 hg).resolve_left hhead

end Task

theorem Thread.heldBy_drop (w : World) (th : Thread X) (p : Owner) (lock : String) :
    (th.drop w).heldBy p lock = if p.guard lock ∈ th.guards then none else w.heldBy p lock := by
  have hdrop : ∀ {α : Type} {Y : Extension} (t : Task Y α), (t.drop w).1.heldBy p lock =
      if p.guard lock ∈ t.guards then none else w.heldBy p lock := by
    intro α Y t
    obtain ⟨w', halike, heq⟩ := Task.drop_eq w t
    rw [heq, Task.heldBy_forgetGuards, World.heldBy_congr halike.registries]
  cases th with
  | between t => exact hdrop t
  | inside o log t next => exact hdrop t

theorem Deed.heldBy_of_record {w w' : World} {o : Operation} {s s' : Phase} {x : Exchange}
    {p : Owner} {lock : String} {token : Token} (h : Deed w o s x w' s')
    (hx : x.effect = .registry p.manager (.record p.ctx lock token)) :
    w'.heldBy p lock = some token := by
  obtain ⟨m, ctx⟩ := p
  cases h with
  | @record q lock' ho token' =>
    obtain ⟨m', ctx'⟩ := q
    cases hx
    exact (Ledger.heldBy_recordFor ..).trans (if_pos ⟨rfl, rfl⟩)
  | other ha hplain =>
    rw [hx] at hplain
    exact hplain.elim
  | _ => simp at hx

theorem Deed.not_carries_of_delete {w w' : World} {o : Operation} {s s' : Phase}
    {conn : Connection} {lock : String} {token : Token} {b : Bool}
    (h : Deed w o s ⟨.call (.command conn (.compareAndDelete (lockKey lock) token)), .ok b⟩ w' s') :
    (s = .owning token ∨ (∃ since sharded, s = .written token since sharded) ∨
      ∃ sharded, s = .late token sharded) ∧ ¬ w'.Carries (lockKey lock) token := by
  generalize hkey : lockKey lock = key at h
  cases h with
  | @delete lock' _ _ ho conn hs ks b hks =>
    have hgone := w.not_carries_of_compareAndDelete (lockKey lock') token
    rw [hks] at hgone
    exact ⟨hs.imp_left And.left, hgone⟩
  | other ha hplain => exact hplain.elim

/-! ## Steps that are about something else -/

/-- A step that leaves the entry of an owner for a lock alone, gives the owner no token to hold the
lock under, and brings none back. -/
structure Untouched (tr : List Event) (w : World) (ev : Event) (w' : World) (p : Owner)
    (lock : String) : Prop where
  entry : w'.heldBy p lock = w.heldBy p lock
  held : ∀ token, WasHeld (tr ++ [ev]) p lock token → WasHeld tr p lock token
  keys : ∀ token, WasHeld tr p lock token → w'.Carries (lockKey lock) token →
    w.Carries (lockKey lock) token

namespace Machine

variable {mode : Scheduling} {tr tr' : List Event} {s s' : Machine X} {ev : Event} {p : Owner}
  {lock : String} {token : Token}

/-- An owner comes to hold a lock under a token by recording it. -/
theorem Lawful.wasHeld_concat (h : s.Lawful mode tr) (hs : s.LockStep mode ev s')
    (hheld : WasHeld (tr ++ [ev]) p lock token) :
    WasHeld tr p lock token ∨ ∃ o : Operation, o.ActsFor p lock ∧
      ev = .did o ⟨.registry p.manager (.record p.ctx lock token), ()⟩ := by
  obtain ⟨hm, hrec⟩ := hheld
  have hunique := (h.step hs).world.unique
  rcases recorded_concat.1 hrec with hrec | ⟨o, p', lock', ho, rfl⟩
  · obtain ⟨p', lock', hm'⟩ := h.world.recorded token hrec
    obtain ⟨rfl, rfl⟩ := hunique _ _ _ _ _ hm (hm'.append [ev])
    exact .inl ⟨hm', hrec⟩
  · obtain ⟨before, after, hdeed⟩ := h.deed hs ho.isLock
    have hentry : s'.world.heldBy p' lock' = some token := hdeed.heldBy_of_record rfl
    obtain ⟨hm', -⟩ := (h.step hs).world.registry p' lock' token hentry
    obtain ⟨rfl, rfl⟩ := hunique _ _ _ _ _ hm hm'
    exact .inr ⟨o, ho, rfl⟩

/-- An entry is kept by steps that neither write it nor drop a thread. -/
theorem Lawful.heldBy_step (h : s.Lawful mode tr) (hs : s.LockStep mode ev s')
    (hwrite : ∀ o x, ev = .did o x → o.IsLock → ¬ x.effect.Writes p lock)
    (hdrop : ∀ given, ev ≠ .dropped given) : s'.world.heldBy p lock = s.world.heldBy p lock := by
  have hs' := hs
  obtain ⟨hstep, hspares⟩ := hs
  cases hstep with
  | @thread w w' pre post th th' ev hm hth =>
    cases hth with
    | perform hs hx => exact World.heldBy_congr (hspares trivial).registries p lock
    | @rest t t' w' hs =>
      exact World.heldBy_congr (Task.alike_of_waits hs).registries p lock
    | @work o log t t' next w' x hs hx =>
      by_cases ho : o.IsLock
      · obtain ⟨before, after, hdeed⟩ := h.deed hs' ho
        exact hdeed.heldBy_eq (hwrite o x rfl ho)
      · exact World.heldBy_congr (hspares ho).registries p lock
    | await hs =>
      exact World.heldBy_congr (Task.alike_of_waits hs).registries p lock
    | _ => rfl
  | drop runtime hs => exact absurd rfl (hdrop _)
  | _ => rfl

theorem Lawful.untouched (h : s.Lawful mode tr) (hs : s.LockStep mode ev s')
    (hentry : s'.world.heldBy p lock = s.world.heldBy p lock)
    (hwrite : ∀ o x, ev = .did o x → o.IsLock → ¬ x.effect.Writes p lock) :
    Untouched tr s.world ev s'.world p lock where
  entry := hentry
  held := by
    intro token hheld
    rcases h.wasHeld_concat hs hheld with hheld | ⟨o, ho, hev⟩
    · exact hheld
    · exact absurd ⟨rfl, rfl⟩ (hwrite o _ hev ho.isLock)
  keys := by
    intro token hheld hc
    exact Classical.byContradiction fun hlost => h.lost_step hs hheld.2 hlost hc

end Machine

/-! ## What is cleared is gone -/

/-- An operation that gives a lock up has minted no token, and has refreshed nothing. -/
theorem Operation.phase_of_isRelease {o : Operation} {p : Program X o.Answer} {log : List Exchange}
    (hrelease : o.IsRelease) (ho : o.IsLock) (h : (o.program (X := X)).After log p) :
    (∃ clock, o.phase log = .seeking clock) ∨ ∃ token, o.phase log = .owning token := by
  have hacquire : ¬ o.IsAcquire := by
    cases o with
    | acquire m ctx lock ttl wait => exact hrelease.elim
    | _ => exact id
  induction h with
  | start =>
    cases o with
    | clear guard token => exact .inr ⟨token, rfl⟩
    | _ => exact .inl ⟨0, rfl⟩
  | @effect log e next h r ih =>
    have hconduct : o.mayPerform _ e := (o.conducts ho).permits h
    rw [phase_concat]
    cases e with
    | clock =>
      rcases ih with ⟨clock, hphase⟩ | ⟨token, hphase⟩
      · exact .inl ⟨r, by rw [hphase]; rfl⟩
      · exact .inr ⟨token, by rw [hphase]; rfl⟩
    | deployment =>
      rcases ih with ⟨a, hphase⟩ | ⟨a, hphase⟩ <;> simp [hphase, Phase.afterDeployment]
    | mint => exact absurd hconduct hacquire
    | registry m a =>
      cases a with
      | held ctx lock =>
        cases r with
        | none => exact ih
        | some token => exact .inr ⟨token, rfl⟩
      | record ctx lock token => exact absurd hconduct.1 hacquire
      | _ => exact ih
    | call c =>
      cases c with
      | command conn cmd =>
        cases cmd with
        | set key token ttl onlyIfAbsent => exact absurd hconduct hacquire
        | compareAndDelete key token =>
          rcases ih with ⟨a, hphase⟩ | ⟨a, hphase⟩ <;> simp [hphase, Phase.afterDelete]
        | compareAndExpire key token ttl => exact absurd hconduct hacquire
        | _ => exact ih
      | _ => exact ih
    | _ => exact ih
  | extended h r ih => exact ih

/-- An operation that has come to the deletion of a token has asked the store for it. -/
theorem Operation.mem_of_surrender {o : Operation} {p : Program X o.Answer} {log : List Exchange}
    {token : Token} (hrelease : o.IsRelease) (ho : o.IsLock)
    (h : (o.program (X := X)).After log p) (hs : o.surrender log = .deleted token) :
    ∃ lock conn b, o.lock? = some lock ∧
      ⟨.call (.command conn (.compareAndDelete (lockKey lock) token)), .ok b⟩ ∈ log := by
  induction h with
  | start => cases o <;> cases hs
  | @effect log e next h r ih =>
    have hconduct : o.mayPerform _ e := (o.conducts ho).permits h
    rw [surrender_concat] at hs
    have hearlier : o.surrender log = .deleted token → ∃ lock conn b, o.lock? = some lock ∧
        ⟨.call (.command conn (.compareAndDelete (lockKey lock) token)), .ok b⟩ ∈
          log ++ [⟨e, r⟩] := by
      intro hs
      obtain ⟨lock, conn, b, hlock, hmem⟩ := ih hs
      exact ⟨lock, conn, b, hlock, List.mem_append_left _ hmem⟩
    cases e with
    | registry m a =>
      cases a with
      | held ctx lock => cases r <;> cases hs
      | forget ctx lock => cases hs
      | _ => exact hearlier hs
    | call c =>
      cases c with
      | command conn cmd =>
        cases cmd with
        | compareAndDelete key token' =>
          rcases r with failure | b
          · exact hearlier hs
          · cases hs
            obtain ⟨hkey, -⟩ := hconduct hrelease
            obtain ⟨lock, hlock, rfl⟩ := Option.map_eq_some_iff.1 hkey
            exact ⟨lock, conn, b, hlock, List.mem_append_right _ (List.mem_singleton.2 rfl)⟩
        | _ => exact hearlier hs
      | _ => exact hearlier hs
    | _ => exact hearlier hs
  | extended h r ih => exact ih hs

namespace Machine

variable {mode : Scheduling} {tr tr' : List Event} {s s' : Machine X} {ev : Event} {p : Owner}
  {lock : String} {token : Token}

/-- What an operation has come to that gives a lock up and asks for the deletion of its key. -/
theorem Lawful.deleted {o : Operation} {conn : Connection} {b : Bool} (h : s.Lawful mode tr)
    (hrelease : o.IsRelease) (ho : o.IsLock)
    (hs : s.LockStep mode
      (.did o ⟨.call (.command conn (.compareAndDelete (lockKey lock) token)), .ok b⟩) s') :
    Recorded tr token ∧ ¬ s'.world.Carries (lockKey lock) token := by
  obtain ⟨hstep, -⟩ := hs
  cases hstep with
  | @thread w w' pre post th th' ev hm hth =>
    cases hth with
    | work hs hx =>
      obtain ⟨hafter, hfits⟩ := h.threads _ (List.mem_append_right _ List.mem_cons_self) ho
      have hphase := o.phase_of_isRelease hrelease ho hafter
      obtain ⟨next, hp, -, hanswer, -⟩ := Task.step_eq_moved hs hx
      rw [hp] at hafter
      have hdeed := Deed.of_answer ((o.obeys ho).permits hafter) hanswer
      obtain ⟨hs, hlost⟩ := hdeed.not_carries_of_delete
      refine ⟨?_, hlost⟩
      change o.phase _ = _ ∨ (∃ _ _, o.phase _ = _) ∨ ∃ _, o.phase _ = _ at hs
      rcases hphase with ⟨clock, hphase⟩ | ⟨token', hphase⟩
      · simp [hphase] at hs
      · rw [hphase] at hs hfits
        obtain rfl : token' = token := by simpa using hs
        exact hfits.2

/-- A token is under its lock key no more once an operation that clears the key has succeeded. -/
theorem not_carries_of_cleared {s₀ : Machine X} {guard : Guard} {log : List Exchange} {b : Bool}
    (h₀ : s₀.Initial) (h : Run (LockStep mode) s₀ tr s)
    (hmem : Event.returned (.clear guard token) log (.ok b) ∈ tr) :
    ¬ s.world.Carries (lockKey guard.lock) token := by
  have hclear : (Operation.clear guard token).IsLock := rfl
  have hrelease : (Operation.clear guard token).IsRelease := trivial
  obtain ⟨tr₁, tr₂, rfl⟩ := List.append_of_mem hmem
  obtain ⟨s₁, s₂, h₁, hs, h₂⟩ := h.split
  have hlogged := logged_of_run h₀.threads (h₁.mono LockStep.step)
  obtain ⟨hafter, hlog⟩ := hlogged.returned hs.step
  have hcame : (Operation.clear guard token).surrender log = .deleted token :=
    ((Operation.clear guard token).conducts hclear).final hafter rfl
  obtain ⟨lock, conn, b', hlock, hx⟩ := Operation.mem_of_surrender hrelease hclear hafter hcame
  obtain rfl : guard.lock = lock := Option.some.inj hlock
  -- the store has answered the deletion on the way to the return
  obtain ⟨tr₃, tr₄, rfl⟩ := List.append_of_mem (hlog _ hx)
  obtain ⟨s₃, s₄, h₃, hdid, h₄⟩ := h₁.split
  have hl₃ := lawful_of_run h₀ h₃
  obtain ⟨hrec, hlost⟩ := hl₃.deleted hrelease hclear hdid
  exact (hl₃.step hdid).lost_run ((h₄.snoc hs).append h₂) (hrec.append _) hlost

end Machine

end Latchkey
