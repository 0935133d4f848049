import Latchkey.Proofs.FreeLock

/-!
# Keys of locks that are held

An acquisition that succeeds leaves the key of the lock with a token of the caller. The key keeps
it until its deadline passes, or until an operation of the same owner deletes it.

The main statements are `Machine.Lawful.granted`, what the key has when an acquisition succeeds, and
`Machine.Lawful.carries_run`, how long it keeps it.
-/

namespace Latchkey

variable {X : Extension}

theorem Deed.gone_of_delete {w w' : World} {o : Operation} {s s' : Phase} {conn : Connection}
    {key : String} {token : Token}
    (h : Deed w o s ⟨.call (.command conn (.compareAndDelete key token)), .ok true⟩ w' s') :
    w'.store.keyspace.find? key = none := by
  cases h with
  | @delete lock token s ho conn hs ks b hks =>
    have hfind := Keyspace.find?_of_compareAndDelete hks (lockKey lock)
    rwa [if_pos ⟨rfl, rfl⟩] at hfind
  | other ha hx => exact hx.elim

theorem Deed.carries_of_delete {w w' : World} {o : Operation} {s s' : Phase} {conn : Connection}
    {key : String} {token : Token}
    (h : Deed w o s ⟨.call (.command conn (.compareAndDelete key token)), .ok true⟩ w' s') :
    w.Carries key token := by
  cases h with
  | @delete lock token s ho conn hs ks b hks =>
    exact Keyspace.compareAndDelete_snd.1 (congrArg Prod.snd hks)
  | other ha hx => exact hx.elim

namespace Machine

variable {mode : Scheduling} {tr tr' : List Event} {s s' : Machine X} {ev : Event} {p : Owner}
  {lock : String} {token : Token}

/-- In a run the deadline in force of a lock key passes while the key has a token. -/
def LapsesIn (mode : Scheduling) (s : Machine X) (tr : List Event) (s' : Machine X) (lock : String)
    (token : Token) : Prop :=
  ∃ tr₁ ms tr₂ s₁ s₂ deadline, tr = tr₁ ++ .elapsed ms :: tr₂ ∧
    Run (LockStep mode) s tr₁ s₁ ∧ s₁.LockStep mode (.elapsed ms) s₂ ∧
    Run (LockStep mode) s₂ tr₂ s' ∧ s₁.world.Stores (lockKey lock) token deadline ∧
    s₁.world.now < deadline ∧ deadline ≤ s₂.world.now

theorem LapsesIn.snoc (h : LapsesIn mode s tr s' lock token) {s'' : Machine X}
    (hs : s'.LockStep mode ev s'') : LapsesIn mode s (tr ++ [ev]) s'' lock token := by
  obtain ⟨tr₁, ms, tr₂, s₁, s₂, deadline, rfl, h₁, hl, h₂, hd⟩ := h
  exact ⟨tr₁, ms, tr₂ ++ [ev], s₁, s₂, deadline, by simp, h₁, hl, h₂.snoc hs, hd⟩

namespace Lawful

theorem deed {o : Operation} {x : Exchange} (h : s.Lawful mode tr)
    (hs : s.LockStep mode (.did o x) s') (ho : o.IsLock) :
    ∃ before after, Deed s.world o before x s'.world after := by
  obtain ⟨hstep, -⟩ := hs
  cases hstep with
  | @thread w w' pre post th th' ev hm hth =>
    cases hth with
    | work hs hx =>
      obtain ⟨hafter, -⟩ := h.threads _ (List.mem_append_right _ List.mem_cons_self) ho
      obtain ⟨next, hp, -, hanswer, -⟩ := Task.step_eq_moved hs hx
      rw [hp] at hafter
      exact ⟨_, _, Deed.of_answer ((o.obeys ho).permits hafter) hanswer⟩

theorem stores_of_carries (h : s.Lawful mode tr) (hc : s.world.Carries (lockKey lock) token) :
    ∃ deadline, s.world.Stores (lockKey lock) token deadline ∧ s.world.now < deadline := by
  obtain ⟨e, he, ht⟩ := hc
  obtain ⟨hfind, hlive⟩ := Keyspace.live?_eq_some.1 he
  obtain ⟨p, lock', token', deadline, -, -, rfl⟩ := h.world.keys _ e hfind (.inl ⟨lock, rfl⟩)
  rw [Entry.holds_iff, Entry.ofText_inj] at ht
  refine ⟨deadline, ht ▸ hfind, ?_⟩
  simpa [Entry.isLive] using hlive

/-- In one step a lock key keeps a recorded token, or its deadline passes, or the owner for which
the token was minted gives the lock up. -/
theorem carries_step (h : s.Lawful mode tr) (hs : s.LockStep mode ev s')
    (hm : MintedFor tr p lock token) (hrec : Recorded tr token)
    (hc : s.world.Carries (lockKey lock) token) :
    s'.world.Carries (lockKey lock) token ∨ LapsesIn mode s [ev] s' lock token ∨
      GivenUpBy [ev] p lock token := by
  by_cases hev : ∃ ms, ev = .elapsed ms
  · obtain ⟨ms, rfl⟩ := hev
    obtain ⟨deadline, hst, hlt⟩ := h.stores_of_carries hc
    by_cases hle : deadline ≤ s'.world.now
    · exact .inr (.inl ⟨[], ms, [], s, s', deadline, rfl, .nil, hs, .nil, hst, hlt, hle⟩)
    · refine .inl ?_
      have hst' : s'.world.Stores (lockKey lock) token deadline := by
        obtain ⟨hstep, -⟩ := hs
        cases hstep with
        | thread hm hth => cases hth
        | elapse => exact hst
      exact hst'.carries (Nat.lt_of_not_le hle)
  · obtain ⟨own, hk, hown⟩ := h.keyChange hs (lockKey lock)
    have hnow := h.now_eq hs fun ms heq => hev ⟨ms, heq⟩
    rcases hk.carries_after hnow hc with hc | ⟨o, p', conn, ho, hm', hrel | hrel, rfl⟩
    · exact .inl hc
    · obtain ⟨rfl, -⟩ := h.world.unique _ _ _ _ _ hm hm'
      exact .inr (.inr ⟨o, conn, ho, hrel.2, List.mem_singleton.2 rfl⟩)
    · exact absurd hrec (hown token hrel)

theorem carries_run (h : s.Lawful mode tr) (hr : Run (LockStep mode) s tr' s')
    (hm : MintedFor tr p lock token) (hrec : Recorded tr token)
    (hc : s.world.Carries (lockKey lock) token) :
    s'.world.Carries (lockKey lock) token ∨ LapsesIn mode s tr' s' lock token ∨
      GivenUpBy tr' p lock token := by
  -- by induction on the run: the first step that takes the token away says how
  induction hr with
  | nil => exact .inl hc
  | @snoc tr' s₁ s₂ ev hr hs ih =>
    rcases ih with hc | hlapse | hup
    · rcases (h.run hr).carries_step hs (hm.append _) (hrec.append _) hc with hc | hlapse | hup
      · exact .inl hc
      · obtain ⟨tr₁, ms, tr₂, t₁, t₂, deadline, heq, h₁, he, h₂, hd⟩ := hlapse
        exact .inr (.inl ⟨tr' ++ tr₁, ms, tr₂, t₁, t₂, deadline, by simp [heq], hr.append h₁, he,
          h₂, hd⟩)
      · obtain ⟨o, conn, ho, hrel, hmem⟩ := hup
        exact .inr (.inr ⟨o, conn, ho, hrel, List.mem_append_right _ hmem⟩)
    · exact .inr (.inl (hlapse.snoc hs))
    · exact .inr (.inr (hup.append _))

/-- What a lock operation knows when it returns. -/
theorem returned {o : Operation} {log : List Exchange} {a : o.Answer} (h : s.Lawful mode tr)
    (hs : s.LockStep mode (.returned o log a) s') (ho : o.IsLock) :
    s'.world = s.world ∧ (o.program (X := X)).After log (.done a) ∧
      o.Settles (o.phase log) a ∧ ∃ wait, (o.phase log).Fits mode tr s.world o wait := by
  obtain ⟨hstep, -⟩ := hs
  cases hstep with
  | @thread w w' pre post th th' ev hm hth =>
    cases hth with
    | @«return» _ _ t next _ hfin =>
      obtain ⟨hafter, hf⟩ := h.threads _ (List.mem_append_right _ List.mem_cons_self) ho
      have hdone : t.program = .done a := Task.step_eq_finished hfin
      rw [hdone] at hafter
      exact ⟨rfl, hafter, (o.obeys ho).final hafter, _, hf⟩

/-- When an acquisition succeeds, the key of the lock has the token under which the call knows it to
be held; side by side with others it may have been deleted by its own owner before the call
returned. -/
theorem granted {m : Manager} {ctx : Context} {ttl wait : Nat} {log : List Exchange}
    (h : s.Lawful mode tr)
    (hs : s.LockStep mode (.returned (.acquire m ctx lock ttl wait) log (.ok true)) s') :
    ∃ token, (Operation.acquire m ctx lock ttl wait).phase log = .held token ∧
      MintedFor tr ⟨m.id, ctx⟩ lock token ∧ Recorded tr token ∧
      (s'.world.Carries (lockKey lock) token ∨
        mode = .parallel ∧ DeletedBy tr ⟨m.id, ctx⟩ lock token) := by
  obtain ⟨hworld, -, hsettles, w, hf⟩ := h.returned hs rfl
  have hact : (Operation.acquire m ctx lock ttl wait).ActsFor ⟨m.id, ctx⟩ lock := ⟨rfl, rfl⟩
  cases hphase : (Operation.acquire m ctx lock ttl wait).phase log with
  | held token =>
    rw [hphase] at hf
    obtain ⟨-, ⟨p, lock', hact', hm⟩, hrec, p', lock'', hact'', hforce⟩ := hf
    obtain ⟨rfl, rfl⟩ := hact.unique hact'
    obtain ⟨rfl, rfl⟩ := hact.unique hact''
    exact ⟨token, rfl, hm, hrec, hworld ▸ hforce⟩
  | _ =>
    rw [hphase] at hsettles
    simp [Operation.Settles, Phase.Settles] at hsettles

end Lawful

theorem initial_ofStore {m : Memory} (hm : m.keyspace = ∅) (firstToken : Nat) :
    (⟨World.ofStore m firstToken, []⟩ : Machine X).Initial where
  threads := rfl
  registries := fun _ _ => rfl
  keys := fun lock => congrArg (Table.find? · (lockKey lock)) hm
  tokens := fun key e n he => by
    have he : m.keyspace.find? key = some e := he
    rw [hm] at he
    cases he

end Machine

end Latchkey
