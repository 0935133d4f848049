import Latchkey.Proofs.Users

/-!
# Deletions for sections that were dropped

When a guarded section is dropped its owner forgets the lock at once, while the key is deleted
later, whenever there is time for it. By then the owner may have acquired the lock again. The
deletion does no harm to that: it asks the store for nothing but to delete its own token, and this
token is in no registry and never will be again.

The main statements are `Machine.abandoned_of_run` and `Machine.Lawful.stores_of_shuns`: while only
others are at work, the token that an owner holds a lock under stays as it is stored.
-/

namespace Latchkey

variable {X : Extension}

/-! ## What a deletion asks for -/

/-- Asks the store for nothing but the deletion of a token under the key of a lock. -/
def deletes (lock : String) (token : Token) : Discipline (List Exchange) :=
  .ofLog fun _ e => ∀ conn cmd, e = .call (.command conn cmd) →
    cmd = .compareAndDelete (lockKey lock) token

theorem Manager.releaseAbandoned_deletes (lock : String) (token : Token) :
    (releaseAbandoned (X := X) lock token).run.Obeys (deletes lock token) [] fun _ _ => True := by
  simp [releaseAbandoned, deletes, Discipline.ofLog, forall_except]

theorem Operation.clear_asks {guard : Guard} {token : Token} {log : List Exchange}
    {conn : Connection} {cmd : Command}
    {next : (Effect.call (.command conn cmd)).Reply → Program X (Except StoreError Bool)}
    (h : ((Operation.clear guard token).program (X := X)).After log
      (.effect (.call (.command conn cmd)) next)) :
    cmd = .compareAndDelete (lockKey guard.lock) token :=
  (Manager.releaseAbandoned_deletes guard.lock token).permits h conn cmd rfl

/-! ## What comes to be held -/

/-- An owner comes to hold a lock only under the token that an operation knows alone. -/
theorem Deed.heldBy_before {w w' : World} {o : Operation} {s s' : Phase} {x : Exchange} {p : Owner}
    {lock : String} {token : Token} (h : Deed w o s x w' s')
    (hheld : w'.heldBy p lock = some token) :
    w.heldBy p lock = some token ∨ s.secret? = some token := by
  cases h with
  | @record q lock' ho token' =>
    rw [World.withLedger, Ledger.heldBy_recordFor] at hheld
    by_cases heq : p = q ∧ lock = lock'
    · rw [if_pos heq] at hheld
      exact .inr hheld
    · rw [if_neg heq] at hheld
      exact .inl hheld
  | @forget q lock' ho s =>
    rw [World.withLedger, Ledger.heldBy_forgetFor] at hheld
    by_cases heq : p = q ∧ lock = lock'
    · rw [if_pos heq] at hheld
      cases hheld
    · rw [if_neg heq] at hheld
      exact .inl hheld
  | @dispose q ho s =>
    rw [World.withLedger, Ledger.heldBy_disposeFor] at hheld
    by_cases heq : p = q
    · rw [if_pos heq] at hheld
      cases hheld
    · rw [if_neg heq] at hheld
      exact .inl hheld
  | other ha hx =>
    rw [World.heldBy_congr ha.registries] at hheld
    exact .inl hheld
  | _ => exact .inl hheld

theorem Task.fst_mem_of_mem_forsaken {w : World} {gs : List Guard} {d : Guard × Token}
    (h : d ∈ forsaken w gs) : d.1 ∈ gs := by
  induction gs generalizing w with
  | nil => cases h
  | cons g rest ih =>
    rcases List.mem_append.1 h with h | h
    · obtain ⟨a, -, rfl⟩ := List.mem_map.1 h
      exact List.mem_cons_self
    · exact List.mem_cons_of_mem g (ih h)

namespace Machine

variable {mode : Scheduling} {tr tr' : List Event} {s s' : Machine X} {ev : Event} {p : Owner}
  {lock : String} {token : Token}

/-- An exchange of an operation is that of a thread. -/
theorem Step.of_did {o : Operation} {x : Exchange} (hs : s.Step mode (.did o x) s') :
    ∃ log t next k, .inside o log t next ∈ s.threads ∧ t.program = .effect x.effect k ∧
      (s'.world, x.reply) = s.world.answer t.wait x.effect := by
  cases hs with
  | @thread w w' pre post th th' ev hm hth =>
    cases hth with
    | work hs hx =>
      obtain ⟨k, hp, -, hanswer, -⟩ := Task.step_eq_moved hs hx
      exact ⟨_, _, _, k, List.mem_append_right _ List.mem_cons_self, hp, hanswer⟩

/-- A recorded token comes into no registry any more. -/
theorem Lawful.heldBy_before (h : s.Lawful mode tr) (hs : s.LockStep mode ev s')
    (hheld : s'.world.heldBy p lock = some token) :
    s.world.heldBy p lock = some token ∨ ¬ Recorded tr token := by
  have hcongr : s'.world.registries = s.world.registries →
      s.world.heldBy p lock = some token := by
    intro heq
    rw [← World.heldBy_congr heq]
    exact hheld
  obtain ⟨hstep, hspares⟩ := hs
  cases hstep with
  | @thread w w' pre post th th' ev hm hth =>
    have hmem : th ∈ pre ++ th :: post := List.mem_append_right _ List.mem_cons_self
    cases hth with
    | perform hs hx => exact .inl (hcongr (hspares trivial).registries)
    | rest hs =>
      exact .inl (hcongr (Task.alike_of_waits hs).registries)
    | @work o log t t' next w' x hs hx =>
      by_cases ho : o.IsLock
      · obtain ⟨hafter, -⟩ := h.threads _ hmem ho
        obtain ⟨k, hp, -, hanswer, -⟩ := Task.step_eq_moved hs hx
        rw [hp] at hafter
        have hdeed : Deed w o (o.phase log) x w' _ :=
          .of_answer ((o.obeys ho).permits hafter) hanswer
        rcases hdeed.heldBy_before hheld with hheld | hsecret
        · exact .inl hheld
        · obtain ⟨q, hq⟩ := Option.isSome_iff_exists.1 ho
          have hsecret : (Thread.inside o log t next).secret? = some token := by
            simpa [Thread.secret?, hq] using hsecret
          exact .inr (h.hidden token (List.mem_filterMap.2 ⟨_, hmem, hsecret⟩))
      · exact .inl (hcongr (hspares ho).registries)
    | await hs =>
      exact .inl (hcongr (Task.alike_of_waits hs).registries)
    | _ => exact .inl hheld
  | @drop w pre post th runtime hsuspended =>
    exact .inl ((th.drop_forgets w).heldBy p lock token hheld)
  | _ => exact .inl hheld

/-! ## Abandoned tokens -/

/-- The tokens that are being deleted for sections that were dropped are in no registry. -/
def Abandoned (tr : List Event) (s : Machine X) : Prop :=
  ∀ (guard : Guard) (token : Token) (log : List Exchange) (t : Task X (Except StoreError Bool))
    (next : Except StoreError Bool → Client X Unit),
    .inside (.clear guard token) log t next ∈ s.threads →
      Recorded tr token ∧ s.world.heldBy guard.owner guard.lock ≠ some token

theorem Abandoned.step (h : s.Abandoned tr) (hl : s.Lawful mode tr) (hs : s.LockStep mode ev s') :
    s'.Abandoned (tr ++ [ev]) := by
  -- a deletion that was on its way before is as it was
  have hold : ∀ {guard token log t next},
      Thread.inside (.clear guard token) log t next ∈ s.threads → Recorded (tr ++ [ev]) token ∧
        s'.world.heldBy guard.owner guard.lock ≠ some token := by
    intro guard token log t next hmem
    obtain ⟨hrec, hnot⟩ := h guard token log t next hmem
    refine ⟨hrec.append _, fun hheld => ?_⟩
    rcases hl.heldBy_before hs hheld with hheld | hno
    · exact hnot hheld
    · exact hno hrec
  obtain ⟨hstep, -⟩ := hs
  cases hstep with
  | @thread w w' pre post th th' ev hm hth =>
    have hthread : th ∈ pre ++ th :: post := List.mem_append_right _ List.mem_cons_self
    intro guard token log t next hmem
    simp only [List.mem_append, Option.mem_toList] at hmem
    rcases hmem with (hmem | hmem) | hmem
    · exact hold (List.mem_append_left _ hmem)
    · cases hth with
      | call hs ho =>
        cases hmem
        exact ho.elim
      | work hs hx =>
        cases hmem
        exact hold hthread
      | await hs =>
        cases hmem
        exact hold hthread
      | _ => cases hmem
    · exact hold (List.mem_append_right _ (List.mem_cons_of_mem _ hmem))
  | start c =>
    intro guard token log t next hmem
    rcases List.mem_append.1 hmem with hmem | hmem
    · exact hold hmem
    · cases List.mem_singleton.1 hmem
  | @drop w pre post th runtime hsuspended =>
    intro guard token log t next hmem
    rcases List.mem_append.1 hmem with hmem | hmem
    · exact hold (mem_middle_of_mem hmem)
    · cases runtime with
      | true =>
        obtain ⟨d, hd, heq⟩ := List.mem_map.1 hmem
        cases heq
        have hgiven := Task.heldBy_of_mem_forsaken hd
        obtain ⟨-, hrec⟩ := hl.world.registry _ _ _ hgiven
        refine ⟨hrec.append _, ?_⟩
        have hdropped := th.heldBy_drop w d.1.owner d.1.lock
        have hguard : d.1.owner.guard d.1.lock ∈ th.guards := Task.fst_mem_of_mem_forsaken hd
        rw [if_pos hguard] at hdropped
        show (th.drop w).heldBy d.1.owner d.1.lock ≠ _
        rw [hdropped]
        exact nofun
      | false => cases hmem
  | purge => exact fun _ _ _ _ _ hmem => hold hmem
  | elapse ms hs => exact fun _ _ _ _ _ hmem => hold hmem
  | configure d hd => exact fun _ _ _ _ _ hmem => hold hmem

/-- In every run the tokens being deleted for dropped sections are in no registry. -/
theorem abandoned_of_run {s₀ : Machine X} (h₀ : s₀.Initial) (h : Run (LockStep mode) s₀ tr s) :
    s.Abandoned tr := by
  induction h with
  | nil =>
    intro guard token log t next hmem
    rw [h₀.threads] at hmem
    cases hmem
  | snoc h hs ih => exact ih.step (lawful_of_run h₀ h) hs

/-- While only others are at work, and no time passes, the token that an owner holds a lock under
stays as it is stored. -/
theorem Lawful.stores_of_shuns {deadline : Nat} (h : s.Lawful mode tr) (ha : s.Abandoned tr)
    (hs : s.LockStep mode ev s') (hshuns : ∀ o x, ev = .did o x → o.Shuns p)
    (hheld : s.world.heldBy p lock = some token)
    (hst : s.world.Stores (lockKey lock) token deadline) (hlive : s.world.now < deadline) :
    s'.world.Stores (lockKey lock) token deadline := by
  have hc := hst.carries hlive
  obtain ⟨hminted, -⟩ := h.world.registry p lock token hheld
  -- an operation that changes the key acts for the owner, so it is a deletion for a dropped section
  have hclear : ∀ {o : Operation} {q : Owner} {cmd : Command} {conn : Connection}
      {r : Except StoreError cmd.Answer}, o.ActsFor q lock → MintedFor tr q lock token →
      ev = .did o ⟨.call (.command conn cmd), r⟩ →
      ∃ token', cmd = .compareAndDelete (lockKey lock) token' ∧ token' ≠ token := by
    intro o q cmd conn r hact hm hev
    obtain ⟨rfl, -⟩ := h.world.unique _ _ _ _ _ hminted hm
    obtain ⟨guard, token', rfl⟩ := hshuns _ _ hev hact.1
    subst hev
    obtain ⟨log, t, next, k, hmem, hp, -⟩ := hs.step.of_did
    obtain ⟨hafter, -⟩ := h.threads _ hmem rfl
    rw [hp] at hafter
    have hcmd := Operation.clear_asks hafter
    have howner : guard.owner = p := Option.some.inj hact.1
    have hlock : guard.lock = lock := Option.some.inj hact.2
    refine ⟨token', by rw [hcmd, hlock], ?_⟩
    rintro rfl
    obtain ⟨-, hnot⟩ := ha guard token' log t next hmem
    rw [howner, hlock] at hnot
    exact hnot hheld
  obtain ⟨own, hchange, -⟩ := h.keyChange hs (lockKey lock)
  cases hchange with
  | same heq => exact heq.trans hst
  | foreign hno _ => exact absurd rfl (hno lock)
  | purged _ hgone _ => exact absurd hc (World.not_carries_of_live? hgone _)
  | wrote _ _ _ _ _ hgone _ => exact absurd hc (World.not_carries_of_live? hgone _)
  | deleted ho hkey hev hm hown hlive _ =>
    obtain rfl := lockKey_inj.1 hkey
    obtain rfl := hc.unique hlive
    obtain ⟨token', hcmd, hne⟩ := hclear ho hm hev
    cases hcmd
    exact absurd rfl hne
  | extended ho hkey hev hm hrec hpos hlive _ =>
    obtain rfl := lockKey_inj.1 hkey
    obtain rfl := hc.unique hlive
    obtain ⟨token', hcmd, -⟩ := hclear ho hm hev
    cases hcmd

end Machine

end Latchkey
