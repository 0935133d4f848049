import Latchkey.Proofs.LockLifetimes
import Latchkey.Proofs.Schedules

/-!
# Mutual exclusion

After an acquisition has succeeded no other owner is told that it holds the lock, until the deadline
of the key passes or an operation of the same owner deletes the key.

An acquisition is told that it has succeeded a little after the store has written or renewed its
token. Where threads run side by side an operation of the same owner may delete the key in between;
then the acquisition has *forfeited* its token when it returns.

The main statement is `mutual_exclusion`, for all clients, all orders of steps, all stores. What it
leaves open happens: `granted_twice`.
-/

namespace Latchkey

variable {X : Extension}

/-! ## How an acquisition comes to its token -/

namespace Phase

/-- The token that the key of the lock was given. -/
def placed? : Phase → Option Token
  | .written token _ _ => some token
  | .late token _ => some token
  | .granted token => some token
  | .held token => some token
  | _ => none

variable {s : Phase} {token : Token}

@[simp] theorem placed?_afterClock (s : Phase) (ttl now : Nat) :
    (s.afterClock ttl now).placed? = s.placed? := by
  cases s with
  | written token since sharded =>
    simp only [afterClock]
    split <;> rfl
  | _ => rfl

theorem placed?_of_afterDeployment {d : Deployment}
    (h : (s.afterDeployment d).placed? = some token) : s.placed? = some token := by
  cases s with
  | fresh => cases h
  | _ => exact h

theorem placed?_of_afterMint {token' : Token} (h : (s.afterMint token').placed? = some token) :
    s.placed? = some token := by
  cases s with
  | seeking => cases h
  | _ => exact h

theorem placed?_of_afterLook {token? : Option Token}
    (h : (s.afterLook token?).placed? = some token) : s.placed? = some token := by
  cases token? with
  | none => exact h
  | some token' => cases h

@[simp] theorem placed?_afterRecord (s : Phase) : s.afterRecord.placed? = s.placed? := by
  cases s <;> rfl

theorem placed?_of_afterDelete (h : s.afterDelete.placed? = some token) :
    s.placed? = some token := by
  cases s with
  | written => cases h
  | late => cases h
  | _ => exact h

theorem placed?_of_afterWrite {r : Except StoreError Bool} {token' : Token} {clock : Nat}
    {sharded : Bool} (h : ((minted token' clock sharded).afterWrite r).placed? = some token) :
    r = .ok true ∧ token' = token := by
  cases r with
  | error e => cases h
  | ok b =>
    cases b with
    | false => cases h
    | true => exact ⟨rfl, Option.some.inj h⟩

theorem placed?_of_afterExpire {r : Except StoreError Bool} {token' : Token}
    (h : ((owning token').afterExpire r).placed? = some token) : r = .ok true ∧ token' = token := by
  cases r with
  | error e => cases h
  | ok b =>
    cases b with
    | false => cases h
    | true => exact ⟨rfl, Option.some.inj h⟩

end Phase

namespace Manager

/-- A token is placed by an exchange in which the store has written or refreshed it. -/
theorem renews_of_placed? (m : Manager) (ctx : Context) (lock : String) (ttl wait : Nat) {s : Phase}
    {x : Exchange} {token : Token} {told : Option (Option Token)}
    (hp : (Operation.acquire m ctx lock ttl wait).permits s x.effect)
    (hterms : Terms.permits ttl wait told x.effect)
    (h : ((Operation.acquire m ctx lock ttl wait).next s x).placed? = some token) :
    s.placed? = some token ∨
      (Event.did (.acquire m ctx lock ttl wait) x).Renews lock token ttl := by
  unfold Operation.next at h
  split at h
  · exact .inl (by simpa using h)
  · exact .inl (Phase.placed?_of_afterDeployment h)
  · exact .inl (Phase.placed?_of_afterMint h)
  · exact .inl (Phase.placed?_of_afterLook h)
  · exact .inl (by simpa using h)
  · next conn key token' ttl' nx r =>
    obtain ⟨hkey, ⟨clock, sharded, rfl⟩, rfl, rfl⟩ := hp
    obtain rfl : lockKey lock = key := Option.some.inj hkey
    obtain ⟨rfl, rfl⟩ := Phase.placed?_of_afterWrite h
    exact .inr (.wrote ..)
  · exact .inl (Phase.placed?_of_afterDelete h)
  · next conn key token' ttl' r =>
    obtain ⟨hkey, rfl, -⟩ := hp
    obtain rfl : lockKey lock = key := Option.some.inj hkey
    obtain rfl : ttl' = ttl := hterms
    obtain ⟨rfl, rfl⟩ := Phase.placed?_of_afterExpire h
    exact .inr (.refreshed ..)
  · exact .inl h

/-- A token that an acquisition has placed was written or refreshed in one of its exchanges. -/
theorem exists_renews (m : Manager) (ctx : Context) (lock : String) (ttl wait : Nat)
    {log : List Exchange} {p : Program X (Except Failure Bool)} {token : Token}
    (h : (m.acquire ctx lock ttl wait).run.After log p)
    (hplaced : ((Operation.acquire m ctx lock ttl wait).phase log).placed? = some token) :
    ∃ x ∈ log, (Event.did (.acquire m ctx lock ttl wait) x).Renews lock token ttl := by
  induction h with
  | start => cases hplaced
  | @effect log e next h r ih =>
    rw [Operation.phase_concat] at hplaced
    have hp : (Operation.acquire m ctx lock ttl wait).permits _ e :=
      ((Operation.acquire m ctx lock ttl wait).obeys rfl).permits h
    rcases m.renews_of_placed? ctx lock ttl wait (x := ⟨e, r⟩) hp
      ((m.acquire_keepsTerms ctx lock ttl wait).permits h) hplaced with hplaced | hrenews
    · obtain ⟨x, hx, hrenews⟩ := ih hplaced
      exact ⟨x, List.mem_append_left _ hx, hrenews⟩
    · exact ⟨_, List.mem_append_right _ (List.mem_singleton.2 rfl), hrenews⟩
  | extended h r ih => exact ih hplaced

end Manager

/-! ## Tokens that are forfeited -/

theorem Event.Renews.unique {lock : String} {token token' : Token} {ttl ttl' : Nat} {ev : Event}
    (h : ev.Renews lock token ttl) (h' : ev.Renews lock token' ttl') : token' = token := by
  cases h with
  | wrote => cases h'; rfl
  | refreshed => cases h'; rfl

/-- After a token was written or refreshed in an exchange of an acquisition an operation of the same
owner has deleted the key. -/
def Forfeits (tr : List Event) (m : Manager) (ctx : Context) (lock : String) (ttl wait : Nat)
    (log : List Exchange) (token : Token) : Prop :=
  ∃ tr₁ x tr₂, tr = tr₁ ++ .did (.acquire m ctx lock ttl wait) x :: tr₂ ∧ x ∈ log ∧
    (Event.did (.acquire m ctx lock ttl wait) x).Renews lock token ttl ∧
    DeletedBy tr₂ ⟨m.id, ctx⟩ lock token

namespace Machine

variable {mode : Scheduling} {s₀ s s' : Machine X} {tr tr' : List Event} {lock : String}
  {token : Token}

/-- A token that was deleted comes under no lock key again. -/
theorem not_bears_of_deleted {o : Operation} {conn : Connection} (h₀ : s₀.Initial)
    (ho : o.IsLock) (h : Run (LockStep mode) s₀ (tr ++ .did o
      ⟨.call (.command conn (.compareAndDelete (lockKey lock) token)), .ok true⟩ :: tr') s) :
    ¬ s.world.Bears (lockKey lock) token := by
  obtain ⟨s₁, s₂, h₁, hs, h₂⟩ := h.split
  obtain ⟨before, after, hdeed⟩ := (lawful_of_run h₀ h₁).deed hs ho
  have hk₁ : Run (KeyStep mode) s₀ tr s₁ := h₁.mono LockStep.keyStep
  obtain ⟨hlog₁, hm₁⟩ := minting_of_run h₀.threads h₀.keys hk₁
  obtain ⟨hlog₂, hm₂⟩ := minting_of_run h₀.threads h₀.keys (hk₁.snoc hs.keyStep)
  have hspent₁ : s₁.Spent token := hm₁.spent lock token hdeed.carries_of_delete.bears
  obtain ⟨hspent₂, -⟩ := hspent₁.run hm₁ hlog₁ (.single hs.keyStep)
  obtain ⟨-, -, hkeys⟩ := hspent₂.run hm₂ hlog₂ (h₂.mono LockStep.keyStep)
  intro hb
  obtain ⟨e, he, -⟩ := (hkeys lock).1 hb
  rw [hdeed.gone_of_delete] at he
  cases he

/-- After a renewal the key has the token. -/
theorem bears_of_renews {ev : Event} {ttl : Nat} (h₀ : s₀.Initial)
    (h : Run (LockStep mode) s₀ tr s) (hs : s.LockStep mode ev s')
    (hrenews : ev.Renews lock token ttl) : s'.world.Bears (lockKey lock) token := by
  have hlogged : s.Logged tr := logged_of_run h₀.threads (h.mono LockStep.step)
  cases hs.keyStep.keyFate hlogged lock with
  | renewed hev hst =>
    have hsame : token = _ := hev.unique hrenews
    exact ⟨_, hst, Entry.holds_iff.2 (hsame ▸ rfl)⟩
  | same hev hsame => exact absurd ⟨_, _, hrenews⟩ hev
  | gone hev hgone => exact absurd ⟨_, _, hrenews⟩ hev

/-- The renewal of a token comes before its deletion. -/
theorem forfeits_of_deletedBy {m : Manager} {ctx : Context} {ttl wait : Nat} {log : List Exchange}
    {x : Exchange} (h₀ : s₀.Initial) (h : Run (LockStep mode) s₀ tr s)
    (hdid : .did (.acquire m ctx lock ttl wait) x ∈ tr) (hx : x ∈ log)
    (hrenews : (Event.did (.acquire m ctx lock ttl wait) x).Renews lock token ttl)
    (hdel : DeletedBy tr ⟨m.id, ctx⟩ lock token) : Forfeits tr m ctx lock ttl wait log token := by
  obtain ⟨tr₁, tr₂, rfl⟩ := List.append_of_mem hdid
  refine ⟨tr₁, x, tr₂, rfl, hx, hrenews, ?_⟩
  obtain ⟨o, conn, ho, hmem⟩ := hdel
  refine ⟨o, conn, ho, ?_⟩
  rcases List.mem_append.1 hmem with hmem | hmem
  · -- after a deletion the key would not have the token
    obtain ⟨s₁, s₂, h₁, hs, -⟩ := h.split
    obtain ⟨tr₃, tr₄, rfl⟩ := List.append_of_mem hmem
    have hrun := h₁.snoc hs
    rw [List.append_assoc, List.cons_append] at hrun
    exact absurd (bears_of_renews h₀ h₁ hs hrenews) (not_bears_of_deleted h₀ ho.isLock hrun)
  · rcases List.mem_cons.1 hmem with heq | hmem
    · rw [← heq] at hrenews
      cases hrenews
    · exact hmem

/-- When an acquisition succeeds, the store has written or refreshed a token in one of its
exchanges, and the key has this token unless it is forfeited. -/
theorem granted_of_run {m : Manager} {ctx : Context} {ttl wait : Nat} {log : List Exchange}
    (h₀ : s₀.Initial) (h : Run (LockStep mode) s₀ tr s)
    (hs : s.LockStep mode (.returned (.acquire m ctx lock ttl wait) log (.ok true)) s') :
    ∃ token, MintedFor tr ⟨m.id, ctx⟩ lock token ∧ Recorded tr token ∧
      (∃ x ∈ log, (Event.did (.acquire m ctx lock ttl wait) x).Renews lock token ttl) ∧
      (s'.world.Carries (lockKey lock) token ∨
        mode = .parallel ∧ Forfeits tr m ctx lock ttl wait log token) := by
  obtain ⟨token, hphase, hm, hrec, hforce⟩ := (lawful_of_run h₀ h).granted hs
  have hlogged : s.Logged tr := logged_of_run h₀.threads (h.mono LockStep.step)
  obtain ⟨hafter, hlog⟩ := hlogged.returned hs.step
  obtain ⟨x, hx, hrenews⟩ := m.exists_renews ctx lock ttl wait hafter (by rw [hphase]; rfl)
  refine ⟨token, hm, hrec, ⟨x, hx, hrenews⟩, hforce.imp_right fun ⟨hmode, hdel⟩ => ⟨hmode, ?_⟩⟩
  exact forfeits_of_deletedBy h₀ h (hlog x hx) hx hrenews hdel

/-- Mutual exclusion, in every run of any clients on any store.

After an acquisition has succeeded for an owner, one for another owner succeeds only if meanwhile
the deadline in force of the key has passed or an operation of the first owner has deleted the key.
Where threads run side by side, one of the two may also have forfeited its token: the store had
written or refreshed it, and an operation of the same owner has deleted the key before the
acquisition returned.

A value of a lock key is a token, and no step but one of an operation of the owner for which it was
minted changes the value, its deadline or its presence. -/
theorem mutual_exclusion {s₀ : Machine X} (h₀ : s₀.Initial) :
    (∀ {tr tr' : List Event} {s₁ s₂ s₃ s₄ : Machine X} {m m' : Manager} {ctx ctx' : Context}
      {lock : String} {ttl wait ttl' wait' : Nat} {log log' : List Exchange},
      Run (LockStep mode) s₀ tr s₁ →
      s₁.LockStep mode (.returned (.acquire m ctx lock ttl wait) log (.ok true)) s₂ →
      Run (LockStep mode) s₂ tr' s₃ →
      s₃.LockStep mode (.returned (.acquire m' ctx' lock ttl' wait') log' (.ok true)) s₄ →
      (⟨m'.id, ctx'⟩ : Owner) ≠ ⟨m.id, ctx⟩ →
      ∃ token, MintedFor tr ⟨m.id, ctx⟩ lock token ∧
        (∃ x ∈ log, (Event.did (.acquire m ctx lock ttl wait) x).Renews lock token ttl) ∧
        (LapsesIn mode s₂ tr' s₃ lock token ∨ DeletedBy tr' ⟨m.id, ctx⟩ lock token ∨
          mode = .parallel ∧ (Forfeits tr m ctx lock ttl wait log token ∨ ∃ token',
            Forfeits (tr ++ .returned (.acquire m ctx lock ttl wait) log (.ok true) :: tr')
              m' ctx' lock ttl' wait' log' token'))) ∧
    (∀ {tr : List Event} {s s' : Machine X} {ev : Event} {lock : String} {e : Entry},
      Run (LockStep mode) s₀ tr s → s.LockStep mode ev s' →
      s.world.store.keyspace.live? s.world.now (lockKey lock) = some e →
      ∃ p token, MintedFor tr p lock token ∧ e.holds token = true ∧
        ((∀ o x, ev = .did o x → o.owner? ≠ some p) →
          s'.world.store.keyspace.find? (lockKey lock) = some e)) := by
  constructor
  · intro tr tr' s₁ s₂ s₃ s₄ m m' ctx ctx' lock ttl wait ttl' wait' log log' h₁ hg h₂ hg' hne
    obtain ⟨token, hm, hrec, hrenews, hforce⟩ := granted_of_run h₀ h₁ hg
    refine ⟨token, hm, hrenews, ?_⟩
    rcases hforce with hc | ⟨hmode, hforfeits⟩
    · have h₃ := (h₁.snoc hg).append h₂
      have hl₂ := (lawful_of_run h₀ h₁).step hg
      rcases hl₂.carries_run h₂ (hm.append _) (hrec.append _) hc with hc | hlapse | hup
      · obtain ⟨token', hm', -, -, hforce'⟩ := granted_of_run h₀ h₃ hg'
        rcases hforce' with hc' | ⟨hmode, hforfeits'⟩
        · have hl₃ := hl₂.run h₂
          have hworld := (hl₃.returned hg' rfl).1
          -- one key has one token, and one token has one owner
          obtain rfl := hc.unique (hworld ▸ hc')
          obtain ⟨hp, -⟩ := hl₃.world.unique _ _ _ _ _ hm' ((hm.append _).append _)
          exact absurd hp hne
        · exact .inr (.inr ⟨hmode, .inr ⟨token', by simpa using hforfeits'⟩⟩)
      · exact .inl hlapse
      · exact .inr (.inl hup.deletedBy)
    · exact .inr (.inr ⟨hmode, .inl hforfeits⟩)
  · intro tr s s' ev lock e h hs he
    have hl := lawful_of_run h₀ h
    obtain ⟨hfind, -⟩ := Keyspace.live?_eq_some.1 he
    obtain ⟨p, lock', token, deadline, hk, hm, hentry⟩ := hl.world.keys _ e hfind (.inl ⟨lock, rfl⟩)
    obtain rfl := lockKey_inj.1 hk
    have ht : e.holds token = true := Entry.holds_iff.2 (by rw [hentry])
    refine ⟨p, token, hm, ht, fun hothers => ?_⟩
    have hc : s.world.Carries (lockKey lock) token := ⟨e, he, ht⟩
    have hnone : ∀ {o : Operation} {p' : Owner} {token' : Token} {x : Exchange},
        o.ActsFor p' lock → MintedFor tr p' lock token' → ev = .did o x →
        ¬ s.world.Carries (lockKey lock) token' := by
      intro o p' token' x ho hm' hev hc'
      obtain rfl := hc.unique hc'
      obtain ⟨rfl, -⟩ := hl.world.unique _ _ _ _ _ hm hm'
      exact hothers o x hev ho.1
    obtain ⟨own, hchange, -⟩ := hl.keyChange hs (lockKey lock)
    cases hchange with
    | same h => exact h.trans hfind
    | foreign hno h => exact absurd rfl (hno lock)
    | purged hev hgone h => cases hgone.symm.trans he
    | wrote ho hk hev hm' hown hgone h => cases hgone.symm.trans he
    | deleted ho hk hev hm' hown hlive h =>
      obtain rfl := lockKey_inj.1 hk
      exact absurd hlive (hnone ho hm' hev)
    | extended ho hk hev hm' hrec hpos hlive h =>
      obtain rfl := lockKey_inj.1 hk
      exact absurd hlive (hnone ho hm' hev)

/-- A context acquires a lock for 20 milliseconds; when they are over another one acquires it. While
they last the key keeps its value when expired values are removed. -/
theorem mutual_exclusion_lapsed :
    ∃ (s₀ s₁ s₂ s₃ s₄ s s' : Machine Extension.none) (tr tr' tr'' : List Event)
        (log log' : List Exchange),
      s₀.Initial ∧ Run (LockStep .cooperative) s₀ tr s₁ ∧
      s₁.LockStep .cooperative (.returned (.acquire {} "a" "L" 20 0) log (.ok true)) s₂ ∧
      Run (LockStep .cooperative) s₂ tr' s₃ ∧
      s₃.LockStep .cooperative (.returned (.acquire {} "b" "L" 20 0) log' (.ok true)) s₄ ∧
      (∃ token, LapsesIn .cooperative s₂ tr' s₃ "L" token ∨ DeletedBy tr' ⟨0, "a"⟩ "L" token) ∧
      Run (LockStep .cooperative) s₀ tr'' s ∧ s.LockStep .cooperative .purged s' ∧
      ∃ e p token, MintedFor tr'' p "L" token ∧ e.holds token = true ∧
        s'.world.store.keyspace.find? (lockKey "L") = some e := by
  have hpos : 0 < 20 := by decide
  have hgone : World.fresh.store.keyspace.live? World.fresh.now (lockKey "L") = none := rfl
  have hother : (World.lapsed.heldBy ⟨0, "b"⟩ "L").isNone = true := by decide +kernel
  obtain ⟨tr, w₁, a, s₁, s₂, ⟨hrun, rfl, -⟩, h₁, hg, hend⟩ :=
    run_call (o := .acquire {} "a" "L" 20 0) rfl trivial
      ((Manager.acquire_ensures World.fresh_ready {} "a" 0 hpos hgone).exact
        (fun _ _ (op : Extension.none.Op) => Empty.elim op) ())
  obtain ⟨tr', w₃, a', s₃, s₄, ⟨rfl, -⟩, h₃, hg', -⟩ :=
    run_call (o := .acquire {} "b" "L" 20 0) rfl trivial
      (Manager.acquire_ensures World.lapsed_ready {} "b" 0 hpos World.lapsed_gone)
  have hworld : w₁ = ((({} : Manager).acquire "a" "L" 20 0).run.runOn World.fresh).1 := by
    rw [Program.runOn, hrun]
  have hlapsed : World.lapsed = w₁.later 20 := by
    rw [World.lapsed, hworld]
  have htime : Step .cooperative (⟨w₁, []⟩ : Machine Extension.none) (.elapsed 20)
      ⟨w₁.later 20, []⟩ := .elapse 20 fun _ hmem => by cases hmem
  rw [← hlapsed] at htime
  have h₂ : Run (LockStep .cooperative) s₂ _ s₃ :=
    (hend.append (.single ⟨htime, fun hf => hf.elim⟩)).append h₃
  rw [hother] at hg'
  have hne : (⟨0, "b"⟩ : Owner) ≠ ⟨0, "a"⟩ := by decide
  have h₀ : (⟨World.fresh, []⟩ : Machine Extension.none).Initial := initial_ofStore rfl 0
  obtain ⟨token, -, -, hor⟩ := (mutual_exclusion h₀).1 h₁ hg h₂ hg' hne
  have hlapse := hor.imp_right fun h => h.resolve_right fun hpar => by cases hpar.1
  have h := (h₁.snoc hg).append hend
  have hpurge : LockStep .cooperative (⟨w₁, []⟩ : Machine Extension.none) .purged _ :=
    ⟨.purge, fun hf => hf.elim⟩
  obtain ⟨e, he⟩ : ∃ e, w₁.store.keyspace.live? w₁.now (lockKey "L") = some e := by
    rw [hworld]
    exact Option.isSome_iff_exists.1 (by decide +kernel)
  obtain ⟨p, token', hm, ht, hkept⟩ := (mutual_exclusion h₀).2 h hpurge he
  exact ⟨_, s₁, s₂, s₃, s₄, _, _, tr, _, _, _, _, h₀, h₁, hg, h₂, hg', ⟨token, hlapse⟩, h, hpurge,
    e, p, token', hm, ht, hkept fun o x hev => by cases hev⟩

/-- From the beginning of a run a context acquires a lock for a second, and after it another one
does: the worlds when they are told so are as described, with what has happened in between. -/
def GrantedTwice (mode : Scheduling) (Q : World → List Event → World → Prop) : Prop :=
  ∃ (s₀ s₁ s₂ s₃ s₄ : Machine Extension.none) (tr tr' : List Event) (log log' : List Exchange),
    s₀.Initial ∧ Run (LockStep mode) s₀ tr s₁ ∧
    s₁.LockStep mode (.returned (.acquire {} "a" "L" 1000 0) log (.ok true)) s₂ ∧
    Run (LockStep mode) s₂ tr' s₃ ∧
    s₃.LockStep mode (.returned (.acquire {} "b" "L" 1000 0) log' (.ok true)) s₄ ∧
    Q s₂.world tr' s₄.world

/-- Two threads of a schedule are told that a lock is held, and a check of the worlds is passed. -/
theorem grantedTwice_of_play (before between : List (Move .none)) (i j : Nat)
    (check : World → List Event → World → Bool) {Q : World → List Event → World → Prop}
    (hq : ∀ {w tr w'}, check w tr w' = true → Q w tr w')
    (h : ((play mode ⟨World.fresh, []⟩ before).any fun r =>
      decide (∀ ev ∈ r.1, ¬ ev.IsForeign) && (r.2.next? mode (.go i)).any fun g =>
        g.1.isReturn (.acquire {} "a" "L" 1000 0) (·.toOption == some true) &&
        (play mode g.2 between).any fun r' =>
          decide (∀ ev ∈ r'.1, ¬ ev.IsForeign) && (r'.2.next? mode (.go j)).any fun g' =>
            g'.1.isReturn (.acquire {} "b" "L" 1000 0) (·.toOption == some true) &&
            check g.2.world r'.1 g'.2.world) = true) :
    GrantedTwice mode Q := by
  have hgrant : ∀ {a : Except Failure Bool}, (a.toOption == some true) = true → a = .ok true := by
    rintro (e | b) h
    · cases h
    · exact congrArg _ (Option.some.inj (eq_of_beq h))
  simp only [Option.any_eq_true, Bool.and_eq_true, decide_eq_true_eq] at h
  obtain ⟨⟨tr, s₁⟩, hbefore, hlocal, ⟨ev, s₂⟩, hgo, hev, ⟨tr', s₃⟩, hbetween, hlocal', ⟨ev', s₄⟩,
    hgo', hev', hcheck⟩ := h
  obtain ⟨log, a, rfl, ha⟩ := Event.eq_of_isReturn hev
  obtain ⟨log', a', rfl, ha'⟩ := Event.eq_of_isReturn hev'
  obtain rfl := hgrant ha
  obtain rfl := hgrant ha'
  exact ⟨_, s₁, s₂, s₃, s₄, tr, tr', log, log', initial_ofStore rfl 0,
    lockRun_of_play hbefore hlocal, lockStep_of_next? hgo id, lockRun_of_play hbetween hlocal',
    lockStep_of_next? hgo' id, hq hcheck⟩

/-- Exclusion has its limits. In none of these runs the first context deletes the key between the
two acquisitions.

Where threads run side by side, the second context may have recorded its token and released the lock
in another thread before its acquisition returns. So it is told that it holds the lock while the key
has the token of the first, the deadline of which has not passed and has always been the same. Or
the first context may have released the lock so, and then the second acquires it at the same time.

Where a context refreshes its lock with a shorter lifetime, another context is told that it holds
the lock before the deadline that was in force when the first was told. -/
theorem granted_twice :
    GrantedTwice .parallel (fun w tr w' => (∀ token, ¬ DeletedBy tr ⟨0, "a"⟩ "L" token) ∧
      ∃ token, w.Stores (lockKey "L") token 1000 ∧ w'.Stores (lockKey "L") token 1000 ∧
        w'.now < 1000) ∧
    GrantedTwice .parallel (fun w tr w' => (∀ token, ¬ DeletedBy tr ⟨0, "a"⟩ "L" token) ∧
      w.store.keyspace.find? (lockKey "L") = none ∧ w'.now = w.now) ∧
    GrantedTwice .cooperative (fun w tr w' => (∀ token, ¬ DeletedBy tr ⟨0, "a"⟩ "L" token) ∧
      ∃ token, w.Stores (lockKey "L") token 1000 ∧ w'.now < 1000) := by
  let call (o : Operation) : Move .none := .start (Client.invoke o >>= fun _ => .done ())
  let go (n i : Nat) : List (Move .none) := List.replicate n (.go i)
  let stores (w : World) (n : Nat) : Bool :=
    w.store.keyspace.find? (lockKey "L") == some ⟨Entry.ofText (Token.ofSerial n), some 1000⟩
  refine ⟨?_, ?_, ?_⟩
  · -- the second context has still to be told, but has released the lock, when the first begins
    let before : List (Move .none) :=
      call (.acquire {} "b" "L" 1000 0) :: go 12 0 ++ call (.release {} "b" "L") :: go 10 1 ++
      call (.acquire {} "a" "L" 1000 0) :: go 14 1
    refine grantedTwice_of_play before (go 2 0) 1 0 (fun w tr w' =>
      tr.all (!·.isDeletion) && stores w 1 && stores w' 1 && w'.now == 0)
      (fun {w tr w'} h => ?_) (by decide +kernel)
    simp only [Bool.and_eq_true, beq_iff_eq, stores] at h
    obtain ⟨⟨⟨hkept, hw⟩, hw'⟩, hnow⟩ := h
    exact ⟨not_deletedBy_of_isDeletion hkept _ _, _, hw, hw', by omega⟩
  · -- the first context has still to be told, but has released the lock
    let before : List (Move .none) :=
      call (.acquire {} "a" "L" 1000 0) :: go 12 0 ++ call (.release {} "a" "L") :: go 10 1 ++
      go 2 0
    let between : List (Move .none) := .go 0 :: call (.acquire {} "b" "L" 1000 0) :: go 14 0
    refine grantedTwice_of_play before between 0 0
      (fun w tr w' => tr.all (!·.isDeletion) &&
        (w.store.keyspace.find? (lockKey "L")).isNone && w'.now == w.now)
      (fun {w tr w'} h => ?_) (by decide +kernel)
    simp only [Bool.and_eq_true, beq_iff_eq, Option.isNone_iff_eq_none] at h
    obtain ⟨⟨hkept, hnone⟩, hnow⟩ := h
    exact ⟨not_deletedBy_of_isDeletion hkept _ _, hnone, hnow⟩
  · -- the first context refreshes its lock for 20 milliseconds, and they pass
    let between : List (Move .none) :=
      .go 0 :: call (.acquire {} "a" "L" 20 0) :: go 12 0 ++
      .elapse 20 :: call (.acquire {} "b" "L" 1000 0) :: go 14 0
    refine grantedTwice_of_play (call (.acquire {} "a" "L" 1000 0) :: go 14 0) between 0 0
      (fun w tr w' => tr.all (!·.isDeletion) && stores w 0 && w'.now == 20)
      (fun {w tr w'} h => ?_) (by decide +kernel)
    simp only [Bool.and_eq_true, beq_iff_eq, stores] at h
    obtain ⟨⟨hkept, hw⟩, hnow⟩ := h
    exact ⟨not_deletedBy_of_isDeletion hkept _ _, _, hw, by omega⟩

end Machine

end Latchkey
