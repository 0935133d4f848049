import Latchkey.Proofs.Bystanders
import Latchkey.Proofs.Entries
import Latchkey.Proofs.Environments
import Latchkey.Proofs.Releases

/-!
# What a release comes to

A release gives up the token that the registry has. The store deletes the key if that is its value,
so that a value of another owner stays, and the answer is false exactly if there is one when the
store was asked last. Then the entry is forgotten, and nothing else changes. If a call of the store
fails the registry stays as it was.

The main statement is `release_comes_to`.
-/

namespace Latchkey

variable {X : Extension}

/-! ## Stores in an environment -/

/-- The key that an effect may write. -/
def Effect.written? : Effect → Option String
  | .call (.command _ cmd) => cmd.written?
  | _ => none

/-- How a world responds to an effect, whatever this has waited for: it answers, or a store call
fails instead, or is executed although its answer gets lost. -/
inductive World.Responds (w : World) : (e : Effect) → World → e.Reply → Prop where
  /-- The effect is answered. -/
  | answered (waited : Option Wait) (e : Effect) :
      Responds w e (w.answer waited e).1 (w.answer waited e).2
  /-- The call fails. -/
  | failed (c : StoreCall) (err : StoreError) : Responds w (.call c) w (.error err)
  /-- The answer to the call is lost. -/
  | lost (waited : Option Wait) (c : StoreCall) (err : StoreError) :
      Responds w (.call c) (w.answer waited (.call c)).1 (.error err)

/-- A world responds, and others are at work in it. -/
def serving (others : World → World → Prop) : Environment World where
  answers w e w' r := w.Responds e w' r
  others := others

namespace World

variable {w w' : World} {e : Effect} {r : e.Reply}

theorem answer_find? (w : World) (waited : Option Wait) {key : String}
    (he : e.written? ≠ some key) :
    (w.answer waited e).1.store.keyspace.find? key = w.store.keyspace.find? key := by
  cases e with
  | call c =>
    cases c with
    | connect node => exact congrArg (·.find? key) (w.connect_alike node waited).keyspace
    | command conn cmd =>
      have hkeyspace := w.command_keyspace conn waited cmd
      exact (congrArg (·.find? key) hkeyspace).trans (w.store.find?_execute w.now he)
    | _ => rfl
  | _ => rfl

namespace Responds

theorem now_eq (h : w.Responds e w' r) : w'.now = w.now := by
  cases h with
  | answered waited e => exact w.answer_now waited e
  | failed c err => rfl
  | lost waited c err => exact w.answer_now waited _

/-- Only writes of its key change an entry of the store. -/
theorem find?_eq {key : String} (h : w.Responds e w' r) (he : e.written? ≠ some key) :
    w'.store.keyspace.find? key = w.store.keyspace.find? key := by
  cases h with
  | answered waited e => exact w.answer_find? waited he
  | failed c err => rfl
  | lost waited c err => exact w.answer_find? waited he

/-- An entry of a registry changes as the effect says. -/
theorem heldBy_eq (h : w.Responds e w' r) (p : Owner) (lock : String) :
    w'.heldBy p lock = e.entryAfter p lock (w.heldBy p lock) := by
  cases h with
  | answered waited e => exact w.heldBy_answer waited e
  | failed c err => rfl
  | lost waited c err => exact w.heldBy_answer waited _

theorem registries_eq (h : w.Responds e w' r) (he : ¬ e.IsRegistry) :
    w'.registries = w.registries := by
  cases h with
  | answered waited e => exact w.answer_registries waited he
  | failed c err => rfl
  | lost waited c err => exact w.answer_registries waited he

/-- A deletion is answered by whether the key had the value, and then it does not have it. -/
theorem of_delete {conn : Connection} {key : String} {token : Token} {b : Bool}
    (h : w.Responds (.call (.command conn (.compareAndDelete key token))) w' (.ok b)) :
    (b = true ↔ w.Carries key token) ∧ ¬ w'.Carries key token := by
  cases h with
  | answered waited e =>
    exact ⟨Keyspace.compareAndDelete_snd, w.not_carries_of_compareAndDelete key token⟩

/-- A look at a key is answered by whether it has a value. -/
theorem of_present {conn : Connection} {key : String} {b : Bool}
    (h : w.Responds (.call (.command conn (.present key))) w' (.ok b)) :
    b = (w.store.keyspace.live? w.now key).isSome := by
  cases h with
  | answered waited e => rfl

end Responds

end World

/-! ## Giving up a token -/

/-- Whether an effect does no more than give up a key with a token: it deletes the key if it has the
token, or writes nothing. -/
def Effect.OnlyGivesUp (key : String) (token : Token) (e : Effect) : Prop :=
  e.written? = none ∨ ∃ conn, e = .call (.command conn (.compareAndDelete key token))

namespace Effect.OnlyGivesUp

variable {key : String} {token : Token} {e : Effect} {w w' : World} {r : e.Reply}

theorem written?_ne (h : e.OnlyGivesUp key token) {k : String} (hk : k ≠ key) :
    e.written? ≠ some k := by
  rcases h with hnone | ⟨conn, rfl⟩
  · rw [hnone]
    exact nofun
  · exact fun heq => hk (Option.some.inj heq).symm

/-- A value of another owner stays. -/
theorem keeps_foreign (h : e.OnlyGivesUp key token) (hr : w.Responds e w' r) {entry : Entry}
    (hforeign : entry.holds token = false) (hw : w.store.keyspace.find? key = some entry) :
    w'.store.keyspace.find? key = some entry := by
  have hdelete : ∀ {ks : Keyspace} {b : Bool},
      w.store.keyspace.compareAndDelete w.now key token = (ks, b) →
        ks.find? key = some entry := by
    intro ks b hks
    rw [Keyspace.find?_of_compareAndDelete hks, hw, if_neg]
    rintro ⟨-, rfl⟩
    obtain ⟨e', he', hholds⟩ := Keyspace.compareAndDelete_snd.1 (congrArg Prod.snd hks)
    obtain rfl := Option.some.inj (hw.symm.trans (Keyspace.live?_eq_some.1 he').1)
    exact Bool.false_ne_true (hforeign.symm.trans hholds)
  rcases h with hnone | ⟨conn, rfl⟩
  · rw [hr.find?_eq (by rw [hnone]; exact nofun), hw]
  · cases hr with
    | answered waited e => exact hdelete rfl
    | failed c err => exact hw
    | lost waited c err => exact hdelete rfl

/-- The token does not come back. -/
theorem not_carries (h : e.OnlyGivesUp key token) (hr : w.Responds e w' r)
    (hw : ¬ w.Carries key token) : ¬ w'.Carries key token := by
  rcases h with hnone | ⟨conn, rfl⟩
  · exact fun hc => hw (hc.congr (hr.find?_eq (by rw [hnone]; exact nofun)).symm hr.now_eq.symm)
  · cases hr with
    | answered waited e => exact w.not_carries_of_compareAndDelete key token
    | failed c err => exact hw
    | lost waited c err => exact w.not_carries_of_compareAndDelete key token

end Effect.OnlyGivesUp

namespace GivesUp

variable {key : String} {token : Token} {part : List Exchange}
  {r : Except StoreError ReleaseOutcome} {x : Exchange}

theorem onlyGivesUp (h : GivesUp key token part r) (hx : x ∈ part) :
    x.effect.OnlyGivesUp key token := by
  revert x
  cases h <;> simp [Effect.OnlyGivesUp, Effect.written?, Command.written?]

/-- If it fails a call has failed with this error. -/
theorem exists_failed {e : StoreError} (h : GivesUp key token part (.error e)) :
    ∃ c, (⟨.call c, .error e⟩ : Exchange) ∈ part := by
  cases h with
  | unrouted e => exact ⟨.nodeOwning key, by simp⟩
  | unconnected node e => exact ⟨.connect node, by simp⟩
  | undeleted node conn e => exact ⟨.command conn (.compareAndDelete key token), by simp⟩
  | unseen node conn e => exact ⟨.command conn (.present key), by simp⟩

end GivesUp

namespace Environment

variable {others : World → World → Prop} {p : Owner} {lock key : String} {token : Token}
  {l : Ledger} {w w' : World} {log : List Exchange}

/-- The registries of a world are those of a ledger, wherever others leave them alone: each entry
of each owner, and all registries if there are no others. -/
structure Registers (E : Environment World) (l : Ledger) (w : World) : Prop where
  entries : ∀ q k, E.Spares (·.heldBy q k) → w.heldBy q k = l.heldBy q k
  all : E.Idle → w.registries = l.registries

theorem Registers.forget {E : Environment World} (h : E.Registers l w) {removed : Option Token}
    (hr : w.Responds (.registry p.manager (.forget p.ctx lock)) w' removed) :
    E.Registers (l.forgetFor p lock) w' := by
  cases hr with
  | answered waited e =>
    refine ⟨fun q k hspares => ?_, fun hidle => ?_⟩
    · show (w.forgetFor p lock).heldBy q k = _
      rw [Ledger.heldBy_forgetFor, Ledger.heldBy_forgetFor, h.entries q k hspares]
    · show (w.forgetFor p lock).registries = _
      simp only [Ledger.forgetFor, Ledger.setRegistry, Ledger.registry, h.all hidle]

namespace Leads

/-- Exchanges that are no matter of registries leave them alone. -/
theorem registers (h : (serving others).Leads w log w') (hw : (serving others).Registers l w)
    (hlog : ∀ x ∈ log, ¬ x.effect.IsRegistry) : (serving others).Registers l w' where
  entries q k hspares := by
    rw [← hw.entries q k hspares]
    exact h.eq_of_spares hspares fun x hx _ _ ha =>
      World.heldBy_congr (ha.registries_eq (hlog x hx)) q k
  all hidle := by
    rw [← hw.all hidle]
    exact h.eq_of_spares (hidle.spares _) fun x hx _ _ ha => ha.registries_eq (hlog x hx)

/-- A look tells what the registry has, and changes nothing there. -/
theorem of_held {found : Option Token}
    (hquiet : (serving others).Spares fun v => v.heldBy p lock)
    (h : (serving others).Leads w (⟨.registry p.manager (.held p.ctx lock), found⟩ :: log) w') :
    w.heldBy p lock = found ∧ ∃ w₁, (serving others).Registers w.toLedger w₁ ∧
      (serving others).Leads w [⟨.registry p.manager (.held p.ctx lock), found⟩] w₁ ∧
      (serving others).Leads w₁ log w' := by
  obtain ⟨w₁, w₂, hidle, ha, hrest⟩ := h.of_cons
  have hlook := hidle.trans (.exchange ha (.done w₂))
  cases ha with
  | answered waited e =>
    have hregisters : (serving others).Registers w.toLedger w₁ :=
      hidle.registers ⟨fun _ _ _ => rfl, fun _ => rfl⟩ (List.forall_mem_nil _)
    exact ⟨(hidle.eq_of_nil hquiet).symm, w₁, hregisters, hlook, hrest⟩

/-- Exchanges that only give up a key with a token leave other keys alone. -/
theorem find?_eq (h : (serving others).Leads w log w')
    (hlog : ∀ x ∈ log, x.effect.OnlyGivesUp key token) {k : String} (hk : k ≠ key)
    (hspares : (serving others).Spares fun v => v.store.keyspace.find? k) :
    w'.store.keyspace.find? k = w.store.keyspace.find? k :=
  h.eq_of_spares hspares fun x hx _ _ ha => ha.find?_eq ((hlog x hx).written?_ne hk)

/-- They leave the value of another owner alone. -/
theorem keeps_foreign (h : (serving others).Leads w log w')
    (hlog : ∀ x ∈ log, x.effect.OnlyGivesUp key token) {entry : Entry}
    (hforeign : entry.holds token = false)
    (hkeeps : (serving others).Keeps fun v => v.store.keyspace.find? key = some entry)
    (hw : w.store.keyspace.find? key = some entry) :
    w'.store.keyspace.find? key = some entry :=
  h.keeps hkeeps (fun x hx _ _ ha => (hlog x hx).keeps_foreign ha hforeign) hw

/-- They do not bring the token back. -/
theorem not_carries (h : (serving others).Leads w log w')
    (hlog : ∀ x ∈ log, x.effect.OnlyGivesUp key token)
    (hbar : (serving others).Keeps fun v => ¬ v.Carries key token) (hw : ¬ w.Carries key token) :
    ¬ w'.Carries key token :=
  h.keeps hbar (fun x hx _ _ ha => (hlog x hx).not_carries ha) hw

end Leads

end Environment

/-! ## Releases -/

/-- The last command of a call is answered in a world, and after that the store is not called. -/
def LastCommand (E : Environment World) (w : World) (log : List Exchange) (v w' : World) : Prop :=
  ∃ before conn cmd b after v', log = before ++ ⟨.call (.command conn cmd), b⟩ :: after ∧
    (∀ x ∈ after, ¬ x.IsCall) ∧ E.Leads w before v ∧
    E.answers v (.call (.command conn cmd)) v' b ∧ E.Leads v' after w'

theorem LastCommand.extend {E : Environment World} {w w₁ w₂ w' v : World}
    {pre log post : List Exchange} (h : LastCommand E w₁ log v w₂) (hpre : E.Leads w pre w₁)
    (hpost : E.Leads w₂ post w') (hcalls : ∀ x ∈ post, ¬ x.IsCall) :
    LastCommand E w (pre ++ (log ++ post)) v w' := by
  obtain ⟨before, conn, cmd, b, after, v', rfl, hafter, hbefore, ha, hrest⟩ := h
  refine ⟨pre ++ before, conn, cmd, b, after ++ post, v', by simp, ?_, hpre.trans hbefore, ha,
    hrest.trans hpost⟩
  exact fun x hx => (List.mem_append.1 hx).elim (hafter x) (hcalls x)

section

variable {others : World → World → Prop} {key : String} {token : Token} {w w' : World}
  {part : List Exchange}

/-- When a key has been given up with a token it does not have the token. Unless it had another
value when the store was asked last, that is a success. -/
theorem GivesUp.answered {outcome : ReleaseOutcome} (h : GivesUp key token part (.ok outcome))
    (hbar : (serving others).Keeps fun v => ¬ v.Carries key token)
    (hl : (serving others).Leads w part w') :
    (∃ v, LastCommand (serving others) w part v w' ∧
      outcome.isSuccess = (v.store.keyspace.live? v.now key).all (·.holds token)) ∧
      ¬ w'.Carries key token := by
  generalize hr : (.ok outcome : Except StoreError ReleaseOutcome) = r at h
  cases h with
  | deleted node conn =>
    cases hr
    have hlog : (serving others).Leads w
        ([⟨.call (.nodeOwning key), .ok node⟩, ⟨.call (.connect node), .ok conn⟩] ++
          ⟨.call (.command conn (.compareAndDelete key token)), .ok true⟩ :: []) w' := hl
    obtain ⟨v, v', hbefore, ha, hafter⟩ := hlog.split_at
    obtain ⟨hiff, hgone⟩ := World.Responds.of_delete ha
    obtain ⟨e, he, hholds⟩ := hiff.1 rfl
    refine ⟨⟨v, ⟨_, conn, _, _, _, v', rfl, List.forall_mem_nil _, hbefore, ha, hafter⟩, ?_⟩,
      hafter.not_carries (List.forall_mem_nil _) hbar hgone⟩
    rw [he]
    exact hholds.symm
  | seen node conn b =>
    cases hr
    have hlog : (serving others).Leads w
        ([⟨.call (.nodeOwning key), .ok node⟩, ⟨.call (.connect node), .ok conn⟩] ++
          ⟨.call (.command conn (.compareAndDelete key token)), .ok false⟩ ::
            [⟨.call (.command conn (.present key)), .ok b⟩]) w' := hl
    obtain ⟨v₁, v₂, hbefore, hdelete, hrest⟩ := hlog.split_at
    obtain ⟨v, v', hidle, ha, hafter⟩ := hrest.of_cons
    obtain ⟨-, hgone⟩ := World.Responds.of_delete hdelete
    have hgone' : ¬ v.Carries key token := hidle.not_carries (List.forall_mem_nil _) hbar hgone
    have hbefore' := hbefore.trans (.exchange hdelete hidle)
    refine ⟨⟨v, ⟨_, conn, _, _, _, v', rfl, List.forall_mem_nil _, hbefore', ha, hafter⟩, ?_⟩,
      hafter.not_carries (List.forall_mem_nil _) hbar ?_⟩
    · rw [World.Responds.of_present ha]
      cases hlive : v.store.keyspace.live? v.now key with
      | none => rfl
      | some e =>
        -- the value that is there is not the token, which is gone
        have hforeign : e.holds token = false :=
          Bool.eq_false_iff.2 fun hholds => hgone' ⟨e, hlive, hholds⟩
        rw [Option.all_some, hforeign]
        rfl
    · exact (Effect.OnlyGivesUp.not_carries (.inl rfl) ha hgone')
  | _ => cases hr

end

/-- What a release has made of a world when it has ended without a failure. -/
structure Released (E : Environment World) (p : Owner) (lock : String) (token : Token) (w : World)
    (log : List Exchange) (w' : World) : Prop where
  /-- The key does not have the token. -/
  token_gone : ¬ w'.Carries (lockKey lock) token
  /-- The entry is gone. -/
  entry_gone : w'.heldBy p lock = none
  /-- All other entries are as they were. -/
  registers : E.Registers (w.forgetFor p lock) w'
  /-- All other keys are as they were, values and deadlines. -/
  keys : ∀ key ≠ lockKey lock, E.Spares (fun v => v.store.keyspace.find? key) →
    w'.store.keyspace.find? key = w.store.keyspace.find? key
  /-- A value of another owner that is there at some moment of the call stays, with its deadline. -/
  foreign : ∀ {entry : Entry} {before after : List Exchange} {v : World},
    entry.holds token = false →
    E.Keeps (fun v => v.store.keyspace.find? (lockKey lock) = some entry) →
    log = before ++ after → E.Leads w before v → E.Leads v after w' →
    v.store.keyspace.find? (lockKey lock) = some entry →
    w'.store.keyspace.find? (lockKey lock) = some entry

section

variable {m : Manager} {ctx : Context} {lock : String} {others : World → World → Prop}
  {token : Token} {w w' : World} {log : List Exchange} {r : Except Failure Bool}

/-- A release finds the token that the registry has, and gives that up. -/
theorem ReleaseCall.cases_of_held
    (hquiet : (serving others).Spares fun v => v.heldBy ⟨m.id, ctx⟩ lock)
    (hheld : w.heldBy ⟨m.id, ctx⟩ lock = some token) (h : ReleaseCall m ctx lock log r)
    (hl : (serving others).Leads w log w') :
    (∃ part e, GivesUp (lockKey lock) token part (.error e) ∧
      log = ⟨.registry m.id (.held ctx lock), some token⟩ :: part ∧
      r = .error (Failure.ofStore e)) ∨
    ∃ part outcome removed conn, GivesUp (lockKey lock) token part (.ok outcome) ∧
      log = ⟨.registry m.id (.held ctx lock), some token⟩ ::
        (part ++ [⟨.registry m.id (.forget ctx lock), removed⟩, ⟨.count (.release outcome), ()⟩,
          ⟨.release conn, ()⟩]) ∧
      r = .ok outcome.isSuccess := by
  cases h with
  | notHeld =>
    obtain ⟨hfound, -⟩ := hl.of_held (p := ⟨m.id, ctx⟩) hquiet
    cases hheld.symm.trans hfound
  | @failed token' part e h =>
    obtain ⟨hfound, -⟩ := hl.of_held (p := ⟨m.id, ctx⟩) hquiet
    obtain rfl := Option.some.inj (hheld.symm.trans hfound)
    exact .inl ⟨part, e, h, rfl, rfl⟩
  | @ended token' part outcome node conn h hlent removed =>
    obtain ⟨hfound, -⟩ := hl.of_held (p := ⟨m.id, ctx⟩) hquiet
    obtain rfl := Option.some.inj (hheld.symm.trans hfound)
    exact .inr ⟨part, outcome, removed, conn, h, rfl, rfl⟩

/-- A release that finds no entry does not call the store. -/
theorem ReleaseCall.of_not_held
    (hquiet : (serving others).Spares fun v => v.heldBy ⟨m.id, ctx⟩ lock)
    (hheld : w.heldBy ⟨m.id, ctx⟩ lock = none) (h : ReleaseCall m ctx lock log r)
    (hl : (serving others).Leads w log w') : r = .ok false ∧ ∀ x ∈ log, ¬ x.IsCall := by
  cases h with
  | notHeld => exact ⟨rfl, by simp [Exchange.IsCall]⟩
  | failed h => cases hheld.symm.trans (hl.of_held (p := ⟨m.id, ctx⟩) hquiet).1
  | ended h hlent removed => cases hheld.symm.trans (hl.of_held (p := ⟨m.id, ctx⟩) hquiet).1

/-- What a release has come to when it has given up the token. -/
theorem GivesUp.released {part : List Exchange} {outcome : ReleaseOutcome} {removed : Option Token}
    {conn : Connection} (h : GivesUp (lockKey lock) token part (.ok outcome))
    (hlog : log = ⟨.registry m.id (.held ctx lock), some token⟩ ::
      (part ++ [⟨.registry m.id (.forget ctx lock), removed⟩, ⟨.count (.release outcome), ()⟩,
        ⟨.release conn, ()⟩]))
    (hquiet : (serving others).Spares fun v => v.heldBy ⟨m.id, ctx⟩ lock)
    (hbar : (serving others).Keeps fun v => ¬ v.Carries (lockKey lock) token)
    (hl : (serving others).Leads w log w') :
    (∃ v, LastCommand (serving others) w log v w' ∧
      outcome.isSuccess = (v.store.keyspace.live? v.now (lockKey lock)).all (·.holds token)) ∧
    Released (serving others) ⟨m.id, ctx⟩ lock token w log w' := by
  have hend : ∀ x ∈ [(⟨.registry m.id (.forget ctx lock), removed⟩ : Exchange),
      ⟨.count (.release outcome), ()⟩, ⟨.release conn, ()⟩],
      x.effect.OnlyGivesUp (lockKey lock) token ∧ ¬ x.IsCall := by
    simp [Effect.OnlyGivesUp, Effect.written?, Exchange.IsCall]
  have honly : ∀ x ∈ log, x.effect.OnlyGivesUp (lockKey lock) token := by
    rw [hlog]
    exact List.forall_mem_cons.2 ⟨.inl rfl, List.forall_mem_append.2
      ⟨fun x hx => h.onlyGivesUp hx, fun x hx => (hend x hx).1⟩⟩
  subst hlog
  obtain ⟨-, w₁, hlooked, hlook, hrest⟩ := hl.of_held (p := ⟨m.id, ctx⟩) hquiet
  obtain ⟨w₂, hpart, hfinish⟩ := hrest.split
  obtain ⟨w₃, w₄, hidle, hforget, hcount⟩ := hfinish.of_cons
  have hkept : (serving others).Registers w.toLedger w₃ :=
    hidle.registers (hpart.registers hlooked fun x hx => h.not_isRegistry hx)
      (List.forall_mem_nil _)
  have hforgot : (serving others).Registers (w.forgetFor ⟨m.id, ctx⟩ lock) w' :=
    hcount.registers (Environment.Registers.forget (p := ⟨m.id, ctx⟩) hkept hforget)
      (by simp [Effect.IsRegistry])
  obtain ⟨⟨v, hlast, hanswer⟩, hgone⟩ := h.answered hbar hpart
  refine ⟨⟨v, hlast.extend hlook hfinish fun x hx => (hend x hx).2, hanswer⟩, ?_⟩
  exact {
    token_gone := hfinish.not_carries (fun x hx => (hend x hx).1) hbar hgone
    entry_gone := (hforgot.entries _ _ hquiet).trans
      ((Ledger.heldBy_forgetFor ..).trans (if_pos ⟨rfl, rfl⟩))
    registers := hforgot
    keys := fun key hkey hspares => hl.find?_eq honly hkey hspares
    foreign := fun hforeign hkeeps hsplit _ hafter hv => hafter.keeps_foreign
      (fun x hx => honly x (hsplit ▸ List.mem_append_right _ hx)) hforeign hkeeps hv }

end

/-- What a release comes to, on a store in memory in any state, for a context that has an entry for
the lock.

Others may be at work meanwhile, as long as they neither change this entry nor bring its token back.
Any call may fail. A release that has begun can end. If no call fails, the answer is false exactly
if the key had another value when the store was asked last, and true otherwise. Then the key does
not have the token, a value of another owner and all other keys are as they were, the entry is gone,
and the registries have all other entries. A second release answers false and does not call the
store. If a call fails, so does the release, with the error of that call as the cause, and the
registries are as they were. -/
theorem release_comes_to (m : Manager) (ctx : Context) (lock : String)
    {others : World → World → Prop} {token : Token} {w : World}
    (hquiet : (serving others).Spares fun v => v.heldBy ⟨m.id, ctx⟩ lock)
    (hbar : (serving others).Keeps fun v => ¬ v.Carries (lockKey lock) token)
    (hheld : w.heldBy ⟨m.id, ctx⟩ lock = some token) :
    (((op : X.Op) → X.Reply op) → ∀ {log : List Exchange} {v : World},
      (∃ p, (m.release (X := X) ctx lock).run.After log p ∧ (serving others).Leads w log v) →
      ∃ log' r w', (m.release (X := X) ctx lock).run.After (log ++ log') (.done r) ∧
        (serving others).Leads w (log ++ log') w') ∧
    ∀ {log : List Exchange} {r : Except Failure Bool} {w' : World},
      (m.release (X := X) ctx lock).run.After log (.done r) →
      (serving others).Leads w log w' →
      ((∀ x ∈ log, ¬ x.Fails) →
        (∃ v, LastCommand (serving others) w log v w' ∧
          r = .ok ((v.store.keyspace.live? v.now (lockKey lock)).all (·.holds token))) ∧
        Released (serving others) ⟨m.id, ctx⟩ lock token w log w' ∧
        ∀ {log' : List Exchange} {r' : Except Failure Bool} {w'' : World},
          (m.release (X := X) ctx lock).run.After log' (.done r') →
          (serving others).Leads w' log' w'' → r' = .ok false ∧ ∀ x ∈ log', ¬ x.IsCall) ∧
      ((∃ x ∈ log, x.Fails) →
        (∃ c err, (⟨.call c, .error err⟩ : Exchange) ∈ log ∧ r = .error (Failure.ofStore err)) ∧
        (serving others).Registers w.toLedger w') := by
  refine ⟨fun hear log v ⟨p, h, hl⟩ => ?_, ?_⟩
  · obtain ⟨log', r, w', h', hl'⟩ := (serving others).ends
      (fun v e => ⟨_, _, .answered none e⟩) hear p v
    exact ⟨log', r, w', h.trans h', hl.trans hl'⟩
  intro log r w' h hl
  rcases (m.release_after ctx lock h).cases_of_held hquiet hheld hl with
    ⟨part, e, hgives, rfl, rfl⟩ | ⟨part, outcome, removed, conn, hgives, hlog, rfl⟩
  · obtain ⟨c, hmem⟩ := hgives.exists_failed
    obtain ⟨-, w₁, hlooked, -, hpart⟩ := hl.of_held (p := ⟨m.id, ctx⟩) hquiet
    refine ⟨fun hok => absurd ⟨e, rfl⟩ (hok _ (List.mem_cons_of_mem _ hmem)), fun _ => ⟨?_, ?_⟩⟩
    · exact ⟨c, e, List.mem_cons_of_mem _ hmem, rfl⟩
    · exact hpart.registers hlooked fun x hx => hgives.not_isRegistry hx
  · obtain ⟨⟨v, hlast, hanswer⟩, hreleased⟩ := hgives.released hlog hquiet hbar hl
    refine ⟨fun _ => ⟨⟨v, hlast, congrArg Except.ok hanswer⟩, hreleased, fun h' hl' => ?_⟩, ?_⟩
    · exact (m.release_after ctx lock h').of_not_held hquiet hreleased.entry_gone hl'
    · -- the look, the forgetting, the count and the return cannot fail, and the rest did not
      rintro ⟨x, hmem, hfails⟩
      have hpart : x ∈ part := by
        rw [hlog] at hmem
        simp only [List.mem_cons, List.mem_append, List.not_mem_nil, or_false] at hmem
        rcases hmem with rfl | hmem | rfl | rfl | rfl
        · exact hfails.elim
        · exact hmem
        · exact hfails.elim
        · exact hfails.elim
        · exact hfails.elim
      obtain ⟨e, he⟩ := hgives.fails_iff.2 ⟨x, hpart, hfails⟩
      cases he

/-! ### A lock that was taken over -/

/-- Nothing else goes on while an effect waits as long as it can. -/
def World.Waits (w w' : World) : Prop :=
  ∃ e w₁ wait, w.wait? e = some (w₁, wait) ∧ w' = w₁.atTime wait.latest

namespace World.Waits

variable {w w' : World}

theorem heldBy_eq (h : w.Waits w') (p : Owner) (lock : String) :
    w'.heldBy p lock = w.heldBy p lock := by
  obtain ⟨e, w₁, wait, hwait, rfl⟩ := h
  exact heldBy_congr (wait?_alike hwait).registries p lock

theorem find?_eq (h : w.Waits w') (key : String) :
    w'.store.keyspace.find? key = w.store.keyspace.find? key := by
  obtain ⟨e, w₁, wait, hwait, rfl⟩ := h
  exact congrArg (·.find? key) (wait?_alike hwait).keyspace

theorem now_le (h : w.Waits w') : w.now ≤ w'.now := by
  obtain ⟨e, w₁, wait, hwait, rfl⟩ := h
  have hnow : w₁.now = w.now := (wait?_alike hwait).now
  show w.now ≤ max w₁.now wait.latest
  omega

/-- A value does not come while nothing goes on. -/
theorem not_carries (h : w.Waits w') {key : String} {token : Token} (hw : ¬ w.Carries key token) :
    ¬ w'.Carries key token :=
  fun hc => hw (hc.earlier (h.find?_eq key) h.now_le)

end World.Waits

/-- A program that is run by itself is served while nothing goes on but its own waits. -/
theorem serving_perform (w : World) (e : Effect) :
    (serving World.Waits).Leads w [⟨e, (w.perform e).2⟩] (w.perform e).1 := by
  unfold World.perform
  cases hwait : w.wait? e with
  | none => exact .exchange (.answered none e) (.done _)
  | some v =>
    obtain ⟨w₁, wait⟩ := v
    exact .others ⟨e, w₁, wait, hwait, rfl⟩ (.exchange (.answered (some wait) e) (.done _))

/-- The world in which another context has acquired the lock that lapsed. -/
def World.takenOver : World := ((({} : Manager).acquire "b" "L" 50 0).run.runOn World.lapsed).1

/-- A release of a lock that was taken over answers false, and leaves it to its new owner. -/
theorem release_comes_to_taken_over :
    World.takenOver.heldBy ⟨0, "a"⟩ "L" = some (Token.ofSerial 0) ∧ ∃ log w',
      (serving World.Waits).Leads World.takenOver log w' ∧ (∀ x ∈ log, ¬ x.Fails) ∧
      w'.heldBy ⟨0, "a"⟩ "L" = none ∧
      w'.heldBy ⟨0, "b"⟩ "L" = World.takenOver.heldBy ⟨0, "b"⟩ "L" ∧
      ∃ entry, entry.holds (Token.ofSerial 1) ∧
        w'.store.keyspace.find? (lockKey "L") = some entry := by
  have hquiet : (serving World.Waits).Spares fun v => v.heldBy ⟨0, "a"⟩ "L" :=
    fun _ _ ho => ho.heldBy_eq _ _
  have hbar : (serving World.Waits).Keeps fun v => ¬ v.Carries (lockKey "L") (Token.ofSerial 0) :=
    fun _ _ ho hw => ho.not_carries hw
  have hheld : World.takenOver.heldBy ⟨0, "a"⟩ "L" = some (Token.ofSerial 0) := by
    decide +kernel
  let p := (({} : Manager).release (X := .none) "a" "L").run
  have hleads : (serving World.Waits).Leads World.takenOver _ _ :=
    Environment.leads_solo (f := id) serving_perform p World.takenOver
  obtain ⟨-, hcomes⟩ := release_comes_to (X := .none) {} "a" "L" hquiet hbar hheld
  obtain ⟨hwell, hfails⟩ := hcomes (p.after_solo World.takenOver) hleads
  have hfalse : (p.runOn World.takenOver).2 = .ok false := eq_ok_of_toOption (by decide +kernel)
  have hnone : ∀ x ∈ p.soloExchanges World.takenOver, ¬ x.Fails := by
    intro x hx hf
    obtain ⟨⟨c, err, -, hr⟩, -⟩ := hfails ⟨x, hx, hf⟩
    cases hfalse.symm.trans hr
  obtain ⟨-, hreleased, -⟩ := hwell hnone
  have hvalue : (World.takenOver.store.keyspace.find? (lockKey "L")).any
      (·.holds (Token.ofSerial 1)) = true := by
    decide +kernel
  obtain ⟨entry, hfind, hholds⟩ := (Option.any_eq_true _ _).1 hvalue
  have hforeign : entry.holds (Token.ofSerial 0) = false :=
    Bool.eq_false_iff.2 fun h => absurd (Entry.holds_unique hholds h) (by decide)
  refine ⟨hheld, _, _, hleads, hnone, hreleased.entry_gone, ?_, entry, hholds, ?_⟩
  · exact (hreleased.registers.entries _ _ fun _ _ ho => ho.heldBy_eq _ _).trans
      ((Ledger.heldBy_forgetFor ..).trans (if_neg (by decide)))
  · exact hreleased.foreign hforeign (fun _ _ ho hv => (ho.find?_eq _).trans hv)
      (List.nil_append _).symm (.done _) hleads hfind

end Latchkey
