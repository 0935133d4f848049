import Latchkey.Proofs.Borrowing
import Latchkey.Proofs.Conduct
import Latchkey.Proofs.Deployments
import Latchkey.Proofs.FilterContents
import Latchkey.Proofs.PoolAccounts

/-!
# What an operation leaves alone

An operation that is run by itself leaves the store as it was but for the keyspace: it gives back
what it borrows, and nobody waits in between. An operation on another lock, or on a filter whose key
is no lock key, leaves everything about a lock as it was. Time passes and tokens are minted, that is
all.

The main statements are `Operation.sameStore_runOn` and `Operation.sameLock_runOn`.
-/

namespace Latchkey

/-! ## Running by itself -/

namespace Program

variable {α β : Type}

/-- What one exchange after the other preserves, from the beginning of a program, holds at its
end. -/
theorem runOn_induct {p : Program .none α} {I : List Exchange → World → Prop} {w : World}
    (hstart : I [] w)
    (hstep : ∀ {log : List Exchange} {w₁ : World} {e : Effect} {next : e.Reply → Program .none α},
      p.After log (.effect e next) → I log w₁ →
      I (log ++ [⟨e, (w₁.perform e).2⟩]) (w₁.perform e).1) :
    ∃ log, p.After log (.done (p.runOn w).2) ∧ I log (p.runOn w).1 := by
  have hrest : ∀ (q : Program .none α) (log : List Exchange) (w₁ : World), p.After log q →
      I log w₁ → ∃ log', p.After log' (.done (q.runOn w₁).2) ∧ I log' (q.runOn w₁).1 := by
    intro q
    induction q with
    | done a => exact fun log w₁ ha hi => ⟨log, ha, hi⟩
    | effect e next ih => exact fun log w₁ ha hi => ih _ _ _ (ha.effect _) (hstep ha hi)
    | extended op next ih => exact op.elim
  exact hrest p [] w .start hstart

/-- Where something holds before a program it holds after it. -/
def Preserves (P : World → Prop) (p : Program .none α) : Prop := ∀ ⦃w⦄, P w → P (p.runOn w).1

theorem Preserves.map {P : World → Prop} {p : Program .none α} (hp : p.Preserves P) (f : α → β) :
    (f <$> p).Preserves P := by
  intro w h
  rw [map_eq_pure_bind, runOn_bind]
  exact hp h

end Program

/-- An acquisition with retries preserves what its attempts and the passing of time preserve. -/
theorem Manager.acquireWithRetry_preserves {P : World → Prop} {m : Manager} {ctx : Context}
    {lock : String} {ttl wait : Nat} (hacquire : (m.acquire ctx lock ttl wait).run.Preserves P)
    (hlater : ∀ ⦃w ms⦄, P w → P (w.later ms)) (budget : Nat) :
    (m.acquireWithRetry ctx lock ttl wait budget).run.Preserves P := by
  -- what is preserved is respected by a world and itself
  let R : World → World → Prop := fun w w' => w' = w ∧ P w
  have hretry : (m.acquireWithRetry ctx lock ttl wait budget).run.Respects R := by
    refine retry_respects ?_ ?_ ?_ ?_ budget
    · rintro _ w ⟨rfl, h⟩
      exact ⟨rfl, rfl, hacquire h⟩
    · rintro _ w ⟨rfl, h⟩
      exact ⟨rfl, rfl, h⟩
    · rintro _ w ⟨rfl, h⟩
      exact ⟨rfl, rfl, h⟩
    · rintro _ w ⟨rfl, h⟩
      refine ⟨rfl, rfl, ?_⟩
      show P (w.perform (.sleep m.settings.pollInterval)).1
      rw [World.perform_sleep]
      exact hlater h
  intro w h
  exact (hretry (w := w) ⟨rfl, h⟩).2.2

/-! ## The store -/

/-- The pool with a connection less, if one is borrowed. -/
def Pool.lending (p : Pool) : Option Connection → Pool
  | none => p
  | some _ => { p with free := p.free - 1 }

/-- Taking a connection back undoes lending it, where nobody waits. -/
theorem Pool.putBack_lending {p : Pool} (hfree : 0 < p.free) (hwaiting : p.waiting = [])
    (conn : Connection) : (p.lending (some conn)).putBack = p := by
  obtain ⟨free, waiting, granted, nextTicket⟩ := p
  obtain rfl : waiting = [] := hwaiting
  show (⟨free - 1 + 1, [], granted, nextTicket⟩ : Pool) = _
  rw [Nat.sub_add_cancel hfree]

namespace World

variable {lock : String} {held : Option Connection} {w w₁ w₂ : World} {e : Effect}

/-- But for the keyspace, for the number of connections lent so far and for the one that is borrowed
now, the store is the same. -/
def SameStore (held : Option Connection) (w w₁ : World) : Prop :=
  ∃ ks loans, w₁.store =
    { w.store with keyspace := ks, loans := loans, pool := w.store.pool.lending held }

theorem SameStore.refl (w : World) : w.SameStore none w := ⟨w.store.keyspace, w.store.loans, rfl⟩

theorem SameStore.trans (h : w.SameStore none w₁) (h' : w₁.SameStore held w₂) :
    w.SameStore held w₂ := by
  obtain ⟨ks, loans, hstore⟩ := h
  obtain ⟨ks', loans', hstore'⟩ := h'
  exact ⟨ks', loans', by rw [hstore', hstore]; rfl⟩

theorem SameStore.pool (h : w.SameStore none w₁) : w₁.store.pool = w.store.pool := by
  obtain ⟨ks, loans, hstore⟩ := h
  rw [hstore]
  rfl

/-- An effect that neither takes a connection nor gives one back changes nothing of the store but
the keyspace. -/
theorem answer_store (w : World) (waited : Option Wait) (he : ¬ e.Lends) :
    ∃ ks, (w.answer waited e).1.store = { w.store with keyspace := ks } := by
  cases e with
  | call c =>
    cases c with
    | connect node => exact absurd trivial he
    | command conn cmd =>
      cases cmd with
      | awaitReplicas count timeout =>
        refine ⟨w.store.keyspace, ?_⟩
        show (w.command conn waited _).1.store = w.store
        unfold command
        split
        · rfl
        · split
          · rfl
          · split <;> rfl
      | _ => exact ⟨_, rfl⟩
    | _ => exact ⟨_, rfl⟩
  | release conn => exact absurd trivial he
  | _ => exact ⟨_, rfl⟩

/-- Only a borrower changes the world when it begins to wait. -/
theorem eq_of_wait? {wait : Wait} (h : w.wait? e = some (w₁, wait)) (he : ¬ e.Lends) : w₁ = w := by
  unfold wait? at h
  split at h
  · split at h <;> cases h
    rfl
  · exact absurd trivial he
  · obtain ⟨_, _, heq⟩ := Option.map_eq_some_iff.1 h
    cases heq
    rfl
  · cases h

theorem perform_store (w : World) (he : ¬ e.Lends) :
    ∃ ks, (w.perform e).1.store = { w.store with keyspace := ks } := by
  unfold perform
  cases h : w.wait? e with
  | none => exact w.answer_store none he
  | some v =>
    obtain ⟨w₁, wait⟩ := v
    obtain rfl := eq_of_wait? h he
    exact (w₁.atTime wait.latest).answer_store (some wait) he

/-- A borrower that finds a connection free does not wait. -/
theorem perform_connect (hfree : 0 < w.store.pool.free) (node : NodeId) :
    (∃ err, w.perform (.call (.connect node)) = (w, .error err)) ∨
      w.perform (.call (.connect node)) = (w.lent, .ok ⟨w.store.loans, node⟩) := by
  obtain ⟨n, hn⟩ : ∃ n, w.store.pool.free = n + 1 := ⟨_, (Nat.sub_add_cancel hfree).symm⟩
  have hwait : w.wait? (.call (.connect node)) = none := by simp [wait?, hn]
  rw [perform_of_wait? hwait]
  show (∃ err, w.connect node none = _) ∨ w.connect node none = _
  cases hrefusal : w.store.refusal? node with
  | some err =>
    left
    exact ⟨err, by simp only [connect, hrefusal]⟩
  | none =>
    right
    simp [connect, hrefusal, Pool.take?, hn, lend, Memory.lend, lent]

/-- What is borrowed is given back, and nothing else of the store changes but the keyspace. -/
theorem SameStore.perform (hfree : 0 < w.store.pool.free) (hwaiting : w.store.pool.waiting = [])
    (h : w.SameStore held w₁) (hp : Borrowing.permits held e) :
    w.SameStore (Borrowing.next held ⟨e, (w₁.perform e).2⟩) (w₁.perform e).1 := by
  obtain ⟨ks, loans, hstore⟩ := h
  by_cases he : e.Lends
  · cases e with
    | call c =>
      cases c with
      | connect node =>
        obtain rfl : held = none := hp
        have hfree₁ : 0 < w₁.store.pool.free := by rw [hstore]; exact hfree
        rcases perform_connect hfree₁ node with ⟨err, hperform⟩ | hperform
        · rw [hperform]
          exact ⟨ks, loans, hstore⟩
        · rw [hperform]
          refine ⟨ks, loans + 1, ?_⟩
          simp [lent, hstore, Pool.lending, Borrowing.next]
      | _ => exact he.elim
    | release conn =>
      obtain rfl : held = some conn := hp
      refine ⟨ks, loans, ?_⟩
      show { w₁.store with pool := w₁.store.pool.putBack } = _
      rw [hstore]
      simp only [Pool.putBack_lending hfree hwaiting]
      rfl
    | _ => exact he.elim
  · rw [Borrowing.next_of_not_lends he]
    obtain ⟨ks', hstore'⟩ := w₁.perform_store he
    exact ⟨ks', loans, by rw [hstore', hstore]⟩

end World

/-- An operation that is run by itself leaves the store as it was but for the keyspace, where a
connection is free and nobody waits for one. -/
theorem Operation.sameStore_runOn (o : Operation) {w : World} (hfree : 0 < w.store.pool.free)
    (hwaiting : w.store.pool.waiting = []) : w.SameStore none (o.program.runOn w).1 := by
  obtain ⟨log, hdone, hstore⟩ := Program.runOn_induct (p := o.program)
    (I := fun log w₁ => w.SameStore (borrowed? log) w₁) (World.SameStore.refl w)
    fun {log w₁ e next} ha h => by
      rw [borrowed?_concat]
      exact h.perform hfree hwaiting (o.borrows.permits ha)
  have hnone : borrowed? log = none := o.borrows.final hdone
  rwa [hnone] at hstore

/-! ## A lock -/

/-- The key that a command may write. -/
def Command.written? : Command → Option String
  | .set key .. => some key
  | .compareAndDelete key _ => some key
  | .compareAndExpire key .. => some key
  | .setBit key .. => some key
  | .expire key _ => some key
  | _ => none

/-- Whether an effect spares a lock: it writes neither the key of the lock nor the entry of an owner
for it. -/
def Effect.Spares (lock : String) : Effect → Prop
  | .registry _ (.record _ lock' _) => lock' ≠ lock
  | .registry _ (.forget _ lock') => lock' ≠ lock
  | .registry _ (.dispose _) => False
  | .call (.command _ cmd) => cmd.written? ≠ some (lockKey lock)
  | _ => True

/-- A command changes no entry but that of the key that it writes. -/
theorem Memory.find?_execute (m : Memory) (now : Nat) {cmd : Command} {key : String}
    (hcmd : cmd.written? ≠ some key) :
    (m.execute now cmd).1.keyspace.find? key = m.keyspace.find? key := by
  cases cmd with
  | set key' value ttl onlyIfAbsent =>
    have hne : ¬ key = key' := fun heq => hcmd (congrArg some heq.symm)
    exact (Keyspace.find?_of_set rfl key).trans (if_neg fun h => hne h.1)
  | compareAndDelete key' expected =>
    have hne : ¬ key = key' := fun heq => hcmd (congrArg some heq.symm)
    exact (Keyspace.find?_of_compareAndDelete rfl key).trans (if_neg fun h => hne h.1)
  | compareAndExpire key' expected ttl =>
    have hne : ¬ key = key' := fun heq => hcmd (congrArg some heq.symm)
    exact (Keyspace.find?_of_compareAndExpire rfl key).trans (if_neg fun h => hne h.1)
  | setBit key' offset bit =>
    have hne : ¬ key = key' := fun heq => hcmd (congrArg some heq.symm)
    exact (Table.find?_insert ..).trans (if_neg hne)
  | expire key' ttl =>
    have hne : ¬ key = key' := fun heq => hcmd (congrArg some heq.symm)
    show (m.keyspace.expire now key' ttl).1.find? key = _
    unfold Keyspace.expire
    split
    · exact (Table.find?_insert ..).trans (if_neg hne)
    · rfl
  | _ => rfl

namespace World

variable {lock : String} {w w₁ w₂ : World} {e : Effect}

/-- Nothing about a lock has changed: all owners have the entries that they had, and its key has
what it had. Time may have passed, and tokens may have been minted. -/
structure SameLock (lock : String) (w w₁ : World) : Prop where
  now : w.now ≤ w₁.now
  nextToken : w.nextToken ≤ w₁.nextToken
  held : ∀ p, w₁.heldBy p lock = w.heldBy p lock
  stored : w₁.store.keyspace.find? (lockKey lock) = w.store.keyspace.find? (lockKey lock)

namespace SameLock

theorem refl (lock : String) (w : World) : w.SameLock lock w :=
  ⟨Nat.le_refl _, Nat.le_refl _, fun _ => rfl, rfl⟩

theorem trans (h : w.SameLock lock w₁) (h' : w₁.SameLock lock w₂) : w.SameLock lock w₂ where
  now := Nat.le_trans h.now h'.now
  nextToken := Nat.le_trans h.nextToken h'.nextToken
  held p := (h'.held p).trans (h.held p)
  stored := h'.stored.trans h.stored

theorem of_alike (lock : String) (h : w.Alike w₁) : w.SameLock lock w₁ where
  now := Nat.le_of_eq h.now.symm
  nextToken := Nat.le_of_eq h.nextToken.symm
  held p := by simp only [Ledger.heldBy, Ledger.registry, h.registries]
  stored := congrArg (·.find? (lockKey lock)) h.keyspace

theorem atTime (lock : String) (w : World) (t : Nat) : w.SameLock lock (w.atTime t) :=
  ⟨Nat.le_max_left _ _, Nat.le_refl _, fun _ => rfl, rfl⟩

theorem later (lock : String) (w : World) (ms : Nat) : w.SameLock lock (w.later ms) :=
  ⟨Nat.le_add_right _ _, Nat.le_refl _, fun _ => rfl, rfl⟩

theorem command (w : World) (conn : Connection) (waited : Option Wait) {cmd : Command}
    (hcmd : cmd.written? ≠ some (lockKey lock)) :
    w.SameLock lock (w.command conn waited cmd).1 := by
  obtain ⟨hledger, hnow, -⟩ := w.command_frame conn waited cmd
  refine ⟨Nat.le_of_eq hnow.symm, ?_, fun p => ?_, ?_⟩
  · exact Nat.le_of_eq (congrArg Ledger.nextToken hledger).symm
  · rw [hledger]
  · rw [command_keyspace, Memory.find?_execute w.store w.now hcmd]

theorem registry (w : World) (m : ManagerId) {a : RegistryAccess}
    (ha : (Effect.registry m a).Spares lock) :
    w.SameLock lock (w.withLedger (w.toLedger.access m a).1) := by
  cases a with
  | held ctx lock' => exact refl lock w
  | record ctx lock' token =>
    refine ⟨Nat.le_refl _, Nat.le_refl _, fun p => ?_, rfl⟩
    have hne : ¬ (p = ⟨m, ctx⟩ ∧ lock = lock') := fun h => ha h.2.symm
    exact (w.toLedger.heldBy_recordFor ⟨m, ctx⟩ p lock' lock token).trans (if_neg hne)
  | forget ctx lock' =>
    refine ⟨Nat.le_refl _, Nat.le_refl _, fun p => ?_, rfl⟩
    have hne : ¬ (p = ⟨m, ctx⟩ ∧ lock = lock') := fun h => ha h.2.symm
    exact (w.toLedger.heldBy_forgetFor ⟨m, ctx⟩ p lock' lock).trans (if_neg hne)
  | dispose ctx => exact ha.elim

theorem answer (w : World) (waited : Option Wait) (he : e.Spares lock) :
    w.SameLock lock (w.answer waited e).1 := by
  cases e with
  | call c =>
    cases c with
    | connect node => exact of_alike lock (w.connect_alike node waited)
    | command conn cmd => exact command w conn waited he
    | nodeOwning key => exact refl lock w
    | replicaCount node => exact refl lock w
  | registry m a => exact registry w m he
  | release conn => exact of_alike lock w.giveBack_alike
  | mint => exact ⟨Nat.le_refl _, Nat.le_succ _, fun _ => rfl, rfl⟩
  | count measure => exact ⟨Nat.le_refl _, Nat.le_refl _, fun _ => rfl, rfl⟩
  | _ => exact refl lock w

theorem perform (w : World) (he : e.Spares lock) : w.SameLock lock (w.perform e).1 := by
  unfold World.perform
  cases h : w.wait? e with
  | none => exact answer w none he
  | some v =>
    obtain ⟨w₁, wait⟩ := v
    exact ((of_alike lock (wait?_alike h)).trans (atTime lock w₁ _)).trans (answer _ _ he)

end SameLock

end World

/-! ## Operations that spare a lock -/

/-- Only effects that spare a lock. -/
def sparing (lock : String) : Discipline Unit := ⟨fun _ e => e.Spares lock, fun _ _ => ()⟩

/-- A program that spares a lock, whatever the store answers. -/
def Program.Spares {X : Extension} {α : Type} (lock : String) (p : Program X α) : Prop :=
  p.Obeys (sparing lock) () fun _ _ => True

namespace Action

variable {X : Extension} {ε α β : Type} {lock : String}

theorem spares_bind {x : Action X ε α} {f : α → Action X ε β}
    (hx : x.run.Spares lock) (hf : ∀ a, (f a).run.Spares lock) : (x >>= f).run.Spares lock := by
  refine ensures_bind.2 (hx.mono ?_)
  rintro held (e | a) -
  · trivial
  · exact hf a

theorem spares_setBit {key : String} (conn : Connection) (hkey : key ≠ lockKey lock) (offset : Nat)
    (bit : Bool) :
    (send (X := X) conn (.setBit key offset bit)).run.Spares lock :=
  ⟨fun h => hkey (Option.some.inj h), fun _ => trivial⟩

theorem spares_withConnectionFor (key : String) {use : Connection → Action X StoreError α}
    (huse : ∀ conn, (use conn).run.Spares lock) :
    (withConnection (connectionFor key) use).run.Spares lock := by
  refine ensures_withConnection.2 (ensures_connectionFor.2 ⟨trivial, ?_⟩)
  rintro (e | node)
  · trivial
  · refine ⟨trivial, ?_⟩
    rintro (e | conn)
    · trivial
    · exact (huse conn).mono fun _ _ _ => ⟨trivial, fun _ => trivial⟩

end Action

open Latchkey.Action

namespace FilterPlan

variable {X : Extension} {p : FilterPlan} {key lock : String}

theorem setBits_spares (conn : Connection) (hkey : key ≠ lockKey lock) (offsets : List Nat) :
    (setBits (X := X) conn key offsets).run.Spares lock := by
  induction offsets with
  | nil => trivial
  | cons offset rest ih => exact spares_bind (spares_setBit conn hkey _ _) fun _ => ih

theorem allSet_spares (conn : Connection) (key lock : String) (offsets : List Nat) :
    (allSet (X := X) conn key offsets).run.Spares lock := by
  induction offsets with
  | nil => trivial
  | cons offset rest ih =>
    refine spares_bind ⟨nofun, fun _ => trivial⟩ fun set => ?_
    cases set with
    | true => exact ih
    | false => trivial

theorem prepare_spares (hkey : p.name ≠ lockKey lock) : (p.prepare (X := X)).run.Spares lock := by
  refine spares_withConnectionFor p.name fun conn => ?_
  refine spares_bind ⟨nofun, fun _ => trivial⟩ fun present => ?_
  cases present with
  | true => trivial
  | false =>
    refine spares_bind (spares_setBit conn hkey _ _) fun _ => ?_
    cases p.expiration with
    | none => trivial
    | some ms =>
      show Program.Spares lock (ExceptT.run (if 0 < ms then _ else _))
      by_cases hpos : 0 < ms
      · rw [if_pos hpos]
        have hexpire : (send (X := X) conn (.expire p.name ms)).run.Spares lock :=
          ⟨fun h => hkey (Option.some.inj h), fun _ => trivial⟩
        exact spares_bind hexpire fun _ => trivial
      · rw [if_neg hpos]
        trivial

theorem create_spares {s : FilterSettings} (hkey : s.name ≠ lockKey lock) :
    (create (X := X) s).run.Spares lock := by
  unfold create
  cases hplan : ofSettings s with
  | error failure => trivial
  | ok p =>
    have hname : p.name ≠ lockKey lock := by rwa [(ofSettings_eq hplan).1]
    exact spares_bind (ensures_orFail.2 (prepare_spares hname))
      fun _ => ⟨trivial, fun _ => trivial⟩

theorem add_spares (hkey : p.name ≠ lockKey lock) (element : String) :
    (p.add (X := X) element).run.Spares lock := by
  have hset := spares_withConnectionFor (X := X) p.name fun conn =>
    setBits_spares conn hkey (p.offsets element)
  exact spares_bind (ensures_orFail.2 hset) fun _ => ⟨trivial, fun _ => trivial⟩

theorem test_spares (p : FilterPlan) (lock element : String) :
    (p.test (X := X) element).run.Spares lock := by
  have hread := spares_withConnectionFor (X := X) p.name fun conn =>
    allSet_spares conn p.name lock (p.offsets element)
  exact spares_bind ⟨trivial, fun _ => trivial⟩ fun _ => ensures_orFail.2 hread

end FilterPlan

namespace Operation

variable {X : Extension} {lock : String}

/-- The operation is one on another lock, or on a filter whose key is not that of the lock. -/
def Spares (lock : String) : Operation → Prop
  | .acquire _ _ lock' .. => lock' ≠ lock
  | .release _ _ lock' => lock' ≠ lock
  | .dispose .. => False
  | .clear guard _ => guard.lock ≠ lock
  | .createFilter s => s.name ≠ lockKey lock
  | .addElement p _ => p.name ≠ lockKey lock
  | .testElement .. => True

theorem Spares.lock?_ne {o : Operation} (h : o.Spares lock) : o.lock? ≠ some lock := by
  cases o with
  | acquire m ctx lock' ttl wait => exact fun heq => h (Option.some.inj heq)
  | release m ctx lock' => exact fun heq => h (Option.some.inj heq)
  | clear guard token => exact fun heq => h (Option.some.inj heq)
  | _ => nofun

/-- A lock operation writes the entry and the key of its own lock only. -/
theorem Spares.of_permits {o : Operation} (h : o.Spares lock) {s : Phase} {t : Surrender}
    {e : Effect} (hp : o.permits s e) (hc : o.mayPerform t e) : e.Spares lock := by
  have hkey : ∀ {key : String}, o.lock?.map lockKey = some key →
      some key ≠ some (lockKey lock) := by
    intro key hown heq
    obtain ⟨lock', hlock', rfl⟩ := Option.map_eq_some_iff.1 hown
    obtain rfl : lock' = lock := lockKey_inj.1 (Option.some.inj heq)
    exact h.lock?_ne hlock'
  cases e with
  | registry m a =>
    cases a with
    | held ctx lock' => trivial
    | record ctx lock' token =>
      rintro rfl
      exact h.lock?_ne hp.1.2
    | forget ctx lock' =>
      rintro rfl
      exact h.lock?_ne hp.2
    | dispose ctx =>
      obtain ⟨m', rfl, -⟩ := hc
      exact h.elim
  | call c =>
    cases c with
    | command conn cmd =>
      cases cmd with
      | set key token ttl onlyIfAbsent => exact hkey hp.1
      | compareAndDelete key token => exact hkey hp.1
      | compareAndExpire key token ttl => exact hkey hp.1
      | setBit key offset bit => exact hp.elim
      | expire key ttl => exact hp.elim
      | _ => nofun
    | _ => trivial
  | _ => trivial

/-- An operation that spares a lock performs effects that spare it. -/
theorem Spares.after {o : Operation} (h : o.Spares lock) {log : List Exchange} {e : Effect}
    {next : e.Reply → Program X o.Answer} (ha : o.program.After log (.effect e next)) :
    e.Spares lock := by
  have hlock : o.IsLock → e.Spares lock := fun ho =>
    h.of_permits ((o.obeys ho).permits ha) ((o.conducts ho).permits ha)
  cases o with
  | createFilter s => exact (FilterPlan.create_spares h).permits ha
  | addElement p element => exact (FilterPlan.add_spares h element).permits ha
  | testElement p element => exact (p.test_spares lock element).permits ha
  | _ => exact hlock rfl

/-- An operation that spares a lock leaves everything about it as it was. -/
theorem sameLock_runOn {o : Operation} (h : o.Spares lock) (w : World) :
    w.SameLock lock (o.program.runOn w).1 := by
  obtain ⟨-, -, hsame⟩ := Program.runOn_induct (p := o.program)
    (I := fun _ w₁ => w.SameLock lock w₁) (World.SameLock.refl lock w)
    fun ha hw₁ => hw₁.trans (World.SameLock.perform _ (h.after ha))
  exact hsame

end Operation

end Latchkey
