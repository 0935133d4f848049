import Latchkey.Proofs.Frames
import Latchkey.Proofs.Protocol

/-!
# What an exchange of a lock operation does

An exchange that the protocol permits is one of a few deeds. Each deed says what the phase was, what
the world answered, and what became of the world and of the phase. Whatever is not a deed on a lock
leaves everything but the pool and the measures as it was.

The main statement is `Deed.of_permits`: every permitted exchange is a deed.
-/

namespace Latchkey

/-! ## Registries of owners -/

namespace Ledger

/-- The token an owner holds for a lock. -/
def heldBy (l : Ledger) (p : Owner) (lock : String) : Option Token :=
  (l.registry p.manager).held p.ctx lock

variable (l : Ledger) (p p' : Owner) (lock lock' : String)

/-- The ledger in which an owner holds a lock. -/
def recordFor (token : Token) : Ledger :=
  l.setRegistry p.manager ((l.registry p.manager).record p.ctx lock token)

/-- The ledger in which an owner does not hold a lock. -/
def forgetFor : Ledger :=
  l.setRegistry p.manager ((l.registry p.manager).forget p.ctx lock)

/-- The ledger in which an owner holds no locks. -/
def disposeFor : Ledger :=
  l.setRegistry p.manager ((l.registry p.manager).dispose p.ctx)

theorem heldBy_recordFor (token : Token) :
    (l.recordFor p lock token).heldBy p' lock' =
      if p' = p ∧ lock' = lock then some token else l.heldBy p' lock' := by
  obtain ⟨m, ctx⟩ := p
  obtain ⟨m', ctx'⟩ := p'
  simp only [heldBy, recordFor, registry_setRegistry, Owner.mk.injEq]
  by_cases hm : m' = m
  · subst hm
    simp [Registry.held_record]
  · simp [hm]

theorem heldBy_forgetFor :
    (l.forgetFor p lock).heldBy p' lock' =
      if p' = p ∧ lock' = lock then none else l.heldBy p' lock' := by
  obtain ⟨m, ctx⟩ := p
  obtain ⟨m', ctx'⟩ := p'
  simp only [heldBy, forgetFor, registry_setRegistry, Owner.mk.injEq]
  by_cases hm : m' = m
  · subst hm
    simp [Registry.held_forget]
  · simp [hm]

theorem heldBy_disposeFor :
    (l.disposeFor p).heldBy p' lock' = if p' = p then none else l.heldBy p' lock' := by
  obtain ⟨m, ctx⟩ := p
  obtain ⟨m', ctx'⟩ := p'
  simp only [heldBy, disposeFor, registry_setRegistry, Owner.mk.injEq]
  by_cases hm : m' = m
  · subst hm
    simp [Registry.held_dispose]
  · simp [hm]

end Ledger

/-! ## Deeds -/

/-- The world with another keyspace. -/
def World.withKeyspace (w : World) (ks : Keyspace) : World :=
  { w with store := { w.store with keyspace := ks } }

/-- The effects that concern neither tokens nor values. -/
def Effect.IsPlain : Effect → Prop
  | .registry .. => False
  | .mint => False
  | .call (.command _ (.set ..)) => False
  | .call (.command _ (.compareAndDelete ..)) => False
  | .call (.command _ (.compareAndExpire ..)) => False
  | _ => True

/-- What an exchange of a lock operation does: the phase before it, the exchange, the world and the
phase after it. -/
inductive Deed (w : World) (o : Operation) : Phase → Exchange → World → Phase → Prop where
  /-- The clock is read. -/
  | clock (s : Phase) : Deed w o s ⟨.clock, w.now⟩ w (s.afterClock o.ttl w.now)
  /-- The deployment is looked up. -/
  | deployment (s : Phase) :
      Deed w o s ⟨.deployment, w.store.deployment⟩ w (s.afterDeployment w.store.deployment)
  /-- A token is minted. -/
  | mint {p : Owner} {lock : String} (ho : o.ActsFor p lock) (clock : Nat) :
      Deed w o (.seeking clock) ⟨.mint, Token.ofSerial w.nextToken⟩ (w.withLedger w.toLedger.mint.1)
        (.fresh (Token.ofSerial w.nextToken) clock)
  /-- The registry is asked for the token. -/
  | look {p : Owner} {lock : String} (ho : o.ActsFor p lock) (clock : Nat) :
      Deed w o (.seeking clock) ⟨.registry p.manager (.held p.ctx lock), w.heldBy p lock⟩ w
        ((Phase.seeking clock).afterLook (w.heldBy p lock))
  /-- The token is recorded. -/
  | record {p : Owner} {lock : String} (ho : o.ActsFor p lock) (token : Token) :
      Deed w o (.granted token) ⟨.registry p.manager (.record p.ctx lock token), ()⟩
        (w.withLedger (w.recordFor p lock token)) (.held token)
  /-- The lock is forgotten. -/
  | forget {p : Owner} {lock : String} (ho : o.ActsFor p lock) (s : Phase) :
      Deed w o s ⟨.registry p.manager (.forget p.ctx lock), w.heldBy p lock⟩
        (w.withLedger (w.forgetFor p lock)) s
  /-- The locks of the context are forgotten. -/
  | dispose {p : Owner} (ho : o.owner? = some p) (s : Phase) :
      Deed w o s ⟨.registry p.manager (.dispose p.ctx), (w.registry p.manager).heldCount p.ctx⟩
        (w.withLedger (w.disposeFor p)) s
  /-- The token is written, or it is not as there is a value. -/
  | write {lock : String} {token : Token} (ho : o.lock? = some lock) (conn : Connection)
      (clock : Nat) (sharded : Bool) {ks : Keyspace} {b : Bool}
      (hks : w.store.keyspace.set w.now (lockKey lock) token o.ttl true = (ks, b)) :
      Deed w o (.minted token clock sharded)
        ⟨.call (.command conn (.set (lockKey lock) token o.ttl true)), .ok b⟩ (w.withKeyspace ks)
        ((Phase.minted token clock sharded).afterWrite (.ok b))
  /-- The key is deleted, or it is not as it has not got the token. -/
  | delete {lock : String} {token : Token} {s : Phase} (ho : o.lock? = some lock)
      (conn : Connection)
      (hs : s = .owning token ∧ o.IsRelease ∨ (∃ since sharded, s = .written token since sharded) ∨
        ∃ sharded, s = .late token sharded) {ks : Keyspace} {b : Bool}
      (hks : w.store.keyspace.compareAndDelete w.now (lockKey lock) token = (ks, b)) :
      Deed w o s ⟨.call (.command conn (.compareAndDelete (lockKey lock) token)), .ok b⟩
        (w.withKeyspace ks) s.afterDelete
  /-- The key is refreshed, or it is not as it has not got the token. -/
  | expire {lock : String} {token : Token} {ttl : Nat} (ho : o.lock? = some lock)
      (conn : Connection) (hpos : 0 < ttl) {ks : Keyspace} {b : Bool}
      (hks : w.store.keyspace.compareAndExpire w.now (lockKey lock) token ttl = (ks, b)) :
      Deed w o (.owning token)
        ⟨.call (.command conn (.compareAndExpire (lockKey lock) token ttl)), .ok b⟩
        (w.withKeyspace ks) ((Phase.owning token).afterExpire (.ok b))
  /-- Anything else. -/
  | other {s : Phase} {x : Exchange} {w' : World} (ha : w.Alike w') (hx : x.effect.IsPlain) :
      Deed w o s x w' s

namespace Deed

variable {w w' : World} {o : Operation} {s : Phase}

/-- Every exchange that is permitted is a deed. -/
theorem of_permits {e : Effect} (hp : o.permits s e) (waited : Option Wait) :
    Deed w o s ⟨e, (w.answer waited e).2⟩ (w.answer waited e).1
      (o.next s ⟨e, (w.answer waited e).2⟩) := by
  cases e with
  | clock => exact .clock s
  | sleep ms => exact hp.elim
  | closing => exact .other (.refl w) trivial
  | deployment => exact .deployment s
  | release conn => exact .other w.giveBack_alike trivial
  | mint =>
    obtain ⟨⟨p, lock, ho⟩, clock, rfl⟩ := hp
    exact .mint ho clock
  | arm guard => exact hp.elim
  | disarm => exact hp.elim
  | count measure =>
    exact .other ⟨rfl, rfl, rfl, rfl, rfl⟩ trivial
  | registry m a =>
    cases a with
    | held ctx lock =>
      obtain ⟨ho, clock, rfl⟩ := hp
      exact .look ho clock
    | record ctx lock token =>
      obtain ⟨ho, rfl⟩ := hp
      exact .record ho token
    | forget ctx lock => exact .forget hp s
    | dispose ctx => exact .dispose hp s
  | call c =>
    cases c with
    | nodeOwning key => exact .other (.refl w) trivial
    | replicaCount node => exact .other (.refl w) trivial
    | connect node => exact .other (w.connect_alike node waited) trivial
    | command conn cmd =>
      cases cmd with
      | set key token ttl onlyIfAbsent =>
        obtain ⟨hkey, ⟨clock, sharded, rfl⟩, rfl, rfl⟩ := hp
        obtain ⟨lock, ho, rfl⟩ := Option.map_eq_some_iff.1 hkey
        exact .write ho conn clock sharded rfl
      | compareAndDelete key token =>
        obtain ⟨hkey, hs⟩ := hp
        obtain ⟨lock, ho, rfl⟩ := Option.map_eq_some_iff.1 hkey
        exact .delete ho conn hs rfl
      | compareAndExpire key token ttl =>
        obtain ⟨hkey, rfl, hpos⟩ := hp
        obtain ⟨lock, ho, rfl⟩ := Option.map_eq_some_iff.1 hkey
        exact .expire ho conn hpos rfl
      | setBit key offset bit => exact hp.elim
      | expire key ttl => exact hp.elim
      | present key => exact .other ⟨rfl, rfl, rfl, rfl, rfl⟩ trivial
      | getBit key offset => exact .other ⟨rfl, rfl, rfl, rfl, rfl⟩ trivial
      | remaining key => exact .other ⟨rfl, rfl, rfl, rfl, rfl⟩ trivial
      | awaitReplicas count timeout =>
        have ha : w.Alike (w.command conn waited (.awaitReplicas count timeout)).1 := by
          obtain ⟨hledger, hnow, hdeployment⟩ :=
            w.command_frame conn waited (.awaitReplicas count timeout)
          exact ⟨hnow, congrArg Ledger.registries hledger, congrArg Ledger.nextToken hledger,
            w.command_keyspace conn waited _, hdeployment⟩
        exact .other ha trivial

theorem of_answer {x : Exchange} {waited : Option Wait} (hp : o.permits s x.effect)
    (hx : (w', x.reply) = w.answer waited x.effect) : Deed w o s x w' (o.next s x) := by
  obtain ⟨e, r⟩ := x
  have hw : w' = (w.answer waited e).1 := congrArg Prod.fst hx
  have hr : r = (w.answer waited e).2 := congrArg Prod.snd hx
  subst hw hr
  exact of_permits hp waited

/-- An operation that knows that the lock is held never waits. -/
theorem not_isFirm_of_wait? {e : Effect} {wait : Wait} (hp : o.permits s e)
    (hw : w.wait? e = some (w', wait)) : ¬ s.IsFirm := by
  cases e with
  | sleep ms => exact hp.elim
  | call c =>
    cases c with
    | command conn cmd =>
      cases cmd with
      | set key token ttl onlyIfAbsent =>
        obtain ⟨-, ⟨clock, sharded, rfl⟩, -⟩ := hp
        exact id
      | compareAndDelete key token => cases hw
      | compareAndExpire key token ttl => cases hw
      | setBit key offset bit => exact hp.elim
      | expire key ttl => exact hp.elim
      | _ => exact hp
    | _ => exact hp
  | _ => cases hw

end Deed

end Latchkey
