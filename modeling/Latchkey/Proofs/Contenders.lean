import Latchkey.Proofs.ReadyStores
import Latchkey.Proofs.LiveValues

/-!
# Contenders for a lock

Several owners that do not hold a lock call for it once each, on a store that is not sharded. What a
contender may do next and what it hears depends on its stage: whether it has a token, a connection,
and an answer to the write of its token. That a contender keeps to these rules until its call ends
is a fact about its program alone; that the world answers by them, and what becomes of the world, is
one about single exchanges.

The main statements are `Contest.acquire_keeps` and `Contest.exchange`.
-/

namespace Latchkey

variable {X : Extension}

/-- A caller that wants a lock once. -/
structure Contender where
  /-- Its manager. -/
  manager : Manager
  /-- The context for which it calls. -/
  ctx : Context
  /-- The lifetime that it asks for. -/
  ttl : Nat
  /-- How long it would wait for replicas. -/
  wait : Nat
  /-- How long it sleeps before it calls. -/
  delay : Nat
  deriving Repr, DecidableEq

namespace Contender

/-- The owner for which it calls. -/
def owner (c : Contender) : Owner := ⟨c.manager.id, c.ctx⟩

/-- Its call. -/
def call (c : Contender) (lock : String) : Operation :=
  .acquire c.manager c.ctx lock c.ttl c.wait

/-- What it does: it sleeps, and calls. -/
def client (c : Contender) (lock : String) : Client X Unit := do
  Program.perform (.sleep c.delay)
  let _ ← Client.invoke (c.call lock)

theorem owner_of_call {c c' : Contender} {lock : String} (h : c.call lock = c'.call lock) :
    c.owner = c'.owner := by
  injection h with hm hctx
  rw [owner, owner, hm, hctx]

end Contender

/-- Callers that want a lock in a world. -/
structure Contest where
  /-- The lock. -/
  lock : String
  /-- The world at the beginning. -/
  world : World
  /-- The callers. -/
  contenders : List Contender

/-! ## The rules -/

/-- The steps that an effect takes at most: a write may wait before it is answered, and time passes
while it does. -/
def Effect.steps : Effect → Nat
  | .call (.command _ (.set ..)) => 3
  | _ => 1

namespace Contest

/-- How far a contender has come. -/
inductive Stage where
  /-- It has not called yet. -/
  | asleep
  /-- It has called, and has no token yet. -/
  | seeking
  /-- It has a token. -/
  | minted (token : Token)
  /-- It has a connection as well. -/
  | connected (token : Token)
  /-- Its token was written. -/
  | won (token : Token)
  /-- Its token was written and noted. -/
  | noted (token : Token)
  /-- Its token was not written. -/
  | lost
  deriving Repr, DecidableEq

/-- Whether a contender in a stage is to answer that it has the lock, or that it does not. -/
def Stage.Ends : Stage → Bool → Prop
  | .noted _, b => b = true
  | .lost, b => b = false
  | _, _ => False

theorem Stage.Ends.unique {s : Stage} {b b' : Bool} (h : s.Ends b) (h' : s.Ends b') : b = b' := by
  cases s with
  | noted token => exact h.trans h'.symm
  | lost => exact h.trans h'.symm
  | _ => exact h.elim

variable (k : Contest) (c : Contender)

/-- The key of the lock. -/
def key : String := lockKey k.lock

/-- The time at which a contender calls. -/
def called : Nat := k.world.now + c.delay

/-- The time at which the store writes the token of a contender, or does not write it. -/
def written : Nat := k.called c + k.world.store.latency

/-- What the clock shows to a contender. -/
def clock : Stage → Nat
  | .won _ => k.written c
  | .noted _ => k.written c
  | .lost => k.written c
  | _ => k.called c

/-- What a contender may do in a stage, and what it then hears. -/
def hears (s : Stage) : (e : Effect) → (Stage → e.Reply → Prop) → Prop
  | .clock, Q => Q s (k.clock c s)
  | .closing, Q => Q s false
  | .deployment, Q => ∀ d : Deployment, d.isSharded = false → Q s d
  | .mint, Q => s = .seeking ∧ ∀ token, Q (.minted token) token
  | .registry m (.held ctx lock), Q =>
    s = .seeking ∧ m = c.manager.id ∧ ctx = c.ctx ∧ lock = k.lock ∧ Q s none
  | .registry m (.record ctx lock token), Q =>
    s = .won token ∧ m = c.manager.id ∧ ctx = c.ctx ∧ lock = k.lock ∧ Q (.noted token) ()
  | .call (.nodeOwning key), Q =>
    key = k.key ∧ Q s (.ok (k.world.store.nodeOwning k.key))
  | .call (.connect node), Q =>
    node = k.world.store.nodeOwning k.key ∧
      ∃ token, s = .minted token ∧ ∀ conn, Q (.connected token) (.ok conn)
  | .call (.command _ (.set key token ttl onlyIfAbsent)), Q =>
    s = .connected token ∧ key = k.key ∧ ttl = c.ttl ∧ onlyIfAbsent = true ∧
      Q (.won token) (.ok true) ∧ Q .lost (.ok false)
  | .release _, Q => Q s ()
  | .count _, Q => Q s ()
  | _, _ => False

theorem hears_mono {s : Stage} {e : Effect} {Q Q' : Stage → e.Reply → Prop} (h : k.hears c s e Q)
    (hQ : ∀ s' r, Q s' r → Q' s' r) : k.hears c s e Q' := by
  cases e with
  | clock => exact hQ _ _ h
  | closing => exact hQ _ _ h
  | deployment => exact fun d hd => hQ _ _ (h d hd)
  | mint => exact ⟨h.1, fun token => hQ _ _ (h.2 token)⟩
  | registry m a =>
    cases a with
    | held ctx lock =>
      obtain ⟨hs, hm, hctx, hlock, h⟩ := h
      exact ⟨hs, hm, hctx, hlock, hQ _ _ h⟩
    | record ctx lock token =>
      obtain ⟨hs, hm, hctx, hlock, h⟩ := h
      exact ⟨hs, hm, hctx, hlock, hQ _ _ h⟩
    | _ => exact h.elim
  | call call =>
    cases call with
    | nodeOwning key => exact ⟨h.1, hQ _ _ h.2⟩
    | connect node =>
      obtain ⟨hnode, token, hs, h⟩ := h
      exact ⟨hnode, token, hs, fun conn => hQ _ _ (h conn)⟩
    | command conn cmd =>
      cases cmd with
      | set key token ttl onlyIfAbsent =>
        obtain ⟨hs, hkey, httl, habsent, hwon, hlost⟩ := h
        exact ⟨hs, hkey, httl, habsent, hQ _ _ hwon, hQ _ _ hlost⟩
      | _ => exact h.elim
    | _ => exact h.elim
  | release conn => exact hQ _ _ h
  | count measure => exact hQ _ _ h
  | _ => exact h.elim

/-- The rules as a way to answer effects, which counts the steps that are left. -/
def rules : Interpretation (Stage × Nat) where
  before s e Q := e.steps ≤ s.2 ∧ k.hears c s.1 e fun s' r => Q (s', s.2 - e.steps) r
  outside := False
  mono h hQ := ⟨h.1, k.hears_mono c h.2 fun s' r => hQ (s', _) r⟩

@[simp] theorem rules_before (s : Stage × Nat) (e : Effect) (Q : Stage × Nat → e.Reply → Prop) :
    (k.rules c).before s e Q ↔
      e.steps ≤ s.2 ∧ k.hears c s.1 e fun s' r => Q (s', s.2 - e.steps) r := Iff.rfl

/-! ## Calls keep to the rules -/

/-- The token is written, in time, or it is not. -/
theorem acquireSingle_keeps (hlatency : k.world.store.latency < c.ttl) (token : Token) (n : Nat) :
    (Manager.acquireSingle (X := X) k.key token c.ttl (k.called c)).run.Ensures (k.rules c)
      (.minted token, n + 7) fun s r => n ≤ s.2 ∧
        (s.1 = .won token ∧ r = .ok .acquired ∨ s.1 = .lost ∧ r = .ok .contended) := by
  -- the call has taken as long as the write, which is shorter than the lifetime
  have hintime : ¬ c.ttl ≤ k.written c - k.called c := by
    unfold written
    omega
  simp [Manager.acquireSingle, hears, Effect.steps, clock, hintime]

/-- The token that was written is noted. -/
theorem attempt_keeps (hlatency : k.world.store.latency < c.ttl) (wait n : Nat) :
    (c.manager.attempt (X := X) c.ctx k.lock c.ttl wait (k.called c)).run.Ensures (k.rules c)
      (.seeking, n + 11) fun s r =>
        n ≤ s.2 ∧ ∃ outcome, r = .ok outcome ∧ s.1.Ends outcome.isHeld := by
  simp only [Manager.attempt, bind_pure_comp, Action.ensures_bind, Action.ensures_registry,
    Action.thenOk_ok, rules_before, Effect.steps, Nat.le_add_left, hears, Nat.add_one_sub_one,
    Action.ensures_perform, true_and]
  intro token d hd
  rw [if_neg (by simp [hd]), Action.ensures_bind]
  refine (k.acquireSingle_keeps c hlatency token (n + 1)).mono ?_
  rintro ⟨s, m⟩ r ⟨hm, ⟨hs, rfl⟩ | ⟨hs, rfl⟩⟩
  · obtain rfl : s = .won token := hs
    have hleft : 1 ≤ m := by omega
    have hleft' : n ≤ m - 1 := by omega
    simpa [hears, Effect.steps, hleft, hleft'] using ⟨AcquireOutcome.acquired, rfl, rfl⟩
  · obtain rfl : s = .lost := hs
    exact ⟨by omega, .contended, rfl, rfl⟩

/-- A contender that keeps to the rules ends its call as one that has won or lost. -/
theorem acquire_keeps (hlatency : k.world.store.latency < c.ttl) :
    (c.manager.acquire (X := X) c.ctx k.lock c.ttl c.wait).run.Ensures (k.rules c) (.seeking, 15)
      fun s r => ∃ b, s.1.Ends b ∧ r = .ok b := by
  have hpos : ¬ c.ttl = 0 := by omega
  simp only [Manager.acquire, hpos, ↓reduceIte, bind_pure_comp, Action.ensures_bind,
    Action.ensures_perform, Action.thenOk_ok, rules_before, Effect.steps, hears,
    Bool.false_eq_true, ExceptT.run_bind_lift, Program.ensures_bind, Nat.reduceLeDiff,
    Nat.add_one_sub_one, clock, true_and]
  refine (k.attempt_keeps c hlatency _ 2).mono ?_
  rintro ⟨s, m⟩ r ⟨hm, outcome, rfl, hs⟩
  exact ⟨by omega, by omega, outcome.isHeld, hs, rfl⟩

/-! ## What a contender does to the world -/

/-- What stays as it is about the store while a contest goes on. -/
structure Steady (w : World) : Prop where
  closing : w.store.closing = false
  unavailable : w.store.unavailable = false
  single : w.store.deployment.isSharded = false
  shards : w.store.shards = k.world.store.shards
  latency : w.store.latency = k.world.store.latency

end Contest

/-- Two worlds that differ at most in their pools, in what was counted and in the serial number of
the next token, where so many connections less are free at most. -/
structure World.Lessened (w w' : World) (taken : Nat) : Prop where
  now : w'.now = w.now
  registries : w'.registries = w.registries
  store : w'.store = { w.store with pool := w'.store.pool, loans := w'.store.loans }
  free : w.store.pool.free ≤ w'.store.pool.free + taken

namespace Contest

variable (k : Contest) (c : Contender)

/-- How a contender gets from a stage to another one, and what becomes of the world. -/
inductive Advance (w : World) : Stage → World → Stage → Prop where
  /-- It stays in its stage. -/
  | stay {s : Stage} {w' : World} (h : w.Lessened w' 0) : Advance w s w' s
  /-- It calls. -/
  | call : Advance w .asleep w .seeking
  /-- It gets a token. -/
  | mint {w' : World} (token : Token) (h : w.Lessened w' 0) :
      Advance w .seeking w' (.minted token)
  /-- It gets a connection. -/
  | connect {w' : World} (token : Token) (h : w.Lessened w' 1) :
      Advance w (.minted token) w' (.connected token)
  /-- Its token is written where there is no value. -/
  | win (token : Token) (hnow : w.now = k.written c)
      (hvacant : w.store.keyspace.live? w.now k.key = none) :
      Advance w (.connected token)
        (w.withKeyspace (w.store.keyspace.insert k.key ⟨Entry.ofText token, some (w.now + c.ttl)⟩))
        (.won token)
  /-- Its token is not written, as there is a value. -/
  | lose (token : Token) (htaken : w.store.keyspace.live? w.now k.key ≠ none) :
      Advance w (.connected token) w .lost
  /-- It notes its token. -/
  | note (token : Token) :
      Advance w (.won token) (w.withLedger (w.recordFor c.owner k.lock token)) (.noted token)

end Contest

namespace World

variable {w : World}

theorem lessened_self (w : World) : w.Lessened w 0 := ⟨rfl, rfl, rfl, Nat.le_refl _⟩

theorem giveBack_lessened (w : World) : w.Lessened w.giveBack 0 := by
  refine ⟨rfl, rfl, rfl, ?_⟩
  show w.store.pool.free ≤ w.store.pool.putBack.free + 0
  unfold Pool.putBack
  split
  · exact Nat.le_refl _
  · exact Nat.le_succ _

theorem lent_lessened (w : World) : w.Lessened w.lent 1 := by
  refine ⟨rfl, rfl, rfl, ?_⟩
  show w.store.pool.free ≤ w.store.pool.free - 1 + 1
  omega

end World

namespace Contest

variable {k : Contest} {c : Contender} {w : World} {s : Stage} {e : Effect}

theorem Steady.nodeOwning (hw : k.Steady w) (key : String) :
    k.world.store.nodeOwning key = w.store.nodeOwning key := by
  unfold Memory.nodeOwning
  rw [hw.shards]

/-- An effect of a contender waits only if it is a write that is delayed. -/
theorem wait?_of_hears {Q : Stage → e.Reply → Prop} (hw : k.Steady w)
    (hfree : ∀ token, s = .minted token → 0 < w.store.pool.free) (h : k.hears c s e Q) :
    w.wait? e = none ∨ (∃ conn token, s = .connected token ∧
      e = .call (.command conn (.set k.key token c.ttl true))) ∧
      0 < k.world.store.latency ∧ w.wait? e = some (w, .timer (w.now + k.world.store.latency)) := by
  cases e with
  | call call =>
    cases call with
    | connect node =>
      obtain ⟨rfl, token, hs, -⟩ := h
      rw [hw.nodeOwning]
      exact .inl (World.connect_of_free hw.closing hw.unavailable (hfree token hs) k.key).1
    | command conn cmd =>
      cases cmd with
      | set key token ttl onlyIfAbsent =>
        obtain ⟨rfl, rfl, rfl, rfl, -⟩ := h
        rw [← hw.latency]
        by_cases hlatency : 0 < w.store.latency
        · refine .inr ⟨⟨conn, token, rfl, rfl⟩, hlatency, ?_⟩
          simp [World.wait?, World.commandWait?, Command.isWrite, hlatency]
        · exact .inl (World.wait?_set_of_latency (Nat.eq_zero_of_not_pos hlatency) ..)
      | _ => exact h.elim
    | _ => exact .inl rfl
  | sleep ms => exact h.elim
  | _ => exact .inl rfl

/-- The token of a contender is written if no value is there at the time of the write. -/
theorem exchange_write {token : Token} {Q : Stage → Except StoreError Bool → Prop}
    (hnow : w.now = k.written c) (hwon : Q (.won token) (.ok true)) (hlost : Q .lost (.ok false))
    (waited : Option Wait) (conn : Connection) :
    let r := w.answer waited (.call (.command conn (.set k.key token c.ttl true)))
    ∃ s', k.Advance c w (.connected token) r.1 s' ∧ w.now = k.clock c s' ∧ Q s' r.2 := by
  intro r
  have hr : r = (w.withKeyspace (w.store.keyspace.set w.now k.key token c.ttl true).1,
      .ok (w.store.keyspace.set w.now k.key token c.ttl true).2) := rfl
  rw [hr]
  by_cases hvacant : w.store.keyspace.live? w.now k.key = none
  · have hset : w.store.keyspace.set w.now k.key token c.ttl true =
        (w.store.keyspace.insert k.key ⟨Entry.ofText token, some (w.now + c.ttl)⟩, true) := by
      simp [Keyspace.set, Keyspace.present, hvacant]
    rw [hset]
    exact ⟨.won token, .win token hnow hvacant, hnow, hwon⟩
  · have hset : w.store.keyspace.set w.now k.key token c.ttl true =
        (w.store.keyspace, false) := by
      simp [Keyspace.set, Keyspace.present, Option.isSome_iff_ne_none, hvacant]
    rw [hset]
    exact ⟨.lost, .lose token hvacant, hnow, hlost⟩

/-- An effect of a contender that does not wait is answered as the rules say. -/
theorem exchange {Q : Stage → e.Reply → Prop} (hw : k.Steady w)
    (hheld : s = .seeking → w.heldBy c.owner k.lock = none)
    (hfree : ∀ token, s = .minted token → 0 < w.store.pool.free)
    (hnow : w.now = k.clock c s) (hwait : w.wait? e = none) (h : k.hears c s e Q) :
    ∃ s', k.Advance c w s (w.answer none e).1 s' ∧ w.now = k.clock c s' ∧
      Q s' (w.answer none e).2 := by
  have hstay := w.lessened_self
  cases e with
  | clock =>
    refine ⟨s, .stay hstay, hnow, ?_⟩
    show Q s w.now
    rw [hnow]
    exact h
  | closing =>
    refine ⟨s, .stay hstay, hnow, ?_⟩
    show Q s w.store.closing
    rw [hw.closing]
    exact h
  | deployment => exact ⟨s, .stay hstay, hnow, h _ hw.single⟩
  | mint =>
    obtain ⟨rfl, h⟩ := h
    exact ⟨_, .mint _ ⟨rfl, rfl, rfl, Nat.le_refl _⟩, hnow, h _⟩
  | registry m a =>
    cases a with
    | held ctx lock =>
      obtain ⟨rfl, rfl, rfl, rfl, h⟩ := h
      refine ⟨_, .stay hstay, hnow, ?_⟩
      show Q .seeking (w.heldBy c.owner k.lock)
      rw [hheld rfl]
      exact h
    | record ctx lock token =>
      obtain ⟨rfl, rfl, rfl, rfl, h⟩ := h
      exact ⟨_, .note token, hnow, h⟩
    | _ => exact h.elim
  | call call =>
    cases call with
    | nodeOwning key =>
      obtain ⟨rfl, h⟩ := h
      refine ⟨s, .stay hstay, hnow, ?_⟩
      show Q s (.ok (w.store.nodeOwning k.key))
      rw [← hw.nodeOwning]
      exact h
    | connect node =>
      obtain ⟨rfl, token, rfl, h⟩ := h
      have hconnect := World.connect_of_free hw.closing hw.unavailable (hfree token rfl) k.key
      rw [← hw.nodeOwning] at hconnect
      rw [hconnect.2]
      exact ⟨_, .connect token w.lent_lessened, hnow, h _⟩
    | command conn cmd =>
      cases cmd with
      | set key token ttl onlyIfAbsent =>
        obtain ⟨rfl, rfl, rfl, rfl, hwon, hlost⟩ := h
        have hlatency : w.store.latency = 0 := by
          simpa [World.wait?, World.commandWait?, Command.isWrite] using hwait
        have hwritten : w.now = k.written c := by
          rw [hnow, written, ← hw.latency, hlatency]
          rfl
        exact exchange_write hwritten hwon hlost none conn
      | _ => exact h.elim
    | _ => exact h.elim
  | release conn => exact ⟨s, .stay w.giveBack_lessened, hnow, h⟩
  | count measure => exact ⟨s, .stay ⟨rfl, rfl, rfl, Nat.le_refl _⟩, hnow, h⟩
  | _ => exact h.elim

end Contest

end Latchkey
