import Latchkey.Proofs.Solo

/-!
# Stores without hindrance

On a store that is open and can be reached, where replicas acknowledge and a connection is free,
what a lock operation comes to is a function of the world: `World.attempted` and `World.released`.
All that it may wait for is the delay of a write. If writes take no time either it never waits, and
an acquisition comes to `World.acquired`.

The main statements are `Manager.acquire_unhindered` and `Manager.release_lends`, and for stores
without delay `Manager.acquire_ready` and `Manager.release_ready`.
-/

namespace Latchkey

variable {X : Extension}

namespace World

/-- A world whose store lends connections: it is open and can be reached, and one is free. -/
structure Lends (w : World) : Prop where
  closing : w.store.closing = false
  unavailable : w.store.unavailable = false
  free : 0 < w.store.pool.free

/-- A world in which nothing is refused: its store lends connections, and replicas acknowledge. -/
structure Unhindered (w : World) : Prop extends w.Lends where
  stalled : w.store.stalled = false
  failing : w.store.failing = false

/-- A world in which nothing is delayed or refused: its store is open and can be reached, writes
take no time, replicas acknowledge, and a connection is free. -/
structure Ready (w : World) : Prop where
  closing : w.store.closing = false
  unavailable : w.store.unavailable = false
  latency : w.store.latency = 0
  stalled : w.store.stalled = false
  failing : w.store.failing = false
  free : 0 < w.store.pool.free

/-! ## Connections -/

/-- The world after a connection was lent. -/
def lent (w : World) : World :=
  { w with store :=
    { w.store with
      pool := { w.store.pool with free := w.store.pool.free - 1 }
      loans := w.store.loans + 1 } }

/-- The world after a connection was lent, a command has changed the keyspace and the connection was
given back. -/
def served (w : World) (ks : Keyspace) : World := (w.lent.withKeyspace ks).giveBack

/-- The world after an event was counted. -/
def counted (w : World) (measure : Measure) : World := w.withLedger (w.toLedger.count measure)

variable {w : World}

theorem nodeOwning_mem (m : Memory) (key : String) : m.nodeOwning key ∈ m.nodes :=
  List.mem_map_of_mem (List.mem_range.2 (Nat.mod_lt _ m.shards_pos))

/-- A connection that is free is lent at once. -/
theorem connect_of_free (hclosing : w.store.closing = false)
    (hunavailable : w.store.unavailable = false) (hfree : 0 < w.store.pool.free) (key : String) :
    w.wait? (.call (.connect (w.store.nodeOwning key))) = none ∧
      w.answer none (.call (.connect (w.store.nodeOwning key))) =
        (w.lent, .ok ⟨w.store.loans, w.store.nodeOwning key⟩) := by
  have hrefusal : w.store.refusal? (w.store.nodeOwning key) = none := by
    simp [Memory.refusal?, hclosing, hunavailable, nodeOwning_mem]
  obtain ⟨n, hn⟩ : ∃ n, w.store.pool.free = n + 1 := ⟨_, (Nat.sub_add_cancel hfree).symm⟩
  have htake : w.store.pool.take? = some { w.store.pool with free := w.store.pool.free - 1 } := by
    simp [Pool.take?, hn]
  refine ⟨by simp [wait?, hn], ?_⟩
  simp only [answer, call, World.connect, hrefusal, htake]
  rfl

theorem Lends.connect (h : w.Lends) (key : String) :
    w.wait? (.call (.connect (w.store.nodeOwning key))) = none ∧
      w.perform (.call (.connect (w.store.nodeOwning key))) =
        (w.lent, .ok ⟨w.store.loans, w.store.nodeOwning key⟩) := by
  obtain ⟨hwait, hanswer⟩ := connect_of_free h.closing h.unavailable h.free key
  exact ⟨hwait, (perform_of_wait? hwait).trans hanswer⟩

theorem Ready.unhindered (h : w.Ready) : w.Unhindered :=
  ⟨⟨h.closing, h.unavailable, h.free⟩, h.stalled, h.failing⟩

/-- The use of a connection to the node that owns a key. -/
theorem Lends.use {α : Type} {mayWait : Prop} (h : w.Lends) (key : String)
    {use : Connection → Action X StoreError α} {Q : World → Except StoreError α → Prop}
    (hq : ∀ conn, (use conn).run.Ensures (quiet mayWait) w.lent fun w' r => Q w'.giveBack r) :
    (Action.withConnection (Action.connectionFor key) use).run.Ensures (quiet mayWait) w Q := by
  obtain ⟨hwait, hconnect⟩ := h.connect key
  rw [Action.ensures_withConnection, Action.ensures_connectionFor]
  refine ⟨.inr rfl, .inr hwait, ?_⟩
  show Action.thenOk _ _ (w.perform (.call (.connect (w.store.nodeOwning key)))).1
    (w.perform (.call (.connect (w.store.nodeOwning key)))).2
  rw [hconnect]
  exact (hq _).mono fun w' r hr => ⟨.inr rfl, hr⟩

/-- The pool is as before when a connection was lent and given back, and nobody has waited. -/
theorem served_pool (hfree : 0 < w.store.pool.free) (hwaiting : w.store.pool.waiting = [])
    (ks : Keyspace) : (w.served ks).store.pool = w.store.pool := by
  obtain ⟨n, hn⟩ : ∃ n, w.store.pool.free = n + 1 := ⟨_, (Nat.sub_add_cancel hfree).symm⟩
  show { w.store.pool with free := w.store.pool.free - 1 }.putBack = w.store.pool
  cases hp : w.store.pool with
  | mk free waiting granted nextTicket =>
    rw [hp] at hn hwaiting
    obtain rfl : waiting = [] := hwaiting
    obtain rfl : free = n + 1 := hn
    rfl

/-! ## Writes -/

/-- The world after some time. -/
def later (w : World) (ms : Nat) : World := { w with now := w.now + ms }

/-- The keyspace after the attempt to write a token with the delay of the store, and whether that
has succeeded. -/
def delayedSet (w : World) (key : String) (token : Token) (ttl : Nat) : Keyspace × Bool :=
  w.store.keyspace.set (w.now + w.store.latency) key token ttl true

/-- A write takes the delay of the store. -/
theorem perform_set (w : World) (conn : Connection) (key value : String) (ttl : Nat) :
    w.perform (.call (.command conn (.set key value ttl true))) =
      ((w.later w.store.latency).withKeyspace
        (w.store.keyspace.set (w.now + w.store.latency) key value ttl true).1,
        .ok (w.store.keyspace.set (w.now + w.store.latency) key value ttl true).2) := by
  by_cases hlatency : 0 < w.store.latency
  · have hwait : w.wait? (.call (.command conn (.set key value ttl true))) =
        some (w, .timer (w.now + w.store.latency)) := by
      simp [wait?, commandWait?, Command.isWrite, hlatency]
    have htime : w.atTime (w.now + w.store.latency) = w.later w.store.latency := by
      simp [atTime, later]
    unfold perform
    rw [hwait]
    show (w.atTime (w.now + w.store.latency)).answer _ _ = _
    rw [htime]
    rfl
  · have hzero : w.store.latency = 0 := by omega
    rw [perform_of_wait? (by simp [wait?, commandWait?, Command.isWrite, hzero]), hzero]
    rfl

theorem wait?_set_of_latency (hlatency : w.store.latency = 0) (conn : Connection)
    (key value : String) (ttl : Nat) (onlyIfAbsent : Bool) :
    w.wait? (.call (.command conn (.set key value ttl onlyIfAbsent))) = none := by
  simp [wait?, commandWait?, Command.isWrite, hlatency]

/-! ## What operations come to -/

/-- What an acquisition comes to: the world after it, and whether it has succeeded. -/
def acquired (w : World) (p : Owner) (lock : String) (ttl : Nat) : World × Bool :=
  match w.heldBy p lock with
  | some token =>
    let r := w.store.keyspace.compareAndExpire w.now (lockKey lock) token ttl
    (w.served r.1, r.2)
  | none =>
    let token := Token.ofSerial w.nextToken
    let r := w.store.keyspace.set w.now (lockKey lock) token ttl true
    let w' := (w.withLedger w.toLedger.mint.1).served r.1
    (if r.2 then w'.withLedger (w'.recordFor p lock token) else w', r.2)

/-- What an attempt to acquire a lock comes to where writes take the delay of the store: the world
after it, and how it ended. -/
def attempted (w : World) (p : Owner) (lock : String) (ttl : Nat) : World × AcquireOutcome :=
  match w.heldBy p lock with
  | some token =>
    let r := w.store.keyspace.compareAndExpire w.now (lockKey lock) token ttl
    (w.served r.1, if r.2 then .refreshed else .refreshFailed)
  | none =>
    let token := Token.ofSerial w.nextToken
    let r := w.delayedSet (lockKey lock) token ttl
    let w' := ((w.withLedger w.toLedger.mint.1).later w.store.latency).served r.1
    if r.2 then (w'.withLedger (w'.recordFor p lock token), .acquired) else (w', .contended)

/-- Where writes take no time that is what an acquisition comes to. -/
theorem acquired_of_latency (hlatency : w.store.latency = 0) (p : Owner) (lock : String)
    (ttl : Nat) :
    w.acquired p lock ttl = ((w.attempted p lock ttl).1, (w.attempted p lock ttl).2.isHeld) := by
  unfold acquired attempted delayedSet
  rw [hlatency, Nat.add_zero]
  cases w.heldBy p lock with
  | some token =>
    cases hb : (w.store.keyspace.compareAndExpire w.now (lockKey lock) token ttl).2 with
    | true => simp [hb, AcquireOutcome.isHeld]
    | false => simp [hb, AcquireOutcome.isHeld]
  | none =>
    cases hb : (w.store.keyspace.set w.now (lockKey lock) (Token.ofSerial w.nextToken) ttl true).2
    with
    | true => simp [hb, later, AcquireOutcome.isHeld]
    | false => simp [hb, later, AcquireOutcome.isHeld]

/-- What a release comes to: the world after it, and how it ended. -/
def released (w : World) (p : Owner) (lock : String) : World × ReleaseOutcome :=
  match w.heldBy p lock with
  | none => (w, .notHeld)
  | some token =>
    let r := w.store.keyspace.compareAndDelete w.now (lockKey lock) token
    let w' := w.served r.1
    (w'.withLedger (w'.forgetFor p lock),
      if r.2 then .released
      else if r.1.present w.now (lockKey lock) then .ownerMismatch
      else .expired)

end World

/-! ## Acquisitions -/

namespace Manager

variable {w : World} {mayWait : Prop}

theorem refresh_lends (hw : w.Lends) {key : String} (token : Token) (ttl : Nat) :
    (refresh (X := X) key token ttl).run.Ensures (World.quiet mayWait) w fun w' r =>
      w' = w.served (w.store.keyspace.compareAndExpire w.now key token ttl).1 ∧
        r = .ok (if (w.store.keyspace.compareAndExpire w.now key token ttl).2 then .refreshed
          else .refreshFailed) := by
  refine hw.use key fun conn => ?_
  simp only [Action.ensures_bind, Action.ensures_send, World.quiet_before]
  refine ⟨.inr rfl, ?_⟩
  show Action.thenOk _ _ _ (.ok (w.store.keyspace.compareAndExpire w.now key token ttl).2)
  cases hb : (w.store.keyspace.compareAndExpire w.now key token ttl).2 with
  | true => exact ⟨rfl, rfl⟩
  | false => exact ⟨rfl, rfl⟩

/-- A token is written after the delay of the store, if there is no value then. -/
theorem acquireSingle_lends (hw : w.Lends) (hwait : mayWait ∨ w.store.latency = 0) {key : String}
    (token : Token) {ttl : Nat} (httl : w.store.latency < ttl) :
    (acquireSingle (X := X) key token ttl w.now).run.Ensures (World.quiet mayWait) w fun w' r =>
      w' = (w.later w.store.latency).served (w.delayedSet key token ttl).1 ∧
        r = .ok (if (w.delayedSet key token ttl).2 then .acquired else .contended) := by
  have hset : ∀ conn, mayWait ∨ w.lent.wait? (.call (.command conn (.set key token ttl true))) =
      none := fun conn => hwait.imp_right fun h => World.wait?_set_of_latency h conn key token ttl _
  refine hw.use key fun conn => ?_
  simp only [Action.ensures_bind, Action.ensures_send, World.quiet_before, World.perform_set]
  refine ⟨hset conn, ?_⟩
  show Action.thenOk _ _
    ((w.lent.later w.store.latency).withKeyspace (w.delayedSet key token ttl).1)
    (.ok (w.delayedSet key token ttl).2)
  cases hb : (w.delayedSet key token ttl).2 with
  | false => exact ⟨rfl, rfl⟩
  | true =>
    rw [Action.thenOk_ok, if_pos rfl]
    simp only [Action.ensures_bind, Action.ensures_perform, World.quiet_before]
    refine ⟨.inr rfl, ?_⟩
    have hin : ¬ ttl ≤ w.now + w.store.latency - w.now := by omega
    show Program.Ensures _ _
      (ExceptT.run (if ttl ≤ w.now + w.store.latency - w.now then _ else _)) _
    rw [if_neg hin]
    exact ⟨rfl, rfl⟩

theorem awaitReplicas_unhindered (hstalled : w.store.stalled = false)
    (hfailing : w.store.failing = false) (conn : Connection) {node : NodeId}
    (hnode : node ∈ w.store.nodes) (wait : Nat) :
    (awaitReplicas (X := X) conn node wait).run.Ensures (World.quiet mayWait) w
      fun w' r => w' = w ∧ r = .ok () := by
  have hcount : w.perform (.call (.replicaCount node)) = (w, .ok w.store.replicas) :=
    Prod.ext rfl (if_pos hnode)
  have hnone : ∀ count, w.wait? (.call (.command conn (.awaitReplicas count wait))) = none := by
    intro count
    simp [World.wait?, World.commandWait?, Command.isWrite, hstalled]
  unfold awaitReplicas
  simp only [Action.ensures_bind, Action.ensures_call, World.quiet_before, hcount,
    Action.thenOk_ok]
  refine ⟨.inr rfl, ?_⟩
  split
  · exact ⟨rfl, rfl⟩
  · simp only [Action.ensures_bind, Action.ensures_send, World.quiet_before,
      World.perform_of_wait? (hnone _)]
    refine ⟨.inr (hnone _), ?_⟩
    simp [World.answer, World.call, World.command, hfailing, hstalled]

/-- A token is written after the delay of the store, if there is no value then, and replicas
acknowledge at once. -/
theorem acquireSharded_unhindered (hw : w.Unhindered) (hwait : mayWait ∨ w.store.latency = 0)
    {key : String} (token : Token) {ttl : Nat} (wait : Nat) (httl : w.store.latency < ttl) :
    (acquireSharded (X := X) key token ttl wait).run.Ensures (World.quiet mayWait) w fun w' r =>
      w' = (w.later w.store.latency).served (w.delayedSet key token ttl).1 ∧
        r = .ok (if (w.delayedSet key token ttl).2 then .acquired else .contended) := by
  obtain ⟨hfree, hconnect⟩ := hw.connect key
  have hset : ∀ conn, mayWait ∨ w.lent.wait? (.call (.command conn (.set key token ttl true))) =
      none := fun conn => hwait.imp_right fun h => World.wait?_set_of_latency h conn key token ttl _
  have hlate : w.lent.store.keyspace.set (w.lent.now + w.lent.store.latency) key token ttl true =
      w.delayedSet key token ttl := rfl
  have hnode : w.perform (.call (.nodeOwning key)) = (w, .ok (w.store.nodeOwning key)) := rfl
  have hclock : ∀ w : World, w.perform .clock = (w, w.now) := fun _ => rfl
  unfold acquireSharded
  simp only [Action.ensures_bind, Action.ensures_call, Action.ensures_withConnection,
    Action.ensures_perform, Action.ensures_send, World.quiet_before, hnode, hconnect, hclock,
    Action.thenOk_ok, World.perform_set, hlate]
  refine ⟨.inr rfl, .inr hfree, .inr rfl, hset _, ?_⟩
  cases hb : (w.delayedSet key token ttl).2 with
  | false => exact ⟨.inr rfl, rfl, rfl⟩
  | true =>
    simp only [if_true, Action.ensures_bind, Action.ensures_lift]
    refine (awaitReplicas_unhindered (w := (w.lent.later w.store.latency).withKeyspace _)
      hw.stalled hw.failing _ (World.nodeOwning_mem w.store key) wait).mono ?_
    rintro w' r ⟨rfl, rfl⟩
    simp only [Action.thenOk_ok, Action.ensures_bind, Action.ensures_perform, World.quiet_before]
    refine ⟨.inr rfl, ?_⟩
    have hin : w.now + w.store.latency - w.now < ttl := by omega
    show Program.Ensures _ _
      (ExceptT.run (if w.now + w.store.latency - w.now < ttl then _ else _)) _
    rw [if_pos hin]
    exact ⟨.inr rfl, rfl, rfl⟩

/-- What follows the attempt to write a token notes it if it was written. -/
theorem record_quiet (m : Manager) (ctx : Context) (lock : String) (token : Token) (b : Bool) :
    (if (if b then AcquireOutcome.acquired else .contended) = .acquired then
        (fun _ => if b then AcquireOutcome.acquired else .contended) <$>
          Action.registry (X := X) m.id (.record ctx lock token)
      else pure (if b then AcquireOutcome.acquired else .contended) :
        Action X StoreError AcquireOutcome).run.Ensures (World.quiet mayWait) w fun w' r =>
      w' = (if b then w.withLedger (w.recordFor ⟨m.id, ctx⟩ lock token) else w) ∧
        r = .ok (if b then .acquired else .contended) := by
  cases b with
  | true => exact ⟨.inr rfl, rfl, rfl⟩
  | false => exact ⟨rfl, rfl⟩

/-- An attempt to acquire a lock takes no longer than a write, on a sharded store or another. -/
theorem attempt_unhindered (hw : w.Unhindered) (hwait : mayWait ∨ w.store.latency = 0) (m : Manager)
    (ctx : Context) (lock : String) {ttl : Nat} (wait : Nat) (httl : w.store.latency < ttl) :
    (m.attempt (X := X) ctx lock ttl wait w.now).run.Ensures (World.quiet mayWait) w fun w' r =>
      w' = (w.attempted ⟨m.id, ctx⟩ lock ttl).1 ∧
        r = .ok (w.attempted ⟨m.id, ctx⟩ lock ttl).2 := by
  have hlook : w.perform (.registry m.id (.held ctx lock)) = (w, w.heldBy ⟨m.id, ctx⟩ lock) := rfl
  simp only [attempt, Action.ensures_bind, Action.ensures_registry, World.quiet_before, hlook,
    Action.thenOk_ok]
  refine ⟨.inr rfl, ?_⟩
  unfold World.attempted
  cases hheld : w.heldBy ⟨m.id, ctx⟩ lock with
  | some token => exact refresh_lends hw.toLends token ttl
  | none =>
    have hw' : (w.withLedger w.toLedger.mint.1).Unhindered :=
      ⟨⟨hw.closing, hw.unavailable, hw.free⟩, hw.stalled, hw.failing⟩
    have hmint : w.perform .mint =
        (w.withLedger w.toLedger.mint.1, Token.ofSerial w.nextToken) := rfl
    have hdeployment : ∀ w : World, w.perform .deployment = (w, w.store.deployment) := fun _ => rfl
    have hrecord : ∀ (w₁ : World) (b : Bool),
        (if b then w₁.withLedger (w₁.recordFor ⟨m.id, ctx⟩ lock (Token.ofSerial w.nextToken))
          else w₁, if b then AcquireOutcome.acquired else .contended) =
        if b then
          (w₁.withLedger (w₁.recordFor ⟨m.id, ctx⟩ lock (Token.ofSerial w.nextToken)),
            AcquireOutcome.acquired)
        else (w₁, .contended) := by
      intro w₁ b
      cases b with
      | true => rfl
      | false => rfl
    simp only [Action.ensures_bind, Action.ensures_perform, World.quiet_before, hmint, hdeployment,
      Action.thenOk_ok, ← hrecord]
    refine ⟨.inr rfl, .inr rfl, ?_⟩
    split
    · rw [Action.ensures_bind]
      refine (acquireSharded_unhindered hw' hwait _ wait httl).mono ?_
      rintro w' r ⟨rfl, rfl⟩
      exact record_quiet m ctx lock _ _
    · rw [Action.ensures_bind]
      refine (acquireSingle_lends hw'.toLends hwait _ httl).mono ?_
      rintro w' r ⟨rfl, rfl⟩
      exact record_quiet m ctx lock _ _

/-- An acquisition is one attempt, which is counted. -/
theorem acquire_unhindered (hw : w.Unhindered) (hwait : mayWait ∨ w.store.latency = 0) (m : Manager)
    (ctx : Context) (lock : String) {ttl : Nat} (wait : Nat) (httl : w.store.latency < ttl) :
    (m.acquire (X := X) ctx lock ttl wait).run.Ensures (World.quiet mayWait) w fun w' r =>
      w' = (w.attempted ⟨m.id, ctx⟩ lock ttl).1.counted
          (.acquire (w.attempted ⟨m.id, ctx⟩ lock ttl).2
            ((w.attempted ⟨m.id, ctx⟩ lock ttl).1.now - w.now)) ∧
        r = .ok (w.attempted ⟨m.id, ctx⟩ lock ttl).2.isHeld := by
  have hclock : ∀ w : World, w.perform .clock = (w, w.now) := fun _ => rfl
  have hclosing : w.perform .closing = (w, false) := Prod.ext rfl hw.closing
  have hpos : ttl ≠ 0 := Nat.ne_of_gt (Nat.zero_lt_of_lt httl)
  unfold acquire
  rw [if_neg hpos]
  simp only [Action.ensures_bind, Action.ensures_perform, World.quiet_before, hclock, hclosing,
    Action.thenOk_ok, Bool.false_eq_true, if_false, Action.ensures_lift]
  refine ⟨.inr rfl, .inr rfl, ?_⟩
  refine (attempt_unhindered hw hwait m ctx lock (min wait ttl) httl).mono ?_
  rintro w' r ⟨rfl, rfl⟩
  exact ⟨.inr rfl, .inr rfl, rfl, rfl⟩

/-- On a store without delay an acquisition never waits, and only counts what it has come to. -/
theorem acquire_ready (hr : w.Ready) (m : Manager) (ctx : Context) (lock : String) {ttl : Nat}
    (wait : Nat) (hpos : 0 < ttl) :
    (m.acquire (X := X) ctx lock ttl wait).run.Ensures World.alone w fun w' r =>
      (∃ measure, w' = (w.acquired ⟨m.id, ctx⟩ lock ttl).1.counted measure) ∧
        r = .ok (w.acquired ⟨m.id, ctx⟩ lock ttl).2 := by
  have httl : w.store.latency < ttl := Nat.lt_of_le_of_lt (Nat.le_of_eq hr.latency) hpos
  rw [World.acquired_of_latency hr.latency]
  refine (acquire_unhindered hr.unhindered (.inr hr.latency) m ctx lock wait httl).alone.mono ?_
  rintro w' r ⟨rfl, rfl⟩
  exact ⟨⟨_, rfl⟩, rfl⟩

/-! ## Releases -/

/-- Over a connection that is lent a key is given up without a wait. -/
theorem giveUp_quiet (w : World) (conn : Connection) (key : String) (token : Token) :
    (giveUp (X := X) conn key token).run.Ensures (World.quiet mayWait) w fun w' r =>
      w' = w.withKeyspace (w.store.keyspace.compareAndDelete w.now key token).1 ∧
        r = .ok (if (w.store.keyspace.compareAndDelete w.now key token).2 then .released
          else if (w.store.keyspace.compareAndDelete w.now key token).1.present w.now key then
            .ownerMismatch
          else .expired) := by
  simp only [giveUp, Action.ensures_bind, Action.ensures_send, World.quiet_before]
  refine ⟨.inr rfl, ?_⟩
  show Action.thenOk _ _ (w.withKeyspace _)
    (.ok (w.store.keyspace.compareAndDelete w.now key token).2)
  cases hb : (w.store.keyspace.compareAndDelete w.now key token).2 with
  | true => exact ⟨rfl, rfl⟩
  | false =>
    simp only [Action.thenOk_ok, Bool.false_eq_true, if_false, Action.ensures_bind,
      Action.ensures_send, World.quiet_before]
    refine ⟨.inr rfl, ?_⟩
    show Action.thenOk _ _ (w.withKeyspace _)
      (.ok ((w.store.keyspace.compareAndDelete w.now key token).1.present w.now key))
    cases (w.store.keyspace.compareAndDelete w.now key token).1.present w.now key with
    | true => exact ⟨rfl, rfl⟩
    | false => exact ⟨rfl, rfl⟩

/-- A release never waits where connections are lent, and only counts what it has come to. -/
theorem release_lends (hw : w.Lends) (m : Manager) (ctx : Context) (lock : String) :
    (m.release (X := X) ctx lock).run.Ensures (World.quiet mayWait) w fun w' r =>
      w' = (w.released ⟨m.id, ctx⟩ lock).1.counted
          (.release (w.released ⟨m.id, ctx⟩ lock).2) ∧
        r = .ok (w.released ⟨m.id, ctx⟩ lock).2.isSuccess := by
  have hlook : w.perform (.registry m.id (.held ctx lock)) = (w, w.heldBy ⟨m.id, ctx⟩ lock) := rfl
  simp only [release, Action.ensures_bind, Action.ensures_registry, World.quiet_before, hlook,
    Action.thenOk_ok]
  refine ⟨.inr rfl, ?_⟩
  unfold World.released
  cases hheld : w.heldBy ⟨m.id, ctx⟩ lock with
  | none => exact ⟨.inr rfl, rfl, rfl⟩
  | some token =>
    refine Action.ensures_orFail.2 (hw.use (lockKey lock) fun conn => ?_)
    refine Action.ensures_bind.2 ((giveUp_quiet w.lent conn (lockKey lock) token).mono ?_)
    rintro w' r ⟨rfl, rfl⟩
    exact ⟨.inr rfl, .inr rfl, rfl, rfl⟩

theorem release_ready (hr : w.Ready) (m : Manager) (ctx : Context) (lock : String) :
    (m.release (X := X) ctx lock).run.Ensures World.alone w fun w' r =>
      (∃ measure, w' = (w.released ⟨m.id, ctx⟩ lock).1.counted measure) ∧
        r = .ok (w.released ⟨m.id, ctx⟩ lock).2.isSuccess := by
  refine (release_lends hr.unhindered.toLends m ctx lock).alone.mono ?_
  rintro w' r ⟨rfl, rfl⟩
  exact ⟨⟨_, rfl⟩, rfl⟩

end Manager

end Latchkey
