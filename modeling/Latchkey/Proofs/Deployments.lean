import Latchkey.Proofs.FreeLock
import Latchkey.Proofs.Renaming

/-!
# Lock operations on different deployments

An acquisition on a sharded store is another program than one on a store that is not: it looks for
the node, starts its clock later, waits for replicas and may take its token back. Where nothing goes
wrong and lifetimes are longer than a write takes, nobody can tell: a sequence of lock operations
gives the same answers at the same times on every store, and leaves the same registries and the same
lock keys, but for the names of the tokens.

The main statement is `deployments_agree`.
-/

namespace Latchkey

/-! ## Programs on two worlds -/

namespace Program

variable {α β : Type}

theorem runOn_bind (p : Program .none α) (f : α → Program .none β) (w : World) :
    (p >>= f).runOn w = (f (p.runOn w).2).runOn (p.runOn w).1 := by
  induction p generalizing w with
  | done a => rfl
  | effect e next ih => exact ih (w.perform e).2 (w.perform e).1
  | extended op next ih => exact op.elim

/-- What a program ensures when it is run by itself determines its run. -/
theorem Ensures.runOn_eq {p : Program .none α} {w w₁ : World} {a : α}
    (h : p.Ensures World.solo w fun w' a' => w' = w₁ ∧ a' = a) : p.runOn w = (w₁, a) := by
  obtain ⟨w', a', hrun, rfl, rfl⟩ := h.run_solo (fun _ _ (op : Extension.none.Op) => op.elim) ()
  unfold runOn
  rw [hrun]

/-- On related worlds the program has the same result, and it leaves related worlds. -/
def Respects (R : World → World → Prop) (p : Program .none α) : Prop :=
  ∀ ⦃w w'⦄, R w w' → (p.runOn w').2 = (p.runOn w).2 ∧ R (p.runOn w).1 (p.runOn w').1

variable {R : World → World → Prop}

theorem Respects.done (a : α) : (Program.done a : Program .none α).Respects R :=
  fun _ _ h => ⟨rfl, h⟩

theorem Respects.bind {p : Program .none α} {f : α → Program .none β} (hp : p.Respects R)
    (hf : ∀ a, (f a).Respects R) : (p >>= f).Respects R := by
  intro w w' h
  obtain ⟨hresult, hworlds⟩ := hp h
  rw [runOn_bind, runOn_bind, hresult]
  exact hf _ hworlds

theorem Respects.map {p : Program .none α} (hp : p.Respects R) (f : α → β) :
    (f <$> p).Respects R := hp.bind fun a => .done (f a)

theorem Respects.lift {ε : Type} {p : Program .none α} (hp : p.Respects R) :
    (ExceptT.lift p : Action .none ε α).run.Respects R := hp.map Except.ok

/-- One action after the other: an error ends it. -/
theorem Respects.andThen {ε : Type} {x : Action .none ε α} {f : α → Action .none ε β}
    (hx : x.run.Respects R) (hf : ∀ a, (f a).run.Respects R) : (x >>= f).run.Respects R := by
  refine Respects.bind (f := ExceptT.bindCont f) hx ?_
  intro r
  cases r with
  | error e => exact Respects.done (Except.error e)
  | ok a => exact hf a

end Program

/-- An acquisition with retries respects what its attempts, the pauses between them and the looks at
the store and the clock respect. -/
theorem Manager.retry_respects {R : World → World → Prop} {m : Manager} {ctx : Context}
    {lock : String} {ttl wait : Nat} (hacquire : (m.acquire ctx lock ttl wait).run.Respects R)
    (hclosing : (Program.perform .closing).Respects R)
    (hclock : (Program.perform .clock).Respects R)
    (hsleep : (Program.perform (.sleep m.settings.pollInterval)).Respects R) (budget : Nat) :
    (m.acquireWithRetry ctx lock ttl wait budget).run.Respects R := by
  have huntil : ∀ deadline attempts,
      (m.acquireUntil ctx lock ttl wait deadline attempts).run.Respects R := by
    intro deadline attempts
    induction attempts with
    | zero => exact Program.Respects.done (Except.ok false)
    | succ attempts ih =>
      unfold acquireUntil
      refine hacquire.andThen fun acquired => ?_
      split
      · exact Program.Respects.done (Except.ok true)
      refine hclosing.lift.andThen fun closing => ?_
      split
      · exact Program.Respects.done (Except.ok false)
      refine hclock.lift.andThen fun now => ?_
      split
      · exact Program.Respects.done (Except.ok false)
      exact hsleep.lift.andThen fun _ => ih
  unfold acquireWithRetry
  split
  · exact Program.Respects.done (Except.error _)
  · exact hclock.lift.andThen fun now => huntil _ _

/-! ## Calm stores -/

/-- A store on which nothing goes wrong: it is open and can be reached, replicas acknowledge, and a
connection is free for whoever comes. -/
structure Memory.Calm (m : Memory) : Prop where
  closing : m.closing = false
  unavailable : m.unavailable = false
  stalled : m.stalled = false
  failing : m.failing = false
  free : 0 < m.pool.free
  waiting : m.pool.waiting = []

namespace Memory

theorem calm_standalone : standalone.Calm := ⟨rfl, rfl, rfl, rfl, Nat.zero_lt_succ 1023, rfl⟩

theorem calm_sharded (shards replicas : Nat) : (sharded shards replicas).Calm :=
  ⟨rfl, rfl, rfl, rfl, Nat.zero_lt_succ 1023, rfl⟩

theorem Calm.withLatency {m : Memory} (h : m.Calm) (latency : Nat) :
    { m with latency := latency }.Calm :=
  ⟨h.closing, h.unavailable, h.stalled, h.failing, h.free, h.waiting⟩

end Memory

namespace World

variable {w : World}

theorem unhindered_of_calm (h : w.store.Calm) : w.Unhindered :=
  ⟨⟨h.closing, h.unavailable, h.free⟩, h.stalled, h.failing⟩

theorem calm_served (h : w.store.Calm) (ks : Keyspace) : (w.served ks).store.Calm := by
  have hpool : (w.served ks).store.pool = w.store.pool := served_pool h.free h.waiting ks
  refine ⟨h.closing, h.unavailable, h.stalled, h.failing, ?_, ?_⟩
  · exact Nat.lt_of_lt_of_eq h.free (congrArg Pool.free hpool).symm
  · exact (congrArg Pool.waiting hpool).trans h.waiting

theorem perform_sleep (w : World) (ms : Nat) : w.perform (.sleep ms) = (w.later ms, ()) := by
  by_cases hpos : 0 < ms
  · have hwait : w.wait? (.sleep ms) = some (w, .timer (w.now + ms)) := if_pos hpos
    have htime : w.atTime (w.now + ms) = w.later ms := by
      unfold atTime later
      rw [Nat.max_eq_right (Nat.le_add_right _ _)]
    unfold perform
    rw [hwait]
    exact congrArg (·, ()) htime
  · obtain rfl : ms = 0 := by omega
    rfl

end World

/-! ### Runs on calm stores -/

namespace Manager

variable {w : World}

theorem acquire_runOn (hcalm : w.store.Calm) (m : Manager) (ctx : Context) (lock : String)
    {ttl : Nat} (wait : Nat) (httl : w.store.latency < ttl) :
    (m.acquire (X := .none) ctx lock ttl wait).run.runOn w =
      ((w.attempted ⟨m.id, ctx⟩ lock ttl).1.counted
          (.acquire (w.attempted ⟨m.id, ctx⟩ lock ttl).2
            ((w.attempted ⟨m.id, ctx⟩ lock ttl).1.now - w.now)),
        .ok (w.attempted ⟨m.id, ctx⟩ lock ttl).2.isHeld) := by
  have hends := acquire_unhindered (X := .none) (World.unhindered_of_calm hcalm)
    (.inl True.intro) m ctx lock wait httl
  exact hends.solo.runOn_eq

theorem release_runOn (hcalm : w.store.Calm) (m : Manager) (ctx : Context) (lock : String) :
    (m.release (X := .none) ctx lock).run.runOn w =
      ((w.released ⟨m.id, ctx⟩ lock).1.counted (.release (w.released ⟨m.id, ctx⟩ lock).2),
        .ok (w.released ⟨m.id, ctx⟩ lock).2.isSuccess) := by
  have hends : (m.release (X := .none) ctx lock).run.Ensures (World.quiet True) w _ :=
    release_lends (World.unhindered_of_calm hcalm).toLends m ctx lock
  exact hends.solo.runOn_eq

end Manager

/-! ## Renamed ledgers -/

/-- The same number of tokens was minted, the same locks are held and the same events were counted,
but for the names of the tokens. -/
structure Ledger.Renamed (a b : Nat) (l l' : Ledger) : Prop where
  serials : ∃ n, l.nextToken = a + n ∧ l'.nextToken = b + n
  registries : Table.Matches (Registry.Renamed a b) l.registries l'.registries
  measures : l'.measures = l.measures

namespace Ledger.Renamed

variable {a b : Nat} {l l' : Ledger} {token token' : Token}

theorem registry (h : Renamed a b l l') (m : ManagerId) :
    Registry.Renamed a b (l.registry m) (l'.registry m) := .getD (h.registries.values m)

theorem heldBy (h : Renamed a b l l') (p : Owner) (lock : String) :
    Option.Rel (Token.Renamed a b) (l.heldBy p lock) (l'.heldBy p lock) :=
  (h.registry p.manager).held p.ctx lock

theorem setRegistry (h : Renamed a b l l') (m : ManagerId) {r r' : Registry}
    (hr : Registry.Renamed a b r r') : Renamed a b (l.setRegistry m r) (l'.setRegistry m r') :=
  ⟨h.serials, h.registries.insert m hr, h.measures⟩

theorem recordFor (h : Renamed a b l l') (p : Owner) (lock : String)
    (ht : Token.Renamed a b token token') :
    Renamed a b (l.recordFor p lock token) (l'.recordFor p lock token') :=
  h.setRegistry p.manager ((h.registry p.manager).record p.ctx lock ht)

theorem forgetFor (h : Renamed a b l l') (p : Owner) (lock : String) :
    Renamed a b (l.forgetFor p lock) (l'.forgetFor p lock) :=
  h.setRegistry p.manager ((h.registry p.manager).forget p.ctx lock)

theorem disposeFor (h : Renamed a b l l') (p : Owner) :
    Renamed a b (l.disposeFor p) (l'.disposeFor p) :=
  h.setRegistry p.manager ((h.registry p.manager).dispose p.ctx)

theorem mint (h : Renamed a b l l') :
    Token.Renamed a b (Token.ofSerial l.nextToken) (Token.ofSerial l'.nextToken) ∧
      Renamed a b l.mint.1 l'.mint.1 := by
  obtain ⟨n, hn, hn'⟩ := h.serials
  constructor
  · exact ⟨n, congrArg Token.ofSerial hn, congrArg Token.ofSerial hn'⟩
  · refine ⟨⟨n + 1, ?_, ?_⟩, h.registries, h.measures⟩
    · show l.nextToken + 1 = a + (n + 1)
      omega
    · show l'.nextToken + 1 = b + (n + 1)
      omega

theorem count (h : Renamed a b l l') (measure : Measure) :
    Renamed a b (l.count measure) (l'.count measure) :=
  ⟨h.serials, h.registries, congrArg (measure :: ·) h.measures⟩

end Ledger.Renamed

/-! ## Counterparts -/

/-- Two worlds that nobody can tell apart by lock operations: on both nothing goes wrong, writes
take as long, it is the same time, and they have the same in their ledgers and keyspaces but for the
names of the tokens. -/
structure World.Counterparts (delay a b : Nat) (w w' : World) : Prop where
  calm : w.store.Calm
  calm' : w'.store.Calm
  latency : w.store.latency = delay
  latency' : w'.store.latency = delay
  now : w'.now = w.now
  ledger : Ledger.Renamed a b w.toLedger w'.toLedger
  keyspace : Keyspace.Renamed a b w.store.keyspace w'.store.keyspace

namespace World.Counterparts

variable {delay a b : Nat} {w w' : World} {l l' : Ledger} {ks ks' : Keyspace}

theorem withLedger (h : Counterparts delay a b w w') (hl : Ledger.Renamed a b l l') :
    Counterparts delay a b (w.withLedger l) (w'.withLedger l') :=
  ⟨h.calm, h.calm', h.latency, h.latency', h.now, hl, h.keyspace⟩

theorem counted (h : Counterparts delay a b w w') (measure : Measure) :
    Counterparts delay a b (w.counted measure) (w'.counted measure) :=
  h.withLedger (h.ledger.count measure)

theorem later (h : Counterparts delay a b w w') (ms : Nat) :
    Counterparts delay a b (w.later ms) (w'.later ms) :=
  ⟨h.calm, h.calm', h.latency, h.latency', congrArg (· + ms) h.now, h.ledger, h.keyspace⟩

theorem served (h : Counterparts delay a b w w') (hks : Keyspace.Renamed a b ks ks') :
    Counterparts delay a b (w.served ks) (w'.served ks') :=
  ⟨World.calm_served h.calm ks, World.calm_served h.calm' ks', h.latency, h.latency', h.now,
    h.ledger, hks⟩

/-! ### What operations come to -/

theorem attempted (h : Counterparts delay a b w w') (p : Owner) (lock : String) (ttl : Nat) :
    (w'.attempted p lock ttl).2 = (w.attempted p lock ttl).2 ∧
      Counterparts delay a b (w.attempted p lock ttl).1 (w'.attempted p lock ttl).1 := by
  have hheld := h.ledger.heldBy p lock
  unfold World.attempted
  generalize w.heldBy p lock = token?, w'.heldBy p lock = token'? at hheld ⊢
  cases hheld with
  | @some token token' ht =>
    obtain ⟨hanswer, hks⟩ := h.keyspace.compareAndExpire w.now (lockKey lock) ht ttl
    dsimp only
    rw [h.now, hanswer]
    exact ⟨rfl, h.served hks⟩
  | none =>
    obtain ⟨ht, hminted⟩ := h.ledger.mint
    have hset := h.keyspace.set (w.now + delay) (lockKey lock) ht ttl true
    have hserved := (((h.withLedger hminted).later delay).served hset.2)
    unfold World.delayedSet
    dsimp only
    rw [h.latency, h.latency', h.now, hset.1]
    by_cases hwritten : (w.store.keyspace.set (w.now + delay) (lockKey lock)
        (Token.ofSerial w.nextToken) ttl true).2 = true
    · rw [if_pos hwritten, if_pos hwritten]
      exact ⟨rfl, hserved.withLedger (hserved.ledger.recordFor p lock ht)⟩
    · rw [if_neg hwritten, if_neg hwritten]
      exact ⟨rfl, hserved⟩

theorem released (h : Counterparts delay a b w w') (p : Owner) (lock : String) :
    (w'.released p lock).2 = (w.released p lock).2 ∧
      Counterparts delay a b (w.released p lock).1 (w'.released p lock).1 := by
  have hheld := h.ledger.heldBy p lock
  unfold World.released
  generalize w.heldBy p lock = token?, w'.heldBy p lock = token'? at hheld ⊢
  cases hheld with
  | none => exact ⟨rfl, h⟩
  | @some token token' ht =>
    obtain ⟨hanswer, hks⟩ := h.keyspace.compareAndDelete w.now (lockKey lock) ht
    have hserved := h.served hks
    dsimp only
    rw [h.now, hanswer, hks.present]
    exact ⟨rfl, hserved.withLedger (hserved.ledger.forgetFor p lock)⟩

/-! ### Operations -/

theorem acquire_respects (m : Manager) (ctx : Context) (lock : String) {ttl : Nat} (wait : Nat)
    (httl : delay < ttl) :
    (m.acquire ctx lock ttl wait).run.Respects (Counterparts delay a b) := by
  intro w w' h
  have hrun := Manager.acquire_runOn h.calm m ctx lock wait (h.latency.symm ▸ httl)
  have hrun' := Manager.acquire_runOn h.calm' m ctx lock wait (h.latency'.symm ▸ httl)
  obtain ⟨houtcome, hworlds⟩ := h.attempted ⟨m.id, ctx⟩ lock ttl
  rw [hrun, hrun', houtcome, hworlds.now, h.now]
  exact ⟨rfl, hworlds.counted _⟩

theorem release_respects (m : Manager) (ctx : Context) (lock : String) :
    (m.release ctx lock).run.Respects (Counterparts delay a b) := by
  intro w w' h
  obtain ⟨houtcome, hworlds⟩ := h.released ⟨m.id, ctx⟩ lock
  rw [Manager.release_runOn h.calm, Manager.release_runOn h.calm', houtcome]
  exact ⟨rfl, hworlds.counted _⟩

theorem dispose_respects (m : Manager) (ctx : Context) :
    (Program.perform (.registry m.id (.dispose ctx))).Respects (Counterparts delay a b) := by
  intro w w' h
  constructor
  · exact (h.ledger.registry m.id).heldCount ctx
  · exact h.withLedger (h.ledger.disposeFor ⟨m.id, ctx⟩)

theorem sleep_respects (ms : Nat) :
    (Program.perform (.sleep ms)).Respects (Counterparts delay a b) := by
  intro w w' h
  refine ⟨rfl, ?_⟩
  show Counterparts delay a b (w.perform (.sleep ms)).1 (w'.perform (.sleep ms)).1
  rw [World.perform_sleep, World.perform_sleep]
  exact h.later ms

theorem clock_respects : (Program.perform .clock).Respects (Counterparts delay a b) :=
  fun _ _ h => ⟨h.now, h⟩

theorem closing_respects : (Program.perform .closing).Respects (Counterparts delay a b) :=
  fun _ _ h => ⟨h.calm'.closing.trans h.calm.closing.symm, h⟩

theorem acquireWithRetry_respects (m : Manager) (ctx : Context) (lock : String) {ttl : Nat}
    (wait budget : Nat) (httl : delay < ttl) :
    (m.acquireWithRetry ctx lock ttl wait budget).run.Respects (Counterparts delay a b) :=
  Manager.retry_respects (acquire_respects m ctx lock wait httl) closing_respects clock_respects
    (sleep_respects m.settings.pollInterval) budget

end World.Counterparts

/-! ## Sequences of calls -/

/-- A call of a lock operation, or a pause between two of them. -/
inductive LockCall where
  /-- Acquires or refreshes a lock. -/
  | acquire (m : Manager) (ctx : Context) (lock : String) (ttl wait : Nat)
  /-- Acquires or refreshes a lock, trying again until the budget is used up. -/
  | acquireWithRetry (m : Manager) (ctx : Context) (lock : String) (ttl wait budget : Nat)
  /-- Releases a lock. -/
  | release (m : Manager) (ctx : Context) (lock : String)
  /-- Forgets all locks of a context. -/
  | dispose (m : Manager) (ctx : Context)
  /-- Lets time pass. -/
  | pause (ms : Nat)

/-- What a call is answered. -/
inductive LockAnswer where
  /-- Whether the lock was acquired or released. -/
  | outcome (r : Except Failure Bool)
  /-- The number of locks forgotten. -/
  | disposed (count : Nat)
  /-- The pause is over. -/
  | passed

namespace LockCall

/-- The program of a call. -/
def program : LockCall → Program .none LockAnswer
  | acquire m ctx lock ttl wait => .outcome <$> (m.acquire ctx lock ttl wait).run
  | acquireWithRetry m ctx lock ttl wait budget =>
    .outcome <$> (m.acquireWithRetry ctx lock ttl wait budget).run
  | release m ctx lock => .outcome <$> (m.release ctx lock).run
  | dispose m ctx => LockAnswer.disposed <$> Program.perform (.registry m.id (.dispose ctx))
  | pause ms => (fun _ => LockAnswer.passed) <$> Program.perform (.sleep ms)

/-- The lifetime that the call asks for is longer than a delay. -/
def Outlasts (delay : Nat) : LockCall → Prop
  | acquire _ _ _ ttl _ => delay < ttl
  | acquireWithRetry _ _ _ ttl _ _ => delay < ttl
  | _ => True

instance (delay : Nat) : (c : LockCall) → Decidable (c.Outlasts delay)
  | acquire _ _ _ ttl _ => inferInstanceAs (Decidable (delay < ttl))
  | acquireWithRetry _ _ _ ttl _ _ => inferInstanceAs (Decidable (delay < ttl))
  | release .. => inferInstanceAs (Decidable True)
  | dispose .. => inferInstanceAs (Decidable True)
  | pause _ => inferInstanceAs (Decidable True)

/-- Makes calls one after the other: the world at the end, and each answer with its time. -/
def runAll (w : World) : List LockCall → World × List (LockAnswer × Nat)
  | [] => (w, [])
  | c :: calls =>
    let r := c.program.runOn w
    let rs := runAll r.1 calls
    (rs.1, (r.2, r.1.now) :: rs.2)

variable {delay a b : Nat}

theorem program_respects {c : LockCall} (hc : c.Outlasts delay) :
    c.program.Respects (World.Counterparts delay a b) := by
  cases c with
  | acquire m ctx lock ttl wait =>
    exact (World.Counterparts.acquire_respects m ctx lock wait hc).map _
  | acquireWithRetry m ctx lock ttl wait budget =>
    exact (World.Counterparts.acquireWithRetry_respects m ctx lock wait budget hc).map _
  | release m ctx lock => exact (World.Counterparts.release_respects m ctx lock).map _
  | dispose m ctx => exact (World.Counterparts.dispose_respects m ctx).map _
  | pause ms => exact (World.Counterparts.sleep_respects ms).map _

theorem runAll_respects {calls : List LockCall} (hcalls : ∀ c ∈ calls, c.Outlasts delay)
    {w w' : World} (h : w.Counterparts delay a b w') :
    (runAll w' calls).2 = (runAll w calls).2 ∧
      (runAll w calls).1.Counterparts delay a b (runAll w' calls).1 := by
  induction calls generalizing w w' with
  | nil => exact ⟨rfl, h⟩
  | cons c calls ih =>
    have hc : c.Outlasts delay := hcalls c List.mem_cons_self
    have hrest : ∀ c' ∈ calls, c'.Outlasts delay := fun c' hmem =>
      hcalls c' (List.mem_cons_of_mem c hmem)
    obtain ⟨hanswer, hworlds⟩ := program_respects hc h
    obtain ⟨hanswers, hworlds'⟩ := ih hrest hworlds
    unfold runAll
    dsimp only
    rw [hanswer, hanswers, hworlds.now]
    exact ⟨rfl, hworlds'⟩

end LockCall

/-- Worlds around two stores without keys are counterparts, whatever the deployments are. -/
theorem World.counterparts_ofStore {m m' : Memory} (hm : m.Calm) (hm' : m'.Calm)
    (hkeys : m.keyspace = ∅) (hkeys' : m'.keyspace = ∅) (hlatency : m'.latency = m.latency)
    (a b : Nat) : (World.ofStore m a).Counterparts m.latency a b (World.ofStore m' b) := by
  have hkeyspace : Keyspace.Renamed a b m.keyspace m'.keyspace := by
    rw [hkeys, hkeys']
    exact Table.Matches.empty
  exact ⟨hm, hm', rfl, hlatency, rfl, ⟨⟨0, rfl, rfl⟩, .empty, rfl⟩, hkeyspace⟩

/-- Both ways to acquire a lock agree.

On any two stores without keys, however they are deployed and however many shards and replicas they
have, on which nothing goes wrong and writes take equally long, every sequence of calls that ask for
longer lifetimes than that is answered the same at the same times. Afterwards the same locks are
held in the registries, and the same keys have values for the same time to come; the events counted
are the same too. Only the tokens have other names. -/
theorem deployments_agree {m m' : Memory} (hm : m.Calm) (hm' : m'.Calm) (hkeys : m.keyspace = ∅)
    (hkeys' : m'.keyspace = ∅) (hlatency : m'.latency = m.latency) (a b : Nat)
    {calls : List LockCall} (hcalls : ∀ c ∈ calls, c.Outlasts m.latency) :
    let r := LockCall.runAll (World.ofStore m a) calls
    let r' := LockCall.runAll (World.ofStore m' b) calls
    r'.2 = r.2 ∧ r'.1.now = r.1.now ∧
      Table.Matches (Registry.Renamed a b) r.1.registries r'.1.registries ∧
      (∀ key,
        Option.Rel (Entry.Renamed a b) (r.1.store.keyspace.live? r.1.now key)
          (r'.1.store.keyspace.live? r'.1.now key) ∧
        r'.1.store.keyspace.remaining r'.1.now key = r.1.store.keyspace.remaining r.1.now key) ∧
      r'.1.measures = r.1.measures := by
  intro r r'
  have hstart := World.counterparts_ofStore hm hm' hkeys hkeys' hlatency a b
  obtain ⟨hanswers, hworlds⟩ := LockCall.runAll_respects hcalls hstart
  refine ⟨hanswers, hworlds.now, hworlds.ledger.registries, ?_, hworlds.ledger.measures⟩
  intro key
  rw [show r'.1.now = r.1.now from hworlds.now]
  exact ⟨hworlds.keyspace.live? r.1.now key, hworlds.keyspace.remaining r.1.now key⟩

/-- A context takes a lock, and another one waits until the lifetime of that is over. -/
def LockCall.contended : List LockCall :=
  [.acquire {} "a" "L" 20 0, .acquireWithRetry { id := 1 } "b" "L" 20 0 40, .dispose {} "a"]

/-- A store with three shards and two replicas each, where the first writes are at 3 milliseconds
and the lock changes hands at 30, as on a single node. -/
theorem deployments_agree_sharded :
    { Memory.standalone with latency := 3 }.Calm ∧ { Memory.sharded 3 2 with latency := 3 }.Calm ∧
      (∀ c ∈ LockCall.contended, c.Outlasts 3) ∧
      let r := LockCall.runAll (.ofStore { Memory.standalone with latency := 3 } 0)
        LockCall.contended
      let r' := LockCall.runAll (.ofStore { Memory.sharded 3 2 with latency := 3 } 100)
        LockCall.contended
      r'.2 = r.2 ∧ r'.2.map (·.2) = [3, 30, 30] ∧
        r'.1.store.keyspace.remaining r'.1.now (lockKey "L") = some 20 := by
  have hm : { Memory.standalone with latency := 3 }.Calm := Memory.calm_standalone.withLatency 3
  have hm' : { Memory.sharded 3 2 with latency := 3 }.Calm :=
    (Memory.calm_sharded 3 2).withLatency 3
  have hcalls : ∀ c ∈ LockCall.contended, c.Outlasts 3 := by decide
  obtain ⟨hanswers, -, -, hlive, -⟩ := deployments_agree hm hm' rfl rfl rfl 0 100 hcalls
  have htimes : (LockCall.runAll (.ofStore { Memory.standalone with latency := 3 } 0)
      LockCall.contended).2.map (·.2) = [3, 30, 30] := by decide +kernel
  have hremaining : (LockCall.runAll (.ofStore { Memory.standalone with latency := 3 } 0)
      LockCall.contended).1.store.keyspace.remaining (LockCall.runAll (.ofStore
        { Memory.standalone with latency := 3 } 0) LockCall.contended).1.now (lockKey "L") =
      some 20 := by decide +kernel
  refine ⟨hm, hm', hcalls, hanswers, ?_, (hlive (lockKey "L")).2.trans hremaining⟩
  rw [hanswers]
  exact htimes

end Latchkey
