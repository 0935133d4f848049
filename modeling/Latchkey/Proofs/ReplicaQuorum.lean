import Latchkey.Proofs.ShardedAcquire

/-!
# Acknowledgments of replicas

A first acquisition on a sharded store waits for a quorum of replicas, but does not look at how many
of them acknowledged. What decides is whether the wait failed, and whether the lifetime of the token
is over afterwards. So with replication stalled a lock is still granted, unless the delay of the
write and the wait for the replicas together take the whole lifetime.

The main statement is `acknowledgments_do_not_decide`.
-/

namespace Latchkey

variable {X : Extension}

/-! ## Any store -/

/-- What surrounds a wait that did not fail: the clock is read, the token is written, the replicas
are counted and waited for, and the clock is read again. The two times decide. -/
theorem FirstAcquire.of_acknowledged {lock : String} {ttl wait : Nat} {log : List Exchange}
    {success : Prop} (h : FirstAcquire lock ttl wait log success) {conn : Connection}
    {count timeout k : Nat}
    (hx : (⟨.call (.command conn (.awaitReplicas count timeout)), .ok k⟩ : Exchange) ∈ log) :
    ∃ token node n before since now after,
      log = before ++ [⟨.clock, since⟩,
        ⟨.call (.command conn (.set (lockKey lock) token ttl true)), .ok true⟩,
        ⟨.call (.replicaCount node), .ok n⟩,
        ⟨.call (.command conn (.awaitReplicas count timeout)), .ok k⟩, ⟨.clock, now⟩] ++ after ∧
      1 ≤ n ∧ count = min n 2 ∧ timeout = wait ∧ (success ↔ now - since < ttl) := by
  obtain ⟨pre, write, post, token, res, rfl, -, -, -, hwrite, hx, hsuccess⟩ := h.of_call hx trivial
  cases hwrite with
  | unrouted e => simp at hx
  | unconnected node e => simp at hx
  | unwritten node conn' since hr => simp at hx
  | @written node conn' since waited settled r res hw hs =>
    cases hw with
    | uncounted e =>
      cases hs
      simp at hx
    | alone => cases hs <;> simp at hx
    | @asked n hn r =>
      have hr : conn = conn' ∧ count = min n 2 ∧ timeout = wait ∧ r = .ok k := by
        cases r with
        | error e =>
          cases hs
          simp at hx
        | ok k₀ =>
          cases hs <;> simp at hx <;> exact ⟨hx.1.1, hx.1.2.1, hx.1.2.2, congrArg _ hx.2.symm⟩
      obtain ⟨rfl, rfl, rfl, rfl⟩ := hr
      have heq : ∀ now rest, pre ++ ([⟨.call (.nodeOwning (lockKey lock)), .ok node⟩,
            ⟨.call (.connect node), .ok conn⟩, ⟨.clock, since⟩,
            ⟨.call (.command conn (.set (lockKey lock) token ttl true)), .ok true⟩] ++
          ([⟨.call (.replicaCount node), .ok n⟩,
            ⟨.call (.command conn (.awaitReplicas (min n 2) timeout)), .ok k⟩] ++
            ⟨.clock, now⟩ :: rest) ++ post) =
          (pre ++ [⟨.call (.nodeOwning (lockKey lock)), .ok node⟩,
            ⟨.call (.connect node), .ok conn⟩]) ++ [⟨.clock, since⟩,
            ⟨.call (.command conn (.set (lockKey lock) token ttl true)), .ok true⟩,
            ⟨.call (.replicaCount node), .ok n⟩,
            ⟨.call (.command conn (.awaitReplicas (min n 2) timeout)), .ok k⟩, ⟨.clock, now⟩] ++
            (rest ++ post) := by
        intro now rest
        simp
      cases hs with
      | @kept now hin =>
        exact ⟨token, node, n, _, since, now, _, heq now _, hn, rfl, rfl, by simp [hsuccess, hin]⟩
      | @late now hlate b =>
        exact ⟨token, node, n, _, since, now, _, heq now _, hn, rfl, rfl, by simp [hsuccess, hlate]⟩

/-! ## Stalled replication -/

/-- A world whose store is sharded, with replicas that do not acknowledge; it is open and can be
reached, and a connection is free. -/
structure World.Stalled (w : World) : Prop where
  sharded : w.store.deployment.isSharded = true
  closing : w.store.closing = false
  unavailable : w.store.unavailable = false
  stalled : w.store.stalled = true
  failing : w.store.failing = false
  free : 0 < w.store.pool.free
  replicas : 0 < w.store.replicas

namespace World

variable {w : World}

theorem Stalled.perform_connect (h : w.Stalled) (key : String) :
    w.perform (.call (.connect (w.store.nodeOwning key))) =
      (w.lent, .ok ⟨w.store.loans, w.store.nodeOwning key⟩) := by
  obtain ⟨hwait, hanswer⟩ := connect_of_free h.closing h.unavailable h.free key
  rw [perform_of_wait? hwait, hanswer]

/-- A wait for replicas that do not acknowledge takes all its time. -/
theorem perform_awaitReplicas (hstalled : w.store.stalled = true)
    (hfailing : w.store.failing = false) (conn : Connection) (count timeout : Nat) :
    w.perform (.call (.command conn (.awaitReplicas count timeout))) =
      (w.later timeout, .ok (0 : Nat)) := by
  by_cases htimeout : 0 < timeout
  · have hwait : w.wait? (.call (.command conn (.awaitReplicas count timeout))) =
        some (w, .timer (w.now + timeout)) := by
      simp [wait?, commandWait?, Command.isWrite, hstalled, hfailing, htimeout]
    have htime : w.atTime (w.now + timeout) = w.later timeout := by
      simp [atTime, later]
    unfold perform
    rw [hwait]
    show (w.atTime (w.now + timeout)).answer _ _ = _
    rw [htime]
    rfl
  · obtain rfl : timeout = 0 := by omega
    rw [perform_of_wait? (by simp [wait?, commandWait?, Command.isWrite])]
    simp [answer, call, command, hstalled, hfailing, later]

end World

namespace Manager

variable {w : World}

theorem awaitReplicas_stalled (hstalled : w.store.stalled = true)
    (hfailing : w.store.failing = false) (hreplicas : 0 < w.store.replicas) (conn : Connection)
    {node : NodeId} (hnode : node ∈ w.store.nodes) (wait : Nat) :
    (awaitReplicas (X := X) conn node wait).run.Ensures World.solo w
      fun w' r => w' = w.later wait ∧ r = .ok () := by
  have hcount : w.perform (.call (.replicaCount node)) = (w, .ok w.store.replicas) :=
    Prod.ext rfl (if_pos hnode)
  have hquorum : ¬ min w.store.replicas maxReplicaQuorum = 0 := by
    unfold maxReplicaQuorum
    omega
  unfold awaitReplicas
  simp only [Action.ensures_bind, Action.ensures_call, World.solo_before, hcount, Action.thenOk_ok,
    if_neg hquorum, Action.ensures_send, World.perform_awaitReplicas hstalled hfailing]
  exact ⟨rfl, rfl⟩

/-- The token is written after the delay, and kept if that and the wait leave some of its
lifetime. -/
theorem acquireSharded_stalled (h : w.Stalled) {key : String} (token : Token) (ttl wait : Nat)
    (hgone : w.store.keyspace.live? (w.now + w.store.latency) key = none) :
    (acquireSharded (X := X) key token ttl wait).run.Ensures World.solo w fun w' r =>
      w'.toLedger = w.toLedger ∧ w'.now = w.now + w.store.latency + wait ∧
        (w'.Carries key token ↔ w.store.latency + wait < ttl) ∧
        r = .ok (if w.store.latency + wait < ttl then .acquired else .timedOut) := by
  cases hset : w.store.keyspace.set (w.now + w.store.latency) key token ttl true with
  | mk ks b =>
    have hb : (w.store.keyspace.set (w.now + w.store.latency) key token ttl true).2 = true :=
      Keyspace.set_snd.2 hgone
    rw [hset] at hb
    obtain rfl : b = true := hb
    have hstored := Keyspace.find?_of_set hset key
    rw [if_pos ⟨rfl, rfl⟩] at hstored
    have hset' : w.lent.store.keyspace.set (w.lent.now + w.lent.store.latency) key token ttl true =
        (ks, true) := hset
    have hnode : w.perform (.call (.nodeOwning key)) = (w, .ok (w.store.nodeOwning key)) := rfl
    have hclock : ∀ w : World, w.perform .clock = (w, w.now) := fun _ => rfl
    unfold acquireSharded
    simp only [Action.ensures_bind, Action.ensures_call, Action.ensures_withConnection,
      Action.ensures_perform, Action.ensures_send, World.solo_before, hnode, hclock,
      Action.thenOk_ok, h.perform_connect key, World.perform_set, hset', if_true,
      Action.ensures_lift]
    refine (awaitReplicas_stalled (w := (w.lent.later w.store.latency).withKeyspace ks) h.stalled
      h.failing h.replicas _ (World.nodeOwning_mem w.store key) wait).mono ?_
    rintro w₂ r ⟨rfl, rfl⟩
    simp only [Action.ensures_bind, Action.ensures_perform, World.solo_before, hclock,
      Action.thenOk_ok]
    have hnow : (((w.lent.later w.store.latency).withKeyspace ks).later wait).now - w.lent.now =
        w.store.latency + wait := by
      show w.now + w.store.latency + wait - w.now = _
      omega
    rw [hnow]
    by_cases hin : w.store.latency + wait < ttl
    · simp only [if_pos hin]
      refine ⟨rfl, rfl, iff_of_true (World.Stores.carries hstored ?_) hin, rfl⟩
      show w.now + w.store.latency + wait < w.now + w.store.latency + ttl
      omega
    · simp only [if_neg hin]
      exact ⟨rfl, rfl, iff_of_false (World.not_carries_of_compareAndDelete _ key token) hin, rfl⟩

/-- What a world is like after a first acquisition with replication stalled, if `b` says whether it
has succeeded. -/
def StalledOutcome (w : World) (p : Owner) (lock : String) (wait : Nat) (b : Bool) (w' : World) :
    Prop :=
  w'.now = w.now + w.store.latency + wait ∧
    w'.heldBy p lock = (if b then some (Token.ofSerial w.nextToken) else none) ∧
    (w'.Carries (lockKey lock) (Token.ofSerial w.nextToken) ↔ b = true)

theorem attempt_stalled (h : w.Stalled) (m : Manager) (ctx : Context) (lock : String)
    (ttl wait started : Nat) (hheld : w.heldBy ⟨m.id, ctx⟩ lock = none)
    (hgone : w.store.keyspace.live? (w.now + w.store.latency) (lockKey lock) = none) :
    (m.attempt (X := X) ctx lock ttl wait started).run.Ensures World.solo w fun w' r =>
      StalledOutcome w ⟨m.id, ctx⟩ lock wait (w.store.latency + wait < ttl) w' ∧
        r.map AcquireOutcome.isHeld = .ok (decide (w.store.latency + wait < ttl)) := by
  have hlook : w.perform (.registry m.id (.held ctx lock)) = (w, none) := Prod.ext rfl hheld
  have hmint : w.perform .mint =
      (w.withLedger w.toLedger.mint.1, Token.ofSerial w.nextToken) := rfl
  have hdeployment : ∀ w : World, w.perform .deployment = (w, w.store.deployment) := fun _ => rfl
  have h' : (w.withLedger w.toLedger.mint.1).Stalled :=
    ⟨h.sharded, h.closing, h.unavailable, h.stalled, h.failing, h.free, h.replicas⟩
  have hsharded : (w.withLedger w.toLedger.mint.1).store.deployment.isSharded = true := h.sharded
  simp only [attempt, Action.ensures_bind, Action.ensures_registry, Action.ensures_perform,
    World.solo_before, hlook, hmint, hdeployment, Action.thenOk_ok, hsharded, if_true]
  refine (acquireSharded_stalled h' _ ttl wait hgone).mono ?_
  rintro w' r ⟨hledger, hnow, hcarries, rfl⟩
  have hcarried : w'.Carries (lockKey lock) (Token.ofSerial w.nextToken) ↔
      decide (w.store.latency + wait < ttl) = true := hcarries.trans decide_eq_true_iff.symm
  show Action.thenOk _ _ w' (.ok (if w.store.latency + wait < ttl then AcquireOutcome.acquired
    else .timedOut))
  by_cases hin : w.store.latency + wait < ttl
  · rw [if_pos hin, Action.thenOk_ok, if_pos rfl]
    refine ⟨⟨hnow, ?_, hcarried⟩, by simp [Except.map, AcquireOutcome.isHeld, hin]⟩
    show (w'.recordFor ⟨m.id, ctx⟩ lock (Token.ofSerial w.nextToken)).heldBy ⟨m.id, ctx⟩ lock = _
    rw [Ledger.heldBy_recordFor, if_pos ⟨rfl, rfl⟩]
    simp [hin]
  · rw [if_neg hin, Action.thenOk_ok, if_neg (by decide)]
    refine ⟨⟨hnow, ?_, hcarried⟩, by simp [Except.map, AcquireOutcome.isHeld, hin]⟩
    rw [hledger, decide_eq_false hin]
    exact hheld

/-- With replication stalled an acquisition of a free lock takes the delay of the write and the wait
for the replicas, and succeeds if they leave some of the lifetime. -/
theorem acquire_stalled (h : w.Stalled) (m : Manager) (ctx : Context) (lock : String) {ttl : Nat}
    (wait : Nat) (hpos : 0 < ttl) (hheld : w.heldBy ⟨m.id, ctx⟩ lock = none)
    (hgone : w.store.keyspace.live? (w.now + w.store.latency) (lockKey lock) = none) :
    (m.acquire (X := X) ctx lock ttl wait).run.Ensures World.solo w fun w' r =>
      StalledOutcome w ⟨m.id, ctx⟩ lock (min wait ttl) (w.store.latency + min wait ttl < ttl) w' ∧
        r = .ok (decide (w.store.latency + min wait ttl < ttl)) := by
  have hclock : ∀ w : World, w.perform .clock = (w, w.now) := fun _ => rfl
  have hclosing : w.perform .closing = (w, false) := Prod.ext rfl h.closing
  unfold acquire
  rw [if_neg (Nat.ne_of_gt hpos)]
  simp only [Action.ensures_bind, Action.ensures_perform, World.solo_before, hclock, hclosing,
    Action.thenOk_ok, Bool.false_eq_true, if_false, Action.ensures_lift]
  refine (attempt_stalled h m ctx lock ttl (min wait ttl) w.now hheld hgone).mono ?_
  rintro w' (e | outcome) ⟨ho, hr⟩
  · cases hr
  · exact ⟨ho, congrArg Except.ok (Except.ok.inj hr)⟩

end Manager

/-- The number of acknowledgments does not decide whether a lock is granted.

On every store, a first acquisition whose wait for replicas was answered, with whatever number,
succeeds if and only if the clock read after the wait shows that the lifetime is not over, counted
from before the write of the token. On a store in memory whose replicas acknowledge nothing, an
acquisition of a free lock succeeds if and only if the delay of the write and the wait, cut to the
lifetime, leave some of the lifetime; the key has the token and the registry notes it exactly
then. -/
theorem acknowledgments_do_not_decide (m : Manager) (ctx : Context) (lock : String)
    (ttl wait : Nat) :
    (∀ {log : List Exchange} {r : Except Failure Bool} {conn : Connection} {count timeout k : Nat},
      (m.acquire (X := X) ctx lock ttl wait).run.After log (.done r) →
      (∀ d, (⟨.deployment, d⟩ : Exchange) ∈ log → d.isSharded) →
      (∀ token, (⟨.registry m.id (.held ctx lock), some token⟩ : Exchange) ∉ log) →
      (⟨.call (.command conn (.awaitReplicas count timeout)), .ok k⟩ : Exchange) ∈ log →
      ∃ token node n before since now after,
        log = before ++ [⟨.clock, since⟩,
          ⟨.call (.command conn (.set (lockKey lock) token ttl true)), .ok true⟩,
          ⟨.call (.replicaCount node), .ok n⟩,
          ⟨.call (.command conn (.awaitReplicas count timeout)), .ok k⟩, ⟨.clock, now⟩] ++ after ∧
        1 ≤ n ∧ count = min n 2 ∧ timeout = min wait ttl ∧ (r = .ok true ↔ now - since < ttl)) ∧
    (∀ {σ : Type} {w : World}, w.Stalled → 0 < ttl → w.heldBy ⟨m.id, ctx⟩ lock = none →
      w.store.keyspace.live? (w.now + w.store.latency) (lockKey lock) = none →
      ∀ (handle : World → σ → (op : X.Op) → World × σ × X.Reply op) (s : σ),
        ∃ w', (m.acquire ctx lock ttl wait).run.run World.perform handle w s =
            (w', s, .ok (decide (w.store.latency + min wait ttl < ttl))) ∧
          Manager.StalledOutcome w ⟨m.id, ctx⟩ lock (min wait ttl)
            (w.store.latency + min wait ttl < ttl) w') := by
  constructor
  · intro log r conn count timeout k hafter hsharded hnone hx
    have hfirst := (m.acquire_records ctx lock ttl wait).final hafter
    rw [Discipline.recorder_run, List.nil_append] at hfirst
    exact (hfirst hsharded hnone).of_acknowledged hx
  · intro σ w hstalled hpos hheld hgone handle s
    obtain ⟨w', r, hrun, ho, rfl⟩ :=
      (Manager.acquire_stalled hstalled m ctx lock wait hpos hheld hgone).run_solo handle s
    exact ⟨w', hrun, ho⟩

/-- A fresh sharded store whose two replicas acknowledge nothing. -/
def World.unacknowledged : World := .ofStore { Memory.sharded 1 2 with stalled := true } 0

/-- The exchanges of an acquisition that none of two replicas acknowledged. -/
def unacknowledgedLog : List Exchange :=
  [⟨.clock, (0 : Nat)⟩, ⟨.closing, false⟩, ⟨.registry 0 (.held "a" "L"), (none : Option Token)⟩,
    ⟨.mint, "t"⟩, ⟨.deployment, Deployment.sharded⟩,
    ⟨.call (.nodeOwning (lockKey "L")), .ok "n"⟩, ⟨.call (.connect "n"), .ok ⟨0, "n"⟩⟩,
    ⟨.clock, (0 : Nat)⟩, ⟨.call (.command ⟨0, "n"⟩ (.set (lockKey "L") "t" 100 true)), .ok true⟩,
    ⟨.call (.replicaCount "n"), .ok (2 : Nat)⟩,
    ⟨.call (.command ⟨0, "n"⟩ (.awaitReplicas 2 50)), .ok (0 : Nat)⟩, ⟨.clock, (50 : Nat)⟩,
    ⟨.release ⟨0, "n"⟩, ()⟩, ⟨.registry 0 (.record "a" "L" "t"), ()⟩, ⟨.clock, (50 : Nat)⟩,
    ⟨.count (.acquire .acquired 50), ()⟩]

/-- A lock is granted though no replica acknowledged, after half of its lifetime; and not granted
if the wait takes all of it. -/
theorem granted_unacknowledged :
    (∃ token node n before since now after,
      unacknowledgedLog = before ++ [⟨.clock, since⟩,
        ⟨.call (.command ⟨0, "n"⟩ (.set (lockKey "L") token 100 true)), .ok true⟩,
        ⟨.call (.replicaCount node), .ok n⟩,
        ⟨.call (.command ⟨0, "n"⟩ (.awaitReplicas 2 50)), .ok (0 : Nat)⟩, ⟨.clock, now⟩] ++ after ∧
      now - since < 100) ∧
    (∃ w', (({} : Manager).acquire "a" "L" 100 50).run.run World.perform
        (fun _ _ (op : Extension.none.Op) => Empty.elim op) World.unacknowledged () =
      (w', (), .ok true)) ∧
    ∃ w', (({} : Manager).acquire "a" "L" 100 100).run.run World.perform
        (fun _ _ (op : Extension.none.Op) => Empty.elim op) World.unacknowledged () =
      (w', (), .ok false) := by
  have hstalled : World.unacknowledged.Stalled :=
    ⟨rfl, rfl, rfl, rfl, rfl, by decide, by decide⟩
  have hpos : 0 < 100 := by decide
  have hheld : World.unacknowledged.heldBy ⟨0, "a"⟩ "L" = none := rfl
  have hgone : World.unacknowledged.store.keyspace.live? 0 (lockKey "L") = none := rfl
  obtain ⟨hlog, hhalf⟩ := acknowledgments_do_not_decide (X := .none) {} "a" "L" 100 50
  obtain ⟨-, hwhole⟩ := acknowledgments_do_not_decide (X := .none) {} "a" "L" 100 100
  refine ⟨?_, ?_, ?_⟩
  · have hafter : (({} : Manager).acquire (X := .none) "a" "L" 100 50).run.After unacknowledgedLog
        (.done (.ok true)) := by
      iterate 16 refine .cons ?_
      exact .start
    have hwait : (⟨.call (.command ⟨0, "n"⟩ (.awaitReplicas 2 50)), .ok (0 : Nat)⟩ : Exchange) ∈
        unacknowledgedLog := by
      simp [unacknowledgedLog]
    obtain ⟨token, node, n, before, since, now, after, heq, -, -, -, hiff⟩ := hlog hafter
      (by simp [unacknowledgedLog, Deployment.isSharded]) (by simp [unacknowledgedLog]) hwait
    exact ⟨token, node, n, before, since, now, after, heq, hiff.1 rfl⟩
  · obtain ⟨w', hrun, -⟩ := hhalf hstalled hpos hheld hgone
      (fun _ _ (op : Extension.none.Op) => Empty.elim op) ()
    exact ⟨w', hrun⟩
  · obtain ⟨w', hrun, -⟩ := hwhole hstalled hpos hheld hgone
      (fun _ _ (op : Extension.none.Op) => Empty.elim op) ()
    exact ⟨w', hrun⟩

end Latchkey
