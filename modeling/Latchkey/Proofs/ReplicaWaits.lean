import Latchkey.Proofs.Terms
import Latchkey.Redis.Session

/-!
# Waits for replicas over a network

A Redis store passes the time for which a manager waits for replicas on to the server, which takes a
time of zero for no limit. The manager keeps this time below the lifetime of the lock, but a zero
stays a zero.

The main statements are `Session.acquire_sends`, that a first acquisition waits for the replicas of
the node, and `replica_waits_are_clamped`.
-/

namespace Latchkey

variable {X : Extension} {α σ τ : Type}

/-! ## Runs of obedient programs -/

/-- What every permitted effect keeps, a run of an obedient program keeps, and so does what its
surroundings do. -/
theorem Program.Obeys.run_keeps {D : Discipline σ} {st : σ} {p : Program X α} {Q : σ → α → Prop}
    {ω : Type} {perform : ω → (e : Effect) → ω × e.Reply}
    {handle : ω → τ → (op : X.Op) → ω × τ × X.Reply op} {P : ω → Prop} (h : p.Obeys D st Q)
    (hperform : ∀ st w e, D.permits st e → P w → P (perform w e).1)
    (hhandle : ∀ w s op, P w → P (handle w s op).1) {w : ω} (hw : P w) (s : τ) :
    P (p.run perform handle w s).1 := by
  induction p generalizing st w s with
  | done a => exact hw
  | effect e next ih => exact ih _ (h.2 _) (hperform st w e h.1 hw) s
  | extended op next ih => exact ih _ (h.2 _) (hhandle w s op hw) _

namespace Redis

/-! ## What is sent -/

/-- A request that was sent, and the time until there was a reply. -/
structure Sent where
  /-- Where it was sent. -/
  endpoint : Endpoint
  /-- The request. -/
  request : Request
  /-- The time, in milliseconds. -/
  elapsed : Nat
  deriving DecidableEq

/-- A network that also notes what is sent over it, the last request first. -/
def Network.noting (net : Network σ) : Network (σ × List Sent) where
  connect n endpoint :=
    let x := net.connect n.1 endpoint
    ⟨(x.net, n.2), x.elapsed, x.reply⟩
  ask n endpoint request :=
    let x := net.ask n.1 endpoint request
    ⟨(x.net, ⟨endpoint, request, x.elapsed⟩ :: n.2), x.elapsed, x.reply⟩

/-- What is so of the requests sent stays so when one is sent that may be sent. -/
def Network.Keeps (net : Network σ) (may : Request → Prop) (P : List Sent → Prop) : Prop :=
  ∀ sent n endpoint request, may request → P sent →
    P (⟨endpoint, request, (net.ask n endpoint request).elapsed⟩ :: sent)

/-- The requests that a command may lead to: its own, and the one that makes its script known. -/
def Command.Sends (cmd : Command) (request : Request) : Prop :=
  request = .ofCommand cmd ∨ ∃ script, request = .loadScript script

namespace Session

variable {net : Network σ} {s : Session (σ × List Sent)} {may : Request → Prop}
  {P : List Sent → Prop}

theorem ask_keeps (hk : net.Keeps may P) (h : P s.net.2) {request : Request} (hr : may request)
    (endpoint : Endpoint) : P (s.ask net.noting endpoint request).1.net.2 :=
  hk _ _ _ _ hr h

theorem askScript_keeps (hk : net.Keeps may P) (h : P s.net.2) (endpoint : Endpoint)
    {script : Script} {key : String} {args : List String} (hrun : may (.runScript script key args))
    (hload : may (.loadScript script)) :
    P (s.askScript net.noting endpoint script key args).1.net.2 := by
  have hasked := ask_keeps hk h hrun endpoint
  unfold askScript
  split
  · next s₁ e heq =>
    rw [heq] at hasked
    split
    · have hloaded := ask_keeps hk hasked hload endpoint
      split
      · next s₂ e' heq' =>
        rw [heq'] at hloaded
        exact hloaded
      · next s₂ v heq' =>
        rw [heq'] at hloaded
        exact ask_keeps hk hloaded hrun endpoint
    · exact hasked
  · exact hasked

/-- A command is sent as one request, or as those of a script. -/
theorem send_keeps (hk : net.Keeps may P) (h : P s.net.2) (endpoint : Endpoint) {cmd : Command}
    (hcmd : ∀ request, Command.Sends cmd request → may request) :
    P (s.send net.noting endpoint cmd).1.net.2 := by
  have hrequest := hcmd _ (.inl rfl)
  unfold send
  split
  · next heq =>
    rw [heq] at hrequest
    exact askScript_keeps hk h endpoint hrequest (hcmd _ (.inr ⟨_, rfl⟩))
  · exact ask_keeps hk h hrequest endpoint

/-- Connecting sends nothing. -/
theorem connect_sent (net : Network σ) (s : Session (σ × List Sent)) (node : NodeId) :
    (s.connect net.noting node).1.net.2 = s.net.2 := by
  simp only [connect]
  cases (s.store.connect node).2 with
  | error e => rfl
  | ok endpoint =>
    dsimp only
    cases (net.noting.connect s.net endpoint).reply with
    | error e => rfl
    | ok u => rfl

theorem perform_keeps (hk : net.Keeps may P) (h : P s.net.2) {e : Effect}
    (he : ∀ conn cmd, e = .call (.command conn cmd) → ∀ request, Command.Sends cmd request →
      may request) : P (s.perform net.noting e).1.net.2 := by
  cases e with
  | call c =>
    cases c with
    | nodeOwning key => exact h
    | replicaCount node => exact h
    | connect node => exact (s.connect_sent net node).symm ▸ h
    | command conn cmd =>
      show P (s.command net.noting conn cmd).1.net.2
      unfold command
      split
      · exact h
      · exact send_keeps hk h _ (he conn cmd rfl)
  | _ => exact h

end Session

/-! ## Sessions that run programs -/

/-- Runs a program in a session that may change by itself before each effect, as the layout of a
cluster does when the seed is asked anew. -/
def Session.play (net : Network σ) (drift : Session σ → Session σ) (s : Session σ)
    (p : Program .none α) : Session σ × α :=
  let r := p.run (fun s e => (drift s).perform net e) (fun _ _ op => Empty.elim op) s ()
  (r.1, r.2.2)

/-- Effects are answered in a session that does not change by itself. -/
def Session.answering (net : Network σ) : Interpretation (Session σ) where
  before s e Q := Q (s.perform net e).1 (s.perform net e).2
  outside := False
  mono h hQ := hQ _ _ h

namespace Session

@[simp] theorem answering_before (net : Network σ) (s : Session σ) (e : Effect)
    (Q : Session σ → e.Reply → Prop) :
    (answering net).before s e Q ↔ Q (s.perform net e).1 (s.perform net e).2 := Iff.rfl

/-- A program ends as ensured when a session runs it. -/
theorem play_of_ensures {net : Network σ} {s : Session σ} {p : Program .none α}
    {Q : Session σ → α → Prop} (h : p.Ensures (answering net) s Q) :
    Q (s.play net id p).1 (s.play net id p).2 := by
  induction p generalizing s with
  | done a => exact h
  | effect e next ih => exact ih _ h
  | extended op next ih => exact Empty.elim op

/-- What every effect keeps every program keeps. -/
theorem ensures_of_keeps {net : Network σ} {P : Session σ → Prop}
    (hperform : ∀ s e, P s → P (s.perform net e).1) {s : Session σ} (h : P s)
    (p : Program .none α) : p.Ensures (answering net) s fun s' _ => P s' := by
  induction p generalizing s with
  | done a => exact h
  | effect e next ih => exact ih _ (hperform s e h)
  | extended op next ih => exact Empty.elim op

end Session

/-! ## Waits that are sent -/

theorem ClusterView.nodeOwning_eq_ok {v : ClusterView} {key : String} {node : NodeId}
    (h : v.nodeForSlot (keySlot key) = some node) : v.nodeOwning key = .ok node := by
  simp [nodeOwning, h]

namespace ClusterStore

variable {c c' : ClusterStore} {node : NodeId} {endpoint : Endpoint}

theorem poolFor_eq_ok (h : c.poolFor node = .ok (c', endpoint)) :
    c'.view = c.view ∧ (c'.pools.find? node).map (·.endpoint) = some endpoint := by
  unfold poolFor at h
  split at h
  · next hfound =>
    cases h
    exact ⟨rfl, by rw [hfound]; rfl⟩
  · split at h
    · cases h
    · next info hinfo =>
      cases hpool : poolEndpoint info.url with
      | error e =>
        rw [hpool] at h
        cases h
      | ok endpoint' =>
        rw [hpool] at h
        cases h
        exact ⟨rfl, by simp [addPool]⟩

end ClusterStore

namespace Store

variable {s : Store} {node : NodeId} {endpoint : Endpoint}

/-- Connecting to a node leaves the store with a server for it, and the layout as it is. -/
theorem connect_eq_ok (h : (s.connect node).2 = .ok endpoint) :
    (s.connect node).1.endpoint? node = some endpoint ∧
      (s.connect node).1.replicaCount node = s.replicaCount node := by
  cases s with
  | single s =>
    simp only [connect, SingleStore.connect] at h
    split at h
    · cases h
    · split at h
      · cases h
        exact ⟨rfl, rfl⟩
      · cases h
  | cluster c =>
    simp only [connect, ClusterStore.connect] at h ⊢
    split at h
    · cases h
    · next hopen =>
      rw [if_neg hopen]
      cases hpool : c.poolFor node with
      | error e =>
        rw [hpool] at h
        cases h
      | ok r =>
        obtain ⟨c', endpoint'⟩ := r
        rw [hpool] at h
        cases h
        obtain ⟨hview, hfound⟩ := ClusterStore.poolFor_eq_ok hpool
        exact ⟨hfound, congrArg (·.replicaCount node) hview⟩

end Store

/-- A wait for as many replicas as there are, up to the quorum, was sent to a server. -/
def WaitSent (endpoint : Endpoint) (replicas timeout : Nat) (sent : List Sent) : Prop :=
  ∃ x ∈ sent, x.endpoint = endpoint ∧ x.request = .awaitReplicas (min replicas 2) timeout

/-- The store is a sharded one that is open. The node that owns a key has replicas, is reached at an
endpoint, and answers that a token was written. -/
structure Session.Replicated (net : Network σ) (s : Session (σ × List Sent)) (key : String)
    (token : Token) (ttl : Nat) (node : NodeId) (endpoint : Endpoint) (replicas : Nat) : Prop where
  sharded : s.store.deployment.isSharded = true
  isOpen : s.store.closing = false
  owner : s.store.nodeOwning key = .ok node
  counted : s.store.replicaCount node = .ok replicas
  positive : 0 < replicas
  located : (s.store.connect node).2 = .ok endpoint
  connected : (net.connect s.net.1 endpoint).reply = .ok ()
  written : (net.ask (net.connect s.net.1 endpoint).net endpoint
    (.set key token ttl true)).reply = .ok .okay

namespace Session

variable {net : Network σ} {s : Session (σ × List Sent)} {key : String} {ttl wait : Nat}
  {token : Token} {node : NodeId} {endpoint : Endpoint} {replicas : Nat}

/-- What was sent has been sent for good. -/
theorem waitSent_perform (s : Session (σ × List Sent)) (e : Effect)
    (h : WaitSent endpoint replicas wait s.net.2) :
    WaitSent endpoint replicas wait (s.perform net.noting e).1.net.2 := by
  have hk : net.Keeps (fun _ => True) (WaitSent endpoint replicas wait) := by
    rintro sent n endpoint' request - ⟨x, hmem, hx⟩
    exact ⟨x, .tail _ hmem, hx⟩
  exact perform_keeps hk h fun _ _ _ _ _ => trivial

theorem waitSent_ensures (h : WaitSent endpoint replicas wait s.net.2) (p : Program .none α) :
    p.Ensures (answering net.noting) s fun s' _ => WaitSent endpoint replicas wait s'.net.2 :=
  ensures_of_keeps (P := fun s : Session (σ × List Sent) => WaitSent endpoint replicas wait s.net.2)
    waitSent_perform h p

theorem awaitReplicas_sends (hcount : s.store.replicaCount node = .ok replicas)
    (hpos : 0 < replicas) (hendpoint : s.store.endpoint? node = some endpoint) (n : Nat) :
    (Manager.awaitReplicas (X := .none) ⟨n, node⟩ node wait).run.Ensures (answering net.noting) s
      fun s' _ => WaitSent endpoint replicas wait s'.net.2 := by
  have hperform : s.perform net.noting (.call (.replicaCount node)) = (s, .ok replicas) :=
    Prod.ext rfl hcount
  have hquorum : ¬ min replicas maxReplicaQuorum = 0 := by
    unfold maxReplicaQuorum
    omega
  unfold Manager.awaitReplicas
  simp only [Action.ensures_bind, Action.ensures_call, answering_before, hperform,
    Action.thenOk_ok, if_neg hquorum, Action.ensures_send]
  let cmd : Command := .awaitReplicas (min replicas maxReplicaQuorum) wait
  have hsent : WaitSent endpoint replicas wait
      (s.perform net.noting (.call (.command ⟨n, node⟩ cmd))).1.net.2 := by
    show WaitSent endpoint replicas wait (s.command net.noting ⟨n, node⟩ cmd).1.net.2
    simp only [command, hendpoint]
    exact ⟨_, .head _, rfl, rfl⟩
  -- whatever the answer is, the request was sent
  cases (s.perform net.noting (.call (.command ⟨n, node⟩ cmd))).2 with
  | error e => exact hsent
  | ok k => exact hsent

/-- The node is looked up and reached. -/
theorem Replicated.perform_connect (h : s.Replicated net key token ttl node endpoint replicas) :
    ∃ s', s.perform net.noting (.call (.connect node)) = (s', .ok ⟨s.loans, node⟩) ∧
      s'.store = (s.store.connect node).1 ∧ s'.net.1 = (net.connect s.net.1 endpoint).net := by
  have hreply : (net.noting.connect s.net endpoint).reply = .ok () := h.connected
  show ∃ s', s.connect net.noting node = (s', _) ∧ _
  simp only [connect, h.located, hreply]
  exact ⟨_, rfl, rfl, rfl⟩

/-- The token is written. -/
theorem perform_set (hendpoint : s.store.endpoint? node = some endpoint)
    (hwritten : (net.ask s.net.1 endpoint (.set key token ttl true)).reply = .ok .okay) (n : Nat) :
    ∃ s', s.perform net.noting (.call (.command ⟨n, node⟩ (.set key token ttl true))) =
      (s', .ok true) ∧ s'.store = s.store := by
  show ∃ s', s.command net.noting ⟨n, node⟩ (.set key token ttl true) = (s', _) ∧ _
  simp only [command, hendpoint]
  refine ⟨_, Prod.ext rfl ?_, rfl⟩
  show ((net.ask s.net.1 endpoint (.set key token ttl true)).reply.bind _).mapError _ = _
  rw [hwritten]
  rfl

theorem acquireSharded_sends (h : s.Replicated net key token ttl node endpoint replicas) :
    (Manager.acquireSharded (X := .none) key token ttl wait).run.Ensures (answering net.noting) s
      fun s' _ => WaitSent endpoint replicas wait s'.net.2 := by
  obtain ⟨s₁, hconnect, hstore, hnet⟩ := h.perform_connect
  obtain ⟨hendpoint, hcounted⟩ := Store.connect_eq_ok h.located
  rw [← hstore] at hendpoint hcounted
  have howner : s.perform net.noting (.call (.nodeOwning key)) = (s, .ok node) :=
    Prod.ext rfl h.owner
  have hclock : ∀ s : Session (σ × List Sent), s.perform net.noting .clock = (s, s.now) :=
    fun _ => rfl
  have hwritten := h.written
  rw [← hnet] at hwritten
  obtain ⟨s₂, hset, hsame⟩ := perform_set hendpoint hwritten s.loans
  unfold Manager.acquireSharded
  simp only [Action.ensures_bind, Action.ensures_call, Action.ensures_withConnection,
    Action.ensures_perform, Action.ensures_send, answering_before, howner, hconnect, hclock, hset,
    Action.thenOk_ok, if_true, Action.ensures_lift]
  have hcount : s₂.store.replicaCount node = .ok replicas := by
    rw [hsame, hcounted]
    exact h.counted
  rw [← hsame] at hendpoint
  refine (awaitReplicas_sends hcount h.positive hendpoint s.loans).mono ?_
  intro s' r hsent
  exact (waitSent_ensures hsent _).mono fun s'' _ hsent => waitSent_perform s'' _ hsent

theorem attempt_sends (m : Manager) (ctx : Context) (lock : String) (started : Nat)
    (h : s.Replicated net (lockKey lock) (Token.ofSerial s.nextToken) ttl node endpoint replicas)
    (hheld : s.heldBy ⟨m.id, ctx⟩ lock = none) :
    (m.attempt (X := .none) ctx lock ttl wait started).run.Ensures (answering net.noting) s
      fun s' _ => WaitSent endpoint replicas wait s'.net.2 := by
  have hlook : s.perform net.noting (.registry m.id (.held ctx lock)) = (s, none) :=
    Prod.ext rfl hheld
  have hmint : s.perform net.noting .mint =
      (s.withLedger s.toLedger.mint.1, Token.ofSerial s.nextToken) := rfl
  have hdeployment : ∀ s : Session (σ × List Sent),
      s.perform net.noting .deployment = (s, s.store.deployment) := fun _ => rfl
  have hsharded : (s.withLedger s.toLedger.mint.1).store.deployment.isSharded = true := h.sharded
  have hminted : (s.withLedger s.toLedger.mint.1).Replicated net (lockKey lock)
      (Token.ofSerial s.nextToken) ttl node endpoint replicas := { h with }
  simp only [Manager.attempt, Action.ensures_bind, Action.ensures_registry,
    Action.ensures_perform, answering_before, hlook, hmint, hdeployment, Action.thenOk_ok,
    hsharded, if_true]
  refine (acquireSharded_sends hminted).mono ?_
  rintro s' (e | outcome) hsent
  · exact hsent
  · exact waitSent_ensures hsent _

/-- A first acquisition waits for replicas once its token is written. -/
theorem acquire_sends (m : Manager) (ctx : Context) (lock : String) (hpos : 0 < ttl)
    (h : s.Replicated net (lockKey lock) (Token.ofSerial s.nextToken) ttl node endpoint replicas)
    (hheld : s.heldBy ⟨m.id, ctx⟩ lock = none) :
    (m.acquire (X := .none) ctx lock ttl wait).run.Ensures (answering net.noting) s
      fun s' _ => WaitSent endpoint replicas (min wait ttl) s'.net.2 := by
  have hclock : ∀ s : Session (σ × List Sent), s.perform net.noting .clock = (s, s.now) :=
    fun _ => rfl
  have hclosing : s.perform net.noting .closing = (s, false) := Prod.ext rfl h.isOpen
  unfold Manager.acquire
  rw [if_neg (Nat.ne_of_gt hpos)]
  simp only [Action.ensures_bind, Action.ensures_perform, answering_before, hclock, hclosing,
    Action.thenOk_ok, Bool.false_eq_true, if_false, Action.ensures_lift]
  refine (attempt_sends m ctx lock s.now h hheld).mono ?_
  intro s' r hsent
  exact waitSent_ensures (waitSent_perform s' _ hsent) _

end Session

/-! ## The terms of what is sent -/

/-- A request to wait for replicas is for a count up to the quorum and for a time. -/
def Request.WaitsFor (timeout : Nat) (request : Request) : Prop :=
  request.words.head? = some "WAIT" →
    ∃ count, (1 ≤ count ∧ count ≤ maxReplicaQuorum) ∧ request = .awaitReplicas count timeout

/-- What an effect leads to that the terms of an acquisition permit. -/
theorem Command.Sends.waitsFor {ttl wait : Nat} {told : Option (Option Token)} {conn : Connection}
    {cmd : Command} {request : Request} (h : Command.Sends cmd request)
    (hp : Terms.permits ttl wait told (.call (.command conn cmd))) :
    request.WaitsFor (min wait ttl) := by
  rcases h with rfl | ⟨script, rfl⟩
  · cases cmd with
    | awaitReplicas count timeout =>
      obtain ⟨hcount, rfl⟩ := hp
      exact fun _ => ⟨count, hcount, rfl⟩
    | _ => simp [Request.WaitsFor, Request.ofCommand, Request.words]
  · simp [Request.WaitsFor, Request.words]

/-- The requests that were sent are on the terms of a time and took as long as the network takes. -/
def Network.Kept (net : Network σ) (timeout : Nat) (sent : List Sent) : Prop :=
  ∀ x ∈ sent, x.request.WaitsFor timeout ∧
    ∃ n, x.elapsed = (net.ask n x.endpoint x.request).elapsed

theorem Network.kept_keeps (net : Network σ) (timeout : Nat) :
    net.Keeps (·.WaitsFor timeout) (net.Kept timeout) := by
  intro sent n endpoint request hr h
  exact List.forall_mem_cons.2 ⟨⟨hr, n, rfl⟩, h⟩

/-- A server does not let a wait for replicas take longer than its time, unless the time is zero. -/
def Network.Limits (net : Network σ) : Prop :=
  ∀ n endpoint count timeout, 0 < timeout →
    (net.ask n endpoint (.awaitReplicas count timeout)).elapsed ≤ timeout

/-- The requests to wait for replicas that an acquisition sends, over any network and however the
layout of the cluster changes between them.

They are for one or two replicas, and for the time that the caller has asked for but not longer than
the lifetime of the lock. The time is zero, which is no limit to a server, exactly if the caller has
asked for no wait. Otherwise no such request takes longer than its time on a network whose servers
keep to it.

While the layout stays, a first acquisition sends such a request whenever its token was written and
the node has replicas. -/
theorem replica_waits_are_clamped (net : Network σ) (m : Manager) (ctx : Context) (lock : String)
    {ttl : Nat} (wait : Nat) (hpos : 0 < ttl)
    {drift : Session (σ × List Sent) → Session (σ × List Sent)}
    (hdrift : ∀ s, (drift s).net.2 = s.net.2) {s : Session (σ × List Sent)} (hsent : s.net.2 = []) :
    (∀ x ∈ (s.play net.noting drift (m.acquire ctx lock ttl wait).run).1.net.2,
      x.request.words.head? = some "WAIT" → ∃ count timeout,
        x.request.words = ["WAIT", Nat.repr count, Nat.repr timeout] ∧
        1 ≤ count ∧ count ≤ 2 ∧ timeout = min wait ttl ∧ timeout ≤ ttl ∧ (timeout = 0 ↔ wait = 0) ∧
        (net.Limits → 0 < wait → x.elapsed ≤ timeout)) ∧
    (drift = id → s.heldBy ⟨m.id, ctx⟩ lock = none → ∀ {node : NodeId} {endpoint : Endpoint}
      {replicas : Nat}, s.Replicated net (lockKey lock) (Token.ofSerial s.nextToken) ttl node
        endpoint replicas →
      WaitSent endpoint replicas (min wait ttl)
        (s.play net.noting drift (m.acquire ctx lock ttl wait).run).1.net.2) := by
  constructor
  · have hkept : net.Kept (min wait ttl)
        (s.play net.noting drift (m.acquire ctx lock ttl wait).run).1.net.2 := by
      refine (m.acquire_keepsTerms ctx lock ttl wait).run_keeps
        (P := fun s : Session (σ × List Sent) => net.Kept (min wait ttl) s.net.2)
        ?_ (fun _ _ op _ => Empty.elim op) (by rw [hsent]; exact List.forall_mem_nil _) ()
      intro told s e hp h
      rw [← hdrift] at h
      refine Session.perform_keeps (net.kept_keeps _) h ?_
      rintro conn cmd rfl request hsends
      exact hsends.waitsFor hp
    intro x hx hwait
    obtain ⟨hwaits, n, helapsed⟩ := hkept x hx
    obtain ⟨count, ⟨hone, htwo⟩, hrequest⟩ := hwaits hwait
    refine ⟨count, min wait ttl, by rw [hrequest]; rfl, hone, htwo, rfl, Nat.min_le_right _ _,
      by omega, fun hlimits hnonzero => ?_⟩
    rw [helapsed, hrequest]
    exact hlimits n x.endpoint count (min wait ttl) (by omega)
  · rintro rfl hheld node endpoint replicas hreplicated
    exact Session.play_of_ensures (Session.acquire_sends m ctx lock hpos hreplicated hheld)

/-- The network of a server whose replicas never acknowledge: a wait for them takes its time, and
an hour if that is zero. Every other request is answered at once. -/
def Network.unacknowledged : Network Unit where
  connect _ _ := ⟨(), 0, .ok ()⟩
  ask _ _
    | .awaitReplicas _ timeout => ⟨(), if timeout = 0 then 3600000 else timeout, .ok (.int 0)⟩
    | _ => ⟨(), 0, .ok .okay⟩

/-- Where the only primary of a cluster is reached. -/
def onlyPrimary : Endpoint := ⟨.network "127.0.0.1" 6379, 0⟩

/-- The layout of a cluster of one primary, which has one replica. -/
def ClusterView.onePrimary : ClusterView where
  ranges := [⟨0, 16383, "p"⟩]
  nodes := Table.empty.insert "p" ⟨"redis://127.0.0.1:6379", 1⟩

/-- A session with a cluster of one primary. -/
def Session.oneReplica : Session (Unit × List Sent) where
  now := 0
  store := .cluster {
    settings := {}
    seed := onlyPrimary
    view := .onePrimary
    pools := Table.empty.insert "p" ⟨0, onlyPrimary⟩
    poolsMade := 1 }
  net := ((), [])

/-- An acquisition for a lifetime of one millisecond that asks for no wait sends a server a wait
without a limit, on a network whose servers keep to the times that they are given. Where the replica
does not acknowledge, the request takes an hour. -/
theorem replica_wait_unlimited :
    0 < 1 ∧ Session.oneReplica.net.2 = [] ∧ Network.unacknowledged.Limits ∧
      Session.oneReplica.Replicated Network.unacknowledged (lockKey "L") (Token.ofSerial 0) 1 "p"
        onlyPrimary 1 ∧
      WaitSent onlyPrimary 1 (min 0 1) (Session.oneReplica.play Network.unacknowledged.noting id
        (Manager.acquire {} "a" "L" 1 0).run).1.net.2 ∧
      ∃ x ∈ (Session.oneReplica.play Network.unacknowledged.noting id
          (Manager.acquire {} "a" "L" 1 0).run).1.net.2,
        x.request.words = ["WAIT", "1", "0"] ∧ x.elapsed = 3600000 ∧ ∃ count timeout,
          x.request.words = ["WAIT", Nat.repr count, Nat.repr timeout] ∧
          1 ≤ count ∧ count ≤ 2 ∧ timeout = min 0 1 ∧ timeout ≤ 1 := by
  have hlimits : Network.unacknowledged.Limits := by
    intro n endpoint count timeout hpos
    simp [Network.unacknowledged, Nat.ne_of_gt hpos]
  have howner : ClusterView.onePrimary.nodeOwning (lockKey "L") = .ok "p" :=
    ClusterView.nodeOwning_eq_ok (by decide +kernel)
  have hreplicated : Session.oneReplica.Replicated Network.unacknowledged (lockKey "L")
      (Token.ofSerial 0) 1 "p" onlyPrimary 1 :=
    ⟨rfl, rfl, howner, rfl, Nat.one_pos, rfl, rfl, rfl⟩
  have hsent : (Session.oneReplica.play Network.unacknowledged.noting id
      (Manager.acquire {} "a" "L" 1 0).run).1.net.2[1]? =
        some ⟨onlyPrimary, .awaitReplicas 1 0, 3600000⟩ := by
    decide +kernel
  have hmem := List.mem_of_getElem? hsent
  obtain ⟨hclamped, hwaits⟩ := @replica_waits_are_clamped Unit Network.unacknowledged {} "a" "L" 1
    0 Nat.one_pos id (fun _ => rfl) Session.oneReplica rfl
  obtain ⟨count, timeout, hwords, hone, htwo, heq, hle, -, -⟩ := hclamped _ hmem rfl
  exact ⟨Nat.one_pos, rfl, hlimits, hreplicated, hwaits rfl rfl hreplicated, _, hmem,
    by decide +kernel, rfl, count, timeout, hwords, hone, htwo, heq, hle⟩

end Redis

end Latchkey
