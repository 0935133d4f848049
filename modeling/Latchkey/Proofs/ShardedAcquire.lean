import Latchkey.Proofs.HeldKeys

/-!
# Acquisitions on sharded stores

On a sharded store a first acquisition writes its token, waits for replicas and looks at the clock.
Whatever the store replies and however long it takes, the token is either kept, in time, or taken
back by a deletion that is the last call of the acquisition.

The exchanges of such an acquisition are listed part by part, as `ReplicaWait`, `Settlement` and
`ShardedWrite`; the main statement `sharded_all_or_nothing` is read off them.
-/

namespace Latchkey

variable {X : Extension}

/-! ## Lists of exchanges -/

/-- Forbids nothing and remembers all exchanges. -/
def Discipline.recorder : Discipline (List Exchange) where
  permits _ _ := True
  next log x := log ++ [x]

namespace Discipline

@[simp] theorem recorder_permits (log : List Exchange) (e : Effect) :
    recorder.permits log e ↔ True := Iff.rfl

@[simp] theorem recorder_next (log : List Exchange) (x : Exchange) :
    recorder.next log x = log ++ [x] := rfl

theorem recorder_run (log log' : List Exchange) : recorder.run log log' = log ++ log' := by
  induction log' generalizing log with
  | nil => simp
  | cons x log' ih =>
    show recorder.run (log ++ [x]) log' = _
    rw [ih, List.append_assoc]
    rfl

end Discipline

namespace Exchange

/-- The store was called. -/
def IsCall (x : Exchange) : Prop :=
  match x.effect with
  | .call _ => True
  | _ => False

/-- A key was to be deleted. -/
def IsDelete (x : Exchange) : Prop :=
  match x.effect with
  | .call (.command _ (.compareAndDelete ..)) => True
  | _ => False

/-- Replicas were waited for. -/
def IsReplicaWait (x : Exchange) : Prop :=
  match x.effect with
  | .call (.command _ (.awaitReplicas ..)) => True
  | _ => False

end Exchange

/-! ## The parts of an acquisition -/

/-- The exchanges of a wait for the replicas of a node, and what came of it. -/
inductive ReplicaWait (conn : Connection) (node : NodeId) (wait : Nat) :
    List Exchange → Except StoreError Unit → Prop where
  /-- The replicas could not be counted. -/
  | uncounted (e : StoreError) :
      ReplicaWait conn node wait [⟨.call (.replicaCount node), .error e⟩] (.error e)
  /-- There are none. -/
  | alone : ReplicaWait conn node wait [⟨.call (.replicaCount node), .ok 0⟩] (.ok ())
  /-- They were waited for. -/
  | asked {n : Nat} (hn : 1 ≤ n) (r : Except StoreError Nat) :
      ReplicaWait conn node wait
        [⟨.call (.replicaCount node), .ok n⟩,
          ⟨.call (.command conn (.awaitReplicas (min n 2) wait)), r⟩]
        (r.map fun _ => ())

/-- The exchanges after a wait for replicas, given what came of it and when the token was written,
and what came of the acquisition. -/
inductive Settlement (conn : Connection) (key : String) (token : Token) (ttl since : Nat) :
    Except StoreError Unit → List Exchange → Except StoreError AcquireOutcome → Prop where
  /-- The lifetime of the token is not over. -/
  | kept {now : Nat} (h : now - since < ttl) :
      Settlement conn key token ttl since (.ok ()) [⟨.clock, now⟩, ⟨.release conn, ()⟩]
        (.ok .acquired)
  /-- Its lifetime is over; it was taken back. -/
  | late {now : Nat} (h : ¬ now - since < ttl) (r : Except StoreError Bool) :
      Settlement conn key token ttl since (.ok ())
        [⟨.clock, now⟩, ⟨.call (.command conn (.compareAndDelete key token)), r⟩,
          ⟨.release conn, ()⟩]
        (.ok .timedOut)
  /-- The wait has failed; the token was taken back. -/
  | failed (e : StoreError) (r : Except StoreError Bool) :
      Settlement conn key token ttl since (.error e)
        [⟨.call (.command conn (.compareAndDelete key token)), r⟩, ⟨.release conn, ()⟩] (.error e)

/-- The exchanges of a first acquisition on a sharded store from the look-up of the node on, and
what came of it. -/
inductive ShardedWrite (key : String) (token : Token) (ttl wait : Nat) :
    List Exchange → Except StoreError AcquireOutcome → Prop where
  /-- The node could not be looked up. -/
  | unrouted (e : StoreError) :
      ShardedWrite key token ttl wait [⟨.call (.nodeOwning key), .error e⟩] (.error e)
  /-- No connection was lent. -/
  | unconnected (node : NodeId) (e : StoreError) :
      ShardedWrite key token ttl wait
        [⟨.call (.nodeOwning key), .ok node⟩, ⟨.call (.connect node), .error e⟩] (.error e)
  /-- The token was not written. -/
  | unwritten (node : NodeId) (conn : Connection) (since : Nat) {r : Except StoreError Bool}
      (hr : r ≠ .ok true) :
      ShardedWrite key token ttl wait
        [⟨.call (.nodeOwning key), .ok node⟩, ⟨.call (.connect node), .ok conn⟩, ⟨.clock, since⟩,
          ⟨.call (.command conn (.set key token ttl true)), r⟩, ⟨.release conn, ()⟩]
        (r.map fun _ => .contended)
  /-- The token was written. -/
  | written {node : NodeId} {conn : Connection} {since : Nat} {waited settled : List Exchange}
      {r : Except StoreError Unit} {res : Except StoreError AcquireOutcome}
      (hw : ReplicaWait conn node wait waited r)
      (hs : Settlement conn key token ttl since r settled res) :
      ShardedWrite key token ttl wait
        ([⟨.call (.nodeOwning key), .ok node⟩, ⟨.call (.connect node), .ok conn⟩, ⟨.clock, since⟩,
          ⟨.call (.command conn (.set key token ttl true)), .ok true⟩] ++ (waited ++ settled))
        res

namespace ReplicaWait

variable {conn : Connection} {node : NodeId} {wait : Nat} {waited : List Exchange}
  {r : Except StoreError Unit} {x : Exchange}

/-- The replicas are counted, and waited for if there are some. -/
theorem of_mem (h : ReplicaWait conn node wait waited r) (hx : x ∈ waited) :
    (∃ n, x = ⟨.call (.replicaCount node), n⟩) ∨
      ∃ n k, 1 ≤ n ∧ ⟨.call (.replicaCount node), .ok n⟩ ∈ waited ∧
        x = ⟨.call (.command conn (.awaitReplicas (min n 2) wait)), k⟩ := by
  cases h with
  | uncounted e => exact .inl ⟨_, List.mem_singleton.1 hx⟩
  | alone => exact .inl ⟨_, List.mem_singleton.1 hx⟩
  | asked hn k =>
    rcases List.mem_cons.1 hx with rfl | hx
    · exact .inl ⟨_, rfl⟩
    · exact .inr ⟨_, k, hn, List.mem_cons_self, List.mem_singleton.1 hx⟩

theorem not_isDelete (h : ReplicaWait conn node wait waited r) (hx : x ∈ waited) :
    ¬ x.IsDelete := by
  rcases h.of_mem hx with ⟨n, rfl⟩ | ⟨n, k, -, -, rfl⟩ <;> exact id

end ReplicaWait

/-- No token is written after the first one. -/
theorem Settlement.not_mem_set {conn conn' : Connection} {node : NodeId} {key key' : String}
    {token token' : Token} {ttl ttl' since wait : Nat} {nx : Bool} {waited settled : List Exchange}
    {r : Except StoreError Unit} {r' : Except StoreError Bool}
    {res : Except StoreError AcquireOutcome}
    (hs : Settlement conn key token ttl since r settled res)
    (hw : ReplicaWait conn node wait waited r) :
    (⟨.call (.command conn' (.set key' token' ttl' nx)), r'⟩ : Exchange) ∉ waited ++ settled := by
  intro hx
  rcases List.mem_append.1 hx with hx | hx
  · rcases hw.of_mem hx with ⟨n, hx⟩ | ⟨n, k, -, -, hx⟩ <;> cases hx
  · cases hs <;> simp at hx

namespace ShardedWrite

variable {key : String} {token : Token} {ttl wait : Nat} {part : List Exchange}
  {res : Except StoreError AcquireOutcome}

theorem isHeld_iff (h : ShardedWrite key token ttl wait part res) :
    res.map AcquireOutcome.isHeld = .ok true ↔ res = .ok .acquired := by
  cases h with
  | unrouted e => simp [Except.map]
  | unconnected node e => simp [Except.map]
  | @unwritten node conn since r hr => cases r <;> simp [Except.map, AcquireOutcome.isHeld]
  | written hw hs => cases hs <;> simp [Except.map, AcquireOutcome.isHeld]

/-- What follows a token that was written. -/
theorem of_written (h : ShardedWrite key token ttl wait part res) {conn : Connection}
    {key' : String} {token' : Token} {ttl' : Nat} {nx : Bool}
    (hx : (⟨.call (.command conn (.set key' token' ttl' nx)), .ok true⟩ : Exchange) ∈ part) :
    key' = key ∧ token' = token ∧ ttl' = ttl ∧ nx = true ∧ ∃ node since waited settled r,
      ReplicaWait conn node wait waited r ∧ Settlement conn key token ttl since r settled res ∧
      part = [⟨.call (.nodeOwning key), .ok node⟩, ⟨.call (.connect node), .ok conn⟩] ++
        ⟨.clock, since⟩ :: ⟨.call (.command conn (.set key token ttl true)), .ok true⟩ ::
          (waited ++ settled) := by
  cases h with
  | unrouted e => simp at hx
  | unconnected node e => simp at hx
  | unwritten node conn' since hr =>
    simp only [List.mem_cons, Exchange.mk.injEq, Effect.call.injEq, reduceCtorEq, ExceptT.stM_eq,
      false_and, StoreCall.command.injEq, Command.set.injEq, heq_eq_eq, List.not_mem_nil, or_self,
      or_false, false_or] at hx
    exact absurd hx.2.symm hr
  | @written node conn' since waited settled r res hw hs =>
    rcases List.mem_append.1 hx with hx | hx
    · simp only [List.mem_cons, Exchange.mk.injEq, Effect.call.injEq, reduceCtorEq,
        ExceptT.stM_eq, false_and, StoreCall.command.injEq, Command.set.injEq, heq_eq_eq, and_true,
        List.not_mem_nil, or_false, false_or] at hx
      obtain ⟨rfl, rfl, rfl, rfl, rfl⟩ := hx
      exact ⟨rfl, rfl, rfl, rfl, node, since, waited, settled, r, hw, hs, rfl⟩
    · exact absurd hx (hs.not_mem_set hw)

/-- Nothing follows a token that was not written. -/
theorem of_unwritten (h : ShardedWrite key token ttl wait part res) {conn : Connection}
    {key' : String} {token' : Token} {ttl' : Nat} {nx : Bool} {r : Except StoreError Bool}
    (hx : (⟨.call (.command conn (.set key' token' ttl' nx)), r⟩ : Exchange) ∈ part)
    (hr : r ≠ .ok true) :
    res ≠ .ok .acquired ∧ ∀ x ∈ part, ¬ x.IsDelete ∧ ¬ x.IsReplicaWait := by
  cases h with
  | unrouted e => simp at hx
  | unconnected node e => simp at hx
  | @unwritten node conn' since r' hr' =>
    refine ⟨?_, by simp [Exchange.IsDelete, Exchange.IsReplicaWait]⟩
    cases r' <;> simp [Except.map]
  | @written node conn' since waited settled r' res hw hs =>
    rcases List.mem_append.1 hx with hx | hx
    · simp only [List.mem_cons, Exchange.mk.injEq, Effect.call.injEq, reduceCtorEq,
        ExceptT.stM_eq, false_and, StoreCall.command.injEq, Command.set.injEq, heq_eq_eq,
        List.not_mem_nil, or_false, false_or] at hx
      exact absurd hx.2 hr
    · exact absurd hx (hs.not_mem_set hw)

/-- Replicas are waited for only if there are some, and not for more than two of them. -/
theorem of_replicaWait (h : ShardedWrite key token ttl wait part res) {conn : Connection}
    {count timeout : Nat} {r : Except StoreError Nat}
    (hx : (⟨.call (.command conn (.awaitReplicas count timeout)), r⟩ : Exchange) ∈ part) :
    ∃ node n, (⟨.call (.nodeOwning key), .ok node⟩ : Exchange) ∈ part ∧
      (⟨.call (.connect node), .ok conn⟩ : Exchange) ∈ part ∧
      (⟨.call (.replicaCount node), .ok n⟩ : Exchange) ∈ part ∧
      1 ≤ n ∧ count = min n 2 ∧ timeout = wait := by
  cases h with
  | unrouted e => simp at hx
  | unconnected node e => simp at hx
  | unwritten node conn' since hr => simp at hx
  | @written node conn' since waited settled r' res hw hs =>
    rcases List.mem_append.1 hx with hx | hx
    · simp at hx
    · rcases List.mem_append.1 hx with hx | hx
      · rcases hw.of_mem hx with ⟨n, hx⟩ | ⟨n, k, hn, hmem, hx⟩
        · cases hx
        · cases hx
          exact ⟨node, n, by simp, by simp, by simp [hmem], hn, rfl, rfl⟩
      · cases hs <;> simp at hx

end ShardedWrite

/-- The exchanges of a first acquisition on a sharded store, and whether it has succeeded. -/
inductive FirstAcquire (lock : String) (ttl wait : Nat) : List Exchange → Prop → Prop where
  /-- The store was not called. -/
  | refused {log : List Exchange} {success : Prop} (hlog : ∀ x ∈ log, ¬ x.IsCall)
      (hfail : ¬ success) : FirstAcquire lock ttl wait log success
  /-- A token was minted; before the look-up of the node and after the connection was given back the
  store was not called. -/
  | tried (pre write post : List Exchange) {token : Token} {res : Except StoreError AcquireOutcome}
      {success : Prop} (hmint : (⟨.mint, token⟩ : Exchange) ∈ pre) (hpre : ∀ x ∈ pre, ¬ x.IsCall)
      (hwrite : ShardedWrite (lockKey lock) token ttl wait write res)
      (hpost : ∀ x ∈ post, ¬ x.IsCall) (hsuccess : success ↔ res = .ok .acquired) :
      FirstAcquire lock ttl wait (pre ++ (write ++ post)) success

theorem FirstAcquire.append {lock : String} {ttl wait : Nat} {log post : List Exchange}
    {success success' : Prop} (h : FirstAcquire lock ttl wait log success)
    (hpost : ∀ x ∈ post, ¬ x.IsCall) (hs : success' ↔ success) :
    FirstAcquire lock ttl wait (log ++ post) success' := by
  have hboth : ∀ {log : List Exchange}, (∀ x ∈ log, ¬ x.IsCall) → ∀ x ∈ log ++ post, ¬ x.IsCall :=
    fun h x hx => (List.mem_append.1 hx).elim (h x) (hpost x)
  cases h with
  | refused hlog hfail => exact .refused (hboth hlog) fun h => hfail (hs.1 h)
  | tried pre write post' hmint hpre hwrite hpost' hsuccess =>
    rw [List.append_assoc, List.append_assoc]
    exact .tried pre write _ hmint hpre hwrite (hboth hpost') (hs.trans hsuccess)

/-- After the write of a token at a time nothing is deleted, and after the last call of the store
the clock shows that the lifetime of the token is not over. -/
def KeptInTime (ttl since : Nat) (after : List Exchange) : Prop :=
  (∀ x ∈ after, ¬ x.IsDelete) ∧ ∃ mid now last, after = mid ++ ⟨.clock, now⟩ :: last ∧
    (∀ x ∈ last, ¬ x.IsCall) ∧ now - since < ttl

/-- After the write of a token one deletion is sent, of the token over the connection of the write,
and that is the last call of the store. -/
def TakenBack (conn : Connection) (key : String) (token : Token) (after : List Exchange) : Prop :=
  ∃ mid r last, after = mid ++ ⟨.call (.command conn (.compareAndDelete key token)), r⟩ :: last ∧
    (∀ x ∈ mid, ¬ x.IsDelete) ∧ ∀ x ∈ last, ¬ x.IsCall

theorem Exchange.IsDelete.isCall {x : Exchange} (h : x.IsDelete) : x.IsCall := by
  obtain ⟨e, r⟩ := x
  cases e with
  | call c => trivial
  | _ => exact h.elim

theorem Exchange.IsReplicaWait.isCall {x : Exchange} (h : x.IsReplicaWait) : x.IsCall := by
  obtain ⟨e, r⟩ := x
  cases e with
  | call c => trivial
  | _ => exact h.elim

/-- What follows a wait for replicas either keeps the token in time or takes it back. -/
theorem Settlement.kept_or_takenBack {conn : Connection} {key : String} {token : Token}
    {ttl since : Nat} {r : Except StoreError Unit} {settled waited post : List Exchange}
    {res : Except StoreError AcquireOutcome} (h : Settlement conn key token ttl since r settled res)
    (hwaited : ∀ x ∈ waited, ¬ x.IsDelete) (hpost : ∀ x ∈ post, ¬ x.IsCall) :
    res = .ok .acquired ∧ KeptInTime ttl since (waited ++ settled ++ post) ∨
      res ≠ .ok .acquired ∧ TakenBack conn key token (waited ++ settled ++ post) := by
  have hlast : ∀ x ∈ (⟨.release conn, ()⟩ : Exchange) :: post, ¬ x.IsCall :=
    List.forall_mem_cons.2 ⟨not_false, hpost⟩
  cases h with
  | @kept now hin =>
    refine .inl ⟨rfl, fun x hx hd => ?_, waited, now, _, by simp, hlast, hin⟩
    simp only [List.append_assoc, List.mem_append] at hx
    rcases hx with hx | hx | hx
    · exact hwaited x hx hd
    · simp only [List.mem_cons, List.not_mem_nil, or_false] at hx
      rcases hx with rfl | rfl <;> exact hd
    · exact hpost x hx hd.isCall
  | @late now hlate b =>
    refine .inr ⟨fun h => (by cases h), waited ++ [⟨.clock, now⟩], b, _, by simp, fun x hx => ?_,
      hlast⟩
    rcases List.mem_append.1 hx with hx | hx
    · exact hwaited x hx
    · obtain rfl := List.mem_singleton.1 hx
      exact not_false
  | failed e b => exact .inr ⟨fun h => (by cases h), waited, b, _, by simp, hwaited, hlast⟩

namespace FirstAcquire

variable {lock : String} {ttl wait : Nat} {log : List Exchange} {success : Prop}

/-- A call of the store is one of the part in which the token is written. -/
theorem of_call (h : FirstAcquire lock ttl wait log success) {x : Exchange} (hx : x ∈ log)
    (hcall : x.IsCall) :
    ∃ pre write post token res, log = pre ++ (write ++ post) ∧
      (⟨.mint, token⟩ : Exchange) ∈ log ∧ (∀ x ∈ pre, ¬ x.IsCall) ∧ (∀ x ∈ post, ¬ x.IsCall) ∧
      ShardedWrite (lockKey lock) token ttl wait write res ∧ x ∈ write ∧
      (success ↔ res = .ok .acquired) := by
  cases h with
  | refused hlog hfail => exact absurd hcall (hlog x hx)
  | @tried pre write post token res success hmint hpre hwrite hpost hsuccess =>
    refine ⟨pre, write, post, token, res, rfl, List.mem_append_left _ hmint, hpre, hpost, hwrite,
      ?_, hsuccess⟩
    rcases List.mem_append.1 hx with hx | hx
    · exact absurd hcall (hpre x hx)
    · rcases List.mem_append.1 hx with hx | hx
      · exact hx
      · exact absurd hcall (hpost x hx)

variable {conn : Connection} {key : String} {token : Token} {ttl' : Nat} {nx : Bool}

/-- A token that was written is kept in time or taken back. -/
theorem of_written (h : FirstAcquire lock ttl wait log success)
    (hx : (⟨.call (.command conn (.set key token ttl' nx)), .ok true⟩ : Exchange) ∈ log) :
    (⟨.mint, token⟩ : Exchange) ∈ log ∧ key = lockKey lock ∧ ttl' = ttl ∧ nx = true ∧
      ∃ before since after, log = before ++ ⟨.clock, since⟩ ::
          ⟨.call (.command conn (.set key token ttl' nx)), .ok true⟩ :: after ∧
        (∀ x ∈ before, ¬ x.IsDelete) ∧
        (success ∧ KeptInTime ttl since after ∨ ¬ success ∧ TakenBack conn key token after) := by
  obtain ⟨pre, write, post, token', res, rfl, hmint, hpre, hpost, hwrite, hx, hsuccess⟩ :=
    h.of_call hx trivial
  obtain ⟨rfl, rfl, rfl, rfl, node, since, waited, settled, r, hw, hs, rfl⟩ := hwrite.of_written hx
  refine ⟨hmint, rfl, rfl, rfl, pre ++ [⟨.call (.nodeOwning (lockKey lock)), .ok node⟩,
    ⟨.call (.connect node), .ok conn⟩], since, waited ++ settled ++ post, by simp, ?_, ?_⟩
  · intro x hx hd
    rcases List.mem_append.1 hx with hx | hx
    · exact hpre x hx hd.isCall
    · simp only [List.mem_cons, List.not_mem_nil, or_false] at hx
      rcases hx with rfl | rfl <;> exact hd
  · rw [hsuccess]
    exact hs.kept_or_takenBack (fun x hx => hw.not_isDelete hx) hpost

/-- Nothing follows a token that was not written. -/
theorem of_unwritten (h : FirstAcquire lock ttl wait log success) {r : Except StoreError Bool}
    (hx : (⟨.call (.command conn (.set key token ttl' nx)), r⟩ : Exchange) ∈ log)
    (hr : r ≠ .ok true) : ¬ success ∧ ∀ x ∈ log, ¬ x.IsDelete ∧ ¬ x.IsReplicaWait := by
  obtain ⟨pre, write, post, token', res, rfl, -, hpre, hpost, hwrite, hx, hsuccess⟩ :=
    h.of_call hx trivial
  obtain ⟨hres, hno⟩ := hwrite.of_unwritten hx hr
  refine ⟨fun h => hres (hsuccess.1 h), fun x hx => ?_⟩
  have hidle : ¬ x.IsCall → ¬ x.IsDelete ∧ ¬ x.IsReplicaWait :=
    fun h => ⟨fun hd => h hd.isCall, fun hw => h hw.isCall⟩
  rcases List.mem_append.1 hx with hx | hx
  · exact hidle (hpre x hx)
  · rcases List.mem_append.1 hx with hx | hx
    · exact hno x hx
    · exact hidle (hpost x hx)

/-- Replicas are waited for only if there are some, and not for more than two of them. -/
theorem of_replicaWait (h : FirstAcquire lock ttl wait log success) {count timeout : Nat}
    {r : Except StoreError Nat}
    (hx : (⟨.call (.command conn (.awaitReplicas count timeout)), r⟩ : Exchange) ∈ log) :
    ∃ node n, (⟨.call (.nodeOwning (lockKey lock)), .ok node⟩ : Exchange) ∈ log ∧
      (⟨.call (.connect node), .ok conn⟩ : Exchange) ∈ log ∧
      (⟨.call (.replicaCount node), .ok n⟩ : Exchange) ∈ log ∧
      1 ≤ n ∧ count = min n 2 ∧ timeout = wait := by
  obtain ⟨pre, write, post, token', res, rfl, -, -, -, hwrite, hx, -⟩ := h.of_call hx trivial
  obtain ⟨node, n, hnode, hconn, hcount, hn, hmin, htimeout⟩ := hwrite.of_replicaWait hx
  have hmem : ∀ {x}, x ∈ write → x ∈ pre ++ (write ++ post) :=
    fun hx => List.mem_append_right _ (List.mem_append_left _ hx)
  exact ⟨node, n, hmem hnode, hmem hconn, hmem hcount, hn, hmin, htimeout⟩

end FirstAcquire

/-- The log goes on with a part as described. -/
def Continues {α : Type} (log : List Exchange) (Q : List Exchange → α → Prop)
    (log' : List Exchange) (a : α) : Prop :=
  ∃ part, log' = log ++ part ∧ Q part a

namespace Manager

theorem awaitReplicas_records (conn : Connection) (node : NodeId) (wait : Nat)
    (log : List Exchange) :
    (awaitReplicas (X := X) conn node wait).run.Obeys .recorder log
      (Continues log (ReplicaWait conn node wait)) := by
  unfold awaitReplicas
  simp only [Action.ensures_bind, Action.ensures_call, Discipline.interpretation_before,
    forall_except, Action.thenOk_ok, Action.thenOk_error]
  refine ⟨trivial, fun e => ⟨_, rfl, .uncounted e⟩, fun (n : Nat) => ?_⟩
  by_cases hn : n = 0
  · subst hn
    exact ⟨_, rfl, .alone⟩
  · have hquorum : ¬ min n maxReplicaQuorum = 0 := by
      unfold maxReplicaQuorum
      omega
    have hpos : 1 ≤ n := Nat.pos_of_ne_zero hn
    rw [if_neg hquorum]
    simp only [Action.ensures_bind, Action.ensures_send, Discipline.interpretation_before,
      Discipline.recorder_next, List.append_assoc, forall_except, Action.thenOk_ok,
      Action.thenOk_error]
    exact ⟨trivial, fun e => ⟨_, rfl, .asked hpos (.error e)⟩,
      fun k => ⟨_, rfl, .asked hpos (.ok k)⟩⟩

theorem rollback_records (conn : Connection) (key : String) (token : Token) (log : List Exchange) :
    (rollback (X := X) conn key token).run.Obeys .recorder log fun log' r =>
      r = .ok () ∧
        ∃ b, log' = log ++ [⟨.call (.command conn (.compareAndDelete key token)), b⟩] :=
  ⟨trivial, fun b => ⟨rfl, b, rfl⟩⟩

/-- The exchanges of a first acquisition on a sharded store. -/
theorem acquireSharded_records (key : String) (token : Token) (ttl wait : Nat)
    (log : List Exchange) :
    (acquireSharded (X := X) key token ttl wait).run.Obeys .recorder log
      (Continues log (ShardedWrite key token ttl wait)) := by
  simp only [acquireSharded, bind_pure_comp, Action.ensures_bind, Action.ensures_withConnection,
    Discipline.interpretation_before, Discipline.recorder_permits, Discipline.recorder_next,
    true_and, Action.ensures_send, ExceptT.stM_eq, forall_except, Action.thenOk_error,
    List.append_assoc, List.cons_append, List.nil_append, Action.thenOk_ok, Bool.forall_bool,
    Bool.false_eq_true, ↓reduceIte, ExceptT.run_pure, Program.ensures_pure, ExceptT.run_bind_lift,
    Program.ensures_bind, Action.ensures_perform, Action.ensures_call]
  refine ⟨fun e => ⟨_, rfl, .unrouted e⟩, fun node => ⟨fun e => ⟨_, rfl, .unconnected node e⟩,
    fun conn (since : Nat) =>
      ⟨fun e _ => ⟨_, rfl, .unwritten (r := .error e) node conn since (by simp)⟩,
      fun _ => ⟨_, rfl, .unwritten (r := .ok false) node conn since (by simp)⟩, ?_⟩⟩⟩
  refine (awaitReplicas_records conn node wait _).mono ?_
  rintro log' r ⟨waited, rfl, hw⟩
  cases r with
  | error e =>
    simp only [Action.ensures_bind]
    refine (rollback_records conn key token _).mono ?_
    rintro log' r ⟨rfl, b, rfl⟩
    refine fun _ => ⟨_, ?_, @ShardedWrite.written key token ttl wait node conn since _ _ _ _ hw
      (.failed e b)⟩
    simp
  | ok _ =>
    simp only [List.append_assoc, List.cons_append, List.nil_append, Action.ensures_bind,
      Action.ensures_perform, Action.thenOk_ok, Discipline.interpretation_before,
      Discipline.recorder_permits, Discipline.recorder_next, true_and]
    intro (now : Nat)
    by_cases h : now - since < ttl
    · rw [if_pos h]
      refine fun _ => ⟨_, ?_, @ShardedWrite.written key token ttl wait node conn since _ _ _ _ hw
        (.kept h)⟩
      simp
    · rw [if_neg h]
      simp only [ExceptT.run_map, Program.ensures_map]
      refine (rollback_records conn key token _).mono ?_
      rintro log' r ⟨rfl, b, rfl⟩
      refine fun _ => ⟨_, ?_, @ShardedWrite.written key token ttl wait node conn since _ _ _ _ hw
        (.late h b)⟩
      simp

/-- Whatever a program does, the log only grows. -/
theorem grows {α : Type} (p : Program X α) (log : List Exchange) :
    p.Obeys .recorder log fun log' _ => ∀ x ∈ log, x ∈ log' := by
  induction p generalizing log with
  | done a => exact fun _ hx => hx
  | effect e next ih =>
    refine ⟨trivial, fun r => (ih r _).mono fun log' _ h x hx => ?_⟩
    exact h x (List.mem_append_left _ hx)
  | extended op next ih => exact ⟨trivial, fun r => ih r log⟩

/-- An acquisition on a store that is sharded, for a context that has no entry, is a first one. -/
def FirstIf (m : Manager) (ctx : Context) (lock : String) (ttl wait : Nat) (log : List Exchange)
    (success : Prop) : Prop :=
  (∀ d, (⟨.deployment, d⟩ : Exchange) ∈ log → d.isSharded) →
  (∀ token, (⟨.registry m.id (.held ctx lock), some token⟩ : Exchange) ∉ log) →
  FirstAcquire lock ttl wait log success

theorem FirstIf.append {m : Manager} {ctx : Context} {lock : String} {ttl wait : Nat}
    {log post : List Exchange} {success success' : Prop}
    (h : FirstIf m ctx lock ttl wait log success) (hpost : ∀ x ∈ post, ¬ x.IsCall)
    (hs : success' ↔ success) : FirstIf m ctx lock ttl wait (log ++ post) success' :=
  fun hsharded hnone => (h (fun d hd => hsharded d (List.mem_append_left _ hd))
    fun token ht => hnone token (List.mem_append_left _ ht)).append hpost hs

/-- What follows a first acquisition on a sharded store notes the token if it was acquired. -/
theorem record_records (m : Manager) (ctx : Context) (lock : String) (ttl wait : Nat)
    {pre write : List Exchange} {token : Token} {r : Except StoreError AcquireOutcome}
    (hmint : (⟨.mint, token⟩ : Exchange) ∈ pre) (hpre : ∀ x ∈ pre, ¬ x.IsCall)
    (hw : ShardedWrite (lockKey lock) token ttl wait write r) :
    Action.thenOk
      (fun log r => FirstIf m ctx lock ttl wait log (r.map AcquireOutcome.isHeld = .ok true))
      (fun log outcome =>
        (if outcome = .acquired then
            (fun _ => outcome) <$> Action.registry (X := X) m.id (.record ctx lock token)
          else pure outcome : Action X StoreError AcquireOutcome).run.Obeys .recorder log
          fun log r => FirstIf m ctx lock ttl wait log (r.map AcquireOutcome.isHeld = .ok true))
      (pre ++ write) r := by
  have hheld := hw.isHeld_iff
  have hunnoted : FirstAcquire lock ttl wait (pre ++ write)
      (r.map AcquireOutcome.isHeld = .ok true) := by
    have h := FirstAcquire.tried pre write [] hmint hpre hw (fun _ hx => by cases hx) hheld
    rwa [List.append_nil] at h
  rcases r with e | outcome
  · exact fun _ _ => hunnoted
  · rw [Action.thenOk_ok]
    by_cases ha : outcome = .acquired
    · rw [if_pos ha]
      refine ⟨trivial, fun _ _ _ => ?_⟩
      have hpost : ∀ x ∈ [(⟨.registry m.id (.record ctx lock token), ()⟩ : Exchange)],
          ¬ x.IsCall := by
        intro x hx
        obtain rfl := List.mem_singleton.1 hx
        exact not_false
      have h := FirstAcquire.tried pre write _ hmint hpre hw hpost hheld
      rwa [← List.append_assoc] at h
    · rw [if_neg ha]
      exact fun _ _ => hunnoted

theorem attempt_records (m : Manager) (ctx : Context) (lock : String) (ttl wait started : Nat)
    {log : List Exchange} (hlog : ∀ x ∈ log, ¬ x.IsCall) :
    (m.attempt (X := X) ctx lock ttl wait started).run.Obeys .recorder log fun log' r =>
      FirstIf m ctx lock ttl wait log' (r.map AcquireOutcome.isHeld = .ok true) := by
  simp only [attempt, bind_pure_comp, Action.ensures_bind, Action.ensures_registry,
    Action.thenOk_ok, Discipline.interpretation_before, Discipline.recorder_permits,
    Discipline.recorder_next, true_and]
  intro (token? : Option Token)
  rcases token? with _ | token
  · simp only [Action.ensures_bind, Action.ensures_perform, Action.thenOk_ok,
      Discipline.interpretation_before, Discipline.recorder_permits, Discipline.recorder_next,
      true_and, List.append_assoc, List.cons_append, List.nil_append]
    intro (token : Token) (d : Deployment)
    cases hd : d.isSharded with
    | false =>
      -- the log shows the deployment, so the statement says nothing here
      refine (grows _ _).mono fun log' r h hsharded => ?_
      exact absurd (hsharded d (h _ (by simp))) (by simp [hd])
    | true =>
      rw [if_pos rfl, Action.ensures_bind]
      refine (acquireSharded_records (lockKey lock) token ttl wait _).mono ?_
      rintro log' r ⟨write, rfl, hw⟩
      have hmint : (⟨.mint, token⟩ : Exchange) ∈ log ++ [⟨.registry m.id (.held ctx lock), none⟩,
          ⟨.mint, token⟩, ⟨.deployment, d⟩] := by simp
      have hpre : ∀ x ∈ log ++ [⟨.registry m.id (.held ctx lock), none⟩, ⟨.mint, token⟩,
          ⟨.deployment, d⟩], ¬ x.IsCall := by
        simp only [List.mem_append, List.mem_cons, List.not_mem_nil, or_false, Exchange.IsCall,
          or_imp, forall_and, forall_eq, not_false_eq_true, and_self, and_true]
        exact hlog
      exact record_records m ctx lock ttl wait hmint hpre hw
  · refine (grows _ _).mono fun log' r h hsharded hnone => ?_
    exact absurd (h _ (by simp)) (hnone token)

theorem acquire_records (m : Manager) (ctx : Context) (lock : String) (ttl wait : Nat) :
    (m.acquire (X := X) ctx lock ttl wait).run.Obeys .recorder [] fun log r =>
      FirstIf m ctx lock ttl (min wait ttl) log (r = .ok true) := by
  unfold acquire
  split
  · exact fun _ _ => .refused (fun _ hx => by cases hx) (by simp)
  · simp only [bind_pure_comp, Action.ensures_bind, Action.ensures_perform, Action.thenOk_ok,
      Discipline.interpretation_before, Discipline.recorder_permits, Discipline.recorder_next,
      Bool.forall_bool, Bool.false_eq_true, ↓reduceIte, ExceptT.run_bind_lift, Program.ensures_bind,
      true_and, List.append_assoc, List.cons_append, List.nil_append, ExceptT.run_map,
      Program.ensures_map]
    intro (started : Nat)
    constructor
    · refine (attempt_records m ctx lock ttl (min wait ttl) started
        (by simp [Exchange.IsCall])).mono fun log r h (ended : Nat) => ?_
      intro u
      have hpost : ∀ x ∈ [(⟨.clock, ended⟩ : Exchange), ⟨.count _, u⟩], ¬ x.IsCall := by
        simp [Exchange.IsCall]
      rcases r with e | outcome
      · exact h.append hpost (by simp [Except.map])
      · exact h.append hpost (by simp [Except.map])
    · intro u _ _
      exact .refused (by simp [Exchange.IsCall]) (by simp [Except.map])

end Manager

/-! ## No token is left behind -/

/-- A token that was minted by an acquisition that failed on a sharded store is not in the store. -/
theorem Machine.Lawful.not_carries_of_failed {mode : Scheduling} {tr : List Event}
    {s s' : Machine X} {m : Manager} {ctx : Context} {lock : String} {ttl wait : Nat}
    {log : List Exchange} {r : Except Failure Bool} {token : Token} (h : s.Lawful mode tr)
    (hs : s.LockStep mode (.returned (.acquire m ctx lock ttl wait) log r) s')
    (hsharded : s.world.store.deployment.isSharded = true) (hr : r ≠ .ok true)
    (hmint : (⟨.mint, token⟩ : Exchange) ∈ log) (key : String) :
    ¬ s'.world.Carries key token := by
  obtain ⟨hworld, hafter, hsettles, wait', hf⟩ := h.returned hs rfl
  have hminted := Operation.minted?_phase (o := .acquire m ctx lock ttl wait) rfl hafter hmint
  have hsettles : ((Operation.acquire m ctx lock ttl wait).phase log).Settles (r = .ok true) :=
    hsettles
  rw [hworld]
  cases hphase : (Operation.acquire m ctx lock ttl wait).phase log with
  | seeking clock =>
    rw [hphase] at hminted
    cases hminted
  | owning token =>
    rw [hphase] at hminted
    cases hminted
  | fresh token' clock =>
    rw [hphase] at hminted hf
    cases hminted
    exact hf.2.2 key
  | minted token' clock sharded =>
    rw [hphase] at hminted hf
    cases hminted
    exact hf.2.2.1 key
  | written token' since sharded =>
    rw [hphase] at hsettles
    exact hsettles.elim
  | late token' sharded =>
    rw [hphase] at hsettles hf
    exact absurd (hsettles.1.symm.trans (hf.2.trans hsharded)) Bool.false_ne_true
  | void token' =>
    rw [hphase] at hminted hf
    cases hminted
    exact hf.2 key
  | granted token' =>
    rw [hphase] at hsettles
    exact hsettles.elim
  | held token' =>
    rw [hphase] at hsettles
    exact absurd hsettles hr

/-- A first acquisition on a sharded store keeps its token in time or takes it back.

It ends, whatever the replies are. If the token was written, the acquisition succeeds, nothing is
deleted and the lifetime is not over when the clock is read after the last call; or it does not
succeed, and the last call is the only deletion, of the token that was written and over the
connection that wrote it. If the token was not written, there is neither a deletion nor a wait for
replicas. Replicas are waited for only if there are some. On a store in memory, where a deletion
does not fail, no key has the token after an acquisition that did not succeed. -/
theorem sharded_all_or_nothing (m : Manager) (ctx : Context) (lock : String) (ttl wait : Nat) :
    (∀ reply : List Exchange → (e : Effect) → e.Reply, ((op : X.Op) → X.Reply op) →
      ∃ log r, (m.acquire (X := X) ctx lock ttl wait).run.After log (.done r) ∧
        Program.RepliesBy reply log) ∧
    (∀ {log : List Exchange} {r : Except Failure Bool},
      (m.acquire (X := X) ctx lock ttl wait).run.After log (.done r) →
      (∀ d, (⟨.deployment, d⟩ : Exchange) ∈ log → d.isSharded) →
      (∀ token, (⟨.registry m.id (.held ctx lock), some token⟩ : Exchange) ∉ log) →
      (∀ {conn : Connection} {key : String} {token : Token} {ttl' : Nat} {nx : Bool},
        (⟨.call (.command conn (.set key token ttl' nx)), .ok true⟩ : Exchange) ∈ log →
        (⟨.mint, token⟩ : Exchange) ∈ log ∧ key = lockKey lock ∧ ttl' = ttl ∧ nx = true ∧
        ∃ before since after, log = before ++ ⟨.clock, since⟩ ::
            ⟨.call (.command conn (.set key token ttl' nx)), .ok true⟩ :: after ∧
          (∀ x ∈ before, ¬ x.IsDelete) ∧
          (r = .ok true ∧ KeptInTime ttl since after ∨
            r ≠ .ok true ∧ TakenBack conn key token after)) ∧
      (∀ {conn : Connection} {key : String} {token : Token} {ttl' : Nat} {nx : Bool}
          {b : Except StoreError Bool},
        (⟨.call (.command conn (.set key token ttl' nx)), b⟩ : Exchange) ∈ log → b ≠ .ok true →
        r ≠ .ok true ∧ ∀ x ∈ log, ¬ x.IsDelete ∧ ¬ x.IsReplicaWait) ∧
      (∀ {conn : Connection} {count timeout : Nat} {k : Except StoreError Nat},
        (⟨.call (.command conn (.awaitReplicas count timeout)), k⟩ : Exchange) ∈ log →
        ∃ node n, (⟨.call (.nodeOwning (lockKey lock)), .ok node⟩ : Exchange) ∈ log ∧
          (⟨.call (.connect node), .ok conn⟩ : Exchange) ∈ log ∧
          (⟨.call (.replicaCount node), .ok n⟩ : Exchange) ∈ log ∧
          1 ≤ n ∧ count = min n 2 ∧ timeout = min wait ttl)) ∧
    (∀ {mode : Scheduling} {s₀ s₁ s₂ : Machine X} {tr : List Event} {log : List Exchange}
        {r : Except Failure Bool} {token : Token},
      s₀.Initial → s₀.world.store.deployment.isSharded = true →
      Run (Machine.LockStep mode) s₀ tr s₁ →
      s₁.LockStep mode (.returned (.acquire m ctx lock ttl wait) log r) s₂ → r ≠ .ok true →
      (⟨.mint, token⟩ : Exchange) ∈ log → ∀ key, ¬ s₂.world.Carries key token) := by
  refine ⟨?_, ?_, ?_⟩
  · intro reply hear
    exact Program.After.start.ends (fun _ _ _ heq => by simp at heq) hear
  · intro log r hafter hsharded hnone
    have hfirst := (m.acquire_records ctx lock ttl wait).final hafter
    rw [Discipline.recorder_run, List.nil_append] at hfirst
    have h := hfirst hsharded hnone
    exact ⟨fun hx => h.of_written hx, fun hx hb => h.of_unwritten hx hb,
      fun hx => h.of_replicaWait hx⟩
  · intro mode s₀ s₁ s₂ tr log r token h₀ hsharded h₁ hs hr hmint key
    rw [← Machine.deployment_of_run h₀ h₁] at hsharded
    exact (Machine.lawful_of_run h₀ h₁).not_carries_of_failed hs hsharded hr hmint key

/-- A sharded store on which waits for replicas fail. -/
def World.severed : World := .ofStore { Memory.sharded 1 1 with failing := true } 0

/-- The write of a token by an acquisition on a sharded store. -/
def firstWrite : Exchange :=
  ⟨.call (.command ⟨0, "n"⟩ (.set (lockKey "L") "t" 20 true)), .ok true⟩

/-- The exchanges of an acquisition that has written its token, with what follows the write. -/
def writtenLog (rest : List Exchange) : List Exchange :=
  ⟨.clock, (0 : Nat)⟩ :: ⟨.closing, false⟩ ::
    ⟨.registry 0 (.held "a" "L"), (none : Option Token)⟩ :: ⟨.mint, "t"⟩ ::
    ⟨.deployment, Deployment.sharded⟩ :: ⟨.call (.nodeOwning (lockKey "L")), .ok "n"⟩ ::
    ⟨.call (.connect "n"), .ok ⟨0, "n"⟩⟩ :: ⟨.clock, (0 : Nat)⟩ :: firstWrite :: rest

/-- The exchanges of an acquisition that could not count the replicas. -/
def uncountedLog : List Exchange :=
  writtenLog [⟨.call (.replicaCount "n"), .error .closed⟩,
    ⟨.call (.command ⟨0, "n"⟩ (.compareAndDelete (lockKey "L") "t")), .ok true⟩,
    ⟨.release ⟨0, "n"⟩, ()⟩, ⟨.clock, (0 : Nat)⟩, ⟨.count (.acquire .error 0), ()⟩]

/-- The exchanges of an acquisition that a replica acknowledged half a lifetime after the write. -/
def acknowledgedLog : List Exchange :=
  writtenLog [⟨.call (.replicaCount "n"), .ok (1 : Nat)⟩,
    ⟨.call (.command ⟨0, "n"⟩ (.awaitReplicas 1 10)), .ok (1 : Nat)⟩, ⟨.clock, (10 : Nat)⟩,
    ⟨.release ⟨0, "n"⟩, ()⟩, ⟨.registry 0 (.record "a" "L" "t"), ()⟩, ⟨.clock, (10 : Nat)⟩,
    ⟨.count (.acquire .acquired 10), ()⟩]

/-- Where the replicas cannot be counted the token is taken back, where one of them answers in time
it is kept, and where waits for them fail no key has it. -/
theorem sharded_taken_back :
    (∃ r, (({} : Manager).acquire (X := .none) "a" "L" 20 10).run.After uncountedLog (.done r) ∧
      r ≠ .ok true ∧ ∃ before since after,
        uncountedLog = before ++ ⟨.clock, since⟩ :: firstWrite :: after ∧
        TakenBack ⟨0, "n"⟩ (lockKey "L") "t" after) ∧
    ((({} : Manager).acquire (X := .none) "a" "L" 20 10).run.After acknowledgedLog
        (.done (.ok true)) ∧
      ∃ before since after,
        acknowledgedLog = before ++ ⟨.clock, since⟩ :: firstWrite :: after ∧
        KeptInTime 20 since after) ∧
    ∃ (s₁ s₂ : Machine Extension.none) (tr : List Event) (log : List Exchange)
        (r : Except Failure Bool) (token : Token),
      Run (Machine.LockStep .cooperative) ⟨World.severed, []⟩ tr s₁ ∧
      s₁.LockStep .cooperative (.returned (.acquire {} "a" "L" 20 10) log r) s₂ ∧
      (⟨.mint, token⟩ : Exchange) ∈ log ∧ ∀ key, ¬ s₂.world.Carries key token := by
  obtain ⟨-, hlog, hworld⟩ := sharded_all_or_nothing (X := .none) {} "a" "L" 20 10
  refine ⟨?_, ?_, ?_⟩
  · have hafter : (({} : Manager).acquire (X := .none) "a" "L" 20 10).run.After uncountedLog
        (.done (.error (Failure.ofStore .closed))) := by
      iterate 14 refine .cons ?_
      exact .start
    have hsharded : ∀ d, (⟨.deployment, d⟩ : Exchange) ∈ uncountedLog → d.isSharded := by
      simp [uncountedLog, writtenLog, firstWrite, Deployment.isSharded]
    have hnone : ∀ token,
        (⟨.registry 0 (.held "a" "L"), some token⟩ : Exchange) ∉ uncountedLog := by
      simp [uncountedLog, writtenLog, firstWrite]
    have hwritten : firstWrite ∈ uncountedLog := by
      simp [uncountedLog, writtenLog]
    obtain ⟨-, -, -, -, before, since, after, heq, -, ⟨hr, -⟩ | ⟨hr, hback⟩⟩ :=
      (hlog hafter hsharded hnone).1 hwritten
    · cases hr
    · exact ⟨_, hafter, hr, before, since, after, heq, hback⟩
  · have hafter : (({} : Manager).acquire (X := .none) "a" "L" 20 10).run.After acknowledgedLog
        (.done (.ok true)) := by
      iterate 16 refine .cons ?_
      exact .start
    have hsharded : ∀ d, (⟨.deployment, d⟩ : Exchange) ∈ acknowledgedLog → d.isSharded := by
      simp [acknowledgedLog, writtenLog, firstWrite, Deployment.isSharded]
    have hnone : ∀ token,
        (⟨.registry 0 (.held "a" "L"), some token⟩ : Exchange) ∉ acknowledgedLog := by
      simp [acknowledgedLog, writtenLog, firstWrite]
    have hwritten : firstWrite ∈ acknowledgedLog := by
      simp [acknowledgedLog, writtenLog]
    obtain ⟨-, -, -, -, before, since, after, heq, -, ⟨-, hkept⟩ | ⟨hr, -⟩⟩ :=
      (hlog hafter hsharded hnone).1 hwritten
    · exact ⟨hafter, before, since, after, heq, hkept⟩
    · exact absurd rfl hr
  · have h : (({} : Manager).acquire (X := .none) "a" "L" 20 10).run.Ensures World.alone
        World.severed fun _ r => r.toOption = none := by
      decide +kernel
    obtain ⟨tr, w', a, s₁, s₂, hnone, h₁, hs, -⟩ :=
      Machine.run_call (o := .acquire {} "a" "L" 20 10) rfl trivial h
    have hmint : (⟨.mint, Token.ofSerial 0⟩ : Exchange) ∈
        (({} : Manager).acquire (X := .none) "a" "L" 20 10).run.exchanges World.severed :=
      .tail _ (.tail _ (.tail _ (.head _)))
    have hr : a ≠ .ok true := by
      rintro rfl
      cases hnone
    exact ⟨s₁, s₂, tr, _, a, _, h₁, hs, hmint,
      hworld (Machine.initial_ofStore rfl 0) rfl h₁ hs hr hmint⟩

end Latchkey
