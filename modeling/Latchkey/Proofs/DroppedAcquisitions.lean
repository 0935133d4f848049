import Latchkey.Proofs.LateTokens
import Latchkey.Proofs.LockLifetimes
import Latchkey.Proofs.Orphans
import Latchkey.Proofs.Schedules
import Latchkey.Proofs.Terms

/-!
# Acquisitions that are dropped

An acquisition may be dropped wherever it waits. Before its token is written nothing comes of that.
After the write it waits only for replicas, on a sharded store; if it is dropped there the token
stays under the key of the lock, and as nobody knows the token it stays for its whole lifetime.

The main statement is `dropped_acquisition_leaves_token`.
-/

namespace Latchkey

variable {X : Extension}

/-! ## Where an acquisition waits -/

/-- An effect that may take time. -/
def Effect.Lingers : Effect → Prop
  | .sleep _ => True
  | .call (.connect _) => True
  | .call (.command _ (.set ..)) => True
  | .call (.command _ (.setBit ..)) => True
  | .call (.command _ (.awaitReplicas ..)) => True
  | _ => False

/-- A wait for replicas. -/
def Effect.AwaitsReplicas (e : Effect) : Prop :=
  ∃ conn count timeout, e = .call (.command conn (.awaitReplicas count timeout))

/-- Only effects that may take time are waited for. -/
theorem World.lingers_of_wait? {w w' : World} {e : Effect} {wait : Wait}
    (h : w.wait? e = some (w', wait)) : e.Lingers := by
  cases e with
  | sleep ms => trivial
  | call c =>
    cases c with
    | connect node => trivial
    | command conn cmd =>
      cases cmd with
      | set key value ttl onlyIfAbsent => trivial
      | setBit key i b => trivial
      | awaitReplicas count timeout => trivial
      | _ => cases h
    | _ => cases h
  | _ => cases h

/-- Permits to wait before a token is written, and for replicas while it is known to be written. -/
def Operation.lingering (o : Operation) : Discipline (List Exchange) :=
  .ofLog fun log e => e.Lingers → Unwritten log ∨
    e.AwaitsReplicas ∧ ∃ token since sharded, o.phase log = .written token since sharded

namespace Operation

variable (o : Operation)

@[simp] theorem lingering_permits (log : List Exchange) (e : Effect) :
    o.lingering.permits log e ↔ (e.Lingers → Unwritten log ∨
      e.AwaitsReplicas ∧ ∃ token since sharded, o.phase log = .written token since sharded) :=
  Iff.rfl

@[simp] theorem lingering_next (log : List Exchange) (x : Exchange) :
    o.lingering.next log x = log ++ [x] := rfl

theorem lingering_run (log : List Exchange) : o.lingering.run [] log = log :=
  Discipline.ofLog_run _ [] log

end Operation

namespace Manager

variable (o : Operation) (m : Manager) (ctx : Context) (lock key : String) (ttl wait started : Nat)

theorem refresh_lingering (token : Token) {log : List Exchange} (hlog : Unwritten log) :
    (refresh (X := X) key token ttl).run.Obeys o.lingering log fun _ _ => True := by
  simp [refresh, hlog, forall_except, Exchange.IsWritten]

theorem acquireSingle_lingering (token : Token) {log : List Exchange} (hlog : Unwritten log) :
    (acquireSingle (X := X) key token ttl started).run.Obeys o.lingering log fun _ _ => True := by
  simp only [acquireSingle, Action.ensures_bind, Action.ensures_withConnection,
    Action.ensures_connectionFor, Discipline.interpretation_before, Operation.lingering_permits,
    Operation.lingering_next, forall_except, Action.thenOk_error, Action.thenOk_ok,
    Action.ensures_send, Action.ensures_perform, Bool.forall_bool, unwritten_append, unwritten_cons,
    unwritten_nil, Exchange.IsWritten, not_false_eq_true, and_self, hlog, true_or, true_and,
    implies_true, Effect.Lingers, false_implies, Bool.false_eq_true, ↓reduceIte,
    Program.ensures_pure, ExceptT.run_pure, ExceptT.stM_eq]
  intro node conn (now : Nat)
  split <;> simp

theorem awaitReplicas_lingering (conn : Connection) (node : NodeId) {log : List Exchange}
    {token : Token} {since : Nat} {sharded : Bool}
    (hphase : o.phase log = .written token since sharded) :
    (awaitReplicas (X := X) conn node wait).run.Obeys o.lingering log fun _ _ => True := by
  unfold awaitReplicas
  simp only [Action.ensures_bind, Action.ensures_call, Discipline.interpretation_before,
    Operation.lingering_permits, Operation.lingering_next, Effect.Lingers, false_implies, true_and,
    forall_except, Action.thenOk_error, Action.thenOk_ok, implies_true]
  intro (n : Nat)
  by_cases hzero : min n maxReplicaQuorum = 0
  · rw [if_pos hzero]
    trivial
  · rw [if_neg hzero]
    have hawaits : ∀ count timeout,
        Effect.AwaitsReplicas (.call (.command conn (.awaitReplicas count timeout))) :=
      fun count timeout => ⟨conn, count, timeout, rfl⟩
    simp [hphase, hawaits]

theorem rollback_lingering (conn : Connection) (token : Token) (log : List Exchange) :
    (rollback (X := X) conn key token).run.Obeys o.lingering log fun _ _ => True := by
  simp [rollback, Effect.Lingers]

theorem acquireSharded_lingering (token : Token) {log : List Exchange} {clock : Nat}
    (hlog : Unwritten log) (hphase : o.phase log = .minted token clock true) :
    (acquireSharded (X := X) key token ttl wait).run.Obeys o.lingering log fun _ _ => True := by
  simp only [acquireSharded, bind_pure_comp, Action.ensures_bind, Action.ensures_withConnection,
    Discipline.interpretation_before, Operation.lingering_permits, Operation.lingering_next,
    Effect.Lingers, false_implies, forall_except,
    Action.thenOk_error, Action.thenOk_ok, Action.ensures_call, Action.ensures_send,
    Action.ensures_perform, implies_true, true_and, and_true, Bool.forall_bool,
    Bool.false_eq_true, ↓reduceIte, Program.ensures_pure, ExceptT.run_pure, Action.ensures_lift,
    ExceptT.stM_eq, unwritten_append, unwritten_cons,
    unwritten_nil, Exchange.IsWritten, not_false_eq_true, and_self, hlog, true_or]
  intro node conn (since : Nat)
  have hphase : o.phase (log ++ [⟨.call (.nodeOwning key), .ok node⟩] ++
      [⟨.call (.connect node), .ok conn⟩] ++ [⟨.clock, since⟩] ++
      [⟨.call (.command conn (.set key token ttl true)), .ok true⟩]) =
        .written token since true := by
    simp only [Operation.phase_concat, hphase]
    rfl
  refine (awaitReplicas_lingering o wait conn node hphase).mono ?_
  intro log' r _
  rcases r with e | _
  · simp only [Action.ensures_bind]
    refine (rollback_lingering o key conn token _).mono ?_
    rintro log'' (e | _) _ <;> simp
  · simp only [Action.ensures_bind, Action.ensures_perform]
    refine ⟨False.elim, fun (now : Nat) => ?_⟩
    show Program.Ensures _ _ (ExceptT.run (if now - since < ttl then _ else _)) _
    by_cases hin : now - since < ttl
    · rw [if_pos hin]
      trivial
    · rw [if_neg hin]
      simp only [ExceptT.run_map, Program.ensures_map]
      exact rollback_lingering o key conn token _

theorem attempt_lingering {log : List Exchange} {clock : Nat} (hlog : Unwritten log)
    (hphase : o.phase log = .seeking clock) :
    (m.attempt (X := X) ctx lock ttl wait started).run.Obeys o.lingering log fun _ _ => True := by
  have hrecord : ∀ (token : Token) (log : List Exchange) (r : Except StoreError AcquireOutcome),
      Action.thenOk (fun _ (_ : Except StoreError AcquireOutcome) => True) (fun log outcome =>
        (if outcome = .acquired then
            (fun _ => outcome) <$> Action.registry (X := X) m.id (.record ctx lock token)
          else pure outcome : Action X StoreError AcquireOutcome).run.Obeys o.lingering log
          fun _ _ => True) log r := by
    intro token log r
    rcases r with e | outcome
    · trivial
    · rw [Action.thenOk_ok]
      split <;> simp [Effect.Lingers]
  simp only [attempt, bind_pure_comp, Action.ensures_bind, Action.ensures_registry,
    Action.thenOk_ok, Discipline.interpretation_before, Operation.lingering_permits,
    Operation.lingering_next, Effect.Lingers, false_implies, true_and]
  intro (token? : Option Token)
  have hlooked : Unwritten (log ++ [⟨.registry m.id (.held ctx lock), token?⟩]) := by
    simp [hlog, Exchange.IsWritten]
  rcases token? with _ | token
  · simp only [Action.ensures_bind, Action.ensures_perform, Action.thenOk_ok,
      Discipline.interpretation_before, Operation.lingering_permits, Operation.lingering_next,
      Effect.Lingers, false_implies, true_and]
    intro (token : Token) (d : Deployment)
    have hminted : Unwritten (log ++ [⟨.registry m.id (.held ctx lock), (none : Option Token)⟩] ++
        [⟨.mint, token⟩] ++ [⟨.deployment, d⟩]) := by
      simp [hlog, Exchange.IsWritten]
    have hphase : o.phase (log ++ [⟨.registry m.id (.held ctx lock), (none : Option Token)⟩] ++
        [⟨.mint, token⟩] ++ [⟨.deployment, d⟩]) = .minted token clock d.isSharded := by
      simp only [Operation.phase_concat, hphase]
      rfl
    cases hd : d.isSharded with
    | true =>
      rw [hd] at hphase
      rw [if_pos rfl, Action.ensures_bind]
      exact (acquireSharded_lingering o _ ttl wait token hminted hphase).mono
        fun _ _ _ => hrecord ..
    | false =>
      rw [if_neg Bool.false_ne_true, Action.ensures_bind]
      exact (acquireSingle_lingering o _ ttl started token hminted).mono fun _ _ _ => hrecord ..
  · exact refresh_lingering o _ ttl token hlooked

/-- An acquisition waits before it has written its token, and then only for replicas. -/
theorem acquire_lingering :
    (m.acquire (X := X) ctx lock ttl wait).run.Obeys
      (Operation.acquire m ctx lock ttl wait).lingering [] fun _ _ => True := by
  unfold acquire
  by_cases hzero : ttl = 0
  · rw [if_pos hzero]
    trivial
  · rw [if_neg hzero]
    simp only [bind_pure_comp, Action.ensures_bind, Action.ensures_perform, Action.thenOk_ok,
      Discipline.interpretation_before, Operation.lingering_permits, Operation.lingering_next,
      Effect.Lingers, false_implies, Bool.forall_bool, Bool.false_eq_true, ↓reduceIte,
      ExceptT.run_bind_lift, Program.ensures_bind, true_and, ExceptT.run_map,
      Program.ensures_map, implies_true, and_true]
    intro (started : Nat)
    refine (attempt_lingering _ m ctx lock ttl (min wait ttl) started ?_ rfl).mono
      fun log r _ => ?_
    · simp [Exchange.IsWritten]
    · rcases r with e | outcome <;> exact fun _ _ => trivial

end Manager

/-! ## What an acquisition on its way has stored -/

theorem Operation.isLock_of_lock? (o : Operation) {lock : String} (h : o.lock? = some lock) :
    o.IsLock := by
  cases o with
  | acquire m ctx lock ttl wait => rfl
  | release m ctx lock => rfl
  | clear guard token => rfl
  | _ => cases h

/-- A thread in a call of an operation waits only for an effect that may take time. -/
def Thread.Rests : Thread X → Prop
  | .between _ => True
  | .inside _ _ t _ => t.wait.isSome → ∃ e k, t.program = .effect e k ∧ e.Lingers

/-- A token that is known to be written was written by a deed in the trace, and since then it lasts
for the lifetime that was asked for. -/
def Thread.Deposits (start : Nat) (tr : List Event) (w : World) : Thread X → Prop
  | .between _ => True
  | .inside o log _ _ => ∀ lock token since sharded, o.lock? = some lock →
    o.phase log = .written token since sharded → ∃ conn tr₁ tr₂,
      tr = tr₁ ++ .did o ⟨.call (.command conn (.set (lockKey lock) token o.ttl true)), .ok true⟩ ::
        tr₂ ∧
      w.Lasts lock token (start + elapsed tr₁ + o.ttl)

/-- An operation knows that its token is written since it wrote it, and only as long as it changes
neither keys nor the time. -/
theorem Deed.written_cases {w w' : World} {o : Operation} {s : Phase} {x : Exchange}
    {token : Token} {since : Nat} {sharded : Bool} {lock : String}
    (h : Deed w o s x w' (.written token since sharded)) (ho : o.lock? = some lock) :
    (s = .written token since sharded ∧ w'.now = w.now ∧
      w'.store.keyspace = w.store.keyspace) ∨
    ∃ conn, x = ⟨.call (.command conn (.set (lockKey lock) token o.ttl true)), .ok true⟩ ∧
      w'.Stores (lockKey lock) token (w'.now + o.ttl) := by
  generalize hs' : Phase.written token since sharded = s' at h
  cases h with
  | clock s =>
    cases s with
    | written token' since' sharded' =>
      by_cases hlt : w.now - since' < o.ttl
      · rw [Phase.afterClock_inTime token' sharded' hlt] at hs'
        cases hs'
      · rw [Phase.afterClock_late token' sharded' hlt] at hs'
        cases hs'
    | _ => cases hs'
  | deployment s =>
    cases s with
    | written token' since' sharded' =>
      cases hs'
      exact .inl ⟨rfl, rfl, rfl⟩
    | _ => cases hs'
  | @look p lock' ho' clock => cases hheld : w.heldBy p lock' <;> rw [hheld] at hs' <;> cases hs'
  | forget ho' s => exact .inl ⟨rfl, rfl, rfl⟩
  | dispose ho' s => exact .inl ⟨rfl, rfl, rfl⟩
  | @write lock' token' ho' conn clock sharded' ks b hks =>
    cases b with
    | true =>
      cases hs'
      obtain rfl : lock' = lock := Option.some.inj (ho'.symm.trans ho)
      have hfind := Keyspace.find?_of_set hks (lockKey lock')
      exact .inr ⟨conn, rfl, hfind.trans (if_pos ⟨rfl, rfl⟩)⟩
    | false => cases hs'
  | delete ho' conn hs hks =>
    rcases hs with ⟨rfl, -⟩ | ⟨since', sharded', rfl⟩ | ⟨sharded', rfl⟩ <;> cases hs'
  | @expire lock' token' ttl' ho' conn hpos ks b hks => cases b <;> cases hs'
  | other ha hplain => exact .inl ⟨rfl, ha.now, ha.keyspace⟩
  | _ => cases hs'

namespace Thread

variable {mode : Scheduling} {start : Nat} {tr : List Event} {own : Option Token} {w w' : World}
  {ev : Event} {th : Thread X} {th' : Option (Thread X)}

theorem Step.rests (h : th.Step w ev w' th') (hth : th.Rests) : ∀ t ∈ th', t.Rests := by
  rintro t ⟨⟩
  cases h with
  | call hs ho => exact fun hwait => nomatch hwait
  | work hs hx =>
    obtain ⟨k, -, -, -, rfl⟩ := Task.step_eq_moved hs hx
    exact fun hwait => nomatch hwait
  | await hs =>
    rcases Task.step_eq_waits hs with ⟨-, rfl, -⟩ | ⟨e, k, wait, hp, -, hwait, rfl⟩
    · exact hth
    · exact fun _ => ⟨e, k, hp, World.lingers_of_wait? hwait⟩
  | _ => trivial

/-- A token that is known to be written was minted for the owner of the operation. -/
theorem Lawful.minted {o : Operation} {log : List Exchange} {t : Task X o.Answer}
    {next : o.Answer → Client X Unit} {lock : String} {token : Token} {since : Nat} {sharded : Bool}
    (h : (inside o log t next).Lawful mode tr w) (ho : o.lock? = some lock)
    (hphase : o.phase log = .written token since sharded) :
    ∃ p, o.ActsFor p lock ∧ MintedFor tr p lock token := by
  obtain ⟨-, hfits⟩ := h (o.isLock_of_lock? ho)
  rw [hphase] at hfits
  exact hfits.1.mintedFor ho

/-- What was stored lasts while others are at work. -/
theorem Deposits.frame (h : th.Deposits start tr w) (hlawful : th.Lawful mode tr w)
    (hw : w.Lawful tr) (hkey : ∀ key, KeyChange tr own w ev w' key) (hnow : w.now ≤ w'.now)
    (hsecret : ∀ token, th.secret? = some token → own ≠ some token ∧ ¬ Recorded tr token) :
    th.Deposits start (tr ++ [ev]) w' := by
  cases th with
  | between t => trivial
  | inside o log t next =>
    intro lock token since sharded ho hphase
    obtain ⟨conn, tr₁, tr₂, rfl, hlasts⟩ := h lock token since sharded ho hphase
    obtain ⟨p, hp, hm⟩ := hlawful.minted ho hphase
    obtain ⟨hown, hrec⟩ := hsecret token (by simp [secret?, hp.1, hphase, Phase.secret?])
    exact ⟨conn, tr₁, tr₂ ++ [ev], by simp, hlasts.keyChange hw hm hkey hown hrec hnow⟩

/-- A step of a thread stores its token or leaves it alone. -/
theorem Step.deposits (h : th.Step w ev w' th') (hth : th.Deposits start tr w)
    (hlawful : th.Lawful mode tr w) (hnow : w.now = start + elapsed tr)
    (hw' : w'.Lawful (tr ++ [ev])) (hth' : ∀ t ∈ th', t.Lawful mode (tr ++ [ev]) w') :
    ∀ t ∈ th', t.Deposits start (tr ++ [ev]) w' := by
  rintro t ⟨⟩
  cases h with
  | @call t o next hs ho =>
    intro lock token since sharded _ hphase
    cases o <;> cases hphase
  | @work o log t t' next w' x hs hx =>
    intro lock token since sharded ho hphase
    have hlock := o.isLock_of_lock? ho
    obtain ⟨hafter, -⟩ := hlawful hlock
    obtain ⟨k, hp, -, hanswer, -⟩ := Task.step_eq_moved hs hx
    rw [hp] at hafter
    have hdeed : Deed w o (o.phase log) x w' (o.phase (log ++ [x])) := by
      rw [Operation.phase_concat]
      exact .of_answer ((o.obeys hlock).permits hafter) hanswer
    rw [hphase] at hdeed
    rcases hdeed.written_cases ho with ⟨hbefore, hnow', hkeyspace⟩ | ⟨conn, rfl, hst⟩
    · obtain ⟨conn, tr₁, tr₂, rfl, hlasts⟩ := hth lock token since sharded ho hbefore
      exact ⟨conn, tr₁, tr₂ ++ [.did o x], by simp, hlasts.alike hnow' hkeyspace⟩
    · obtain ⟨p, -, hm⟩ := (hth' _ rfl).minted ho hphase
      rw [hdeed.now_eq, hnow] at hst
      exact ⟨conn, tr, [], rfl, hst.lasts hw' hm⟩
  | await hs =>
    have ha := Task.alike_of_waits hs
    intro lock token since sharded ho hphase
    obtain ⟨conn, tr₁, tr₂, rfl, hlasts⟩ := hth lock token since sharded ho hphase
    exact ⟨conn, tr₁, tr₂ ++ [.silent], by simp, hlasts.alike ha.now ha.keyspace⟩
  | _ => trivial

end Thread

namespace Phase.Fits

variable {mode : Scheduling} {tr : List Event} {w : World} {o : Operation} {wait : Option Wait}
  {s : Phase} {token : Token}

/-- An operation that waits has not recorded the token that it has minted. -/
theorem secret_of_waits (h : s.Fits mode tr w o wait) (hwaits : wait.isSome)
    (hminted : s.minted? = some token) : s.secret? = some token := by
  cases s with
  | held token' =>
    obtain ⟨rfl, -⟩ := h
    cases hwaits
  | _ => exact hminted

/-- A secret token that is not stored is nowhere. -/
theorem nowhere (h : s.Fits mode tr w o wait) (hnot : ¬ s.IsStored)
    (hsecret : s.secret? = some token) (key : String) : ¬ w.Carries key token := by
  cases s with
  | fresh token' clock =>
    cases hsecret
    exact h.2.2 key
  | minted token' clock sharded =>
    cases hsecret
    exact h.2.2.1 key
  | void token' =>
    cases hsecret
    exact h.2 key
  | seeking clock => cases hsecret
  | owning token' => cases hsecret
  | held token' => cases hsecret
  | _ => exact absurd trivial hnot

end Phase.Fits

namespace Machine

variable {mode : Scheduling} {tr tr' : List Event} {s₀ s s' : Machine X} {ev : Event}

theorem rests_of_run (h₀ : s₀.Initial) (h : Run (LockStep mode) s₀ tr s) :
    ∀ th ∈ s.threads, th.Rests :=
  threads_of_run h₀ (P := fun _ _ th => th.Rests) (fun _ _ _ => trivial)
    (fun _ _ _ hwait => nomatch hwait)
    (fun _ _ _ _ hstep hth => hstep.rests hth _ rfl)
    (fun _ _ _ _ hth => hth) h

theorem deposits_of_run (h₀ : s₀.Initial) (h : Run (LockStep mode) s₀ tr s) :
    ∀ th ∈ s.threads, th.Deposits s₀.world.now tr s.world := by
  refine threads_of_run h₀ (fun _ _ _ => trivial) ?_ ?_ ?_ h
  · intro tr w d lock token since sharded ho hphase
    cases hphase
  · intro tr s ev s' th th' hr hs hmem hmem' hstep hth
    have hl := lawful_of_run h₀ hr
    have hl' := hl.step hs
    refine hstep.deposits hth (hl.threads th hmem) (now_of_run (hr.mono LockStep.step)) hl'.world
      ?_ th' rfl
    rintro _ ⟨⟩
    exact hl'.threads th' hmem'
  · intro tr s ev s' own th hr hturn hmem hother hth
    have hl := lawful_of_run h₀ hr
    refine hth.frame (hl.threads th hmem) hl.world hturn.key hturn.now fun token hsecret => ?_
    exact ⟨hother token hsecret, hl.hidden token (List.mem_filterMap.2 ⟨th, hmem, hsecret⟩)⟩

/-! ## Dropped acquisitions -/

/-- The machine after a thread was dropped; unless nothing is left to run them there are deletions
for its guarded sections. -/
def afterDrop (w : World) (pre post : List (Thread X)) (th : Thread X) (runtime : Bool) :
    Machine X :=
  ⟨th.drop w, pre ++ post ++
    if runtime then (Task.forsaken w th.guards).map Thread.deletion else []⟩

/-- Nobody else knows the secret of a thread that is dropped. -/
theorem Lawful.orphaned {w : World} {pre post : List (Thread X)} {th : Thread X} {token : Token}
    (h : Lawful mode tr ⟨w, pre ++ th :: post⟩) (runtime : Bool)
    (hsecret : th.secret? = some token) (hm : ∃ p lock, MintedFor tr p lock token) :
    (afterDrop w pre post th runtime).Orphaned
      (tr ++ [.dropped (Task.forsaken w th.guards)]) token := by
  obtain ⟨p, lock, hm⟩ := hm
  have hmem : th ∈ pre ++ th :: post := List.mem_append_right _ List.mem_cons_self
  refine ⟨⟨p, lock, hm.append _⟩, fun hrec => ?_, fun hknown => ?_⟩
  · have hdeed : ¬ Event.IsDeed (.dropped (Task.forsaken w th.guards)) :=
      Event.not_isDeed fun _ _ heq => nomatch heq
    exact h.hidden token (List.mem_filterMap.2 ⟨th, hmem, hsecret⟩)
      (World.recorded_of_not_isDeed hdeed hrec)
  · obtain ⟨t, ht, htsecret⟩ := List.mem_filterMap.1 hknown
    rcases List.mem_append.1 ht with ht | ht
    · exact (h.apart t ht token htsecret).1 hsecret
    · cases runtime with
      | true =>
        obtain ⟨d, -, rfl⟩ := List.mem_map.1 ht
        cases htsecret
      | false => cases ht

/-- What becomes of the token of an acquisition that is dropped where it waits, in every run of any
clients.

No registry ever lists it. If the store has not answered that the token was written, no key ever has
it. Else the store is sharded and the acquisition was waiting for replicas, and whatever happens
afterwards the key of the lock has the token for a whole lifetime since the write; other keys never
have it. -/
theorem dropped_acquisition_leaves_token {w : World} (pre post : List (Thread X)) {m : Manager}
    {ctx : Context} {lock : String} {ttl wait : Nat} {log : List Exchange}
    {t : Task X (Except Failure Bool)} {next : Except Failure Bool → Client X Unit} {token : Token}
    (runtime : Bool) (h₀ : s₀.Initial)
    (h : Run (LockStep mode) s₀ tr
      ⟨w, pre ++ .inside (.acquire m ctx lock ttl wait) log t next :: post⟩)
    (hwaits : t.wait.isSome) (hmint : (⟨.mint, token⟩ : Exchange) ∈ log)
    (h' : Run (LockStep mode)
      (afterDrop w pre post (.inside (.acquire m ctx lock ttl wait) log t next) runtime) tr' s) :
    (∀ p lock', s.world.heldBy p lock' ≠ some token) ∧
    (Unwritten log → ∀ key, ¬ s.world.Carries key token) ∧
    (¬ Unwritten log → s₀.world.store.deployment.isSharded = true ∧
      (∃ conn count k, 1 ≤ count ∧ count ≤ maxReplicaQuorum ∧
        t.program = .effect (.call (.command conn (.awaitReplicas count (min wait ttl)))) k) ∧
      ∃ conn tr₁ tr₂, tr = tr₁ ++ .did (.acquire m ctx lock ttl wait)
          ⟨.call (.command conn (.set (lockKey lock) token ttl true)), .ok true⟩ :: tr₂ ∧
        ∀ key, s.world.Carries key token ↔
          key = lockKey lock ∧ elapsed tr₂ + elapsed tr' < ttl) := by
  have hl := lawful_of_run h₀ h
  let th : Thread X := .inside (.acquire m ctx lock ttl wait) log t next
  have hmem : th ∈ pre ++ th :: post := List.mem_append_right _ List.mem_cons_self
  obtain ⟨hafter, hfits⟩ := hl.threads th hmem rfl
  have hminted := Operation.minted?_phase (o := .acquire m ctx lock ttl wait) rfl hafter hmint
  have hsecret : th.secret? = some token := hfits.secret_of_waits hwaits hminted
  obtain ⟨p, lock', hact, hm⟩ := hfits.owns hsecret
  obtain rfl : lock = lock' := Option.some.inj hact.2
  have horphan := hl.orphaned runtime hsecret ⟨p, lock, hm⟩
  have hl₁ := hl.drop runtime
  have hforgets := th.drop_forgets w
  refine ⟨fun q lock' hheld => ?_, ?_, ?_⟩
  · obtain ⟨-, hrec⟩ := (hl₁.run h').world.registry q lock' token hheld
    exact (horphan.run hl₁ h').hidden hrec
  · intro hunwritten
    have hnot : ¬ ((Operation.acquire m ctx lock ttl wait).phase log).IsStored :=
      Operation.not_isStored_of_unwritten id hunwritten
    refine horphan.nowhere hl₁ (fun key hc => ?_) h'
    have hbefore : w.Carries key token :=
      hc.earlier (congrArg (·.find? key) hforgets.keyspace) (Nat.le_of_eq hforgets.now.symm)
    exact hfits.nowhere hnot hsecret key hbefore
  · intro hwritten
    obtain ⟨e, k, hprogram, hlingers⟩ := rests_of_run h₀ h th hmem hwaits
    rw [hprogram] at hafter
    have hpermits := (m.acquire_lingering ctx lock ttl wait).permits hafter hlingers
    rw [Operation.lingering_run] at hpermits
    obtain ⟨⟨conn, count, timeout, rfl⟩, token', since, sharded, hphase⟩ :=
      hpermits.resolve_left hwritten
    obtain rfl : token' = token := by
      rw [hphase] at hminted
      exact Option.some.inj hminted
    have hterms := (m.acquire_keepsTerms ctx lock ttl wait).permits hafter
    obtain ⟨⟨hone, hquorum⟩, rfl⟩ := hterms
    refine ⟨?_, ⟨conn, count, k, hone, hquorum, hprogram⟩, ?_⟩
    · rw [← deployment_of_run h₀ h, ← Bool.not_eq_false]
      intro hsingle
      obtain ⟨hnone, -⟩ := (leaves_of_run h₀ h th hmem).2 hsingle hwritten
      rw [hnone] at hwaits
      cases hwaits
    · obtain ⟨conn', tr₁, tr₂, rfl, hlasts⟩ :=
        deposits_of_run h₀ h th hmem lock token' since sharded rfl hphase
      have hdropped := hlasts.alike hforgets.now hforgets.keyspace
      have hlasts' := horphan.lasts hl₁ (hm.append _) hdropped h'
      refine ⟨conn', tr₁, tr₂, rfl, fun key => ?_⟩
      rw [hlasts'.carries_iff (hl₁.run h').world ((hm.append _).append _)]
      have hnow : w.now = _ := now_of_run (h.mono LockStep.step)
      have hnow' : s.world.now = (th.drop w).now + elapsed tr' :=
        now_of_run (h'.mono LockStep.step)
      rw [hforgets.now, hnow, elapsed_append] at hnow'
      have helapsed : ∀ x : Exchange, elapsed (.did (.acquire m ctx lock ttl wait) x :: tr₂) =
          elapsed tr₂ := fun x => Nat.zero_add _
      rw [helapsed] at hnow'
      have hiff : s.world.now < s₀.world.now + elapsed tr₁ + ttl ↔
          elapsed tr₂ + elapsed tr' < ttl := by omega
      exact and_congr_right fun _ => hiff

/-- An acquisition for a second, of a lock on a sharded store whose replicas do not acknowledge, is
dropped while it waits for them. After 10 milliseconds the key still has its token, and nobody knows
it. -/
theorem dropped_acquisition_leaves_token_stalled :
    ∃ (w : World) (tr : List Event) (m : Manager) (wait : Nat) (log : List Exchange)
        (t : Task Extension.none (Except Failure Bool))
        (next : Except Failure Bool → Client Extension.none Unit) (s : Machine Extension.none),
      let th : Thread Extension.none := .inside (.acquire m "a" "L" 1000 wait) log t next
      Run (LockStep .cooperative) ⟨.ofStore { Memory.sharded 1 2 with stalled := true } 0, []⟩ tr
        ⟨w, [th]⟩ ∧
      t.wait.isSome ∧ (⟨.mint, Token.ofSerial 0⟩ : Exchange) ∈ log ∧ ¬ Unwritten log ∧
      Run (LockStep .cooperative) (afterDrop w [] [] th true) [.elapsed 10] s ∧
      s.world.Carries (lockKey "L") (Token.ofSerial 0) ∧
      ∀ p lock, s.world.heldBy p lock ≠ some (Token.ofSerial 0) := by
  let world : World := .ofStore { Memory.sharded 1 2 with stalled := true } 0
  let o : Operation := .acquire {} "a" "L" 1000 500
  let moves : List (Move .none) :=
    .start (Client.invoke o >>= fun _ => .done ()) :: List.replicate 12 (.go 0)
  have hplay : ((play .cooperative ⟨world, []⟩ moves).any fun r =>
      decide (∀ ev ∈ r.1, ¬ ev.IsForeign) && r.2.isInside o fun log t next =>
        let s := afterDrop r.2.world [] [] (.inside o log t next) true
        t.wait.isSome && log.any (·.replyTo? .mint == some (Token.ofSerial 0)) &&
          s.threads.isEmpty && (s.world.store.keyspace.live? (s.world.now + 10)
            (lockKey "L")).any (·.holds (Token.ofSerial 0))) = true := by
    decide +kernel
  obtain ⟨⟨tr, w, threads⟩, hr, hs⟩ := (Option.any_eq_true _ _).1 hplay
  obtain ⟨hforeign, hs⟩ := Bool.and_eq_true_iff.1 hs
  obtain ⟨log, t, next, rfl, hs⟩ := inside_of_isInside hs
  simp only [Bool.and_eq_true, List.any_eq_true, beq_iff_eq] at hs
  obtain ⟨⟨⟨hwaits, x, hmem, hx⟩, hnobody⟩, hc⟩ := hs
  obtain rfl := Exchange.eq_of_replyTo? hx
  have h₀ : (⟨world, []⟩ : Machine Extension.none).Initial := initial_ofStore rfl 0
  have hrun := lockRun_of_play hr (of_decide_eq_true hforeign)
  let th : Thread .none := .inside o log t next
  have hrest : ∀ t ∈ (afterDrop w [] [] th true).threads, t.Suspended := by
    rw [List.isEmpty_iff.1 hnobody]
    exact List.forall_mem_nil _
  have hlater : Run (LockStep .cooperative) (afterDrop w [] [] th true) [.elapsed 10] _ :=
    .single ⟨.elapse 10 hrest, fun hforeign => hforeign.elim⟩
  obtain ⟨hunlisted, hnowhere, -⟩ :=
    dropped_acquisition_leaves_token [] [] true h₀ hrun hwaits hmem hlater
  have hcarries := (Option.any_eq_true _ _).1 hc
  have hwritten : ¬ Unwritten log := fun hno => hnowhere hno _ hcarries
  exact ⟨w, tr, {}, 500, log, t, next, _, hrun, hwaits, hmem, hwritten, hlater, hcarries, hunlisted⟩

end Machine

end Latchkey
