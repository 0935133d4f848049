import Latchkey.Proofs.Clients
import Latchkey.Proofs.Ensures

/-!
# What calls count

A lock manager counts how each acquisition and each release ended. It does so at several exits, and
the caller gets its answer from elsewhere. Here both are compared by their verdict: that the lock
was granted or denied or that the attempt failed, that it was released or not.

When a call has counted its verdict all that it may still do is to give its connection back, so a
call that was given up on the way has counted nothing. The main statements are `Operation.tallies`,
which says so, and `CountersAgree.of_tally`, that the counters by their names agree with the answers
if the verdicts do.
-/

namespace Latchkey

variable {X : Extension} {ε α β : Type}

/-! ## Verdicts -/

/-- What became of a call, as far as it is counted. -/
inductive Verdict where
  /-- The lock is held now. -/
  | granted
  /-- The lock could not be had. -/
  | denied
  /-- An acquisition failed. -/
  | failed
  /-- The lock was held, and its key is gone. -/
  | released
  /-- There was nothing to release. -/
  | retained
  deriving Repr, DecidableEq

/-- The verdict in an event that is counted; filters have none. -/
def Measure.verdict? : Measure → Option Verdict
  | .acquire .error _ => some .failed
  | .acquire outcome _ => some (if outcome.isHeld then .granted else .denied)
  | .release outcome => some (if outcome.isSuccess then .released else .retained)
  | .filter _ => none

/-- The event that an effect counts. -/
def Effect.measure? : Effect → Option Measure
  | .count measure => some measure
  | _ => none

/-- The verdict that an effect counts. -/
def Effect.verdict? (e : Effect) : Option Verdict := e.measure?.bind Measure.verdict?

/-- A call with its answer. -/
structure Answered where
  /-- What was called. -/
  operation : Operation
  /-- What it answered. -/
  answer : operation.Answer

namespace Answered

/-- Whether a call was an acquisition with a lifetime. -/
def isAttempt : Answered → Bool
  | ⟨.acquire _ _ _ ttl _, _⟩ => decide (0 < ttl)
  | _ => false

/-- Whether a call was a release that did not fail. -/
def isRelease : Answered → Bool
  | ⟨.release .., .ok _⟩ => true
  | _ => false

/-- The verdict in an answer. An acquisition without a lifetime has none, nor has a release that
failed. -/
def verdict? : Answered → Option Verdict
  | ⟨.acquire _ _ _ ttl _, r⟩ =>
    if 0 < ttl then
      match r with
      | .ok true => some .granted
      | .ok false => some .denied
      | .error _ => some .failed
    else none
  | ⟨.release .., .ok b⟩ => some (if b then .released else .retained)
  | _ => none

end Answered

/-! ## Calls -/

/-- Effects are answered in any way. What was counted is kept, and nothing may be done after it but
to give connections back. -/
def tallying : Interpretation (Option Verdict) where
  before s e Q := (s = none ∨ ∃ conn, e = .release conn) ∧ ∀ r, Q (s.or e.verdict?) r
  outside := False
  mono h hQ := ⟨h.1, fun r => hQ _ _ (h.2 r)⟩

/-- An action counts nothing about locks, and its values are of a kind. -/
def Action.Uncounted (P : α → Prop) (x : Action X ε α) : Prop :=
  x.run.Ensures tallying none fun s r => s = none ∧ ∀ a, r = .ok a → P a

namespace Action.Uncounted

variable {P : α → Prop} {Q : β → Prop} {x : Action X ε α}

theorem pure {a : α} (h : P a) : (pure a : Action X ε α).Uncounted P :=
  ⟨rfl, fun _ heq => Except.ok.inj heq ▸ h⟩

theorem ite {c : Prop} [Decidable c] {y : Action X ε α} (hx : x.Uncounted P)
    (hy : y.Uncounted P) : (if c then x else y).Uncounted P := by
  by_cases h : c
  · rwa [if_pos h]
  · rwa [if_neg h]

theorem bind {f : α → Action X ε β} (hx : x.Uncounted P) (hf : ∀ a, P a → (f a).Uncounted Q) :
    (x >>= f).Uncounted Q := by
  refine Action.ensures_bind.2 (hx.mono fun s r h => ?_)
  obtain ⟨rfl, ha⟩ := h
  cases r with
  | error e => exact ⟨rfl, fun b heq => nomatch heq⟩
  | ok a => exact hf a (ha a rfl)

theorem throw (e : ε) : (throw e : Action X ε α).Uncounted P := ⟨rfl, fun _ heq => nomatch heq⟩

theorem perform {e : Effect} (he : e.verdict? = none) :
    (Action.perform e : Action X ε e.Reply).Uncounted fun _ => True :=
  ⟨.inl rfl, fun _ => ⟨he, fun _ _ => trivial⟩⟩

theorem registry (m : ManagerId) (a : RegistryAccess) :
    (Action.registry m a : Action X ε a.Answer).Uncounted fun _ => True :=
  perform rfl

theorem call (c : StoreCall) :
    (Action.call c : Action X StoreError c.Answer).Uncounted fun _ => True :=
  ⟨.inl rfl, fun _ => ⟨rfl, fun _ _ => trivial⟩⟩

theorem send (conn : Connection) (cmd : Command) :
    (Action.send conn cmd : Action X StoreError cmd.Answer).Uncounted fun _ => True :=
  call _

theorem connectionFor (key : String) :
    (Action.connectionFor key : Action X StoreError Connection).Uncounted fun _ => True :=
  (call _).bind fun _ _ => call _

theorem withConnection {borrow : Action X StoreError Connection}
    {use : Connection → Action X StoreError α} (hb : borrow.Uncounted fun _ => True)
    (hu : ∀ conn, (use conn).Uncounted P) : (Action.withConnection borrow use).Uncounted P := by
  refine Action.ensures_withConnection.2 (hb.mono fun s r h => ?_)
  obtain ⟨rfl, -⟩ := h
  cases r with
  | error e => exact ⟨rfl, fun a heq => nomatch heq⟩
  | ok conn =>
    refine (hu conn).mono fun s r h => ?_
    obtain ⟨rfl, ha⟩ := h
    exact ⟨.inl rfl, fun _ => ⟨rfl, ha⟩⟩

theorem orFail {x : Action X StoreError α} (hx : x.Uncounted P) : x.orFail.Uncounted P := by
  refine Action.ensures_orFail.2 (hx.mono fun s r h => ⟨h.1, fun a heq => ?_⟩)
  cases r with
  | error e => cases heq
  | ok b => exact h.2 a (congrArg Except.ok (Except.ok.inj heq))

/-! ### Locks -/

theorem refresh (key : String) (token : Token) (ttl : Nat) :
    (Manager.refresh (X := X) key token ttl).Uncounted (· ≠ .error) :=
  withConnection (connectionFor _) fun _ => (send ..).bind fun _ _ => ite (pure nofun) (pure nofun)

theorem acquireSingle (key : String) (token : Token) (ttl started : Nat) :
    (Manager.acquireSingle (X := X) key token ttl started).Uncounted (· ≠ .error) := by
  refine withConnection (connectionFor _) fun conn => (send ..).bind fun b _ =>
    ite ?_ (pure nofun)
  exact (perform rfl).bind fun now _ => ite (pure nofun) (pure nofun)

theorem awaitReplicas (conn : Connection) (node : NodeId) (wait : Nat) :
    (Manager.awaitReplicas (X := X) conn node wait).Uncounted fun _ => True :=
  (call _).bind fun _ _ => ite (pure trivial) ((send ..).bind fun _ _ => pure trivial)

theorem rollback (conn : Connection) (key : String) (token : Token) :
    (Manager.rollback (X := X) conn key token).Uncounted fun _ => True :=
  ⟨.inl rfl, fun _ => ⟨rfl, fun _ _ => trivial⟩⟩

theorem acquireSharded (key : String) (token : Token) (ttl wait : Nat) :
    (Manager.acquireSharded (X := X) key token ttl wait).Uncounted (· ≠ .error) := by
  refine (call _).bind fun node _ => withConnection (call _) fun conn =>
    (perform rfl).bind fun started _ => (send ..).bind fun b _ => ite ?_ (pure nofun)
  refine Action.ensures_bind.2 (Action.ensures_lift.2 ((awaitReplicas conn node wait).mono ?_))
  rintro s r ⟨rfl, -⟩
  have hback := rollback (X := X) conn key token
  cases r with
  | ok _ =>
    exact (perform rfl).bind fun now _ => ite (pure nofun) (hback.bind fun _ _ => pure nofun)
  | error e => exact hback.bind fun _ _ => throw e

theorem attempt (m : Manager) (ctx : Context) (lock : String) (ttl wait started : Nat) :
    (m.attempt (X := X) ctx lock ttl wait started).Uncounted (· ≠ .error) := by
  refine (registry m.id (.held ctx lock)).bind fun (token? : Option Token) _ => ?_
  cases token? with
  | some token => exact refresh (lockKey lock) token ttl
  | none =>
    refine (perform rfl).bind fun token _ => (perform rfl).bind fun d _ => ite ?_ ?_
    · exact (acquireSharded ..).bind fun _ hne => ite ((registry ..).bind fun _ _ => pure hne)
        (pure hne)
    · exact (acquireSingle ..).bind fun _ hne => ite ((registry ..).bind fun _ _ => pure hne)
        (pure hne)

theorem giveUp (conn : Connection) (key : String) (token : Token) :
    (Manager.giveUp (X := X) conn key token).Uncounted fun _ => True :=
  (send ..).bind fun _ _ =>
    ite (pure trivial) ((send ..).bind fun _ _ => ite (pure trivial) (pure trivial))

theorem releaseAbandoned (lock : String) (token : Token) :
    (Manager.releaseAbandoned (X := X) lock token).Uncounted fun _ => True :=
  withConnection (connectionFor _) fun _ => send ..

/-! ### Filters -/

theorem prepare (p : FilterPlan) : (p.prepare (X := X)).Uncounted fun _ => True := by
  refine withConnection (connectionFor _) fun conn => (send ..).bind fun b _ =>
    ite (pure trivial) ((send ..).bind fun old _ => ?_)
  cases p.expiration with
  | none => exact pure trivial
  | some ms => exact ite ((send ..).bind fun _ _ => pure trivial) (pure trivial)

theorem create (s : FilterSettings) :
    (FilterPlan.create (X := X) s).Uncounted fun _ => True := by
  unfold FilterPlan.create
  cases FilterPlan.ofSettings s with
  | error failure => exact throw failure
  | ok p => exact (orFail (prepare p)).bind fun _ _ => (perform rfl).bind fun _ _ => pure trivial

theorem setBits (conn : Connection) (key : String) (offsets : List Nat) :
    (FilterPlan.setBits (X := X) conn key offsets).Uncounted fun _ => True := by
  induction offsets with
  | nil => exact pure trivial
  | cons offset rest ih => exact (send ..).bind fun _ _ => ih

theorem allSet (conn : Connection) (key : String) (offsets : List Nat) :
    (FilterPlan.allSet (X := X) conn key offsets).Uncounted fun _ => True := by
  induction offsets with
  | nil => exact pure trivial
  | cons offset rest ih => exact (send ..).bind fun _ _ => ite ih (pure trivial)

theorem add (p : FilterPlan) (element : String) :
    (p.add (X := X) element).Uncounted fun _ => True :=
  (orFail (withConnection (connectionFor _) fun _ => setBits ..)).bind fun _ _ => perform rfl

theorem test (p : FilterPlan) (element : String) :
    (p.test (X := X) element).Uncounted fun _ => True :=
  (perform rfl).bind fun _ _ => orFail (withConnection (connectionFor _) fun _ => allSet ..)

end Action.Uncounted

/-! ### Verdicts of calls -/

namespace Manager

variable (m : Manager) (ctx : Context) (lock : String)

/-- An acquisition counts what its caller is told. -/
theorem acquire_tallies (ttl wait : Nat) :
    (m.acquire (X := X) ctx lock ttl wait).run.Ensures tallying none fun s r =>
      s = (Answered.mk (.acquire m ctx lock ttl wait) r).verdict? := by
  unfold acquire
  by_cases httl : ttl = 0
  · subst httl
    exact rfl
  · rw [if_neg httl]
    have hpos : 0 < ttl := Nat.pos_of_ne_zero httl
    refine Action.ensures_bind.2 ⟨.inl rfl, fun started => ?_⟩
    refine Action.ensures_bind.2 ⟨.inl rfl, fun closing => ?_⟩
    cases closing with
    | true => exact ⟨.inl rfl, fun _ => (if_pos hpos).symm⟩
    | false =>
      refine Action.ensures_bind.2 (Action.ensures_lift.2
        ((Action.Uncounted.attempt m ctx lock ttl (min wait ttl) started).mono fun s r h => ?_))
      obtain ⟨rfl, hne⟩ := h
      refine Action.ensures_bind.2 ⟨.inl rfl, fun ended => ?_⟩
      refine Action.ensures_bind.2 ⟨.inl rfl, fun _ => ?_⟩
      cases r with
      | error e => exact (if_pos hpos).symm
      | ok outcome =>
        cases outcome with
        | error => exact absurd rfl (hne _ rfl)
        | _ => exact (if_pos hpos).symm

/-- A release counts what its caller is told, unless it fails. -/
theorem release_tallies :
    (m.release (X := X) ctx lock).run.Ensures tallying none fun s r =>
      s = (Answered.mk (.release m ctx lock) r).verdict? := by
  refine Action.ensures_bind.2 ⟨.inl rfl, fun (token? : Option Token) => ?_⟩
  cases token? with
  | none => exact ⟨.inl rfl, fun _ => rfl⟩
  | some token =>
    refine Action.ensures_orFail.2 (Action.ensures_withConnection.2
      ((Action.Uncounted.connectionFor (lockKey lock)).mono ?_))
    rintro s r ⟨rfl, -⟩
    cases r with
    | error e => rfl
    | ok conn =>
      refine Action.ensures_bind.2 ((Action.Uncounted.giveUp conn (lockKey lock) token).mono ?_)
      rintro s r ⟨rfl, -⟩
      cases r with
      | error e => exact ⟨.inl rfl, fun _ => rfl⟩
      | ok outcome =>
        exact ⟨.inl rfl, fun _ => ⟨.inl rfl, fun _ => ⟨.inr ⟨conn, rfl⟩, fun _ => rfl⟩⟩⟩

end Manager

/-- A call counts its verdict, if it has one, and after that only gives its connection back. -/
theorem Operation.tallies (o : Operation) :
    (o.program (X := X)).Ensures tallying none fun s a => s = (Answered.mk o a).verdict? := by
  cases o with
  | acquire m ctx lock ttl wait => exact m.acquire_tallies ctx lock ttl wait
  | release m ctx lock => exact m.release_tallies ctx lock
  | dispose m ctx => exact ⟨.inl rfl, fun _ => rfl⟩
  | clear guard token =>
    exact (Action.Uncounted.releaseAbandoned guard.lock token).mono fun _ _ h => h.1
  | createFilter settings => exact (Action.Uncounted.create settings).mono fun _ _ h => h.1
  | addElement plan element => exact (Action.Uncounted.add plan element).mono fun _ _ h => h.1
  | testElement plan element => exact (Action.Uncounted.test plan element).mono fun _ _ h => h.1

/-! ## Counters -/

section Counting

variable {κ : Type} [BEq κ]

/-- How many of a list have a key. -/
def tally (f : α → κ) (as : List α) (k : κ) : Nat := as.countP fun a => f a == k

/-- How many of a list have one of several keys, key by key. -/
def total (f : α → κ) (as : List α) : List κ → Nat
  | [] => 0
  | k :: ks => tally f as k + total f as ks

/-- Nothing has two keys. -/
theorem total_eq_countP [LawfulBEq κ] (f : α → κ) (as : List α) {ks : List κ} (h : ks.Nodup) :
    total f as ks = as.countP fun a => ks.contains (f a) := by
  induction ks with
  | nil => simp [total]
  | cons k ks ih =>
    obtain ⟨hk, hks⟩ := List.nodup_cons.1 h
    have hfirst : ∀ a, ((k :: ks).contains (f a) && f a == k) = (f a == k) := by
      intro a
      by_cases heq : f a = k <;> simp [heq]
    have hrest : ∀ a, ((k :: ks).contains (f a) && !(f a == k)) = ks.contains (f a) := by
      intro a
      by_cases heq : f a = k <;> simp [heq, hk]
    have hsplit := List.countP_eq_countP_filter_add as (fun a => (k :: ks).contains (f a))
      fun a => f a == k
    simp only [List.countP_filter, hfirst, hrest] at hsplit
    rw [total, ih hks, hsplit, tally]

/-- Keys that are as good as other keys count as much. -/
theorem total_congr {κ' : Type} [BEq κ'] [LawfulBEq κ] [LawfulBEq κ'] {f : α → κ} {g : α → κ'}
    {ks : List κ} {ks' : List κ'} (hks : ks.Nodup) (hks' : ks'.Nodup)
    (h : ∀ a, ks.contains (f a) = ks'.contains (g a)) (as : List α) :
    total f as ks = total g as ks' := by
  rw [total_eq_countP f as hks, total_eq_countP g as hks']
  exact congrArg (as.countP ·) (funext h)

end Counting

/-- All outcomes of attempts. -/
def AcquireOutcome.all : List AcquireOutcome :=
  [.acquired, .refreshed, .refreshFailed, .contended, .timedOut, .closing, .error]

/-- All outcomes of releases. -/
def ReleaseOutcome.all : List ReleaseOutcome := [.notHeld, .released, .ownerMismatch, .expired]

/-- The name of the counter of an outcome. -/
def AcquireOutcome.counter (outcome : AcquireOutcome) : String :=
  (Measure.acquire outcome 0).counter

/-- The name of the counter of an outcome. -/
def ReleaseOutcome.counter (outcome : ReleaseOutcome) : String := (Measure.release outcome).counter

/-- The counters agree with the calls that were answered: with how many there were, and with their
answers. -/
structure CountersAgree (ms : List Measure) (calls : List Answered) : Prop where
  /-- Each attempt has one outcome. -/
  attempts : total Measure.counter ms (AcquireOutcome.all.map AcquireOutcome.counter) =
    calls.countP Answered.isAttempt
  /-- Each attempt has one duration. -/
  durations : (ms.filterMap Measure.duration?).length = calls.countP Answered.isAttempt
  /-- A lock is acquired or refreshed by those that are told so. -/
  granted : tally Measure.counter ms AcquireOutcome.acquired.counter +
    tally Measure.counter ms AcquireOutcome.refreshed.counter =
      tally Answered.verdict? calls (some .granted)
  /-- Errors are counted for those that fail. -/
  failed : tally Measure.counter ms AcquireOutcome.error.counter =
    tally Answered.verdict? calls (some .failed)
  /-- Each release that does not fail has one outcome. -/
  releases : total Measure.counter ms (ReleaseOutcome.all.map ReleaseOutcome.counter) =
    calls.countP Answered.isRelease
  /-- A lock is released, or its key has expired, for those that are told so. -/
  released : tally Measure.counter ms ReleaseOutcome.released.counter +
    tally Measure.counter ms ReleaseOutcome.expired.counter =
      tally Answered.verdict? calls (some .released)
  /-- For the others it was not held, or the key has another owner. -/
  retained : tally Measure.counter ms ReleaseOutcome.notHeld.counter +
    tally Measure.counter ms ReleaseOutcome.ownerMismatch.counter =
      tally Answered.verdict? calls (some .retained)

/-- One event of each kind. -/
def Measure.kinds : List Measure :=
  AcquireOutcome.all.map (.acquire · 0) ++ ReleaseOutcome.all.map .release ++
    [FilterOperation.create, .add, .test].map .filter

theorem Measure.exists_kind (m : Measure) :
    ∃ k ∈ kinds, k.counter = m.counter ∧ k.verdict? = m.verdict? := by
  match m with
  | .acquire outcome _ => cases outcome <;> exact ⟨.acquire _ 0, by decide, rfl, rfl⟩
  | .release outcome => cases outcome <;> exact ⟨_, by decide, rfl, rfl⟩
  | .filter operation => cases operation <;> exact ⟨_, by decide, rfl, rfl⟩

/-- Counters that stand for verdicts count as much as these. -/
theorem Measure.total_counter {names : List String} {vs : List (Option Verdict)}
    (hnames : names.Nodup) (hvs : vs.Nodup)
    (h : ∀ k ∈ kinds, names.contains k.counter = vs.contains k.verdict?) (ms : List Measure) :
    total counter ms names = total verdict? ms vs := by
  refine total_congr hnames hvs (fun m => ?_) ms
  obtain ⟨k, hk, hcounter, hverdict⟩ := m.exists_kind
  rw [← hcounter, ← hverdict]
  exact h k hk

/-- Attempts and releases are told by their verdicts. -/
theorem Answered.told_by_verdict (c : Answered) :
    c.isAttempt = [some Verdict.granted, some .denied, some .failed].contains c.verdict? ∧
      c.isRelease = [some Verdict.released, some .retained].contains c.verdict? := by
  obtain ⟨o, r⟩ := c
  cases o with
  | acquire m ctx lock ttl wait =>
    by_cases hpos : 0 < ttl
    · match r with
      | .ok true => simp [isAttempt, isRelease, verdict?, hpos]
      | .ok false => simp [isAttempt, isRelease, verdict?, hpos]
      | .error _ => simp [isAttempt, isRelease, verdict?, hpos]
    · simp [isAttempt, isRelease, verdict?, hpos]
  | release m ctx lock =>
    match r with
    | .ok true => exact ⟨rfl, rfl⟩
    | .ok false => exact ⟨rfl, rfl⟩
    | .error _ => exact ⟨rfl, rfl⟩
  | _ => exact ⟨rfl, rfl⟩

/-- Where there are as many events as calls with each verdict, the counters agree with the calls. -/
theorem CountersAgree.of_tally {ms : List Measure} {calls : List Answered}
    (h : ∀ v, tally Measure.verdict? ms (some v) = tally Answered.verdict? calls (some v)) :
    CountersAgree ms calls := by
  have htotal (vs : List Verdict) :
      total Measure.verdict? ms (vs.map some) = total Answered.verdict? calls (vs.map some) := by
    induction vs with
    | nil => rfl
    | cons v vs ih => rw [List.map_cons, total, total, h v, ih]
  have hcounters {names : List String} (vs : List Verdict) (hnames : names.Nodup)
      (hvs : (vs.map some).Nodup)
      (hkinds : ∀ k ∈ Measure.kinds, names.contains k.counter =
        (vs.map some).contains k.verdict?) :
      total Measure.counter ms names = total Answered.verdict? calls (vs.map some) :=
    (Measure.total_counter hnames hvs hkinds ms).trans (htotal vs)
  have hattempts : total Measure.counter ms (AcquireOutcome.all.map AcquireOutcome.counter) =
      calls.countP Answered.isAttempt := by
    rw [hcounters [.granted, .denied, .failed] (by decide) (by decide) (by decide),
      total_eq_countP _ _ (by decide)]
    exact congrArg (calls.countP ·) (funext fun c => c.told_by_verdict.1.symm)
  have hreleases : total Measure.counter ms (ReleaseOutcome.all.map ReleaseOutcome.counter) =
      calls.countP Answered.isRelease := by
    rw [hcounters [.released, .retained] (by decide) (by decide) (by decide),
      total_eq_countP _ _ (by decide)]
    exact congrArg (calls.countP ·) (funext fun c => c.told_by_verdict.2.symm)
  have hgranted := @hcounters [AcquireOutcome.acquired.counter, AcquireOutcome.refreshed.counter]
    [.granted] (by decide) (by decide) (by decide)
  have hfailed := @hcounters [AcquireOutcome.error.counter] [.failed] (by decide) (by decide)
    (by decide)
  have hreleased := @hcounters [ReleaseOutcome.released.counter, ReleaseOutcome.expired.counter]
    [.released] (by decide) (by decide) (by decide)
  have hretained := @hcounters
    [ReleaseOutcome.notHeld.counter, ReleaseOutcome.ownerMismatch.counter] [.retained]
    (by decide) (by decide) (by decide)
  refine ⟨hattempts, ?_, hgranted, hfailed, hreleases, hreleased, hretained⟩
  rw [List.length_filterMap_eq_countP, ← hattempts, total_eq_countP _ _ (by decide)]
  refine congrArg (ms.countP ·) (funext fun m => ?_)
  match m with
  | .acquire outcome _ => cases outcome <;> rfl
  | .release outcome => cases outcome <;> rfl
  | .filter operation => cases operation <;> rfl

end Latchkey
