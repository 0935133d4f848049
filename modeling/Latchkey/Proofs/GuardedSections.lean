import Latchkey.Proofs.HeldKeys

/-!
# Guarded sections that use their own lock

A lock is held by a context, not by a section. The body of a guarded section may acquire the lock
again or run guarded sections under it; that succeeds at once, and the end of such an inner section
gives the lock up for all. What is left of the outer body is not guarded.

The main statement is `guarded_until_given_up`.
-/

namespace Latchkey

variable {X : Extension}

/-! ## How long a hold lasts -/

namespace Machine

variable {mode : Scheduling} {tr tr' : List Event} {s s' : Machine X} {ev : Event} {p : Owner}
  {lock : String} {token : Token}

theorem LockStep.now_le (h : s.Lawful mode tr) (hs : s.LockStep mode ev s') :
    s.world.now ≤ s'.world.now := by
  by_cases hev : ∃ ms, ev = .elapsed ms
  · obtain ⟨ms, rfl⟩ := hev
    obtain ⟨hstep, -⟩ := hs
    cases hstep with
    | thread hm hth => cases hth
    | elapse => exact Nat.le_add_right _ _
  · exact Nat.le_of_eq (h.now_eq hs fun ms heq => hev ⟨ms, heq⟩).symm

namespace Lawful

theorem lost_step (h : s.Lawful mode tr) (hs : s.LockStep mode ev s') (hrec : Recorded tr token)
    (hlost : ¬ s.world.Carries (lockKey lock) token) :
    ¬ s'.world.Carries (lockKey lock) token := by
  intro hc
  obtain ⟨p, lock', hm⟩ := h.world.recorded token hrec
  obtain ⟨n, -, rfl⟩ := h.world.serial p lock' token hm
  obtain ⟨own, hk, hown⟩ := h.keyChange hs (lockKey lock)
  rcases hk.carries_before (hs.now_le h) hc with hc | hsome
  · exact hlost hc
  · exact hown _ hsome hrec

/-- A recorded token that a lock key has lost does not come back in a run. -/
theorem lost_run (h : s.Lawful mode tr) (hr : Run (LockStep mode) s tr' s')
    (hrec : Recorded tr token) (hlost : ¬ s.world.Carries (lockKey lock) token) :
    ¬ s'.world.Carries (lockKey lock) token := by
  induction hr with
  | nil => exact hlost
  | snoc hr hs ih => exact (h.run hr).lost_step hs (hrec.append _) ih

/-- A key whose deadline has passed has lost its token for good. -/
theorem lost_of_lapses (h : s.Lawful mode tr) (hrec : Recorded tr token)
    (hlapse : LapsesIn mode s tr' s' lock token) : ¬ s'.world.Carries (lockKey lock) token := by
  obtain ⟨tr₁, ms, tr₂, s₁, s₂, deadline, rfl, h₁, he, h₂, hst, -, hle⟩ := hlapse
  have hst' : s₂.world.Stores (lockKey lock) token deadline := by
    obtain ⟨hstep, -⟩ := he
    cases hstep with
    | thread hm hth => cases hth
    | elapse => exact hst
  have hl₂ := (h.run h₁).step he
  exact hl₂.lost_run h₂ ((hrec.append _).append _) (hst'.not_carries hle token)

theorem lost_of_givenUp (h : s.Lawful mode tr) (hr : Run (LockStep mode) s tr' s')
    (hrec : Recorded tr token) (hup : GivenUpBy tr' p lock token) :
    ¬ s'.world.Carries (lockKey lock) token := by
  obtain ⟨o, conn, ho, -, hmem⟩ := hup
  obtain ⟨tr₁, tr₂, rfl⟩ := List.append_of_mem hmem
  obtain ⟨s₁, s₂, h₁, hs, h₂⟩ := hr.split
  have hl₁ := h.run h₁
  obtain ⟨before, after, hdeed⟩ := hl₁.deed hs ho.isLock
  exact (hl₁.step hs).lost_run h₂ ((hrec.append _).append _)
    (World.not_carries_of_find? hdeed.gone_of_delete token)

/-- A recorded token stays under its lock key until its deadline passes or its owner gives the lock
up, and no longer. -/
theorem carries_iff (h : s.Lawful mode tr) (hr : Run (LockStep mode) s tr' s')
    (hm : MintedFor tr p lock token) (hrec : Recorded tr token)
    (hc : s.world.Carries (lockKey lock) token) :
    s'.world.Carries (lockKey lock) token ↔
      ¬ LapsesIn mode s tr' s' lock token ∧ ¬ GivenUpBy tr' p lock token := by
  constructor
  · intro hc'
    exact ⟨fun hlapse => h.lost_of_lapses hrec hlapse hc',
      fun hup => h.lost_of_givenUp hr hrec hup hc'⟩
  · rintro ⟨hlapse, hup⟩
    rcases h.carries_run hr hm hrec hc with hc' | hlapse' | hup'
    · exact hc'
    · exact absurd hlapse' hlapse
    · exact absurd hup' hup

end Lawful

end Machine

/-! ## Holding a lock again -/

namespace World

/-- A world that is ready and in which nobody waits for a connection. -/
structure Idle (w : World) : Prop extends w.Ready where
  waiting : w.store.pool.waiting = []

/-- Whether an owner holds a lock, or the lock is free. -/
inductive Hold (w : World) (p : Owner) (lock : String) : Bool → Prop where
  /-- The registry has the token, and so has the key. -/
  | held {token : Token} (hheld : w.heldBy p lock = some token)
      (hc : w.Carries (lockKey lock) token) : Hold w p lock true
  /-- The registry has no token, and the key has no value. -/
  | free (hnone : w.heldBy p lock = none)
      (hgone : w.store.keyspace.live? w.now (lockKey lock) = none) : Hold w p lock false

/-- A world to which an owner has brought another one by using a lock. -/
structure Turns (w : World) (p : Owner) (lock : String) (h : Bool) (w' : World) : Prop where
  idle : w'.Idle
  hold : w'.Hold p lock h
  others : ∀ q, q ≠ p → w'.heldBy q lock = w.heldBy q lock

variable {w w' w'' : World} {p q : Owner} {lock : String} {h h' : Bool} {ttl : Nat}

theorem Turns.trans (h₁ : w.Turns p lock h w') (h₂ : w'.Turns p lock h' w'') :
    w.Turns p lock h' w'' :=
  ⟨h₂.idle, h₂.hold, fun q hq => (h₂.others q hq).trans (h₁.others q hq)⟩

theorem Hold.counted (hh : w.Hold p lock h) (measure : Measure) :
    (w.counted measure).Hold p lock h := by
  cases hh with
  | held hheld hc => exact .held hheld hc
  | free hnone hgone => exact .free hnone hgone

theorem Idle.withLedger (hw : w.Idle) (l : Ledger) : (w.withLedger l).Idle :=
  ⟨⟨hw.closing, hw.unavailable, hw.latency, hw.stalled, hw.failing, hw.free⟩, hw.waiting⟩

theorem Turns.counted (ht : w.Turns p lock h w') (measure : Measure) :
    w.Turns p lock h (w'.counted measure) :=
  ⟨ht.idle.withLedger _, ht.hold.counted measure, ht.others⟩

/-- The pool is as before when a connection was lent and given back. -/
theorem Idle.served (hw : w.Idle) (ks : Keyspace) : (w.served ks).Idle := by
  have hpool : (w.served ks).store.pool = w.store.pool := served_pool hw.free hw.waiting ks
  refine ⟨⟨hw.closing, hw.unavailable, hw.latency, hw.stalled, hw.failing, ?_⟩, ?_⟩
  · exact Nat.lt_of_lt_of_eq hw.free (congrArg Pool.free hpool).symm
  · exact (congrArg Pool.waiting hpool).trans hw.waiting

theorem Idle.acquired (hw : w.Idle) (p : Owner) (lock : String) (ttl : Nat) :
    (w.acquired p lock ttl).1.Idle := by
  unfold World.acquired
  cases w.heldBy p lock with
  | some token => exact hw.served _
  | none =>
    have hw' := (hw.withLedger w.toLedger.mint.1).served
      (w.store.keyspace.set w.now (lockKey lock) (Token.ofSerial w.nextToken) ttl true).1
    dsimp only
    split
    · exact hw'.withLedger _
    · exact hw'

/-- An owner that holds a lock, or finds it free, holds it after an acquisition. -/
theorem acquired_own (hw : w.Idle) (hh : w.Hold p lock h) (hpos : 0 < ttl) :
    (w.acquired p lock ttl).2 = true ∧ w.Turns p lock true (w.acquired p lock ttl).1 := by
  have hidle := hw.acquired p lock ttl
  unfold World.acquired at hidle ⊢
  have hlater : w.now < w.now + ttl := Nat.lt_add_of_pos_right hpos
  cases hh with
  | @held token hheld hc =>
    have hb : (w.store.keyspace.compareAndExpire w.now (lockKey lock) token ttl).2 = true :=
      Keyspace.compareAndExpire_snd.2 hc
    have hst : (w.served
        (w.store.keyspace.compareAndExpire w.now (lockKey lock) token ttl).1).Stores
        (lockKey lock) token (w.now + ttl) :=
      (Keyspace.find?_of_compareAndExpire rfl _).trans (if_pos ⟨rfl, hb⟩)
    rw [hheld] at hidle ⊢
    exact ⟨hb, hidle, .held hheld (hst.carries hlater), fun q _ => rfl⟩
  | free hnone hgone =>
    have hb : (w.store.keyspace.set w.now (lockKey lock) (Token.ofSerial w.nextToken) ttl true).2 =
        true := Keyspace.set_snd.2 hgone
    have hst : (w.served (w.store.keyspace.set w.now (lockKey lock)
        (Token.ofSerial w.nextToken) ttl true).1).Stores
        (lockKey lock) (Token.ofSerial w.nextToken) (w.now + ttl) :=
      (Keyspace.find?_of_set rfl _).trans (if_pos ⟨rfl, hb⟩)
    have hc := hst.carries hlater
    rw [hnone] at hidle ⊢
    simp only [hb, if_true, true_and] at hidle ⊢
    refine ⟨hidle, .held ?_ hc, fun q hq => ?_⟩
    · exact (Ledger.heldBy_recordFor ..).trans (if_pos ⟨rfl, rfl⟩)
    · exact (Ledger.heldBy_recordFor ..).trans (if_neg fun heq => hq heq.1)

/-- An owner that has nothing acquires a lock exactly if it is free. -/
theorem acquired_other (hh : w.Hold p lock h) (hnone : w.heldBy q lock = none) :
    (w.acquired q lock ttl).2 = !h := by
  unfold World.acquired
  rw [hnone]
  cases hh with
  | held hheld hc =>
    obtain ⟨e, he, -⟩ := hc
    show (w.store.keyspace.set _ _ _ _ _).2 = false
    rw [Bool.eq_false_iff, ne_eq, Keyspace.set_snd, he]
    exact Option.some_ne_none e
  | free _ hgone => exact Keyspace.set_snd.2 hgone

theorem released_own (hw : w.Idle) (hh : w.Hold p lock h) :
    w.Turns p lock false (w.released p lock).1 := by
  unfold released
  cases hh with
  | @held token hheld hc =>
    have hb : (w.store.keyspace.compareAndDelete w.now (lockKey lock) token).2 = true :=
      Keyspace.compareAndDelete_snd.2 hc
    have hfind : (w.store.keyspace.compareAndDelete w.now (lockKey lock) token).1.find?
        (lockKey lock) = none :=
      (Keyspace.find?_of_compareAndDelete rfl _).trans (if_pos ⟨rfl, hb⟩)
    rw [hheld]
    refine ⟨(hw.served _).withLedger _, .free ?_ ?_, fun q hq => ?_⟩
    · exact (Ledger.heldBy_forgetFor ..).trans (if_pos ⟨rfl, rfl⟩)
    · exact congrArg (Option.filter _) hfind
    · exact (Ledger.heldBy_forgetFor ..).trans (if_neg fun heq => hq heq.1)
  | free hnone hgone =>
    rw [hnone]
    exact ⟨hw, .free hnone hgone, fun q _ => rfl⟩

end World

/-! ## Bodies -/

/-- The body of a guarded section that goes on using its lock, but does not release it. -/
inductive Body (ε α : Type) where
  /-- The body ends. -/
  | finish (f : Finish ε α)
  /-- It acquires the lock, and goes on with the answer. -/
  | acquire (ttl wait : Nat) (next : Except Failure Bool → Body ε α)
  /-- It runs a guarded section, and goes on with what became of it. -/
  | guarded (ttl : Nat) (throws : Bool) (inner : Body ε α) (next : Guarded ε α → Body ε α)

namespace Body

variable {ε α : Type}

/-- The program of a body. -/
def program (m : Manager) (ctx : Context) (lock : String) : Body ε α → Program X (Finish ε α)
  | finish f => .done f
  | acquire ttl wait next =>
    (m.acquire ctx lock ttl wait).run >>= fun r => (next r).program m ctx lock
  | guarded ttl throws inner next =>
    m.runGuarded ctx lock ttl throws (inner.program m ctx lock) >>= fun r =>
      (next r).program m ctx lock

/-- Whether the lock is held after a body, given whether it is before it, and how the body ends. An
acquisition holds the lock again; a guarded section leaves it free. -/
def outcome (lock : String) : Body ε α → Bool → Bool × Finish ε α
  | finish f, h => (h, f)
  | acquire ttl _ next, h => (next (.ok (decide (0 < ttl)))).outcome lock (h || decide (0 < ttl))
  | guarded ttl throws inner next, h =>
    if 0 < ttl then (next (.ran (inner.outcome lock true).2)).outcome lock false
    else (next (if throws then .refused (.contention lock) else .skipped)).outcome lock h

end Body

namespace Manager

open World

variable {w : World} {h : Bool} {lock : String} {ttl : Nat} {ε α : Type}

theorem acquire_own (hw : w.Idle) (m : Manager) (ctx : Context) (hh : w.Hold ⟨m.id, ctx⟩ lock h)
    (wait : Nat) (hpos : 0 < ttl) :
    (m.acquire (X := X) ctx lock ttl wait).run.Ensures World.alone w fun w' r =>
      r = .ok true ∧ w.Turns ⟨m.id, ctx⟩ lock true w' := by
  obtain ⟨hb, ht⟩ := acquired_own hw hh hpos
  refine (acquire_ready hw.toReady m ctx lock wait hpos).mono ?_
  rintro w' r ⟨⟨measure, rfl⟩, rfl⟩
  exact ⟨congrArg Except.ok hb, ht.counted measure⟩

/-- A lifetime of zero is refused at once. -/
theorem acquire_zero (m : Manager) (ctx : Context) (lock : String) (wait : Nat)
    {Q : World → Except Failure Bool → Prop} (hq : Q w (.ok false)) :
    (m.acquire (X := X) ctx lock 0 wait).run.Ensures World.alone w Q := hq

/-- A guarded section of an owner that holds the lock, or finds it free, is run under the lock, and
ends with a release. -/
theorem runGuarded_ready (hw : w.Idle) (m : Manager) (ctx : Context)
    (hh : w.Hold ⟨m.id, ctx⟩ lock h) (hpos : 0 < ttl) (throws : Bool)
    {body : Program X (Finish ε α)} {R : World → Finish ε α → Prop}
    (hbody : ∀ w₁, w.Turns ⟨m.id, ctx⟩ lock true w₁ →
      body.Ensures World.alone w₁ fun w₂ f => w₂.Ready ∧ R w₂ f) :
    (m.runGuarded ctx lock ttl throws body).Ensures World.alone w fun w' g =>
      ∃ w₂ f measure, R w₂ f ∧ g = .ran f ∧
        w' = (w₂.released ⟨m.id, ctx⟩ lock).1.counted measure := by
  unfold runGuarded
  rw [Program.ensures_bind]
  refine (acquire_own hw m ctx hh m.settings.replicationWait hpos).mono ?_
  rintro w₁ r ⟨rfl, h₁⟩
  rw [Program.ensures_bind]
  refine ⟨rfl, ?_⟩
  show (body >>= _).Ensures World.alone w₁ _
  rw [Program.ensures_bind]
  refine (hbody w₁ h₁).mono ?_
  rintro w₂ f ⟨h₂, hf⟩
  rw [Program.ensures_bind]
  refine (release_ready h₂ m ctx lock).mono ?_
  rintro w₃ r ⟨⟨measure, rfl⟩, rfl⟩
  exact ⟨rfl, w₂, f, measure, hf, rfl, rfl⟩

/-- A guarded section leaves the lock free, whatever its body makes of the lock. -/
theorem runGuarded_own (hw : w.Idle) (m : Manager) (ctx : Context)
    (hh : w.Hold ⟨m.id, ctx⟩ lock h) (hpos : 0 < ttl) (throws : Bool)
    {body : Program X (Finish ε α)} {R : Finish ε α → Prop}
    (hbody : ∀ w₁, w.Turns ⟨m.id, ctx⟩ lock true w₁ → body.Ensures World.alone w₁ fun w₂ f =>
      R f ∧ ∃ h', w₁.Turns ⟨m.id, ctx⟩ lock h' w₂) :
    (m.runGuarded ctx lock ttl throws body).Ensures World.alone w fun w' g =>
      (∃ f, g = .ran f ∧ R f) ∧ w.Turns ⟨m.id, ctx⟩ lock false w' := by
  refine (runGuarded_ready (R := fun w₂ f => R f ∧ ∃ h', w.Turns ⟨m.id, ctx⟩ lock h' w₂) hw m ctx
    hh hpos throws fun w₁ h₁ => (hbody w₁ h₁).mono ?_).mono ?_
  · rintro w₂ f ⟨hf, h', h₂⟩
    exact ⟨h₂.idle.toReady, hf, h', h₁.trans h₂⟩
  · rintro w' g ⟨w₂, f, measure, ⟨hf, h', h₂⟩, rfl, rfl⟩
    exact ⟨⟨f, rfl, hf⟩, h₂.trans ((released_own h₂.idle h₂.hold).counted measure)⟩

end Manager

/-- A body comes to its outcome. -/
theorem Body.program_ensures {ε α : Type} (m : Manager) (ctx : Context) (lock : String)
    (b : Body ε α) {w : World} {h : Bool} (hw : w.Idle) (hh : w.Hold ⟨m.id, ctx⟩ lock h) :
    (b.program (X := X) m ctx lock).Ensures World.alone w fun w' f =>
      f = (b.outcome lock h).2 ∧ w.Turns ⟨m.id, ctx⟩ lock (b.outcome lock h).1 w' := by
  -- every use of the lock leaves a world from which the rest of the body goes on
  induction b generalizing w h with
  | finish f => exact ⟨rfl, hw, hh, fun _ _ => rfl⟩
  | acquire ttl wait next ih =>
    rw [program, Program.ensures_bind, outcome]
    by_cases hpos : 0 < ttl
    · refine (m.acquire_own hw ctx hh wait hpos).mono ?_
      rintro w₁ r ⟨rfl, h₁⟩
      rw [decide_eq_true hpos, Bool.or_true]
      refine (ih (.ok true) h₁.idle h₁.hold).mono ?_
      rintro w₂ f ⟨hf, h₂⟩
      exact ⟨hf, h₁.trans h₂⟩
    · obtain rfl : ttl = 0 := Nat.eq_zero_of_not_pos hpos
      refine m.acquire_zero ctx lock wait ?_
      rw [decide_eq_false hpos, Bool.or_false]
      exact ih (.ok false) hw hh
  | guarded ttl throws inner next ihInner ih =>
    rw [program, Program.ensures_bind, outcome]
    by_cases hpos : 0 < ttl
    · rw [if_pos hpos]
      refine (m.runGuarded_own hw ctx hh hpos throws fun w₁ h₁ =>
        (ihInner h₁.idle h₁.hold).mono fun w₂ f ⟨hf, h₂⟩ => ⟨hf, _, h₂⟩).mono ?_
      rintro w₁ g ⟨⟨f, rfl, rfl⟩, h₁⟩
      refine (ih (.ran (inner.outcome lock true).2) h₁.idle h₁.hold).mono ?_
      rintro w₂ f ⟨hf, h₂⟩
      exact ⟨hf, h₁.trans h₂⟩
    · obtain rfl : ttl = 0 := Nat.eq_zero_of_not_pos hpos
      rw [if_neg hpos, Manager.runGuarded, Program.ensures_bind]
      refine m.acquire_zero ctx lock _ ?_
      cases throws with
      | true => exact ih (.refused (.contention lock)) hw hh
      | false => exact ih .skipped hw hh

/-- Another owner acquires the lock at the end of the body of a guarded section exactly if the lock
is not held any more. -/
theorem Manager.runGuarded_contended {ε α : Type} {w : World} (hw : w.Idle) (m m' : Manager)
    {ctx ctx' : Context} {lock : String} {h : Bool} (hh : w.Hold ⟨m.id, ctx⟩ lock h)
    (hne : (⟨m'.id, ctx'⟩ : Owner) ≠ ⟨m.id, ctx⟩) (hnone : w.heldBy ⟨m'.id, ctx'⟩ lock = none)
    {ttl ttl' : Nat} (hpos : 0 < ttl) (hpos' : 0 < ttl') (throws : Bool) (wait' : Nat)
    (b : Body ε α) :
    (m.runGuarded (X := X) ctx lock ttl throws do
      let _ ← b.program m ctx lock
      let r ← (m'.acquire ctx' lock ttl' wait').run
      return (Finish.value r : Finish ε _)).Ensures World.alone w fun _ g =>
        g = .ran (.value (.ok !(b.outcome lock true).1)) := by
  refine (m.runGuarded_ready (R := fun _ f => f = .value (.ok !(b.outcome lock true).1)) hw ctx hh
    hpos throws fun w₁ h₁ => ?_).mono ?_
  · rw [Program.ensures_bind]
    refine (b.program_ensures m ctx lock h₁.idle h₁.hold).mono ?_
    rintro w₂ f ⟨-, h₂⟩
    rw [Program.ensures_bind]
    have hnone₂ := (h₂.others _ hne).trans ((h₁.others _ hne).trans hnone)
    refine (m'.acquire_ready h₂.idle.toReady ctx' lock wait' hpos').mono ?_
    rintro w₃ r ⟨⟨measure, rfl⟩, rfl⟩
    rw [World.acquired_other h₂.hold hnone₂]
    exact ⟨((h₂.idle.acquired _ _ _).withLedger _).toReady, rfl⟩
  · rintro w' g ⟨w₂, f, measure, rfl, rfl, -⟩
    rfl

open Machine in
/-- How far a guarded section is guarded.

In every run the key of a lock that was acquired keeps its token until the deadline in force passes
or an operation of the owner that releases, such as the end of an inner guarded section, gives the
lock up, and no longer; while it does, no acquisition for another owner succeeds.

In a guarded section whose body goes on using the lock to any depth, but does not release it, an
acquisition for another owner succeeds exactly if the lock is not held after the body so far: inner
guarded sections have ended, and the lock was not acquired again. -/
theorem guarded_until_given_up :
    (∀ {mode : Scheduling} {s₀ s₁ s₂ s₃ : Machine X} {tr tr' : List Event} {m : Manager}
        {ctx : Context} {lock : String} {ttl wait : Nat} {log : List Exchange},
      s₀.Initial → Run (LockStep mode) s₀ tr s₁ →
      s₁.LockStep mode (.returned (.acquire m ctx lock ttl wait) log (.ok true)) s₂ →
      Run (LockStep mode) s₂ tr' s₃ →
      ∃ token, MintedFor tr ⟨m.id, ctx⟩ lock token ∧
        (s₂.world.Carries (lockKey lock) token ∨
          mode = .parallel ∧ DeletedBy tr ⟨m.id, ctx⟩ lock token) ∧
        (s₂.world.Carries (lockKey lock) token → (s₃.world.Carries (lockKey lock) token ↔
          ¬ LapsesIn mode s₂ tr' s₃ lock token ∧ ¬ GivenUpBy tr' ⟨m.id, ctx⟩ lock token)) ∧
        (s₃.world.Carries (lockKey lock) token →
          ∀ {s₄ : Machine X} {m' : Manager} {ctx' : Context} {ttl' wait' : Nat}
            {log' : List Exchange}, (⟨m'.id, ctx'⟩ : Owner) ≠ ⟨m.id, ctx⟩ →
          s₃.LockStep mode (.returned (.acquire m' ctx' lock ttl' wait') log' (.ok true)) s₄ →
          mode = .parallel ∧ ∃ token',
            (Operation.acquire m' ctx' lock ttl' wait').phase log' = .held token' ∧
            DeletedBy (tr ++ .returned (.acquire m ctx lock ttl wait) log (.ok true) :: tr')
              ⟨m'.id, ctx'⟩ lock token')) ∧
    (∀ {σ ε α : Type} {w : World} {h : Bool} (m m' : Manager) {ctx ctx' : Context}
        {lock : String} {ttl ttl' : Nat} (throws : Bool) (wait' : Nat) (b : Body ε α)
        (handle : World → σ → (op : X.Op) → World × σ × X.Reply op) (s : σ),
      w.Idle → w.Hold ⟨m.id, ctx⟩ lock h → (⟨m'.id, ctx'⟩ : Owner) ≠ ⟨m.id, ctx⟩ →
      w.heldBy ⟨m'.id, ctx'⟩ lock = none → 0 < ttl → 0 < ttl' →
      ∃ w', (m.runGuarded ctx lock ttl throws do
          let _ ← b.program m ctx lock
          let r ← (m'.acquire ctx' lock ttl' wait').run
          return (Finish.value r : Finish ε _)).run World.perform handle w s =
        (w', s, .ran (.value (.ok !(b.outcome lock true).1)))) := by
  constructor
  · intro mode s₀ s₁ s₂ s₃ tr tr' m ctx lock ttl wait log h₀ h₁ hg h₂
    have hl₁ := lawful_of_run h₀ h₁
    have hl₂ := hl₁.step hg
    have hl₃ := hl₂.run h₂
    obtain ⟨token, -, hm, hrec, hforce⟩ := hl₁.granted hg
    refine ⟨token, hm, hforce, hl₂.carries_iff h₂ (hm.append _) (hrec.append _), ?_⟩
    intro hc s₄ m' ctx' ttl' wait' log' hne hg'
    obtain ⟨token', hphase, hm', -, hforce'⟩ := hl₃.granted hg'
    rcases hforce' with hc' | ⟨hmode, hdel⟩
    · have hworld := (hl₃.returned hg' rfl).1
      obtain rfl := hc.unique (hworld ▸ hc')
      obtain ⟨hp, -⟩ := hl₃.world.unique _ _ _ _ _ hm' ((hm.append _).append _)
      exact absurd hp hne
    · exact ⟨hmode, token', hphase, by simpa using hdel⟩
  · intro σ ε α w h m m' ctx ctx' lock ttl ttl' throws wait' b handle s hw hh hne hnone hpos hpos'
    obtain ⟨w', g, hrun, rfl⟩ := (m.runGuarded_contended (X := X) hw m' hh hne hnone hpos
      hpos' throws wait' b).run_alone handle s
    exact ⟨w', hrun⟩

/-- On a fresh store a context acquires a lock, and the key has its token. If instead it runs a
guarded section, and in its body another one under the same lock, then what is left of the outer
body is not guarded: another context acquires the lock. -/
theorem guarded_until_inner_section :
    (∃ (s₁ s₂ : Machine Extension.none) (tr : List Event) (log : List Exchange) (token : Token),
      Run (Machine.LockStep .cooperative) ⟨World.fresh, []⟩ tr s₁ ∧
      s₁.LockStep .cooperative (.returned (.acquire {} "a" "L" 1000 0) log (.ok true)) s₂ ∧
      s₂.world.Carries (lockKey "L") token) ∧
    ((({} : Manager).runGuarded "a" "L" 1000 false do
      let _ ← ({} : Manager).runGuarded "a" "L" 1000 false (.done (.value () : Finish Unit Unit))
      let r ← (({} : Manager).acquire "b" "L" 1000 0).run
      return (Finish.value r : Finish Unit _)).runOn World.fresh).2 = .ran (.value (.ok true)) := by
  have hpos : 0 < 1000 := by decide
  have hgone : World.fresh.store.keyspace.live? World.fresh.now (lockKey "L") = none := rfl
  have hidle : World.fresh.Idle := ⟨World.fresh_ready, rfl⟩
  have hne : (⟨0, "b"⟩ : Owner) ≠ ⟨0, "a"⟩ := by decide
  let b : Body Unit Unit := .guarded 1000 false (.finish (.value ())) fun _ => .finish (.value ())
  constructor
  · obtain ⟨tr, w', a, s₁, s₂, ⟨rfl, -⟩, h₁, hg, -⟩ :=
      Machine.run_call (o := .acquire {} "a" "L" 1000 0) rfl trivial
        (Manager.acquire_ensures World.fresh_ready {} "a" 0 hpos hgone)
    obtain ⟨token, -, hc | ⟨hmode, -⟩, -⟩ :=
      guarded_until_given_up.1 (Machine.initial_ofStore rfl 0) h₁ hg .nil
    · exact ⟨s₁, s₂, tr, _, token, h₁, hg, hc⟩
    · cases hmode
  · obtain ⟨w', hrun⟩ := guarded_until_given_up.2 {} {} false 0 b
      (fun _ _ (op : Extension.none.Op) => Empty.elim op) () hidle (.free rfl hgone) hne rfl hpos
      hpos
    simp only [b, Body.program, Program.bind_assoc, Program.done_bind] at hrun
    exact congrArg (fun r => r.2.2) hrun

end Latchkey
