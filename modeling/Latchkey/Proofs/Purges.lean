import Latchkey.Proofs.LiveValues
import Latchkey.Proofs.Solo
import Latchkey.Scenario.Bench

/-!
# Removing expired values

A store in memory is used by one effect after the other, by counting its keys and by asking for
keys. Expired values may be removed at any time, also while an effect waits, once or by the task
that does so periodically. Nobody who uses the store can tell: all answers, and the times at which
they come, are the same with and without such removals.

The main statement is `purges_unobservable`.
-/

namespace Latchkey

/-! ## Uses of a store -/

/-- A use of a store. -/
inductive StoreUse where
  /-- An effect, such as a command over a connection or a pause. -/
  | effect (e : Effect)
  /-- How many keys have a value? -/
  | count
  /-- Has no key a value? -/
  | isEmpty
  /-- Does the key have a value? -/
  | contains (key : String)

/-- What a use is answered. -/
abbrev StoreUse.Answer : StoreUse → Type
  | .effect e => e.Reply
  | .count => Nat
  | .isEmpty => Bool
  | .contains _ => Bool

/-- A removal of expired values. -/
structure Cleaning where
  /-- When it happens. -/
  time : Nat
  /-- It is a tick of the task that removes expired values periodically. -/
  isTick : Bool
  deriving Repr, DecidableEq

namespace World

/-- The world after the expired values were removed. -/
def purged (w : World) : World := { w with store := (w.store.purge w.now).1 }

/-- The world after a tick of the task that removes expired values; it ends with the store. -/
def ticked (w : World) : World := if w.store.closing then w else w.purged

/-- The world after expired values were removed, if they were. -/
def cleaned (w : World) (c : Cleaning) : World := if c.isTick then w.ticked else w.purged

/-- The world when a time has come, after the removals before; the time of a removal is moved to
between now and then. -/
def passUntil (w : World) (t : Nat) (cs : List Cleaning) : World :=
  (cs.foldl (fun w c => (w.atTime (min c.time t)).cleaned c) w).atTime t

/-- Answers an effect while nothing goes on but removals. -/
def performAmid (w : World) (cs : List Cleaning) (e : Effect) : World × e.Reply :=
  match w.wait? e with
  | none => (w.passUntil w.now cs).answer none e
  | some (w', wait) => (w'.passUntil wait.latest cs).answer (some wait) e

/-- Answers a use of the store, with removals before and while it waits. -/
def use (w : World) (cs : List Cleaning) : (u : StoreUse) → World × u.Answer
  | .effect e => w.performAmid cs e
  | .count =>
    let w := w.passUntil w.now cs
    (w, w.store.keyspace.count w.now)
  | .isEmpty =>
    let w := w.passUntil w.now cs
    (w, w.store.keyspace.count w.now == 0)
  | .contains key =>
    let w := w.passUntil w.now cs
    (w, w.store.keyspace.present w.now key)

/-- What several uses are answered, one after the other, each with the time of the answer. -/
def answers (w : World) : List (StoreUse × List Cleaning) → List ((u : StoreUse) × u.Answer × Nat)
  | [] => []
  | (u, cs) :: rest =>
    let r := w.use cs u
    ⟨u, r.2, r.1.now⟩ :: r.1.answers rest

end World

/-- A tick of the bench is one of the task that removes expired values, or nothing. -/
theorem Scenario.Bench.tick_world {ν : Type} (b : Scenario.Bench ν) :
    b.tick.world = b.world ∨ b.tick.world = b.world.ticked := by
  unfold Scenario.Bench.tick
  dsimp only
  split
  · right
    unfold World.ticked
    cases b.world.store.closing with
    | true => rfl
    | false => rfl
  · exact .inl rfl

/-! ## Worlds that look alike -/

namespace World

variable {w w' : World}

/-- Two worlds that differ at most in what is stored of values that are gone. -/
def Looks (w w' : World) : Prop :=
  ∃ ks, w' = w.withKeyspace ks ∧ w.store.keyspace.SameAt w.now ks

theorem Looks.now (h : w.Looks w') : w'.now = w.now := by
  obtain ⟨ks, rfl, -⟩ := h
  rfl

theorem cleaned_eq (w : World) (c : Cleaning) :
    ∃ ks, w.cleaned c = w.withKeyspace ks ∧ w.store.keyspace.SameAt w.now ks := by
  have hpurged : ∃ ks, w.purged = w.withKeyspace ks ∧ w.store.keyspace.SameAt w.now ks :=
    ⟨_, rfl, Keyspace.SameAt.purge w.now w.store.keyspace⟩
  have hsame : ∃ ks, w = w.withKeyspace ks ∧ w.store.keyspace.SameAt w.now ks :=
    ⟨_, rfl, Keyspace.SameAt.refl w.now w.store.keyspace⟩
  unfold cleaned ticked
  by_cases htick : c.isTick = true
  · rw [if_pos htick]
    by_cases hclosing : w.store.closing = true
    · rw [if_pos hclosing]
      exact hsame
    · rw [if_neg hclosing]
      exact hpurged
  · rw [if_neg htick]
    exact hpurged

/-- When a time has come, whatever was removed before, the world is as without removals but for what
is stored of values that are gone. -/
theorem passUntil_eq (w : World) (t : Nat) (cs : List Cleaning) :
    ∃ ks, w.passUntil t cs = (w.atTime t).withKeyspace ks ∧
      w.store.keyspace.SameAt (max w.now t) ks := by
  induction cs generalizing w with
  | nil => exact ⟨w.store.keyspace, rfl, Keyspace.SameAt.refl _ _⟩
  | cons c cs ih =>
    let w₁ := w.atTime (min c.time t)
    obtain ⟨ks₁, hclean, hsame₁⟩ := w₁.cleaned_eq c
    obtain ⟨ks₂, hrest, hsame₂⟩ := ih (w₁.withKeyspace ks₁)
    have htime : max (max w.now (min c.time t)) t = max w.now t := by omega
    refine ⟨ks₂, ?_, ?_⟩
    · have hstep : w.passUntil t (c :: cs) = (w₁.cleaned c).passUntil t cs := rfl
      rw [hstep, hclean, hrest]
      show ({ w with now := max (max w.now (min c.time t)) t } : World).withKeyspace ks₂ =
        ({ w with now := max w.now t } : World).withKeyspace ks₂
      rw [htime]
    · have hfirst : w.store.keyspace.SameAt (max w.now t) ks₁ := by
        have hle : w₁.now ≤ max w.now t := by
          show max w.now (min c.time t) ≤ max w.now t
          omega
        exact hsame₁.later hle
      have hnow : max (w₁.withKeyspace ks₁).now t = max w.now t := htime
      rw [hnow] at hsame₂
      exact hfirst.trans hsame₂

/-- Removals do not show when a time has come. -/
theorem Looks.passUntil (h : w.Looks w') (t : Nat) (cs cs' : List Cleaning) :
    (w.passUntil t cs).Looks (w'.passUntil t cs') := by
  obtain ⟨ks, rfl, hsame⟩ := h
  obtain ⟨ks₁, heq₁, hsame₁⟩ := w.passUntil_eq t cs
  obtain ⟨ks₂, heq₂, hsame₂⟩ := (w.withKeyspace ks).passUntil_eq t cs'
  have hlater : w.store.keyspace.SameAt (max w.now t) ks := hsame.later (Nat.le_max_left _ _)
  rw [heq₁, heq₂]
  exact ⟨ks₂, rfl, hsame₁.symm.trans (hlater.trans hsame₂)⟩

/-! ## Answers -/

/-- What an effect waits for has nothing to do with keys. -/
theorem wait?_withKeyspace (w : World) (ks : Keyspace) (e : Effect) :
    (w.withKeyspace ks).wait? e = (w.wait? e).map fun v => (v.1.withKeyspace ks, v.2) := by
  cases e with
  | sleep ms =>
    unfold wait?
    show _ = Option.map _ (ite _ _ _)
    rw [apply_ite (Option.map _)]
    rfl
  | call c =>
    cases c with
    | connect node =>
      unfold wait?
      show _ = Option.map _ (ite _ _ _)
      rw [apply_ite (Option.map _)]
      rfl
    | command conn cmd =>
      show ((w.commandWait? cmd).map fun wait => (w.withKeyspace ks, wait)) =
        ((w.commandWait? cmd).map fun wait => (w, wait)).map _
      rw [Option.map_map]
      rfl
    | nodeOwning key => rfl
    | replicaCount node => rfl
  | _ => rfl

theorem connect_withKeyspace (w : World) (ks : Keyspace) (node : NodeId) (waited : Option Wait) :
    (w.withKeyspace ks).connect node waited =
      ((w.connect node waited).1.withKeyspace ks, (w.connect node waited).2) := by
  have hdirect : ∀ waited, (∀ ticket deadline, waited ≠ some (.permit ticket deadline)) →
      (w.withKeyspace ks).connect node waited =
        ((w.connect node waited).1.withKeyspace ks, (w.connect node waited).2) := by
    intro waited hno
    have hrefusal : (w.withKeyspace ks).store.refusal? node = w.store.refusal? node := rfl
    have htake : (w.withKeyspace ks).store.pool.take? = w.store.pool.take? := rfl
    unfold connect
    split
    · exact absurd rfl (hno _ _)
    · rw [hrefusal, htake]
      cases w.store.refusal? node with
      | some e => rfl
      | none =>
        cases w.store.pool.take? with
        | some pool => rfl
        | none => rfl
  cases waited with
  | none => exact hdirect none nofun
  | some wait =>
    cases wait with
    | timer wake => exact hdirect _ nofun
    | permit ticket deadline =>
      unfold connect
      by_cases hgranted : w.store.pool.isGranted ticket = true
      · simp only [if_pos hgranted]
        exact if_pos hgranted
      · simp only [if_neg hgranted]
        exact if_neg hgranted

/-- The answer to a command depends on the values that are there. -/
theorem command_same {ks : Keyspace} (hsame : w.store.keyspace.SameAt w.now ks)
    (conn : Connection) (waited : Option Wait) (cmd : Command) :
    ((w.withKeyspace ks).command conn waited cmd).2 = (w.command conn waited cmd).2 ∧
      (w.command conn waited cmd).1.Looks ((w.withKeyspace ks).command conn waited cmd).1 := by
  cases cmd with
  | set key value ttl onlyIfAbsent =>
    obtain ⟨hanswer, hkeys⟩ := hsame.set key value ttl onlyIfAbsent
    exact ⟨congrArg Except.ok hanswer, _, rfl, hkeys⟩
  | compareAndDelete key expected =>
    obtain ⟨hanswer, hkeys⟩ := hsame.compareAndDelete key expected
    exact ⟨congrArg Except.ok hanswer, _, rfl, hkeys⟩
  | compareAndExpire key expected ttl =>
    obtain ⟨hanswer, hkeys⟩ := hsame.compareAndExpire key expected ttl
    exact ⟨congrArg Except.ok hanswer, _, rfl, hkeys⟩
  | present key => exact ⟨congrArg Except.ok (hsame.present key), ks, rfl, hsame⟩
  | getBit key offset => exact ⟨congrArg Except.ok (hsame.getBit key offset), ks, rfl, hsame⟩
  | setBit key offset bit =>
    obtain ⟨hanswer, hkeys⟩ := hsame.setBit key offset bit
    exact ⟨congrArg Except.ok hanswer, _, rfl, hkeys⟩
  | expire key ttl =>
    obtain ⟨hanswer, hkeys⟩ := hsame.expire key ttl
    exact ⟨congrArg Except.ok hanswer, _, rfl, hkeys⟩
  | remaining key => exact ⟨congrArg Except.ok (hsame.remaining key), ks, rfl, hsame⟩
  | awaitReplicas count timeout =>
    have hunchanged : ∀ w : World,
        (w.command conn waited (.awaitReplicas count timeout)).1 = w := by
      intro w
      unfold command
      split
      · rfl
      · split
        · rfl
        · split <;> rfl
    refine ⟨?_, ?_⟩
    · have hfailing : (w.withKeyspace ks).store.failing = w.store.failing := rfl
      have hstalled : (w.withKeyspace ks).store.stalled = w.store.stalled := rfl
      unfold command
      rw [hfailing, hstalled]
      split
      · rfl
      · split
        · rfl
        · split <;> rfl
    · rw [hunchanged, hunchanged]
      exact ⟨ks, rfl, hsame⟩

/-- The answer to an effect depends on the values that are there. -/
theorem Looks.answer (h : w.Looks w') (waited : Option Wait) (e : Effect) :
    (w'.answer waited e).2 = (w.answer waited e).2 ∧
      (w.answer waited e).1.Looks (w'.answer waited e).1 := by
  obtain ⟨ks, rfl, hsame⟩ := h
  cases e with
  | call c =>
    cases c with
    | nodeOwning key => exact ⟨rfl, ks, rfl, hsame⟩
    | replicaCount node => exact ⟨rfl, ks, rfl, hsame⟩
    | connect node =>
      have hconnect := w.connect_withKeyspace ks node waited
      have halike := w.connect_alike node waited
      show ((w.withKeyspace ks).connect node waited).2 = (w.connect node waited).2 ∧
        (w.connect node waited).1.Looks ((w.withKeyspace ks).connect node waited).1
      rw [hconnect]
      refine ⟨rfl, ks, rfl, ?_⟩
      show (w.connect node waited).1.store.keyspace.SameAt (w.connect node waited).1.now ks
      rw [halike.keyspace, halike.now]
      exact hsame
    | command conn cmd => exact command_same hsame conn waited cmd
  | registry m a => exact ⟨rfl, ks, rfl, hsame⟩
  | _ => exact ⟨rfl, ks, rfl, hsame⟩

theorem Looks.performAmid (h : w.Looks w') (cs cs' : List Cleaning) (e : Effect) :
    (w'.performAmid cs' e).2 = (w.performAmid cs e).2 ∧
      (w.performAmid cs e).1.Looks (w'.performAmid cs' e).1 := by
  unfold World.performAmid
  obtain ⟨ks, rfl, hsame⟩ := h
  rw [wait?_withKeyspace]
  cases hwait : w.wait? e with
  | none =>
    have hlooks : w.Looks (w.withKeyspace ks) := ⟨ks, rfl, hsame⟩
    exact (hlooks.passUntil w.now cs cs').answer none e
  | some v =>
    obtain ⟨w₁, wait⟩ := v
    have halike := wait?_alike hwait
    have hlooks : w₁.Looks (w₁.withKeyspace ks) := by
      refine ⟨ks, rfl, ?_⟩
      rw [halike.keyspace, halike.now]
      exact hsame
    exact (hlooks.passUntil wait.latest cs cs').answer (some wait) e

theorem Looks.use (h : w.Looks w') (cs cs' : List Cleaning) (u : StoreUse) :
    (w'.use cs' u).2 = (w.use cs u).2 ∧ (w.use cs u).1.Looks (w'.use cs' u).1 := by
  have hlooks : (w.passUntil w.now cs).Looks (w'.passUntil w'.now cs') := by
    rw [h.now]
    exact h.passUntil w.now cs cs'
  have hnow := hlooks.now
  obtain ⟨ks, heq, hsame⟩ := id hlooks
  cases u with
  | effect e => exact h.performAmid cs cs' e
  | count =>
    refine ⟨?_, hlooks⟩
    show (w'.passUntil w'.now cs').store.keyspace.count (w'.passUntil w'.now cs').now = _
    rw [hnow, heq]
    exact hsame.count
  | isEmpty =>
    refine ⟨?_, hlooks⟩
    show ((w'.passUntil w'.now cs').store.keyspace.count (w'.passUntil w'.now cs').now == 0) = _
    rw [hnow, heq]
    exact congrArg (· == 0) hsame.count
  | contains key =>
    refine ⟨?_, hlooks⟩
    show (w'.passUntil w'.now cs').store.keyspace.present (w'.passUntil w'.now cs').now key = _
    rw [hnow, heq]
    exact hsame.present key

/-- Worlds that look alike answer alike, whenever expired values are removed from either. -/
theorem Looks.answers (h : w.Looks w') (uses : List (StoreUse × List Cleaning × List Cleaning)) :
    w'.answers (uses.map fun u => (u.1, u.2.2)) = w.answers (uses.map fun u => (u.1, u.2.1)) := by
  induction uses generalizing w w' with
  | nil => rfl
  | cons first rest ih =>
    obtain ⟨u, cs, cs'⟩ := first
    obtain ⟨hanswer, hlooks⟩ := h.use cs cs' u
    have hrest := ih hlooks
    simp only [List.map_cons, World.answers, hrest, hanswer, hlooks.now]

end World

/-- Nobody who uses a store in memory can tell whether expired values are removed from it.

Let a store be used in any way, and expired values be removed before and during the uses, at any
times, by hand or by ticks of the task that does so. Every use is answered as without any removal,
and at the same time. And a key whose value is gone is to all uses as one that is not stored. -/
theorem purges_unobservable (w : World) (uses : List (StoreUse × List Cleaning)) :
    w.answers uses = w.answers (uses.map fun u => (u.1, [])) ∧
      ∀ key, w.store.keyspace.live? w.now key = none →
        (w.withKeyspace (w.store.keyspace.erase key)).answers uses = w.answers uses := by
  constructor
  · have hsame : w.Looks w := ⟨w.store.keyspace, rfl, .refl _ _⟩
    have h := hsame.answers (uses.map fun u => (u.1, [], u.2))
    simpa [Function.comp_def] using h
  · intro key hgone
    have herased : w.Looks (w.withKeyspace (w.store.keyspace.erase key)) :=
      ⟨_, rfl, .erase_gone hgone⟩
    have h := herased.answers (uses.map fun u => (u.1, u.2, u.2))
    simpa [Function.comp_def] using h

/-- A store with slow writes, on which a value of two bytes is gone but still stored. -/
def World.stale : World :=
  { World.ofStore { Memory.standalone with
      keyspace := Table.insert ∅ "k" ⟨#[0xff, 0xff], some 5⟩, latency := 3 } 0 with now := 10 }

/-- Bits written to and read from a key whose old value is gone, with a purge and two ticks. -/
def bitsAmidCleanings : List (StoreUse × List Cleaning) :=
  let conn : Connection := ⟨0, Memory.nodeName 0⟩
  [(.effect (.call (.command conn (.setBit "k" 9 true))), [⟨12, true⟩, ⟨13, false⟩]),
    (.effect (.call (.command conn (.getBit "k" 0))), []),
    (.effect (.call (.command conn (.expire "k" 4))), [⟨0, true⟩]),
    (.effect (.sleep 4), [⟨16, false⟩, ⟨17, true⟩]), (.isEmpty, [⟨17, false⟩])]

/-- The bits of the old value do not come back, with or without the removals. -/
theorem purges_unobservable_stale :
    World.stale.store.keyspace.live? World.stale.now "k" = none ∧
      (World.stale.withKeyspace (World.stale.store.keyspace.erase "k")).answers bitsAmidCleanings =
        World.stale.answers bitsAmidCleanings := by
  have hgone : World.stale.store.keyspace.live? World.stale.now "k" = none := by decide
  exact ⟨hgone, (purges_unobservable World.stale bitsAmidCleanings).2 "k" hgone⟩

end Latchkey
