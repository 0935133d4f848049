import Latchkey.Proofs.ReadyStores

/-!
# Acquiring a free lock

Nothing stands in the way of an acquisition if the key of the lock has no value and the store works
without delay. It succeeds if the caller's registry has no entry for the lock. If it has one the
acquisition tries to refresh a value that is gone, and fails, however long the lock has been free.

The main statement is `acquire_free`.
-/

namespace Latchkey

variable {X : Extension}

/-- Where the key has no value a token is written, and none is refreshed. -/
theorem World.acquired_of_gone {w : World} (p : Owner) {lock : String} (ttl : Nat)
    (hgone : w.store.keyspace.live? w.now (lockKey lock) = none) :
    (w.acquired p lock ttl).2 = (w.heldBy p lock).isNone ∧
      ((w.heldBy p lock).isSome → (w.acquired p lock ttl).1.registries = w.registries) := by
  unfold acquired
  cases hheld : w.heldBy p lock with
  | none => exact ⟨Keyspace.set_snd.2 hgone, fun h => by cases h⟩
  | some token =>
    refine ⟨?_, fun _ => rfl⟩
    rw [Option.isNone_some, Bool.eq_false_iff, ne_eq, Keyspace.compareAndExpire_snd, hgone]
    rintro ⟨e, he, -⟩
    cases he

/-- An acquisition of a free lock is answered by whether the registry has no entry for it. -/
theorem Manager.acquire_ensures {w : World} (hr : w.Ready) (m : Manager) (ctx : Context)
    {lock : String} {ttl : Nat} (wait : Nat) (hpos : 0 < ttl)
    (hgone : w.store.keyspace.live? w.now (lockKey lock) = none) :
    (m.acquire (X := X) ctx lock ttl wait).run.Ensures World.alone w fun w' r =>
      r = .ok (w.heldBy ⟨m.id, ctx⟩ lock).isNone ∧
        ((w.heldBy ⟨m.id, ctx⟩ lock).isSome → w'.registries = w.registries) := by
  obtain ⟨hanswer, hkeep⟩ := World.acquired_of_gone ⟨m.id, ctx⟩ ttl hgone
  refine (acquire_ready hr m ctx lock wait hpos).mono ?_
  rintro w' r ⟨⟨measure, rfl⟩, rfl⟩
  exact ⟨congrArg Except.ok hanswer, hkeep⟩

/-- An acquisition of a lock whose key has no value, on a store that works without delay, succeeds
exactly if the registry of the manager has no entry for the context and the lock. If it has one the
acquisition fails and leaves the entry where it is. -/
theorem acquire_free {σ : Type} {w : World} (hr : w.Ready) (m : Manager) (ctx : Context)
    {lock : String} {ttl : Nat} (wait : Nat) (hpos : 0 < ttl)
    (hgone : w.store.keyspace.live? w.now (lockKey lock) = none)
    (handle : World → σ → (op : X.Op) → World × σ × X.Reply op) (s : σ) :
    ∃ w', (m.acquire ctx lock ttl wait).run.run World.perform handle w s =
        (w', s, .ok (w.heldBy ⟨m.id, ctx⟩ lock).isNone) ∧
      ((w.heldBy ⟨m.id, ctx⟩ lock).isSome → w'.registries = w.registries) := by
  obtain ⟨w', a, hrun, rfl, hkeep⟩ := (m.acquire_ensures hr ctx wait hpos hgone).run_alone handle s
  exact ⟨w', hrun, hkeep⟩

/-- A program without surroundings, run by itself. -/
def Program.runOn {α : Type} (p : Program .none α) (w : World) : World × α :=
  let r := p.run World.perform (fun _ _ op => Empty.elim op) w ()
  (r.1, r.2.2)

/-- A client that calls a lock operation that never waits, on a machine without others, leaves the
world that the operation leaves when it is run by itself. -/
theorem Machine.run_runOn {mode : Scheduling} {o : Operation} (ho : o.IsLock) (hc : o.IsCall)
    {w : World} {Q : World → o.Answer → Prop}
    (h : (o.program (X := .none)).Ensures World.alone w Q) :
    ∃ tr, Run (LockStep (X := .none) mode) ⟨w, []⟩ tr ⟨(o.program.runOn w).1, []⟩ := by
  obtain ⟨tr, w', a, s, s', ⟨hrun, -⟩, hcall, hreturn, hend⟩ :=
    @run_call .none mode o ho hc w _
      (h.exact (fun _ _ (op : Extension.none.Op) => Empty.elim op) ())
  have hworld : (o.program.runOn w).1 = w' := by
    rw [Program.runOn, hrun]
  rw [hworld]
  exact ⟨_, (hcall.snoc hreturn).append hend⟩

namespace World

/-- A fresh store, on which nobody holds anything. -/
def fresh : World := .ofStore .standalone 0

/-- The world in which a context has acquired a lock for 20 milliseconds, and they are over. -/
def lapsed : World := (((({} : Manager).acquire "a" "L" 20 0).run.runOn fresh).1).later 20

theorem fresh_ready : fresh.Ready := ⟨rfl, rfl, rfl, rfl, rfl, by decide⟩

theorem lapsed_ready : lapsed.Ready := by
  refine ⟨?_, ?_, ?_, ?_, ?_, ?_⟩ <;> decide +kernel

theorem lapsed_gone : lapsed.store.keyspace.live? lapsed.now (lockKey "L") = none := by
  decide +kernel

end World

/-- On a fresh store nobody holds the lock, so it can be taken. -/
theorem acquire_free_fresh :
    ∃ w', (({} : Manager).acquire "a" "L" 20 0).run.run World.perform
        (fun _ _ (op : Extension.none.Op) => Empty.elim op) World.fresh () =
      (w', (), .ok true) := by
  have hpos : 0 < 20 := by decide
  have hgone : World.fresh.store.keyspace.live? World.fresh.now (lockKey "L") = none := rfl
  obtain ⟨w', hrun, -⟩ := acquire_free World.fresh_ready {} "a" 0 hpos hgone
    (fun _ _ (op : Extension.none.Op) => Empty.elim op) ()
  exact ⟨w', hrun⟩

/-- A context whose hold has lapsed cannot acquire the lock again, though the key has no value and
nothing stands in the way. -/
theorem lapsed_not_reacquired :
    World.lapsed.Ready ∧
      World.lapsed.store.keyspace.live? World.lapsed.now (lockKey "L") = none ∧
      ((({} : Manager).acquire "a" "L" 20 0).run.runOn World.lapsed).2 = .ok false := by
  have hpos : 0 < 20 := by decide
  have hheld : (World.lapsed.heldBy ⟨0, "a"⟩ "L").isNone = false := by decide +kernel
  obtain ⟨w', a, hrun, rfl, -⟩ :=
    (Manager.acquire_ensures World.lapsed_ready {} "a" 0 hpos World.lapsed_gone).run_alone
      (fun _ _ (op : Extension.none.Op) => Empty.elim op) ()
  refine ⟨World.lapsed_ready, World.lapsed_gone, ?_⟩
  rw [Program.runOn, hrun]
  exact congrArg Except.ok hheld

end Latchkey
