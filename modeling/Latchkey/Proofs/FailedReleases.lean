import Latchkey.Proofs.Entries
import Latchkey.Proofs.FreeLock
import Latchkey.Proofs.Releases
import Latchkey.Proofs.Schedules

/-!
# Sections whose release fails

A guarded section releases its lock however it ends, and what comes of that is not looked at. If a
call of the release fails, the entry stays in the registry while nobody is left to release it. The
key lapses, and the context that once had the lock is the only one that cannot acquire it again.

The main statement is `failed_release_leaves_entry`.
-/

namespace Latchkey

variable {X : Extension} {p : Owner} {lock : String} {found : Option Token}

/-! ## Entries and releases -/

theorem Effect.Writes.isRegistry {e : Effect} (h : e.Writes p lock) : e.IsRegistry := by
  cases e with
  | registry m a => trivial
  | _ => exact h

namespace ReleaseCall

variable {m : Manager} {ctx : Context} {log part : List Exchange} {r : Except Failure Bool}

/-- A release begins with a look at the entry. -/
theorem exists_look (h : ReleaseCall m ctx lock log r) :
    ∃ found part, log = ⟨.registry m.id (.held ctx lock), found⟩ :: part := by
  cases h with
  | notHeld => exact ⟨_, _, rfl⟩
  | failed h => exact ⟨_, _, rfl⟩
  | ended h hlent removed => exact ⟨_, _, rfl⟩

/-- A release writes the entry only by forgetting the lock, and only if it does not fail. -/
theorem forgets (h : ReleaseCall m ctx lock log r) {x : Exchange} (hmem : x ∈ log)
    (hwrites : x.effect.Writes p lock) :
    r.toOption ≠ none ∧ x.effect = .registry m.id (.forget ctx lock) := by
  cases h with
  | notHeld =>
    simp only [List.mem_cons, List.not_mem_nil, or_false] at hmem
    rcases hmem with rfl | rfl <;> exact hwrites.elim
  | failed h =>
    rcases List.mem_cons.1 hmem with rfl | hmem
    · exact hwrites.elim
    · exact absurd hwrites.isRegistry (h.not_isRegistry hmem)
  | ended h hlent removed =>
    simp only [List.mem_cons, List.mem_append, List.not_mem_nil, or_false] at hmem
    rcases hmem with rfl | hmem | rfl | rfl | rfl
    · exact hwrites.elim
    · exact absurd hwrites.isRegistry (h.not_isRegistry hmem)
    · exact ⟨nofun, rfl⟩
    · exact hwrites.elim
    · exact hwrites.elim

/-- A release fails exactly if there was an entry and a call of the store failed. -/
theorem fails_iff
    (h : ReleaseCall m ctx lock (⟨.registry m.id (.held ctx lock), found⟩ :: part) r) :
    r.toOption = none ↔ found.isSome ∧ ∃ x ∈ part, x.Fails := by
  cases h with
  | notHeld => exact ⟨fun hnone => (nomatch hnone), fun ⟨hsome, _⟩ => (nomatch hsome)⟩
  | @failed token part e h => exact ⟨fun _ => ⟨rfl, h.fails_iff.1 ⟨e, rfl⟩⟩, fun _ => rfl⟩
  | ended h hlent removed =>
    refine ⟨fun hnone => (nomatch hnone), ?_⟩
    rintro ⟨-, x, hmem, hx⟩
    simp only [List.mem_append, List.mem_cons, List.not_mem_nil, or_false] at hmem
    rcases hmem with hmem | rfl | rfl | rfl
    · obtain ⟨e, he⟩ := h.fails_iff.2 ⟨x, hmem, hx⟩
      cases he
    · exact hx.elim
    · exact hx.elim
    · exact hx.elim

/-- A release that fails leaves the entry that it found, and one that does not fail leaves none, as
long as nobody else writes the entry after the look. -/
theorem entryAfter_eq {tr : List Event}
    (h : ReleaseCall m ctx lock (⟨.registry m.id (.held ctx lock), found⟩ :: part) r)
    (hpart : (part.map (Event.did (.release m ctx lock))).Sublist tr)
    (hquiet : ∀ ev ∈ tr, ev.WritesEntry ⟨m.id, ctx⟩ lock →
      ∃ x ∈ part, ev = .did (.release m ctx lock) x) :
    entryAfter ⟨m.id, ctx⟩ lock found tr = if r.toOption = none then found else none := by
  have hwrites : ∀ ev ∈ tr, ev.WritesEntry ⟨m.id, ctx⟩ lock → r.toOption ≠ none ∧
      ∀ entry, ev.entryAfter ⟨m.id, ctx⟩ lock entry = none := by
    intro ev hmem hev
    obtain ⟨x, hx, rfl⟩ := hquiet ev hmem hev
    obtain ⟨hok, hforget⟩ := h.forgets (List.mem_cons_of_mem _ hx) hev
    refine ⟨hok, fun entry => ?_⟩
    show x.effect.entryAfter _ _ _ = none
    rw [hforget]
    exact if_pos ⟨rfl, rfl⟩
  by_cases hfailed : r.toOption = none
  · rw [if_pos hfailed]
    exact entryAfter_of_not_writes fun ev hmem hev => (hwrites ev hmem hev).1 hfailed
  · rw [if_neg hfailed]
    refine entryAfter_eq_none (fun ev hmem hev => (hwrites ev hmem hev).2) ?_
    cases h with
    | notHeld => exact .inl rfl
    | failed h => exact absurd rfl hfailed
    | @ended token part outcome node conn h hlent removed =>
      have hforget : (⟨.registry m.id (.forget ctx lock), removed⟩ : Exchange) ∈ part ++
          [⟨.registry m.id (.forget ctx lock), removed⟩, ⟨.count (.release outcome), ()⟩,
            ⟨.release conn, ()⟩] := by
        simp
      exact .inr ⟨_, hpart.subset (List.mem_map_of_mem hforget), ⟨rfl, rfl⟩⟩

end ReleaseCall

/-! ## Guarded sections -/

/-- What a guarded section leaves in the registry when it has ended.

A section that was run, for whatever body and whatever the store answers, ends with a release, of
which nothing is looked at, and then the guard is taken off.

Let a release return in a run of any clients on any store. It fails exactly if it found an entry and
then a call of the store failed. If nobody else has written the entry since it looked, the entry is
there as it was found if the release has failed, and else there is none. Whoever then acquires the
lock for the context, with the value of the key gone and nothing in the way, succeeds exactly if no
entry stayed; an entry that stayed is not removed by such an acquisition, so that it keeps the
context from the lock for good. -/
theorem failed_release_leaves_entry {ε α σ : Type} (m : Manager) (ctx : Context) (lock : String)
    (ttl : Nat) (throws : Bool) (body : Program X (Finish ε α)) :
    (∀ log f, (m.runGuarded ctx lock ttl throws body).After log (.done (.ran f)) ↔
      ∃ log₁ log₂ log₃ r,
        log = log₁ ++ ⟨.arm ⟨m.id, ctx, lock⟩, ()⟩ :: (log₂ ++ (log₃ ++ [⟨.disarm, ()⟩])) ∧
        (m.acquire (X := X) ctx lock ttl m.settings.replicationWait).run.After log₁
          (.done (.ok true)) ∧
        body.After log₂ (.done f) ∧ (m.release (X := X) ctx lock).run.After log₃ (.done r)) ∧
    ∀ {mode : Scheduling} {s₀ s s' : Machine X} {tr : List Event} {log : List Exchange}
        {r : Except Failure Bool}, s₀.threads = [] → Run (Machine.Step mode) s₀ tr s →
        s.Step mode (.returned (.release m ctx lock) log r) s' →
      ∃ found part tr₁ tr₂, log = ⟨.registry m.id (.held ctx lock), found⟩ :: part ∧
        tr = tr₁ ++ .did (.release m ctx lock) ⟨.registry m.id (.held ctx lock), found⟩ :: tr₂ ∧
        (r.toOption = none ↔ found.isSome ∧ ∃ x ∈ part, x.Fails) ∧
        ((∀ ev ∈ tr₂, ev.WritesEntry ⟨m.id, ctx⟩ lock →
            ∃ x ∈ part, ev = .did (.release m ctx lock) x) →
          s'.world.heldBy ⟨m.id, ctx⟩ lock = if r.toOption = none then found else none) ∧
        ∀ {w : World} {ttl' : Nat} (wait : Nat)
          (handle : World → σ → (op : X.Op) → World × σ × X.Reply op) (z : σ),
          w.Ready → w.heldBy ⟨m.id, ctx⟩ lock = s'.world.heldBy ⟨m.id, ctx⟩ lock → 0 < ttl' →
          w.store.keyspace.live? w.now (lockKey lock) = none →
          ∃ w', (m.acquire ctx lock ttl' wait).run.run World.perform handle w z =
              (w', z, .ok (s'.world.heldBy ⟨m.id, ctx⟩ lock).isNone) ∧
            ((s'.world.heldBy ⟨m.id, ctx⟩ lock).isSome →
              w'.heldBy ⟨m.id, ctx⟩ lock = s'.world.heldBy ⟨m.id, ctx⟩ lock) := by
  constructor
  · intro log f
    rw [m.runGuarded_after_iff]
    constructor
    · intro h
      generalize hg : Guarded.ran f = g at h
      cases h with
      | refused h => cases hg
      | contended h => cases throws <;> cases hg
      | ran h₁ h₂ h₃ =>
        cases hg
        exact ⟨_, _, _, _, rfl, h₁, h₂, h₃⟩
    · rintro ⟨log₁, log₂, log₃, r, rfl, h₁, h₂, h₃⟩
      exact .ran h₁ h₂ h₃
  · intro mode s₀ s s' tr log r h₀ h hs
    obtain ⟨hafter, -⟩ := (Machine.logged_of_run h₀ h).returned hs
    have hcall := m.release_after ctx lock hafter
    obtain ⟨found, part, rfl⟩ := hcall.exists_look
    have hentry := hs.heldBy ⟨m.id, ctx⟩ lock
    cases hs with
    | @thread w w' pre post th th' ev hm hth =>
      cases hth with
      | @«return» _ _ t next _ hfin =>
        have hordered := Machine.ordered_of_run h₀ h _ (List.mem_append_right _ List.mem_cons_self)
        obtain ⟨tr₁, tr₂, rfl, hpart⟩ := hordered.split
        refine ⟨found, part, tr₁, tr₂, rfl, rfl, hcall.fails_iff, fun hquiet => ?_, ?_⟩
        · refine hentry.trans ?_
          rw [Machine.heldBy_of_look (p := ⟨m.id, ctx⟩) h]
          exact hcall.entryAfter_eq hpart hquiet
        · intro w₁ ttl' wait handle z hready hheld hpos hgone
          have hacquire := m.acquire_ensures (X := X) hready ctx wait hpos hgone
          rw [hheld] at hacquire
          obtain ⟨w₂, a, hrun, rfl, hkeep⟩ := hacquire.run_alone handle z
          refine ⟨w₂, hrun, fun hsome => ?_⟩
          rw [World.heldBy_congr (hkeep hsome), hheld]

/-- While the body of a section sleeps the store becomes unavailable, and the release fails for want
of a connection. The entry stays, and when the lifetime of 20 milliseconds is over the context
cannot acquire the lock. -/
theorem failed_release_leaves_entry_unlent :
    ∃ (s s' : Machine Extension.none) (tr tr₁ tr₂ : List Event) (log part : List Exchange)
        (r : Except Failure Bool) (w : World),
      Run (Machine.Step .cooperative) ⟨World.fresh, []⟩ tr s ∧
      s.Step .cooperative (.returned (.release {} "a" "L") log r) s' ∧
      log = ⟨.registry 0 (.held "a" "L"), some (Token.ofSerial 0)⟩ :: part ∧
      tr = tr₁ ++ .did (.release {} "a" "L")
        ⟨.registry 0 (.held "a" "L"), some (Token.ofSerial 0)⟩ :: tr₂ ∧
      (∃ x ∈ part, x.Fails) ∧ (∀ ev ∈ tr₂, ¬ ev.WritesEntry ⟨0, "a"⟩ "L") ∧
      s'.world.heldBy ⟨0, "a"⟩ "L" = some (Token.ofSerial 0) ∧
      (({} : Manager).acquire (X := .none) "a" "L" 20 0).run.run World.perform
        (fun _ _ (op : Extension.none.Op) => Empty.elim op) World.lapsed () = (w, (), .ok false) ∧
      w.heldBy ⟨0, "a"⟩ "L" = some (Token.ofSerial 0) := by
  let o : Operation := .release {} "a" "L"
  let body : Client .none (Finish Empty Unit) :=
    Program.perform (.sleep 1) >>= fun _ => .done (.value ())
  let moves : List (Move .none) :=
    .start (Client.runGuarded {} "a" "L" 20 false body >>= fun _ => .done ()) ::
      List.replicate 17 (.go 0) ++ .configure ⟨false, false, 0, true, false⟩ :: .elapse 1 ::
      List.replicate 5 (.go 0)
  have hplay : ((Machine.play .cooperative ⟨World.fresh, []⟩ moves).any fun r =>
      r.2.isInside o fun log t _ => decide (r.1.Pairwise fun ev ev' =>
          ev.IsOf o → ¬ ev'.WritesEntry ⟨0, "a"⟩ "L") &&
        log.head?.any
          (·.replyTo? (.registry 0 (.held "a" "L")) == some (some (Token.ofSerial 0))) &&
        t.answer?.any (·.toOption.isNone)) = true := by
    decide +kernel
  obtain ⟨⟨tr, w₀, threads⟩, hr, hs⟩ := (Option.any_eq_true _ _).1 hplay
  have hrun := Machine.run_of_play hr
  obtain ⟨log, t, next, rfl, hs⟩ := Machine.inside_of_isInside hs
  simp only [Bool.and_eq_true, Option.any_eq_true, beq_iff_eq, decide_eq_true_eq] at hs
  obtain ⟨⟨hpairs, x, hhead, hlook⟩, r, hanswer, hfailed⟩ := hs
  obtain rfl := Exchange.eq_of_replyTo? hlook
  have hreturn : Machine.Step .cooperative ⟨w₀, [.inside o log t next]⟩ (.returned o log r) _ :=
    @Machine.Step.thread _ _ _ _ [] [] _ _ _ (fun _ hmem => nomatch hmem)
      (.return (Task.step_of_answer? w₀ hanswer))
  obtain ⟨found, part, tr₁, tr₂, rfl, rfl, hiff, hleaves, hacquires⟩ :=
    (failed_release_leaves_entry (σ := Unit) {} "a" "L" 20 false body.expand).2 rfl hrun hreturn
  cases hhead
  have hnone := Option.isNone_iff_eq_none.1 hfailed
  obtain ⟨-, hfails⟩ := hiff.1 hnone
  have hquiet : ∀ ev ∈ tr₂, ¬ ev.WritesEntry ⟨0, "a"⟩ "L" := by
    obtain ⟨-, hpairs, -⟩ := List.pairwise_append.1 hpairs
    exact fun ev hmem => (List.pairwise_cons.1 hpairs).1 ev hmem rfl
  have hheld := (hleaves fun ev hmem hev => absurd hev (hquiet ev hmem)).trans (if_pos hnone)
  have hlapsed : World.lapsed.heldBy ⟨0, "a"⟩ "L" = some (Token.ofSerial 0) := by decide +kernel
  have hpos : 0 < 20 := by decide
  obtain ⟨w, hacquire, hkept⟩ := hacquires 0
    (fun _ _ (op : Extension.none.Op) => Empty.elim op) () World.lapsed_ready
    (hlapsed.trans hheld.symm) hpos World.lapsed_gone
  rw [hheld] at hacquire hkept
  exact ⟨_, _, _, tr₁, tr₂, _, part, r, w, hrun, hreturn, rfl, rfl, hfails, hquiet, hheld, hacquire,
    hkept rfl⟩

end Latchkey
