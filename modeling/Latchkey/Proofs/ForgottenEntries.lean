import Latchkey.Proofs.Entries
import Latchkey.Proofs.Holdings
import Latchkey.Proofs.Releases
import Latchkey.Proofs.Schedules

/-!
# What a release forgets

A release looks up the token of its owner, gives this token up in the store, and then forgets the
lock by its name. Between the look and the end it may have to wait, and its owner may do other
things. What it forgets is the last entry that was written, whether or not that is the token which
it has given up.

The main statement is `release_forgets_last_entry`.
-/

namespace Latchkey

variable {X : Extension}

namespace Machine

variable {mode : Scheduling} {tr tr' : List Event} {s₀ s s' : Machine X} {ev : Event} {p : Owner}
  {lock : String} {token : Token}

/-! ## Entries that are gone -/

/-- An owner comes to hold a lock under a token by recording it. -/
theorem Lawful.wasHeld_of_run (h : s.Lawful mode tr) (hr : Run (LockStep mode) s tr' s')
    (hheld : WasHeld (tr ++ tr') p lock token) :
    WasHeld tr p lock token ∨ ∃ o : Operation, o.ActsFor p lock ∧
      Event.did o ⟨.registry p.manager (.record p.ctx lock token), ()⟩ ∈ tr' := by
  induction hr with
  | nil => exact .inl (by simpa using hheld)
  | snoc hr hs ih =>
    rw [← List.append_assoc] at hheld
    rcases (h.run hr).wasHeld_concat hs hheld with hheld | ⟨o, ho, rfl⟩
    · exact (ih hheld).imp_right fun ⟨o, ho, hmem⟩ => ⟨o, ho, List.mem_append_left _ hmem⟩
    · exact .inr ⟨o, ho, List.mem_append_right _ (List.mem_singleton.2 rfl)⟩

/-- An owner that does not hold a lock under a recorded token will not hold it so. -/
theorem Lawful.heldBy_ne_of_run (h : s.Lawful mode tr) (hrec : Recorded tr token)
    (hnot : s.world.heldBy p lock ≠ some token) (hr : Run (LockStep mode) s tr' s') :
    s'.world.heldBy p lock ≠ some token := by
  induction hr with
  | nil => exact hnot
  | snoc hr hs ih =>
    intro hheld
    rcases (h.run hr).heldBy_before hs hheld with hheld | hno
    · exact ih hheld
    · exact hno (hrec.append _)

/-- Only acquisitions record tokens, and only tokens that were not recorded before. -/
theorem Lawful.records {o : Operation} (h : s.Lawful mode tr)
    (hs : s.LockStep mode (.did o ⟨.registry p.manager (.record p.ctx lock token), ()⟩) s')
    (ho : o.IsLock) : o.IsAcquire ∧ ¬ Recorded tr token := by
  obtain ⟨log, t, next, k, hmem, hp, -⟩ := hs.step.of_did
  obtain ⟨hafter, -⟩ := h.threads _ hmem ho
  rw [hp] at hafter
  obtain ⟨-, hgranted⟩ := (o.obeys ho).permits hafter
  obtain ⟨hacquire, -⟩ := (o.conducts ho).permits hafter
  obtain ⟨q, hq⟩ := Option.isSome_iff_exists.1 ho
  have hphase : o.phase log = .granted token := hgranted
  have hsecret : (Thread.inside o log t next).secret? = some token := by
    simp [Thread.secret?, hq, hphase, Phase.secret?]
  exact ⟨hacquire, h.hidden token (List.mem_filterMap.2 ⟨_, hmem, hsecret⟩)⟩

/-! ## Releases -/

/-- What has become of an entry: `token` was there before the trace, and `left` is there now. -/
structure Superseded (p : Owner) (lock : String) (token : Token) (tr : List Event)
    (left : Option Token) : Prop where
  /-- The last write decides. -/
  last : left = entryAfter p lock (some token) tr
  /-- The entry stays if nobody writes it. -/
  kept : (∀ ev ∈ tr, ¬ ev.WritesEntry p lock) → left = some token
  /-- An acquisition puts another token in its place. -/
  replaced : ∀ o token' tr₁ tr₂, o.IsAcquire →
    tr = tr₁ ++ .did o ⟨.registry p.manager (.record p.ctx lock token'), ()⟩ :: tr₂ →
    (∀ ev ∈ tr₂, ¬ ev.WritesEntry p lock) → token' ≠ token ∧ left = some token'
  /-- Another token is there only if an acquisition has put it there. -/
  source : ∀ token' ≠ token, left = some token' → ∃ o : Operation, o.IsAcquire ∧
    Event.did o ⟨.registry p.manager (.record p.ctx lock token'), ()⟩ ∈ tr

/-- What has become of an entry after some more steps. -/
theorem Lawful.superseded (h : s.Lawful mode tr) (hheld : s.world.heldBy p lock = some token)
    (hr : Run (LockStep mode) s tr' s') :
    Superseded p lock token tr' (s'.world.heldBy p lock) := by
  have hlast : s'.world.heldBy p lock = entryAfter p lock (some token) tr' := by
    rw [← hheld]
    exact heldBy_of_run (hr.mono LockStep.step) p lock
  obtain ⟨-, hrec⟩ := h.world.registry p lock token hheld
  refine ⟨hlast, fun hquiet => ?_, ?_, ?_⟩
  · rw [hlast, entryAfter_of_not_writes hquiet]
  · rintro o token' tr₁ tr₂ hacquire rfl hquiet
    obtain ⟨s₁, s₂, hr₁, hs, -⟩ := hr.split
    have ho : o.IsLock := by
      cases o with
      | acquire m ctx lock ttl wait => rfl
      | _ => exact hacquire.elim
    obtain ⟨-, hnew⟩ := (h.run hr₁).records hs ho
    constructor
    · rintro rfl
      exact hnew (hrec.append _)
    · rw [hlast, entryAfter_append, entryAfter_cons, entryAfter_of_not_writes hquiet]
      exact if_pos ⟨rfl, rfl⟩
  · intro token' hne hleft
    have hwas := (h.run hr).world.registry p lock token' hleft
    rcases h.wasHeld_of_run hr hwas with ⟨-, hrec'⟩ | ⟨o, ho, hmem⟩
    · have hnot : s.world.heldBy p lock ≠ some token' := by
        rw [hheld]
        exact fun heq => hne (Option.some.inj heq).symm
      exact absurd hleft (h.heldBy_ne_of_run hrec' hnot hr)
    · obtain ⟨tr₁, tr₂, rfl⟩ := List.append_of_mem hmem
      obtain ⟨s₁, s₂, hr₁, hs, -⟩ := hr.split
      exact ⟨o, ((h.run hr₁).records hs ho.isLock).1, hmem⟩

/-- What a release does that has got an answer from the store and is about to forget the lock, in
every run of any clients.

The token that it gives up, the only one that it passes to a deletion, is the one that it found when
it looked; but what it removes is the last entry written since then. That is the token if nobody has
written the entry. If an acquisition has recorded another token meanwhile, and nobody has written
the entry after that, the release removes the entry of this other token, although it has never asked
the store to delete it; and it removes another token only if an acquisition of the context has
recorded it meanwhile. Afterwards there is no entry, and the keys are as they were. -/
theorem release_forgets_last_entry {w w' : World} (pre post : List (Thread X)) {m : Manager}
    {ctx : Context} {log : List Exchange} {t : Task X (Except Failure Bool)}
    {next : Except Failure Bool → Client X Unit} {th' : Option (Thread X)} {removed : Option Token}
    (h₀ : s₀.Initial)
    (h : Run (LockStep mode) s₀ tr ⟨w, pre ++ .inside (.release m ctx lock) log t next :: post⟩)
    (hs : (Thread.inside (.release m ctx lock) log t next).Step w
      (.did (.release m ctx lock) ⟨.registry m.id (.forget ctx lock), removed⟩) w' th') :
    ∃ token part outcome tr₁ tr₂,
      log = ⟨.registry m.id (.held ctx lock), some token⟩ :: part ∧
      GivesUp (lockKey lock) token part (.ok outcome) ∧
      tr = tr₁ ++ .did (.release m ctx lock) ⟨.registry m.id (.held ctx lock), some token⟩ :: tr₂ ∧
      (part.map (Event.did (.release m ctx lock))).Sublist tr₂ ∧
      Superseded ⟨m.id, ctx⟩ lock token tr₂ removed ∧
      w'.heldBy ⟨m.id, ctx⟩ lock = none ∧ w'.store.keyspace = w.store.keyspace := by
  have hl := lawful_of_run h₀ h
  have hmem : Thread.inside (.release m ctx lock) log t next ∈
      pre ++ .inside (.release m ctx lock) log t next :: post :=
    List.mem_append_right _ List.mem_cons_self
  obtain ⟨hafter, -⟩ := hl.threads _ hmem rfl
  cases hs with
  | work hmoved hx =>
    obtain ⟨k, hp, -, hanswer, -⟩ := Task.step_eq_moved hmoved hx
    obtain rfl : w' = _ := congrArg Prod.fst hanswer
    obtain rfl : removed = w.heldBy ⟨m.id, ctx⟩ lock := congrArg Prod.snd hanswer
    rw [hp] at hafter
    obtain ⟨token, part, outcome, rfl, hgives⟩ := m.release_forgets ctx lock hafter
    -- the look comes before the rest of the call, in the trace as in the log
    have hordered := ordered_of_run h₀.threads (h.mono LockStep.step) _ hmem
    obtain ⟨tr₁, tr₂, rfl, hpart⟩ := hordered.split
    obtain ⟨s₁, s₂, h₁, hs, h₂⟩ := h.split
    obtain ⟨log', t', next', k', -, -, hfound⟩ := hs.step.of_did
    have hworld : s₂.world = s₁.world := congrArg Prod.fst hfound
    have hheld : s₁.world.heldBy ⟨m.id, ctx⟩ lock = some token := (congrArg Prod.snd hfound).symm
    rw [← hworld] at hheld
    have hsuperseded := ((lawful_of_run h₀ h₁).step hs).superseded hheld h₂
    have hgone : (w.answer t.wait (.registry m.id (.forget ctx lock))).1.heldBy ⟨m.id, ctx⟩ lock =
        none := by
      rw [World.heldBy_answer]
      exact if_pos ⟨rfl, rfl⟩
    exact ⟨token, part, outcome, tr₁, tr₂, rfl, hgives, rfl, hpart, hsuperseded, hgone, rfl⟩

/-- Two acquisitions that are slow have both connections when a context releases a lock whose
lifetime is about to end. Before the release gets a connection the context has released the lock
again, and has acquired it anew for a second. The release gives up the old token, and forgets the
new one. -/
theorem release_forgets_last_entry_renewed :
    ∃ (w w' : World) (tr : List Event) (m : Manager) (log : List Exchange)
        (t : Task Extension.none (Except Failure Bool))
        (next : Except Failure Bool → Client Extension.none Unit)
        (th' : Option (Thread Extension.none)) (token token' : Token) (part : List Exchange)
        (outcome : ReleaseOutcome),
      let th : Thread Extension.none := .inside (.release m "a" "L") log t next
      Run (LockStep .cooperative) ⟨.ofStore (Memory.standalone.withPool 2 300) 0, []⟩ tr
        ⟨w, [th]⟩ ∧
      th.Step w (.did (.release m "a" "L") ⟨.registry m.id (.forget "a" "L"), some token'⟩) w' th' ∧
      log = ⟨.registry m.id (.held "a" "L"), some token⟩ :: part ∧
      GivesUp (lockKey "L") token part (.ok outcome) ∧ token' ≠ token ∧
      w'.heldBy ⟨m.id, "a"⟩ "L" = none ∧ w.Carries (lockKey "L") token' ∧
      w'.store.keyspace = w.store.keyspace := by
  let world : World := .ofStore (Memory.standalone.withPool 2 300) 0
  let call (o : Operation) : Move .none := .start (Client.invoke o >>= fun _ => .done ())
  let go (n i : Nat) : List (Move .none) := List.replicate n (.go i)
  let latency (ms : Nat) : Move .none := .configure ⟨false, false, ms, false, false⟩
  let o : Operation := .release {} "a" "L"
  let moves : List (Move .none) :=
    -- the context acquires the lock, and others take the connections
    call (.acquire {} "a" "L" 20 0) :: go 16 0 ++
    latency 30 :: call (.acquire {} "b" "M" 50 0) :: go 9 0 ++
    call (.acquire {} "b" "N" 50 0) :: go 9 1 ++
    -- the release looks the token up and queues up
    call o :: go 4 2 ++
    -- the others are done, and the context releases the lock and acquires it again
    .elapse 30 :: latency 0 :: go 8 0 ++ go 8 0 ++
    call o :: go 11 1 ++ call (.acquire {} "a" "L" 1000 0) :: go 16 1 ++
    -- the release gets its connection and gives up the token that it has found
    go 3 0
  have hplay : ((play .cooperative ⟨world, []⟩ moves).any fun r =>
      decide (∀ ev ∈ r.1, ¬ ev.IsForeign) && r.2.isInside o fun log t _ =>
        (t.exchange? r.2.world).any
          (·.replyTo? (.registry 0 (.forget "a" "L")) == some (some (Token.ofSerial 3))) &&
        log.head?.any
          (·.replyTo? (.registry 0 (.held "a" "L")) == some (some (Token.ofSerial 0))) &&
        (r.2.world.store.keyspace.live? r.2.world.now (lockKey "L")).any
          (·.holds (Token.ofSerial 3))) = true := by
    decide +kernel
  obtain ⟨⟨tr, w, threads⟩, hr, hs⟩ := (Option.any_eq_true _ _).1 hplay
  obtain ⟨hforeign, hs⟩ := Bool.and_eq_true_iff.1 hs
  have hrun := lockRun_of_play hr (of_decide_eq_true hforeign)
  obtain ⟨log, t, next, rfl, hs⟩ := inside_of_isInside hs
  simp only [Bool.and_eq_true, Option.any_eq_true, beq_iff_eq] at hs
  obtain ⟨⟨⟨x, hx, hforget⟩, y, hhead, hheld⟩, hc⟩ := hs
  obtain rfl := Exchange.eq_of_replyTo? hforget
  obtain rfl := Exchange.eq_of_replyTo? hheld
  obtain ⟨w', t', hmoved⟩ := Task.step_of_exchange? hx
  have h₀ : (⟨world, []⟩ : Machine Extension.none).Initial := initial_ofStore rfl 0
  obtain ⟨token, part, outcome, -, -, rfl, hgives, -, -, -, hnone, hkeys⟩ :=
    release_forgets_last_entry [] [] h₀ hrun (.work hmoved hx)
  cases hhead
  have hne : Token.ofSerial 3 ≠ Token.ofSerial 0 := by decide
  exact ⟨w, w', tr, {}, _, t, next, _, _, _, part, outcome, hrun, .work hmoved hx, rfl, hgives, hne,
    hnone, hc, hkeys⟩

end Machine

end Latchkey
