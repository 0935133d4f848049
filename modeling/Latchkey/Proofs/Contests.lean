import Mathlib.Data.Nat.Find
import Latchkey.Proofs.ContenderSteps
import Latchkey.Proofs.Holdings

/-!
# Contests for a lock

Several owners want a lock that is free. Each sleeps for a while and then calls for the lock once,
and they go on side by side, in any order. The first whose token the store is asked to write has the
lock: the token is still there when the others come to write theirs, as they have called so closely
one after the other that no lifetime is over by then.

The proof follows the contest from step to step. It keeps a list of the contenders with their stages
and threads; one contender goes on at a time, and what it does to the world is all that the others
have to know of it.

The main statement is `contest_has_one_winner`.
-/

namespace Latchkey

variable {X : Extension}

namespace Contest

namespace Stage

/-- Whether a contender still has to get a connection. -/
def isUnconnected : Stage → Bool
  | .asleep => true
  | .seeking => true
  | .minted _ => true
  | _ => false

/-- The token that was written. -/
def written? : Stage → Option Token
  | .won token => some token
  | .noted token => some token
  | _ => none

/-- The token that was noted. -/
def noted? : Stage → Option Token
  | .noted token => some token
  | _ => none

end Stage

variable {k : Contest} {c : Contender} {w w' : World} {s s' : Stage}

/-! ## What advances keep -/

/-- The value of the key by the tokens that were written: there is none, or that of the winner. -/
inductive Decision (k : Contest) (w : World) : List (Contender × Token) → Prop where
  /-- Nobody has won yet. -/
  | undecided (h : w.store.keyspace.live? w.now k.key = none) : Decision k w []
  /-- Somebody has won. -/
  | decided {c : Contender} {token : Token} (h : w.Stores k.key token (k.written c + c.ttl)) :
      Decision k w [(c, token)]

theorem Decision.congr {wins : List (Contender × Token)} (h : k.Decision w wins)
    (hnow : w'.now = w.now) (hkeyspace : w'.store.keyspace = w.store.keyspace) :
    k.Decision w' wins := by
  cases h with
  | undecided h => exact .undecided (by rw [hnow, hkeyspace, h])
  | decided h => exact .decided (by rw [World.Stores, hkeyspace, h])

theorem Decision.later {wins : List (Contender × Token)} (h : k.Decision w wins) (ms : Nat) :
    k.Decision { w with now := w.now + ms } wins := by
  cases h with
  | undecided h => exact .undecided (Keyspace.live?_eq_none_later (Nat.le_add_right _ _) h)
  | decided h => exact .decided h

end Contest

theorem World.Lessened.keyspace {w w' : World} {taken : Nat} (h : w.Lessened w' taken) :
    w'.store.keyspace = w.store.keyspace := by
  rw [h.store]

namespace Contest.Advance

variable {k : Contest} {c : Contender} {w w' : World} {s s' : Stage}

theorem now (h : k.Advance c w s w' s') : w'.now = w.now := by
  cases h with
  | stay h => exact h.now
  | mint token h => exact h.now
  | connect token h => exact h.now
  | _ => rfl

theorem steady (h : k.Advance c w s w' s') (hw : k.Steady w) : k.Steady w' := by
  have hlessened : ∀ {taken}, w.Lessened w' taken → k.Steady w' := by
    intro taken h
    have hstore := h.store
    constructor <;> rw [hstore]
    exacts [hw.closing, hw.unavailable, hw.single, hw.shards, hw.latency]
  cases h with
  | stay h => exact hlessened h
  | mint token h => exact hlessened h
  | connect token h => exact hlessened h
  | _ => exact ⟨hw.closing, hw.unavailable, hw.single, hw.shards, hw.latency⟩

/-- A connection is taken from the pool only by a contender that then has one. -/
theorem free (h : k.Advance c w s w' s') :
    s'.isUnconnected.toNat + w.store.pool.free ≤ s.isUnconnected.toNat + w'.store.pool.free := by
  cases h with
  | stay h => exact Nat.add_le_add_left h.free _
  | mint token h => exact Nat.add_le_add_left h.free _
  | connect token h =>
    have hfree := h.free
    show 0 + w.store.pool.free ≤ 1 + w'.store.pool.free
    omega
  | _ => exact Nat.le_refl _

theorem eq_of_ends {b : Bool} (h : k.Advance c w s w' s') (hs : s.Ends b) : s' = s := by
  cases h with
  | stay h => rfl
  | _ => exact hs.elim

theorem written?_eq {token : Token} (h : k.Advance c w s w' s') (hs : s.written? = some token) :
    s'.written? = some token := by
  cases h with
  | stay h => exact hs
  | note token => exact hs
  | _ => cases hs

/-- A contender loses only against a value that is there. -/
theorem taken_of_lost (h : k.Advance c w s w' s') (hs : s' = .lost) :
    s = .lost ∨ w.store.keyspace.live? w.now k.key ≠ none := by
  cases h with
  | stay h => exact .inl hs
  | lose token htaken => exact .inr htaken
  | _ => cases hs

/-- The registry has the token that was noted. -/
theorem heldBy_owner (h : k.Advance c w s w' s') (hw : w.heldBy c.owner k.lock = s.noted?) :
    w'.heldBy c.owner k.lock = s'.noted? := by
  cases h with
  | stay h => rwa [World.heldBy_congr h.registries]
  | call => exact hw
  | mint token h => rwa [World.heldBy_congr h.registries]
  | connect token h => rwa [World.heldBy_congr h.registries]
  | win token hnow hvacant => exact hw
  | lose token htaken => exact hw
  | note token => exact (w.heldBy_recordFor ..).trans (if_pos ⟨rfl, rfl⟩)

theorem heldBy_other {p : Owner} (h : k.Advance c w s w' s') (hp : p ≠ c.owner) :
    w'.heldBy p k.lock = w.heldBy p k.lock := by
  cases h with
  | stay h => exact World.heldBy_congr h.registries ..
  | mint token h => exact World.heldBy_congr h.registries ..
  | connect token h => exact World.heldBy_congr h.registries ..
  | note token => exact (w.heldBy_recordFor ..).trans (if_neg fun heq => hp heq.1)
  | _ => rfl

/-- There is one winner at most: a token is written only where there is no value, and that of the
winner is there as long as a contender may write. -/
theorem decision {before after : List (Contender × Token)} (h : k.Advance c w s w' s')
    (htime : ∀ winner ∈ before ++ after, w.now < k.written winner.1 + winner.1.ttl)
    (hd : k.Decision w (before ++ (s.written?.map (c, ·)).toList ++ after)) :
    k.Decision w' (before ++ (s'.written?.map (c, ·)).toList ++ after) := by
  cases h with
  | stay h => exact hd.congr h.now h.keyspace
  | call => exact hd
  | mint token h => exact hd.congr h.now h.keyspace
  | connect token h => exact hd.congr h.now h.keyspace
  | win token hnow hvacant =>
    -- the value of another winner would still be there
    have hnobody : before ++ after = [] := by
      have hd' : k.Decision w (before ++ after) := by simpa [Stage.written?] using hd
      generalize before ++ after = wins at hd' htime
      cases hd' with
      | undecided _ => rfl
      | decided hstores =>
        have hlive := htime _ (List.mem_singleton.2 rfl)
        exact absurd (hstores.carries hlive) (World.not_carries_of_live? hvacant _)
    obtain ⟨rfl, rfl⟩ := List.append_eq_nil_iff.1 hnobody
    have hstores : (w.withKeyspace (w.store.keyspace.insert k.key
        ⟨Entry.ofText token, some (w.now + c.ttl)⟩)).Stores k.key token (k.written c + c.ttl) := by
      refine (Table.find?_insert ..).trans ?_
      rw [if_pos rfl, hnow]
    exact .decided hstores
  | lose token htaken => exact hd
  | note token => exact hd.congr rfl rfl

end Contest.Advance

/-! ## A contest on its way -/

/-- A contender on its way: its stage, the steps that it may still take, and its thread. -/
structure Runner (X : Extension) where
  /-- The contender. -/
  contender : Contender
  /-- How far it has come. -/
  stage : Contest.Stage
  /-- It takes so many steps at most until it is gone. -/
  left : Nat
  /-- Its thread, unless it is gone. -/
  thread? : Option (Thread X)

namespace Runner

/-- A winner, with the token that was written. -/
def win? (r : Runner X) : Option (Contender × Token) := r.stage.written?.map (r.contender, ·)

/-- All winners. -/
def wins (rs : List (Runner X)) : List (Contender × Token) := rs.filterMap win?

/-- The threads of those who are not gone. -/
def threads (rs : List (Runner X)) : List (Thread X) := rs.filterMap thread?

/-- The steps that all may still take together. -/
def stepsLeft : List (Runner X) → Nat
  | [] => 0
  | r :: rs => r.left + stepsLeft rs

theorem wins_middle (before : List (Runner X)) (r : Runner X) (after : List (Runner X)) :
    wins (before ++ r :: after) = wins before ++ r.win?.toList ++ wins after := by
  rw [wins, List.filterMap_append, List.filterMap_cons]
  cases r.win? <;> simp [wins]

theorem mem_wins_middle {before after : List (Runner X)} {winner : Contender × Token}
    (r : Runner X) (h : winner ∈ wins before ++ wins after) :
    winner ∈ wins (before ++ r :: after) := by
  rw [wins_middle]
  rcases List.mem_append.1 h with h | h
  · exact List.mem_append_left _ (List.mem_append_left _ h)
  · exact List.mem_append_right _ h

theorem stepsLeft_append (rs rs' : List (Runner X)) :
    stepsLeft (rs ++ rs') = stepsLeft rs + stepsLeft rs' := by
  induction rs with
  | nil => exact (Nat.zero_add _).symm
  | cons r rs ih =>
    simp only [List.cons_append, stepsLeft, ih]
    omega

theorem stepsLeft_map_le {left : Runner X → Nat} {rs : List (Runner X)}
    (hle : ∀ r ∈ rs, left r ≤ r.left) :
    stepsLeft (rs.map fun r => { r with left := left r }) ≤ stepsLeft rs := by
  induction rs with
  | nil => exact Nat.le_refl _
  | cons r rs ih =>
    obtain ⟨hr, hrs⟩ := List.forall_mem_cons.1 hle
    exact Nat.add_le_add hr (ih hrs)

/-- If one has less steps left and nobody has more, then all together have less. -/
theorem stepsLeft_map_lt {left : Runner X → Nat} {rs : List (Runner X)}
    (hle : ∀ r ∈ rs, left r ≤ r.left) (hlt : ∃ r ∈ rs, left r < r.left) :
    stepsLeft (rs.map fun r => { r with left := left r }) < stepsLeft rs := by
  obtain ⟨r, hr, hlt⟩ := hlt
  obtain ⟨before, after, rfl⟩ := List.append_of_mem hr
  obtain ⟨hbefore, hafter⟩ := List.forall_mem_append.1 hle
  rw [List.map_append, List.map_cons, stepsLeft_append, stepsLeft_append]
  have hfirst := stepsLeft_map_le hbefore
  have hlast := stepsLeft_map_le (List.forall_mem_cons.1 hafter).2
  simp only [stepsLeft]
  omega

theorem split_threads {rs : List (Runner X)} {pre post : List (Thread X)} {th : Thread X}
    (h : threads rs = pre ++ th :: post) :
    ∃ before r after, rs = before ++ r :: after ∧ r.thread? = some th ∧ threads before = pre ∧
      threads after = post := by
  obtain ⟨before, rest, rfl, hbefore, hrest⟩ := List.filterMap_eq_append_iff.1 h
  obtain ⟨gone, r, after, rfl, hgone, hr, hafter⟩ := List.filterMap_eq_cons_iff.1 hrest
  refine ⟨before ++ gone, r, after, by simp, hr, ?_, hafter⟩
  have hnone : gone.filterMap thread? = [] := List.filterMap_eq_nil_iff.2 hgone
  rw [threads, List.filterMap_append, hbefore, hnone, List.append_nil]

end Runner

namespace Contest

/-- The machine on which a contest begins: all contenders are about to go to sleep. -/
def machine (k : Contest) : Machine X :=
  ⟨k.world, k.contenders.map fun c => .between { program := c.client k.lock }⟩

/-- A contest is fair: the contenders are different owners who do not hold the lock, the lock is
free, the store is open, can be reached, is not sharded and has a connection for each of them, and
they call so closely one after the other that no lifetime is over before all have tried. -/
structure Fair (k : Contest) : Prop where
  entered : k.contenders ≠ []
  distinct : (k.contenders.map Contender.owner).Nodup
  unheld : ∀ c ∈ k.contenders, k.world.heldBy c.owner k.lock = none
  closing : k.world.store.closing = false
  unavailable : k.world.store.unavailable = false
  single : k.world.store.deployment.isSharded = false
  connections : k.contenders.length ≤ k.world.store.pool.free
  vacant : k.world.store.keyspace.live? k.world.now k.key = none
  lifetime : ∀ c ∈ k.contenders, k.world.store.latency < c.ttl
  window : ∀ c ∈ k.contenders, ∀ c' ∈ k.contenders, ∀ c'' ∈ k.contenders,
    c.delay < c'.delay + c''.ttl

/-- The state of a contest after some events. -/
structure Standing (k : Contest) (tr : List Event) (w : World) (rs : List (Runner X)) : Prop where
  contenders : rs.map (·.contender) = k.contenders
  steady : k.Steady w
  places : ∀ r ∈ rs, k.At w.now r.contender r.stage r.left r.thread?
  noted : ∀ r ∈ rs, w.heldBy r.contender.owner k.lock = r.stage.noted?
  free : rs.countP (·.stage.isUnconnected) ≤ w.store.pool.free
  time : ∃ c ∈ k.contenders, w.now ≤ k.written c
  decision : k.Decision w (Runner.wins rs)
  lost : ∀ r ∈ rs, r.stage = .lost → Runner.wins rs ≠ []
  returned : ∀ r ∈ rs, (∃ log a, .returned (r.contender.call k.lock) log a ∈ tr) ↔ r.left ≤ 1
  answered : ∀ r ∈ rs, ∀ log a, .returned (r.contender.call k.lock) log a ∈ tr →
    ∃ b, r.stage.Ends b ∧ a = .ok b

/-- An event that tells of a contender is no return of another one. -/
theorem Tells.other {k : Contest} {c c' : Contender} {s : Stage} {n n' : Nat} {ev : Event}
    (h : k.Tells c s n n' ev) (hne : c'.owner ≠ c.owner) (log : List Exchange)
    (a : Except Failure Bool) : ev ≠ .returned (c'.call k.lock) log a := by
  rintro rfl
  rcases h with ⟨log', b, heq, -⟩ | ⟨hno, -⟩
  · injection heq with ho
    exact hne (Contender.owner_of_call ho)
  · exact hno trivial

theorem Tells.returned_other {k : Contest} {c c' : Contender} {s : Stage} {n n' : Nat} {ev : Event}
    (h : k.Tells c s n n' ev) (hne : c'.owner ≠ c.owner) (tr : List Event) (log : List Exchange)
    (a : Except Failure Bool) :
    .returned (c'.call k.lock) log a ∈ tr ++ [ev] ↔ .returned (c'.call k.lock) log a ∈ tr := by
  simp [(h.other hne log a).symm]

/-- A call has returned once a contender has next to nothing left to do. -/
theorem Tells.returned {k : Contest} {c : Contender} {s : Stage} {n n' : Nat} {ev : Event}
    {tr : List Event} (h : k.Tells c s n n' ev) (hleft : n' < n)
    (htr : (∃ log a, .returned (c.call k.lock) log a ∈ tr) ↔ n ≤ 1) :
    (∃ log a, .returned (c.call k.lock) log a ∈ tr ++ [ev]) ↔ n' ≤ 1 := by
  rcases h with ⟨log, b, rfl, -, -, rfl⟩ | ⟨hno, hmore⟩
  · exact ⟨fun _ => Nat.le_refl _, fun _ => ⟨log, .ok b, by simp⟩⟩
  · have hold : ∀ log a, .returned (c.call k.lock) log a ∈ tr ++ [ev] ↔
        .returned (c.call k.lock) log a ∈ tr := by
      intro log a
      have hne : Event.returned (c.call k.lock) log a ≠ ev := fun heq => hno (heq ▸ trivial)
      simp [hne]
    simp only [hold, htr]
    omega

/-- A call returns what the stage of the contender demands. -/
theorem Tells.answered {k : Contest} {c : Contender} {s : Stage} {n n' : Nat} {ev : Event}
    {tr : List Event} {log : List Exchange} {a : Except Failure Bool} (h : k.Tells c s n n' ev)
    (htr : ∀ log a, .returned (c.call k.lock) log a ∈ tr → ∃ b, s.Ends b ∧ a = .ok b)
    (hmem : .returned (c.call k.lock) log a ∈ tr ++ [ev]) : ∃ b, s.Ends b ∧ a = .ok b := by
  rcases List.mem_append.1 hmem with hmem | hmem
  · exact htr log a hmem
  · rcases h with ⟨log', b, rfl, hs, -⟩ | ⟨hno, -⟩
    · cases List.mem_singleton.1 hmem
      exact ⟨b, hs, rfl⟩
    · exact absurd (List.mem_singleton.1 hmem ▸ trivial) hno

theorem forall_mem_middle {α : Type} {P : α → Prop} {before after : List α} {a : α} :
    (∀ x ∈ before ++ a :: after, P x) ↔ P a ∧ ∀ x ∈ before ++ after, P x := by
  simp only [List.perm_middle.mem_iff, List.forall_mem_cons]

theorem countP_middle {α : Type} (p : α → Bool) (before : List α) (a : α) (after : List α) :
    (before ++ a :: after).countP p = (p a).toNat + (before ++ after).countP p := by
  rw [List.perm_middle.countP_eq, List.countP_cons, Nat.add_comm]
  cases p a <;> rfl

/-- A contender that is about to go to sleep. -/
def runner (k : Contest) (c : Contender) : Runner X :=
  ⟨c, .asleep, 21, some (.between { program := c.client k.lock })⟩

/-- All contenders at the beginning. -/
def runners (k : Contest) : List (Runner X) := k.contenders.map k.runner

namespace Standing

variable {k : Contest} {tr : List Event} {w w' : World} {before after rs : List (Runner X)}
  {r : Runner X} {s' : Stage} {n' : Nat} {ev : Event} {th' : Option (Thread X)}

theorem contender_mem (h : k.Standing tr w rs) (hr : r ∈ rs) : r.contender ∈ k.contenders := by
  rw [← h.contenders]
  exact List.mem_map_of_mem hr

theorem deadline (hk : k.Fair) (h : k.Standing tr w rs) {winner : Contender × Token}
    (hmem : winner ∈ Runner.wins rs) : w.now < k.written winner.1 + winner.1.ttl := by
  obtain ⟨r, hr, hwin⟩ := List.mem_filterMap.1 hmem
  obtain ⟨token, -, rfl⟩ := Option.map_eq_some_iff.1 hwin
  obtain ⟨c, hc, hnow⟩ := h.time
  have hwindow := hk.window c hc _ (h.contender_mem hr) _ (h.contender_mem hr)
  show w.now < k.written r.contender + r.contender.ttl
  unfold written called at hnow ⊢
  omega

theorem owner_ne (hk : k.Fair) (h : k.Standing tr w (before ++ r :: after)) {r' : Runner X}
    (hr' : r' ∈ before ++ after) : r'.contender.owner ≠ r.contender.owner := by
  have hnodup : ((before ++ r :: after).map fun r => r.contender.owner).Nodup := by
    have hdistinct := hk.distinct
    rw [← h.contenders, List.map_map] at hdistinct
    exact hdistinct
  have hperm : ((before ++ r :: after).map fun r => r.contender.owner).Perm
      (r.contender.owner :: (before ++ after).map fun r => r.contender.owner) :=
    List.perm_middle.map _
  intro heq
  refine (List.nodup_cons.1 (hperm.nodup_iff.1 hnodup)).1 ?_
  rw [← heq]
  exact List.mem_map_of_mem hr'

theorem wins_ne_nil (hadvance : k.Advance r.contender w r.stage w' s')
    (h : Runner.wins (before ++ r :: after) ≠ []) :
    Runner.wins (before ++ ⟨r.contender, s', n', th'⟩ :: after) ≠ [] := by
  intro hnone
  rw [Runner.wins_middle] at h hnone
  obtain ⟨hnone, hafter⟩ := List.append_eq_nil_iff.1 hnone
  obtain ⟨hbefore, hmiddle⟩ := List.append_eq_nil_iff.1 hnone
  cases hwritten : r.stage.written? with
  | none => exact h (by simp [hbefore, hafter, Runner.win?, hwritten])
  | some token => simp [Runner.win?, hadvance.written?_eq hwritten] at hmiddle

/-- A contender that has gone on and lost has lost against a winner. -/
theorem wins_ne_nil_of_lost (h : k.Standing tr w (before ++ r :: after))
    (hadvance : k.Advance r.contender w r.stage w' s') (hs : s' = .lost) :
    Runner.wins (before ++ ⟨r.contender, s', n', th'⟩ :: after) ≠ [] := by
  refine wins_ne_nil hadvance ?_
  rcases hadvance.taken_of_lost hs with hs | htaken
  · exact h.lost r (List.mem_append_right _ List.mem_cons_self) hs
  · intro hnone
    have hd := h.decision
    rw [hnone] at hd
    cases hd with
    | undecided hvacant => exact htaken hvacant

/-- The contest goes on when one of the contenders does. -/
theorem advance (hk : k.Fair) (h : k.Standing tr w (before ++ r :: after))
    (hat : k.At w'.now r.contender s' n' th') (hleft : n' < r.left)
    (hadvance : k.Advance r.contender w r.stage w' s')
    (htells : k.Tells r.contender r.stage r.left n' ev) :
    k.Standing (tr ++ [ev]) w' (before ++ ⟨r.contender, s', n', th'⟩ :: after) := by
  obtain ⟨-, hplaces⟩ := forall_mem_middle.1 h.places
  obtain ⟨hnoted, hnoteds⟩ := forall_mem_middle.1 h.noted
  obtain ⟨-, hlosts⟩ := forall_mem_middle.1 h.lost
  obtain ⟨hreturned, hreturneds⟩ := forall_mem_middle.1 h.returned
  obtain ⟨hanswered, hanswereds⟩ := forall_mem_middle.1 h.answered
  constructor
  · rw [← h.contenders]
    simp
  · exact hadvance.steady h.steady
  · exact forall_mem_middle.2 ⟨hat, fun r' hr' => hadvance.now ▸ hplaces r' hr'⟩
  · exact forall_mem_middle.2 ⟨hadvance.heldBy_owner hnoted, fun r' hr' =>
      (hadvance.heldBy_other (h.owner_ne hk hr')).trans (hnoteds r' hr')⟩
  · have hfree := h.free
    have htaken := hadvance.free
    rw [countP_middle] at hfree ⊢
    dsimp only at hfree ⊢
    omega
  · rw [hadvance.now]
    exact h.time
  · have hd := h.decision
    rw [Runner.wins_middle] at hd ⊢
    exact hadvance.decision (fun winner hmem => h.deadline hk (Runner.mem_wins_middle r hmem)) hd
  · exact forall_mem_middle.2 ⟨h.wins_ne_nil_of_lost hadvance,
      fun r' hr' hs => wins_ne_nil hadvance (hlosts r' hr' hs)⟩
  · refine forall_mem_middle.2 ⟨htells.returned hleft hreturned, fun r' hr' => ?_⟩
    have hold := htells.returned_other (h.owner_ne hk hr') tr
    exact (exists_congr fun log => exists_congr fun a => hold log a).trans (hreturneds r' hr')
  · refine forall_mem_middle.2 ⟨fun log a hmem => ?_, fun r' hr' log a hmem => ?_⟩
    · obtain ⟨b, hs, ha⟩ := htells.answered hanswered hmem
      exact ⟨b, hadvance.eq_of_ends hs ▸ hs, ha⟩
    · exact hanswereds r' hr' log a ((htells.returned_other (h.owner_ne hk hr') tr log a).1 hmem)

/-- The contest goes on while time passes. -/
theorem elapse (h : k.Standing tr w rs) (ms : Nat)
    (hrest : ∀ th ∈ Runner.threads rs, ¬ th.Ready w)
    (hwake : ∃ th ∈ Runner.threads rs, th.wake? = some (w.now + ms))
    (hfirst : ∀ th ∈ Runner.threads rs, ∀ wake, th.wake? = some wake → w.now + ms ≤ wake) :
    ∃ rs', Runner.threads rs' = Runner.threads rs ∧
      k.Standing (tr ++ [.elapsed ms]) { w with now := w.now + ms } rs' ∧
      Runner.stepsLeft rs' < Runner.stepsLeft rs := by
  have hmem : ∀ {r : Runner X} {th : Thread X}, r ∈ rs → r.thread? = some th →
      th ∈ Runner.threads rs := fun hr hth => List.mem_filterMap.2 ⟨_, hr, hth⟩
  have hplaces : ∀ r : Runner X, ∃ n', r ∈ rs →
      k.At (w.now + ms) r.contender r.stage n' r.thread? ∧ n' ≤ r.left ∧ (1 < r.left → 1 < n') ∧
        ∀ th, r.thread? = some th → th.wake? = some (w.now + ms) → n' < r.left := by
    intro r
    by_cases hr : r ∈ rs
    · obtain ⟨n', hn'⟩ := (h.places r hr).elapse ms (fun th hth => hrest th (hmem hr hth))
        fun th hth => hfirst th (hmem hr hth)
      exact ⟨n', fun _ => hn'⟩
    · exact ⟨0, fun hr' => absurd hr' hr⟩
  -- all stay where they are, but those whose time has come have a step less left
  obtain ⟨left, hleft⟩ := Classical.skolem.1 hplaces
  let later (r : Runner X) : Runner X := { r with left := left r }
  have hthreads : Runner.threads (rs.map later) = Runner.threads rs := List.filterMap_map
  have hwins : Runner.wins (rs.map later) = Runner.wins rs := List.filterMap_map
  have hold : ∀ o log a, Event.returned o log a ∈ tr ++ [.elapsed ms] ↔ .returned o log a ∈ tr := by
    simp
  refine ⟨rs.map later, hthreads, ?_, ?_⟩
  · constructor
    · rw [List.map_map]
      exact h.contenders
    · exact ⟨h.steady.closing, h.steady.unavailable, h.steady.single, h.steady.shards,
        h.steady.latency⟩
    · exact List.forall_mem_map.2 fun r hr => (hleft r hr).1
    · exact List.forall_mem_map.2 fun r hr => h.noted r hr
    · rw [List.countP_map]
      exact h.free
    · obtain ⟨th, hth, hwake⟩ := hwake
      obtain ⟨r, hr, hr'⟩ := List.mem_filterMap.1 hth
      have hat := h.places r hr
      rw [hr'] at hat
      exact ⟨r.contender, h.contender_mem hr, hat.wake_le hwake⟩
    · rw [hwins]
      exact h.decision.later ms
    · rw [hwins]
      exact List.forall_mem_map.2 fun r hr => h.lost r hr
    · simp only [hold]
      refine List.forall_mem_map.2 fun r hr => (h.returned r hr).trans ?_
      obtain ⟨-, hle, hmore, -⟩ := hleft r hr
      show r.left ≤ 1 ↔ left r ≤ 1
      omega
    · simp only [hold]
      exact List.forall_mem_map.2 fun r hr => h.answered r hr
  · obtain ⟨th, hth, hwake⟩ := hwake
    obtain ⟨r, hr, hr'⟩ := List.mem_filterMap.1 hth
    exact Runner.stepsLeft_map_lt (fun r hr => (hleft r hr).2.1)
      ⟨r, hr, (hleft r hr).2.2.2 th hr' hwake⟩

/-- Every step of the machine is one of the contest. -/
theorem step {s' : Machine X} (hk : k.Fair) (h : k.Standing tr w rs)
    (hs : Machine.PromptStep ⟨w, Runner.threads rs⟩ ev s') :
    ∃ rs', s'.threads = Runner.threads rs' ∧ k.Standing (tr ++ [ev]) s'.world rs' ∧
      Runner.stepsLeft rs' < Runner.stepsLeft rs := by
  generalize hm : (⟨w, Runner.threads rs⟩ : Machine X) = m at hs
  cases hs with
  | @thread w₁ w' pre post th th' ev hready hth =>
    obtain ⟨rfl, hthreads⟩ := Machine.mk.inj hm
    obtain ⟨before, r, after, rfl, hr, rfl, rfl⟩ := Runner.split_threads hthreads
    have hmem : r ∈ before ++ r :: after := List.mem_append_right _ List.mem_cons_self
    have hplace := h.places r hmem
    rw [hr] at hplace
    -- who has no token yet has none in the registry, and a free connection is there for it
    have hheld : r.stage = .seeking → w.heldBy r.contender.owner k.lock = none := by
      intro hs
      rw [h.noted r hmem, hs]
      rfl
    have hfree : ∀ token, r.stage = .minted token → 0 < w.store.pool.free := by
      intro token hs
      refine Nat.lt_of_lt_of_le (List.countP_pos_iff.2 ⟨r, hmem, ?_⟩) h.free
      rw [hs]
      rfl
    obtain ⟨s₁, n', hlt, hat, hadvance, htells⟩ := hplace.step h.steady
      (hk.lifetime _ (h.contender_mem hmem)) hheld hfree hready hth
    refine ⟨before ++ ⟨r.contender, s₁, n', th'⟩ :: after, ?_,
      h.advance hk hat hlt hadvance htells, ?_⟩
    · cases th' <;> simp [Runner.threads]
    · simp only [Runner.stepsLeft_append, Runner.stepsLeft]
      omega
  | elapse ms hrest hwake hfirst =>
    subst hm
    obtain ⟨rs', hthreads, hstanding, hlt⟩ := h.elapse ms hrest hwake hfirst
    exact ⟨rs', hthreads.symm, hstanding, hlt⟩

/-- At the beginning of a contest nothing has happened. -/
theorem start (hk : k.Fair) : k.Standing [] k.world (k.runners (X := X)) := by
  have hwins : Runner.wins (k.runners (X := X)) = [] := by
    rw [Runner.wins, runners, List.filterMap_map]
    exact List.filterMap_eq_nil_iff.2 fun c _ => rfl
  constructor
  · rw [runners, List.map_map]
    exact List.map_id _
  · exact ⟨hk.closing, hk.unavailable, hk.single, rfl, rfl⟩
  · exact List.forall_mem_map.2 fun c _ => .begins rfl rfl rfl
  · exact List.forall_mem_map.2 fun c hc => hk.unheld c hc
  · refine Nat.le_trans (List.countP_le_length) ?_
    rw [runners, List.length_map]
    exact hk.connections
  · obtain ⟨c, hc⟩ := List.exists_mem_of_ne_nil _ hk.entered
    refine ⟨c, hc, ?_⟩
    unfold written called
    omega
  · rw [hwins]
    exact .undecided hk.vacant
  · exact List.forall_mem_map.2 fun c _ => nofun
  · refine List.forall_mem_map.2 fun c _ => ⟨?_, by simp [runner]⟩
    rintro ⟨_, _, hmem⟩
    cases hmem
  · exact List.forall_mem_map.2 fun c _ log a => nofun

/-- A contest goes on as long as a contender is on its way. -/
theorem progress (h : k.Standing tr w rs) (hne : Runner.threads rs ≠ []) :
    ∃ ev s', Machine.PromptStep ⟨w, Runner.threads rs⟩ ev s' := by
  have hplace : ∀ th ∈ Runner.threads rs, ∃ c s n, k.At w.now c s n (some th) := by
    intro th hth
    obtain ⟨r, hr, hr'⟩ := List.mem_filterMap.1 hth
    exact ⟨_, _, _, hr' ▸ h.places r hr⟩
  by_cases hready : ∃ th ∈ Runner.threads rs, th.Ready w
  · obtain ⟨th, hth, hready⟩ := hready
    obtain ⟨c, s, n, hat⟩ := hplace th hth
    obtain ⟨ev, w', th', hstep⟩ := hat.exists_step
    obtain ⟨pre, post, hsplit⟩ := List.append_of_mem hth
    rw [hsplit]
    exact ⟨ev, _, .thread hready hstep⟩
  · -- nobody can go on, so time passes until the first one can
    have hrest : ∀ th ∈ Runner.threads rs, ¬ th.Ready w := fun th hth hth' => hready ⟨th, hth, hth'⟩
    have hwake : ∃ wake, ∃ th ∈ Runner.threads rs, th.wake? = some wake := by
      obtain ⟨th, hth⟩ := List.exists_mem_of_ne_nil _ hne
      obtain ⟨c, s, n, hat⟩ := hplace th hth
      obtain ⟨wake, hwake, -⟩ := hat.wake_of_not_ready (hrest th hth)
      exact ⟨wake, th, hth, hwake⟩
    classical
    obtain ⟨th, hth, hfirst⟩ := Nat.find_spec hwake
    obtain ⟨c, s, n, hat⟩ := hplace th hth
    obtain ⟨wake, hwake', hlt⟩ := hat.wake_of_not_ready (hrest th hth)
    have hms : w.now + (Nat.find hwake - w.now) = Nat.find hwake := by
      obtain rfl : Nat.find hwake = wake := Option.some.inj (hfirst.symm.trans hwake')
      omega
    refine ⟨_, _, .elapse (Nat.find hwake - w.now) hrest ⟨th, hth, ?_⟩ ?_⟩
    · rw [hms]
      exact hfirst
    · intro th' hth' wake' hwake''
      rw [hms]
      exact Nat.find_min' hwake ⟨th', hth', hwake''⟩

theorem threads_runners : Runner.threads (k.runners (X := X)) = k.machine.threads := by
  rw [Runner.threads, runners, List.filterMap_map]
  exact congrFun List.filterMap_eq_map' k.contenders

theorem stepsLeft_runners : Runner.stepsLeft (k.runners (X := X)) = 21 * k.contenders.length := by
  have hall : ∀ cs : List Contender,
      Runner.stepsLeft (cs.map (k.runner (X := X))) = 21 * cs.length := by
    intro cs
    induction cs with
    | nil => rfl
    | cons c cs ih =>
      rw [List.map_cons, Runner.stepsLeft, ih, List.length_cons]
      show 21 + _ = _
      omega
  exact hall k.contenders

/-- In every run of a contest its contenders are on their way, or gone. -/
theorem of_run {s : Machine X} (hk : k.Fair) (h : Run Machine.PromptStep k.machine tr s) :
    ∃ rs, s.threads = Runner.threads rs ∧ k.Standing tr s.world rs ∧
      tr.length + Runner.stepsLeft rs ≤ 21 * k.contenders.length := by
  induction h with
  | nil =>
    refine ⟨k.runners, ?_, start hk, ?_⟩
    · exact threads_runners.symm
    · rw [List.length_nil, Nat.zero_add, stepsLeft_runners]
  | @snoc tr s₁ s₂ ev _ hstep ih =>
    obtain ⟨rs, hthreads, hstanding, hleft⟩ := ih
    rw [show s₁ = ⟨s₁.world, Runner.threads rs⟩ by rw [← hthreads]] at hstep
    obtain ⟨rs', hthreads', hstanding', hlt⟩ := hstanding.step hk hstep
    refine ⟨rs', hthreads', hstanding', ?_⟩
    rw [List.length_append, List.length_singleton]
    omega

/-- A contest can be brought to its end. -/
theorem finish (hk : k.Fair) (h : k.Standing tr w rs) :
    ∃ tr' s', Run Machine.PromptStep ⟨w, Runner.threads rs⟩ tr' s' ∧ s'.threads = [] := by
  -- a step leaves fewer of them, so there is an end
  generalize hn : Runner.stepsLeft rs = n
  induction n using Nat.strongRecOn generalizing tr w rs with
  | ind n ih =>
    by_cases hgone : Runner.threads rs = []
    · exact ⟨[], _, .nil, hgone⟩
    · obtain ⟨ev, s₁, hstep⟩ := h.progress hgone
      obtain ⟨rs', hthreads, hstanding, hlt⟩ := h.step hk hstep
      obtain ⟨tr', s', hrun, hend⟩ := ih _ (hn ▸ hlt) hstanding rfl
      rw [← hthreads] at hrun
      exact ⟨ev :: tr', s', Run.append (.single hstep) hrun, hend⟩

/-- When all contenders are gone one has won. -/
theorem outcome (hk : k.Fair) (h : k.Standing tr w rs) (hgone : Runner.threads rs = []) :
    ∃ winner ∈ k.contenders, ∃ token, w.Stores k.key token (k.written winner + winner.ttl) ∧
      w.now < k.written winner + winner.ttl ∧
      ∀ r ∈ rs, r.left ≤ 1 ∧ r.stage = if r.contender = winner then .noted token else .lost := by
  have hplaces : ∀ r ∈ rs, r.left = 0 ∧ ∃ b, r.stage.Ends b := by
    intro r hr
    have hat := h.places r hr
    rw [List.filterMap_eq_nil_iff.1 hgone r hr] at hat
    exact hat.of_gone
  have hwins : ∀ r ∈ rs, ∀ token, r.stage.written? = some token →
      (r.contender, token) ∈ Runner.wins rs := by
    intro r hr token hwritten
    refine List.mem_filterMap.2 ⟨r, hr, ?_⟩
    rw [Runner.win?, hwritten]
    rfl
  obtain ⟨winner, token, hone, hstores⟩ : ∃ winner token, Runner.wins rs = [(winner, token)] ∧
      w.Stores k.key token (k.written winner + winner.ttl) := by
    have hd := h.decision
    generalize hall : Runner.wins rs = wins at hd
    cases hd with
    | decided hstores => exact ⟨_, _, rfl, hstores⟩
    | undecided _ =>
      -- the first contender has won or lost, and nobody loses against nobody
      obtain ⟨c, hc⟩ := List.exists_mem_of_ne_nil _ hk.entered
      rw [← h.contenders] at hc
      obtain ⟨r, hr, rfl⟩ := List.mem_map.1 hc
      obtain ⟨-, b, hs⟩ := hplaces r hr
      cases hstage : r.stage with
      | noted token =>
        have hmem := hwins r hr token (by rw [hstage]; rfl)
        rw [hall] at hmem
        cases hmem
      | lost => exact absurd hall (h.lost r hr hstage)
      | _ =>
        rw [hstage] at hs
        exact hs.elim
  have hwinner : (winner, token) ∈ Runner.wins rs := by
    rw [hone]
    exact List.mem_singleton.2 rfl
  obtain ⟨r₀, hr₀, hwin⟩ := List.mem_filterMap.1 hwinner
  obtain ⟨token', hwritten, heq⟩ := Option.map_eq_some_iff.1 hwin
  obtain ⟨rfl, rfl⟩ := Prod.mk.inj heq
  refine ⟨r₀.contender, h.contender_mem hr₀, token', hstores, h.deadline hk hwinner, ?_⟩
  intro r hr
  obtain ⟨hleft, b, hs⟩ := hplaces r hr
  refine ⟨hleft ▸ Nat.zero_le 1, ?_⟩
  cases hstage : r.stage with
  | noted token =>
    have hmem := hwins r hr token (by rw [hstage]; rfl)
    rw [hone] at hmem
    obtain ⟨hcontender, rfl⟩ := Prod.mk.inj (List.mem_singleton.1 hmem)
    rw [if_pos hcontender]
  | lost =>
    refine (if_neg fun heq => ?_).symm
    obtain ⟨before, after, rfl⟩ := List.append_of_mem hr₀
    rcases List.mem_cons.1 (List.perm_middle.mem_iff.1 hr) with rfl | hr
    · rw [hstage] at hwritten
      cases hwritten
    · exact h.owner_ne hk hr (congrArg Contender.owner heq)
  | _ =>
    rw [hstage] at hs
    exact hs.elim

end Standing

end Contest

/-- A contest for a lock that is free, between different owners who do not hold it, on an open store
that is not sharded and has a connection for each of them. Every lifetime is longer than a write
takes, and than the time between the first and the last call.

In whatever order the contenders go on, they take so many steps together at most, and as long as one
of them is on its way there is a next step. When all are gone exactly one has been told that it has
the lock, and all others that they have not. It is the one whose registry has an entry, and the
value of the key is its token, which is not gone. -/
theorem contest_has_one_winner {k : Contest} (hk : k.Fair) {tr : List Event} {s : Machine X}
    (h : Run Machine.PromptStep k.machine tr s) :
    tr.length ≤ 21 * k.contenders.length ∧
    (s.threads ≠ [] → ∃ ev s', Machine.PromptStep s ev s') ∧
    (s.threads = [] → ∃ winner ∈ k.contenders, ∃ token,
      (∀ c ∈ k.contenders,
        (∃ log, .returned (c.call k.lock) log (.ok (decide (c = winner))) ∈ tr) ∧
        (∀ log a, .returned (c.call k.lock) log a ∈ tr → a = .ok (decide (c = winner))) ∧
        s.world.heldBy c.owner k.lock = if c = winner then some token else none) ∧
      s.world.store.keyspace.live? s.world.now k.key =
        some ⟨Entry.ofText token, some (k.written winner + winner.ttl)⟩) := by
  obtain ⟨rs, hthreads, hstanding, hleft⟩ := Contest.Standing.of_run hk h
  refine ⟨by omega, fun hne => ?_, fun hgone => ?_⟩
  · rw [hthreads] at hne
    obtain ⟨ev, s', hstep⟩ := hstanding.progress hne
    rw [← hthreads] at hstep
    exact ⟨ev, s', hstep⟩
  · rw [hthreads] at hgone
    obtain ⟨winner, hwinner, token, hstores, hnow, hrunners⟩ := hstanding.outcome hk hgone
    refine ⟨winner, hwinner, token, fun c hc => ?_, ?_⟩
    · rw [← hstanding.contenders] at hc
      obtain ⟨r, hr, rfl⟩ := List.mem_map.1 hc
      obtain ⟨hleft, hstage⟩ := hrunners r hr
      have hends : r.stage.Ends (decide (r.contender = winner)) := by
        rw [hstage]
        by_cases heq : r.contender = winner <;> simp [heq, Contest.Stage.Ends]
      have hanswer : ∀ log a, .returned (r.contender.call k.lock) log a ∈ tr →
          a = .ok (decide (r.contender = winner)) := by
        intro log a hmem
        obtain ⟨b, hb, rfl⟩ := hstanding.answered r hr log a hmem
        rw [hends.unique hb]
      obtain ⟨log, a, hmem⟩ := (hstanding.returned r hr).2 hleft
      refine ⟨⟨log, hanswer log a hmem ▸ hmem⟩, hanswer, ?_⟩
      rw [hstanding.noted r hr, hstage]
      split <;> rfl
    · exact Keyspace.live?_eq_some.2 ⟨hstores, decide_eq_true hnow⟩

/-- Three contenders, two of them contexts of one manager, for a lock whose last holder has let it
expire. Writes take five milliseconds, and one contender calls a little later than the others. -/
def Contest.race : Contest where
  lock := "l"
  world :=
    { World.ofStore { Memory.standalone with
        latency := 5
        pool := .ofLimit 3
        keyspace := Table.insert ∅ (lockKey "l") ⟨Entry.ofText "old", some 7⟩ } 0
      with now := 10 }
  contenders := [⟨{ id := 0 }, "a", 10, 0, 0⟩, ⟨{ id := 0 }, "b", 20, 0, 3⟩,
    ⟨{ id := 1 }, "a", 30, 0, 0⟩]

/-- The race is fair and comes to its end, and one of the three has won. -/
theorem contest_has_one_winner_of_three :
    Contest.race.Fair ∧ ∃ tr s, Run Machine.PromptStep (Contest.race.machine (X := .none)) tr s ∧
      s.threads = [] ∧ tr.length ≤ 63 ∧ ∃ winner ∈ Contest.race.contenders,
        (∃ log, .returned (winner.call Contest.race.lock) log (.ok true) ∈ tr) ∧
        ∀ c ∈ Contest.race.contenders, c ≠ winner →
          ∃ log, .returned (c.call Contest.race.lock) log (.ok false) ∈ tr := by
  have hfair : Contest.race.Fair := by constructor <;> decide
  obtain ⟨tr, s, hrun, hend⟩ := (Contest.Standing.start (X := .none) hfair).finish hfair
  rw [Contest.Standing.threads_runners] at hrun
  obtain ⟨hlength, -, hone⟩ := contest_has_one_winner hfair hrun
  obtain ⟨winner, hwinner, token, hall, -⟩ := hone hend
  refine ⟨hfair, tr, s, hrun, hend, hlength, winner, hwinner, ?_, fun c hc hne => ?_⟩
  · simpa using (hall winner hwinner).1
  · simpa [hne] using (hall c hc).1

end Latchkey
