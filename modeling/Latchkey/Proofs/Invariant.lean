import Latchkey.Proofs.Knowledge

/-!
# The invariant of runs

In every state of a run the world is lawful, what each thread knows is true, no two threads share a
secret token, and a secret token is not recorded.

The main statement is `Machine.lawful_of_run`: the invariant holds in every run in which nobody but
lock operations touches locks.
-/

namespace Latchkey

variable {X : Extension}

/-! ## Threads -/

namespace Thread

variable {mode : Scheduling} {tr : List Event} {own : Option Token} {w w' : World} {ev : Event}
  {th : Thread X}

/-- The token that no other thread knows. -/
def secret? : Thread X → Option Token
  | .between _ => none
  | .inside o log _ _ => o.owner?.bind fun _ => (o.phase log).secret?

/-- What a lock operation on its way knows is true. -/
def Lawful (mode : Scheduling) (tr : List Event) (w : World) : Thread X → Prop
  | .between _ => True
  | .inside o log t _ => o.IsLock →
      o.program.After log t.program ∧ (o.phase log).Fits mode tr w o t.wait

/-- What a thread knows stays true while another one takes a step. -/
theorem Lawful.frame (h : th.Lawful mode tr w) (hw : w.Lawful tr)
    (hkey : ∀ key, KeyChange tr own w ev w' key) (hnow : w.now ≤ w'.now)
    (hdeployment : w'.store.deployment = w.store.deployment)
    (hsecret : ∀ token, th.secret? = some token → own ≠ some token ∧ ¬ Recorded tr token)
    (hfirm : ¬ th.Suspended → w'.now = w.now ∧ ((∃ o x, ev = .did o x) → mode = .parallel)) :
    th.Lawful mode (tr ++ [ev]) w' := by
  cases th with
  | between t => trivial
  | inside o log t next =>
    intro ho
    obtain ⟨hafter, hf⟩ := h ho
    obtain ⟨p, hp⟩ := Option.isSome_iff_exists.1 ho
    refine ⟨hafter, hf.frame hkey hnow hdeployment ?_ hw.unique ?_ ?_⟩
    · intro p lock token hm
      obtain ⟨n, -, hn⟩ := hw.serial p lock token hm
      exact ⟨n, hn⟩
    · intro token hs
      exact hsecret token (by simp [secret?, hp, hs])
    · intro _ hwait
      exact hfirm (by simp [Suspended, hwait])

theorem Lawful.serial (h : th.Lawful mode tr w) (hw : w.Lawful tr) {token : Token}
    (hs : th.secret? = some token) : ∃ n < w.nextToken, token = Token.ofSerial n := by
  cases th with
  | between t => cases hs
  | inside o log t next =>
    obtain ⟨p, hp, hs⟩ := Option.bind_eq_some_iff.1 hs
    obtain ⟨-, hf⟩ := h (by simp [Operation.IsLock, hp])
    obtain ⟨p, lock, -, hm⟩ := hf.owns hs
    exact hw.serial p lock token hm

end Thread

/-! ## Steps of threads -/

/-- A task that waits changes nothing but the pool. -/
theorem Task.alike_of_waits {α : Type} {w w' : World} {t t' : Task X α}
    (hs : t.step w = .waits w' t') : w.Alike w' := by
  rcases step_eq_waits hs with ⟨rfl, -⟩ | ⟨e, k, wait, -, -, hwait, -⟩
  · exact .refl _
  · exact w.wait?_alike hwait

namespace Thread

variable {mode : Scheduling} {tr : List Event} {w w' : World} {ev : Event} {th : Thread X}
  {th' : Option (Thread X)}

/-- What a step of a thread comes to. -/
structure Outcome (mode : Scheduling) (tr : List Event) (w : World) (th : Thread X) (ev : Event)
    (w' : World) (th' : Option (Thread X)) : Prop where
  /-- Keys change as they may. -/
  key : ∀ key, KeyChange tr th.secret? w ev w' key
  now : w'.now = w.now
  deployment : w'.store.deployment = w.store.deployment
  nextToken : w.nextToken ≤ w'.nextToken
  world : w'.Lawful (tr ++ [ev])
  /-- What the thread knows is true. -/
  thread : ∀ t ∈ th', t.Lawful mode (tr ++ [ev]) w'
  /-- A new secret is the next token. -/
  secret : ∀ t ∈ th', ∀ token, t.secret? = some token →
    th.secret? = some token ∨ token = Token.ofSerial w.nextToken
  /-- What is recorded is a secret no longer. -/
  recorded : ∀ token, Recorded (tr ++ [ev]) token →
    Recorded tr token ∨ th.secret? = some token ∧ ∀ t ∈ th', t.secret? = none

/-- A step that leaves locks alone comes to nothing new. -/
theorem Outcome.spares (hw : w.Lawful tr) (hev : ¬ ev.IsDeed) (hsp : w.Spares w')
    (hnow : w'.now = w.now) (hdeployment : w'.store.deployment = w.store.deployment)
    (hth : ∀ t ∈ th', t.Lawful mode (tr ++ [ev]) w')
    (hsecret : ∀ t ∈ th', ∀ token, t.secret? = some token → th.secret? = some token) :
    Outcome mode tr w th ev w' th' where
  key := hsp.keyChange _
  now := hnow
  deployment := hdeployment
  nextToken := Nat.le_of_eq hsp.nextToken.symm
  world := hw.spares hev hsp
  thread := hth
  secret := fun t ht token hs => .inl (hsecret t ht token hs)
  recorded := fun _ h => .inl (World.recorded_of_not_isDeed hev h)

/-- A step to where no operation is on its way, by no deed, comes to nothing new. -/
theorem Outcome.between {t : Task (client X) Unit} (hw : w.Lawful tr) (hev : ∀ o x, ev ≠ .did o x)
    (hsp : w.Spares w') (hnow : w'.now = w.now)
    (hdeployment : w'.store.deployment = w.store.deployment) :
    Outcome mode tr w th ev w' (some (.between t)) := by
  refine .spares hw (Event.not_isDeed hev) hsp hnow hdeployment ?_ ?_
  · rintro t ⟨⟩
    trivial
  · rintro t ⟨⟩ token hs
    cases hs

theorem Lawful.await {o : Operation} {log : List Exchange} {t t' : Task X o.Answer}
    {next : o.Answer → Client X Unit} (h : (inside o log t next).Lawful mode tr w)
    (hs : t.step w = .waits w' t') (ev : Event) :
    w.Alike w' ∧ (inside o log t' next).Lawful mode (tr ++ [ev]) w' := by
  rcases Task.step_eq_waits hs with ⟨rfl, rfl, -⟩ | ⟨e, k, wait, hp, hnone, hwait, rfl⟩
  · refine ⟨.refl _, fun ho => ?_⟩
    obtain ⟨hafter, hf⟩ := h ho
    exact ⟨hafter, hf.alike ev rfl rfl rfl⟩
  · have ha := w.wait?_alike hwait
    refine ⟨ha, fun ho => ?_⟩
    obtain ⟨hafter, hf⟩ := h ho
    refine ⟨hafter, (hf.alike ev ha.now ha.keyspace ha.deployment).rewait fun hfirm => ?_⟩
    have hpermits := (o.obeys ho).permits (hp ▸ hafter)
    exact absurd hfirm (Deed.not_isFirm_of_wait? hpermits hwait)

/-- What a lock operation comes to that does a deed. -/
theorem Outcome.deed {o : Operation} {log : List Exchange} {t t' : Task X o.Answer}
    {next : o.Answer → Client X Unit} {x : Exchange} (ho : o.IsLock) (hs : t.step w = .moved w' t')
    (hx : t.exchange? w = some x) (hw : w.Lawful tr)
    (hth : (inside o log t next).Lawful mode tr w) :
    Outcome mode tr w (inside o log t next) (.did o x) w'
      (some (inside o (log ++ [x]) t' next)) := by
  obtain ⟨hafter, hf⟩ := hth ho
  obtain ⟨k, hp, -, hanswer, rfl⟩ := Task.step_eq_moved hs hx
  have hd : Deed w o (o.phase log) x w' (o.phase (log ++ [x])) := by
    rw [Operation.phase_concat]
    exact .of_answer ((o.obeys ho).permits (hp ▸ hafter)) hanswer
  obtain ⟨p, hp'⟩ := Option.isSome_iff_exists.1 ho
  have hsecret : ∀ (log : List Exchange) (t : Task X o.Answer), (inside o log t next).secret? =
      (o.phase log).secret? := fun log t => by simp [secret?, hp']
  refine ⟨fun key => ?_, hd.now_eq, hd.deployment_eq, hd.nextToken_le, hd.lawful hw hf, ?_, ?_, ?_⟩
  · rw [hsecret]
    exact hd.keyChange hf key
  · rintro _ ⟨⟩ -
    exact ⟨(hp ▸ hafter).effect x.reply, hd.fits hw hf⟩
  · rintro _ ⟨⟩ token hs
    rw [hsecret] at hs ⊢
    rcases hd.secret?_eq with h | h | h
    · exact .inl (h ▸ hs)
    · cases hs.symm.trans h
    · exact .inr (Option.some.inj (hs.symm.trans h))
  · intro token hrec
    rcases hd.recorded hrec with hrec | ⟨hs, hnone⟩
    · exact .inl hrec
    · refine .inr ⟨(hsecret log t).trans hs, ?_⟩
      rintro _ ⟨⟩
      exact (hsecret _ _).trans hnone

/-- What a step of a thread comes to, when the thread knows what is true. -/
theorem Step.outcome (h : th.Step w ev w' th') (hw : w.Lawful tr) (hth : th.Lawful mode tr w)
    (hsp : ev.IsForeign → w.Spares w') : Outcome mode tr w th ev w' th' := by
  have hstill : w.Spares w := (World.Alike.refl w).spares
  cases h with
  | @perform t t' w' x hs hx =>
    obtain ⟨k, -, -, hanswer, -⟩ := Task.step_eq_moved hs hx
    obtain rfl := congrArg Prod.fst hanswer
    exact .between hw (fun _ _ h => by cases h) (hsp trivial) (w.answer_now ..)
      (w.answer_deployment ..)
  | rest hs =>
    have ha := Task.alike_of_waits hs
    exact .between hw (fun _ _ h => by cases h) ha.spares ha.now ha.deployment
  | hear hs r => exact .between hw (fun _ _ h => by cases h) hstill rfl rfl
  | finish hs =>
    refine .spares hw (Event.not_isDeed fun _ _ h => by cases h) hstill rfl rfl ?_ ?_
    · rintro t ⟨⟩
    · rintro t ⟨⟩
  | @call t o next hs ho =>
    have hstart : o.start = .seeking 0 := by
      cases o with
      | clear guard token => exact ho.elim
      | _ => rfl
    refine .spares hw (Event.not_isDeed fun _ _ h => by cases h) hstill rfl rfl ?_ ?_
    · rintro t ⟨⟩ -
      refine ⟨.start, ?_⟩
      rw [Operation.phase_nil, hstart]
      exact Nat.zero_le _
    · rintro t ⟨⟩ token hs
      obtain ⟨-, -, hs⟩ := Option.bind_eq_some_iff.1 hs
      rw [Operation.phase_nil, hstart] at hs
      cases hs
  | @work o log t t' next w' x hs hx =>
    by_cases ho : o.IsLock
    · exact .deed ho hs hx hw hth
    · obtain ⟨k, -, -, hanswer, -⟩ := Task.step_eq_moved hs hx
      obtain rfl := congrArg Prod.fst hanswer
      refine .spares hw ?_ (hsp ho) (w.answer_now ..) (w.answer_deployment ..) ?_ ?_
      · rintro ⟨o', x', hev, ho'⟩
        cases hev
        exact ho ho'
      · rintro t ⟨⟩ ho'
        exact absurd ho' ho
      · rintro t ⟨⟩ token hs
        obtain ⟨p, hp, -⟩ := Option.bind_eq_some_iff.1 hs
        exact absurd (by simp [Operation.IsLock, hp]) ho
  | await hs =>
    obtain ⟨ha, hth'⟩ := hth.await hs .silent
    refine .spares hw (Event.not_isDeed fun _ _ h => by cases h) ha.spares ha.now ha.deployment
      ?_ ?_
    · rintro t ⟨⟩
      exact hth'
    · rintro t ⟨⟩ token hs
      exact hs
  | «return» hs => exact .between hw (fun _ _ h => by cases h) hstill rfl rfl

end Thread

/-! ## What a drop forgets -/

/-- Nothing changes but that locks may be forgotten. -/
structure World.Forgets (w w' : World) : Prop where
  now : w'.now = w.now
  nextToken : w'.nextToken = w.nextToken
  keyspace : w'.store.keyspace = w.store.keyspace
  deployment : w'.store.deployment = w.store.deployment
  heldBy : ∀ p lock token, w'.heldBy p lock = some token → w.heldBy p lock = some token

theorem World.Forgets.trans {w w' w'' : World} (h : w.Forgets w') (h' : w'.Forgets w'') :
    w.Forgets w'' where
  now := h'.now.trans h.now
  nextToken := h'.nextToken.trans h.nextToken
  keyspace := h'.keyspace.trans h.keyspace
  deployment := h'.deployment.trans h.deployment
  heldBy := fun p lock token hheld => h.heldBy p lock token (h'.heldBy p lock token hheld)

theorem World.Alike.forgets {w w' : World} (h : w.Alike w') : w.Forgets w' where
  now := h.now
  nextToken := h.nextToken
  keyspace := h.keyspace
  deployment := h.deployment
  heldBy := fun p lock token hheld => by
    rw [Ledger.heldBy, Ledger.registry, h.registries] at hheld
    exact hheld

namespace Task

theorem forgetGuard_forgets (w : World) (g : Guard) : w.Forgets (forgetGuard w g).1 := by
  unfold forgetGuard
  split
  · exact (World.Alike.refl w).forgets
  · refine ⟨rfl, rfl, rfl, rfl, fun p lock token hheld => ?_⟩
    have hheld : (w.forgetFor ⟨g.manager, g.ctx⟩ g.lock).heldBy p lock = some token := hheld
    rw [Ledger.heldBy_forgetFor] at hheld
    split at hheld
    · cases hheld
    · exact hheld

theorem forgetGuards_forgets (w : World) (gs : List Guard) :
    w.Forgets (forgetGuards w gs).1 := by
  induction gs generalizing w with
  | nil => exact (World.Alike.refl w).forgets
  | cons g rest ih => exact (forgetGuard_forgets w g).trans (ih _)

theorem drop_forgets {α : Type} (w : World) (t : Task X α) : w.Forgets (t.drop w).1 := by
  obtain ⟨w', halike, hdrop⟩ := drop_eq w t
  rw [hdrop]
  exact halike.forgets.trans (forgetGuards_forgets w' t.guards)

/-- What is given up was held. -/
theorem heldBy_of_mem_forsaken {w : World} {gs : List Guard} {d : Guard × Token}
    (h : d ∈ forsaken w gs) : w.heldBy ⟨d.1.manager, d.1.ctx⟩ d.1.lock = some d.2 := by
  induction gs generalizing w with
  | nil => cases h
  | cons g rest ih =>
    rcases List.mem_append.1 h with h | h
    · obtain ⟨a, ha, rfl⟩ := List.mem_map.1 h
      unfold forgetGuard at ha
      split at ha
      · cases ha
      · next token hheld =>
        cases List.mem_singleton.1 ha
        exact hheld
    · exact (forgetGuard_forgets w g).heldBy _ _ _ (ih h)

end Task

theorem Thread.drop_forgets (w : World) (th : Thread X) : w.Forgets (th.drop w) := by
  cases th with
  | between t => exact Task.drop_forgets w t
  | inside o log t next => exact Task.drop_forgets w t

/-! ## Machines -/

/-- Removing an element from a list without repetitions leaves such a list, and the element is not
in it. -/
theorem nodup_filterMap_middle {α β : Type} {f : α → Option β} {pre post : List α} {a : α} :
    ((pre ++ a :: post).filterMap f).Nodup ↔
      ((pre ++ post).filterMap f).Nodup ∧ ∀ b, f a = some b → b ∉ (pre ++ post).filterMap f := by
  rw [(List.Perm.filterMap f List.perm_middle).nodup_iff, List.filterMap_cons]
  cases f a with
  | none => simp
  | some b => simp [and_comm]

theorem mem_middle_of_mem {α : Type} {pre post : List α} {a b : α} (h : b ∈ pre ++ post) :
    b ∈ pre ++ a :: post :=
  List.perm_middle.mem_iff.2 (List.mem_cons_of_mem _ h)

namespace Machine

variable {mode : Scheduling} {tr : List Event} {s s' : Machine X} {ev : Event}

/-- A machine before anything has happened: nobody holds a lock, and the store has neither lock keys
nor tokens. -/
structure Initial (s : Machine X) : Prop where
  threads : s.threads = []
  registries : ∀ p lock, s.world.heldBy p lock = none
  keys : ∀ lock, s.world.store.keyspace.find? (lockKey lock) = none
  tokens : ∀ key e n, s.world.store.keyspace.find? key = some e →
    e.holds (Token.ofSerial n) = false

/-- A step of a machine in which nobody but lock operations touches locks. -/
structure LockStep (mode : Scheduling) (s : Machine X) (ev : Event) (s' : Machine X) : Prop where
  step : Step mode s ev s'
  spares : ev.IsForeign → s.world.Spares s'.world

/-- The invariant of runs. -/
structure Lawful (mode : Scheduling) (tr : List Event) (s : Machine X) : Prop where
  world : s.world.Lawful tr
  /-- What each thread knows is true. -/
  threads : ∀ th ∈ s.threads, th.Lawful mode tr s.world
  /-- No two threads share a secret. -/
  distinct : (s.threads.filterMap Thread.secret?).Nodup
  /-- A secret is not recorded. -/
  hidden : ∀ token ∈ s.threads.filterMap Thread.secret?, ¬ Recorded tr token

theorem Initial.lawful (h : s.Initial) : s.Lawful mode [] where
  world := {
    serial := by
      rintro p lock token ⟨o, -, hmem⟩
      cases hmem
    unique := by
      rintro p p' lock lock' token ⟨o, -, hmem⟩
      cases hmem
    recorded := by
      rintro token ⟨o, p, lock, -, hmem⟩
      cases hmem
    registry := by
      intro p lock token hheld
      rw [h.registries] at hheld
      cases hheld
    keys := by
      rintro key e he (⟨lock, rfl⟩ | ⟨n, hn⟩)
      · rw [h.keys] at he
        cases he
      · exact absurd ((h.tokens key e n he).symm.trans hn) Bool.false_ne_true }
  threads := by
    intro th hth
    rw [h.threads] at hth
    cases hth
  distinct := by
    rw [h.threads]
    exact List.nodup_nil
  hidden := by
    intro token htoken
    rw [h.threads] at htoken
    cases htoken

namespace Lawful

theorem apart {w : World} {pre post : List (Thread X)} {th : Thread X}
    (h : Lawful mode tr ⟨w, pre ++ th :: post⟩) :
    ∀ th' ∈ pre ++ post, ∀ token, th'.secret? = some token →
      th.secret? ≠ some token ∧ ¬ Recorded tr token := by
  intro th' hmem token hs
  have htoken : token ∈ (pre ++ post).filterMap Thread.secret? :=
    List.mem_filterMap.2 ⟨th', hmem, hs⟩
  refine ⟨fun heq => (nodup_filterMap_middle.1 h.distinct).2 token heq htoken, h.hidden token ?_⟩
  exact List.mem_filterMap.2 ⟨th', mem_middle_of_mem hmem, hs⟩

/-- The invariant is kept by the steps of threads. -/
theorem thread {w w' : World} {pre post : List (Thread X)} {th : Thread X}
    {th' : Option (Thread X)} (h : Lawful mode tr ⟨w, pre ++ th :: post⟩)
    (hm : mode.Admits (pre ++ post)) (hout : th.Outcome mode tr w ev w' th') :
    Lawful mode (tr ++ [ev]) ⟨w', pre ++ th'.toList ++ post⟩ := by
  have hmem : ∀ t, t ∈ pre ++ th'.toList ++ post ↔ t ∈ th' ∨ t ∈ pre ++ post := by
    intro t
    simp only [List.mem_append, Option.mem_toList]
    constructor
    · rintro ((h | h) | h)
      · exact .inr (.inl h)
      · exact .inl h
      · exact .inr (.inr h)
    · rintro (h | h | h)
      · exact .inl (.inr h)
      · exact .inl (.inl h)
      · exact .inr h
  have hfresh : ∀ t ∈ pre ++ post, t.secret? ≠ some (Token.ofSerial w.nextToken) := by
    intro t ht hs
    obtain ⟨n, hlt, hn⟩ := (h.threads t (mem_middle_of_mem ht)).serial h.world hs
    obtain rfl := Token.ofSerial_inj.1 hn
    exact absurd hlt (Nat.lt_irrefl _)
  refine ⟨hout.world, fun t ht => ?_, ?_, fun token htoken hrec => ?_⟩
  -- what the others know is about their own secrets, which this thread does not have
  · rcases (hmem t).1 ht with ht | ht
    · exact hout.thread t ht
    · refine (h.threads t (mem_middle_of_mem ht)).frame h.world hout.key
        (Nat.le_of_eq hout.now.symm) hout.deployment (h.apart t ht) fun hrest => ?_
      refine ⟨hout.now, fun _ => ?_⟩
      -- cooperative threads go on only while all others are suspended
      cases mode with
      | cooperative => exact absurd (hm t ht) hrest
      | parallel => rfl
  · obtain ⟨hnodup, hown⟩ := nodup_filterMap_middle.1 h.distinct
    cases th' with
    | none => simpa using hnodup
    | some t =>
      rw [Option.toList_some, List.append_assoc, List.singleton_append, nodup_filterMap_middle]
      refine ⟨hnodup, fun token hs hmem' => ?_⟩
      rcases hout.secret t rfl token hs with hs' | rfl
      · exact hown token hs' hmem'
      · obtain ⟨t', ht', hs'⟩ := List.mem_filterMap.1 hmem'
        exact hfresh t' ht' hs'
  · obtain ⟨t, ht, hs⟩ := List.mem_filterMap.1 htoken
    rcases (hmem t).1 ht with ht | ht
    · rcases hout.recorded token hrec with hrec | ⟨-, hnone⟩
      · rcases hout.secret t ht token hs with hs' | rfl
        · refine h.hidden token (List.mem_filterMap.2 ⟨th, ?_, hs'⟩) hrec
          exact List.mem_append_right _ List.mem_cons_self
        · obtain ⟨p, lock, hminted⟩ := h.world.recorded _ hrec
          obtain ⟨n, hlt, hn⟩ := h.world.serial _ _ _ hminted
          obtain rfl := Token.ofSerial_inj.1 hn
          exact absurd hlt (Nat.lt_irrefl _)
      · cases (hnone t ht).symm.trans hs
    · obtain ⟨hown, hno⟩ := h.apart t ht token hs
      rcases hout.recorded token hrec with hrec | ⟨hs', -⟩
      · exact hno hrec
      · exact hown hs'

/-- The invariant is kept by steps that are no deeds. -/
theorem quiet (h : s.Lawful mode tr) (hev : ∀ o x, ev ≠ .did o x)
    (hkey : ∀ key, KeyChange tr none s.world ev s'.world key)
    (hnow : s.world.now ≤ s'.world.now)
    (hdeployment : s'.world.store.deployment = s.world.store.deployment)
    (hnext : s'.world.nextToken = s.world.nextToken)
    (hreg : ∀ p lock token, s'.world.heldBy p lock = some token →
      s.world.heldBy p lock = some token)
    (hthreads : ∀ th ∈ s'.threads, th.Lawful mode (tr ++ [ev]) s'.world ∨
      th ∈ s.threads ∧ (¬ th.Suspended → s'.world.now = s.world.now))
    (hsecrets : (s'.threads.filterMap Thread.secret?).Sublist
      (s.threads.filterMap Thread.secret?)) :
    s'.Lawful mode (tr ++ [ev]) := by
  have hdeed : ¬ ev.IsDeed := Event.not_isDeed hev
  refine ⟨h.world.quiet hdeed hkey hnext hreg, fun th hth => ?_, h.distinct.sublist hsecrets,
    fun token htoken hrec => ?_⟩
  · rcases hthreads th hth with hl | ⟨hmem, hrest⟩
    · exact hl
    · refine (h.threads th hmem).frame h.world hkey hnow hdeployment ?_ fun hs => ?_
      · intro token hs
        exact ⟨fun h => (by cases h), h.hidden token (List.mem_filterMap.2 ⟨th, hmem, hs⟩)⟩
      · exact ⟨hrest hs, fun ⟨o, x, hx⟩ => absurd hx (hev o x)⟩
  · exact h.hidden token (hsecrets.subset htoken) (World.recorded_of_not_isDeed hdeed hrec)

theorem start {w : World} {threads : List (Thread X)} (h : Lawful mode tr ⟨w, threads⟩)
    (c : Client X Unit) :
    Lawful mode (tr ++ [.silent]) ⟨w, threads ++ [.between { program := c }]⟩ := by
  refine h.quiet (fun _ _ h => by cases h) (fun _ => .same rfl) (Nat.le_refl _) rfl rfl
    (fun _ _ _ hheld => hheld) (fun th hth => ?_) ?_
  · rcases List.mem_append.1 hth with hth | hth
    · exact .inr ⟨hth, fun _ => rfl⟩
    · cases List.mem_singleton.1 hth
      exact .inl trivial
  · simp [Thread.secret?]

/-- The invariant is kept when a thread is dropped and the keys of its sections are to be deleted.
-/
theorem drop {w : World} {pre post : List (Thread X)} {th : Thread X}
    (h : Lawful mode tr ⟨w, pre ++ th :: post⟩) (runtime : Bool) :
    Lawful mode (tr ++ [.dropped (Task.forsaken w th.guards)])
      ⟨th.drop w, pre ++ post ++
        if runtime then (Task.forsaken w th.guards).map Thread.deletion else []⟩ := by
  have hf := th.drop_forgets w
  refine h.quiet (fun _ _ h => by cases h) (fun _ => .same (by rw [hf.keyspace]))
    (Nat.le_of_eq hf.now.symm) hf.deployment hf.nextToken hf.heldBy (fun t ht => ?_) ?_
  · rcases List.mem_append.1 ht with ht | ht
    · exact .inr ⟨mem_middle_of_mem ht, fun _ => hf.now⟩
    · obtain ⟨d, hd, rfl⟩ : ∃ d ∈ Task.forsaken w th.guards, Thread.deletion d = t := by
        cases runtime with
        | true => exact List.mem_map.1 ht
        | false => cases ht
      obtain ⟨hm, hrec⟩ := h.world.registry _ _ _ (Task.heldBy_of_mem_forsaken hd)
      refine .inl fun _ => ⟨.start, ?_⟩
      exact ⟨⟨_, _, ⟨rfl, rfl⟩, hm.append _⟩, hrec.append _⟩
  · have hnone : (if runtime then (Task.forsaken w th.guards).map (Thread.deletion (X := X))
        else []).filterMap Thread.secret? = [] := by
      cases runtime with
      | true => simp [Thread.secret?, Thread.deletion, Operation.start, Phase.secret?]
      | false => rfl
    rw [List.filterMap_append, hnone, List.append_nil]
    exact ((List.Sublist.refl pre).append (List.sublist_cons_self th post)).filterMap _

theorem purge (h : s.Lawful mode tr) :
    (s.withStore (s.world.store.purge s.world.now).1).Lawful mode (tr ++ [.purged]) :=
  h.quiet (fun _ _ h => by cases h) (fun key => .of_purge s.world none key) (Nat.le_refl _) rfl rfl
    (fun _ _ _ hheld => hheld) (fun _ hth => .inr ⟨hth, fun _ => rfl⟩) (List.Sublist.refl _)

/-- The invariant is kept by all steps. -/
theorem step (h : s.Lawful mode tr) (hs : s.LockStep mode ev s') :
    s'.Lawful mode (tr ++ [ev]) := by
  obtain ⟨hstep, hsp⟩ := hs
  cases hstep with
  | @thread w w' pre post th th' ev hm hth =>
    have hlawful := h.threads th (List.mem_append_right _ List.mem_cons_self)
    exact h.thread hm (hth.outcome h.world hlawful hsp)
  | start c => exact h.start c
  | drop runtime hs => exact h.drop runtime
  | purge => exact h.purge
  | elapse ms hs =>
    exact h.quiet (fun _ _ h => by cases h) (fun _ => .same rfl) (Nat.le_add_right _ _) rfl rfl
      (fun _ _ _ hheld => hheld) (fun th hth => .inr ⟨hth, fun hrest => absurd (hs th hth) hrest⟩)
      (List.Sublist.refl _)
  | configure d hd =>
    exact h.quiet (fun _ _ h => by cases h) (fun _ => .same rfl) (Nat.le_refl _) rfl rfl
      (fun _ _ _ hheld => hheld) (fun th hth => .inr ⟨hth, fun _ => rfl⟩) (List.Sublist.refl _)

theorem run {tr' : List Event} (h : s.Lawful mode tr) (hr : Run (LockStep mode) s tr' s') :
    s'.Lawful mode (tr ++ tr') := by
  induction hr with
  | nil => simpa using h
  | snoc hr hs ih => simpa using ih.step hs

end Lawful

/-- The invariant holds in every run. -/
theorem lawful_of_run (hs : s.Initial) (h : Run (LockStep mode) s tr s') : s'.Lawful mode tr :=
  hs.lawful.run h

/-- What a step does to a key. -/
theorem Lawful.keyChange (h : s.Lawful mode tr) (hs : s.LockStep mode ev s') (key : String) :
    ∃ own, KeyChange tr own s.world ev s'.world key ∧
      ∀ token, own = some token → ¬ Recorded tr token := by
  obtain ⟨hstep, hsp⟩ := hs
  cases hstep with
  | @thread w w' pre post th th' ev hm hth =>
    have hmem : th ∈ pre ++ th :: post := List.mem_append_right _ List.mem_cons_self
    have hout := hth.outcome h.world (h.threads th hmem) hsp
    exact ⟨_, hout.key key, fun token hs => h.hidden token (List.mem_filterMap.2 ⟨th, hmem, hs⟩)⟩
  | @drop w pre post th runtime hs =>
    exact ⟨none, .same (by rw [(th.drop_forgets w).keyspace]), fun _ h => by cases h⟩
  | purge => exact ⟨none, .of_purge s.world none key, fun _ h => by cases h⟩
  | _ => exact ⟨none, .same rfl, fun _ h => by cases h⟩

/-- No time passes in a step that does not let it pass. -/
theorem Lawful.now_eq (h : s.Lawful mode tr) (hs : s.LockStep mode ev s')
    (hev : ∀ ms, ev ≠ .elapsed ms) : s'.world.now = s.world.now := by
  obtain ⟨hstep, hsp⟩ := hs
  cases hstep with
  | @thread w w' pre post th th' ev hm hth =>
    have hmem : th ∈ pre ++ th :: post := List.mem_append_right _ List.mem_cons_self
    exact (hth.outcome h.world (h.threads th hmem) hsp).now
  | @drop w pre post th runtime hs => exact (th.drop_forgets w).now
  | elapse ms hs => exact absurd rfl (hev ms)
  | _ => rfl

theorem Lawful.deployment_eq (h : s.Lawful mode tr) (hs : s.LockStep mode ev s') :
    s'.world.store.deployment = s.world.store.deployment := by
  obtain ⟨hstep, hsp⟩ := hs
  cases hstep with
  | @thread w w' pre post th th' ev hm hth =>
    have hmem : th ∈ pre ++ th :: post := List.mem_append_right _ List.mem_cons_self
    exact (hth.outcome h.world (h.threads th hmem) hsp).deployment
  | @drop w pre post th runtime hs => exact (th.drop_forgets w).deployment
  | _ => rfl

theorem deployment_of_run (hs : s.Initial) (h : Run (LockStep mode) s tr s') :
    s'.world.store.deployment = s.world.store.deployment := by
  induction h with
  | nil => rfl
  | snoc h hstep ih => exact ((lawful_of_run hs h).deployment_eq hstep).trans ih

end Machine

end Latchkey
