import Latchkey.Proofs.Tending

/-!
# Threads that use an owner, and threads that do not

A thread is apart from an owner if what is left of it does not use the owner, but to delete the keys
of sections that were dropped. A thread that uses a lock of an owner, and keeps to the order of
sections, is at some stage.

The main statements are that threads that are apart stay so (`Thread.Apart.step`), and what becomes
of the stage of the other one: `Thread.At.step_between` between operations,
`Thread.At.return_acquire` when an acquisition returns.
-/

namespace Latchkey

variable {X : Extension}

/-! ## Operations -/

namespace Operation

variable {o : Operation} {p : Owner} {lock : String}

/-- No operation begins or ends a guarded section. -/
theorem not_isSection {e : Effect} {log : List Exchange} {next : e.Reply → Program X o.Answer}
    (h : (o.program (X := X)).After log (.effect e next)) : ¬ e.IsSection := by
  by_cases ho : o.IsLock
  · have hp : o.permits _ e := (o.obeys ho).permits h
    intro hsection
    cases e with
    | arm guard => exact hp
    | disarm => exact hp
    | _ => exact hsection
  · have hserves : ∀ q, o.Uses q → ¬ e.IsSection := by
      intro q hq hsection
      have hp : o.mayServe q _ e := (serves hq).permits h
      cases e with
      | arm guard => exact hp
      | disarm => exact hp
      | _ => exact hsection
    cases o with
    | createFilter s =>
      cases hplan : FilterPlan.ofSettings s with
      | ok q => exact hserves q hplan
      | error failure =>
        have hdone : (createFilter s).program (X := X) = .done (.error failure) := by
          show (FilterPlan.create s).run = _
          unfold FilterPlan.create
          rw [hplan]
          rfl
        rw [hdone] at h
        cases h.of_done.2
    | addElement q element => exact hserves q rfl
    | testElement q element => exact hserves q rfl
    | _ => exact absurd rfl ho

/-- The operation does not use an owner, though it may delete a key for it. -/
def Shuns (p : Owner) (o : Operation) : Prop :=
  o.owner? = some p → ∃ guard token, o = .clear guard token

/-- The operation neither acts for an owner on a lock nor disposes of its context. -/
structure LeavesBe (p : Owner) (lock : String) (o : Operation) : Prop where
  acts : o.ActsFor p lock → ∃ guard token, o = .clear guard token
  dispose : ∀ m ctx, o = .dispose m ctx → (⟨m.id, ctx⟩ : Owner) ≠ p

theorem Shuns.leavesBe (h : o.Shuns p) (lock : String) : o.LeavesBe p lock where
  acts := fun hact => h hact.1
  dispose := by
    rintro m ctx rfl rfl
    obtain ⟨guard, token, heq⟩ := h rfl
    cases heq

/-- An operation that leaves a lock be does not write to the entry of the owner. -/
theorem LeavesBe.not_writes {s : Surrender} {e : Effect} (h : o.LeavesBe p lock)
    (hp : o.mayPerform s e) : ¬ e.Writes p lock := by
  intro hwrite
  cases e with
  | registry m a =>
    cases a with
    | held ctx lock' => exact hwrite
    | record ctx lock' token =>
      obtain ⟨rfl, rfl⟩ := hwrite
      obtain ⟨guard, token', rfl⟩ := h.acts hp.2
      exact hp.1
    | forget ctx lock' =>
      obtain ⟨rfl, rfl⟩ := hwrite
      obtain ⟨⟨m', rfl, rfl⟩, -⟩ := hp
      obtain ⟨guard, token', heq⟩ := h.acts ⟨rfl, rfl⟩
      cases heq
    | dispose ctx =>
      obtain ⟨m', rfl, rfl⟩ := hp
      exact h.dispose m' ctx rfl hwrite
  | _ => exact hwrite

/-- A call that is not for a lock leaves a client nothing to do. -/
theorem turn_eq_free (hact : ¬ o.ActsFor p lock) (guards : List Guard) (a : o.Answer) :
    o.turn (p.guard lock) guards a = .free := by
  have hne : ∀ (m : Manager) (ctx : Context) (lock' : String), o.owner? = some ⟨m.id, ctx⟩ →
      o.lock? = some lock' → (⟨m.id, ctx, lock'⟩ : Guard) ≠ p.guard lock := by
    intro m ctx lock' howner hlock heq
    obtain ⟨manager, ctx'⟩ := p
    cases heq
    exact hact ⟨howner, hlock⟩
  cases o with
  | acquire m ctx lock' ttl wait => exact if_neg fun h => hne m ctx lock' rfl rfl h.1
  | release m ctx lock' => exact if_neg (hne m ctx lock' rfl rfl)
  | _ => rfl

end Operation

theorem Task.guardsAfter_eq {e : Effect} (he : ¬ e.IsSection) (guards : List Guard) :
    Task.guardsAfter guards e = guards := by
  cases e with
  | arm guard => exact absurd trivial he
  | disarm => exact absurd trivial he
  | _ => rfl

/-! ## Threads -/

/-- A thread that does not use an owner, though it may delete keys for it. -/
def Thread.Apart (p : Owner) : Thread X → Prop
  | .between t => Client.Avoids p t.program ∧ ∀ g ∈ t.guards, g.owner ≠ p
  | .inside o _ t next =>
    o.Shuns p ∧ (∀ a, Client.Avoids p (next a)) ∧ ∀ g ∈ t.guards, g.owner ≠ p

/-- How far the thread has come that uses a lock of an owner. -/
inductive Thread.At (p : Owner) (lock : String) : Thread X → Stage → Prop where
  /-- It is in no call. -/
  | between {t : Task (client X) Unit} {turn : Turn}
      (hk : Client.Keeps (p.guard lock) t.program t.guards turn)
      (hw : turn = .due → t.wait = none) : At p lock (.between t) (.calm turn)
  /-- It acquires the lock. -/
  | acquiring {m : Manager} {ctx : Context} {ttl wait : Nat} {log : List Exchange}
      {t : Task X (Except Failure Bool)} {next : Except Failure Bool → Client X Unit}
      (howner : (⟨m.id, ctx⟩ : Owner) = p)
      (hnext : ∀ a, Client.Keeps (p.guard lock) (next a) t.guards
        ((Operation.acquire m ctx lock ttl wait).turn (p.guard lock) t.guards a)) :
      At p lock (.inside (.acquire m ctx lock ttl wait) log t next)
        (.acquiring ((Operation.acquire m ctx lock ttl wait).phase log))
  /-- It releases the lock. -/
  | releasing {m : Manager} {ctx : Context} {log : List Exchange}
      {t : Task X (Except Failure Bool)} {next : Except Failure Bool → Client X Unit}
      (howner : (⟨m.id, ctx⟩ : Owner) = p)
      (hnext : ∀ a, Client.Keeps (p.guard lock) (next a) t.guards .cleared) :
      At p lock (.inside (.release m ctx lock) log t next)
        (.releasing ((Operation.release m ctx lock).surrender log))
  /-- It is in a call that is not about the lock. -/
  | aside {o : Operation} {log : List Exchange} {t : Task X o.Answer}
      {next : o.Answer → Client X Unit} (ho : o.LeavesBe p lock)
      (hnext : ∀ a, Client.Keeps (p.guard lock) (next a) t.guards .free) :
      At p lock (.inside o log t next) (.calm .free)

namespace Thread

variable {p : Owner} {lock : String} {th : Thread X} {th' : Option (Thread X)} {w w' : World}
  {ev : Event} {st : Stage}

theorem not_mem_of_apart (h : th.Apart p) (lock : String) : p.guard lock ∉ th.guards := by
  intro hmem
  cases th with
  | between t => exact h.2 _ hmem rfl
  | inside o log t next => exact h.2.2 _ hmem rfl

theorem apart_deletion (d : Guard × Token) : (deletion (X := X) d).Apart p :=
  ⟨fun _ => ⟨d.1, d.2, rfl⟩, fun _ => trivial, fun _ hg => nomatch hg⟩

/-- A thread that does not use an owner goes on not using it. -/
theorem Apart.step (h : th.Apart p) (hs : th.Step w ev w' th')
    (hafter : ∀ o log (t : Task X o.Answer) next, th = .inside o log t next →
      o.program.After log t.program) : ∀ t ∈ th', t.Apart p := by
  cases hs with
  | @perform t t' w' x hs hx =>
    obtain ⟨e, r⟩ := x
    obtain ⟨k, hp, -, -, rfl⟩ := Task.step_eq_moved hs hx
    obtain ⟨havoids, hguards⟩ := h
    rw [hp] at havoids
    rintro t ⟨⟩
    refine ⟨havoids.2 r, fun g hg => ?_⟩
    cases e with
    | arm guard =>
      rcases List.mem_cons.1 hg with rfl | hg
      · exact havoids.1 _ rfl
      · exact hguards g hg
    | disarm => exact hguards g (List.mem_of_mem_tail hg)
    | _ => exact hguards g hg
  | rest hs =>
    rintro t ⟨⟩
    rcases Task.step_eq_waits hs with ⟨-, rfl, -⟩ | ⟨e, k, wait, -, -, -, rfl⟩
    · exact h
    · exact h
  | hear hs r =>
    obtain ⟨k, hp, rfl⟩ := Task.step_eq_asks hs
    obtain ⟨havoids, hguards⟩ := h
    rw [hp] at havoids
    rintro t ⟨⟩
    exact ⟨havoids r, hguards⟩
  | finish hs => rintro t ⟨⟩
  | call hs ho =>
    obtain ⟨k, hp, rfl⟩ := Task.step_eq_asks hs
    obtain ⟨havoids, hguards⟩ := h
    rw [hp] at havoids
    rintro t ⟨⟩
    exact ⟨fun howner => absurd howner havoids.1, havoids.2, hguards⟩
  | work hs hx =>
    have ha := hafter _ _ _ _ rfl
    obtain ⟨k, hp, -, -, rfl⟩ := Task.step_eq_moved hs hx
    rw [hp] at ha
    rintro t ⟨⟩
    refine ⟨h.1, h.2.1, ?_⟩
    rw [Task.afterReply, Task.guardsAfter_eq (Operation.not_isSection ha)]
    exact h.2.2
  | await hs =>
    rintro t ⟨⟩
    rcases Task.step_eq_waits hs with ⟨-, rfl, -⟩ | ⟨e, k, wait, -, -, -, rfl⟩
    · exact h
    · exact h
  | «return» hs =>
    rintro t ⟨⟩
    exact ⟨h.2.1 _, h.2.2⟩

/-- Calls of a thread that does not use an owner shun it. -/
theorem Apart.shuns (h : th.Apart p) (hs : th.Step w ev w' th') :
    (∀ o x, ev = .did o x → o.Shuns p) ∧ ∀ o log a, ev = .returned o log a → o.Shuns p := by
  cases hs with
  | work hs hx =>
    refine ⟨?_, fun _ _ _ heq => nomatch heq⟩
    rintro o x ⟨⟩
    exact h.1
  | «return» hs =>
    refine ⟨fun _ _ heq => (nomatch heq), ?_⟩
    rintro o log a ⟨⟩
    exact h.1
  | _ => exact ⟨fun _ _ heq => (nomatch heq), fun _ _ _ heq => nomatch heq⟩

/-- A thread that uses a lock and has just acquired it is about to begin a section. -/
theorem At.not_covers_of_apart (h : th.At p lock st) (hapart : th.Apart p) : ¬ st.Covers := by
  intro hcovers
  cases h with
  | @between t turn hk hw =>
    cases turn with
    | due =>
      have havoids := hapart.1
      cases hp : t.program with
      | done a =>
        rw [hp] at hk
        exact hk.1 rfl
      | effect e next =>
        rw [hp] at hk havoids
        exact havoids.1 (p.guard lock) hk.1 rfl
      | extended op next =>
        rw [hp] at hk
        cases op with
        | invoke o => exact hk.1 rfl
        | outside op => exact hk.1 rfl
    | _ => exact hcovers
  | acquiring howner hnext =>
    obtain ⟨guard, token, heq⟩ := hapart.1 (congrArg some howner)
    cases heq
  | releasing howner hnext => exact hcovers
  | aside ho hnext => exact hcovers

end Thread

/-! ## What the user does -/

/-- An acquisition of a lock for an owner has succeeded. -/
def Event.Grants (p : Owner) (lock : String) (ev : Event) : Prop :=
  ∃ (m : Manager) (ctx : Context) (ttl wait : Nat) (log : List Exchange),
    (⟨m.id, ctx⟩ : Owner) = p ∧ ev = .returned (.acquire m ctx lock ttl wait) log (.ok true)

/-- A lock was given up under a token when its section was dropped. -/
def DroppedIn (tr : List Event) (guard : Guard) (token : Token) : Prop :=
  ∃ given, Event.dropped given ∈ tr ∧ (guard, token) ∈ given

theorem DroppedIn.append {tr : List Event} {guard : Guard} {token : Token}
    (h : DroppedIn tr guard token) (tr' : List Event) : DroppedIn (tr ++ tr') guard token := by
  obtain ⟨given, hmem, hgiven⟩ := h
  exact ⟨given, List.mem_append_left _ hmem, hgiven⟩

namespace Thread

variable {mode : Scheduling} {F : Prop} {D : Token → Prop} {tr : List Event} {p : Owner}
  {lock : String} {th : Thread X} {th' : Option (Thread X)} {w w' w₁ : World} {ev : Event}
  {st : Stage}

/-- A lock of an owner is tended by a thread, or by none any more. -/
def Tends (F : Prop) (D : Token → Prop) (tr : List Event) (w : World) (p : Owner) (lock : String) :
    Option (Thread X) → Prop
  | some th => ∃ st, th.At p lock st ∧ st.Known F D tr w p lock th.guards
  | none => (Stage.calm .free).Known F D tr w p lock []

/-- The client goes on outside of any operation. -/
theorem At.step_between {t : Task (client X) Unit} (h : (Thread.between t).At p lock st)
    (hk : st.Known F D tr w₁ p lock t.guards) (hs : (Thread.between t).Step w ev w' th') :
    Tends F D tr w₁ p lock th' := by
  obtain ⟨turn, hkeeps, hw, rfl⟩ : ∃ turn, Client.Keeps (p.guard lock) t.program t.guards turn ∧
      (turn = .due → t.wait = none) ∧ st = .calm turn := by
    cases h with
    | between hkeeps hw => exact ⟨_, hkeeps, hw, rfl⟩
  have hcalm : turn ≠ .due → (Stage.calm .free).Known F D tr w₁ p lock t.guards := by
    intro hturn
    refine hk.move trivial ?_ id
    cases turn with
    | due => exact absurd rfl hturn
    | _ => exact id
  have hrest : ∀ {c : Client X Unit} {wait conns guards},
      Client.Keeps (p.guard lock) c guards .free →
      (Thread.between ⟨c, wait, conns, guards⟩).At p lock (.calm .free) :=
    fun hkeeps => .between hkeeps fun h => nomatch h
  cases hs with
  | @perform _ t' w' x hs hx =>
    obtain ⟨k, hp, -, -, rfl⟩ := Task.step_eq_moved hs hx
    rw [hp] at hkeeps
    exact ⟨_, hrest (hkeeps.2 _), hk.perform hkeeps.1⟩
  | @rest _ t' w' hs =>
    refine ⟨.calm turn, ?_⟩
    rcases Task.step_eq_waits hs with ⟨-, rfl, -⟩ | ⟨e, k, wait, hp, -, hwait, rfl⟩
    · exact ⟨h, hk⟩
    · refine ⟨.between hkeeps fun hturn => ?_, hk⟩
      -- a client that has to begin a section does not wait
      rw [hp, hturn] at hkeeps
      obtain rfl : e = .arm (p.guard lock) := hkeeps.1
      cases hwait
  | hear hs r =>
    obtain ⟨k, hp, rfl⟩ := Task.step_eq_asks hs
    rw [hp] at hkeeps
    exact ⟨_, hrest (hkeeps.2 r), hcalm hkeeps.1⟩
  | finish hs =>
    rw [Task.step_eq_finished hs] at hkeeps
    exact (hcalm hkeeps.1).reguard fun _ hmem => absurd hmem hkeeps.2
  | @call _ o next hs hcall =>
    obtain ⟨k, hp, rfl⟩ := Task.step_eq_asks hs
    rw [hp] at hkeeps
    obtain ⟨hturn, hdispose, hnext⟩ := hkeeps
    have hcalm := hcalm hturn
    by_cases hact : o.ActsFor p lock
    · cases o with
      | acquire m ctx lock' ttl wait =>
        obtain ⟨rfl⟩ : lock' = lock := Option.some.inj hact.2
        exact ⟨_, .acquiring (Option.some.inj hact.1) hnext, hcalm.move trivial id id⟩
      | release m ctx lock' =>
        obtain rfl : lock' = lock := Option.some.inj hact.2
        obtain rfl : (⟨m.id, ctx⟩ : Owner) = p := Option.some.inj hact.1
        refine ⟨_, .releasing rfl fun a => ?_, hcalm.move trivial id id⟩
        have hcleared : (Operation.release m ctx lock').turn (Owner.guard ⟨m.id, ctx⟩ lock')
            t.guards a = .cleared := if_pos rfl
        exact hcleared ▸ hnext a
      | clear guard token => exact hcall.elim
      | _ => cases hact.2
    · refine ⟨.calm .free, .aside ⟨fun h => absurd h hact, hdispose⟩ fun a => ?_, hcalm⟩
      have hfree := Operation.turn_eq_free hact t.guards a
      exact hfree ▸ hnext a

/-- While an operation waits, nothing is new. -/
theorem At.step_await {o : Operation} {log : List Exchange} {t t' : Task X o.Answer}
    {next : o.Answer → Client X Unit} (h : (inside o log t next).At p lock st)
    (hs : t.step w = .waits w' t') :
    (inside o log t' next).At p lock st ∧ t'.guards = t.guards := by
  have hguards : t'.guards = t.guards := by
    rcases Task.step_eq_waits hs with ⟨-, rfl, -⟩ | ⟨e, k, wait, -, -, -, rfl⟩ <;> rfl
  refine ⟨?_, hguards⟩
  cases h with
  | acquiring howner hnext =>
    rw [← hguards] at hnext
    exact .acquiring howner hnext
  | releasing howner hnext =>
    rw [← hguards] at hnext
    exact .releasing howner hnext
  | aside ho hnext =>
    rw [← hguards] at hnext
    exact .aside ho hnext

/-- What an acquisition for the lock comes to. -/
theorem At.return_acquire {m : Manager} {ctx : Context} {ttl wait : Nat} {log : List Exchange}
    {t : Task X (Except Failure Bool)} {next : Except Failure Bool → Client X Unit}
    {a : Except Failure Bool} {conns : List Connection}
    (hk : (Stage.acquiring ((Operation.acquire m ctx lock ttl wait).phase log)).Known F D tr w p
      lock t.guards) (howner : (⟨m.id, ctx⟩ : Owner) = p)
    (hnext : ∀ a, Client.Keeps (p.guard lock) (next a) t.guards
      ((Operation.acquire m ctx lock ttl wait).turn (p.guard lock) t.guards a))
    (hsettles : ((Operation.acquire m ctx lock ttl wait).phase log).Settles (a = .ok true)) :
    Tends (F ∨ a = .ok true) D tr w p lock
      (some (Thread.between { program := next a, connections := conns, guards := t.guards })) := by
  subst howner
  by_cases ha : a = .ok true
  · obtain ⟨token, hphase⟩ :
        ∃ token, (Operation.acquire m ctx lock ttl wait).phase log = .held token := by
      cases hphase : (Operation.acquire m ctx lock ttl wait).phase log with
      | held token => exact ⟨token, rfl⟩
      | _ =>
        rw [hphase] at hsettles
        simp [Phase.Settles, ha] at hsettles
    rw [hphase] at hk
    by_cases hg : Owner.guard ⟨m.id, ctx⟩ lock ∈ t.guards
    · have hturn : (Operation.acquire m ctx lock ttl wait).turn (Owner.guard ⟨m.id, ctx⟩ lock)
          t.guards a = .free := if_neg fun h => h.2.1 hg
      refine ⟨.calm .free, .between (hturn ▸ hnext a) fun h => (by cases h), ?_⟩
      have hcalm : (Stage.calm .free).Known True D tr w ⟨m.id, ctx⟩ lock t.guards :=
        hk.acquired (.inl hg) trivial
      exact hcalm.mono (fun _ => trivial) fun _ h => h
    · have hturn : (Operation.acquire m ctx lock ttl wait).turn (Owner.guard ⟨m.id, ctx⟩ lock)
          t.guards a = .due := if_pos ⟨rfl, hg, by rw [ha]; rfl⟩
      refine ⟨.calm .due, .between (hturn ▸ hnext a) fun _ => rfl, ?_⟩
      exact (hk.acquired (.inr rfl) trivial).mono (fun _ => trivial) fun _ h => h
  · have hturn : (Operation.acquire m ctx lock ttl wait).turn (Owner.guard ⟨m.id, ctx⟩ lock)
        t.guards a = .free := by
      refine if_neg fun h => ha ?_
      rcases a with e | b
      · cases h.2.2
      · exact congrArg Except.ok (Option.some.inj h.2.2)
    have hcovers :
        ¬ (Stage.acquiring ((Operation.acquire m ctx lock ttl wait).phase log)).Covers := by
      cases hphase : (Operation.acquire m ctx lock ttl wait).phase log with
      | held token =>
        rw [hphase] at hsettles
        exact fun _ => ha hsettles
      | _ => exact id
    have hcalm : (Stage.calm .free).Known F D tr w ⟨m.id, ctx⟩ lock t.guards :=
      hk.move trivial hcovers id
    refine ⟨.calm .free, .between (hturn ▸ hnext a) fun h => (by cases h), ?_⟩
    exact hcalm.mono (fun hor => hor.resolve_right ha) fun _ h => h

theorem Tends.mono {F' : Prop} {D' : Token → Prop} {th? : Option (Thread X)}
    (h : Tends F D tr w p lock th?) (hF : F' → F) (hD : ∀ token, D token → D' token) :
    Tends F' D' tr w p lock th? := by
  cases th? with
  | none => exact Stage.Known.mono h hF hD
  | some th =>
    obtain ⟨st, hat, hk⟩ := h
    exact ⟨st, hat, hk.mono hF hD⟩

theorem Tends.frame {th? : Option (Thread X)} (h : Tends F D tr w p lock th?)
    (hu : Untouched tr w ev w' p lock) : Tends F D (tr ++ [ev]) w' p lock th? := by
  cases th? with
  | none => exact Stage.Known.frame h hu
  | some th =>
    obtain ⟨st, hat, hk⟩ := h
    exact ⟨st, hat, hk.frame hu⟩

/-- A thread that is suspended has not just acquired the lock. -/
theorem At.not_covers_of_suspended (h : th.At p lock st) (hl : th.Lawful mode tr w)
    (hs : th.Suspended) : ¬ st.Covers := by
  intro hcovers
  cases h with
  | @between t turn hk hw =>
    cases turn with
    | due =>
      rcases hs with hwait | ⟨op, next, hp⟩
      · rw [hw rfl] at hwait
        cases hwait
      · rw [hp] at hk
        exact hk.1 rfl
    | _ => exact hcovers
  | @acquiring m ctx ttl wait log t next howner hnext =>
    obtain ⟨-, hfits⟩ := hl rfl
    cases hphase : (Operation.acquire m ctx lock ttl wait).phase log with
    | held token =>
      rw [hphase] at hfits
      have hwait : t.wait.isSome := hs
      rw [hfits.1] at hwait
      cases hwait
    | _ =>
      rw [hphase] at hcovers
      exact hcovers
  | releasing howner hnext => exact hcovers
  | aside ho hnext => exact hcovers

end Thread

end Latchkey
