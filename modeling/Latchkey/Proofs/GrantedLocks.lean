import Latchkey.Proofs.Abandoned
import Latchkey.Proofs.SoleUser
import Latchkey.Proofs.Terms

/-!
# What an acquisition guarantees when it returns

An acquisition that succeeds may have waited for a connection, for its write and for replicas, and
others were at work all the time. When it returns, the key of the lock has the token that the
registry has for the caller, and the time for which it has it is no longer than the caller has asked
for and no shorter than if it had begun with the call. This needs that the operations of one owner
do not overlap; those of other owners may, and so may deletions for sections that were dropped.

The main statements are `Phase.Warrants`, what the call knows in each phase, and
`granted_lock_is_held`.
-/

namespace Latchkey

variable {X : Extension}

/-! ## Threads that use an owner -/

/-- A thread is in an operation of an owner, or in a section that stands for it. -/
def Thread.Uses (p : Owner) : Thread X → Prop
  | .between t => ∃ g ∈ t.guards, g.owner = p
  | .inside o _ t _ => ¬ o.Shuns p ∨ ∃ g ∈ t.guards, g.owner = p

theorem Thread.not_mem_of_not_uses {p : Owner} {th : Thread X} (h : ¬ th.Uses p) (lock : String) :
    p.guard lock ∉ th.guards := by
  intro hmem
  cases th with
  | between t => exact h ⟨_, hmem, rfl⟩
  | inside o log t next => exact h (.inr ⟨_, hmem, rfl⟩)

theorem Thread.not_uses_deletion (d : Guard × Token) (p : Owner) :
    ¬ (deletion (X := X) d).Uses p := by
  rintro (hshuns | ⟨g, hmem, -⟩)
  · exact hshuns fun _ => ⟨d.1, d.2, rfl⟩
  · cases hmem

theorem Thread.not_uses_spawned {th : Thread X} {given : List (Guard × Token)} {runtime : Bool}
    (h : th ∈ if runtime then given.map deletion else []) (p : Owner) : ¬ th.Uses p := by
  cases runtime with
  | true =>
    obtain ⟨d, -, rfl⟩ := List.mem_map.1 h
    exact not_uses_deletion d p
  | false => cases h

theorem Thread.acquire_uses {m : Manager} {ctx : Context} {lock : String} {ttl wait : Nat}
    (log : List Exchange) (t : Task X (Except Failure Bool))
    (next : Except Failure Bool → Client X Unit) :
    (Thread.inside (.acquire m ctx lock ttl wait) log t next).Uses ⟨m.id, ctx⟩ := by
  refine .inl fun hshuns => ?_
  obtain ⟨guard, token, heq⟩ := hshuns rfl
  cases heq

/-! ## What the call knows -/

/-- A call of an acquisition, with its time and the entry of the registry at that time. -/
structure Call where
  /-- The manager. -/
  manager : Manager
  /-- The context. -/
  ctx : Context
  /-- The lock. -/
  lock : String
  /-- The lifetime asked for. -/
  ttl : Nat
  /-- The longest wait for replicas. -/
  wait : Nat
  /-- The time of the call. -/
  time : Nat
  /-- The token of the registry. -/
  entry : Option Token

/-- The operation that is called. -/
abbrev Call.operation (c : Call) : Operation := .acquire c.manager c.ctx c.lock c.ttl c.wait

/-- The owner that calls. -/
abbrev Call.owner (c : Call) : Owner := ⟨c.manager.id, c.ctx⟩

/-- The key of the lock has a token until a deadline, which is neither too far nor too near. -/
structure World.Holds (w : World) (c : Call) (token : Token) (deadline : Nat) : Prop where
  stores : w.Stores (lockKey c.lock) token deadline
  live : w.now < deadline
  near : deadline ≤ w.now + c.ttl
  far : c.time + c.ttl ≤ deadline

/-- What is so in each phase of a call. -/
def Phase.Warrants (w : World) (c : Call) : Phase → Prop
  | .seeking _ => w.heldBy c.owner c.lock = c.entry
  | .owning token => c.entry = some token ∧ w.heldBy c.owner c.lock = some token
  | .fresh .. => c.entry = none
  | .minted .. => c.entry = none
  | .written token _ _ => c.entry = none ∧ ∀ deadline,
      w.Stores (lockKey c.lock) token deadline →
        deadline ≤ w.now + c.ttl ∧ c.time + c.ttl ≤ deadline
  | .granted token => c.entry = none ∧ ∃ deadline, w.Holds c token deadline
  | .held token => w.heldBy c.owner c.lock = some token ∧ ∃ deadline, w.Holds c token deadline ∧
      ∀ token', c.entry = some token' → token = token' ∧ deadline = w.now + c.ttl
  | _ => True

/-- A step of others, as far as a lock of an owner and the secret of its operation are concerned. -/
structure Beside (w w' : World) (p : Owner) (lock : String) (secret : Option Token) : Prop where
  now : w.now ≤ w'.now
  entry : w'.heldBy p lock = w.heldBy p lock
  /-- A secret token is not stored anew. -/
  before : ∀ token deadline, secret = some token → w'.Stores (lockKey lock) token deadline →
    w.Stores (lockKey lock) token deadline
  /-- A token that is secret or held stays as it is stored. -/
  after : ∀ token deadline, secret = some token ∨ w.heldBy p lock = some token →
    w.Stores (lockKey lock) token deadline → w.now < deadline →
    w'.Stores (lockKey lock) token deadline

theorem World.Alike.beside {w w' : World} (ha : w.Alike w') (p : Owner) (lock : String)
    (secret : Option Token) : Beside w w' p lock secret where
  now := Nat.le_of_eq ha.now.symm
  entry := World.heldBy_congr ha.registries p lock
  before := by
    intro token deadline _ hst
    rw [World.Stores, ha.keyspace] at hst
    exact hst
  after := by
    intro token deadline _ hst _
    rw [World.Stores, ha.keyspace]
    exact hst

namespace Phase

variable {mode : Scheduling} {tr : List Event} {w w' : World} {c : Call} {wait : Option Wait}
  {s s' : Phase} {x : Exchange} {told : Option (Option Token)} {surrender : Surrender}

/-- What the call knows stays so while others are at work. -/
theorem Warrants.frame (h : s.Warrants w c) (hb : Beside w w' c.owner c.lock s.secret?)
    (hfirm : s.IsFirm → w'.now = w.now) : s.Warrants w' c := by
  have hnow := hb.now
  cases s with
  | seeking clock => exact hb.entry.trans h
  | owning token => exact ⟨h.1, hb.entry.trans h.2⟩
  | fresh token clock => exact h
  | minted token clock sharded => exact h
  | written token since sharded =>
    refine ⟨h.1, ?_⟩
    intro deadline hst
    obtain ⟨hnear, hfar⟩ := h.2 deadline (hb.before token deadline rfl hst)
    exact ⟨by omega, hfar⟩
  | late token sharded => trivial
  | void token => trivial
  | granted token =>
    obtain ⟨hentry, deadline, hst, hlive, hnear, hfar⟩ := h
    have heq := hfirm trivial
    have hst' := hb.after token deadline (.inl rfl) hst hlive
    exact ⟨hentry, deadline, hst', by omega, by omega, hfar⟩
  | held token =>
    obtain ⟨hheld, deadline, ⟨hst, hlive, hnear, hfar⟩, hrefresh⟩ := h
    have heq := hfirm trivial
    have hst' := hb.after token deadline (.inr hheld) hst hlive
    refine ⟨hb.entry.trans hheld, deadline, ⟨hst', by omega, by omega, hfar⟩, ?_⟩
    rw [heq]
    exact hrefresh

/-- What the call knows after a deed of its own. -/
theorem Warrants.deed (h : s.Warrants w c) (hd : Deed w c.operation s x w' s')
    (hf : s.Fits mode tr w c.operation wait) (hconduct : c.operation.mayPerform surrender x.effect)
    (hterms : Terms.permits c.ttl c.wait told x.effect) (htold : ∀ r, told = some r → r = c.entry)
    (htime : c.time ≤ w.now) : s'.Warrants w' c := by
  have hact : c.operation.ActsFor c.owner c.lock := ⟨rfl, rfl⟩
  have hlock : ∀ {lock}, c.operation.lock? = some lock → lock = c.lock :=
    fun ho => (Option.some.inj ho).symm
  cases hd with
  | clock s =>
    cases s with
    | written token since sharded =>
      have httl : c.operation.ttl = c.ttl := rfl
      by_cases hin : w.now - since < c.ttl
      · -- the lifetime is not over, so the token is where it was written
        rw [httl, Phase.afterClock_inTime token sharded hin]
        obtain ⟨hentry, hbounds⟩ := h
        obtain ⟨-, -, hstores⟩ := hf
        have hlt : w.now < since + c.ttl := by omega
        obtain ⟨lock, deadline, ho, hst, hle⟩ := hstores hlt
        rw [hlock ho] at hst
        obtain ⟨hnear, hfar⟩ := hbounds deadline hst
        have hle : since + c.ttl ≤ deadline := hle
        exact ⟨hentry, deadline, hst, by omega, hnear, hfar⟩
      · rw [httl, Phase.afterClock_late token sharded hin]
        trivial
    | _ => exact h
  | deployment s => cases s <;> exact h
  | mint ho clock => exact (htold none hterms).symm
  | @look q lock ho clock =>
    obtain ⟨rfl, rfl⟩ := ho.unique hact
    have hentry : w.heldBy c.owner c.lock = c.entry := h
    cases hheld : w.heldBy c.owner c.lock with
    | none => exact hentry
    | some token => exact ⟨by rw [← hentry, hheld], hheld⟩
  | @record q lock ho token =>
    obtain ⟨rfl, rfl⟩ := ho.unique hact
    obtain ⟨hentry, deadline, hst, hlive, hnear, hfar⟩ := h
    refine ⟨?_, deadline, ⟨hst, hlive, hnear, hfar⟩, ?_⟩
    · exact (Ledger.heldBy_recordFor ..).trans (if_pos ⟨rfl, rfl⟩)
    · intro token' hsome
      rw [hentry] at hsome
      cases hsome
  | forget ho s =>
    obtain ⟨⟨m', heq, -⟩, -⟩ := hconduct
    cases heq
  | dispose ho s =>
    obtain ⟨m', heq, -⟩ := hconduct
    cases heq
  | @write lock token ho conn clock sharded ks b hks =>
    obtain rfl := hlock ho
    cases b with
    | true =>
      refine ⟨h, ?_⟩
      intro deadline hst
      have hfind := Keyspace.find?_of_set hks (lockKey c.lock)
      rw [if_pos ⟨rfl, rfl⟩] at hfind
      have heq := hst.symm.trans hfind
      simp only [Option.some.injEq, Entry.mk.injEq, true_and] at heq
      have hdeadline : deadline = w.now + c.ttl := heq
      rw [hdeadline]
      exact ⟨Nat.le_refl _, Nat.add_le_add_right htime _⟩
    | false => trivial
  | @delete lock token s ho conn hs ks b hks =>
    rcases hs with ⟨rfl, hrelease⟩ | ⟨since, sharded, rfl⟩ | ⟨sharded, rfl⟩
    · exact hrelease.elim
    · trivial
    · trivial
  | @expire lock token ttl ho conn hpos ks b hks =>
    obtain rfl := hlock ho
    obtain rfl : ttl = c.ttl := hterms
    obtain ⟨hentry, hheld⟩ := h
    cases b with
    | true =>
      have hfind := Keyspace.find?_of_compareAndExpire hks (lockKey c.lock)
      rw [if_pos ⟨rfl, rfl⟩] at hfind
      have hlive : w.now < w.now + c.ttl := Nat.lt_add_of_pos_right hpos
      have hfar : c.time + c.ttl ≤ w.now + c.ttl := Nat.add_le_add_right htime _
      refine ⟨hheld, w.now + c.ttl, ⟨hfind, hlive, Nat.le_refl _, hfar⟩, ?_⟩
      intro token' hsome
      rw [hentry] at hsome
      exact ⟨Option.some.inj hsome, rfl⟩
    | false => exact ⟨hentry, hheld⟩
  | other ha hx => exact h.frame (ha.beside ..) fun _ => ha.now

/-- What the registry tells the call is the entry at the time of the call. -/
theorem Warrants.tells (h : s.Warrants w c) (hd : Deed w c.operation s x w' s')
    (htold : ∀ r, told = some r → r = c.entry) :
    ∀ r, Terms.next told x = some r → r = c.entry := by
  have hact : c.operation.ActsFor c.owner c.lock := ⟨rfl, rfl⟩
  cases hd with
  | @look q lock ho clock =>
    obtain ⟨rfl, rfl⟩ := ho.unique hact
    have hentry : w.heldBy c.owner c.lock = c.entry := h
    intro r hr
    have heq : w.heldBy c.owner c.lock = r := Option.some.inj hr
    rw [← heq, hentry]
  | @other s x w' ha hx =>
    obtain ⟨e, r⟩ := x
    cases e with
    | registry m a => exact hx.elim
    | _ => exact htold
  | _ => exact htold

end Phase

/-! ## Machines -/

namespace Machine

variable {mode : Scheduling} {tr tr' : List Event} {s s' : Machine X} {ev : Event} {p : Owner}
  {lock : String} {c : Call}

/-- No two threads use an owner. -/
def Sequential (p : Owner) (s : Machine X) : Prop :=
  s.threads.Pairwise fun th th' => th.Uses p → ¬ th'.Uses p

theorem Sequential.of_perm {th : Thread X} {others : List (Thread X)} (h : s.Sequential p)
    (hperm : s.threads.Perm (th :: others)) (hth : th.Uses p) : ∀ th' ∈ others, ¬ th'.Uses p := by
  have hpairwise : (th :: others).Pairwise fun th th' => th.Uses p → ¬ th'.Uses p := by
    refine (hperm.pairwise_iff ?_).1 h
    intro a b hab hb ha
    exact hab ha hb
  intro th' hmem
  exact (List.pairwise_cons.1 hpairwise).1 th' hmem hth

/-- A step after which the operations of an owner do not overlap. -/
structure SequentialStep (mode : Scheduling) (p : Owner) (s : Machine X) (ev : Event)
    (s' : Machine X) : Prop extends LockStep mode s ev s' where
  sequential : s'.Sequential p

/-- A step of others is one beside an operation of an owner. -/
theorem Lawful.beside {own secret : Option Token} (h : s.Lawful mode tr) (ha : s.Abandoned tr)
    (hs : s.LockStep mode ev s') (hshuns : ∀ o x, ev = .did o x → o.Shuns p)
    (hentry : s'.world.heldBy p lock = s.world.heldBy p lock)
    (hchange : KeyChange tr own s.world ev s'.world (lockKey lock))
    (hsecret : ∀ token, secret = some token → own ≠ some token ∧ ¬ Recorded tr token) :
    Beside s.world s'.world p lock secret where
  now := hs.now_le h
  entry := hentry
  before := by
    intro token deadline hsome hst
    obtain ⟨hown, hrec⟩ := hsecret token hsome
    have heq : ∀ {token' deadline'}, s'.world.Stores (lockKey lock) token' deadline' →
        token' = token := by
      intro token' deadline' hst'
      have hentry := hst'.symm.trans hst
      simp only [Option.some.injEq, Entry.mk.injEq, Entry.ofText_inj] at hentry
      exact hentry.1
    cases hchange with
    | same h => exact h.symm.trans hst
    | foreign hno _ => exact absurd rfl (hno lock)
    | purged _ _ h => cases h.symm.trans hst
    | wrote _ _ _ _ hown' _ h =>
      rw [heq h] at hown'
      exact absurd hown' hown
    | deleted _ _ _ _ _ _ h => cases h.symm.trans hst
    | extended _ _ _ _ hrec' _ _ h =>
      rw [heq h] at hrec'
      exact absurd hrec' hrec
  after := by
    intro token deadline hor hst hlive
    rcases hor with hsome | hheld
    · obtain ⟨hown, hrec⟩ := hsecret token hsome
      exact hchange.stores_after hrec hown hst hlive
    · exact h.stores_of_shuns ha hs hshuns hheld hst hlive

/-- A call is under way, and its owner is used by no other thread. -/
structure Calls (s : Machine X) (c : Call) (log : List Exchange) (t : Task X (Except Failure Bool))
    (next : Except Failure Bool → Client X Unit) (others : List (Thread X)) : Prop where
  threads : s.threads.Perm (.inside c.operation log t next :: others)
  others : ∀ th ∈ others, ¬ th.Uses c.owner
  time : c.time ≤ s.world.now
  warrants : (c.operation.phase log).Warrants s.world c
  told : ∀ r, (terms c.ttl c.wait).run none log = some r → r = c.entry

/-- No thread is in an operation of an owner. -/
def Quits (p : Owner) (s : Machine X) : Prop :=
  ∀ (o : Operation) (log : List Exchange) (t : Task X o.Answer) (next : o.Answer → Client X Unit),
    .inside o log t next ∈ s.threads → o.Shuns p

/-- A call is under way, or it is over. -/
def Serves (c : Call) (s : Machine X) : Prop :=
  (∃ log t next others, s.Calls c log t next others) ∨ s.Quits c.owner

/-- Where nobody is in an operation of an owner, nobody is until one is called. -/
theorem Quits.step (h : s.Quits p) (hs : s.Step mode ev s')
    (hbegan : ∀ o, ev = .began o → o.owner? ≠ some p) : s'.Quits p := by
  cases hs with
  | @thread w w' pre post th th' ev hm hth =>
    have hmem : th ∈ pre ++ th :: post := List.mem_append_right _ List.mem_cons_self
    intro o log t next hthread
    simp only [List.mem_append, Option.mem_toList] at hthread
    rcases hthread with (hthread | hthread) | hthread
    · exact h o log t next (List.mem_append_left _ hthread)
    · cases hth with
      | call hs ho =>
        cases hthread
        exact fun howner => absurd howner (hbegan _ rfl)
      | work hs hx =>
        cases hthread
        exact h _ _ _ _ hmem
      | await hs =>
        cases hthread
        exact h _ _ _ _ hmem
      | _ => cases hthread
    · exact h o log t next (List.mem_append_right _ (List.mem_cons_of_mem _ hthread))
  | start client =>
    intro o log t next hthread
    rcases List.mem_append.1 hthread with hthread | hthread
    · exact h o log t next hthread
    · cases List.mem_singleton.1 hthread
  | @drop w pre post th runtime hsuspended =>
    intro o log t next hthread
    rcases List.mem_append.1 hthread with hthread | hthread
    · exact h o log t next (mem_middle_of_mem hthread)
    · cases runtime with
      | true =>
        obtain ⟨d, -, heq⟩ := List.mem_map.1 hthread
        cases heq
        exact fun _ => ⟨d.1, d.2, rfl⟩
      | false => cases hthread
  | purge => exact h
  | elapse ms hs => exact h
  | configure d hd => exact h

theorem quits_of_not_uses (h : ∀ th ∈ s.threads, ¬ th.Uses p) : s.Quits p := by
  intro o log t next hmem
  exact Classical.byContradiction fun hno => h _ hmem (.inl hno)

namespace Calls

variable {log : List Exchange} {t : Task X (Except Failure Bool)}
  {next : Except Failure Bool → Client X Unit} {others : List (Thread X)}

/-- The call goes on while others are at work. -/
theorem frame (h : s.Calls c log t next others) {others' : List (Thread X)}
    (hthreads : s'.threads.Perm (.inside c.operation log t next :: others'))
    (hothers : ∀ th ∈ others', ¬ th.Uses c.owner) (hl : s.Lawful mode tr)
    (hs : s.LockStep mode ev s')
    (hb : Beside s.world s'.world c.owner c.lock (c.operation.phase log).secret?) :
    s'.Calls c log t next others' := by
  have hmem : .inside c.operation log t next ∈ s.threads :=
    h.threads.mem_iff.2 List.mem_cons_self
  refine ⟨hthreads, hothers, Nat.le_trans h.time hb.now, h.warrants.frame hb ?_, h.told⟩
  intro hfirm
  refine hl.now_eq hs ?_
  rintro ms rfl
  -- time passes only while the call waits, and then it does not hold the lock yet
  obtain ⟨-, hfits⟩ := hl.threads _ hmem rfl
  have hwait : t.wait = none := by
    cases hphase : c.operation.phase log with
    | granted token =>
      rw [hphase] at hfits
      exact hfits.1
    | held token =>
      rw [hphase] at hfits
      exact hfits.1
    | _ =>
      rw [hphase] at hfirm
      exact hfirm.elim
  have hsuspended : t.wait.isSome := by
    obtain ⟨hstep, -⟩ := hs
    cases hstep with
    | thread hm hth => cases hth
    | elapse ms hall => exact hall _ hmem
  rw [hwait] at hsuspended
  cases hsuspended

/-- The call does something itself, or it is over. -/
theorem own {w w' : World} {pre post : List (Thread X)} {th' : Option (Thread X)}
    (h : Calls ⟨w, pre ++ .inside c.operation log t next :: post⟩ c log t next others)
    (hl : Lawful mode tr ⟨w, pre ++ .inside c.operation log t next :: post⟩)
    (hth : (Thread.inside c.operation log t next).Step w ev w' th')
    (hothers : ∀ th ∈ pre ++ post, ¬ th.Uses c.owner) :
    Serves c ⟨w', pre ++ th'.toList ++ post⟩ := by
  have hmem : .inside c.operation log t next ∈ pre ++ .inside c.operation log t next :: post :=
    List.mem_append_right _ List.mem_cons_self
  have hperm : ∀ th'' : Thread X,
      (pre ++ (some th'').toList ++ post).Perm (th'' :: (pre ++ post)) :=
    fun th'' => perm_middle_toList pre post (some th'')
  obtain ⟨hafter, hfits⟩ := hl.threads _ hmem rfl
  cases hth with
  | @work _ _ _ t' _ _ x hs hx =>
    obtain ⟨k, hp, -, hanswer, rfl⟩ := Task.step_eq_moved hs hx
    rw [hp] at hafter
    have hd : Deed w c.operation (c.operation.phase log) x w' (c.operation.phase (log ++ [x])) := by
      rw [Operation.phase_concat]
      exact .of_answer ((c.operation.obeys rfl).permits hafter) hanswer
    have hconduct := (c.operation.conducts rfl).permits hafter
    have hterms := (c.manager.acquire_keepsTerms c.ctx c.lock c.ttl c.wait).permits hafter
    have hwarrants := h.warrants.deed hd hfits hconduct hterms h.told h.time
    refine .inl ⟨log ++ [x], _, next, pre ++ post, hperm _, hothers, ?_, hwarrants, ?_⟩
    · show c.time ≤ w'.now
      rw [hd.now_eq]
      exact h.time
    · rw [Discipline.run_concat]
      exact h.warrants.tells hd h.told
  | await hs =>
    have ha := Task.alike_of_waits hs
    have hwarrants := h.warrants.frame (ha.beside ..) fun _ => ha.now
    refine .inl ⟨log, _, next, pre ++ post, hperm _, hothers, ?_, hwarrants, h.told⟩
    show c.time ≤ w'.now
    rw [ha.now]
    exact h.time
  | «return» hs =>
    refine .inr ?_
    intro o log t next hthread
    rcases List.mem_cons.1 ((hperm _).mem_iff.1 hthread) with heq | hthread
    · cases heq
    · exact Classical.byContradiction fun hno => hothers _ hthread (.inl hno)

/-- The call goes on while another thread does something. -/
theorem other {w w' : World} {pre post rest : List (Thread X)} {th : Thread X}
    {th' : Option (Thread X)} (h : Calls ⟨w, pre ++ th :: post⟩ c log t next others)
    (hl : Lawful mode tr ⟨w, pre ++ th :: post⟩) (ha : Abandoned tr ⟨w, pre ++ th :: post⟩)
    (hs : SequentialStep mode c.owner ⟨w, pre ++ th :: post⟩ ev ⟨w', pre ++ th'.toList ++ post⟩)
    (hth : th.Step w ev w' th') (hnot : ¬ th.Uses c.owner)
    (hrest : (pre ++ post).Perm (.inside c.operation log t next :: rest)) :
    Calls ⟨w', pre ++ th'.toList ++ post⟩ c log t next (th'.toList ++ rest) := by
  obtain ⟨hlock, hsequential⟩ := hs
  have hmem : th ∈ pre ++ th :: post := List.mem_append_right _ List.mem_cons_self
  have hcaller : Thread.inside c.operation log t next ∈ pre ++ post :=
    hrest.mem_iff.2 List.mem_cons_self
  have hperm : (pre ++ th'.toList ++ post).Perm
      (.inside c.operation log t next :: (th'.toList ++ rest)) := by
    have hcaller : (th'.toList ++ (pre ++ post)).Perm
        (th'.toList ++ (.inside c.operation log t next :: rest)) := hrest.append_left _
    exact ((perm_middle_toList pre post th').trans hcaller).trans List.perm_middle
  have hshuns : ∀ o x, ev = .did o x → o.Shuns c.owner := by
    rintro o x rfl
    cases hth with
    | work hs hx => exact Classical.byContradiction fun hno => hnot (.inl hno)
  have hentry : w'.heldBy c.owner c.lock = w.heldBy c.owner c.lock := by
    refine hl.heldBy_step hlock ?_ ?_
    · rintro o x rfl ho
      obtain ⟨log', t', next', k, hmem', hp, -⟩ := hlock.step.of_did
      obtain ⟨hafter, -⟩ := hl.threads _ hmem' ho
      rw [hp] at hafter
      have hleaves := (hshuns o x rfl).leavesBe c.lock
      exact hleaves.not_writes ((o.conducts ho).permits hafter)
    · rintro given rfl
      cases hth
  have hout := hth.outcome hl.world (hl.threads th hmem) hlock.spares
  refine h.frame hperm ?_ hl hlock ?_
  · exact hsequential.of_perm hperm (Thread.acquire_uses log t next)
  · exact hl.beside ha hlock hshuns hentry (hout.key _) (hl.apart _ hcaller)

/-- The call goes on while another thread is dropped. -/
theorem drop {w : World} {pre post rest : List (Thread X)} {th : Thread X} {runtime : Bool}
    (h : Calls ⟨w, pre ++ th :: post⟩ c log t next others)
    (hl : Lawful mode tr ⟨w, pre ++ th :: post⟩) (ha : Abandoned tr ⟨w, pre ++ th :: post⟩)
    (hs : LockStep mode ⟨w, pre ++ th :: post⟩ (.dropped (Task.forsaken w th.guards))
      ⟨th.drop w, pre ++ post ++
        if runtime then (Task.forsaken w th.guards).map Thread.deletion else []⟩)
    (hnot : ¬ th.Uses c.owner) (hothers : ∀ th' ∈ rest, ¬ th'.Uses c.owner)
    (hrest : (pre ++ post).Perm (.inside c.operation log t next :: rest)) :
    Calls ⟨th.drop w, pre ++ post ++
        if runtime then (Task.forsaken w th.guards).map Thread.deletion else []⟩ c log t next
      (rest ++ if runtime then (Task.forsaken w th.guards).map Thread.deletion else []) := by
  have hcaller : Thread.inside c.operation log t next ∈ pre ++ th :: post :=
    h.threads.mem_iff.2 List.mem_cons_self
  have hforgets := th.drop_forgets w
  have hentry := th.heldBy_drop w c.owner c.lock
  rw [if_neg (Thread.not_mem_of_not_uses hnot c.lock)] at hentry
  have hchange : KeyChange tr none w (.dropped (Task.forsaken w th.guards)) (th.drop w)
      (lockKey c.lock) := .same (by rw [hforgets.keyspace])
  refine h.frame (hrest.append_right _) ?_ hl hs ?_
  · intro th' hmem
    rcases List.mem_append.1 hmem with hmem | hmem
    · exact hothers th' hmem
    · exact Thread.not_uses_spawned hmem c.owner
  · refine hl.beside ha hs (fun _ _ hev => nomatch hev) hentry hchange ?_
    intro token hsecret
    exact ⟨nofun, hl.hidden token (List.mem_filterMap.2 ⟨_, hcaller, hsecret⟩)⟩

/-- The call goes on while no thread does anything but to begin. -/
theorem quiet (h : s.Calls c log t next others) {new : List (Thread X)}
    (hthreads : s'.threads = s.threads ++ new) (hnew : ∀ th ∈ new, ¬ th.Uses c.owner)
    (hl : s.Lawful mode tr) (ha : s.Abandoned tr) (hs : s.LockStep mode ev s')
    (hdid : ∀ o x, ev ≠ .did o x) (hdrop : ∀ given, ev ≠ .dropped given)
    (hchange : KeyChange tr none s.world ev s'.world (lockKey c.lock)) :
    s'.Calls c log t next (others ++ new) := by
  have hcaller : Thread.inside c.operation log t next ∈ s.threads :=
    h.threads.mem_iff.2 List.mem_cons_self
  have hentry : s'.world.heldBy c.owner c.lock = s.world.heldBy c.owner c.lock :=
    hl.heldBy_step hs (fun o x hev => absurd hev (hdid o x)) hdrop
  refine h.frame ?_ ?_ hl hs ?_
  · rw [hthreads]
    exact h.threads.append_right new
  · intro th hmem
    rcases List.mem_append.1 hmem with hmem | hmem
    · exact h.others th hmem
    · exact hnew th hmem
  · refine hl.beside ha hs (fun o x hev => absurd hev (hdid o x)) hentry hchange ?_
    intro token hsecret
    exact ⟨nofun, hl.hidden token (List.mem_filterMap.2 ⟨_, hcaller, hsecret⟩)⟩

end Calls

/-- A call goes on, or it is over, in every step in which its owner calls nothing else. -/
theorem Serves.step (h : s.Serves c) (hl : s.Lawful mode tr) (ha : s.Abandoned tr)
    (hs : s.SequentialStep mode c.owner ev s')
    (hbegan : ∀ o, ev = .began o → o.owner? ≠ some c.owner) : s'.Serves c := by
  have hlock := hs.toLockStep
  have hstep := hlock.step
  rcases h with ⟨log, t, next, others, h⟩ | hquits
  · cases hstep with
    | @thread w w' pre post th th' ev hm hth =>
      have hperm : (pre ++ th :: post).Perm
          ((some (Thread.inside c.operation log t next)).toList ++ others) := h.threads
      rcases perm_middle_cases hperm with ⟨heq, hrest⟩ | ⟨rest, hothers, hrest⟩
      · obtain rfl := Option.some.inj heq
        exact h.own hl hth fun th' hmem => h.others th' (hrest.mem_iff.1 hmem)
      · have hnot := h.others th (hothers.mem_iff.2 List.mem_cons_self)
        exact .inl ⟨log, t, next, _, h.other hl ha hs hth hnot hrest⟩
    | @drop w pre post th runtime hsuspended =>
      have hperm : (pre ++ th :: post).Perm
          ((some (Thread.inside c.operation log t next)).toList ++ others) := h.threads
      rcases perm_middle_cases hperm with ⟨-, hrest⟩ | ⟨rest, hothers, hrest⟩
      · -- the call itself is dropped, and what is spawned for its sections only deletes keys
        refine .inr (quits_of_not_uses fun th' hmem => ?_)
        rcases List.mem_append.1 hmem with hmem | hmem
        · exact h.others th' (hrest.mem_iff.1 hmem)
        · exact Thread.not_uses_spawned hmem c.owner
      · have hnot := h.others th (hothers.mem_iff.2 List.mem_cons_self)
        refine .inl ⟨log, t, next, _, h.drop hl ha hlock hnot ?_ hrest⟩
        intro th' hmem
        exact h.others th' (hothers.mem_iff.2 (List.mem_cons_of_mem _ hmem))
    | @start w threads client =>
      refine .inl ⟨log, t, next, _, h.quiet rfl ?_ hl ha hlock (fun _ _ hev => nomatch hev)
        (fun _ hev => nomatch hev) (.same rfl)⟩
      intro th hmem
      cases List.mem_singleton.1 hmem
      rintro ⟨g, hmem, -⟩
      cases hmem
    | purge =>
      refine .inl ⟨log, t, next, _, h.quiet (List.append_nil _).symm ?_ hl ha hlock
        (fun _ _ hev => nomatch hev) (fun _ hev => nomatch hev) (.of_purge s.world none _)⟩
      exact fun _ hmem => nomatch hmem
    | elapse ms hall =>
      refine .inl ⟨log, t, next, _, h.quiet (List.append_nil _).symm ?_ hl ha hlock
        (fun _ _ hev => nomatch hev) (fun _ hev => nomatch hev) (.same rfl)⟩
      exact fun _ hmem => nomatch hmem
    | configure d hd =>
      refine .inl ⟨log, t, next, _, h.quiet (List.append_nil _).symm ?_ hl ha hlock
        (fun _ _ hev => nomatch hev) (fun _ hev => nomatch hev) (.same rfl)⟩
      exact fun _ hmem => nomatch hmem
  · exact .inr (hquits.step hstep hbegan)

theorem Serves.run {s₀ : Machine X} (h : s.Serves c) (h₀ : s₀.Initial)
    (hbefore : Run (LockStep mode) s₀ tr s) (hr : Run (SequentialStep mode c.owner) s tr' s')
    (hbegan : ∀ o, .began o ∈ tr' → o.owner? ≠ some c.owner) : s'.Serves c := by
  induction hr with
  | nil => exact h
  | @snoc tr' s₁ s₂ ev hr hs ih =>
    have hrun := hbefore.append (hr.mono SequentialStep.toLockStep)
    have hserves := ih fun o hmem => hbegan o (List.mem_append_left _ hmem)
    refine hserves.step (lawful_of_run h₀ hrun) (abandoned_of_run h₀ hrun) hs ?_
    rintro o rfl
    exact hbegan o (List.mem_append_right _ (List.mem_singleton.2 rfl))

/-- A call begins, and knows nothing but the time and the entry of the registry. -/
theorem SequentialStep.serves {m : Manager} {ctx : Context} {ttl wait : Nat}
    (hs : s.SequentialStep mode ⟨m.id, ctx⟩ (.began (.acquire m ctx lock ttl wait)) s') :
    s'.Serves ⟨m, ctx, lock, ttl, wait, s.world.now, s.world.heldBy ⟨m.id, ctx⟩ lock⟩ := by
  obtain ⟨⟨hstep, -⟩, hsequential⟩ := hs
  cases hstep with
  | @thread w w' pre post th th' ev hm hth =>
    cases hth with
    | @call t o next hs ho =>
      have hperm := perm_middle_toList pre post (some (Thread.inside _ []
        ⟨Operation.program _, none, t.connections, t.guards⟩ fun a => (next a).program))
      refine .inl ⟨[], _, _, pre ++ post, hperm, ?_, Nat.le_refl _, rfl, fun _ h => nomatch h⟩
      exact hsequential.of_perm hperm (Thread.acquire_uses _ _ _)

/-- A call that succeeds holds the lock. -/
theorem Serves.granted {log : List Exchange} (h : s.Serves c) (hl : s.Lawful mode tr)
    (hs : s.LockStep mode (.returned c.operation log (.ok true)) s') :
    ∃ token, (Phase.held token).Warrants s'.world c := by
  obtain ⟨token, hphase, -⟩ := hl.granted hs
  have hworld := (hl.returned hs rfl).1
  obtain ⟨hstep, -⟩ := hs
  cases hstep with
  | @thread w w' pre post th th' ev hm hth =>
    cases hth with
    | @«return» _ _ t next _ hfin =>
      have hmem : Thread.inside c.operation log t next ∈
          pre ++ .inside c.operation log t next :: post :=
        List.mem_append_right _ List.mem_cons_self
      rcases h with ⟨log', t', next', others, h⟩ | hquits
      · -- the caller is the only thread that uses its owner
        rcases List.mem_cons.1 (h.threads.mem_iff.1 hmem) with heq | hother
        · cases heq
          have hwarrants := h.warrants
          rw [hphase] at hwarrants
          exact ⟨token, hwarrants⟩
        · exact absurd (Thread.acquire_uses _ _ _) (h.others _ hother)
      · obtain ⟨guard, token', heq⟩ := hquits _ _ _ _ hmem rfl
        cases heq

/-- What an acquisition guarantees when it succeeds, in every run of any clients on any store in
which the operations of its owner do not overlap.

The key of the lock has the token that the registry has for the owner. Its deadline has not passed;
it is no later than the lifetime counted from the return and no earlier than the lifetime counted
from the call. If the registry had a token at the time of the call, this is the token, and its
lifetime has just begun. -/
theorem granted_lock_is_held {s₀ s₁ s₂ s₃ s₄ : Machine X} {m : Manager} {ctx : Context}
    {ttl wait : Nat} {log : List Exchange} (h₀ : s₀.Initial) (h₁ : Run (LockStep mode) s₀ tr s₁)
    (hcall : s₁.SequentialStep mode ⟨m.id, ctx⟩ (.began (.acquire m ctx lock ttl wait)) s₂)
    (hr : Run (SequentialStep mode ⟨m.id, ctx⟩) s₂ tr' s₃)
    (hbegan : ∀ o, .began o ∈ tr' → o.owner? ≠ some ⟨m.id, ctx⟩)
    (hreturn : s₃.LockStep mode (.returned (.acquire m ctx lock ttl wait) log (.ok true)) s₄) :
    ∃ token deadline, s₄.world.heldBy ⟨m.id, ctx⟩ lock = some token ∧
      s₄.world.store.keyspace.live? s₄.world.now (lockKey lock) =
        some ⟨Entry.ofText token, some deadline⟩ ∧
      s₄.world.now < deadline ∧ deadline ≤ s₄.world.now + ttl ∧ s₁.world.now + ttl ≤ deadline ∧
      ∀ token', s₁.world.heldBy ⟨m.id, ctx⟩ lock = some token' →
        token = token' ∧ deadline = s₄.world.now + ttl := by
  have h₂ := h₁.snoc hcall.toLockStep
  have h₃ := h₂.append (hr.mono SequentialStep.toLockStep)
  obtain ⟨token, hheld, deadline, ⟨hst, hlive, hnear, hfar⟩, hrefresh⟩ :=
    (hcall.serves.run h₀ h₂ hr hbegan).granted (lawful_of_run h₀ h₃) hreturn
  have hentry : Entry.isLive ⟨Entry.ofText token, some deadline⟩ s₄.world.now = true :=
    decide_eq_true hlive
  exact ⟨token, deadline, hheld, Keyspace.live?_eq_some.2 ⟨hst, hentry⟩, hlive, hnear, hfar,
    hrefresh⟩

theorem sequential_of_length_le (h : s.threads.length ≤ 1) (p : Owner) : s.Sequential p := by
  obtain ⟨w, threads⟩ := s
  match threads, h with
  | [], _ => exact .nil
  | [th], _ => exact List.pairwise_singleton _ th

/-- While a single client goes on with an operation, no operations overlap. -/
theorem sequential_of_run {o : Operation} {log : List Exchange}
    (hr : Run (LockStep mode) s (log.map (.did o)) s') (h : s.threads.length ≤ 1) (p : Owner) :
    s'.threads.length ≤ 1 ∧ Run (SequentialStep mode p) s (log.map (.did o)) s' := by
  generalize hlog : log.map (Event.did o) = tr at hr
  induction hr generalizing log with
  | nil => exact ⟨h, .nil⟩
  | @snoc tr s₁ s₂ ev hr hs ih =>
    obtain ⟨log', rest, rfl, htr, hrest⟩ := List.map_eq_append_iff.1 hlog
    obtain ⟨x, rfl, rfl⟩ := List.map_eq_singleton_iff.1 hrest
    obtain ⟨hlength, hrun⟩ := ih htr
    have hlength' : s₂.threads.length ≤ 1 := by
      obtain ⟨hstep, -⟩ := hs
      cases hstep with
      | @thread w w' pre post th th' ev hm hth =>
        cases hth
        simpa using hlength
    exact ⟨hlength', hrun.snoc ⟨hs, sequential_of_length_le hlength' p⟩⟩

/-- A client that only calls a lock operation that never waits, on a machine without others: its
beginning, the call, what happens up to the return, and the return. -/
theorem run_sequential {o : Operation} (ho : o.IsLock) (hc : o.IsCall) {w : World}
    {Q : World → o.Answer → Prop} (h : (o.program (X := X)).Ensures World.alone w Q) (p : Owner) :
    ∃ (s₁ s₂ s₃ s₄ : Machine X) (tr : List Event) (log : List Exchange) (a : o.Answer),
      LockStep mode ⟨w, []⟩ .silent s₁ ∧ s₁.world = w ∧ s₁.SequentialStep mode p (.began o) s₂ ∧
      Run (SequentialStep mode p) s₂ tr s₃ ∧ (∀ o', .began o' ∉ tr) ∧
      s₃.LockStep mode (.returned o log a) s₄ ∧ Q s₄.world a := by
  let next : o.Answer → Client X Unit := fun _ => .done ()
  have hm : mode.Admits ([] ++ [] : List (Thread X)) := admits_nil
  obtain ⟨w', a, conns, guards, hq, hrun⟩ := run_inside h hm [] [] [] next
  have hstart : LockStep mode (⟨w, []⟩ : Machine X) .silent
      ⟨w, [.between { program := Client.invoke o >>= next }]⟩ :=
    ⟨.start _, fun hforeign => hforeign.elim⟩
  have hcalled : Thread.Step (X := X) w (.between { program := Client.invoke o >>= next })
      (.began o) w (some (.inside o [] ⟨o.program, none, [], []⟩ next)) :=
    @Thread.Step.call X w _ o (fun a => ⟨next a, none, [], []⟩) rfl hc
  have hreturned : Thread.Step (X := X) w'
      (.inside o ([] ++ (o.program (X := X)).exchanges w) ⟨.done a, none, conns, guards⟩ next)
      (.returned o _ a) w' _ := .return rfl
  have hlock := hrun.imp fun {s ev s'} hmem hs => by
    obtain ⟨x, -, rfl⟩ := List.mem_map.1 hmem
    exact (⟨hs, fun hforeign => absurd ho hforeign⟩ : LockStep mode s (.did o x) s')
  obtain ⟨-, hsequential⟩ := sequential_of_run hlock (Nat.le_refl 1) p
  refine ⟨_, _, _, _, _, _, a, hstart, rfl, ⟨⟨.only hcalled, fun hf => hf.elim⟩, ?_⟩, hsequential,
    ?_, ⟨.only hreturned, fun hf => hf.elim⟩, hq⟩
  · exact List.pairwise_singleton _ _
  · intro o' hmem
    obtain ⟨x, -, heq⟩ := List.mem_map.1 hmem
    cases heq

/-- A context has acquired a lock for 20 milliseconds and acquires it again for 50. -/
theorem granted_lock_is_held_refreshed :
    ∃ (s₀ s₁ s₂ s₃ s₄ : Machine Extension.none) (tr tr' : List Event) (log : List Exchange)
        (token : Token),
      s₀.Initial ∧ Run (LockStep .cooperative) s₀ tr s₁ ∧
      s₁.SequentialStep .cooperative ⟨0, "a"⟩ (.began (.acquire {} "a" "L" 50 0)) s₂ ∧
      Run (SequentialStep .cooperative ⟨0, "a"⟩) s₂ tr' s₃ ∧
      (∀ o, .began o ∈ tr' → o.owner? ≠ some ⟨0, "a"⟩) ∧
      s₃.LockStep .cooperative (.returned (.acquire {} "a" "L" 50 0) log (.ok true)) s₄ ∧
      s₁.world.heldBy ⟨0, "a"⟩ "L" = some token ∧
      s₄.world.heldBy ⟨0, "a"⟩ "L" = some token ∧
      s₄.world.store.keyspace.live? s₄.world.now (lockKey "L") =
        some ⟨Entry.ofText token, some (s₄.world.now + 50)⟩ := by
  let w := ((({} : Manager).acquire "a" "L" 20 0).run.runOn World.fresh).1
  have hgone : World.fresh.store.keyspace.live? World.fresh.now (lockKey "L") = none := rfl
  have h₀ : (⟨World.fresh, []⟩ : Machine Extension.none).Initial := initial_ofStore rfl 0
  obtain ⟨tr, hfirst⟩ := @run_runOn .cooperative (.acquire {} "a" "L" 20 0) rfl trivial World.fresh
    _ (Manager.acquire_ensures World.fresh_ready {} "a" 0 (by decide) hgone)
  have hensures : ((Operation.acquire {} "a" "L" 50 0).program (X := .none)).Ensures World.alone w
      fun _ r => r.toOption = some true := by
    decide +kernel
  obtain ⟨s₁, s₂, s₃, s₄, tr', log, a, hstart, hworld, hcall, hr, hnone, hreturn, hanswer⟩ :=
    @run_sequential .none .cooperative (.acquire {} "a" "L" 50 0) rfl trivial w _ hensures ⟨0, "a"⟩
  obtain rfl : a = .ok true := by
    cases a with
    | ok b => exact congrArg Except.ok (Option.some.inj hanswer)
    | error e => cases hanswer
  have hheld : s₁.world.heldBy ⟨0, "a"⟩ "L" = some (Token.ofSerial 0) := by
    rw [hworld]
    decide +kernel
  have hbegan : ∀ o, .began o ∈ tr' → o.owner? ≠ some ⟨0, "a"⟩ :=
    fun o hmem => absurd hmem (hnone o)
  obtain ⟨token, deadline, hheld', hlive, -, -, -, hrefresh⟩ :=
    granted_lock_is_held h₀ (hfirst.snoc hstart) hcall hr hbegan hreturn
  obtain ⟨rfl, rfl⟩ := hrefresh _ hheld
  exact ⟨_, s₁, s₂, s₃, s₄, _, tr', log, _, h₀, hfirst.snoc hstart, hcall, hr, hbegan, hreturn,
    hheld, hheld', hlive⟩

end Machine

end Latchkey
