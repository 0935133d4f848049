import Mathlib.Data.List.Forall2
import Latchkey.Proofs.LockTwins

/-!
# Locks of different names

All lock keys carry the same hash tag, so they live on one node, beside the keys of filters. Still,
whoever looks at one lock only cannot tell what is done with other locks and with filters: neither
the results of operations on the lock, nor the entries of the registries for it, nor what its key
has show more than how long the rest has taken. Only the tokens have other names, as they are
numbered in the order in which they are minted.

The main statement is `lock_names_independent`.
-/

namespace Latchkey

/-! ## Keys -/

/-- Whether a text starts as lock keys do. -/
def startsAsLockKey (name : String) : Bool := (lockKey "").toList.isPrefixOf name.toList

theorem startsAsLockKey_lockKey (lock : String) : startsAsLockKey (lockKey lock) = true := by
  refine List.isPrefixOf_iff_prefix.2 ⟨lock.toList, ?_⟩
  simp [lockKey]

/-! ## Runs -/

/-- The lock that a call is about. -/
def LockCall.lock? : LockCall → Option String
  | .acquire _ _ lock .. => some lock
  | .acquireWithRetry _ _ lock .. => some lock
  | .release _ _ lock => some lock
  | _ => none

/-- A call of an operation on the store that locks and filters share, or a pause. -/
inductive SharedCall where
  /-- Calls a lock operation, or pauses. -/
  | lock (c : LockCall)
  /-- Makes or adopts a filter. -/
  | createFilter (settings : FilterSettings)
  /-- Adds an element to a filter. -/
  | addElement (plan : FilterPlan) (element : String)
  /-- Looks for an element in a filter. -/
  | testElement (plan : FilterPlan) (element : String)

/-- What a call is answered. -/
inductive SharedAnswer where
  /-- The answer of a lock operation. -/
  | lock (a : LockAnswer)
  /-- The filter, if it was made or adopted. -/
  | created (r : Except Failure FilterPlan)
  /-- The element was added. -/
  | added (r : Except Failure Unit)
  /-- Whether the element may have been added. -/
  | tested (r : Except Failure Bool)

/-- A call that was made, with its answer and the world after it. -/
structure Episode where
  /-- The call. -/
  call : SharedCall
  /-- What it was answered. -/
  answer : SharedAnswer
  /-- The world after it. -/
  world : World

namespace SharedCall

/-- The program of a call. -/
def program : SharedCall → Program .none SharedAnswer
  | lock c => .lock <$> c.program
  | createFilter settings => .created <$> (FilterPlan.create settings).run
  | addElement plan element => .added <$> (plan.add element).run
  | testElement plan element => .tested <$> (plan.test element).run

/-- The lock that a call is about. -/
def lock? : SharedCall → Option String
  | lock c => c.lock?
  | _ => none

/-- The key of the filter that a call is about. -/
def filter? : SharedCall → Option String
  | lock _ => none
  | createFilter settings => some settings.name
  | addElement plan _ => some plan.name
  | testElement plan _ => some plan.name

/-- The key of a filter does not start as lock keys do. -/
def NamesFilter (c : SharedCall) : Prop := c.filter?.any startsAsLockKey = false

instance (c : SharedCall) : Decidable c.NamesFilter :=
  inferInstanceAs (Decidable (c.filter?.any startsAsLockKey = false))

/-- Whether a call is about a filter or about another lock than the given one. -/
def isForeign (name : String) : SharedCall → Bool
  | lock c => c.lock?.any fun name' => name' != name
  | _ => true

/-- Makes calls one after the other. -/
def episodes (w : World) : List SharedCall → List Episode
  | [] => []
  | c :: calls =>
    let r := c.program.runOn w
    ⟨c, r.2, r.1⟩ :: episodes r.1 calls

/-- A pause of the given length in place of a call about a filter or another lock. -/
def orPause (name : String) (ms : Nat) (c : SharedCall) : SharedCall :=
  if c.isForeign name then .lock (.pause ms) else c

/-- The calls about one lock and those that forget all locks of a context, as they are; in place of
every other one a pause that is as long as that call takes. -/
def solely (name : String) (w : World) : List SharedCall → List SharedCall
  | [] => []
  | c :: calls =>
    let w₁ := (c.program.runOn w).1
    c.orPause name (w₁.now - w.now) :: solely name w₁ calls

end SharedCall

/-- Two episodes are alike for a lock: it is the same time, all owners have the same entries for the
lock and its key has the same, but for the names of the tokens; and if the call is one about the
lock it is the same call with the same answer. -/
structure Episode.Alike (lock : String) (ρ : Token → Token → Prop) (s s' : Episode) : Prop where
  now : s'.world.now = s.world.now
  held : ∀ p, Option.Rel ρ (s.world.heldBy p lock) (s'.world.heldBy p lock)
  stored : Option.Rel (Entry.RenamedBy ρ) (s.world.store.keyspace.find? (lockKey lock))
    (s'.world.store.keyspace.find? (lockKey lock))
  answer : s.call.lock? = some lock → s'.call = s.call ∧ s'.answer = s.answer

theorem Episode.Alike.mono {lock : String} {ρ ρ' : Token → Token → Prop} {s s' : Episode}
    (h : s.Alike lock ρ s') (hle : Token.Keeps ρ ρ') : s.Alike lock ρ' s' where
  now := h.now
  held p := rel_mono (h.held p) hle
  stored := rel_mono h.stored fun _ _ he => he.mono hle
  answer := h.answer

namespace SharedCall

variable {lock : String} {ρ : Token → Token → Prop} {w w' w₁ : World} {c : SharedCall}

/-! ## What calls preserve -/

/-- The operation that a call runs, perhaps several times. -/
def operation? : SharedCall → Option Operation
  | .lock (.acquire m ctx lock ttl wait) => some (.acquire m ctx lock ttl wait)
  | .lock (.acquireWithRetry m ctx lock ttl wait _) => some (.acquire m ctx lock ttl wait)
  | .lock (.release m ctx lock) => some (.release m ctx lock)
  | .lock (.dispose m ctx) => some (.dispose m ctx)
  | .lock (.pause _) => none
  | createFilter settings => some (.createFilter settings)
  | addElement plan element => some (.addElement plan element)
  | testElement plan element => some (.testElement plan element)

/-- A call preserves what its operation and the passing of time preserve. -/
theorem preserves {P : World → Prop} (c : SharedCall)
    (hop : ∀ o, c.operation? = some o → o.program.Preserves P)
    (hlater : ∀ ⦃w ms⦄, P w → P (w.later ms)) : c.program.Preserves P := by
  cases c with
  | lock c =>
    cases c with
    | acquire m ctx lock ttl wait => exact ((hop _ rfl).map _).map _
    | acquireWithRetry m ctx lock ttl wait budget =>
      exact ((Manager.acquireWithRetry_preserves (hop _ rfl) hlater budget).map _).map _
    | release m ctx lock => exact ((hop _ rfl).map _).map _
    | dispose m ctx => exact ((hop _ rfl).map _).map _
    | pause ms =>
      have hsleep : (Program.perform (X := .none) (.sleep ms)).Preserves P := by
        intro w h
        show P (w.perform (.sleep ms)).1
        rw [World.perform_sleep]
        exact hlater h
      exact (hsleep.map _).map _
  | createFilter settings => exact (hop _ rfl).map _
  | addElement plan element => exact (hop _ rfl).map _
  | testElement plan element => exact (hop _ rfl).map _

/-- After every call the pool is as before. -/
theorem sameStore_runOn (hfree : 0 < w.store.pool.free) (hwaiting : w.store.pool.waiting = [])
    (c : SharedCall) : w.SameStore none (c.program.runOn w).1 := by
  have hop : ∀ o : Operation, o.program.Preserves (w.SameStore none) := by
    intro o w₁ h
    have hfree₁ : 0 < w₁.store.pool.free := h.pool ▸ hfree
    have hwaiting₁ : w₁.store.pool.waiting = [] := h.pool ▸ hwaiting
    exact h.trans (o.sameStore_runOn hfree₁ hwaiting₁)
  exact c.preserves (fun o _ => hop o) (fun _ _ h => h) (World.SameStore.refl w)

/-- The operation of a call about a filter or another lock spares the lock. -/
theorem spares_of_isForeign (hforeign : c.isForeign lock = true) (hname : c.NamesFilter)
    {o : Operation} (ho : c.operation? = some o) : o.Spares lock := by
  have hkey : ∀ name, startsAsLockKey name = false → name ≠ lockKey lock := by
    rintro name hstarts rfl
    rw [startsAsLockKey_lockKey] at hstarts
    cases hstarts
  cases c with
  | lock c =>
    cases c with
    | acquire m ctx lock' ttl wait =>
      cases ho
      exact bne_iff_ne.1 hforeign
    | acquireWithRetry m ctx lock' ttl wait budget =>
      cases ho
      exact bne_iff_ne.1 hforeign
    | release m ctx lock' =>
      cases ho
      exact bne_iff_ne.1 hforeign
    | dispose m ctx => cases hforeign
    | pause ms => cases ho
  | createFilter settings =>
    cases ho
    exact hkey _ hname
  | addElement plan element =>
    cases ho
    exact hkey _ hname
  | testElement plan element =>
    cases ho
    trivial

theorem sameLock_runOn (hforeign : c.isForeign lock = true) (hname : c.NamesFilter) (w : World) :
    w.SameLock lock (c.program.runOn w).1 := by
  refine c.preserves (P := w.SameLock lock) (fun o ho w₁ h => ?_) (fun w₁ ms h => ?_) (.refl lock w)
  · exact h.trans (Operation.sameLock_runOn (spares_of_isForeign hforeign hname ho) w₁)
  · exact h.trans (.later lock w₁ ms)

end SharedCall

/-! ## One call -/

namespace World.Twins

variable {lock : String} {ρ : Token → Token → Prop} {w w' w₁ : World}

/-- Where nothing about the lock has changed, letting time pass on the other side makes up for
it. -/
theorem wait (h : w.Twins lock ρ w') (hlock : w.SameLock lock w₁) (hstore : w.SameStore none w₁) :
    w₁.Twins lock ρ (w'.later (w₁.now - w.now)) := by
  obtain ⟨l, ks, loans, rfl⟩ := h.swapped
  obtain ⟨ks₁, loans₁, hstore⟩ := hstore
  -- the call changes the time and what is swapped away, so after the pause only the latter differs
  have heq : (w.swap l ks loans).later (w₁.now - w.now) = w₁.swap l ks loans := by
    have hnow : w.now + (w₁.now - w.now) = w₁.now := Nat.add_sub_cancel' hlock.now
    show { w.swap l ks loans with now := w.now + (w₁.now - w.now) } = w₁.swap l ks loans
    rw [hnow]
    unfold World.swap
    rw [hstore]
    rfl
  rw [heq]
  exact h.of_sameLock hlock loans

end World.Twins

namespace SharedCall

variable {lock : String} {ρ : Token → Token → Prop} {w w' w₁ : World} {c : SharedCall}

/-- A call that is made on both sides leads to twins, and one about the lock has the same answer. -/
theorem twins_of_kept (hkept : c.isForeign lock = false) (h : w.Twins lock ρ w') :
    (c.program.runOn w).1.Related lock ρ (c.program.runOn w').1 ∧
      (c.lock? = some lock → (c.program.runOn w').2 = (c.program.runOn w).2) := by
  have hrelated : w.Related lock ρ w' := ⟨ρ, fun _ _ h => h, h⟩
  have hrespects : ∀ {p : Program .none LockAnswer}, p.Respects (World.Related lock ρ) →
      (SharedAnswer.lock <$> p).Respects (World.Related lock ρ) := fun hp => hp.map _
  cases c with
  | lock c =>
    cases c with
    | acquire m ctx lock' ttl wait =>
      obtain rfl : lock' = lock := by simpa [isForeign, LockCall.lock?] using hkept
      obtain ⟨hanswer, hworlds⟩ := hrespects
        ((World.Related.acquire_respects m ctx lock' ttl wait).map LockAnswer.outcome) hrelated
      exact ⟨hworlds, fun _ => hanswer⟩
    | acquireWithRetry m ctx lock' ttl wait budget =>
      obtain rfl : lock' = lock := by simpa [isForeign, LockCall.lock?] using hkept
      obtain ⟨hanswer, hworlds⟩ := hrespects
        ((World.Related.acquireWithRetry_respects m ctx lock' ttl wait budget).map
          LockAnswer.outcome)
        hrelated
      exact ⟨hworlds, fun _ => hanswer⟩
    | release m ctx lock' =>
      obtain rfl : lock' = lock := by simpa [isForeign, LockCall.lock?] using hkept
      obtain ⟨hanswer, hworlds⟩ := hrespects
        ((World.Related.release_respects m ctx lock').map LockAnswer.outcome) hrelated
      exact ⟨hworlds, fun _ => hanswer⟩
    | dispose m ctx => exact ⟨⟨ρ, fun _ _ h => h, h.dispose ⟨m.id, ctx⟩⟩, nofun⟩
    | pause ms =>
      have hsleep : (Program.perform (.sleep ms)).Respects (World.Related lock ρ) :=
        World.Related.neutral_respects trivial
      exact ⟨(hrespects (hsleep.map fun _ => LockAnswer.passed) hrelated).2, nofun⟩
  | _ => cases hkept

/-- A call on the one side, and on the other side the same call or a pause in its place. -/
theorem twins_orPause (hfree : 0 < w.store.pool.free) (hwaiting : w.store.pool.waiting = [])
    (hname : c.NamesFilter) (h : w.Twins lock ρ w') :
    let r := c.program.runOn w
    let c' := c.orPause lock (r.1.now - w.now)
    r.1.Related lock ρ (c'.program.runOn w').1 ∧
      (c.lock? = some lock → c' = c ∧ (c'.program.runOn w').2 = r.2) := by
  intro r c'
  by_cases hforeign : c.isForeign lock = true
  · have hc' : c' = .lock (.pause (r.1.now - w.now)) := if_pos hforeign
    have hpause : ((SharedCall.lock (.pause (r.1.now - w.now))).program.runOn w').1 =
        w'.later (r.1.now - w.now) := congrArg Prod.fst (w'.perform_sleep _)
    have htwins := h.wait (sameLock_runOn hforeign hname w) (sameStore_runOn hfree hwaiting c)
    rw [hc', hpause]
    refine ⟨⟨ρ, fun _ _ h => h, htwins⟩, fun hlock => ?_⟩
    have hother : c.isForeign lock = false := by
      cases c with
      | lock c => simp_all [isForeign, SharedCall.lock?]
      | _ => cases hlock
    rw [hforeign] at hother
    cases hother
  · have hc' : c' = c := if_neg hforeign
    rw [hc']
    obtain ⟨hworlds, hanswer⟩ := twins_of_kept (Bool.eq_false_iff.2 hforeign) h
    exact ⟨hworlds, fun hlock => ⟨rfl, hanswer hlock⟩⟩

/-! ## Runs of calls -/

/-- The induction is on the calls that are left. The renaming grows with each of them, so what is
alike by an earlier one is alike by the last. -/
theorem episodes_solely {calls : List SharedCall} (hnames : ∀ c ∈ calls, c.NamesFilter)
    (hfree : 0 < w.store.pool.free) (hwaiting : w.store.pool.waiting = []) (h : w.Twins lock ρ w') :
    ∃ ρ', Token.Keeps ρ ρ' ∧ Token.IsRenaming ρ' ∧
      List.Forall₂ (Episode.Alike lock ρ') (episodes w calls)
        (episodes w' (solely lock w calls)) := by
  induction calls generalizing w w' ρ with
  | nil => exact ⟨ρ, fun _ _ ht => ht, h.injective, .nil⟩
  | cons c calls ih =>
    have hname : c.NamesFilter := hnames c List.mem_cons_self
    have hrest : ∀ c' ∈ calls, c'.NamesFilter := fun c' hmem =>
      hnames c' (List.mem_cons_of_mem c hmem)
    have hpool := (sameStore_runOn hfree hwaiting c).pool
    obtain ⟨⟨ρ₁, hle, htwins⟩, hanswer⟩ := twins_orPause hfree hwaiting hname h
    obtain ⟨ρ', hle', hinjective, hepisodes⟩ :=
      ih hrest (hpool ▸ hfree) (hpool ▸ hwaiting) htwins
    have halike : Episode.Alike lock ρ₁ ⟨c, _, (c.program.runOn w).1⟩ ⟨_, _, _⟩ :=
      ⟨htwins.now, htwins.held, htwins.stored, hanswer⟩
    exact ⟨ρ', fun _ _ ht => hle' (hle ht), hinjective, .cons (halike.mono hle') hepisodes⟩

end SharedCall

/-- A world without entries for a lock is its own twin. -/
theorem World.twins_ofStore {m : Memory} {lock : String}
    (hkey : m.keyspace.find? (lockKey lock) = none) (a : Nat) :
    (World.ofStore m a).Twins lock (fun _ _ => False) (World.ofStore m a) where
  injective := fun _ _ _ _ h => h.elim
  minted := fun _ _ h => h.elim
  swapped := ⟨_, _, _, rfl⟩
  held := fun _ => .none
  stored := by
    unfold Keyspace.TwinsAt
    rw [show (World.ofStore m a).store.keyspace.find? (lockKey lock) = none from hkey]
    exact .none

/-- Lock names are independent.

On a store whose pool is not exhausted, and that has no value for a lock yet, a sequence of lock and
filter operations, one after the other, of any managers and contexts, is compared with the one in
which a pause of the same length stands in place of every operation on a filter or on another lock.
No filter has a key that starts as lock keys do. After each call it is the same time in both runs,
all owners have the same entries for the lock and its key has the same, but for the names of the
tokens; and every operation on the lock has the same result in both. One renaming fits the whole
run. -/
theorem lock_names_independent {m : Memory} (hfree : 0 < m.pool.free)
    (hwaiting : m.pool.waiting = []) {lock : String}
    (hkey : m.keyspace.find? (lockKey lock) = none) (a : Nat) {calls : List SharedCall}
    (hnames : ∀ c ∈ calls, c.NamesFilter) :
    ∃ ρ, Token.IsRenaming ρ ∧
      List.Forall₂ (Episode.Alike lock ρ) (SharedCall.episodes (.ofStore m a) calls)
        (SharedCall.episodes (.ofStore m a) (SharedCall.solely lock (.ofStore m a) calls)) := by
  obtain ⟨ρ, -, hinjective, hepisodes⟩ :=
    SharedCall.episodes_solely hnames hfree hwaiting (World.twins_ofStore hkey a)
  exact ⟨ρ, hinjective, hepisodes⟩

/-- A context takes two locks, an element is added to a filter, and another context waits for the
first of the locks. -/
def SharedCall.mixed : List SharedCall :=
  [.lock (.acquire {} "a" "L" 20 0), .lock (.acquire {} "a" "M" 20 0), .addElement .oneByte "x",
    .lock (.acquireWithRetry { id := 1 } "b" "L" 20 0 40), .lock (.release {} "a" "L")]

/-- With writes that take 3 milliseconds the lock changes hands at 23 in both runs, with the fourth
token in the one and the third in the other. -/
theorem lock_names_independent_mixed :
    let m : Memory := { Memory.standalone with latency := 3 }
    let w := World.ofStore m 0
    let mixed := SharedCall.episodes w SharedCall.mixed
    let alone := SharedCall.episodes w (SharedCall.solely "L" w SharedCall.mixed)
    0 < m.pool.free ∧ m.pool.waiting = [] ∧ m.keyspace.find? (lockKey "L") = none ∧
      (∀ c ∈ SharedCall.mixed, c.NamesFilter) ∧
      (∃ ρ, Token.IsRenaming ρ ∧ List.Forall₂ (Episode.Alike "L" ρ) mixed alone) ∧
      mixed.map (·.world.now) = [3, 6, 12, 23, 23] ∧
      mixed.map (·.world.heldBy ⟨1, "b"⟩ "L") =
        [none, none, none, some (.ofSerial 3), some (.ofSerial 3)] ∧
      alone.map (·.world.heldBy ⟨1, "b"⟩ "L") =
        [none, none, none, some (.ofSerial 2), some (.ofSerial 2)] := by
  intro m w mixed alone
  have hfree : 0 < m.pool.free := by decide
  have hwaiting : m.pool.waiting = [] := rfl
  have hkey : m.keyspace.find? (lockKey "L") = none := rfl
  have hnames : ∀ c ∈ SharedCall.mixed, c.NamesFilter := by decide
  refine ⟨hfree, hwaiting, hkey, hnames, lock_names_independent hfree hwaiting hkey 0 hnames,
    ?_, ?_, ?_⟩
  · decide +kernel
  · decide +kernel
  · decide +kernel

end Latchkey
