import Mathlib.Data.Set.Card
import Latchkey.Proofs.Entries
import Latchkey.Proofs.Releases

/-!
# Registries as partial maps

A registry is kept in two levels: the locks of a context, by context. To those who use it it is one
partial map from contexts and locks to tokens. The two agree as long as every context that is listed
holds something, so whatever takes the last lock of a context has to take the context too.

The main statement is `registry_is_finite_map`: after any accesses of the registries on a ledger, in
any order, they answer as the partial map that was updated by the same accesses. By
`Machine.answersAs_of_run` they do so in every run of a machine as well.
-/

namespace Latchkey

/-! ## Partial maps -/

/-- The owner that an access of the registry of a manager is about. -/
def RegistryAccess.owner (m : ManagerId) : RegistryAccess → Owner
  | .held ctx _ => ⟨m, ctx⟩
  | .record ctx _ _ => ⟨m, ctx⟩
  | .forget ctx _ => ⟨m, ctx⟩
  | .dispose ctx => ⟨m, ctx⟩

/-- A partial map from owners and locks to tokens. An owner is a context of one of the managers, so
each manager has a part of its own. -/
abbrev Bindings := Owner × String → Option Token

namespace Bindings

/-- The partial map after an access of the registry of a manager. -/
def access (b : Bindings) (m : ManagerId) : RegistryAccess → Bindings
  | .held _ _ => b
  | .record ctx lock token => Function.update b (⟨m, ctx⟩, lock) (some token)
  | .forget ctx lock => Function.update b (⟨m, ctx⟩, lock) none
  | .dispose ctx => fun k => if k.1 = ⟨m, ctx⟩ then none else b k

/-- The partial map after some accesses. -/
def accesses (b : Bindings) (as : List (ManagerId × RegistryAccess)) : Bindings :=
  as.foldl (fun b a => b.access a.1 a.2) b

variable {b b' : Bindings} {m : ManagerId} {a : RegistryAccess} {p : Owner}

theorem access_of_ne (h : a.owner m ≠ p) (lock : String) :
    b.access m a (p, lock) = b (p, lock) := by
  cases a with
  | held ctx lock' => rfl
  | record ctx lock' token =>
    exact Function.update_of_ne (fun heq => h (congrArg Prod.fst heq).symm) _ _
  | forget ctx lock' =>
    exact Function.update_of_ne (fun heq => h (congrArg Prod.fst heq).symm) _ _
  | dispose ctx => exact if_neg fun heq => h heq.symm

theorem access_congr (h : ∀ lock, b (p, lock) = b' (p, lock)) (lock : String) :
    b.access m a (p, lock) = b'.access m a (p, lock) := by
  cases a with
  | held ctx lock' => exact h lock
  | record ctx lock' token =>
    simp only [access, Function.update_apply]
    rw [h lock]
  | forget ctx lock' =>
    simp only [access, Function.update_apply]
    rw [h lock]
  | dispose ctx =>
    simp only [access]
    rw [h lock]

/-- What an owner has depends on its own accesses alone. -/
theorem accesses_filter (as : List (ManagerId × RegistryAccess))
    (h : ∀ lock, b (p, lock) = b' (p, lock)) (lock : String) :
    b.accesses as (p, lock) =
      b'.accesses (as.filter fun a => a.2.owner a.1 = p) (p, lock) := by
  induction as generalizing b b' with
  | nil => exact h lock
  | cons a as ih =>
    by_cases hown : a.2.owner a.1 = p
    · rw [List.filter_cons_of_pos (by simpa using hown)]
      exact ih fun lock => access_congr h lock
    · -- an access about another owner may be left out
      rw [List.filter_cons_of_neg (by simpa using hown)]
      exact ih fun lock => (access_of_ne hown lock).trans (h lock)

end Bindings

/-! ## Registries -/

/-- The keys of a table, counted. -/
theorem Table.encard_eq_size {κ ν : Type} [DecidableEq κ] (t : Table κ ν) :
    {k | t.contains k = true}.encard = t.size := by
  have hkeys : {k | t.contains k = true} = t.keys.toFinset := by
    ext k
    simp [mem_keys]
  have hcard : t.keys.toFinset.card = t.keys.length := List.toFinset_card_of_nodup t.nodup
  rw [hkeys, Set.encard_coe_eq_coe_finsetCard, hcard, keys, List.length_map, size]

namespace Registry

variable {r : Registry} {ctx : Context} {lock : String} {token : Token}

/-- Every context that is listed holds something. -/
def ListsHolders (r : Registry) : Prop :=
  ∀ ⦃ctx locks⦄, r.find? ctx = some locks → ∃ lock token, locks.find? lock = some token

theorem find?_locksOf (r : Registry) (ctx : Context) (lock : String) :
    (r.locksOf ctx).find? lock = r.held ctx lock := by
  unfold locksOf held
  cases r.find? ctx with
  | none => rfl
  | some locks => rfl

/-! ### What is listed -/

theorem nodup_holdings (r : Registry) (ctx : Context) :
    ((r.holdings ctx).map (·.lock)).Nodup := by
  have hlocks : (r.holdings ctx).map (·.lock) = (r.locksOf ctx).entries.map (·.1) := by
    rw [holdings, List.map_map]
    rfl
  rw [hlocks]
  exact (r.locksOf ctx).nodup

theorem mem_holdings : ⟨lock, token⟩ ∈ r.holdings ctx ↔ r.held ctx lock = some token := by
  rw [← find?_locksOf, ← Table.mem_entries]
  simp [holdings]

theorem length_holdings (r : Registry) (ctx : Context) :
    (r.holdings ctx).length = r.heldCount ctx := List.length_map _

/-- As no context is listed in vain, those listed are those that hold something. -/
theorem ListsHolders.contains_iff (h : r.ListsHolders) :
    r.contains ctx = true ↔ ∃ lock token, r.held ctx lock = some token := by
  rw [Table.contains, Option.isSome_iff_exists]
  constructor
  · rintro ⟨locks, hlocks⟩
    obtain ⟨lock, token, hlock⟩ := h hlocks
    exact ⟨lock, token, by rw [held, hlocks, Option.bind_some, hlock]⟩
  · rintro ⟨lock, token, hheld⟩
    obtain ⟨locks, hlocks, -⟩ := Option.bind_eq_some_iff.1 hheld
    exact ⟨locks, hlocks⟩

theorem ListsHolders.encard_eq (h : r.ListsHolders) :
    {ctx | ∃ lock token, r.held ctx lock = some token}.encard = r.contextCount := by
  simp only [← h.contains_iff]
  exact Table.encard_eq_size r

/-! ### What keeps contexts from being listed in vain -/

theorem listsHolders_empty : ListsHolders ∅ := nofun

theorem ListsHolders.record (h : r.ListsHolders) (ctx : Context) (lock : String) (token : Token) :
    (r.record ctx lock token).ListsHolders := by
  intro ctx' locks hlocks
  rw [Registry.record, Table.find?_insert] at hlocks
  split at hlocks
  · obtain rfl := Option.some.inj hlocks
    exact ⟨lock, token, by simp⟩
  · exact h hlocks

/-- The context goes with the last of its locks. -/
theorem ListsHolders.forget (h : r.ListsHolders) (ctx : Context) (lock : String) :
    (r.forget ctx lock).ListsHolders := by
  intro ctx' locks hlocks
  rw [Registry.forget, Table.find?_alter] at hlocks
  split at hlocks
  · -- the context was kept, so some other lock is left
    obtain ⟨-, hkept⟩ := Option.filter_eq_some_iff.1 hlocks
    obtain ⟨⟨lock', token⟩, hmem⟩ : ∃ e, e ∈ locks.entries :=
      List.exists_mem_of_ne_nil _ (by simpa using hkept)
    exact ⟨lock', token, Table.mem_entries.1 hmem⟩
  · exact h hlocks

theorem ListsHolders.dispose (h : r.ListsHolders) (ctx : Context) :
    (r.dispose ctx).ListsHolders := by
  intro ctx' locks hlocks
  rw [Registry.dispose, Table.find?_erase] at hlocks
  split at hlocks
  · cases hlocks
  · exact h hlocks

end Registry

/-! ## Ledgers -/

namespace Ledger

/-- The ledger after some accesses of its registries. -/
def accesses (l : Ledger) (as : List (ManagerId × RegistryAccess)) : Ledger :=
  as.foldl (fun l a => (l.access a.1 a.2).1) l

/-- In all registries every context that is listed holds something. -/
def ListsHolders (l : Ledger) : Prop := ∀ m, (l.registry m).ListsHolders

/-- The registries hold what a partial map binds, and list no context in vain. -/
structure Keeps (l : Ledger) (b : Bindings) : Prop where
  heldBy : ∀ p lock, l.heldBy p lock = b (p, lock)
  holders : l.ListsHolders

/-- The registries answer as a partial map. -/
structure AnswersAs (l : Ledger) (b : Bindings) : Prop where
  /-- To look a lock up gives its token. -/
  held : ∀ m ctx lock, (l.access m (.held ctx lock)).2 = b (⟨m, ctx⟩, lock)
  /-- To forget a lock gives the token that it had. -/
  forget : ∀ m ctx lock, (l.access m (.forget ctx lock)).2 = b (⟨m, ctx⟩, lock)
  /-- A context has no lock twice in its list. -/
  nodup : ∀ m ctx, (((l.registry m).holdings ctx).map (·.lock)).Nodup
  /-- It has those locks there that are bound for it, with their tokens. -/
  mem_holdings : ∀ m ctx lock token,
    ⟨lock, token⟩ ∈ (l.registry m).holdings ctx ↔ b (⟨m, ctx⟩, lock) = some token
  /-- They are counted. -/
  heldCount : ∀ m ctx, (l.registry m).heldCount ctx = ((l.registry m).holdings ctx).length
  /-- To dispose of a context gives their number. -/
  dispose : ∀ m ctx, (l.access m (.dispose ctx)).2 = (l.registry m).heldCount ctx
  /-- The contexts that have a lock are finitely many, and counted. -/
  contextCount : ∀ m, {ctx | ∃ lock token, b (⟨m, ctx⟩, lock) = some token}.encard =
    (l.registry m).contextCount

/-- Two ledgers answer an owner alike. The locks of the owner may be listed in another order. -/
structure AnswersAlike (p : Owner) (l l' : Ledger) : Prop where
  access : ∀ m a, a.owner m = p → (l'.access m a).2 = (l.access m a).2
  holdings : ((l'.registry p.manager).holdings p.ctx).Perm ((l.registry p.manager).holdings p.ctx)
  heldCount : (l'.registry p.manager).heldCount p.ctx = (l.registry p.manager).heldCount p.ctx

variable {l l' : Ledger} {b b' : Bindings} {m : ManagerId} {p : Owner}

/-! ### Accesses -/

theorem ListsHolders.congr (h : l.ListsHolders) (heq : l'.registries = l.registries) :
    l'.ListsHolders := by
  intro m
  rw [registry, heq]
  exact h m

theorem ListsHolders.setRegistry (h : l.ListsHolders) {r : Registry} (hr : r.ListsHolders) :
    (l.setRegistry m r).ListsHolders := by
  intro m'
  rw [registry_setRegistry]
  split
  · exact hr
  · exact h m'

theorem ListsHolders.access (h : l.ListsHolders) (m : ManagerId) (a : RegistryAccess) :
    (l.access m a).1.ListsHolders := by
  cases a with
  | held ctx lock => exact h
  | record ctx lock token => exact h.setRegistry ((h m).record ctx lock token)
  | forget ctx lock => exact h.setRegistry ((h m).forget ctx lock)
  | dispose ctx => exact h.setRegistry ((h m).dispose ctx)

theorem Keeps.access (h : l.Keeps b) (m : ManagerId) (a : RegistryAccess) :
    (l.access m a).1.Keeps (b.access m a) where
  holders := h.holders.access m a
  heldBy := by
    intro p lock
    cases a with
    | held ctx lock' => exact h.heldBy p lock
    | record ctx lock' token =>
      refine (heldBy_recordFor (p := ⟨m, ctx⟩) ..).trans ?_
      simp only [Bindings.access, Function.update_apply, Prod.mk.injEq, h.heldBy]
    | forget ctx lock' =>
      refine (heldBy_forgetFor (p := ⟨m, ctx⟩) ..).trans ?_
      simp only [Bindings.access, Function.update_apply, Prod.mk.injEq, h.heldBy]
    | dispose ctx =>
      refine (heldBy_disposeFor (p := ⟨m, ctx⟩) ..).trans ?_
      simp only [Bindings.access, h.heldBy]

theorem Keeps.accesses (h : l.Keeps b) (as : List (ManagerId × RegistryAccess)) :
    (l.accesses as).Keeps (b.accesses as) := by
  induction as generalizing l b with
  | nil => exact h
  | cons a as ih => exact ih (h.access a.1 a.2)

theorem keeps_of_registries (h : l.registries = ∅) : l.Keeps fun _ => none where
  heldBy p lock := by
    rw [heldBy, registry, h]
    rfl
  holders m := by
    rw [registry, h]
    exact Registry.listsHolders_empty

/-! ### Answers -/

theorem Keeps.answersAs (h : l.Keeps b) : l.AnswersAs b where
  held m ctx lock := h.heldBy ⟨m, ctx⟩ lock
  forget m ctx lock := h.heldBy ⟨m, ctx⟩ lock
  nodup m ctx := (l.registry m).nodup_holdings ctx
  mem_holdings m ctx lock token := by
    rw [Registry.mem_holdings, ← h.heldBy]
    rfl
  heldCount m ctx := ((l.registry m).length_holdings ctx).symm
  dispose m ctx := rfl
  contextCount m := by
    simp only [← h.heldBy]
    exact (h.holders m).encard_eq

/-- What an owner is answered is found from what is bound for it. -/
theorem AnswersAs.alike (h : l.AnswersAs b) (h' : l'.AnswersAs b')
    (heq : ∀ lock, b' (p, lock) = b (p, lock)) : AnswersAlike p l l' := by
  have hholdings :
      ((l'.registry p.manager).holdings p.ctx).Perm ((l.registry p.manager).holdings p.ctx) := by
    refine (List.perm_ext_iff_of_nodup (h'.nodup _ _).of_map (h.nodup _ _).of_map).2 ?_
    rintro ⟨lock, token⟩
    rw [h'.mem_holdings, h.mem_holdings, heq]
  have hcount :
      (l'.registry p.manager).heldCount p.ctx = (l.registry p.manager).heldCount p.ctx := by
    rw [h'.heldCount, h.heldCount, hholdings.length_eq]
  refine ⟨?_, hholdings, hcount⟩
  rintro m a rfl
  cases a with
  | held ctx lock => exact (h'.held m ctx lock).trans ((heq lock).trans (h.held m ctx lock).symm)
  | record ctx lock token => rfl
  | forget ctx lock =>
    exact (h'.forget m ctx lock).trans ((heq lock).trans (h.forget m ctx lock).symm)
  | dispose ctx => exact (h'.dispose m ctx).trans (hcount.trans (h.dispose m ctx).symm)

end Ledger

/-- The registries are finite maps, and no context is counted that holds nothing.

After any accesses of the registries of any managers, all of them new at first, they answer as the
partial map that was updated by the same accesses. A look-up gives what is bound; to forget a lock
gives what was bound and removes it. The list of a context has each of its locks exactly once, with
its token, and the locks counted are those listed; to dispose of a context gives their number and
removes them all. The contexts counted are those that have a lock. As this is so after any accesses,
each access of a sequence is answered in this way. Moreover an owner is answered as if no other had
ever accessed a registry. -/
theorem registry_is_finite_map (as : List (ManagerId × RegistryAccess)) :
    (Ledger.accesses {} as).AnswersAs (Bindings.accesses (fun _ => none) as) ∧
    ∀ p, Ledger.AnswersAlike p (Ledger.accesses {} (as.filter fun a => a.2.owner a.1 = p))
      (Ledger.accesses {} as) := by
  have hanswers : ∀ as, (Ledger.accesses {} as).AnswersAs (Bindings.accesses (fun _ => none) as) :=
    fun as => ((Ledger.keeps_of_registries rfl).accesses as).answersAs
  refine ⟨hanswers as, fun p => ?_⟩
  exact (hanswers _).alike (hanswers as) (Bindings.accesses_filter as fun _ => rfl)

/-- Two contexts with one lock name: one notes its token twice, the other forgets its own and is
gone. -/
example :
    let l := Ledger.accesses {} [(0, .record "a" "k" "s"), (0, .record "b" "k" "t"),
      (0, .record "a" "k" "u"), (0, .forget "b" "k")]
    (l.registry 0).holdings "a" = [⟨"k", "u"⟩] ∧ (l.registry 0).holdings "b" = [] ∧
      (l.registry 0).contextCount = 1 := by decide

/-! ## Machines -/

variable {X : Extension}

theorem World.listsHolders_answer {w : World} (h : w.toLedger.ListsHolders) (waited : Option Wait)
    (e : Effect) : (w.answer waited e).1.toLedger.ListsHolders := by
  cases e with
  | registry m a => exact h.access m a
  | _ => exact h.congr (w.answer_registries waited id)

namespace Task

theorem listsHolders_of_moved {α : Type} {w w' : World} {t t' : Task X α} {x : Exchange}
    (h : w.toLedger.ListsHolders) (hs : t.step w = .moved w' t') (hx : t.exchange? w = some x) :
    w'.toLedger.ListsHolders := by
  obtain ⟨k, -, -, hanswer, -⟩ := step_eq_moved hs hx
  obtain rfl : w' = _ := congrArg Prod.fst hanswer
  exact World.listsHolders_answer h t.wait x.effect

theorem listsHolders_forgetGuards {w : World} (h : w.toLedger.ListsHolders) (gs : List Guard) :
    (forgetGuards w gs).1.toLedger.ListsHolders := by
  induction gs generalizing w with
  | nil => exact h
  | cons g rest ih =>
    refine ih ?_
    unfold forgetGuard
    split
    · exact h
    · exact h.setRegistry ((h g.manager).forget g.ctx g.lock)

theorem listsHolders_drop {α : Type} {w : World} (h : w.toLedger.ListsHolders) (t : Task X α) :
    (t.drop w).1.toLedger.ListsHolders := by
  obtain ⟨w', halike, heq⟩ := drop_eq w t
  rw [heq]
  exact listsHolders_forgetGuards (h.congr halike.registries) t.guards

end Task

namespace Machine

variable {mode : Scheduling} {s s' : Machine X} {ev : Event} {tr : List Event}

theorem Step.listsHolders (h : Step mode s ev s') (hs : s.world.toLedger.ListsHolders) :
    s'.world.toLedger.ListsHolders := by
  cases h with
  | @thread w w' pre post th th' ev hm hth =>
    cases hth with
    | perform hstep hx => exact Task.listsHolders_of_moved hs hstep hx
    | work hstep hx => exact Task.listsHolders_of_moved hs hstep hx
    | rest hstep => exact hs.congr (Task.alike_of_waits hstep).registries
    | await hstep => exact hs.congr (Task.alike_of_waits hstep).registries
    | _ => exact hs
  | @drop w pre post th runtime _ =>
    cases th with
    | between t => exact Task.listsHolders_drop hs t
    | inside o log t next => exact Task.listsHolders_drop hs t
  | _ => exact hs

theorem listsHolders_of_run (h : Run (Step mode) s tr s') (hs : s.world.toLedger.ListsHolders) :
    s'.world.toLedger.ListsHolders := by
  induction h with
  | nil => exact hs
  | snoc _ hstep ih => exact hstep.listsHolders ih

/-- In a run that starts with new registries they answer as the partial map that the trace makes,
whatever clients run side by side and wherever they are dropped. -/
theorem answersAs_of_run (h : Run (Step mode) s tr s') (hs : s.world.registries = ∅) :
    s'.world.toLedger.AnswersAs fun k => entryAfter k.1 k.2 none tr := by
  have hstart := Ledger.keeps_of_registries hs
  refine Ledger.Keeps.answersAs ⟨fun p lock => ?_, listsHolders_of_run h hstart.holders⟩
  rw [heldBy_of_run h p lock, hstart.heldBy]

end Machine

end Latchkey
