import Latchkey.Proofs.Abandoned

/-!
# Entries

What a registry has for an owner and a lock is what was written last: a token that was recorded, or
nothing since the lock was forgotten, the context disposed of, or a guarded section dropped. Nothing
else changes the entry, whoever runs beside it.

The main statements are `Machine.heldBy_of_run`, that the entry is found from the trace, and
`Machine.heldBy_of_look`, that after a call has looked at it it is found from what the call saw.
-/

namespace Latchkey

variable {X : Extension} {p : Owner} {lock : String} {entry : Option Token}

/-! ## Writes -/

/-- The entry of an owner for a lock after an effect. -/
def Effect.entryAfter (p : Owner) (lock : String) (entry : Option Token) : Effect → Option Token
  | .registry m (.record ctx lock' token) =>
    if (⟨m, ctx⟩ : Owner) = p ∧ lock' = lock then some token else entry
  | .registry m (.forget ctx lock') =>
    if (⟨m, ctx⟩ : Owner) = p ∧ lock' = lock then none else entry
  | .registry m (.dispose ctx) => if (⟨m, ctx⟩ : Owner) = p then none else entry
  | _ => entry

theorem Effect.entryAfter_of_not_writes {e : Effect} (h : ¬ e.Writes p lock) :
    e.entryAfter p lock entry = entry := by
  cases e with
  | registry m a =>
    cases a with
    | held ctx lock' => rfl
    | record ctx lock' token => exact if_neg h
    | forget ctx lock' => exact if_neg h
    | dispose ctx => exact if_neg h
  | _ => rfl

instance : DecidablePred (Effect.Writes p lock)
  | .registry m (.record ctx lock' _) =>
    inferInstanceAs (Decidable ((⟨m, ctx⟩ : Owner) = p ∧ lock' = lock))
  | .registry m (.forget ctx lock') =>
    inferInstanceAs (Decidable ((⟨m, ctx⟩ : Owner) = p ∧ lock' = lock))
  | .registry m (.dispose ctx) => inferInstanceAs (Decidable ((⟨m, ctx⟩ : Owner) = p))
  | .registry _ (.held ..) => .isFalse id
  | .clock => .isFalse id
  | .sleep _ => .isFalse id
  | .closing => .isFalse id
  | .deployment => .isFalse id
  | .call _ => .isFalse id
  | .release _ => .isFalse id
  | .mint => .isFalse id
  | .arm _ => .isFalse id
  | .disarm => .isFalse id
  | .count _ => .isFalse id

namespace Event

/-- Whether an event writes the entry of an owner for a lock. -/
def WritesEntry (p : Owner) (lock : String) : Event → Prop
  | .did _ x => x.effect.Writes p lock
  | .performed x => x.effect.Writes p lock
  | .dropped given => ∃ d ∈ given, d.1 = p.guard lock
  | _ => False

instance : DecidablePred (WritesEntry p lock)
  | .did _ x => inferInstanceAs (Decidable (x.effect.Writes p lock))
  | .performed x => inferInstanceAs (Decidable (x.effect.Writes p lock))
  | .dropped given => inferInstanceAs (Decidable (∃ d ∈ given, d.1 = p.guard lock))
  | .silent => .isFalse id
  | .began _ => .isFalse id
  | .returned .. => .isFalse id
  | .purged => .isFalse id
  | .elapsed _ => .isFalse id
  | .configured => .isFalse id

/-- The entry of an owner for a lock after an event. -/
def entryAfter (p : Owner) (lock : String) (entry : Option Token) : Event → Option Token
  | .did _ x => x.effect.entryAfter p lock entry
  | .performed x => x.effect.entryAfter p lock entry
  | .dropped given => if ∃ d ∈ given, d.1 = p.guard lock then none else entry
  | _ => entry

variable {ev : Event}

theorem entryAfter_of_not_writes (h : ¬ ev.WritesEntry p lock) :
    ev.entryAfter p lock entry = entry := by
  cases ev with
  | did o x => exact Effect.entryAfter_of_not_writes h
  | performed x => exact Effect.entryAfter_of_not_writes h
  | dropped given => exact if_neg h
  | _ => rfl

end Event

/-! ## Traces -/

/-- The entry of an owner for a lock after a trace. -/
def entryAfter (p : Owner) (lock : String) (entry : Option Token) (tr : List Event) :
    Option Token :=
  tr.foldl (fun entry ev => ev.entryAfter p lock entry) entry

@[simp] theorem entryAfter_nil : entryAfter p lock entry [] = entry := rfl

@[simp] theorem entryAfter_append (tr tr' : List Event) :
    entryAfter p lock entry (tr ++ tr') = entryAfter p lock (entryAfter p lock entry tr) tr' :=
  List.foldl_append

@[simp] theorem entryAfter_cons (ev : Event) (tr : List Event) :
    entryAfter p lock entry (ev :: tr) = entryAfter p lock (ev.entryAfter p lock entry) tr := rfl

theorem entryAfter_of_not_writes {tr : List Event} (h : ∀ ev ∈ tr, ¬ ev.WritesEntry p lock) :
    entryAfter p lock entry tr = entry := by
  induction tr generalizing entry with
  | nil => rfl
  | cons ev tr ih =>
    obtain ⟨hev, htr⟩ := List.forall_mem_cons.1 h
    rw [entryAfter_cons, Event.entryAfter_of_not_writes hev, ih htr]

/-- There is no entry if it is removed whenever it is written. -/
theorem entryAfter_eq_none {tr : List Event}
    (hremoved : ∀ ev ∈ tr, ev.WritesEntry p lock → ∀ entry, ev.entryAfter p lock entry = none)
    (h : entry = none ∨ ∃ ev ∈ tr, ev.WritesEntry p lock) : entryAfter p lock entry tr = none := by
  induction tr generalizing entry with
  | nil =>
    rcases h with rfl | ⟨ev, hmem, -⟩
    · rfl
    · cases hmem
  | cons ev tr ih =>
    obtain ⟨hev, htr⟩ := List.forall_mem_cons.1 hremoved
    rw [entryAfter_cons]
    refine ih htr ?_
    by_cases hwrites : ev.WritesEntry p lock
    · exact .inl (hev hwrites entry)
    · rw [Event.entryAfter_of_not_writes hwrites]
      refine h.imp_right fun ⟨ev', hmem, hwrites'⟩ => ?_
      rcases List.mem_cons.1 hmem with rfl | hmem
      · exact absurd hwrites' hwrites
      · exact ⟨ev', hmem, hwrites'⟩

/-! ## Worlds -/

/-- An answer changes the entry as the effect says. -/
theorem World.heldBy_answer (w : World) (waited : Option Wait) (e : Effect) :
    (w.answer waited e).1.heldBy p lock = e.entryAfter p lock (w.heldBy p lock) := by
  cases e with
  | registry m a =>
    cases a with
    | held ctx lock' => rfl
    | record ctx lock' token =>
      refine (Ledger.heldBy_recordFor (p := ⟨m, ctx⟩) ..).trans ?_
      exact ite_congr (propext (and_congr eq_comm eq_comm)) (fun _ => rfl) fun _ => rfl
    | forget ctx lock' =>
      refine (Ledger.heldBy_forgetFor (p := ⟨m, ctx⟩) ..).trans ?_
      exact ite_congr (propext (and_congr eq_comm eq_comm)) (fun _ => rfl) fun _ => rfl
    | dispose ctx =>
      refine (Ledger.heldBy_disposeFor (p := ⟨m, ctx⟩) ..).trans ?_
      exact ite_congr (propext eq_comm) (fun _ => rfl) fun _ => rfl
  | call c =>
    cases c with
    | connect node => exact World.heldBy_congr (w.connect_alike node waited).registries p lock
    | command conn cmd =>
      have hledger := (w.command_frame conn waited cmd).1
      exact World.heldBy_congr (congrArg Ledger.registries hledger) p lock
    | _ => rfl
  | _ => rfl

/-! ## Machines -/

namespace Machine

variable {mode : Scheduling} {s s' : Machine X} {ev : Event} {tr : List Event}

theorem Step.heldBy (h : Step mode s ev s') (p : Owner) (lock : String) :
    s'.world.heldBy p lock = ev.entryAfter p lock (s.world.heldBy p lock) := by
  have htask : ∀ {α : Type} {Y : Extension} {w w' : World} {t t' : Task Y α} {x : Exchange},
      t.step w = .moved w' t' → t.exchange? w = some x →
        w'.heldBy p lock = x.effect.entryAfter p lock (w.heldBy p lock) := by
    intro α Y w w' t t' x hs hx
    obtain ⟨k, -, -, hanswer, -⟩ := Task.step_eq_moved hs hx
    obtain rfl : w' = _ := congrArg Prod.fst hanswer
    exact w.heldBy_answer t.wait x.effect
  cases h with
  | @thread w w' pre post th th' ev hm hth =>
    cases hth with
    | perform hs hx => exact htask hs hx
    | work hs hx => exact htask hs hx
    | rest hs => exact World.heldBy_congr (Task.alike_of_waits hs).registries p lock
    | await hs => exact World.heldBy_congr (Task.alike_of_waits hs).registries p lock
    | _ => rfl
  | @drop w pre post th runtime hs =>
    show (th.drop w).heldBy p lock =
      if ∃ d ∈ Task.forsaken w th.guards, d.1 = p.guard lock then none else w.heldBy p lock
    rw [th.heldBy_drop w p lock]
    by_cases hguard : p.guard lock ∈ th.guards
    · rw [if_pos hguard]
      cases hheld : w.heldBy p lock with
      | none => simp
      | some token => exact (if_pos ⟨_, Task.mem_forsaken hheld hguard, rfl⟩).symm
    · rw [if_neg hguard, if_neg]
      rintro ⟨d, hmem, hd⟩
      exact hguard (hd ▸ Task.fst_mem_of_mem_forsaken hmem)
  | _ => rfl

/-- The entry of an owner for a lock is found from the trace. -/
theorem heldBy_of_run (h : Run (Step mode) s tr s') (p : Owner) (lock : String) :
    s'.world.heldBy p lock = entryAfter p lock (s.world.heldBy p lock) tr := by
  induction h with
  | nil => rfl
  | snoc h hs ih => rw [hs.heldBy, ih, entryAfter_append, entryAfter_cons, entryAfter_nil]

end Machine

/-! ## Calls in traces -/

namespace Thread

variable {tr : List Event} {w w' : World} {ev : Event} {th : Thread X} {th' : Option (Thread X)}

/-- The exchanges of a call are events of a trace, in order. -/
def Ordered (tr : List Event) : Thread X → Prop
  | .between _ => True
  | .inside o log _ _ => (log.map (Event.did o)).Sublist tr

theorem Ordered.append (h : th.Ordered tr) (tr' : List Event) : th.Ordered (tr ++ tr') := by
  cases th with
  | between t => trivial
  | inside o log t next => exact List.Sublist.trans h (List.sublist_append_left tr tr')

/-- The rest of a call comes after its first exchange. -/
theorem Ordered.split {o : Operation} {x : Exchange} {part : List Exchange} {t : Task X o.Answer}
    {next : o.Answer → Client X Unit} (h : (inside o (x :: part) t next).Ordered tr) :
    ∃ tr₁ tr₂, tr = tr₁ ++ .did o x :: tr₂ ∧ (part.map (Event.did o)).Sublist tr₂ := by
  obtain ⟨tr₀, tr₂, rfl, hfirst, hpart⟩ := List.cons_sublist_iff.1 h
  obtain ⟨tr₁, tr₀', rfl⟩ := List.append_of_mem hfirst
  exact ⟨tr₁, tr₀' ++ tr₂, by simp, hpart.trans (List.sublist_append_right _ _)⟩

theorem Step.ordered (h : th.Step w ev w' th') (hth : th.Ordered tr) :
    ∀ t ∈ th', t.Ordered (tr ++ [ev]) := by
  rintro t ⟨⟩
  cases h with
  | call hs ho => exact List.nil_sublist _
  | @work o log t t' next w' x hs hx =>
    show ((log ++ [x]).map (Event.did o)).Sublist _
    rw [List.map_append]
    exact List.Sublist.append_right hth [.did o x]
  | @await o log t t' next w' hs => exact (show (inside o log t' next).Ordered tr from hth).append _
  | _ => trivial

end Thread

namespace Machine

variable {mode : Scheduling} {s s' : Machine X} {ev : Event} {tr : List Event}

/-- A thread was there before a step, or has taken it, or has just begun. -/
theorem Step.thread_cases (h : Step mode s ev s') {th : Thread X} (hth : th ∈ s'.threads) :
    th ∈ s.threads ∨ (∃ th₀ ∈ s.threads, th₀.Step s.world ev s'.world (some th)) ∨
      (∃ c, th = .between { program := c }) ∨ ∃ d, th = .deletion d := by
  cases h with
  | @thread w w' pre post th₀ th' ev hm hstep =>
    simp only [List.mem_append, Option.mem_toList] at hth
    rcases hth with (hth | rfl) | hth
    · exact .inl (List.mem_append_left _ hth)
    · exact .inr (.inl ⟨th₀, List.mem_append_right _ List.mem_cons_self, hstep⟩)
    · exact .inl (List.mem_append_right _ (List.mem_cons_of_mem _ hth))
  | start c =>
    rcases List.mem_append.1 hth with hth | hth
    · exact .inl hth
    · exact .inr (.inr (.inl ⟨c, List.mem_singleton.1 hth⟩))
  | @drop w pre post th₀ runtime hs =>
    rcases List.mem_append.1 hth with hth | hth
    · exact .inl (mem_middle_of_mem hth)
    · cases runtime with
      | true =>
        obtain ⟨d, -, rfl⟩ := List.mem_map.1 hth
        exact .inr (.inr (.inr ⟨d, rfl⟩))
      | false => cases hth
  | _ => exact .inl hth

theorem ordered_of_run (hs : s.threads = []) (h : Run (Step mode) s tr s') :
    ∀ th ∈ s'.threads, th.Ordered tr := by
  induction h with
  | nil =>
    intro th hth
    rw [hs] at hth
    cases hth
  | snoc h hstep ih =>
    intro th hth
    rcases hstep.thread_cases hth with hold | ⟨th₀, hmem, hgoes⟩ | ⟨c, rfl⟩ | ⟨d, rfl⟩
    · exact (ih th hold).append _
    · exact hgoes.ordered (ih th₀ hmem) th rfl
    · trivial
    · exact List.nil_sublist _

/-- The entry after a call has looked at it is found from what the call saw. -/
theorem heldBy_of_look {p : Owner} {lock : String} {o : Operation} {found : Option Token}
    {tr₁ tr₂ : List Event}
    (h : Run (Step mode) s
      (tr₁ ++ .did o ⟨.registry p.manager (.held p.ctx lock), found⟩ :: tr₂) s') :
    s'.world.heldBy p lock = entryAfter p lock found tr₂ := by
  obtain ⟨s₁, s₂, -, hlook, h₂⟩ := h.split
  obtain ⟨log, t, next, k, -, -, hfound⟩ := hlook.of_did
  obtain ⟨hworld, rfl⟩ := Prod.mk.inj hfound
  rw [heldBy_of_run h₂ p lock, hworld]
  rfl

end Machine

end Latchkey
