import Latchkey.Proofs.Bits
import Latchkey.Proofs.FilterProtocol
import Latchkey.Proofs.FreeLock

/-!
# Filters in use

Any number of clients create a filter, add elements to it and look for elements, side by side. A bit
of the filter is set exactly if the last write of it has set it. Additions set bits. Only a creation
clears one, the last, if it was told that the key has no value, be it that meanwhile the key has a
value and the bit is set.

So an element that was added is found, unless the last bit is one of its bits and was cleared so.

The main statement is `found_unless_undone`.
-/

namespace Latchkey

variable {X : Extension}

/-! ## Writes of bits -/

namespace Event

/-- Whether an event may write the key of a filter but is of no operation of the filter. -/
def IsOutside (p : FilterPlan) : Event → Prop
  | .did o _ => ¬ o.Uses p
  | .performed _ => True
  | _ => False

/-- An operation of a filter wrote a bit. -/
def Writes (p : FilterPlan) (offset : Nat) (bit : Bool) (ev : Event) : Prop :=
  ∃ o conn b, o.Uses p ∧
    ev = .did o ⟨.call (.command conn (.setBit p.name offset bit)), .ok b⟩

theorem Writes.unique {p : FilterPlan} {offset offset' : Nat} {bit bit' : Bool} {ev : Event}
    (h : ev.Writes p offset bit) (h' : ev.Writes p offset' bit') :
    offset = offset' ∧ bit = bit' := by
  obtain ⟨o, conn, b, -, rfl⟩ := h
  obtain ⟨o', conn', b', -, heq⟩ := h'
  cases heq
  exact ⟨rfl, rfl⟩

/-- A creation is told that the key of the filter has no value. -/
def IsDenial (p : FilterPlan) (c : FilterSettings) (ev : Event) : Prop :=
  FilterPlan.ofSettings c = .ok p ∧
    ∃ conn, ev = .did (.createFilter c) ⟨.call (.command conn (.present p.name)), .ok false⟩

/-- A creation clears the last bit. -/
def IsClearing (p : FilterPlan) (c : FilterSettings) (ev : Event) : Prop :=
  FilterPlan.ofSettings c = .ok p ∧ ∃ conn b,
    ev = .did (.createFilter c)
      ⟨.call (.command conn (.setBit p.name (p.bits - 1) false)), .ok b⟩

/-- An addition sets a bit of its element. -/
def IsMarking (p : FilterPlan) (element : String) (offset : Nat) (ev : Event) : Prop :=
  ∃ conn b,
    ev = .did (.addElement p element) ⟨.call (.command conn (.setBit p.name offset true)), .ok b⟩

end Event

/-- An addition was undone: the last bit is one of its element's, and a creation that had been told
before this bit was set that the key has no value has cleared it afterwards. -/
def Undone (p : FilterPlan) (element : String) (tr : List Event) : Prop :=
  p.bits - 1 ∈ p.offsets element ∧
    ∃ (c : FilterSettings) (before after : List Event) (marking : Event),
      tr = before ++ marking :: after ∧ marking.IsMarking p element (p.bits - 1) ∧
        (∃ denial ∈ before, denial.IsDenial p c) ∧ ∃ clearing ∈ after, clearing.IsClearing p c

namespace Machine

variable {mode : Scheduling} {p : FilterPlan} {s s' : Machine X} {ev : Event} {tr tr' : List Event}

/-- A step in which only operations of a filter touch its key. -/
structure FilterStep (mode : Scheduling) (p : FilterPlan) (s : Machine X) (ev : Event)
    (s' : Machine X) : Prop where
  step : Step mode s ev s'
  spares : ev.IsOutside p →
    s'.world.store.keyspace.find? p.name = s.world.store.keyspace.find? p.name

/-- Only exchanges and the removal of expired values change the keyspace. -/
theorem Step.keyspace_cases (h : Step mode s ev s') :
    (∃ o x, ev = .did o x) ∨ (∃ x, ev = .performed x) ∨
      (ev = .purged ∧
        s'.world.store.keyspace = (s.world.store.keyspace.purge s.world.now).1) ∨
      ((∀ o x, ev ≠ .did o x) ∧
        s'.world.store.keyspace = s.world.store.keyspace) := by
  cases h with
  | @thread w w' pre post th th' ev hm hth =>
    cases hth with
    | perform hs hx => exact .inr (.inl ⟨_, rfl⟩)
    | work hs hx => exact .inl ⟨_, _, rfl⟩
    | rest hs =>
      exact .inr (.inr (.inr ⟨fun _ _ h => (nomatch h), (Task.alike_of_waits hs).keyspace⟩))
    | await hs =>
      exact .inr (.inr (.inr ⟨fun _ _ h => (nomatch h), (Task.alike_of_waits hs).keyspace⟩))
    | _ => exact .inr (.inr (.inr ⟨fun _ _ h => (nomatch h), rfl⟩))
  | @drop w pre post th runtime hs =>
    exact .inr (.inr (.inr ⟨fun _ _ h => (nomatch h), (th.drop_forgets w).keyspace⟩))
  | purge => exact .inr (.inr (.inl ⟨rfl, rfl⟩))
  | _ => exact .inr (.inr (.inr ⟨fun _ _ h => (nomatch h), rfl⟩))

/-- The answer to an effect of an operation of a filter: a bit is written, or the keyspace is left
alone. -/
theorem answer_keyspace {w : World} {o : Operation} {log : List Exchange} {e : Effect}
    (ho : o.Uses p) (hserve : o.mayServe p log e) (hexp : p.expiration = none)
    (waited : Option Wait) :
    (∃ offset bit, Event.Writes p offset bit (.did o ⟨e, (w.answer waited e).2⟩) ∧
      (w.answer waited e).1.store.keyspace =
        (w.store.keyspace.setBit w.now p.name offset bit).1) ∨
    ((∀ offset bit, ¬ Event.Writes p offset bit (.did o ⟨e, (w.answer waited e).2⟩)) ∧
      (w.answer waited e).1.store.keyspace = w.store.keyspace) := by
  have hread : (∀ conn key offset bit, e ≠ .call (.command conn (.setBit key offset bit))) →
      ∀ offset bit, ¬ Event.Writes p offset bit (.did o ⟨e, (w.answer waited e).2⟩) := by
    rintro he offset bit ⟨o', conn, b, -, heq⟩
    have heffect : e = .call (.command conn (.setBit p.name offset bit)) := by
      injection heq with _ hx
      injection hx
    exact he _ _ _ _ heffect
  cases e with
  | release conn => exact .inr ⟨hread nofun, w.giveBack_alike.keyspace⟩
  | count measure => exact .inr ⟨hread nofun, rfl⟩
  | call c =>
    cases c with
    | nodeOwning key => exact .inr ⟨hread nofun, rfl⟩
    | connect node => exact .inr ⟨hread nofun, (w.connect_alike node waited).keyspace⟩
    | command conn cmd =>
      cases cmd with
      | present key => exact .inr ⟨hread nofun, rfl⟩
      | getBit key offset => exact .inr ⟨hread nofun, rfl⟩
      | setBit key offset bit =>
        obtain ⟨rfl, -⟩ := hserve
        exact .inl ⟨offset, bit, ⟨o, conn, _, ho, rfl⟩, rfl⟩
      | expire key ms =>
        have hms : p.expiration = some ms := hserve
        rw [hexp] at hms
        cases hms
      | _ => exact hserve.elim
    | _ => exact hserve.elim
  | _ => exact hserve.elim

/-- What is known of a filter without expiration: its key has no deadline, and the exchanges of its
operations are in the trace. -/
structure Steady (p : FilterPlan) (tr : List Event) (s : Machine X) : Prop where
  expiration : p.expiration = none
  permanent : s.world.store.keyspace.Permanent p.name
  logged : s.Logged tr

namespace FilterStep

/-- An operation of a filter performs only the effects that it may. -/
theorem did {o : Operation} {x : Exchange} (h : FilterStep mode p s (.did o x) s')
    (hs : s.Steady p tr) (ho : o.Uses p) :
    ∃ log waited, (∀ y ∈ log, Event.did o y ∈ tr) ∧ o.mayServe p log x.effect ∧
      (s'.world, x.reply) = s.world.answer waited x.effect := by
  obtain ⟨log, next, waited, hmem, hafter, hanswer⟩ := hs.logged.did h.step
  have hpermits := (Operation.serves (X := X) ho).permits hafter
  rw [Operation.service, Discipline.ofLog_run, List.nil_append] at hpermits
  exact ⟨log, waited, hmem, hpermits, hanswer⟩

/-- A step writes a bit of the filter, or it leaves the key of the filter alone. -/
theorem keyspace (h : FilterStep mode p s ev s') (hs : s.Steady p tr) :
    (∃ offset bit, ev.Writes p offset bit ∧ s'.world.store.keyspace =
        (s.world.store.keyspace.setBit s.world.now p.name offset bit).1) ∨
      ((∀ offset bit, ¬ ev.Writes p offset bit) ∧
        s'.world.store.keyspace.find? p.name = s.world.store.keyspace.find? p.name) := by
  have hquiet : (∀ o x, ev ≠ .did o x) → ∀ offset bit, ¬ ev.Writes p offset bit := by
    rintro hdid offset bit ⟨o, conn, b, -, rfl⟩
    exact hdid _ _ rfl
  rcases h.step.keyspace_cases with ⟨o, x, rfl⟩ | ⟨x, rfl⟩ | ⟨rfl, hpurge⟩ | ⟨hdid, hsame⟩
  · by_cases ho : o.Uses p
    · obtain ⟨log, waited, -, hserve, hanswer⟩ := h.did hs ho
      obtain ⟨e, r⟩ := x
      have hworld : s'.world = (s.world.answer waited e).1 := congrArg Prod.fst hanswer
      have hreply : r = (s.world.answer waited e).2 := congrArg Prod.snd hanswer
      subst hreply
      rw [hworld]
      exact (answer_keyspace ho hserve hs.expiration waited).imp_right fun h =>
        ⟨h.1, by rw [h.2]⟩
    · refine .inr ⟨?_, h.spares ho⟩
      rintro offset bit ⟨o', conn, b, ho', heq⟩
      cases heq
      exact ho ho'
  · exact .inr ⟨hquiet fun _ _ heq => (nomatch heq), h.spares trivial⟩
  · refine .inr ⟨hquiet fun _ _ heq => (nomatch heq), ?_⟩
    rw [hpurge, Keyspace.find?_purge, hs.permanent.live?]
  · exact .inr ⟨hquiet hdid, by rw [hsame]⟩

theorem steady (h : FilterStep mode p s ev s') (hs : s.Steady p tr) :
    s'.Steady p (tr ++ [ev]) := by
  refine ⟨hs.expiration, ?_, hs.logged.step h.step⟩
  rcases h.keyspace hs with ⟨offset, bit, -, hwrite⟩ | ⟨-, hsame⟩
  · rw [hwrite]
    exact hs.permanent.setBit s.world.now offset bit
  · exact hs.permanent.of_find? hsame

/-- The key keeps its value. -/
theorem found (h : FilterStep mode p s ev s') (hs : s.Steady p tr)
    (hfound : (s.world.store.keyspace.find? p.name).isSome) :
    (s'.world.store.keyspace.find? p.name).isSome := by
  rcases h.keyspace hs with ⟨offset, bit, -, hwrite⟩ | ⟨-, hsame⟩
  · rw [hwrite]
    exact Keyspace.found_setBit ..
  · rw [hsame]
    exact hfound

/-- A bit is set exactly if it was just set, or was set before and not just cleared. -/
theorem isSet_iff (h : FilterStep mode p s ev s') (hs : s.Steady p tr) (offset : Nat) :
    s'.world.store.keyspace.IsSet p.name offset ↔ ev.Writes p offset true ∨
      s.world.store.keyspace.IsSet p.name offset ∧ ¬ ev.Writes p offset false := by
  rcases h.keyspace hs with ⟨offset', bit, hev, hwrite⟩ | ⟨hno, hsame⟩
  · rw [hwrite, hs.permanent.isSet_setBit]
    by_cases heq : offset = offset'
    · subst heq
      rw [if_pos rfl]
      cases bit with
      | true => exact iff_of_true rfl (.inl hev)
      | false =>
        refine iff_of_false (fun hbit => nomatch hbit) ?_
        rintro (hset | ⟨-, hnot⟩)
        · cases (hset.unique hev).2
        · exact hnot hev
    · rw [if_neg heq]
      have hother : ∀ bit', ¬ ev.Writes p offset bit' := fun bit' h' => heq (h'.unique hev).1
      exact ⟨fun hset => .inr ⟨hset, hother false⟩,
        fun h => (h.resolve_left (hother true)).1⟩
  · have hiff : s'.world.store.keyspace.IsSet p.name offset ↔
        s.world.store.keyspace.IsSet p.name offset := by
      unfold Keyspace.IsSet
      rw [hsame]
    rw [hiff]
    exact ⟨fun hset => .inr ⟨hset, hno offset false⟩,
      fun h => (h.resolve_left (hno offset true)).1⟩

/-- Only a creation clears a bit, the last one, after it was told that the key has no value. -/
theorem clears {offset : Nat} (h : FilterStep mode p s ev s') (hs : s.Steady p tr)
    (hev : ev.Writes p offset false) :
    offset = p.bits - 1 ∧ ∃ c, ev.IsClearing p c ∧ ∃ denial ∈ tr, denial.IsDenial p c := by
  obtain ⟨o, conn, b, ho, rfl⟩ := hev
  obtain ⟨log, waited, hmem, ⟨-, hoffset, ⟨c, rfl⟩, conn', hdenial⟩, -⟩ := h.did hs ho
  subst hoffset
  exact ⟨rfl, c, ⟨ho, conn, b, rfl⟩, _, hmem _ hdenial, ho, conn', rfl⟩

/-- A creation is told that the key has no value only if it has none. -/
theorem find?_of_denial {c : FilterSettings} (h : FilterStep mode p s ev s')
    (hs : s.Steady p tr) (hev : ev.IsDenial p c) :
    s.world.store.keyspace.find? p.name = none := by
  obtain ⟨ho, conn, rfl⟩ := hev
  obtain ⟨log, waited, -, -, hanswer⟩ := h.did hs ho
  have hreply : Except.ok false = Except.ok (s.world.store.keyspace.present s.world.now p.name) :=
    congrArg Prod.snd hanswer
  rw [hs.permanent.present] at hreply
  injection hreply with hfound
  exact Option.not_isSome_iff_eq_none.1 (by rw [← hfound]; exact Bool.false_ne_true)

/-- A bit that is read as unset is not set. -/
theorem not_isSet_of_read {o : Operation} {conn : Connection} {offset : Nat}
    (h : FilterStep mode p s
      (.did o ⟨.call (.command conn (.getBit p.name offset)), .ok false⟩) s')
    (hs : s.Steady p tr) (ho : o.Uses p) : ¬ s.world.store.keyspace.IsSet p.name offset := by
  obtain ⟨log, waited, -, -, hanswer⟩ := h.did hs ho
  have hreply : Except.ok false =
      Except.ok (s.world.store.keyspace.getBit s.world.now p.name offset) :=
    congrArg Prod.snd hanswer
  rw [← hs.permanent.getBit s.world.now offset]
  injection hreply with hbit
  rw [← hbit]
  exact Bool.false_ne_true

end FilterStep

/-! ## Runs -/

namespace Steady

theorem run (h : s.Steady p tr) (hr : Run (FilterStep mode p) s tr' s') :
    s'.Steady p (tr ++ tr') := by
  induction hr with
  | nil => simpa using h
  | snoc hr hs ih => simpa using hs.steady ih

/-- In a run the key keeps its value. -/
theorem found (h : s.Steady p tr) (hr : Run (FilterStep mode p) s tr' s')
    (hfound : (s.world.store.keyspace.find? p.name).isSome) :
    (s'.world.store.keyspace.find? p.name).isSome := by
  induction hr with
  | nil => exact hfound
  | snoc hr hs ih => exact hs.found (h.run hr) ih

/-- A bit is set exactly if the last write of it has set it, or it was set before and not cleared
since. -/
theorem isSet_iff (h : s.Steady p tr) (hr : Run (FilterStep mode p) s tr' s') (offset : Nat) :
    s'.world.store.keyspace.IsSet p.name offset ↔
      (∃ tr₁ ev tr₂, tr' = tr₁ ++ ev :: tr₂ ∧ ev.Writes p offset true ∧
        ∀ ev' ∈ tr₂, ¬ ev'.Writes p offset false) ∨
      s.world.store.keyspace.IsSet p.name offset ∧ ∀ ev ∈ tr', ¬ ev.Writes p offset false := by
  induction hr with
  | nil => simp
  | @snoc tr' s₁ s₂ ev hr hs ih =>
    rw [hs.isSet_iff (h.run hr), ih]
    constructor
    · rintro (hset | ⟨⟨tr₁, ev', tr₂, rfl, hset, hkept⟩ | ⟨hset, hkept⟩, hnot⟩)
      · exact .inl ⟨tr', ev, [], rfl, hset, fun _ hmem => nomatch hmem⟩
      · refine .inl ⟨tr₁, ev', tr₂ ++ [ev], by simp, hset, fun ev'' hmem => ?_⟩
        rcases List.mem_append.1 hmem with hmem | hmem
        · exact hkept ev'' hmem
        · rwa [List.mem_singleton.1 hmem]
      · refine .inr ⟨hset, fun ev' hmem => ?_⟩
        rcases List.mem_append.1 hmem with hmem | hmem
        · exact hkept ev' hmem
        · rwa [List.mem_singleton.1 hmem]
    · rintro (⟨tr₁, ev', tr₂, heq, hset, hkept⟩ | ⟨hset, hkept⟩)
      · rcases List.eq_nil_or_concat tr₂ with rfl | ⟨tr₂, ev'', rfl⟩
        · cases (List.append_inj' heq rfl).2
          exact .inl hset
        · rw [List.concat_eq_append, ← List.cons_append, ← List.append_assoc] at heq
          obtain ⟨rfl, hlast⟩ := List.append_inj' heq rfl
          cases hlast
          exact .inr ⟨.inl ⟨tr₁, ev', tr₂, rfl, hset, fun e hmem => hkept e (by simp [hmem])⟩,
            hkept ev (by simp)⟩
      · exact .inr ⟨.inr ⟨hset, fun e hmem => hkept e (List.mem_append_left _ hmem)⟩,
          hkept ev (List.mem_append_right _ (List.mem_singleton.2 rfl))⟩

/-- If a creation is told in a run that the key has no value, then it had none before. -/
theorem find?_of_denial {c : FilterSettings} (h : s.Steady p tr)
    (hr : Run (FilterStep mode p) s tr' s') (hmem : ev ∈ tr') (hev : ev.IsDenial p c) :
    s.world.store.keyspace.find? p.name = none := by
  obtain ⟨tr₁, tr₂, rfl⟩ := List.append_of_mem hmem
  obtain ⟨s₁, s₂, h₁, hs, -⟩ := hr.split
  have hnone := hs.find?_of_denial (h.run h₁) hev
  exact Option.not_isSome_iff_eq_none.1 fun hsome => by simpa [hnone] using h.found h₁ hsome

/-- If a bit was set and is not any more, then it is the last one, and a creation that had been told
before that the key has no value has cleared it. -/
theorem cleared {offset : Nat} (h : s.Steady p tr)
    (hset : s.world.store.keyspace.IsSet p.name offset) (hr : Run (FilterStep mode p) s tr' s')
    (hunset : ¬ s'.world.store.keyspace.IsSet p.name offset) :
    offset = p.bits - 1 ∧ ∃ c, (∃ denial ∈ tr, denial.IsDenial p c) ∧
      ∃ clearing ∈ tr', clearing.IsClearing p c := by
  have hkept : ¬ ∀ ev ∈ tr', ¬ ev.Writes p offset false := fun hkept =>
    hunset ((h.isSet_iff hr offset).2 (.inr ⟨hset, hkept⟩))
  obtain ⟨ev, hmem, hev⟩ : ∃ ev ∈ tr', ev.Writes p offset false := by simpa using hkept
  obtain ⟨tr₁, tr₂, rfl⟩ := List.append_of_mem hmem
  obtain ⟨s₁, s₂, h₁, hs, -⟩ := hr.split
  obtain ⟨hoffset, c, hclearing, denial, hmem', hdenial⟩ := hs.clears (h.run h₁) hev
  refine ⟨hoffset, c, ⟨denial, ?_, hdenial⟩, ev, hmem, hclearing⟩
  -- since the bit was set the key has a value
  rcases List.mem_append.1 hmem' with hmem' | hmem'
  · exact hmem'
  · have hfound := hset.found
    rw [h.find?_of_denial h₁ hmem' hdenial] at hfound
    cases hfound

/-- An addition that has succeeded has set all bits of its element. -/
theorem marked {element : String} {log : List Exchange} (h : s.Steady p tr)
    (hs : Step mode s (.returned (.addElement p element) log (.ok ())) s') :
    ∀ offset ∈ p.offsets element, ∃ ev ∈ tr, ev.IsMarking p element offset := by
  have huses : (Operation.addElement p element).Uses p := rfl
  obtain ⟨hafter, hmem⟩ := h.logged.returned hs
  have hyields := (Operation.serves huses).final hafter
  rw [Operation.service, Discipline.ofLog_run, List.nil_append] at hyields
  intro offset hoffset
  obtain ⟨conn, b, hx⟩ := hyields rfl offset hoffset
  exact ⟨_, hmem _ hx, conn, b, rfl⟩

/-- A test that fails to find an element has read a bit of it as unset. -/
theorem read {element : String} {log : List Exchange} (h : s.Steady p tr)
    (hs : Step mode s (.returned (.testElement p element) log (.ok false)) s') :
    ∃ offset ∈ p.offsets element, ∃ conn,
      ⟨.call (.command conn (.getBit p.name offset)), .ok false⟩ ∈ log := by
  have huses : (Operation.testElement p element).Uses p := rfl
  have hyields := (Operation.serves huses).final (h.logged.returned hs).1
  rw [Operation.service, Discipline.ofLog_run, List.nil_append] at hyields
  exact hyields rfl

end Steady

end Machine

open Machine in
/-- An element that was added is found, unless the addition was undone.

Let clients create a filter without expiration, add elements to it and look for elements, side by
side in any order, on a store in which nothing else touches the key of the filter. After an addition
of an element has succeeded, a test of it that comes to an answer finds it; or else the key had no
value when all began, and a creation that was told so cleared the last bit after the addition had
set it. -/
theorem found_unless_undone {mode : Scheduling} {p : FilterPlan} {element : String}
    {s₀ s₁ s₂ s₃ s₄ : Machine X} {tr tr' : List Event} {log log' : List Exchange} {b : Bool}
    (h₀ : s₀.threads = []) (hperm : s₀.world.store.keyspace.Permanent p.name)
    (hexp : p.expiration = none) (h₁ : Run (FilterStep mode p) s₀ tr s₁)
    (hadd : FilterStep mode p s₁ (.returned (.addElement p element) log (.ok ())) s₂)
    (h₂ : Run (FilterStep mode p) s₂ tr' s₃)
    (htest : FilterStep mode p s₃ (.returned (.testElement p element) log' (.ok b)) s₄)
    (hlater : ∀ x ∈ log', Event.did (.testElement p element) x ∈ tr') :
    b = true ∨ s₀.world.store.keyspace.find? p.name = none ∧
      Undone p element (tr ++ .returned (.addElement p element) log (.ok ()) :: tr') := by
  cases b with
  | true => exact .inl rfl
  | false =>
    right
    have hsteady₀ : s₀.Steady p [] := ⟨hexp, hperm, logged_of_run h₀ (Run.nil (R := Step mode))⟩
    have hsteady₁ : s₁.Steady p tr := hsteady₀.run h₁
    have hsteady₃ := hsteady₁.run (Run.append (.single hadd) h₂)
    -- the test has read a bit as unset that the addition had set
    obtain ⟨offset, hoffset, conn, hread⟩ := hsteady₃.read htest.step
    obtain ⟨marking, hmem, hmarking⟩ := hsteady₁.marked hadd.step offset hoffset
    obtain ⟨tr₁, tr₂, rfl⟩ := List.append_of_mem hmem
    obtain ⟨s₅, s₆, h₅, hmark, h₆⟩ := h₁.split
    let reading : Event := .did (.testElement p element)
      ⟨.call (.command conn (.getBit p.name offset)), .ok false⟩
    have hreads : reading ∈ tr' := hlater _ hread
    obtain ⟨tr₃, tr₄, rfl⟩ := List.append_of_mem hreads
    obtain ⟨s₇, s₈, h₇, hreading, -⟩ := h₂.split
    have hsteady₅ : s₅.Steady p tr₁ := hsteady₀.run h₅
    have hsteady₆ := hmark.steady hsteady₅
    have hrun : Run (FilterStep mode p) s₆ (tr₂ ++ [_] ++ tr₃) s₇ := (h₆.snoc hadd).append h₇
    have hset : s₆.world.store.keyspace.IsSet p.name offset := by
      obtain ⟨conn', b', rfl⟩ := hmarking
      exact (hmark.isSet_iff hsteady₅ offset).2 (.inl ⟨.addElement p element, conn', b', rfl, rfl⟩)
    have hunset := hreading.not_isSet_of_read (hsteady₆.run hrun) rfl
    obtain ⟨rfl, c, ⟨denial, hdenied, hdenial⟩, clearing, hcleared, hclearing⟩ :=
      hsteady₆.cleared hset hrun hunset
    have hbefore : denial ∈ tr₁ := by
      rcases List.mem_append.1 hdenied with hmem | hmem
      · exact hmem
      · obtain ⟨conn', b', rfl⟩ := hmarking
        obtain ⟨-, conn'', heq⟩ := hdenial
        rw [List.mem_singleton.1 hmem] at heq
        cases heq
    exact ⟨hsteady₀.find?_of_denial h₅ hbefore hdenial, hoffset, c, tr₁,
      tr₂ ++ [_] ++ tr₃ ++ reading :: tr₄, marking, by simp, hmarking, ⟨denial, hbefore, hdenial⟩,
      clearing, List.mem_append_left _ hcleared, hclearing⟩

/-- A filter of one byte. -/
def FilterPlan.oneByte : FilterPlan := ⟨"F", 8, 2, 0.03, 1, none⟩

open Machine in
/-- On a fresh store a client adds an element and then looks for it, and it is found. -/
theorem found_unless_undone_fresh :
    ∃ (tr tr' : List Event) (log log' : List Exchange) (s₁ s₂ s₃ s₄ : Machine Extension.none),
      Run (FilterStep .cooperative .oneByte) ⟨World.fresh, []⟩ tr s₁ ∧
      FilterStep .cooperative .oneByte s₁
        (.returned (.addElement .oneByte "x") log (.ok ())) s₂ ∧
      Run (FilterStep .cooperative .oneByte) s₂ tr' s₃ ∧
      FilterStep .cooperative .oneByte s₃
        (.returned (.testElement .oneByte "x") log' (.ok true)) s₄ := by
  let add : Operation := .addElement .oneByte "x"
  let test : Operation := .testElement .oneByte "x"
  have hends : (add.program (X := Extension.none)).Ensures World.alone World.fresh fun w r =>
      r.toOption = some () ∧ (test.program (X := Extension.none)).Ensures World.alone w
        fun _ r => r.toOption.isSome := by
    decide +kernel
  let look : Client Extension.none Unit := .extended (.invoke test) fun _ => .done ()
  let client : Client Extension.none Unit := .extended (.invoke add) fun _ => look
  have hquiet : ∀ {o : Operation} {log : List Exchange}, o.Uses .oneByte →
      ∀ ev ∈ Event.began o :: log.map (.did o), ¬ ev.IsOutside .oneByte := by
    rintro o log ho ev hmem
    rcases List.mem_cons.1 hmem with rfl | hmem
    · exact id
    · obtain ⟨x, -, rfl⟩ := List.mem_map.1 hmem
      exact fun hnot => hnot ho
  obtain ⟨w₁, r₁, conns₁, guards₁, ⟨hr₁, htest⟩, h₁, hadded⟩ :=
    @run_operation Extension.none .cooperative add trivial _ _ hends (fun _ => look) [] []
  obtain ⟨w₂, r₂, conns₂, guards₂, hr₂, h₂, htested⟩ :=
    @run_operation Extension.none .cooperative test trivial _ _ htest (fun _ => .done ()) conns₁
      guards₁
  obtain rfl : r₁ = .ok () := by
    cases r₁ with
    | error e => cases hr₁
    | ok u => rfl
  obtain ⟨b, rfl⟩ : ∃ b, r₂ = .ok b := by
    cases r₂ with
    | error e => cases hr₂
    | ok b => exact ⟨b, rfl⟩
  have hstart : FilterStep .cooperative .oneByte ⟨World.fresh, []⟩ .silent
      ⟨World.fresh, [.between ⟨client, none, [], []⟩]⟩ := ⟨.start client, fun hf => hf.elim⟩
  have hrun₁ := Run.append (.single hstart) (h₁.imp fun hmem hs =>
    FilterStep.mk hs fun hf => absurd hf (hquiet (o := add) rfl _ hmem))
  have hrun₂ := h₂.imp fun hmem hs =>
    FilterStep.mk hs fun hf => absurd hf (hquiet (o := test) rfl _ hmem)
  have hperm : World.fresh.store.keyspace.Permanent FilterPlan.oneByte.name := by
    intro e he
    cases (he : none = some e)
  have hreturned₁ := FilterStep.mk (p := .oneByte) hadded fun hf => hf.elim
  have hreturned₂ := FilterStep.mk (p := .oneByte) htested fun hf => hf.elim
  have hfound : b = true := by
    rcases found_unless_undone rfl hperm rfl hrun₁ hreturned₁ hrun₂ hreturned₂
      (fun x hx => List.mem_cons_of_mem _ (List.mem_map_of_mem hx)) with hb | ⟨-, hundone⟩
    · exact hb
    · -- nothing was created in this run
      obtain ⟨-, c, before, after, marking, heq, -, ⟨denial, hmem, -, conn, rfl⟩, -⟩ := hundone
      have hmem := List.mem_append_left (marking :: after) hmem
      rw [← heq] at hmem
      simp [add, test] at hmem
  subst hfound
  exact ⟨_, _, _, _, _, _, _, _, hrun₁, hreturned₁, hrun₂, hreturned₂⟩

end Latchkey
