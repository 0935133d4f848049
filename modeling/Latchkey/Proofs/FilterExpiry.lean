import Latchkey.Proofs.FilterContents

/-!
# Filters that expire

The creation of a filter makes its value with one call and gives it a lifetime with another one. If
that one fails the value has no deadline, and later creations adopt it as it is. An addition makes
the value as well where it is gone, and gives it no lifetime at all.

The main statement is `deadline_unless_left_bare`: in these two ways, and in no other, a filter that
is to expire comes to have a value without a deadline.
-/

namespace Latchkey

variable {X : Extension}

/-! ## Values without a deadline -/

/-- Whether a key has a value without a deadline. -/
def Keyspace.Bare (ks : Keyspace) (key : String) : Prop :=
  ∃ e, ks.find? key = some e ∧ e.deadline = none

namespace Keyspace

variable {ks : Keyspace} {key : String}

/-- A value without a deadline is there at any time. -/
theorem bare_iff_live? (now : Nat) :
    ks.Bare key ↔ ∃ e, ks.live? now key = some e ∧ e.deadline = none := by
  constructor
  · rintro ⟨e, hfind, hd⟩
    have hlive : e.isLive now = true := by
      unfold Entry.isLive
      rw [hd]
      rfl
    exact ⟨e, live?_eq_some.2 ⟨hfind, hlive⟩, hd⟩
  · rintro ⟨e, hlive, hd⟩
    exact ⟨e, (live?_eq_some.1 hlive).1, hd⟩

theorem not_bare_of_live? {now : Nat} (h : ks.live? now key = none) : ¬ ks.Bare key := by
  intro hbare
  obtain ⟨e, hlive, -⟩ := (bare_iff_live? now).1 hbare
  rw [h] at hlive
  cases hlive

theorem deadline_iff_not_bare {now : Nat} :
    (∀ e, ks.live? now key = some e → e.deadline.isSome = true) ↔ ¬ ks.Bare key := by
  rw [bare_iff_live? now]
  constructor
  · rintro h ⟨e, hlive, hd⟩
    have hsome := h e hlive
    rw [hd] at hsome
    cases hsome
  · intro h e hlive
    exact Option.isSome_iff_ne_none.2 fun hd => h ⟨e, hlive, hd⟩

/-- A bit that is written where there is no value makes one that has no deadline. -/
theorem bare_setBit (now offset : Nat) (bit : Bool) :
    (ks.setBit now key offset bit).1.Bare key ↔ ks.Bare key ∨ ks.live? now key = none := by
  have hbare : ks.Bare key ↔ ∃ e, ks.live? now key = some e ∧ e.deadline = none :=
    bare_iff_live? now
  rw [bare_iff_live? now, live?_setBit, hbare]
  cases hlive : ks.live? now key with
  | none => exact iff_of_true ⟨_, rfl, rfl⟩ (.inr rfl)
  | some e =>
    constructor
    · rintro ⟨e', he', hd⟩
      cases he'
      exact .inl ⟨e, rfl, hd⟩
    · rintro (⟨e', he', hd⟩ | hnone)
      · cases he'
        exact ⟨_, rfl, hd⟩
      · cases hnone

theorem not_bare_expire (now ttl : Nat) : ¬ (ks.expire now key ttl).1.Bare key := by
  unfold expire
  cases hlive : ks.live? now key with
  | none => exact not_bare_of_live? hlive
  | some e =>
    rintro ⟨e', hfind, hd⟩
    rw [Table.find?_insert, if_pos rfl] at hfind
    cases hfind
    cases hd

end Keyspace

/-! ## How a value is left without a deadline -/

/-- A bit of a key is written where there is no value. -/
def Moment.Founds (key : String) (m : Moment) : Prop :=
  (∃ conn offset bit b, m.exchange = ⟨.call (.command conn (.setBit key offset bit)), .ok b⟩) ∧
    m.before.store.keyspace.live? m.after.now key = none

/-- The call fails that was to give a key a lifetime. -/
def Moment.FallsShort (key : String) (m : Moment) : Prop :=
  ∃ conn ttl err, m.exchange = ⟨.call (.command conn (.expire key ttl)), .error err⟩

/-- The moments at which an operation of a filter leaves the value without a deadline. -/
def Operation.LeavesBareAt (key : String) : Operation → Moment → Prop
  | .createFilter _ => Moment.FallsShort key
  | _ => Moment.Founds key

/-- A creation has failed to give the value that it had made a lifetime, or another operation has
made the value. -/
def Completed.LeavesBare (key : String) (c : Completed) : Prop :=
  ∃ m ∈ c.moments, c.operation.LeavesBareAt key m

/-! ## Moments of an operation -/

/-- A key has a value without a deadline if it had one before, or if there was such a moment. -/
def BareBy (leaves : Moment → Prop) (key : String) (before : Prop) (s : World × List Moment) :
    Prop :=
  s.1.store.keyspace.Bare key ↔ before ∨ ∃ m ∈ s.2, leaves m

/-- Only commands of some kind are such moments. -/
def OfCommands (leaves : Moment → Prop) : Prop :=
  ∀ ⦃m⦄, leaves m → ∃ conn cmd, m.exchange.effect = .call (.command conn cmd)

theorem Moment.founds_ofCommands (key : String) : OfCommands (Moment.Founds key) := by
  rintro m ⟨⟨conn, offset, bit, b, hm⟩, -⟩
  exact ⟨conn, _, by rw [hm]⟩

theorem Moment.fallsShort_ofCommands (key : String) : OfCommands (Moment.FallsShort key) := by
  rintro m ⟨conn, ttl, err, hm⟩
  exact ⟨conn, _, by rw [hm]⟩

namespace World.Replies

variable {w w' : World} {conn : Connection} {key : String}

theorem now_le {e : Effect} {r : e.Reply} (h : w.Replies e w' r) : w.now ≤ w'.now := by
  cases h with
  | answered => exact w.now_le_perform e
  | failed => exact Nat.le_refl _

/-- The store tells that there is no value only if there is none. -/
theorem absent {r : Except StoreError Bool}
    (h : w.Replies (.call (.command conn (.present key))) w' r) (hr : r = .ok false) :
    w'.store.keyspace.live? w'.now key = none := by
  cases h with
  | failed c err => cases hr
  | answered e =>
    obtain ⟨hkeyspace, hanswer⟩ := w.perform_command conn (.present key) nofun
    rw [hkeyspace]
    have hpresent := Except.ok.inj (hanswer.symm.trans hr)
    exact Option.not_isSome_iff_eq_none.1 (Bool.eq_false_iff.1 hpresent)

/-- A bit is written, or the call fails. -/
theorem bare_setBit {offset : Nat} {bit : Bool} {r : Except StoreError Bool}
    (h : w.Replies (.call (.command conn (.setBit key offset bit))) w' r) :
    w'.store.keyspace.Bare key ↔ w.store.keyspace.Bare key ∨
      Moment.Founds key ⟨w, ⟨.call (.command conn (.setBit key offset bit)), r⟩, w'⟩ := by
  cases h with
  | failed c err =>
    refine ⟨.inl, fun hor => hor.resolve_right ?_⟩
    rintro ⟨⟨_, _, _, _, hm⟩, -⟩
    cases hm
  | answered e =>
    obtain ⟨hkeyspace, hanswer⟩ := w.perform_command conn (.setBit key offset bit) nofun
    rw [hkeyspace, hanswer]
    refine (Keyspace.bare_setBit _ offset bit).trans (or_congr_right ?_)
    exact ⟨fun hnone => ⟨⟨conn, offset, bit, _, rfl⟩, hnone⟩, fun hm => hm.2⟩

theorem bare_of_setBit {offset : Nat} {bit b : Bool}
    (h : w.Replies (.call (.command conn (.setBit key offset bit))) w' (.ok b))
    (hnone : w.store.keyspace.live? w.now key = none) : w'.store.keyspace.Bare key := by
  have hlater : w.store.keyspace.live? w'.now key = none :=
    Keyspace.live?_eq_none_later h.now_le hnone
  exact h.bare_setBit.2 (.inr ⟨⟨conn, offset, bit, b, rfl⟩, hlater⟩)

/-- A lifetime is given, or the call fails. -/
theorem bare_expire {ttl : Nat} {r : Except StoreError Bool}
    (h : w.Replies (.call (.command conn (.expire key ttl))) w' r)
    (hbare : w.store.keyspace.Bare key) :
    w'.store.keyspace.Bare key ↔
      Moment.FallsShort key ⟨w, ⟨.call (.command conn (.expire key ttl)), r⟩, w'⟩ := by
  cases h with
  | failed c err => exact iff_of_true hbare ⟨conn, ttl, err, rfl⟩
  | answered e =>
    obtain ⟨hkeyspace, hanswer⟩ := w.perform_command conn (.expire key ttl) nofun
    rw [hkeyspace, hanswer]
    refine iff_of_false (Keyspace.not_bare_expire _ ttl) ?_
    rintro ⟨_, _, _, hm⟩
    cases hm

end World.Replies

namespace BareBy

variable {leaves : Moment → Prop} {key : String} {before : Prop} {s : World × List Moment}

theorem start {w : World} : BareBy leaves key (w.store.keyspace.Bare key) (w, []) :=
  ⟨.inl, fun h => h.resolve_right fun ⟨_, hmem, _⟩ => absurd hmem List.not_mem_nil⟩

theorem snoc (h : BareBy leaves key before s) {w : World} {m : Moment}
    (hm : w.store.keyspace.Bare key ↔ s.1.store.keyspace.Bare key ∨ leaves m) :
    BareBy leaves key before (w, s.2 ++ [m]) := by
  unfold BareBy at h ⊢
  rw [hm, h]
  simp only [List.mem_append, List.mem_singleton, or_and_right, exists_or, exists_eq_left, or_assoc]

/-- A value is made, and then it is given a lifetime, or else that is such a moment. -/
theorem founded (h : BareBy leaves key before s) (hbare : ¬ s.1.store.keyspace.Bare key)
    {w : World} {m m' : Moment} (hm : ¬ leaves m)
    (hm' : w.store.keyspace.Bare key ↔ leaves m') :
    BareBy leaves key before (w, s.2 ++ [m] ++ [m']) := by
  -- as there was no value without a deadline, nothing can have left one so far
  have hno : ¬ (before ∨ ∃ m ∈ s.2, leaves m) := fun hor => hbare (h.2 hor)
  obtain ⟨hbefore, hlog⟩ := not_or.1 hno
  unfold BareBy
  rw [hm']
  simp only [List.mem_append, List.mem_singleton, or_and_right, exists_or, exists_eq_left, hbefore,
    hlog, hm, false_or]

theorem same {e : Effect} {w : World} {r : e.Reply} (h : BareBy leaves key before s)
    (hr : s.1.Replies e w r) (hkeyspace : (s.1.perform e).1.store.keyspace = s.1.store.keyspace)
    (hno : ¬ leaves ⟨s.1, ⟨e, r⟩, w⟩) :
    BareBy leaves key before (w, s.2 ++ [⟨s.1, ⟨e, r⟩, w⟩]) := by
  refine h.snoc ?_
  have hsame : w.store.keyspace = s.1.store.keyspace := by
    cases hr with
    | answered => exact hkeyspace
    | failed => rfl
  rw [hsame]
  exact ⟨.inl, fun hor => hor.resolve_right hno⟩

theorem idle (hleaves : OfCommands leaves) (h : BareBy leaves key before s) {e : Effect}
    (he : ∀ conn cmd, e ≠ .call (.command conn cmd)) :
    World.faulty.before s e fun s' _ => BareBy leaves key before s' := by
  intro w r hr
  refine h.same hr (s.1.perform_keyspace he) fun hm => ?_
  obtain ⟨conn, cmd, heq⟩ := hleaves hm
  exact he conn cmd heq

theorem use {α : Type} (hleaves : OfCommands leaves) (h : BareBy leaves key before s)
    {name : String} {use : Connection → Action X StoreError α}
    (huse : ∀ conn s₁, BareBy leaves key before s₁ →
      (use conn).run.Ensures World.faulty s₁ fun s' _ => BareBy leaves key before s') :
    (Action.withConnection (Action.connectionFor name) use).run.Ensures World.faulty s
      fun s' _ => BareBy leaves key before s' := by
  refine Action.ensures_withConnection.2 (Action.ensures_connectionFor.2 ?_)
  refine World.faulty.mono (h.idle hleaves (e := .call (.nodeOwning name)) nofun) ?_
  intro s₁ r h₁
  cases r with
  | error err => exact h₁
  | ok node =>
    refine World.faulty.mono (h₁.idle hleaves (e := .call (.connect node)) nofun) ?_
    intro s₂ r h₂
    cases r with
    | error err => exact h₂
    | ok conn =>
      refine (huse conn s₂ h₂).mono fun s' _ h' => ?_
      exact h'.idle hleaves nofun

end BareBy

/-! ## Operations -/

namespace FilterPlan

variable {key : String} {before : Prop} {s : World × List Moment}

/-- To set bits of a key that has no value makes one without a deadline. -/
theorem setBits_bareBy (conn : Connection) (offsets : List Nat)
    (h : BareBy (Moment.Founds key) key before s) :
    (setBits (X := X) conn key offsets).run.Ensures World.faulty s
      fun s' _ => BareBy (Moment.Founds key) key before s' := by
  induction offsets generalizing s with
  | nil => exact h
  | cons first rest ih =>
    refine Action.ensures_bind.2 (Action.ensures_send.2 fun w r hr => ?_)
    have hnext := h.snoc hr.bare_setBit
    cases r with
    | error err => exact hnext
    | ok b => exact ih hnext

theorem allSet_bareBy (conn : Connection) (offsets : List Nat)
    (h : BareBy (Moment.Founds key) key before s) :
    (allSet (X := X) conn key offsets).run.Ensures World.faulty s
      fun s' _ => BareBy (Moment.Founds key) key before s' := by
  induction offsets generalizing s with
  | nil => exact h
  | cons first rest ih =>
    refine Action.ensures_bind.2 (Action.ensures_send.2 fun w r hr => ?_)
    have hkeyspace := (s.1.perform_command conn (.getBit key first) nofun).1
    have hnext := h.same hr hkeyspace (by rintro ⟨⟨_, _, _, _, hm⟩, -⟩; cases hm)
    cases r with
    | error err => exact hnext
    | ok b =>
      cases b with
      | false => exact hnext
      | true => exact ih hnext

variable {p : FilterPlan} {ms : Nat}

/-- Where there is no value one is made, and it keeps having no deadline if the call fails that is
to give it a lifetime. -/
theorem prepare_bareBy (hexp : p.expiration = some ms) (hpos : 0 < ms)
    (h : BareBy (Moment.FallsShort p.name) p.name before s) :
    (p.prepare (X := X)).run.Ensures World.faulty s
      fun s' _ => BareBy (Moment.FallsShort p.name) p.name before s' := by
  refine h.use (Moment.fallsShort_ofCommands p.name) fun conn s₁ h₁ => ?_
  refine Action.ensures_bind.2 (Action.ensures_send.2 fun w₂ r hr => ?_)
  obtain ⟨hkeyspace, hanswer⟩ := s₁.1.perform_command conn (.present p.name) nofun
  have h₂ := h₁.same hr hkeyspace (by rintro ⟨_, _, _, hm⟩; cases hm)
  cases r with
  | error err => exact h₂
  | ok b =>
    cases b with
    | true => exact h₂
    | false =>
      have hnone := hr.absent rfl
      have hbare := Keyspace.not_bare_of_live? hnone
      refine Action.ensures_bind.2 (Action.ensures_send.2 fun w₃ r hr₃ => ?_)
      cases r with
      | error err =>
        refine h₂.snoc (hr₃.bare_setBit.trans (or_congr_right (iff_of_false ?_ ?_)))
        · rintro ⟨⟨_, _, _, _, hm⟩, -⟩
          cases hm
        · rintro ⟨_, _, _, hm⟩
          cases hm
      | ok b =>
        have hbare₃ := hr₃.bare_of_setBit hnone
        rw [hexp]
        show Program.Ensures _ _ (ExceptT.run (if 0 < ms then _ else _)) _
        rw [if_pos hpos]
        refine Action.ensures_bind.2 (Action.ensures_send.2 fun w₄ r hr₄ => ?_)
        have hwritten : ¬ Moment.FallsShort p.name ⟨w₂,
            ⟨.call (.command conn (.setBit p.name (p.bits - 1) false)), .ok b⟩, w₃⟩ := by
          rintro ⟨_, _, _, hm⟩
          cases hm
        have hend := h₂.founded hbare hwritten (hr₄.bare_expire hbare₃)
        cases r with
        | error err => exact hend
        | ok b => exact hend

end FilterPlan

theorem Operation.program_bareBy {p : FilterPlan} {ms : Nat} {o : Operation} (ho : o.Uses p)
    (hexp : p.expiration = some ms) (hpos : 0 < ms) (w : World) :
    (o.program (X := X)).Ensures World.faulty (w, []) fun s' _ =>
      BareBy (o.LeavesBareAt p.name) p.name (w.store.keyspace.Bare p.name) s' := by
  have hfounds := Moment.founds_ofCommands p.name
  have hstart : BareBy (Moment.Founds p.name) p.name (w.store.keyspace.Bare p.name) (w, []) :=
    .start
  cases o with
  | createFilter s =>
    have hs : FilterPlan.ofSettings s = .ok p := ho
    show (FilterPlan.create s).run.Ensures _ _ _
    unfold FilterPlan.create
    rw [hs]
    refine Action.ensures_bind.2 (Action.ensures_orFail.2
      ((FilterPlan.prepare_bareBy hexp hpos .start).mono fun s' r h => ?_))
    cases r with
    | error err => exact h
    | ok u => exact h.idle (Moment.fallsShort_ofCommands p.name) nofun
  | addElement q element =>
    obtain rfl : q = p := ho
    refine Action.ensures_bind.2 (Action.ensures_orFail.2 (Program.Ensures.mono
      (hstart.use hfounds fun conn s₁ h₁ => FilterPlan.setBits_bareBy conn (q.offsets element) h₁)
      fun s' r h => ?_))
    cases r with
    | error err => exact h
    | ok u => exact h.idle hfounds nofun
  | testElement q element =>
    obtain rfl : q = p := ho
    refine Action.ensures_bind.2 (Action.ensures_perform.2 ?_)
    refine World.faulty.mono (hstart.idle hfounds (e := .count (.filter .test)) nofun) ?_
    intro s' _ h
    exact Action.ensures_orFail.2
      (h.use hfounds fun conn s₁ h₁ => FilterPlan.allSet_bareBy conn (q.offsets element) h₁)
  | _ => cases ho

/-! ## Sessions -/

/-- After a session the key has a value without a deadline exactly if one of the operations has left
it so. -/
theorem Session.bare_iff {p : FilterPlan} {ms : Nat} {w₀ w : World} {calls : List Completed}
    (hexp : p.expiration = some ms) (hpos : 0 < ms)
    (habsent : w₀.store.keyspace.live? w₀.now p.name = none)
    (hs : Session (Operation.Uses p) p.name w₀ calls w) :
    w.store.keyspace.Bare p.name ↔ ∃ c ∈ calls, c.LeavesBare p.name := by
  induction hs with
  | start =>
    refine iff_of_false (Keyspace.not_bare_of_live? habsent) ?_
    rintro ⟨c, hmem, -⟩
    exact absurd hmem List.not_mem_nil
  | @call calls w w' o ms a hs ho hplays ih =>
    have hend : w'.store.keyspace.Bare p.name ↔
        w.store.keyspace.Bare p.name ∨ ∃ m ∈ ms, o.LeavesBareAt p.name m :=
      hplays.of_faulty (Operation.program_bareBy ho hexp hpos w)
    rw [hend, ih]
    simp only [List.mem_append, List.mem_singleton, or_and_right, exists_or, exists_eq_left,
      Completed.LeavesBare]
  | @pause calls w w' hs hlater hspares ih =>
    -- a value without a deadline outlives the pause
    rw [← ih, Keyspace.bare_iff_live? w'.now, hspares, ← Keyspace.bare_iff_live?]

/-- A filter that is to expire has a deadline, unless an operation has left it without one.

Let filters of one configuration with a lifetime be created, and elements be added to them and
looked for, one operation after the other, while any store calls fail, time passes, and nobody else
touches the key, which had no value at first. Then the value of the key, whenever there is one
between two operations, has a deadline, if and only if no creation has failed just when it was to
give the value that it had made a lifetime, and no addition has written a bit where there was no
value, as it does when the value is gone. -/
theorem deadline_unless_left_bare {p : FilterPlan} {ms : Nat} {w₀ w : World}
    {calls : List Completed} (hexp : p.expiration = some ms) (hpos : 0 < ms)
    (habsent : w₀.store.keyspace.live? w₀.now p.name = none)
    (hs : Session (Operation.Uses p) p.name w₀ calls w) :
    (∀ e, w.store.keyspace.live? w.now p.name = some e → e.deadline.isSome = true) ↔
      ∀ c ∈ calls, ¬ c.LeavesBare p.name := by
  have hbare : w.store.keyspace.Bare p.name ↔ ∃ c ∈ calls, c.LeavesBare p.name :=
    hs.bare_iff hexp hpos habsent
  rw [Keyspace.deadline_iff_not_bare, hbare]
  constructor
  · intro h c hmem hleaves
    exact h ⟨c, hmem, hleaves⟩
  · rintro h ⟨c, hmem, hleaves⟩
    exact h c hmem hleaves

/-- A filter of one byte that is to expire. -/
def FilterPlan.brief : FilterPlan := { oneByte with expiration := some 30 }

/-- An element is added to the filter while its key has no value. The value that this makes has no
deadline. -/
theorem deadline_unless_left_bare_added :
    ∃ (w : World) (calls : List Completed),
      Session (Operation.Uses .brief) "F" World.fresh calls w ∧
        (∃ c ∈ calls, c.LeavesBare "F") ∧
        ∃ e, w.store.keyspace.live? w.now "F" = some e ∧ e.deadline = none := by
  let o : Operation := .addElement .brief "x"
  have hadd : o.program.isFlawless World.fresh = true := by decide +kernel
  obtain ⟨ms, hplays, -⟩ := Program.plays_of_isFlawless hadd
  have hs : Session (Operation.Uses .brief) FilterPlan.brief.name World.fresh [⟨o, ms, _⟩] _ :=
    .call .start rfl hplays
  have hexp : FilterPlan.brief.expiration = some 30 := rfl
  have hiff := deadline_unless_left_bare hexp (by decide) rfl hs
  have hlive : (((o.program.runOn World.fresh).1.store.keyspace.live?
      (o.program.runOn World.fresh).1.now "F").map (·.deadline)) = some none := by decide +kernel
  obtain ⟨e, he, hd⟩ := Option.map_eq_some_iff.1 hlive
  refine ⟨_, _, hs, ?_, e, he, hd⟩
  have hnot : ¬ ∀ c ∈ [(⟨o, ms, (o.program.runOn World.fresh).2⟩ : Completed)],
      ¬ c.LeavesBare "F" := by
    intro hall
    have hsome := hiff.2 hall e he
    rw [hd] at hsome
    cases hsome
  exact Classical.byContradiction fun hnone => hnot fun c hmem hleaves => hnone ⟨c, hmem, hleaves⟩

end Latchkey
