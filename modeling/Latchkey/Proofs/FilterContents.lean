import Latchkey.Proofs.FilterRuns
import Latchkey.Proofs.Sessions

/-!
# What a filter contains

Filters of the same name share one bit string, be they sized alike or not. As long as it has no
deadline a filter finds an element exactly if all bits of it are among those that were set by all
additions so far, whichever filters they were made through.

The main statement is `filter_is_union`.
-/

namespace Latchkey

variable {X : Extension}

/-! ## Calls that do not fail -/

namespace World

variable {w : World} {e : Effect}

theorem flawless_call {c : StoreCall} {Q : World → Except StoreError c.Answer → Prop} :
    flawless.before w (.call c) Q ↔
      ∀ a, (w.perform (.call c)).2 = .ok a → Q (w.perform (.call c)).1 (.ok a) := by
  show ((Exchange.mk (.call c) (w.perform (.call c)).2).failed = false → _) ↔ _
  generalize (w.perform (.call c)).1 = w', (w.perform (.call c)).2 = r
  constructor
  · rintro h a rfl
    exact h rfl
  · intro h hok
    cases r with
    | error err => cases hok
    | ok a => exact h a rfl

/-- A condition on worlds that stays true as long as the keyspace is left alone. -/
def Stable (P : World → Prop) : Prop :=
  ∀ ⦃w e⦄, P w → (∀ conn cmd, e ≠ .call (.command conn cmd)) → P (w.perform e).1

theorem flawless_of {Q : World → e.Reply → Prop} (h : Q (w.perform e).1 (w.perform e).2) :
    flawless.before w e Q := fun _ => h

theorem flawless_use {α : Type} {P P' : World → Prop} (hP : Stable P) (hP' : Stable P') (h : P w)
    {key : String} {use : Connection → Action X StoreError α} {R : Except StoreError α → Prop}
    (huse : ∀ conn w₁, P w₁ → (use conn).run.Ensures flawless w₁ fun w' r => P' w' ∧ R r) :
    (Action.withConnection (Action.connectionFor key) use).run.Ensures flawless w
      fun w' r => P' w' ∧ R r := by
  refine Action.ensures_withConnection.2 (Action.ensures_connectionFor.2 ?_)
  refine flawless_call.2 fun node _ => flawless_call.2 fun conn _ => ?_
  have hconnected := @hP _ (.call (.connect node)) (@hP w (.call (.nodeOwning key)) h nofun) nofun
  refine (huse conn _ hconnected).mono ?_
  rintro w' r ⟨hend, hr⟩
  exact flawless_of ⟨hP' hend nofun, hr⟩

end World

/-! ## Marks -/

/-- The value of a key, if there is one, has no deadline, and these bits of it are set. -/
structure World.Marked (key : String) (marks : Nat → Prop) (w : World) : Prop where
  lasting : ∀ e, w.store.keyspace.live? w.now key = some e → e.deadline = none
  bits : ∀ offset, w.store.keyspace.getBit w.now key offset = true ↔ marks offset

namespace World.Marked

variable {key : String} {marks marks' : Nat → Prop} {w w' : World}

theorem of_absent (h : w.store.keyspace.live? w.now key = none) :
    w.Marked key fun _ => False := by
  constructor
  · intro e he
    rw [h] at he
    cases he
  · intro offset
    unfold Keyspace.getBit
    rw [h]
    exact iff_of_false Bool.false_ne_true id

theorem live?_later (h : w.Marked key marks) {t : Nat} (hle : w.now ≤ t) :
    w.store.keyspace.live? t key = w.store.keyspace.live? w.now key := by
  rw [Keyspace.live?_later _ key hle]
  cases he : w.store.keyspace.live? w.now key with
  | none => rfl
  | some e =>
    have hlive : e.isLive t = true := by
      unfold Entry.isLive
      rw [h.lasting e he]
      rfl
    rw [Option.filter_some, if_pos hlive]

theorem of_live? (h : w.Marked key marks)
    (hlive : w'.store.keyspace.live? w'.now key = w.store.keyspace.live? w.now key) :
    w'.Marked key marks := by
  constructor
  · intro e he
    rw [hlive] at he
    exact h.lasting e he
  · intro offset
    rw [← h.bits offset]
    unfold Keyspace.getBit
    rw [hlive]

theorem congr (h : w.Marked key marks) (hmarks : ∀ offset, marks' offset ↔ marks offset) :
    w.Marked key marks' := ⟨h.lasting, fun offset => (h.bits offset).trans (hmarks offset).symm⟩

/-- Where there is no value no bit is set. -/
theorem not_marks (h : w.Marked key marks) (hnone : w.store.keyspace.live? w.now key = none)
    (offset : Nat) : ¬ marks offset := by
  intro hmark
  have hbit := (h.bits offset).2 hmark
  unfold Keyspace.getBit at hbit
  rw [hnone] at hbit
  cases hbit

/-! ### Effects -/

theorem live?_perform (h : w.Marked key marks) {e : Effect}
    (hkeyspace : (w.perform e).1.store.keyspace = w.store.keyspace) :
    (w.perform e).1.store.keyspace.live? (w.perform e).1.now key =
      w.store.keyspace.live? w.now key := by
  rw [hkeyspace]
  exact h.live?_later (w.now_le_perform e)

theorem perform (h : w.Marked key marks) {e : Effect}
    (he : ∀ conn cmd, e ≠ .call (.command conn cmd)) : (w.perform e).1.Marked key marks :=
  h.of_live? (h.live?_perform (w.perform_keyspace he))

theorem present (h : w.Marked key marks) (conn : Connection) :
    let r := w.perform (.call (.command conn (.present key)))
    r.1.store.keyspace.live? r.1.now key = w.store.keyspace.live? w.now key ∧
      r.2 = .ok (w.store.keyspace.live? w.now key).isSome := by
  intro r
  obtain ⟨hkeyspace, hanswer⟩ := w.perform_command conn (.present key) nofun
  have hlive := h.live?_later (w.now_le_perform (.call (.command conn (.present key))))
  refine ⟨h.live?_perform hkeyspace, hanswer.trans ?_⟩
  show Except.ok (w.store.keyspace.live? r.1.now key).isSome = _
  rw [hlive]

theorem getBit (h : w.Marked key marks) (conn : Connection) (offset : Nat) :
    let r := w.perform (.call (.command conn (.getBit key offset)))
    r.1.Marked key marks ∧ ∃ b, r.2 = .ok b ∧ (b = true ↔ marks offset) := by
  intro r
  obtain ⟨hkeyspace, hanswer⟩ := w.perform_command conn (.getBit key offset) nofun
  have hmarked : r.1.Marked key marks := h.of_live? (h.live?_perform hkeyspace)
  have hkeyspace' : r.1.store.keyspace = w.store.keyspace := hkeyspace
  refine ⟨hmarked, _, hanswer, ?_⟩
  show w.store.keyspace.getBit r.1.now key offset = true ↔ _
  rw [← hkeyspace']
  exact hmarked.bits offset

/-- A bit that is written is the only one that changes. -/
theorem setBit (h : w.Marked key marks) (conn : Connection) (offset : Nat) (bit : Bool) :
    let r := w.perform (.call (.command conn (.setBit key offset bit)))
    r.1.Marked key (fun offset' => if offset' = offset then bit = true else marks offset') := by
  intro r
  let t := r.1.now
  obtain ⟨hkeyspace, -⟩ := w.perform_command conn (.setBit key offset bit) nofun
  have hlater : w.store.keyspace.live? t key = w.store.keyspace.live? w.now key :=
    h.live?_later (w.now_le_perform (.call (.command conn (.setBit key offset bit))))
  have hlive : r.1.store.keyspace.live? t key =
      some (((w.store.keyspace.live? w.now key).getD ⟨#[], none⟩).setBit offset bit) := by
    have hset : r.1.store.keyspace = (w.store.keyspace.setBit t key offset bit).1 := hkeyspace
    rw [hset, Keyspace.live?_setBit, hlater]
  constructor
  · intro e he
    rw [hlive] at he
    cases he
    show ((w.store.keyspace.live? w.now key).getD ⟨#[], none⟩).deadline = none
    cases hold : w.store.keyspace.live? w.now key with
    | none => rfl
    | some e => exact h.lasting e hold
  · intro offset'
    have hbefore : ((w.store.keyspace.live? w.now key).getD ⟨#[], none⟩).bit offset' = true ↔
        marks offset' := by
      rw [← h.bits offset']
      unfold Keyspace.getBit
      cases w.store.keyspace.live? w.now key with
      | none => simp [Entry.bit]
      | some e => rfl
    unfold Keyspace.getBit
    rw [show r.1.store.keyspace.live? r.1.now key = _ from hlive]
    show (Entry.setBit _ offset bit).bit offset' = true ↔ _
    rw [Entry.bit_setBit]
    by_cases hoffset : offset' = offset
    · rw [if_pos hoffset, if_pos hoffset]
    · rw [if_neg hoffset, if_neg hoffset]
      exact hbefore

theorem stable : Stable (Marked key marks) := fun _ _ h he => h.perform he

theorem stable_live? (e? : Option Entry) :
    Stable fun w => w.Marked key marks ∧ w.store.keyspace.live? w.now key = e? :=
  fun _ _ h he => ⟨h.1.perform he, (h.1.live?_perform (perform_keyspace _ he)).trans h.2⟩

end World.Marked

/-! ## Operations -/

namespace FilterPlan

variable {key : String} {marks : Nat → Prop} {w : World}

/-- All bits of a list are set. -/
theorem setBits_marks (conn : Connection) (offsets : List Nat) (h : w.Marked key marks) :
    (setBits (X := X) conn key offsets).run.Ensures World.flawless w fun w' r =>
      w'.Marked key (fun offset => marks offset ∨ offset ∈ offsets) ∧ r = .ok () := by
  induction offsets generalizing marks w with
  | nil => exact ⟨h.congr fun offset => by simp, rfl⟩
  | cons first rest ih =>
    refine Action.ensures_bind.2 (Action.ensures_send.2 (World.flawless_call.2 fun _ _ => ?_))
    refine (ih (h.setBit conn first true)).mono ?_
    rintro w' r ⟨hmarked, rfl⟩
    refine ⟨hmarked.congr fun offset => ?_, rfl⟩
    by_cases hoffset : offset = first
    · simp [hoffset]
    · simp [hoffset]

/-- A list of bits is read, up to the first that is not set. -/
theorem allSet_reads (conn : Connection) (offsets : List Nat) (h : w.Marked key marks) :
    (allSet (X := X) conn key offsets).run.Ensures World.flawless w fun w' r =>
      w'.Marked key marks ∧ ∃ b, r = .ok b ∧ (b = true ↔ ∀ offset ∈ offsets, marks offset) := by
  induction offsets generalizing w with
  | nil => exact ⟨h, true, rfl, by simp⟩
  | cons first rest ih =>
    obtain ⟨hmarked, b, hread, hb⟩ := h.getBit conn first
    refine Action.ensures_bind.2 (Action.ensures_send.2 (World.flawless_call.2 fun a ha => ?_))
    obtain rfl : a = b := Except.ok.inj (ha.symm.trans hread)
    cases a with
    | false =>
      have hunset : ¬ marks first := fun hmark => Bool.false_ne_true (hb.2 hmark)
      exact ⟨hmarked, false, rfl, by simp [hunset]⟩
    | true =>
      have hset : marks first := hb.1 rfl
      refine (ih hmarked).mono ?_
      rintro w' r ⟨hmarked', b, rfl, hb⟩
      exact ⟨hmarked', b, rfl, by simp [hb, hset]⟩

variable {p : FilterPlan}

theorem add_marks (hp : p.name = key) (element : String) (h : w.Marked key marks) :
    (p.add (X := X) element).run.Ensures World.flawless w fun w' r =>
      w'.Marked key (fun offset => marks offset ∨ offset ∈ p.offsets element) ∧ r = .ok () := by
  subst hp
  refine Action.ensures_bind.2 (Action.ensures_orFail.2 ?_)
  refine (World.flawless_use World.Marked.stable World.Marked.stable h fun conn w₁ h₁ =>
    setBits_marks conn (p.offsets element) h₁).mono ?_
  rintro w' r ⟨hmarked, rfl⟩
  exact World.flawless_of ⟨hmarked.perform (e := .count (.filter .add)) nofun, rfl⟩

theorem test_reads (hp : p.name = key) (element : String) (h : w.Marked key marks) :
    (p.test (X := X) element).run.Ensures World.flawless w fun w' r =>
      w'.Marked key marks ∧
        ∃ b, r = .ok b ∧ (b = true ↔ ∀ offset ∈ p.offsets element, marks offset) := by
  subst hp
  refine Action.ensures_bind.2 (Action.ensures_perform.2 (World.flawless_of ?_))
  have hcounted := h.perform (e := .count (.filter .test)) nofun
  refine Action.ensures_orFail.2 (Program.Ensures.mono (World.flawless_use World.Marked.stable
    World.Marked.stable hcounted fun conn w₁ h₁ => allSet_reads conn (p.offsets element) h₁) ?_)
  rintro w' r ⟨hmarked, b, rfl, hb⟩
  exact ⟨hmarked, b, rfl, hb⟩

/-- Where there is a value nothing is done to it. -/
theorem prepare_adopts {e : Entry} (hp : p.name = key)
    (h : w.Marked key marks ∧ w.store.keyspace.live? w.now key = some e) :
    (p.prepare (X := X)).run.Ensures World.flawless w fun w' r =>
      (w'.Marked key marks ∧ w'.store.keyspace.live? w'.now key = some e) ∧ r = .ok () := by
  subst hp
  have hstable : World.Stable fun w : World =>
      w.Marked p.name marks ∧ w.store.keyspace.live? w.now p.name = some e :=
    World.Marked.stable_live? (some e)
  refine World.flawless_use hstable hstable h fun conn w₁ h₁ => ?_
  obtain ⟨hlive, hanswer⟩ := h₁.1.present conn
  rw [h₁.2] at hlive hanswer
  refine Action.ensures_bind.2 (Action.ensures_send.2 (World.flawless_call.2 fun b hb => ?_))
  obtain rfl : b = true := Except.ok.inj (hb.symm.trans hanswer)
  exact ⟨⟨h₁.1.of_live? (hlive.trans h₁.2.symm), hlive⟩, rfl⟩

/-- Where there is no value a bit is cleared, so that none is set. -/
theorem prepare_marks (hp : p.name = key) (hexp : p.expiration = none ∨ p.expiration = some 0)
    (h : w.Marked key marks) :
    (p.prepare (X := X)).run.Ensures World.flawless w fun w' r =>
      w'.Marked key marks ∧ r = .ok () := by
  subst hp
  refine World.flawless_use World.Marked.stable World.Marked.stable h fun conn w₁ h₁ => ?_
  obtain ⟨hlive, hanswer⟩ := h₁.present conn
  have hmarked := h₁.of_live? hlive
  refine Action.ensures_bind.2 (Action.ensures_send.2 (World.flawless_call.2 fun b hb => ?_))
  have hb' : b = (w₁.store.keyspace.live? w₁.now p.name).isSome :=
    Except.ok.inj (hb.symm.trans hanswer)
  cases hold : w₁.store.keyspace.live? w₁.now p.name with
  | some e =>
    obtain rfl : b = true := by rw [hb', hold]; rfl
    exact ⟨hmarked, rfl⟩
  | none =>
    obtain rfl : b = false := by rw [hb', hold]; rfl
    have hnone : ∀ offset, ¬ marks offset := h₁.not_marks hold
    have hcleared : World.Marked p.name marks _ :=
      (hmarked.setBit conn (p.bits - 1) false).congr fun offset => by simp [hnone offset]
    refine Action.ensures_bind.2 (Action.ensures_send.2 (World.flawless_call.2 fun _ _ => ?_))
    rcases hexp with hexp | hexp
    · rw [hexp]
      exact ⟨hcleared, rfl⟩
    · rw [hexp]
      exact ⟨hcleared, rfl⟩

theorem ofSettings_eq {s : FilterSettings} (h : ofSettings s = .ok p) :
    p.name = s.name ∧ p.expiration = s.expiration := by
  unfold ofSettings at h
  split at h
  · cases h
  · split at h
    · cases h
    · cases h
      exact ⟨rfl, rfl⟩

/-- To create a filter is to prepare its key, unless the settings are wrong. -/
theorem create_ensures {s : FilterSettings} {P : World → Prop} (hP : World.Stable P) (hw : P w)
    (hprepare : ∀ p, ofSettings s = .ok p →
      (p.prepare (X := X)).run.Ensures World.flawless w fun w' r => P w' ∧ r = .ok ()) :
    (create (X := X) s).run.Ensures World.flawless w fun w' _ => P w' := by
  unfold create
  cases hplan : ofSettings s with
  | error failure => exact hw
  | ok p =>
    refine Action.ensures_bind.2 (Action.ensures_orFail.2 ((hprepare p hplan).mono ?_))
    rintro w' r ⟨hend, rfl⟩
    exact World.flawless_of (hP hend nofun)

end FilterPlan

/-! ## Sessions -/

namespace Operation

/-- Whether an operation is one of a filter without expiration that has a key. -/
def Shares (key : String) : Operation → Prop
  | .createFilter s => s.name = key ∧ (s.expiration = none ∨ s.expiration = some 0)
  | .addElement p _ => p.name = key
  | .testElement p _ => p.name = key
  | _ => False

/-- The offsets of the bits that an operation sets. -/
def marks : Operation → List Nat
  | .addElement p element => p.offsets element
  | _ => []

/-- An operation without failures adds its bits to those that are set. -/
theorem program_marks {key : String} {marks : Nat → Prop} {w : World} {o : Operation}
    (ho : o.Shares key) (h : w.Marked key marks) :
    (o.program (X := X)).Ensures World.flawless w fun w' _ =>
      w'.Marked key fun offset => marks offset ∨ offset ∈ o.marks := by
  have hsame : ∀ {w' : World}, w'.Marked key marks →
      w'.Marked key fun offset => marks offset ∨ offset ∈ ([] : List Nat) :=
    fun hmarked => hmarked.congr fun offset => by simp
  cases o with
  | createFilter s =>
    obtain ⟨hname, hexp⟩ := ho
    refine (FilterPlan.create_ensures World.Marked.stable h fun p hplan => ?_).mono
      fun w' _ hmarked => hsame hmarked
    obtain ⟨hpname, hpexp⟩ := FilterPlan.ofSettings_eq hplan
    rw [← hpexp] at hexp
    exact FilterPlan.prepare_marks (hpname.trans hname) hexp h
  | addElement p element =>
    exact (FilterPlan.add_marks ho element h).mono fun w' r hr => hr.1
  | testElement p element =>
    exact (FilterPlan.test_reads ho element h).mono fun w' r hr => hsame hr.1
  | _ => cases ho

end Operation

/-- After a session exactly the bits are set that its additions have set. -/
theorem Session.marked {key : String} {w₀ w : World} {calls : List Completed}
    (habsent : w₀.store.keyspace.live? w₀.now key = none)
    (hs : Session (Operation.Shares key) key w₀ calls w) (hok : ∀ c ∈ calls, c.IsFlawless) :
    w.Marked key fun offset => ∃ c ∈ calls, offset ∈ c.operation.marks := by
  induction hs with
  | start => exact (World.Marked.of_absent habsent).congr fun offset => by simp
  | @call calls w w' o ms a hs ho hplays ih =>
    have hmarked := ih fun c hmem => hok c (List.mem_append_left _ hmem)
    have hms : ∀ m ∈ ms, m.exchange.failed = false :=
      hok ⟨o, ms, a⟩ (List.mem_append_right _ (List.mem_singleton.2 rfl))
    refine (hplays.of_flawless (Operation.program_marks ho hmarked) hms).congr fun offset => ?_
    simp only [List.mem_append, List.mem_singleton, or_and_right, exists_or, exists_eq_left]
  | @pause calls w w' hs hlater hspares ih =>
    have hmarked := ih hok
    exact hmarked.of_live? (hspares.trans (hmarked.live?_later hlater))

theorem Session.test_answers {key : String} {w₀ w : World} {calls : List Completed}
    (hs : Session (Operation.Shares key) key w₀ calls w)
    (habsent : w₀.store.keyspace.live? w₀.now key = none) (hok : ∀ c ∈ calls, c.IsFlawless)
    {q : FilterPlan} {element : String} (hq : q.name = key)
    (htest : (q.test element).run.isFlawless w = true) :
    ∃ b, ((q.test element).run.runOn w).2 = .ok b ∧ (b = true ↔
      ∀ offset ∈ q.offsets element, ∃ c ∈ calls, offset ∈ c.operation.marks) := by
  obtain ⟨ms, hplays, hms⟩ := Program.plays_of_isFlawless htest
  exact (hplays.of_flawless (q.test_reads hq element (hs.marked habsent hok)) hms).2

theorem exists_marks_iff {calls : List Completed} {offset : Nat} :
    (∃ c ∈ calls, offset ∈ c.operation.marks) ↔
      ∃ p element,
        .addElement p element ∈ calls.map (·.operation) ∧ offset ∈ p.offsets element := by
  constructor
  · rintro ⟨c, hmem, hoffset⟩
    have hmem' := List.mem_map_of_mem (f := (·.operation)) hmem
    cases hop : c.operation with
    | addElement p element =>
      rw [hop] at hmem' hoffset
      exact ⟨p, element, hmem', hoffset⟩
    | _ =>
      rw [hop] at hoffset
      cases hoffset
  · rintro ⟨p, element, hmem, hoffset⟩
    obtain ⟨c, hmem', hop⟩ := List.mem_map.1 hmem
    refine ⟨c, hmem', ?_⟩
    rw [hop]
    exact hoffset

/-- A filter is the union of what was added.

Let filters without expiration be created under one key, sized alike or not, and elements be added
and looked for through any of them, one operation after the other and without failures, while nobody
else touches the key, which had no value at first. Then a test of an element through a filter with
the key comes to an answer, and finds the element if and only if every offset of it, as that filter
is sized, is among those that the additions have set, as their filters were sized.

So it does not matter how often or in which order the elements were added. And a creation, with
whatever sizing and expiration, leaves the value as it is, bytes and deadline, where there is
one. -/
theorem filter_is_union {key : String} {w₀ w : World} {calls : List Completed}
    (habsent : w₀.store.keyspace.live? w₀.now key = none)
    (hs : Session (Operation.Shares key) key w₀ calls w) (hok : ∀ c ∈ calls, c.IsFlawless) :
    (∀ (q : FilterPlan) (element : String), q.name = key →
      (q.test element).run.isFlawless w = true →
      ∃ b, ((q.test element).run.runOn w).2 = .ok b ∧ (b = true ↔
        ∀ offset ∈ q.offsets element, ∃ c ∈ calls, offset ∈ c.operation.marks)) ∧
    (∀ {w₁ w' : World} {calls' : List Completed},
      w₁.store.keyspace.live? w₁.now key = none →
      Session (Operation.Shares key) key w₁ calls' w' → (∀ c ∈ calls', c.IsFlawless) →
      (∀ p element, .addElement p element ∈ calls'.map (·.operation) ↔
        .addElement p element ∈ calls.map (·.operation)) →
      ∀ (q : FilterPlan) (element : String), q.name = key →
        (q.test element).run.isFlawless w = true → (q.test element).run.isFlawless w' = true →
        ((q.test element).run.runOn w').2 = ((q.test element).run.runOn w).2) ∧
    (∀ (s : FilterSettings) (e : Entry), s.name = key →
      (FilterPlan.create s).run.isFlawless w = true →
      w.store.keyspace.live? w.now key = some e →
      let w' := ((FilterPlan.create s).run.runOn w).1
      w'.store.keyspace.live? w'.now key = some e) := by
  refine ⟨fun q element hq htest => hs.test_answers habsent hok hq htest, ?_, ?_⟩
  · intro w₁ w' calls' habsent' hs' hok' hsame q element hq htest htest'
    obtain ⟨b, hanswer, hb⟩ := hs.test_answers habsent hok hq htest
    obtain ⟨b', hanswer', hb'⟩ := hs'.test_answers habsent' hok' hq htest'
    have hmarks : ∀ offset, (∃ c ∈ calls', offset ∈ c.operation.marks) ↔
        ∃ c ∈ calls, offset ∈ c.operation.marks := by
      intro offset
      rw [exists_marks_iff, exists_marks_iff]
      simp only [hsame]
    have hiff : b' = true ↔ b = true := by
      rw [hb, hb']
      simp only [hmarks]
    rw [hanswer, hanswer', Bool.eq_iff_iff.2 hiff]
  · intro s e hname hcreate hlive
    have hmarked := hs.marked habsent hok
    have hstable : World.Stable fun w : World =>
        (w.Marked key fun offset => ∃ c ∈ calls, offset ∈ c.operation.marks) ∧
          w.store.keyspace.live? w.now key = some e :=
      World.Marked.stable_live? (some e)
    obtain ⟨ms, hplays, hms⟩ := Program.plays_of_isFlawless hcreate
    refine (hplays.of_flawless (FilterPlan.create_ensures hstable ⟨hmarked, hlive⟩ ?_) hms).2
    intro p hplan
    exact FilterPlan.prepare_adopts ((FilterPlan.ofSettings_eq hplan).1.trans hname)
      ⟨hmarked, hlive⟩

/-- A filter of the same name as the one of a byte, with more bits and one hash. -/
def FilterPlan.wider : FilterPlan := { oneByte with bits := 20, rounds := 1 }

/-- An element is added through a filter of eight bits, which sets the bits 1 and 3. Another filter
with twenty finds an element whose bit is 1, and not one whose bit is 10. -/
theorem filter_is_union_sizings :
    ∃ (w : World) (calls : List Completed),
      Session (Operation.Shares "F") "F" World.fresh calls w ∧ (∀ c ∈ calls, c.IsFlawless) ∧
        ((FilterPlan.wider.test "d").run.runOn w).2 = .ok true ∧
        ((FilterPlan.wider.test "c").run.runOn w).2 = .ok false := by
  let o : Operation := .addElement .oneByte "x"
  have hadd : o.program.isFlawless World.fresh = true := by decide +kernel
  obtain ⟨ms, hplays, hms⟩ := Program.plays_of_isFlawless hadd
  have hs : Session (Operation.Shares "F") "F" World.fresh [⟨o, ms, _⟩] _ :=
    .call .start rfl hplays
  have hok : ∀ c ∈ [(⟨o, ms, (o.program.runOn World.fresh).2⟩ : Completed)], c.IsFlawless := by
    intro c hmem
    rw [List.mem_singleton.1 hmem]
    exact hms
  have hmarks : o.marks = [1, 3] := by decide +kernel
  obtain ⟨htests, -, -⟩ := filter_is_union rfl hs hok
  obtain ⟨b, hfound, hb⟩ := htests .wider "d" rfl (by decide +kernel)
  obtain ⟨b', hlost, hb'⟩ := htests .wider "c" rfl (by decide +kernel)
  have hoffset : FilterPlan.wider.offsets "d" = [1] := by decide +kernel
  have hoffset' : FilterPlan.wider.offsets "c" = [10] := by decide +kernel
  rw [hoffset] at hb
  rw [hoffset'] at hb'
  simp only [List.mem_singleton, forall_eq, exists_eq_left, hmarks] at hb hb'
  refine ⟨_, _, hs, hok, ?_, ?_⟩
  · rw [hfound, hb.2 (by decide)]
  · rw [hlost, Bool.eq_false_iff.2 fun h => absurd (hb'.1 h) (by decide)]

end Latchkey
