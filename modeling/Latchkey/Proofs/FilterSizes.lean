import Latchkey.Proofs.BitWrites
import Latchkey.Proofs.FilterExpiry

/-!
# How long the value of a filter is

The signed hash of an element is reduced to an offset by its absolute value modulo the number of
bits, so an offset is never behind the last bit. The creation of a filter writes that last bit
before any other, which gives the value all its bytes at once. Additions write within them and tests
only read, so the value is never lengthened.

The main statement is `offsets_stay_inside`.
-/

namespace Latchkey

variable {X : Extension}

/-! ## Offsets -/

theorem signed64_eq {size : Nat} (hmax : size ≤ 9223372036854775807) : signed64 size = size :=
  Int64.toInt_ofNat_of_lt (Nat.lt_of_le_of_lt hmax (by decide))

/-- The signed hash is reduced by its absolute value, be it negative or not. -/
theorem bitOffset_eq (element : String) (round : Nat) {size : Nat}
    (hmax : size ≤ 9223372036854775807) :
    bitOffset element round size = (elementHash element round).natAbs % size := by
  rw [bitOffset, signed64_eq hmax, Int.natAbs_tmod, Int.natAbs_natCast]

theorem bitOffset_lt (element : String) (round : Nat) {size : Nat} (hpos : 0 < size)
    (hmax : size ≤ 9223372036854775807) : bitOffset element round size < size := by
  rw [bitOffset_eq element round hmax]
  exact Nat.mod_lt _ hpos

theorem lt_of_mem_bitOffsets {element : String} {rounds size offset : Nat} (hpos : 0 < size)
    (hmax : size ≤ 9223372036854775807) (h : offset ∈ bitOffsets element rounds size) :
    offset < size := by
  obtain ⟨i, -, rfl⟩ := List.mem_map.1 h
  exact bitOffset_lt element (i + 1) hpos hmax

theorem length_bitOffsets (element : String) (rounds size : Nat) :
    (bitOffsets element rounds size).length = rounds := by
  rw [bitOffsets, List.length_map, List.length_range]

/-- Another round adds an offset behind the others. -/
theorem bitOffsets_succ (element : String) (rounds size : Nat) :
    bitOffsets element (rounds + 1) size =
      bitOffsets element rounds size ++ [bitOffset element (rounds + 1) size] := by
  rw [bitOffsets, List.range_succ, List.map_append]
  rfl

theorem bitOffsets?_eq (element : String) (rounds : Nat) {size : Nat} (hpos : 0 < size)
    (hmax : size ≤ 9223372036854775807) :
    bitOffsets? element rounds size = some (bitOffsets element rounds size) := by
  refine if_neg fun h => ?_
  rw [signed64_eq hmax] at h
  omega

/-! ## The length of a value -/

/-- The value of a key is there, has no deadline, and is just long enough for some bits. -/
def World.Spans (w : World) (key : String) (size : Nat) : Prop :=
  ∃ e, w.store.keyspace.live? w.now key = some e ∧ e.deadline = none ∧
    e.bytes.size = (size - 1) / 8 + 1

/-- What is known of the value of a key. -/
inductive Extent where
  /-- There is none. -/
  | missing
  /-- It has all its bits. -/
  | whole

/-- The value of a key, which is to have some bits, is as is known. -/
def World.HasExtent (w : World) (key : String) (size : Nat) : Extent → Prop
  | .missing => w.store.keyspace.live? w.now key = none
  | .whole => w.Spans key size

/-- The effects that may be performed on the value of a key: the first bit that is written to it is
its last one, and later ones are not behind that. -/
def Extent.allows (key : String) (size : Nat) : Extent → Effect → Prop
  | .missing, .call (.command _ (.setBit key' offset _)) => key' = key → offset = size - 1
  | .whole, .call (.command _ (.setBit key' offset _)) => key' = key → offset < size
  | _, .call (.command _ (.getBit ..)) => True
  | _, .call (.command _ (.present _)) => True
  | _, .call (.command ..) => False
  | _, _ => True

/-- What is known of the value of a key after an exchange. -/
def Extent.after (key : String) : Extent → Exchange → Extent
  | .whole, _ => .whole
  | .missing, ⟨.call (.command _ (.setBit key' _ _)), .ok _⟩ =>
    if key' = key then .whole else .missing
  | .missing, ⟨.call (.command _ (.present key')), .ok true⟩ =>
    if key' = key then .whole else .missing
  | .missing, _ => .missing

/-- How the value of a key is made and written to. -/
def Discipline.filling (key : String) (size : Nat) : Discipline Extent :=
  ⟨Extent.allows key size, Extent.after key⟩

namespace World.HasExtent

variable {w w' : World} {key : String} {size : Nat} {s : Extent}

/-- A value without a deadline is still there later. -/
theorem later (h : w.HasExtent key size s) (hle : w.now ≤ w'.now)
    (hfind : w'.store.keyspace.find? key = w.store.keyspace.find? key) :
    w'.HasExtent key size s := by
  have hlive : w'.store.keyspace.live? w'.now key =
      (w.store.keyspace.live? w.now key).filter fun e => e.isLive w'.now := by
    rw [← Keyspace.live?_later _ key hle, Keyspace.live?, Keyspace.live?, hfind]
  cases s with
  | missing =>
    have hnone : w.store.keyspace.live? w.now key = none := h
    show w'.store.keyspace.live? w'.now key = none
    rw [hlive, hnone, Option.filter_none]
  | whole =>
    obtain ⟨e, he, hd, hsize⟩ := h
    have hstill : e.isLive w'.now = true := by simp [Entry.isLive, hd]
    exact ⟨e, by rw [hlive, he, Option.filter_some, if_pos hstill], hd, hsize⟩

/-- After a bit was written that may be written, all bits are there, and no more. -/
theorem setBit (h : w.HasExtent key size s) (hpos : 0 < size) {conn : Connection} {offset : Nat}
    {bit : Bool} (ha : s.allows key size (.call (.command conn (.setBit key offset bit))))
    (hkeyspace : w'.store.keyspace = (w.store.keyspace.setBit w.now key offset bit).1)
    (hnow : w'.now = w.now) : w'.Spans key size := by
  have hlive : w'.store.keyspace.live? w'.now key =
      some (((w.store.keyspace.live? w.now key).getD ⟨#[], none⟩).setBit offset bit) := by
    rw [hkeyspace, hnow, Keyspace.live?_setBit]
  cases s with
  | missing =>
    have hnone : w.store.keyspace.live? w.now key = none := h
    have hlast : offset = size - 1 := ha rfl
    rw [hnone, Option.getD_none] at hlive
    refine ⟨_, hlive, rfl, ?_⟩
    rw [Entry.size_setBit, hlast]
    simp
  | whole =>
    obtain ⟨e, he, hd, hsize⟩ := h
    have hlt : offset < size := ha rfl
    rw [he, Option.getD_some] at hlive
    refine ⟨_, hlive, hd, ?_⟩
    rw [Entry.size_setBit, hsize]
    -- the byte of the bit is not behind the last one
    omega

end World.HasExtent

namespace Extent

theorem after_failed (key : String) (s : Extent) (c : StoreCall) (err : StoreError) :
    s.after key ⟨.call c, .error err⟩ = s := by
  cases s with
  | whole => rfl
  | missing =>
    cases c with
    | command conn cmd => cases cmd <;> rfl
    | _ => rfl

theorem after_setBit (s : Extent) (conn : Connection) (key : String) (offset : Nat) (bit b : Bool) :
    s.after key ⟨.call (.command conn (.setBit key offset bit)), .ok b⟩ = .whole := by
  cases s with
  | whole => rfl
  | missing => exact if_pos rfl

/-- Only writing the key, or being told that it has a value, tells anything new. -/
theorem after_eq (s : Extent) {key key' : String} {conn : Connection} {cmd : Command}
    {a : cmd.Answer} (hne : key' ≠ key)
    (hcmd : (∃ offset bit, cmd = .setBit key' offset bit) ∨ cmd = .present key') :
    s.after key ⟨.call (.command conn cmd), .ok a⟩ = s := by
  cases s with
  | whole => rfl
  | missing =>
    rcases hcmd with ⟨offset, bit, rfl⟩ | rfl
    · exact if_neg hne
    · cases a with
      | true => exact if_neg hne
      | false => rfl

end Extent

namespace World.HasExtent

variable {w : World} {key : String} {size : Nat} {s : Extent}

/-- What is known of a value stays true of it with each command. -/
theorem command (h : w.HasExtent key size s) (hpos : 0 < size) {conn : Connection} {cmd : Command}
    (ha : s.allows key size (.call (.command conn cmd))) :
    let r := w.perform (.call (.command conn cmd))
    r.1.HasExtent key size (s.after key ⟨.call (.command conn cmd), r.2⟩) := by
  intro r
  have hle : w.now ≤ r.1.now := w.now_le_perform (.call (.command conn cmd))
  -- the command is executed after some time has passed
  have hthen : { w with now := r.1.now : World }.HasExtent key size s := h.later hle rfl
  cases cmd with
  | setBit key' offset bit =>
    obtain ⟨hkeyspace, hanswer⟩ := w.perform_command conn (.setBit key' offset bit) nofun
    show World.HasExtent r.1 key size (s.after key ⟨_, r.2⟩)
    rw [show r.2 = _ from hanswer]
    by_cases hkey : key' = key
    · subst hkey
      rw [Extent.after_setBit]
      exact hthen.setBit hpos ha hkeyspace rfl
    · rw [Extent.after_eq s hkey (.inl ⟨offset, bit, rfl⟩)]
      refine h.later hle ?_
      rw [show r.1.store.keyspace = _ from hkeyspace]
      exact Keyspace.find?_setBit _ offset bit fun heq => hkey heq.symm
  | present key' =>
    obtain ⟨hkeyspace, hanswer⟩ := w.perform_command conn (.present key') nofun
    show World.HasExtent r.1 key size (s.after key ⟨_, r.2⟩)
    rw [show r.2 = _ from hanswer]
    have hsame : r.1.HasExtent key size s :=
      h.later hle (by rw [show r.1.store.keyspace = _ from hkeyspace]; rfl)
    by_cases hkey : key' = key
    · subst hkey
      cases s with
      | whole => exact hsame
      | missing =>
        have hnone : w.store.keyspace.live? r.1.now key' = none := hthen
        have habsent : (w.store.execute r.1.now (.present key')).2 = false := by
          show (w.store.keyspace.live? r.1.now key').isSome = false
          rw [hnone, Option.isSome_none]
        rw [habsent]
        exact hsame
    · rwa [Extent.after_eq s hkey (.inr rfl)]
  | getBit key' offset =>
    have hkeyspace := (w.perform_command conn (.getBit key' offset) nofun).1
    have hsame : r.1.HasExtent key size s :=
      h.later hle (by rw [show r.1.store.keyspace = _ from hkeyspace]; rfl)
    cases s <;> exact hsame
  | _ => cases s <;> exact ha.elim

/-- What is known of a value stays true of it with each exchange. -/
theorem replies {w' : World} {e : Effect} {r : e.Reply} (h : w.HasExtent key size s)
    (hpos : 0 < size) (ha : s.allows key size e) (hr : w.Replies e w' r) :
    w'.HasExtent key size (s.after key ⟨e, r⟩) := by
  have hidle : (∀ conn cmd, e ≠ .call (.command conn cmd)) →
      (w.perform e).1.HasExtent key size s := by
    intro he
    exact h.later (w.now_le_perform e) (by rw [w.perform_keyspace he])
  cases hr with
  | failed c err => rwa [Extent.after_failed]
  | answered e =>
    cases e with
    | call c =>
      cases c with
      | command conn cmd => exact h.command hpos ha
      | _ => cases s <;> exact hidle nofun
    | _ => cases s <;> exact hidle nofun

end World.HasExtent

/-! ## Operations -/

/-- What an obedient program is played to, if the states of the discipline are true of the worlds
that its exchanges lead to. -/
theorem Program.Plays.follows {α σ : Type} {p : Program .none α} {w w' : World} {ms : List Moment}
    {a : α} {D : Discipline σ} {s : σ} {R : σ → World → Prop} {Q : σ → α → Prop}
    (h : p.Plays w ms w' a) (hp : p.Obeys D s Q) (hw : R s w)
    (hreply : ∀ {s w e r w'}, R s w → D.permits s e → w.Replies e w' r → R (D.next s ⟨e, r⟩) w') :
    (∃ s', R s' w' ∧ Q s' a) ∧ ∀ m ∈ ms, ∃ s', R s' m.after := by
  induction h generalizing s with
  | done w a => exact ⟨⟨s, hw, hp⟩, fun _ hmem => absurd hmem List.not_mem_nil⟩
  | effect hr hrest ih =>
    have hnext := hreply hw hp.1 hr
    obtain ⟨hend, hms⟩ := ih (hp.2 _) hnext
    refine ⟨hend, fun m hmem => ?_⟩
    rcases List.mem_cons.1 hmem with rfl | hmem
    · exact ⟨_, hnext⟩
    · exact hms m hmem

namespace FilterPlan

/-- Makes a filter with this plan, or adopts what its key has. -/
def make (p : FilterPlan) : Action X Failure FilterPlan := do
  Action.orFail p.prepare
  Action.perform (.count (.filter .create))
  return p

/-- To create a filter is to plan and to make it. -/
theorem create_eq_make (s : FilterSettings) :
    create (X := X) s =
      match ofSettings s with
      | .ok p => p.make
      | .error failure => throw failure := by
  unfold create
  cases ofSettings s <;> rfl

variable {key : String} {size : Nat}

theorem setBits_fills (conn : Connection) {key' : String} {offsets : List Nat}
    (hoffsets : key' = key → ∀ offset ∈ offsets, offset < size) :
    (setBits (X := X) conn key' offsets).run.Obeys (.filling key size) .whole
      fun s _ => s = .whole := by
  induction offsets with
  | nil => exact rfl
  | cons first rest ih =>
    have hfirst := fun hkey => hoffsets hkey first List.mem_cons_self
    have hrest := fun hkey offset hmem => hoffsets hkey offset (List.mem_cons_of_mem first hmem)
    refine Action.ensures_bind.2 (Action.ensures_send.2 ⟨hfirst, fun r => ?_⟩)
    cases r with
    | error err => exact rfl
    | ok b => exact ih hrest

theorem allSet_fills (conn : Connection) (key' : String) (offsets : List Nat) :
    (allSet (X := X) conn key' offsets).run.Obeys (.filling key size) .whole
      fun s _ => s = .whole := by
  induction offsets with
  | nil => exact rfl
  | cons first rest ih =>
    refine Action.ensures_bind.2 (Action.ensures_send.2 ⟨trivial, fun r => ?_⟩)
    cases r with
    | error err => exact rfl
    | ok b =>
      cases b with
      | false => exact rfl
      | true => exact ih

/-- Whoever uses a connection borrows it before and gives it back afterwards. -/
theorem use_fills {α : Type} {name : String} {use : Connection → Action X StoreError α}
    (huse : ∀ conn, (use conn).run.Obeys (.filling key size) .whole fun s _ => s = .whole) :
    (Action.withConnection (Action.connectionFor name) use).run.Obeys (.filling key size) .whole
      fun s _ => s = .whole := by
  refine Action.ensures_withConnection.2 (Action.ensures_connectionFor.2 ⟨trivial, fun r => ?_⟩)
  cases r with
  | error err => exact rfl
  | ok node =>
    refine ⟨trivial, fun r => ?_⟩
    cases r with
    | error err => exact rfl
    | ok conn =>
      refine (huse conn).mono ?_
      rintro s r rfl
      exact ⟨trivial, fun _ => rfl⟩

variable {p : FilterPlan}

/-- The first write of a creation without expiration is that of the last bit, and if it succeeds
there is a value. -/
theorem prepare_fills (hexp : p.expiration = none ∨ p.expiration = some 0) :
    (p.prepare (X := X)).run.Obeys (.filling p.name p.bits) .missing
      fun s r => r = .ok () → s = .whole := by
  refine Action.ensures_withConnection.2 (Action.ensures_connectionFor.2 ⟨trivial, fun r => ?_⟩)
  cases r with
  | error err => exact nofun
  | ok node =>
    refine ⟨trivial, fun r => ?_⟩
    cases r with
    | error err => exact nofun
    | ok conn =>
      have hend : ∀ {s : Extent} {r : Except StoreError Unit}, s = .whole →
          (Discipline.filling p.name p.bits).interpretation.before s (.release conn)
            fun s' _ => r = .ok () → s' = .whole := by
        rintro s r rfl
        exact ⟨trivial, fun _ _ => rfl⟩
      refine Action.ensures_bind.2 (Action.ensures_send.2 ⟨trivial, fun r => ?_⟩)
      cases r with
      | error err => exact ⟨trivial, fun _ => nofun⟩
      | ok b =>
        cases b with
        | true => exact hend (if_pos rfl)
        | false =>
          refine Action.ensures_bind.2 (Action.ensures_send.2 ⟨fun _ => rfl, fun r => ?_⟩)
          cases r with
          | error err => exact ⟨trivial, fun _ => nofun⟩
          | ok b =>
            rcases hexp with hexp | hexp
            · rw [hexp]
              exact hend (if_pos rfl)
            · rw [hexp]
              exact hend (if_pos rfl)

theorem make_fills (hexp : p.expiration = none ∨ p.expiration = some 0) :
    (p.make (X := X)).run.Obeys (.filling p.name p.bits) .missing
      fun s r => ∀ q, r = .ok q → q = p ∧ s = .whole := by
  refine Action.ensures_bind.2 (Action.ensures_orFail.2 ((prepare_fills hexp).mono ?_))
  intro s r hr
  cases r with
  | error err => exact nofun
  | ok u =>
    obtain rfl : s = .whole := hr rfl
    exact ⟨trivial, fun _ q hq => ⟨(Except.ok.inj hq).symm, rfl⟩⟩

end FilterPlan

namespace Operation

/-- Whether an operation adds or tests elements, and if it does so under a key, then through a
filter of some number of bits. -/
def Fits (key : String) (size : Nat) : Operation → Prop
  | .addElement p _ => p.name = key → p.bits = size
  | .testElement p _ => p.name = key → p.bits = size
  | _ => False

/-- Additions and tests write nothing behind the last bit. -/
theorem fills {key : String} {size : Nat} {o : Operation} (ho : o.Fits key size) (hpos : 0 < size)
    (hmax : size ≤ 9223372036854775807) :
    (o.program (X := X)).Obeys (.filling key size) .whole fun s _ => s = .whole := by
  cases o with
  | addElement p element =>
    have hoffsets : p.name = key → ∀ offset ∈ p.offsets element, offset < size := by
      intro hkey offset hmem
      rw [FilterPlan.offsets, ho hkey] at hmem
      exact lt_of_mem_bitOffsets hpos hmax hmem
    refine Action.ensures_bind.2 (Action.ensures_orFail.2 (Program.Ensures.mono
      (FilterPlan.use_fills fun conn => FilterPlan.setBits_fills conn hoffsets) ?_))
    rintro s r rfl
    cases r with
    | error err => exact rfl
    | ok u => exact ⟨trivial, fun _ => rfl⟩
  | testElement p element =>
    refine Action.ensures_bind.2 (Action.ensures_perform.2 ⟨trivial, fun _ => ?_⟩)
    exact Action.ensures_orFail.2
      (FilterPlan.use_fills fun conn => FilterPlan.allSet_fills conn p.name (p.offsets element))
  | _ => cases ho

end Operation

/-! ## Sessions -/

/-- Where there was no value there is one with all its bits, once a filter without expiration was
made. -/
theorem FilterPlan.spans_of_make {p q : FilterPlan} {w w' : World} {ms : List Moment}
    (hpos : 0 < p.bits) (hexp : p.expiration = none ∨ p.expiration = some 0)
    (habsent : w.store.keyspace.live? w.now p.name = none)
    (hplays : p.make.run.Plays w ms w' (.ok q)) : q = p ∧ w'.Spans p.name p.bits := by
  have hmissing : w.HasExtent p.name p.bits .missing := habsent
  obtain ⟨⟨s, hs, hmade⟩, -⟩ :=
    hplays.follows (R := fun s w => w.HasExtent p.name p.bits s) (make_fills hexp) hmissing
      fun h ha hr => h.replies hpos ha hr
  obtain ⟨hq, rfl⟩ := hmade q rfl
  exact ⟨hq, hs⟩

/-- A value that has all its bits keeps its length during a session of additions and tests. -/
theorem Session.spans {key : String} {size : Nat} {w₀ w : World} {calls : List Completed}
    (hs : Session (Operation.Fits key size) key w₀ calls w) (hpos : 0 < size)
    (hmax : size ≤ 9223372036854775807) (h : w₀.Spans key size) :
    w.Spans key size ∧ ∀ c ∈ calls, ∀ m ∈ c.moments, m.after.Spans key size := by
  induction hs with
  | start => exact ⟨h, fun _ hmem => absurd hmem List.not_mem_nil⟩
  | @call calls w w' o ms a hs ho hplays ih =>
    obtain ⟨hspans, hcalls⟩ := ih
    -- nothing is forgotten of a value that has all its bits
    have hfollows := hplays.follows (R := fun s w => s = .whole ∧ w.HasExtent key size s)
      (Operation.fills ho hpos hmax) ⟨rfl, hspans⟩ (by
        rintro s w e r w' ⟨rfl, h⟩ ha hr
        exact ⟨rfl, h.replies hpos ha hr⟩)
    obtain ⟨⟨s, ⟨rfl, hend⟩, -⟩, hms⟩ := hfollows
    refine ⟨hend, fun c hmem => ?_⟩
    rcases List.mem_append.1 hmem with hmem | hmem
    · exact hcalls c hmem
    · rw [List.mem_singleton.1 hmem]
      intro m hmem
      obtain ⟨s, rfl, hm⟩ := hms m hmem
      exact hm
  | @pause calls w w' hs hlater hspares ih =>
    obtain ⟨hspans, hcalls⟩ := ih
    have hstill : World.HasExtent { w with now := w'.now } key size .whole :=
      World.HasExtent.later hspans hlater rfl
    obtain ⟨e, he, hd, hsize⟩ := hstill
    exact ⟨⟨e, hspares.trans he, hd, hsize⟩, hcalls⟩

/-- The offsets of an element are within the bits of a filter, and so is all that is written.

An element has as many offsets as there are rounds, each of them is less than the number of bits,
and with one round more the others are the same. The offset of a round is the absolute value of the
signed hash of that round, negative or not, modulo the number of bits. To create a filter is to plan
it and to make what is planned. Let a filter without expiration be made where its key has no value,
and let elements then be added and looked for through filters that have the same number of bits if
they have the same key, one operation after the other, while any store calls fail and nobody else
touches the key. Then the value of the key has just as many bytes as its bits need, after the
creation and at any time after that. -/
theorem offsets_stay_inside {size : Nat} (hpos : 0 < size) (hmax : size ≤ 9223372036854775807) :
    (∀ (element : String) (rounds : Nat),
      bitOffsets? element rounds size = some (bitOffsets element rounds size) ∧
      (bitOffsets element rounds size).length = rounds ∧
      (∀ offset ∈ bitOffsets element rounds size, offset < size) ∧
      bitOffsets element rounds size <+: bitOffsets element (rounds + 1) size) ∧
    (∀ (element : String) (round : Nat),
      bitOffset element round size = (elementHash element round).natAbs % size) ∧
    (∀ s, FilterPlan.create (X := X) s =
      match FilterPlan.ofSettings s with
      | .ok p => p.make
      | .error failure => throw failure) ∧
    ∀ (p q : FilterPlan) (w₀ w₁ : World) (ms : List Moment), p.bits = size →
      (p.expiration = none ∨ p.expiration = some 0) →
      w₀.store.keyspace.live? w₀.now p.name = none →
      p.make.run.Plays w₀ ms w₁ (.ok q) → q = p ∧ w₁.Spans p.name size ∧
        ∀ calls w, Session (Operation.Fits p.name size) p.name w₁ calls w →
          w.Spans p.name size ∧ ∀ c ∈ calls, ∀ m ∈ c.moments, m.after.Spans p.name size := by
  refine ⟨fun element rounds => ⟨bitOffsets?_eq element rounds hpos hmax,
    length_bitOffsets element rounds size, fun offset => lt_of_mem_bitOffsets hpos hmax, ?_⟩,
    fun element round => bitOffset_eq element round hmax, FilterPlan.create_eq_make, ?_⟩
  · rw [bitOffsets_succ]
    exact List.prefix_append _ _
  · rintro p q w₀ w₁ ms rfl hexp habsent hplays
    obtain ⟨hq, hspans⟩ := FilterPlan.spans_of_make hpos hexp habsent hplays
    exact ⟨hq, hspans, fun calls w hs => hs.spans hpos hmax hspans⟩

/-- A filter of twenty bits is made, and then an element is added and looked for through one that
has as many bits and more rounds. -/
theorem offsets_stay_inside_twenty :
    ∃ (w₁ w : World) (calls : List Completed),
      Session (Operation.Fits "F" 20) "F" w₁ calls w ∧ calls.length = 2 ∧
        w₁.Spans "F" 20 ∧ w.Spans "F" 20 := by
  let more : FilterPlan := { FilterPlan.wider with rounds := 3 }
  let add : Operation := .addElement more "x"
  let test : Operation := .testElement more "y"
  obtain ⟨ms, hmake, -⟩ := Program.plays_of_isFlawless
    (show FilterPlan.wider.make.run.isFlawless World.fresh = true by decide +kernel)
  have hsome : (FilterPlan.wider.make.run.runOn World.fresh).2.toOption.isSome = true := by
    decide +kernel
  obtain ⟨w₁, hw₁⟩ : ∃ w₁, w₁ = (FilterPlan.wider.make.run.runOn World.fresh).1 := ⟨_, rfl⟩
  rw [← hw₁] at hmake
  obtain ⟨q, hq⟩ : ∃ q, (FilterPlan.wider.make.run.runOn World.fresh).2 = .ok q := by
    cases hr : (FilterPlan.wider.make.run.runOn World.fresh).2 with
    | error failure => rw [hr] at hsome; cases hsome
    | ok q => exact ⟨q, rfl⟩
  rw [hq] at hmake
  obtain ⟨-, -, -, hfilter⟩ := @offsets_stay_inside .none 20 (by decide) (by decide)
  obtain ⟨-, hspans, hsession⟩ := hfilter .wider q World.fresh w₁ ms rfl (.inl rfl) rfl hmake
  obtain ⟨ms', hadd, -⟩ := Program.plays_of_isFlawless
    (show add.program.isFlawless w₁ = true by rw [hw₁]; decide +kernel)
  obtain ⟨ms'', htest, -⟩ := Program.plays_of_isFlawless
    (show test.program.isFlawless (add.program.runOn w₁).1 = true by rw [hw₁]; decide +kernel)
  have hfits : add.Fits "F" 20 ∧ test.Fits "F" 20 := ⟨fun _ => rfl, fun _ => rfl⟩
  have hs : Session (Operation.Fits "F" 20) "F" w₁ _ _ :=
    .call (.call .start hfits.1 hadd) hfits.2 htest
  exact ⟨w₁, _, _, hs, rfl, hspans, (hsession _ _ hs).1⟩

end Latchkey
