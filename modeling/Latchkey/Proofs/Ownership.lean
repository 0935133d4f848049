import Latchkey.Proofs.Deeds
import Latchkey.Proofs.Machine

/-!
# Whose token stands under a key

The tokens of a run belong to the owners for which they were minted. A world is lawful if the
registry of an owner lists its own recorded tokens only, and if under a lock key there is a token
that was minted for the lock, and tokens are under such keys only.

The main statements are `KeyChange`, what one step may do to a key, and `World.Lawful.step`, that
such steps keep the world lawful.
-/

namespace Latchkey

/-! ## The past -/

/-- The token was minted for an owner and a lock. -/
def MintedFor (tr : List Event) (p : Owner) (lock : String) (token : Token) : Prop :=
  ∃ o : Operation, o.ActsFor p lock ∧ Event.did o ⟨.mint, token⟩ ∈ tr

/-- The token was recorded in the registry of its owner. -/
def Recorded (tr : List Event) (token : Token) : Prop :=
  ∃ (o : Operation) (p : Owner) (lock : String), o.ActsFor p lock ∧
    Event.did o ⟨.registry p.manager (.record p.ctx lock token), ()⟩ ∈ tr

/-- An operation of an owner deleted the key of a lock while it had the token. -/
def DeletedBy (tr : List Event) (p : Owner) (lock : String) (token : Token) : Prop :=
  ∃ (o : Operation) (conn : Connection), o.ActsFor p lock ∧
    Event.did o ⟨.call (.command conn (.compareAndDelete (lockKey lock) token)), .ok true⟩ ∈ tr

/-- An owner gave up a lock while its key had the token. -/
def GivenUpBy (tr : List Event) (p : Owner) (lock : String) (token : Token) : Prop :=
  ∃ (o : Operation) (conn : Connection), o.ActsFor p lock ∧ o.IsRelease ∧
    Event.did o ⟨.call (.command conn (.compareAndDelete (lockKey lock) token)), .ok true⟩ ∈ tr

section

variable {tr tr' : List Event} {p : Owner} {lock : String} {token : Token}

theorem MintedFor.append (h : MintedFor tr p lock token) (tr' : List Event) :
    MintedFor (tr ++ tr') p lock token := by
  obtain ⟨o, ho, hmem⟩ := h
  exact ⟨o, ho, List.mem_append_left _ hmem⟩

theorem Recorded.append (h : Recorded tr token) (tr' : List Event) :
    Recorded (tr ++ tr') token := by
  obtain ⟨o, p, lock, ho, hmem⟩ := h
  exact ⟨o, p, lock, ho, List.mem_append_left _ hmem⟩

theorem DeletedBy.append (h : DeletedBy tr p lock token) (tr' : List Event) :
    DeletedBy (tr ++ tr') p lock token := by
  obtain ⟨o, conn, ho, hmem⟩ := h
  exact ⟨o, conn, ho, List.mem_append_left _ hmem⟩

theorem GivenUpBy.deletedBy (h : GivenUpBy tr p lock token) : DeletedBy tr p lock token := by
  obtain ⟨o, conn, ho, -, hmem⟩ := h
  exact ⟨o, conn, ho, hmem⟩

theorem GivenUpBy.append (h : GivenUpBy tr p lock token) (tr' : List Event) :
    GivenUpBy (tr ++ tr') p lock token := by
  obtain ⟨o, conn, ho, hrel, hmem⟩ := h
  exact ⟨o, conn, ho, hrel, List.mem_append_left _ hmem⟩

theorem mintedFor_concat {ev : Event} :
    MintedFor (tr ++ [ev]) p lock token ↔
      MintedFor tr p lock token ∨
        ∃ o : Operation, o.ActsFor p lock ∧ ev = .did o ⟨.mint, token⟩ := by
  simp only [MintedFor, List.mem_append, List.mem_singleton]
  constructor
  · rintro ⟨o, ho, hmem | rfl⟩
    · exact .inl ⟨o, ho, hmem⟩
    · exact .inr ⟨o, ho, rfl⟩
  · rintro (⟨o, ho, hmem⟩ | ⟨o, ho, rfl⟩)
    · exact ⟨o, ho, .inl hmem⟩
    · exact ⟨o, ho, .inr rfl⟩

theorem recorded_concat {ev : Event} :
    Recorded (tr ++ [ev]) token ↔
      Recorded tr token ∨ ∃ (o : Operation) (p : Owner) (lock : String), o.ActsFor p lock ∧
        ev = .did o ⟨.registry p.manager (.record p.ctx lock token), ()⟩ := by
  simp only [Recorded, List.mem_append, List.mem_singleton]
  constructor
  · rintro ⟨o, p, lock, ho, hmem | rfl⟩
    · exact .inl ⟨o, p, lock, ho, hmem⟩
    · exact .inr ⟨o, p, lock, ho, rfl⟩
  · rintro (⟨o, p, lock, ho, hmem⟩ | ⟨o, p, lock, ho, rfl⟩)
    · exact ⟨o, p, lock, ho, .inl hmem⟩
    · exact ⟨o, p, lock, ho, .inr rfl⟩

end

/-! ## Values that are tokens -/

namespace World

/-- A key has a token as its value. -/
def Carries (w : World) (key : String) (token : Token) : Prop :=
  ∃ e, w.store.keyspace.live? w.now key = some e ∧ e.holds token = true

/-- The value of a key and its deadline, when it is a text. -/
def Stores (w : World) (key : String) (token : Token) (deadline : Nat) : Prop :=
  w.store.keyspace.find? key = some ⟨Entry.ofText token, some deadline⟩

theorem Carries.unique {w : World} {key : String} {token token' : Token}
    (h : w.Carries key token) (h' : w.Carries key token') : token = token' := by
  obtain ⟨e, he, ht⟩ := h
  obtain ⟨e', he', ht'⟩ := h'
  obtain rfl : e = e' := Option.some.inj (he.symm.trans he')
  exact Entry.holds_unique ht ht'

theorem Stores.carries {w : World} {key : String} {token : Token} {deadline : Nat}
    (h : w.Stores key token deadline) (hlive : w.now < deadline) : w.Carries key token :=
  ⟨_, Keyspace.live?_eq_some.2 ⟨h, by simp [Entry.isLive, hlive]⟩, Entry.holds_iff.2 rfl⟩

theorem Stores.eq_of_carries {w : World} {key : String} {token token' : Token} {deadline : Nat}
    (h : w.Stores key token deadline) (hc : w.Carries key token') : token' = token := by
  obtain ⟨e, he, ht⟩ := hc
  obtain ⟨hfind, -⟩ := Keyspace.live?_eq_some.1 he
  obtain rfl : e = _ := Option.some.inj (hfind.symm.trans h)
  exact (Entry.ofText_inj.1 (Entry.holds_iff.1 ht)).symm

theorem Stores.not_carries {w : World} {key : String} {token : Token} {deadline : Nat}
    (h : w.Stores key token deadline) (hle : deadline ≤ w.now) (token' : Token) :
    ¬ w.Carries key token' := by
  rintro ⟨e, he, -⟩
  obtain ⟨hfind, hlive⟩ := Keyspace.live?_eq_some.1 he
  obtain rfl : e = _ := Option.some.inj (hfind.symm.trans h)
  simp only [Entry.isLive, Option.all_some, decide_eq_true_eq] at hlive
  omega

theorem not_carries_of_find? {w : World} {key : String}
    (h : w.store.keyspace.find? key = none) (token : Token) : ¬ w.Carries key token := by
  rintro ⟨e, he, -⟩
  rw [Keyspace.live?_eq_some, h] at he
  cases he.1

theorem not_carries_of_live? {w : World} {key : String}
    (h : w.store.keyspace.live? w.now key = none) (token : Token) : ¬ w.Carries key token := by
  rintro ⟨e, he, -⟩
  cases h.symm.trans he

/-- A value that was to be deleted is not there afterwards. -/
theorem not_carries_of_compareAndDelete (w : World) (key : String) (token : Token) :
    ¬ (w.withKeyspace (w.store.keyspace.compareAndDelete w.now key token).1).Carries key token := by
  cases hr : w.store.keyspace.compareAndDelete w.now key token with
  | mk ks b =>
    rintro ⟨e, he, ht⟩
    change ks.live? w.now key = some e at he
    cases b with
    | true =>
      have hgone := Keyspace.find?_of_compareAndDelete hr key
      rw [if_pos ⟨rfl, rfl⟩] at hgone
      cases hgone.symm.trans (Keyspace.live?_eq_some.1 he).1
    | false =>
      -- nothing was deleted, so the value was there before, and it was the one to be deleted
      obtain rfl := Keyspace.eq_of_compareAndDelete_false hr
      have hdeleted := Keyspace.compareAndDelete_snd.2 ⟨e, he, ht⟩
      rw [hr] at hdeleted
      cases hdeleted

/-- A value is unchanged if it is still stored and no time has passed. -/
theorem Carries.congr {w w' : World} {key : String} {token : Token} (h : w.Carries key token)
    (hkey : w'.store.keyspace.find? key = w.store.keyspace.find? key) (hnow : w'.now = w.now) :
    w'.Carries key token := by
  obtain ⟨e, he, ht⟩ := h
  refine ⟨e, ?_, ht⟩
  rw [Keyspace.live?_eq_some, hkey, hnow, ← Keyspace.live?_eq_some]
  exact he

/-- A value that is there was there before, if it was stored before. -/
theorem Carries.earlier {w w' : World} {key : String} {token : Token} (h : w'.Carries key token)
    (hkey : w'.store.keyspace.find? key = w.store.keyspace.find? key) (hnow : w.now ≤ w'.now) :
    w.Carries key token := by
  obtain ⟨e, he, ht⟩ := h
  rw [Keyspace.live?_eq_some, hkey] at he
  obtain ⟨hfind, hlive⟩ := he
  refine ⟨e, Keyspace.live?_eq_some.2 ⟨hfind, ?_⟩, ht⟩
  obtain ⟨bytes, deadline⟩ := e
  cases deadline with
  | none => rfl
  | some d =>
    simp only [Entry.isLive, Option.all_some, decide_eq_true_eq] at hlive ⊢
    omega

end World

/-! ## Changes of keys -/

/-- What a step may do to a key, given the token that only the stepping operation knows. -/
inductive KeyChange (tr : List Event) (own : Option Token) (w : World) (ev : Event) (w' : World)
    (key : String) : Prop where
  /-- Nothing. -/
  | same (h : w'.store.keyspace.find? key = w.store.keyspace.find? key)
  /-- A key that is not of a lock gets a value that is not a token. -/
  | foreign (hkey : ∀ lock, key ≠ lockKey lock)
      (h : ∀ e n, w'.store.keyspace.find? key = some e → e.holds (Token.ofSerial n) = false)
  /-- A value that is gone is removed. -/
  | purged (hev : ev = .purged) (hgone : w.store.keyspace.live? w.now key = none)
      (h : w'.store.keyspace.find? key = none)
  /-- The token of the operation is written where there was no value. -/
  | wrote {o : Operation} {p : Owner} {lock : String} {token : Token} {conn : Connection}
      (ho : o.ActsFor p lock) (hkey : key = lockKey lock)
      (hev : ev = .did o ⟨.call (.command conn (.set key token o.ttl true)), .ok true⟩)
      (hminted : MintedFor tr p lock token) (hown : own = some token)
      (hgone : w.store.keyspace.live? w.now key = none)
      (h : w'.Stores key token (w.now + o.ttl))
  /-- The key is deleted by an operation of the owner for which its value was minted. -/
  | deleted {o : Operation} {p : Owner} {lock : String} {token : Token} {conn : Connection}
      (ho : o.ActsFor p lock) (hkey : key = lockKey lock)
      (hev : ev = .did o ⟨.call (.command conn (.compareAndDelete key token)), .ok true⟩)
      (hminted : MintedFor tr p lock token)
      (hown : Recorded tr token ∧ o.IsRelease ∨ own = some token) (hlive : w.Carries key token)
      (h : w'.store.keyspace.find? key = none)
  /-- The key is refreshed by an operation of the owner for which its value was minted. -/
  | extended {o : Operation} {p : Owner} {lock : String} {token : Token} {conn : Connection}
      {ttl : Nat} (ho : o.ActsFor p lock) (hkey : key = lockKey lock)
      (hev : ev = .did o ⟨.call (.command conn (.compareAndExpire key token ttl)), .ok true⟩)
      (hminted : MintedFor tr p lock token) (hrec : Recorded tr token) (hpos : 0 < ttl)
      (hlive : w.Carries key token) (h : w'.Stores key token (w.now + ttl))

namespace KeyChange

variable {tr : List Event} {own : Option Token} {w w' : World} {ev : Event} {key lock : String}
  {token : Token}

/-- Removing what is gone leaves every key alone that has a value. -/
theorem of_purge (w : World) (own : Option Token) (key : String) :
    KeyChange tr own w .purged { w with store := (w.store.purge w.now).1 } key := by
  have hfind := Keyspace.find?_purge w.store.keyspace w.now key
  cases hlive : w.store.keyspace.live? w.now key with
  | none => exact .purged rfl hlive (hfind.trans hlive)
  | some e => exact .same (hfind.trans (hlive.trans (Keyspace.live?_eq_some.1 hlive).1.symm))

/-- A key carries a token only if it did so before, or the stepping operation has written it. -/
theorem carries_before {n : Nat} (h : KeyChange tr own w ev w' key) (hnow : w.now ≤ w'.now)
    (hc : w'.Carries key (Token.ofSerial n)) :
    w.Carries key (Token.ofSerial n) ∨ own = some (Token.ofSerial n) := by
  cases h with
  | same h => exact .inl (hc.earlier h hnow)
  | foreign hkey h =>
    obtain ⟨e, he, ht⟩ := hc
    have hno := h e n (Keyspace.live?_eq_some.1 he).1
    exact absurd (hno.symm.trans ht) Bool.false_ne_true
  | purged hev hgone h => exact absurd hc (World.not_carries_of_find? h _)
  | wrote ho hkey hev hminted hown hgone h => exact .inr (h.eq_of_carries hc ▸ hown)
  | deleted ho hkey hev hminted hown hlive h => exact absurd hc (World.not_carries_of_find? h _)
  | extended ho hkey hev hminted hrec hpos hlive h => exact .inl (h.eq_of_carries hc ▸ hlive)

/-- While no time passes, a lock key carries its token until an operation of the owner for which the
token was minted deletes the key. -/
theorem carries_after (h : KeyChange tr own w ev w' (lockKey lock)) (hnow : w'.now = w.now)
    (hc : w.Carries (lockKey lock) token) :
    w'.Carries (lockKey lock) token ∨ ∃ (o : Operation) (p : Owner) (conn : Connection),
      o.ActsFor p lock ∧ MintedFor tr p lock token ∧
        (Recorded tr token ∧ o.IsRelease ∨ own = some token) ∧
        ev = .did o ⟨.call (.command conn (.compareAndDelete (lockKey lock) token)), .ok true⟩ := by
  cases h with
  | same h => exact .inl (hc.congr h hnow)
  | foreign hkey h => exact absurd rfl (hkey lock)
  | purged hev hgone h => exact absurd hc (World.not_carries_of_live? hgone _)
  | wrote ho hkey hev hminted hown hgone h => exact absurd hc (World.not_carries_of_live? hgone _)
  | deleted ho hkey hev hminted hown hlive h =>
    obtain rfl := lockKey_inj.1 hkey
    obtain rfl := hc.unique hlive
    exact .inr ⟨_, _, _, ho, hminted, hown, hev⟩
  | extended ho hkey hev hminted hrec hpos hlive h =>
    obtain rfl := hc.unique hlive
    exact .inl (h.carries (by omega))

/-- A token that only another operation knows stays as it is stored, as long as it is there. -/
theorem stores_after {deadline : Nat} (h : KeyChange tr own w ev w' (lockKey lock))
    (hrec : ¬ Recorded tr token) (hown : own ≠ some token)
    (hs : w.Stores (lockKey lock) token deadline) (hlive : w.now < deadline) :
    w'.Stores (lockKey lock) token deadline := by
  have hc := hs.carries hlive
  cases h with
  | same h => exact h.trans hs
  | foreign hkey h => exact absurd rfl (hkey lock)
  | purged hev hgone h => exact absurd hc (World.not_carries_of_live? hgone _)
  | wrote ho hkey hev hminted hown hgone h => exact absurd hc (World.not_carries_of_live? hgone _)
  | deleted ho hkey hev hminted hown' hlive h =>
    obtain rfl := hc.unique hlive
    rcases hown' with ⟨hrec', -⟩ | hown'
    · exact absurd hrec' hrec
    · exact absurd hown' hown
  | extended ho hkey hev hminted hrec' hpos hlive h =>
    obtain rfl := hc.unique hlive
    exact absurd hrec' hrec

end KeyChange

/-! ## The world of a run -/

/-- Tokens, registries and lock keys belong to the owners for which the tokens were minted. -/
structure World.Lawful (tr : List Event) (w : World) : Prop where
  /-- Tokens have serial numbers that are used up. -/
  serial : ∀ p lock token, MintedFor tr p lock token →
    ∃ n < w.nextToken, token = Token.ofSerial n
  /-- A token is minted once. -/
  unique : ∀ p p' lock lock' token, MintedFor tr p lock token → MintedFor tr p' lock' token →
    p = p' ∧ lock = lock'
  /-- A token is recorded only after it was minted. -/
  recorded : ∀ token, Recorded tr token → ∃ p lock, MintedFor tr p lock token
  /-- A registry lists tokens of its owner. -/
  registry : ∀ p lock token, w.heldBy p lock = some token →
    MintedFor tr p lock token ∧ Recorded tr token
  /-- A lock key has a token that was minted for the lock, and tokens are under such keys only. -/
  keys : ∀ key e, w.store.keyspace.find? key = some e →
    (∃ lock, key = lockKey lock) ∨ (∃ n, e.holds (Token.ofSerial n) = true) →
    ∃ p lock token deadline, key = lockKey lock ∧ MintedFor tr p lock token ∧
      e = ⟨Entry.ofText token, some deadline⟩

namespace World.Lawful

variable {mode : Scheduling} {tr : List Event} {own : Option Token} {w w' : World} {ev : Event}
  {o : Operation} {wait : Option Wait} {s s' : Phase} {x : Exchange}

theorem key_of_carries (hw : w.Lawful tr) {p : Owner} {lock key : String} {token : Token}
    (hm : MintedFor tr p lock token) (hc : w.Carries key token) : key = lockKey lock := by
  obtain ⟨e, he, ht⟩ := hc
  obtain ⟨n, -, rfl⟩ := hw.serial _ _ _ hm
  obtain ⟨p', lock', token', deadline, rfl, hm', rfl⟩ :=
    hw.keys key e (Keyspace.live?_eq_some.1 he).1 (.inr ⟨n, ht⟩)
  rw [Entry.holds_iff, Entry.ofText_inj] at ht
  obtain ⟨-, rfl⟩ := hw.unique _ _ _ _ _ hm (ht ▸ hm')
  rfl

theorem not_carries_next (hw : w.Lawful tr) (key : String) :
    ¬ w.Carries key (Token.ofSerial w.nextToken) := by
  rintro ⟨e, he, ht⟩
  obtain ⟨p, lock, token, deadline, rfl, hm, rfl⟩ :=
    hw.keys key e (Keyspace.live?_eq_some.1 he).1 (.inr ⟨_, ht⟩)
  rw [Entry.holds_iff, Entry.ofText_inj] at ht
  obtain ⟨n, hlt, hn⟩ := hw.serial _ _ _ hm
  have := Token.ofSerial_inj.1 (hn.symm.trans ht)
  omega

/-- The world stays lawful when keys change as they may, the next token is minted and what is
recorded is a token of the owner. -/
theorem step (hw : w.Lawful tr) (hkey : ∀ key, KeyChange tr own w ev w' key)
    (hnext : w.nextToken ≤ w'.nextToken)
    (hmint : ∀ (o : Operation) p lock token, o.ActsFor p lock → ev = .did o ⟨.mint, token⟩ →
      token = Token.ofSerial w.nextToken ∧ w.nextToken < w'.nextToken)
    (hrec : ∀ token, Recorded (tr ++ [ev]) token →
      Recorded tr token ∨ ∃ p lock, MintedFor tr p lock token)
    (hreg : ∀ p lock token, w'.heldBy p lock = some token →
      w.heldBy p lock = some token ∨
        MintedFor (tr ++ [ev]) p lock token ∧ Recorded (tr ++ [ev]) token) :
    w'.Lawful (tr ++ [ev]) where
  serial := by
    intro p lock token hm
    rcases mintedFor_concat.1 hm with hm | ⟨o, ho, hev⟩
    · obtain ⟨n, hlt, rfl⟩ := hw.serial p lock token hm
      exact ⟨n, Nat.lt_of_lt_of_le hlt hnext, rfl⟩
    · obtain ⟨rfl, hlt⟩ := hmint o p lock token ho hev
      exact ⟨_, hlt, rfl⟩
  unique := by
    have hnew : ∀ {p lock}, ¬ MintedFor tr p lock (Token.ofSerial w.nextToken) := by
      intro p lock hm
      obtain ⟨n, hlt, hn⟩ := hw.serial p lock _ hm
      have := Token.ofSerial_inj.1 hn
      omega
    intro p p' lock lock' token hm hm'
    rcases mintedFor_concat.1 hm with hm | ⟨o, ho, hev⟩
    · rcases mintedFor_concat.1 hm' with hm' | ⟨o', ho', hev'⟩
      · exact hw.unique _ _ _ _ _ hm hm'
      · obtain ⟨rfl, -⟩ := hmint o' _ _ _ ho' hev'
        exact absurd hm hnew
    · rcases mintedFor_concat.1 hm' with hm' | ⟨o', ho', hev'⟩
      · obtain ⟨rfl, -⟩ := hmint o _ _ _ ho hev
        exact absurd hm' hnew
      · cases hev.symm.trans hev'
        exact ho.unique ho'
  recorded := by
    intro token htoken
    obtain ⟨p, lock, hm⟩ := (hrec token htoken).elim (hw.recorded token) id
    exact ⟨p, lock, hm.append _⟩
  registry := by
    intro p lock token hheld
    rcases hreg p lock token hheld with hheld | h
    · obtain ⟨hm, hrec⟩ := hw.registry p lock token hheld
      exact ⟨hm.append _, hrec.append _⟩
    · exact h
  keys := by
    intro key e he hor
    cases hkey key with
    | same h =>
      obtain ⟨p, lock, token, deadline, hk, hm, rfl⟩ := hw.keys key e (h ▸ he) hor
      exact ⟨p, lock, token, deadline, hk, hm.append _, rfl⟩
    | foreign hno h =>
      rcases hor with ⟨lock, hk⟩ | ⟨n, hn⟩
      · exact absurd hk (hno lock)
      · exact absurd ((h e n he).symm.trans hn) Bool.false_ne_true
    | purged hev hgone h => cases h.symm.trans he
    | wrote ho hk hev hm hown hgone h =>
      cases he.symm.trans h
      exact ⟨_, _, _, _, hk, hm.append _, rfl⟩
    | deleted ho hk hev hm hown hlive h => cases h.symm.trans he
    | extended ho hk hev hm hrec hpos hlive h =>
      cases he.symm.trans h
      exact ⟨_, _, _, _, hk, hm.append _, rfl⟩

end World.Lawful

/-! ## What leaves locks alone -/

/-- A step that is not one of a lock operation leaves registries, tokens and lock keys alone, and
writes no token. -/
structure World.Spares (w w' : World) : Prop where
  registries : w'.registries = w.registries
  nextToken : w'.nextToken = w.nextToken
  keys : ∀ key, w'.store.keyspace.find? key = w.store.keyspace.find? key ∨
    (∀ lock, key ≠ lockKey lock) ∧
      ∀ e n, w'.store.keyspace.find? key = some e → e.holds (Token.ofSerial n) = false

/-- Whether an event is not one of lock operations although it may be about them. -/
def Event.IsForeign : Event → Prop
  | .did o _ => ¬ o.IsLock
  | .performed _ => True
  | _ => False

/-- Whether an event is about a lock operation that works. -/
def Event.IsDeed (ev : Event) : Prop := ∃ o x, ev = .did o x ∧ o.IsLock

theorem Event.not_isDeed {ev : Event} (h : ∀ o x, ev ≠ .did o x) : ¬ ev.IsDeed :=
  fun ⟨o, x, hev, _⟩ => h o x hev

theorem World.Alike.spares {w w' : World} (h : w.Alike w') : w.Spares w' :=
  ⟨h.registries, h.nextToken, fun _ => .inl (by rw [h.keyspace])⟩

namespace World

variable {tr : List Event} {w w' : World} {ev : Event}

theorem Spares.keyChange (h : w.Spares w') (own : Option Token) (key : String) :
    KeyChange tr own w ev w' key := by
  rcases h.keys key with h | ⟨hno, h⟩
  · exact .same h
  · exact .foreign hno h

theorem recorded_of_not_isDeed {token : Token} (hev : ¬ ev.IsDeed)
    (h : Recorded (tr ++ [ev]) token) : Recorded tr token := by
  rcases recorded_concat.1 h with h | ⟨o, p, lock, ho, rfl⟩
  · exact h
  · exact absurd ⟨_, _, rfl, ho.isLock⟩ hev

/-- The world stays lawful when registries only shrink and no deed is done. -/
theorem Lawful.quiet (hw : w.Lawful tr) (hev : ¬ ev.IsDeed)
    (hkey : ∀ key, KeyChange tr none w ev w' key) (hnext : w'.nextToken = w.nextToken)
    (hreg : ∀ p lock token, w'.heldBy p lock = some token → w.heldBy p lock = some token) :
    w'.Lawful (tr ++ [ev]) := by
  refine hw.step hkey (Nat.le_of_eq hnext.symm) ?_
    (fun _ h => .inl (recorded_of_not_isDeed hev h))
    fun p lock token h => .inl (hreg p lock token h)
  rintro o p lock token ho rfl
  exact absurd ⟨_, _, rfl, ho.isLock⟩ hev

/-- The world stays lawful when locks are left alone. -/
theorem Lawful.spares (hw : w.Lawful tr) (hev : ¬ ev.IsDeed) (h : w.Spares w') :
    w'.Lawful (tr ++ [ev]) := by
  refine hw.quiet hev (h.keyChange none) h.nextToken fun p lock token hheld => ?_
  rw [Ledger.heldBy, Ledger.registry, h.registries] at hheld
  exact hheld

end World

end Latchkey
