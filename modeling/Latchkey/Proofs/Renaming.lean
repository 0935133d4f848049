import Latchkey.Proofs.LiveValues
import Latchkey.Proofs.Tokens

/-!
# Renamed tokens

Two runs that mint tokens from different serial numbers on have the same registries and the same
lock keys but for the tokens in them: where one has the `n`-th token of its series the other has the
`n`-th token of its own. No operation on registries or keyspaces tells two such states apart. What a
command does with the token under a key does not depend on how tokens are renamed, and is told of
any renaming.

The main statements are that the operations respect `Registry.Renamed` and `Keyspace.Renamed`.
-/

namespace Latchkey

/-! ## Tables -/

namespace Table

variable {κ ν ν' : Type} [DecidableEq κ] {R : ν → ν' → Prop} {t : Table κ ν} {t' : Table κ ν'}

/-- The same keys are bound, in the same order, and to related values. -/
structure Matches (R : ν → ν' → Prop) (t : Table κ ν) (t' : Table κ ν') : Prop where
  keys : t'.keys = t.keys
  values : ∀ k, Option.Rel R (t.find? k) (t'.find? k)

theorem keys_erase (t : Table κ ν) (k : κ) : (t.erase k).keys = t.keys.filter (· ≠ k) := by
  unfold keys erase filter
  rw [List.filter_map]
  rfl

namespace Matches

theorem empty : Matches R (∅ : Table κ ν) (∅ : Table κ ν') := ⟨rfl, fun _ => .none⟩

theorem getD {t? : Option (Table κ ν)} {t'? : Option (Table κ ν')}
    (h : Option.Rel (Matches R) t? t'?) : Matches R (t?.getD ∅) (t'?.getD ∅) := by
  cases h with
  | some h => exact h
  | none => exact .empty

theorem erase (h : Matches R t t') (k : κ) : Matches R (t.erase k) (t'.erase k) := by
  constructor
  · rw [keys_erase, keys_erase, h.keys]
  · intro k'
    rw [find?_erase, find?_erase]
    by_cases hk : k' = k
    · rw [if_pos hk, if_pos hk]
      exact .none
    · rw [if_neg hk, if_neg hk]
      exact h.values k'

theorem insert (h : Matches R t t') (k : κ) {v : ν} {v' : ν'} (hv : R v v') :
    Matches R (t.insert k v) (t'.insert k v') := by
  constructor
  · show k :: (t'.erase k).keys = k :: (t.erase k).keys
    rw [(h.erase k).keys]
  · intro k'
    rw [find?_insert, find?_insert]
    by_cases hk : k' = k
    · rw [if_pos hk, if_pos hk]
      exact .some hv
    · rw [if_neg hk, if_neg hk]
      exact h.values k'

theorem alter (h : Matches R t t') (k : κ) {f : Option ν → Option ν} {f' : Option ν' → Option ν'}
    (hf : ∀ v v', Option.Rel R v v' → Option.Rel R (f v) (f' v')) :
    Matches R (t.alter k f) (t'.alter k f') := by
  have hbound := hf _ _ (h.values k)
  unfold Table.alter
  cases hv : f (t.find? k) with
  | none =>
    rw [hv] at hbound
    cases hv' : f' (t'.find? k) with
    | none => exact h.erase k
    | some v' =>
      rw [hv'] at hbound
      cases hbound
  | some v =>
    rw [hv] at hbound
    cases hv' : f' (t'.find? k) with
    | none =>
      rw [hv'] at hbound
      cases hbound
    | some v' =>
      rw [hv'] at hbound
      cases hbound with
      | some hvv' => exact h.insert k hvv'

theorem size (h : Matches R t t') : t'.size = t.size := by
  have hlength := congrArg List.length h.keys
  simpa [Table.keys, Table.size] using hlength

theorem isEmpty (h : Matches R t t') : t'.entries.isEmpty = t.entries.isEmpty := by
  have hsize : t'.entries.length = t.entries.length := h.size
  rw [Bool.eq_iff_iff, List.isEmpty_iff_length_eq_zero, List.isEmpty_iff_length_eq_zero, hsize]

end Matches

end Table

/-! ## Tokens -/

/-- The tokens with the same number in two series, which start at the serial numbers `a` and `b`. -/
def Token.Renamed (a b : Nat) (t t' : Token) : Prop :=
  ∃ n, t = Token.ofSerial (a + n) ∧ t' = Token.ofSerial (b + n)

/-- A relation between tokens and their names: different tokens have different names, and one token
has one name. -/
def Token.IsRenaming (ρ : Token → Token → Prop) : Prop :=
  ∀ ⦃s s' t t'⦄, ρ s s' → ρ t t' → (s' = t' ↔ s = t)

theorem Token.isRenaming_renamed (a b : Nat) : Token.IsRenaming (Token.Renamed a b) := by
  rintro s s' t t' ⟨n, rfl, rfl⟩ ⟨k, rfl, rfl⟩
  rw [Token.ofSerial_inj, Token.ofSerial_inj]
  omega

/-- The names that one renaming gives another one gives too. -/
def Token.Keeps (ρ ρ' : Token → Token → Prop) : Prop := ∀ ⦃t t'⦄, ρ t t' → ρ' t t'

/-! ## Registries -/

namespace Registry

variable {a b : Nat} {r r' : Registry} {token token' : Token}

/-- The same contexts hold the same locks, with renamed tokens. -/
def Renamed (a b : Nat) (r r' : Registry) : Prop :=
  Table.Matches (Table.Matches (Token.Renamed a b)) r r'

theorem Renamed.locksOf (h : Renamed a b r r') (ctx : Context) :
    Table.Matches (Token.Renamed a b) (r.locksOf ctx) (r'.locksOf ctx) := .getD (h.values ctx)

theorem Renamed.held (h : Renamed a b r r') (ctx : Context) (lock : String) :
    Option.Rel (Token.Renamed a b) (r.held ctx lock) (r'.held ctx lock) := by
  have hlocks := h.values ctx
  unfold Registry.held
  generalize r.find? ctx = locks?, r'.find? ctx = locks'? at hlocks ⊢
  cases hlocks with
  | none => exact .none
  | some hl => exact hl.values lock

theorem Renamed.record (h : Renamed a b r r') (ctx : Context) (lock : String)
    (ht : Token.Renamed a b token token') :
    Renamed a b (r.record ctx lock token) (r'.record ctx lock token') :=
  Table.Matches.insert h ctx ((h.locksOf ctx).insert lock ht)

theorem Renamed.forget (h : Renamed a b r r') (ctx : Context) (lock : String) :
    Renamed a b (r.forget ctx lock) (r'.forget ctx lock) := by
  refine Table.Matches.alter h ctx ?_
  intro locks? locks'? hlocks
  cases hlocks with
  | none => exact .none
  | @some locks locks' hl =>
    have herased := hl.erase lock
    rw [Option.map_some, Option.map_some, Option.filter_some, Option.filter_some, herased.isEmpty]
    by_cases hkept : (!(locks.erase lock).entries.isEmpty) = true
    · rw [if_pos hkept, if_pos hkept]
      exact .some herased
    · rw [if_neg hkept, if_neg hkept]
      exact .none

theorem Renamed.dispose (h : Renamed a b r r') (ctx : Context) :
    Renamed a b (r.dispose ctx) (r'.dispose ctx) := Table.Matches.erase h ctx

theorem Renamed.heldCount (h : Renamed a b r r') (ctx : Context) :
    r'.heldCount ctx = r.heldCount ctx := (h.locksOf ctx).size

end Registry

/-! ## Values -/

/-- The values are texts of tokens and their names, and last equally long. -/
structure Entry.RenamedBy (ρ : Token → Token → Prop) (e e' : Entry) : Prop where
  deadline : e'.deadline = e.deadline
  tokens : ∃ t t', ρ t t' ∧ e.bytes = Entry.ofText t ∧ e'.bytes = Entry.ofText t'

namespace Entry.RenamedBy

variable {ρ ρ' : Token → Token → Prop} {e e' : Entry} {token token' : Token}

theorem mono (h : RenamedBy ρ e e') (hle : Token.Keeps ρ ρ') : RenamedBy ρ' e e' := by
  obtain ⟨t, t', ht, hbytes⟩ := h.tokens
  exact ⟨h.deadline, t, t', hle ht, hbytes⟩

theorem isLive (h : RenamedBy ρ e e') (now : Nat) : e'.isLive now = e.isLive now := by
  unfold Entry.isLive
  rw [h.deadline]

theorem holds (h : RenamedBy ρ e e') (hρ : Token.IsRenaming ρ) (ht : ρ token token') :
    e'.holds token' = e.holds token := by
  obtain ⟨s, s', hs, hbytes, hbytes'⟩ := h.tokens
  rw [Bool.eq_iff_iff, Entry.holds_iff, Entry.holds_iff, hbytes, hbytes', Entry.ofText_inj,
    Entry.ofText_inj]
  exact hρ hs ht

end Entry.RenamedBy

theorem rel_mono {α β : Type} {R R' : α → β → Prop} {a : Option α} {b : Option β}
    (h : Option.Rel R a b) (hle : ∀ ⦃a b⦄, R a b → R' a b) : Option.Rel R' a b := by
  cases h with
  | some h => exact .some (hle h)
  | none => exact .none

/-! ## Commands on two keyspaces -/

namespace Keyspace

variable {ρ : Token → Token → Prop} {ks ks' : Keyspace} {key : String} {token token' : Token}
  {now : Nat}

/-- Where a key has the same in both keyspaces it has the same value at any time. -/
theorem live?_rel (h : Option.Rel (Entry.RenamedBy ρ) (ks.find? key) (ks'.find? key)) (now : Nat) :
    Option.Rel (Entry.RenamedBy ρ) (ks.live? now key) (ks'.live? now key) := by
  unfold Keyspace.live?
  generalize ks.find? key = e?, ks'.find? key = e'? at h ⊢
  cases h with
  | none => exact .none
  | @some e e' he =>
    rw [Option.filter_some, Option.filter_some, he.isLive]
    by_cases hlive : e.isLive now = true
    · rw [if_pos hlive, if_pos hlive]
      exact .some he
    · rw [if_neg hlive, if_neg hlive]
      exact .none

theorem present_eq (h : Option.Rel (Entry.RenamedBy ρ) (ks.live? now key) (ks'.live? now key)) :
    ks'.present now key = ks.present now key := by
  unfold Keyspace.present
  generalize ks.live? now key = e?, ks'.live? now key = e'? at h ⊢
  cases h <;> rfl

/-- Two commands had the same answer and led to related keyspaces. -/
def Answers (K : Keyspace → Keyspace → Prop) (r r' : Keyspace × Bool) : Prop :=
  r'.2 = r.2 ∧ K r.1 r'.1

variable {K : Keyspace → Keyspace → Prop}

theorem set_answers (hlive : Option.Rel (Entry.RenamedBy ρ) (ks.live? now key) (ks'.live? now key))
    (h : K ks ks')
    (hinsert : ∀ e e', Entry.RenamedBy ρ e e' → K (ks.insert key e) (ks'.insert key e'))
    (ht : ρ token token') (ttl : Nat) (onlyIfAbsent : Bool) :
    Answers K (ks.set now key token ttl onlyIfAbsent)
      (ks'.set now key token' ttl onlyIfAbsent) := by
  unfold Keyspace.set
  rw [present_eq hlive]
  by_cases hkeep : (onlyIfAbsent && ks.present now key) = true
  · rw [if_pos hkeep, if_pos hkeep]
    exact ⟨rfl, h⟩
  · rw [if_neg hkeep, if_neg hkeep]
    exact ⟨rfl, hinsert _ _ ⟨rfl, token, token', ht, rfl, rfl⟩⟩

theorem compareAndDelete_answers
    (hlive : Option.Rel (Entry.RenamedBy ρ) (ks.live? now key) (ks'.live? now key)) (h : K ks ks')
    (herase : K (ks.erase key) (ks'.erase key)) (hρ : Token.IsRenaming ρ) (ht : ρ token token') :
    Answers K (ks.compareAndDelete now key token) (ks'.compareAndDelete now key token') := by
  unfold Keyspace.compareAndDelete
  generalize ks.live? now key = e?, ks'.live? now key = e'? at hlive ⊢
  cases hlive with
  | none => exact ⟨rfl, h⟩
  | @some e e' he =>
    dsimp only
    rw [he.holds hρ ht]
    by_cases hholds : e.holds token = true
    · rw [if_pos hholds, if_pos hholds]
      exact ⟨rfl, herase⟩
    · rw [if_neg hholds, if_neg hholds]
      exact ⟨rfl, h⟩

theorem compareAndExpire_answers
    (hlive : Option.Rel (Entry.RenamedBy ρ) (ks.live? now key) (ks'.live? now key)) (h : K ks ks')
    (hinsert : ∀ e e', Entry.RenamedBy ρ e e' → K (ks.insert key e) (ks'.insert key e'))
    (hρ : Token.IsRenaming ρ) (ht : ρ token token') (ttl : Nat) :
    Answers K (ks.compareAndExpire now key token ttl)
      (ks'.compareAndExpire now key token' ttl) := by
  unfold Keyspace.compareAndExpire
  generalize ks.live? now key = e?, ks'.live? now key = e'? at hlive ⊢
  cases hlive with
  | none => exact ⟨rfl, h⟩
  | @some e e' he =>
    dsimp only
    rw [he.holds hρ ht]
    by_cases hholds : e.holds token = true
    · rw [if_pos hholds, if_pos hholds]
      exact ⟨rfl, hinsert _ _ ⟨rfl, he.tokens⟩⟩
    · rw [if_neg hholds, if_neg hholds]
      exact ⟨rfl, h⟩

/-! ### One key -/

/-- A key has the same in both keyspaces, but for the name of the token. -/
def TwinsAt (ρ : Token → Token → Prop) (key : String) (ks ks' : Keyspace) : Prop :=
  Option.Rel (Entry.RenamedBy ρ) (ks.find? key) (ks'.find? key)

namespace TwinsAt

theorem present (h : TwinsAt ρ key ks ks') (now : Nat) :
    ks'.present now key = ks.present now key := present_eq (live?_rel h now)

theorem insert {e e' : Entry} (he : Entry.RenamedBy ρ e e') :
    TwinsAt ρ key (ks.insert key e) (ks'.insert key e') := by
  unfold TwinsAt
  rw [Table.find?_insert, Table.find?_insert, if_pos rfl, if_pos rfl]
  exact .some he

theorem erase : TwinsAt ρ key (ks.erase key) (ks'.erase key) := by
  unfold TwinsAt
  rw [Table.find?_erase, Table.find?_erase, if_pos rfl, if_pos rfl]
  exact .none

theorem set (h : TwinsAt ρ key ks ks') (ht : ρ token token') (now ttl : Nat) :
    Answers (TwinsAt ρ key) (ks.set now key token ttl true) (ks'.set now key token' ttl true) :=
  set_answers (live?_rel h now) h (fun _ _ => insert) ht ttl true

theorem compareAndDelete (h : TwinsAt ρ key ks ks') (hρ : Token.IsRenaming ρ) (ht : ρ token token')
    (now : Nat) : Answers (TwinsAt ρ key) (ks.compareAndDelete now key token)
      (ks'.compareAndDelete now key token') :=
  compareAndDelete_answers (live?_rel h now) h erase hρ ht

theorem compareAndExpire (h : TwinsAt ρ key ks ks') (hρ : Token.IsRenaming ρ) (ht : ρ token token')
    (now ttl : Nat) : Answers (TwinsAt ρ key) (ks.compareAndExpire now key token ttl)
      (ks'.compareAndExpire now key token' ttl) :=
  compareAndExpire_answers (live?_rel h now) h (fun _ _ => insert) hρ ht ttl

end TwinsAt

end Keyspace

/-! ## Renamed keyspaces -/

/-- The values are texts of renamed tokens, and last equally long. -/
structure Entry.Renamed (a b : Nat) (e e' : Entry) : Prop where
  deadline : e'.deadline = e.deadline
  tokens : ∃ t t', Token.Renamed a b t t' ∧ e.bytes = Entry.ofText t ∧ e'.bytes = Entry.ofText t'

theorem Entry.renamed_iff {a b : Nat} {e e' : Entry} :
    Entry.Renamed a b e e' ↔ Entry.RenamedBy (Token.Renamed a b) e e' :=
  ⟨fun h => ⟨h.deadline, h.tokens⟩, fun h => ⟨h.deadline, h.tokens⟩⟩

namespace Keyspace

variable {a b : Nat} {ks ks' : Keyspace} {key : String} {token token' : Token}

/-- The same keys have values, which are renamed tokens that last equally long. -/
def Renamed (a b : Nat) (ks ks' : Keyspace) : Prop := Table.Matches (Entry.Renamed a b) ks ks'

/-- Two operations had the same answer and led to renamed keyspaces. -/
def RenamedAnswers (a b : Nat) (r r' : Keyspace × Bool) : Prop :=
  r'.2 = r.2 ∧ Renamed a b r.1 r'.1

namespace Renamed

theorem live?_renamedBy (h : Renamed a b ks ks') (now : Nat) (key : String) :
    Option.Rel (Entry.RenamedBy (Token.Renamed a b)) (ks.live? now key) (ks'.live? now key) :=
  live?_rel (rel_mono (h.values key) fun _ _ he => Entry.renamed_iff.1 he) now

theorem live? (h : Renamed a b ks ks') (now : Nat) (key : String) :
    Option.Rel (Entry.Renamed a b) (ks.live? now key) (ks'.live? now key) :=
  rel_mono (h.live?_renamedBy now key) fun _ _ he => Entry.renamed_iff.2 he

theorem present (h : Renamed a b ks ks') (now : Nat) (key : String) :
    ks'.present now key = ks.present now key := present_eq (h.live?_renamedBy now key)

theorem remaining (h : Renamed a b ks ks') (now : Nat) (key : String) :
    ks'.remaining now key = ks.remaining now key := by
  have hlive := h.live? now key
  unfold Keyspace.remaining
  generalize ks.live? now key = e?, ks'.live? now key = e'? at hlive ⊢
  cases hlive with
  | none => rfl
  | some he =>
    rw [Option.bind_some, Option.bind_some, he.deadline]

theorem insert (h : Renamed a b ks ks') (key : String) (e e' : Entry)
    (he : Entry.RenamedBy (Token.Renamed a b) e e') :
    Renamed a b (ks.insert key e) (ks'.insert key e') :=
  Table.Matches.insert h key (Entry.renamed_iff.2 he)

theorem set (h : Renamed a b ks ks') (now : Nat) (key : String)
    (ht : Token.Renamed a b token token') (ttl : Nat) (onlyIfAbsent : Bool) :
    RenamedAnswers a b (ks.set now key token ttl onlyIfAbsent)
      (ks'.set now key token' ttl onlyIfAbsent) :=
  set_answers (h.live?_renamedBy now key) h (h.insert key) ht ttl onlyIfAbsent

theorem compareAndDelete (h : Renamed a b ks ks') (now : Nat) (key : String)
    (ht : Token.Renamed a b token token') :
    RenamedAnswers a b (ks.compareAndDelete now key token)
      (ks'.compareAndDelete now key token') :=
  compareAndDelete_answers (h.live?_renamedBy now key) h (Table.Matches.erase h key)
    (Token.isRenaming_renamed a b) ht

theorem compareAndExpire (h : Renamed a b ks ks') (now : Nat) (key : String)
    (ht : Token.Renamed a b token token') (ttl : Nat) :
    RenamedAnswers a b (ks.compareAndExpire now key token ttl)
      (ks'.compareAndExpire now key token' ttl) :=
  compareAndExpire_answers (h.live?_renamedBy now key) h (h.insert key)
    (Token.isRenaming_renamed a b) ht ttl

end Renamed

end Keyspace

end Latchkey
