import Latchkey.Proofs.Bits

/-!
# Values that are there

The value of a key that is there at a time decides what is there later: a value that is gone does
not come back by itself. So two keyspaces are the same to all operations from a time on if every key
has the same value in both at that time, whatever is still stored of values that are gone.

The main statements are `Keyspace.live?_later`, and that the operations respect `Keyspace.SameAt`.
-/

namespace Latchkey

/-! ## Tables -/

theorem Table.size_congr {κ ν : Type} [DecidableEq κ] {t t' : Table κ ν}
    (h : ∀ k, t'.find? k = t.find? k) : t'.size = t.size := by
  have hkeys : ∀ k, k ∈ t'.keys ↔ k ∈ t.keys := by
    intro k
    rw [mem_keys, mem_keys, contains, contains, h]
  have hperm : t'.keys.Perm t.keys := (List.perm_ext_iff_of_nodup t'.nodup t.nodup).2 hkeys
  have hlength := hperm.length_eq
  simpa [Table.keys, Table.size] using hlength

/-! ## Values and time -/

theorem Entry.isLive_of_le {e : Entry} {now t : Nat} (hle : now ≤ t) (h : e.isLive t = true) :
    e.isLive now = true := by
  unfold Entry.isLive at h ⊢
  cases hd : e.deadline with
  | none => rfl
  | some d =>
    rw [hd] at h
    simp only [Option.all_some, decide_eq_true_eq] at h ⊢
    omega

namespace Keyspace

variable {ks ks' ks'' : Keyspace} {now t : Nat} {key : String}

/-- Later a key has the value that it has now, unless that is gone by then. -/
theorem live?_later (ks : Keyspace) (key : String) (hle : now ≤ t) :
    ks.live? t key = (ks.live? now key).filter fun e => e.isLive t := by
  unfold live?
  cases ks.find? key with
  | none => rfl
  | some e =>
    by_cases ht : e.isLive t = true
    · have hnow : e.isLive now = true := Entry.isLive_of_le hle ht
      simp [Option.filter_some, ht, hnow]
    · by_cases hnow : e.isLive now = true
      · simp [Option.filter_some, ht, hnow]
      · simp [Option.filter_some, ht, hnow]

/-- A value that is gone stays gone. -/
theorem live?_eq_none_later (hle : now ≤ t) (h : ks.live? now key = none) :
    ks.live? t key = none := by
  rw [live?_later ks key hle, h]
  rfl

theorem live?_insert (ks : Keyspace) (now : Nat) (key key' : String) (e : Entry) :
    live? (ks.insert key e) now key' =
      if key' = key then if e.isLive now then some e else none else ks.live? now key' := by
  unfold live?
  rw [Table.find?_insert]
  by_cases h : key' = key
  · rw [if_pos h, if_pos h, Option.filter_some]
  · rw [if_neg h, if_neg h]

theorem live?_erase (ks : Keyspace) (now : Nat) (key key' : String) :
    live? (ks.erase key) now key' = if key' = key then none else ks.live? now key' := by
  unfold live?
  rw [Table.find?_erase]
  by_cases h : key' = key
  · rw [if_pos h, if_pos h]
    rfl
  · rw [if_neg h, if_neg h]

/-- A bit is written to the value that is there, or to an empty one without a deadline. -/
theorem live?_setBit (ks : Keyspace) (now : Nat) (key : String) (offset : Nat) (bit : Bool) :
    (ks.setBit now key offset bit).1.live? now key =
      some (((ks.live? now key).getD ⟨#[], none⟩).setBit offset bit) := by
  have hlive : (((ks.live? now key).getD ⟨#[], none⟩).setBit offset bit).isLive now = true := by
    cases he : ks.live? now key with
    | none => rfl
    | some e => exact (live?_eq_some.1 he).2
  unfold setBit
  rw [live?_insert, if_pos rfl, if_pos hlive]

/-! ## The same values -/

/-- At a time every key has the same value in both keyspaces. -/
def SameAt (now : Nat) (ks ks' : Keyspace) : Prop := ∀ key, ks'.live? now key = ks.live? now key

namespace SameAt

theorem refl (now : Nat) (ks : Keyspace) : SameAt now ks ks := fun _ => rfl

theorem symm (h : SameAt now ks ks') : SameAt now ks' ks := fun key => (h key).symm

theorem trans (h : SameAt now ks ks') (h' : SameAt now ks' ks'') : SameAt now ks ks'' :=
  fun key => (h' key).trans (h key)

theorem later (h : SameAt now ks ks') (hle : now ≤ t) : SameAt t ks ks' := by
  intro key
  rw [live?_later ks' key hle, live?_later ks key hle, h key]

theorem insert (h : SameAt now ks ks') (key : String) (e : Entry) :
    SameAt now (ks.insert key e) (ks'.insert key e) := by
  intro key'
  rw [live?_insert, live?_insert, h key']

theorem erase (h : SameAt now ks ks') (key : String) :
    SameAt now (ks.erase key) (ks'.erase key) := by
  intro key'
  rw [live?_erase, live?_erase, h key']

/-- What was removed because it is gone, nobody misses. -/
theorem purge (now : Nat) (ks : Keyspace) : SameAt now ks (ks.purge now).1 := by
  intro key
  have hfind : (ks.purge now).1.find? key = ks.live? now key := find?_purge ks now key
  rw [Keyspace.live?, hfind, Keyspace.live?, Option.filter_filter]
  simp

/-- A value that is gone may as well not be stored. -/
theorem erase_gone (hgone : ks.live? now key = none) : SameAt now ks (ks.erase key) := by
  intro key'
  rw [live?_erase]
  by_cases hkey : key' = key
  · rw [if_pos hkey, hkey, hgone]
  · rw [if_neg hkey]

theorem count (h : SameAt now ks ks') : ks'.count now = ks.count now := by
  refine Table.size_congr fun key => ?_
  rw [Table.find?_filter, Table.find?_filter]
  exact h key

theorem present (h : SameAt now ks ks') (key : String) :
    ks'.present now key = ks.present now key := by
  unfold Keyspace.present
  rw [h key]

theorem getBit (h : SameAt now ks ks') (key : String) (offset : Nat) :
    ks'.getBit now key offset = ks.getBit now key offset := by
  unfold Keyspace.getBit
  rw [h key]

theorem remaining (h : SameAt now ks ks') (key : String) :
    ks'.remaining now key = ks.remaining now key := by
  unfold Keyspace.remaining
  rw [h key]

/-- Two changes that answer alike and lead to the same values. -/
def Answers (now : Nat) (r r' : Keyspace × Bool) : Prop := r'.2 = r.2 ∧ SameAt now r.1 r'.1

theorem set (h : SameAt now ks ks') (key value : String) (ttl : Nat) (onlyIfAbsent : Bool) :
    Answers now (ks.set now key value ttl onlyIfAbsent)
      (ks'.set now key value ttl onlyIfAbsent) := by
  unfold Keyspace.set
  rw [h.present key]
  split
  · exact ⟨rfl, h⟩
  · exact ⟨rfl, h.insert key _⟩

theorem compareAndDelete (h : SameAt now ks ks') (key expected : String) :
    Answers now (ks.compareAndDelete now key expected)
      (ks'.compareAndDelete now key expected) := by
  unfold Keyspace.compareAndDelete
  rw [h key]
  split
  · split
    · exact ⟨rfl, h.erase key⟩
    · exact ⟨rfl, h⟩
  · exact ⟨rfl, h⟩

theorem compareAndExpire (h : SameAt now ks ks') (key expected : String) (ttl : Nat) :
    Answers now (ks.compareAndExpire now key expected ttl)
      (ks'.compareAndExpire now key expected ttl) := by
  unfold Keyspace.compareAndExpire
  rw [h key]
  split
  · split
    · exact ⟨rfl, h.insert key _⟩
    · exact ⟨rfl, h⟩
  · exact ⟨rfl, h⟩

theorem setBit (h : SameAt now ks ks') (key : String) (offset : Nat) (bit : Bool) :
    Answers now (ks.setBit now key offset bit) (ks'.setBit now key offset bit) := by
  unfold Keyspace.setBit
  rw [h key]
  exact ⟨rfl, h.insert key _⟩

theorem expire (h : SameAt now ks ks') (key : String) (ttl : Nat) :
    Answers now (ks.expire now key ttl) (ks'.expire now key ttl) := by
  unfold Keyspace.expire
  rw [h key]
  split
  · exact ⟨rfl, h.insert key _⟩
  · exact ⟨rfl, h⟩

end SameAt

end Keyspace

end Latchkey
