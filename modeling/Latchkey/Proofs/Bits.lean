import Latchkey.Proofs.Frames

/-!
# Bits of values

To write a bit of a value changes this bit and no other. A key whose value has no deadline keeps it,
so that its bits can be spoken of without regard to time.

The main statements are `Entry.bit_setBit` and `Keyspace.Permanent.isSet_setBit`.
-/

namespace Latchkey

/-! ## Values -/

namespace Entry

theorem or_and (b m m' : UInt8) : (b ||| m) &&& m' = b &&& m' ||| m &&& m' := by
  apply UInt8.toBitVec_inj.1
  ext i hi
  simp [Bool.and_or_distrib_right]

/-- The masks of two bits of a byte are the same or have nothing in common. -/
theorem mask_and_mask (i j : Nat) :
    mask i &&& mask j = (if i % 8 = j % 8 then mask j else 0) ∧
      ~~~mask i &&& mask j = (if i % 8 = j % 8 then 0 else mask j) ∧ mask j ≠ 0 := by
  have hall : ∀ i j : Fin 8, mask i &&& mask j = (if i.val = j.val then mask j else 0) ∧
      ~~~mask i &&& mask j = (if i.val = j.val then 0 else mask j) ∧ mask j ≠ 0 := by
    decide
  have hmod : ∀ n, mask n = mask (n % 8) := fun n => by simp [mask]
  rw [hmod i, hmod j]
  exact hall ⟨i % 8, Nat.mod_lt i (by decide)⟩ ⟨j % 8, Nat.mod_lt j (by decide)⟩

/-- A byte with one of its bits written. -/
theorem withMask_and_mask (b : UInt8) (i j : Nat) (bit : Bool) :
    (withMask b (mask i) bit &&& mask j != 0) =
      if j % 8 = i % 8 then bit else b &&& mask j != 0 := by
  obtain ⟨hmeet, hrest, hne⟩ := mask_and_mask i j
  by_cases h : i % 8 = j % 8
  · rw [if_pos h] at hmeet hrest
    rw [if_pos h.symm]
    cases bit with
    | true =>
      have hset : (b ||| mask i) &&& mask j ≠ 0 := by
        rw [or_and, hmeet]
        exact fun hzero => hne (UInt8.or_eq_zero_iff.1 hzero).2
      exact bne_iff_ne.2 hset
    | false =>
      have hclear : (b &&& ~~~mask i) &&& mask j = 0 := by
        rw [UInt8.and_assoc, hrest, UInt8.and_zero]
      exact bne_eq_false_iff_eq.2 hclear
  · rw [if_neg h] at hmeet hrest
    rw [if_neg fun heq => h heq.symm]
    cases bit with
    | true =>
      show ((b ||| mask i) &&& mask j != 0) = _
      rw [or_and, hmeet, UInt8.or_zero]
    | false =>
      show ((b &&& ~~~mask i) &&& mask j != 0) = _
      rw [UInt8.and_assoc, hrest]

/-- The bytes are filled up with bytes of which no bit is set. -/
theorem getElem?_grown (bytes : Array UInt8) (index i : Nat) :
    (grown bytes index)[i]? = match bytes[i]? with
      | some b => some b
      | none => if i ≤ index then some 0 else none := by
  unfold grown
  split
  · next hsize =>
    rw [Array.getElem?_append]
    by_cases hi : i < bytes.size
    · rw [if_pos hi, Array.getElem?_eq_getElem hi]
    · rw [if_neg hi, Array.getElem?_eq_none (Nat.le_of_not_lt hi), Array.getElem?_replicate]
      have hle : i - bytes.size < index + 1 - bytes.size ↔ i ≤ index := by omega
      simp only [hle]
  · next hsize =>
    by_cases hi : i < bytes.size
    · rw [Array.getElem?_eq_getElem hi]
    · rw [Array.getElem?_eq_none (Nat.le_of_not_lt hi), if_neg (by omega)]

/-- Writing a bit changes this bit and no other. -/
theorem bit_setBit (e : Entry) (offset offset' : Nat) (bit : Bool) :
    (e.setBit offset bit).bit offset' = if offset' = offset then bit else e.bit offset' := by
  unfold Entry.bit setBit
  simp only [Array.getElem?_modify, getElem?_grown]
  by_cases hindex : offset / 8 = offset' / 8
  · have hsame : offset' = offset ↔ offset' % 8 = offset % 8 := by omega
    rw [if_pos hindex, hindex]
    simp only [hsame]
    cases e.bytes[offset' / 8]? with
    | some b => exact withMask_and_mask b offset offset' bit
    | none => simpa using withMask_and_mask 0 offset offset' bit
  · have hne : offset' ≠ offset := fun h => hindex (h ▸ rfl)
    rw [if_neg hindex, if_neg hne]
    cases e.bytes[offset' / 8]? with
    | some b => rfl
    | none =>
      dsimp only
      split
      · next heq =>
        split at heq
        · cases heq
          simp
        · cases heq
      · rfl

end Entry

/-! ## Keys -/

namespace Keyspace

/-- Whether the value of a key, if there is one, has no deadline. -/
def Permanent (ks : Keyspace) (key : String) : Prop :=
  ∀ e, ks.find? key = some e → e.deadline = none

/-- Whether a bit of the value of a key is set. -/
def IsSet (ks : Keyspace) (key : String) (offset : Nat) : Prop :=
  ∃ e, ks.find? key = some e ∧ e.bit offset = true

variable {ks ks' : Keyspace} {key : String}

theorem IsSet.found {offset : Nat} (h : ks.IsSet key offset) : (ks.find? key).isSome := by
  obtain ⟨e, he, -⟩ := h
  rw [he]
  rfl

theorem found_setBit (ks : Keyspace) (now : Nat) (key : String) (offset : Nat) (bit : Bool) :
    ((ks.setBit now key offset bit).1.find? key).isSome := by
  simp [setBit]

namespace Permanent

theorem of_find? (h : ks.Permanent key) (hfind : ks'.find? key = ks.find? key) :
    ks'.Permanent key :=
  fun e he => h e (hfind ▸ he)

variable (h : ks.Permanent key) (now offset : Nat)

include h

theorem live? : ks.live? now key = ks.find? key := by
  unfold Keyspace.live?
  cases hfind : ks.find? key with
  | none => rfl
  | some e =>
    have hlive : e.isLive now = true := by simp [Entry.isLive, h e hfind]
    rw [Option.filter_some, if_pos hlive]

theorem present : ks.present now key = (ks.find? key).isSome := by
  rw [Keyspace.present, h.live?]

theorem getBit : ks.getBit now key offset = true ↔ ks.IsSet key offset := by
  unfold Keyspace.getBit IsSet
  rw [h.live?]
  cases ks.find? key <;> simp

theorem setBit (bit : Bool) : (ks.setBit now key offset bit).1.Permanent key := by
  intro e he
  have hdeadline : ((ks.live? now key).getD ⟨#[], none⟩).deadline = none := by
    rw [h.live?]
    cases hfind : ks.find? key with
    | none => rfl
    | some e => exact h e hfind
  simp only [Keyspace.setBit, Table.find?_insert, if_true, Option.some.injEq] at he
  rw [← he]
  exact hdeadline

/-- Writing a bit of a key changes this bit and no other. -/
theorem isSet_setBit (bit : Bool) (offset' : Nat) :
    (ks.setBit now key offset bit).1.IsSet key offset' ↔
      if offset' = offset then bit = true else ks.IsSet key offset' := by
  have hbit : ((ks.live? now key).getD ⟨#[], none⟩).bit offset' = true ↔
      ks.IsSet key offset' := by
    unfold IsSet
    rw [h.live?]
    cases ks.find? key <;> simp [Entry.bit]
  have hset : (ks.setBit now key offset bit).1.IsSet key offset' ↔
      (((ks.live? now key).getD ⟨#[], none⟩).setBit offset bit).bit offset' = true := by
    simp [IsSet, Keyspace.setBit]
  rw [hset, Entry.bit_setBit]
  by_cases heq : offset' = offset
  · rw [if_pos heq, if_pos heq]
  · rw [if_neg heq, if_neg heq]
    exact hbit

end Permanent

end Keyspace

end Latchkey
