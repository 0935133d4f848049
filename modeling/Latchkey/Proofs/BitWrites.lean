import Latchkey.Proofs.LiveValues
import Latchkey.Proofs.Solo

/-!
# Writing bits

A value is read and written bit by bit, as if it went on with zeros for ever. To write a bit answers
what it was, changes it and no other, and lengthens the value by no more bytes than are needed to
hold it. Where there is no value, or only one that is gone, an empty one without a deadline is
begun.

The main statement is `setBit_law`, on what a store answers to commands that write and read bits.
-/

namespace Latchkey

namespace Entry

/-! ## Bytes -/

theorem toNat_mask (offset : Nat) : (mask offset).toNat = 1 <<< (7 - offset % 8) := by
  have hall : ∀ i : Fin 8, (mask i.val).toNat = 1 <<< (7 - i.val) := by decide
  have hmod : mask offset = mask (offset % 8) := by simp [mask]
  rw [hmod]
  exact hall ⟨offset % 8, Nat.mod_lt offset (by decide)⟩

/-- A bit of a byte is the one of its weight, the first being the heaviest. -/
theorem and_mask (b : UInt8) (offset : Nat) :
    (b &&& mask offset != 0) = b.toNat.testBit (7 - offset % 8) := by
  -- the mask lets one bit through
  have hbits : ∀ i, (b &&& mask offset).toNat.testBit i =
      (b.toNat.testBit i && decide (7 - offset % 8 = i)) := by
    intro i
    rw [UInt8.toNat_and, Nat.testBit_and, toNat_mask, Nat.one_shiftLeft, Nat.testBit_two_pow]
  cases hb : b.toNat.testBit (7 - offset % 8) with
  | true =>
    refine bne_iff_ne.2 fun hzero => ?_
    have hbit := hbits (7 - offset % 8)
    rw [hzero, hb] at hbit
    simp at hbit
  | false =>
    have hzero : (b &&& mask offset).toNat = 0 := by
      refine Nat.eq_of_testBit_eq fun i => ?_
      rw [hbits, Nat.zero_testBit]
      by_cases hi : 7 - offset % 8 = i
      · rw [← hi, hb, Bool.false_and]
      · rw [decide_eq_false hi, Bool.and_false]
    exact bne_eq_false_iff_eq.2 (UInt8.toNat_inj.1 hzero)

/-- A bit of a value, by its byte and its weight there. -/
theorem bit_eq_any (e : Entry) (offset : Nat) :
    e.bit offset = e.bytes[offset / 8]?.any fun b => b.toNat.testBit (7 - offset % 8) := by
  unfold bit
  cases e.bytes[offset / 8]? with
  | none => rfl
  | some b => exact and_mask b offset

/-! ## Values -/

theorem size_setBit (e : Entry) (offset : Nat) (bit : Bool) :
    (e.setBit offset bit).bytes.size = max e.bytes.size (offset / 8 + 1) := by
  simp only [setBit, Array.size_modify, grown]
  split
  · simp only [Array.size_append, Array.size_replicate]
    omega
  · omega

/-- Only one byte is written, and bytes that were not there are zero. -/
theorem getElem?_setBit {i offset : Nat} (e : Entry) (bit : Bool) (hi : i ≠ offset / 8)
    (hsize : i < max e.bytes.size (offset / 8 + 1)) :
    (e.setBit offset bit).bytes[i]? = some (e.bytes[i]?.getD 0) := by
  simp only [setBit, Array.getElem?_modify, getElem?_grown]
  rw [if_neg fun heq => hi heq.symm]
  cases hbyte : e.bytes[i]? with
  | some b => rfl
  | none =>
    have hle : i ≤ offset / 8 := by
      have := Array.getElem?_eq_none_iff.1 hbyte
      omega
    simp [hle]

/-- A bit that is written to an empty value. -/
theorem setBit_empty (deadline : Option Nat) (offset : Nat) (bit : Bool) :
    setBit ⟨#[], deadline⟩ offset bit =
      ⟨(Array.replicate (offset / 8) 0).push (UInt8.ofNat (bit.toNat <<< (7 - offset % 8))),
        deadline⟩ := by
  have hbyte : withMask 0 (mask offset) bit = UInt8.ofNat (bit.toNat <<< (7 - offset % 8)) := by
    cases bit with
    | true =>
      rw [withMask, if_pos rfl, UInt8.zero_or, Bool.toNat_true, ← toNat_mask, UInt8.ofNat_toNat]
    | false => simp [withMask]
  have hbytes : (setBit ⟨#[], deadline⟩ offset bit).bytes =
      (Array.replicate (offset / 8) 0).push (UInt8.ofNat (bit.toNat <<< (7 - offset % 8))) := by
    refine Array.ext_getElem? fun i => ?_
    simp only [setBit, Array.getElem?_modify, getElem?_grown, Array.getElem?_push,
      Array.size_replicate, Array.getElem?_replicate, ← hbyte]
    by_cases heq : i = offset / 8
    · simp [heq]
    · have hlt : i ≤ offset / 8 ↔ i < offset / 8 := by omega
      have hne : ¬ offset / 8 = i := fun h => heq h.symm
      simp [heq, hne, hlt]
  rw [← hbytes]
  rfl

end Entry

/-! ## Stores -/

namespace Keyspace

theorem getBit_eq (ks : Keyspace) (now : Nat) (key : String) (offset : Nat) :
    ks.getBit now key offset = ((ks.live? now key).getD ⟨#[], none⟩).bit offset := by
  unfold getBit
  cases ks.live? now key with
  | some e => rfl
  | none => simp [Entry.bit]

/-- Reading a bit after one was written. -/
theorem getBit_setBit (ks : Keyspace) (now : Nat) (key : String) (offset offset' : Nat)
    (bit : Bool) :
    (ks.setBit now key offset bit).1.getBit now key offset' =
      if offset' = offset then bit else ks.getBit now key offset' := by
  rw [getBit_eq, live?_setBit, Option.getD_some, Entry.bit_setBit, getBit_eq]

theorem find?_setBit {ks : Keyspace} {key key' : String} (now offset : Nat) (bit : Bool)
    (hne : key' ≠ key) : (ks.setBit now key offset bit).1.find? key' = ks.find? key' := by
  rw [setBit, Table.find?_insert, if_neg hne]

end Keyspace

namespace World

variable {w : World} {conn conn' : Connection} {key : String} {offset : Nat} {bit : Bool}

/-- The answer of the store to a command that reads a bit. -/
def readBit (w : World) (conn : Connection) (key : String) (offset : Nat) :
    Except StoreError Bool :=
  (w.answer none (.call (.command conn (.getBit key offset)))).2

/-- The answer of the store to a command that writes a bit, and the world after it. -/
def writeBit (w : World) (conn : Connection) (key : String) (offset : Nat) (bit : Bool) :
    World × Except StoreError Bool :=
  w.answer none (.call (.command conn (.setBit key offset bit)))

theorem readBit_eq (w : World) (conn : Connection) (key : String) (offset : Nat) :
    w.readBit conn key offset = .ok (w.store.keyspace.getBit w.now key offset) := rfl

theorem writeBit_eq (w : World) (conn : Connection) (key : String) (offset : Nat) (bit : Bool) :
    w.writeBit conn key offset bit =
      (w.withKeyspace (w.store.keyspace.setBit w.now key offset bit).1,
        w.readBit conn key offset) := by
  rw [readBit_eq, Keyspace.getBit_eq]
  rfl

end World

/-- What it comes to when a bit is written on a store whose writes take no time.

Neither the command nor one that reads a bit waits. The answer is the bit as it was, and nothing but
the keyspace changes. Then the bit is the one that was written, and every other bit of the key is
what it was. A value that was there keeps its deadline and all other bytes, and is as long as
before, or just long enough; bytes that are new are zero. Where no value was there, there is one
without a deadline that is just long enough and zero but for the bit. Other keys stay as they are.
A bit is read as the one of its weight in its byte, the first bit of a byte being the heaviest. -/
theorem setBit_law {w : World} (hlatency : w.store.latency = 0) (conn conn' : Connection)
    (key : String) (offset : Nat) (bit : Bool) :
    let w' := (w.writeBit conn key offset bit).1
    let ks := w.store.keyspace
    let ks' := w'.store.keyspace
    (w.wait? (.call (.command conn (.setBit key offset bit))) = none ∧
      ∀ o, w.wait? (.call (.command conn' (.getBit key o))) = none) ∧
    (w.writeBit conn key offset bit).2 = w.readBit conn' key offset ∧ w' = w.withKeyspace ks' ∧
    w'.readBit conn' key offset = .ok bit ∧
    (∀ o, o ≠ offset → w'.readBit conn' key o = w.readBit conn' key o) ∧
    (∀ e, ks.live? w.now key = some e → ∃ e', ks'.live? w.now key = some e' ∧
      e'.deadline = e.deadline ∧ e'.bytes.size = max e.bytes.size (offset / 8 + 1) ∧
      ∀ i, i ≠ offset / 8 → i < e'.bytes.size → e'.bytes[i]? = some (e.bytes[i]?.getD 0)) ∧
    (ks.live? w.now key = none → ks'.live? w.now key =
      some ⟨(Array.replicate (offset / 8) 0).push
        (UInt8.ofNat (bit.toNat <<< (7 - offset % 8))), none⟩) ∧
    (∀ key', key' ≠ key → ks'.find? key' = ks.find? key') ∧
    ∀ o, w.readBit conn' key o = .ok ((ks.live? w.now key).any fun e =>
      e.bytes[o / 8]?.any fun b => b.toNat.testBit (7 - o % 8)) := by
  intro w' ks ks'
  have hlive : ks'.live? w.now key =
      some (((ks.live? w.now key).getD ⟨#[], none⟩).setBit offset bit) :=
    Keyspace.live?_setBit ks w.now key offset bit
  have hread : ∀ o, w'.readBit conn' key o =
      .ok (if o = offset then bit else ks.getBit w.now key o) := fun o =>
    congrArg Except.ok (Keyspace.getBit_setBit ks w.now key offset o bit)
  refine ⟨⟨?_, fun _ => rfl⟩, ?_, rfl, ?_, ?_, ?_, ?_, ?_, ?_⟩
  · simp [World.wait?, World.commandWait?, Command.isWrite, hlatency]
  · rw [World.writeBit_eq]
    rfl
  · rw [hread, if_pos rfl]
  · intro o hne
    rw [hread, if_neg hne]
    rfl
  · intro e he
    rw [he, Option.getD_some] at hlive
    refine ⟨_, hlive, rfl, e.size_setBit offset bit, fun i hi hsize => ?_⟩
    rw [e.size_setBit] at hsize
    exact e.getElem?_setBit bit hi hsize
  · intro hgone
    rw [hlive, hgone, Option.getD_none, Entry.setBit_empty]
  · intro key' hne
    exact Keyspace.find?_setBit w.now offset bit hne
  · intro o
    rw [World.readBit_eq, Keyspace.getBit]
    cases ks.live? w.now key with
    | none => rfl
    | some e => exact congrArg Except.ok (e.bit_eq_any o)

/-- A store on which a value of two bytes is gone but still stored, and another one lives on. -/
def World.outlived : World :=
  { World.ofStore { Memory.standalone with
      keyspace := (Table.insert ∅ "k" ⟨#[0xff, 0xff], some 5⟩).insert "l" ⟨#[0xff], some 50⟩ } 0
    with now := 10 }

/-- A bit that is written over a value that is gone: the old bits do not come back, the new value
has no deadline, and the other key is as before. -/
theorem setBit_law_outlived :
    let conn : Connection := ⟨0, Memory.nodeName 0⟩
    let w' := (World.outlived.writeBit conn "k" 9 true).1
    World.outlived.store.latency = 0 ∧
    World.outlived.store.keyspace.live? World.outlived.now "k" = none ∧
    (World.outlived.writeBit conn "k" 9 true).2 = .ok false ∧
    w'.readBit conn "k" 9 = .ok true ∧ w'.readBit conn "k" 0 = .ok false ∧
    w'.store.keyspace.live? 10 "k" = some ⟨#[0, 0x40], none⟩ ∧
    w'.store.keyspace.find? "l" = some ⟨#[0xff], some 50⟩ := by
  intro conn w'
  have hgone : World.outlived.store.keyspace.live? World.outlived.now "k" = none := by decide
  obtain ⟨-, hwas, -, hbit, hothers, -, hbegun, hkeys, -⟩ :=
    @setBit_law World.outlived rfl conn conn "k" 9 true
  exact ⟨rfl, hgone, hwas, hbit, hothers 0 (by decide), hbegun hgone, hkeys "l" (by decide)⟩

end Latchkey
